import Mathlib.Data.List.Basic
import Mathlib.Logic.Function.Basic

/-!
# Messages that come more than once

A receiver that is told some things twice keeps the keys of the messages it has taken, each with the
time at which it was stored, and drops a message whose key it knows.  Keys are forgotten again some
time after they were stored.  Whoever reads the clock reads it once for each entry that may be
forgotten and once for the entry that is made.

`fresh` are the messages that are taken.  If copies of messages are slipped into a stream before
their keys are forgotten, the messages taken are the same (`fresh_of_inserted`).
-/

namespace Nanobook.Dedup

universe u v

/-- The keys that are known, with the times at which they were stored. -/
abbrev Entries (K : Type v) := K → Option Nat

/-- What the receiver reads when a message is there: its key, if it is one that is kept, and the
clock. -/
structure Reader (D : Type u) (K : Type v) where
  key : D → Option K
  sweptAt : D → K → Nat
  storedAt : D → Nat
  ttl : Nat

variable {D : Type u} {K : Type v}

/-- Forget what was stored too long ago. -/
def sweep (ttl : Nat) (now : K → Nat) (known : Entries K) : Entries K := fun k ↦
  (known k).filter fun stored ↦ now k - stored < ttl

/-- Whether a key is known, and the entries with it. -/
def check [DecidableEq K] (ttl : Nat) (now : K → Nat) (stored : Nat) (k : K)
    (known : Entries K) : Bool × Entries K :=
  let known := sweep ttl now known
  if (known k).isSome then (true, known) else (false, Function.update known k (some stored))

namespace Reader

variable (W : Reader D K)

/-- What was stored with the message `e` is still known when `d` is there. -/
def Live (d e : D) (k : K) : Prop := W.sweptAt d k - W.storedAt e < W.ttl

instance (d e : D) (k : K) : Decidable (W.Live d e k) := inferInstanceAs (Decidable (_ < _))

/-! ## Copies -/

/-- Copies are slipped into a stream.  The messages that were there before, `seen` in both streams,
are related by `Same`, and the clocks agree on what is forgotten of them.  A copy, `Copy` of a
message that was there before, comes while the keys it could have are still known. -/
inductive Inserted (Same Copy : D → D → Prop) : List (D × D) → List D → List D → Prop
  | nil {seen} : Inserted Same Copy seen [] []
  | original {seen d d' ds ds'} (same : Same d d')
      (clocks : ∀ e ∈ seen, ∀ k, W.key e.2 = some k → (W.Live d e.1 k ↔ W.Live d' e.2 k))
      (rest : Inserted Same Copy ((d, d') :: seen) ds ds') :
      Inserted Same Copy seen (d :: ds) (d' :: ds')
  | copy {seen c ds ds'} (copied : ∃ e ∈ seen, Copy c e.2)
      (live : ∀ e ∈ seen, ∀ k, W.key c = some k → W.key e.2 = some k → W.Live c e.2 k)
      (rest : Inserted Same Copy seen ds ds') :
      Inserted Same Copy seen ds (c :: ds')

/-- What the entries of two receivers say of a key, the second of which gets the copies and is still
to read `rest`. -/
inductive Tracks (seen : List (D × D)) (rest : List D) (k : K) (known known' : Option Nat) : Prop
  | unseen (h : ∀ e ∈ seen, W.key e.2 ≠ some k) (hknown : known = none) (hknown' : known' = none)
  | kept (e : D × D) (he : e ∈ seen) (hk : W.key e.2 = some k)
      (hknown : known = some (W.storedAt e.1)) (hknown' : known' = some (W.storedAt e.2))
  -- The second receiver has forgotten the key, perhaps on a copy.  The first will not find it.
  | expired (e : D × D) (he : e ∈ seen) (hk : W.key e.2 = some k)
      (hrest : ∀ d ∈ rest, ¬W.Live d e.2 k) (hknown : ∀ t, known = some t → t = W.storedAt e.1)
      (hknown' : known' = none)

/-- The entries of the first receiver are those of the second, for all the keys there are. -/
def Related (seen : List (D × D)) (rest : List D) (known known' : Entries K) : Prop :=
  ∀ d k, W.key d = some k → W.Tracks seen rest k (known k) (known' k)

/-- The clock does not go back. -/
def Forward (ds : List D) : Prop := ds.Pairwise fun d e ↦ ∀ k, W.sweptAt d k ≤ W.sweptAt e k

variable {W} {seen : List (D × D)} {rest ds ds' : List D} {d d' c : D} {k : K}
  {known known' : Entries K}

theorem not_live_of_le {e : D} (hle : W.sweptAt d k ≤ W.sweptAt d' k) (h : ¬W.Live d e k) :
    ¬W.Live d' e k := by
  simp only [Live] at h ⊢
  omega

theorem sweep_eq_of_live {e : D} (hknown : known k = some (W.storedAt e)) (h : W.Live d e k) :
    sweep W.ttl (W.sweptAt d) known k = some (W.storedAt e) := by
  rw [sweep, hknown]
  exact if_pos (decide_eq_true h)

theorem sweep_eq_of_not_live {e : D} (hknown : ∀ t, known k = some t → t = W.storedAt e)
    (h : ¬W.Live d e k) : sweep W.ttl (W.sweptAt d) known k = none := by
  cases hk : known k with
  | none => rw [sweep, hk, Option.filter_none]
  | some t =>
      obtain rfl := hknown t hk
      rw [sweep, hk]
      exact if_neg fun hlive ↦ h (of_decide_eq_true hlive)

theorem sweep_eq_none (hknown : known k = none) :
    sweep W.ttl (W.sweptAt d) known k = none := by
  rw [sweep, hknown, Option.filter_none]

/-! ### What a message changes -/

/-- Both receivers sweep on a message that was there before, and then know the same keys. -/
theorem Tracks.sweep_original (h : W.Tracks seen (d' :: rest) k (known k) (known' k))
    (clocks : ∀ e ∈ seen, ∀ k, W.key e.2 = some k → (W.Live d e.1 k ↔ W.Live d' e.2 k))
    (hforward : W.Forward (d' :: rest)) :
    W.Tracks seen rest k (sweep W.ttl (W.sweptAt d) known k)
        (sweep W.ttl (W.sweptAt d') known' k) ∧
      (sweep W.ttl (W.sweptAt d) known k).isSome =
        (sweep W.ttl (W.sweptAt d') known' k).isSome := by
  have hlater := (List.pairwise_cons.mp hforward).1
  cases h with
  | unseen h hknown hknown' =>
      rw [sweep_eq_none hknown, sweep_eq_none hknown']
      exact ⟨.unseen h rfl rfl, rfl⟩
  | kept e he hk hknown hknown' =>
      by_cases hlive : W.Live d' e.2 k
      · rw [sweep_eq_of_live hknown ((clocks e he k hk).mpr hlive), sweep_eq_of_live hknown' hlive]
        exact ⟨.kept e he hk rfl rfl, rfl⟩
      · have hgone := sweep_eq_of_not_live (fun t ht ↦ Option.some.inj (ht.symm.trans hknown))
          (mt (clocks e he k hk).mp hlive)
        have hgone' := sweep_eq_of_not_live (fun t ht ↦ Option.some.inj (ht.symm.trans hknown'))
          hlive
        rw [hgone, hgone']
        exact ⟨.expired e he hk (fun x hx ↦ not_live_of_le (hlater x hx k) hlive) nofun rfl, rfl⟩
  | expired e he hk hrest hknown hknown' =>
      have hlive := hrest d' List.mem_cons_self
      rw [sweep_eq_of_not_live hknown (mt (clocks e he k hk).mp hlive), sweep_eq_none hknown']
      exact ⟨.expired e he hk (fun x hx ↦ hrest x (List.mem_cons_of_mem _ hx)) nofun rfl, rfl⟩

/-- Only the second receiver sweeps on a copy. -/
theorem Tracks.sweep_copy (h : W.Tracks seen (c :: rest) k (known k) (known' k))
    (hforward : W.Forward (c :: rest)) :
    W.Tracks seen rest k (known k) (sweep W.ttl (W.sweptAt c) known' k) := by
  have hlater := (List.pairwise_cons.mp hforward).1
  cases h with
  | unseen h hknown hknown' => exact .unseen h hknown (sweep_eq_none hknown')
  | kept e he hk hknown hknown' =>
      by_cases hlive : W.Live c e.2 k
      · exact .kept e he hk hknown (sweep_eq_of_live hknown' hlive)
      · refine .expired e he hk (fun x hx ↦ not_live_of_le (hlater x hx k) hlive)
          (fun t ht ↦ Option.some.inj (ht.symm.trans hknown)) ?_
        exact sweep_eq_of_not_live (fun t ht ↦ Option.some.inj (ht.symm.trans hknown')) hlive
  | expired e he hk hrest hknown hknown' =>
      exact .expired e he hk (fun x hx ↦ hrest x (List.mem_cons_of_mem _ hx)) hknown
        (sweep_eq_none hknown')

/-- The key of a message that was there before is known as long as none of its messages is
forgotten. -/
theorem Tracks.isSome_sweep_copy (h : W.Tracks seen (c :: rest) k (known k) (known' k))
    (hseen : ∃ e ∈ seen, W.key e.2 = some k)
    (live : ∀ e ∈ seen, W.key e.2 = some k → W.Live c e.2 k) :
    (sweep W.ttl (W.sweptAt c) known' k).isSome = true := by
  cases h with
  | unseen h _ _ =>
      obtain ⟨e, he, hk⟩ := hseen
      exact absurd hk (h e he)
  | kept e he hk _ hknown' =>
      rw [sweep_eq_of_live hknown' (live e he hk)]
      rfl
  | expired e he hk hrest _ _ => exact absurd (live e he hk) (hrest c List.mem_cons_self)

/-- A message makes no difference to the other keys. -/
theorem Tracks.cons_of_ne {t t' : Option Nat} (h : W.Tracks seen rest k t t')
    (hne : W.key d' ≠ some k) : W.Tracks ((d, d') :: seen) rest k t t' := by
  cases h with
  | unseen h hknown hknown' => exact .unseen (List.forall_mem_cons.mpr ⟨hne, h⟩) hknown hknown'
  | kept e he hk hknown hknown' => exact .kept e (List.mem_cons_of_mem _ he) hk hknown hknown'
  | expired e he hk hrest hknown hknown' =>
      exact .expired e (List.mem_cons_of_mem _ he) hk hrest hknown hknown'

theorem Tracks.tail {t t' : Option Nat} (h : W.Tracks seen (d' :: rest) k t t') :
    W.Tracks seen rest k t t' := by
  cases h with
  | unseen h hknown hknown' => exact .unseen h hknown hknown'
  | kept e he hk hknown hknown' => exact .kept e he hk hknown hknown'
  | expired e he hk hrest hknown hknown' =>
      exact .expired e he hk (fun x hx ↦ hrest x (List.mem_cons_of_mem _ hx)) hknown hknown'

/-! ## What is taken -/

variable [DecidableEq K]

variable (W) in
/-- Whether a message is dropped, and the entries after it. -/
def step (known : Entries K) (d : D) : Bool × Entries K :=
  match W.key d with
  | none => (false, known)
  | some k => check W.ttl (W.sweptAt d) (W.storedAt d) k known

variable (W) in
/-- The messages that are taken. -/
def fresh : Entries K → List D → List D
  | _, [] => []
  | known, d :: ds =>
      match W.step known d with
      | (true, known) => fresh known ds
      | (false, known) => d :: fresh known ds

theorem fresh_sublist (known : Entries K) (ds : List D) : (W.fresh known ds).Sublist ds := by
  induction ds generalizing known with
  | nil => exact .slnil
  | cons d ds ih =>
      rw [fresh]
      rcases W.step known d with ⟨_ | _, known'⟩
      · exact (ih known').cons_cons d
      · exact (ih known').cons d

/-- Both receivers do the same with a message that was there before. -/
theorem Related.step_original (h : W.Related seen (d' :: rest) known known')
    (hkey : W.key d = W.key d')
    (clocks : ∀ e ∈ seen, ∀ k, W.key e.2 = some k → (W.Live d e.1 k ↔ W.Live d' e.2 k))
    (hforward : W.Forward (d' :: rest)) :
    (W.step known d).1 = (W.step known' d').1 ∧
      W.Related ((d, d') :: seen) rest (W.step known d).2 (W.step known' d').2 := by
  cases hk : W.key d' with
  | none =>
      rw [step, step, hkey, hk]
      exact ⟨rfl, fun x k hx ↦ ((h x k hx).tail).cons_of_ne (by rw [hk]; nofun)⟩
  | some k =>
      obtain ⟨htracks, hsome⟩ := (h d' k hk).sweep_original clocks hforward
      simp only [step, hkey, hk, check]
      by_cases hdup : (sweep W.ttl (W.sweptAt d') known' k).isSome = true
      · rw [if_pos (hsome.trans hdup), if_pos hdup]
        refine ⟨rfl, fun x k' hx ↦ ?_⟩
        by_cases hkk : k' = k
        · subst hkk
          cases htracks with
          | unseen _ _ hknown' | expired _ _ _ _ _ hknown' =>
              rw [hknown'] at hdup
              cases hdup
          | kept e he hk hknown hknown' =>
              exact .kept e (List.mem_cons_of_mem _ he) hk hknown hknown'
        · refine ((h x k' hx).sweep_original clocks hforward).1.cons_of_ne ?_
          rw [hk]
          exact fun heq ↦ hkk (Option.some.inj heq).symm
      · rw [if_neg (hsome ▸ hdup), if_neg hdup]
        refine ⟨rfl, fun x k' hx ↦ ?_⟩
        by_cases hkk : k' = k
        · subst hkk
          exact .kept (d, d') List.mem_cons_self hk (Function.update_self ..)
            (Function.update_self ..)
        · dsimp only
          rw [Function.update_of_ne hkk, Function.update_of_ne hkk]
          refine ((h x k' hx).sweep_original clocks hforward).1.cons_of_ne ?_
          rw [hk]
          exact fun heq ↦ hkk (Option.some.inj heq).symm

/-- A copy is dropped. -/
theorem Related.step_copy (h : W.Related seen (c :: rest) known known') (hk : W.key c = some k)
    (hseen : ∃ e ∈ seen, W.key e.2 = some k)
    (live : ∀ e ∈ seen, W.key e.2 = some k → W.Live c e.2 k)
    (hforward : W.Forward (c :: rest)) :
    (W.step known' c).1 = true ∧ W.Related seen rest known (W.step known' c).2 := by
  simp only [step, hk, check]
  rw [if_pos ((h c k hk).isSome_sweep_copy hseen live)]
  exact ⟨rfl, fun x k' hx ↦ (h x k' hx).sweep_copy hforward⟩

/-- The same messages are taken from a stream with copies as from the stream without. -/
theorem fresh_of_inserted {Same Copy : D → D → Prop}
    (hsame : ∀ d d', Same d d' → W.key d = W.key d')
    (hcopy : ∀ c e, Copy c e → ∃ k, W.key c = some k ∧ W.key e = some k)
    (hinserted : W.Inserted Same Copy seen ds ds') (hforward : W.Forward ds')
    (h : W.Related seen ds' known known') :
    List.Forall₂ Same (W.fresh known ds) (W.fresh known' ds') := by
  induction hinserted generalizing known known' with
  | nil => exact .nil
  | @original seen d d' ds ds' same clocks _ ih =>
      obtain ⟨hfst, hrelated⟩ := h.step_original (hsame d d' same) clocks hforward
      have htail := ih (List.pairwise_cons.mp hforward).2 hrelated
      rw [fresh, fresh]
      rcases hd : W.step known d with ⟨drop, known₁⟩
      rcases hd' : W.step known' d' with ⟨drop', known₁'⟩
      rw [hd, hd'] at hfst htail
      obtain rfl : drop = drop' := hfst
      cases drop with
      | true => exact htail
      | false => exact .cons same htail
  | @copy seen c ds ds' copied live _ ih =>
      obtain ⟨e, he, hce⟩ := copied
      obtain ⟨k, hc, hek⟩ := hcopy c e.2 hce
      obtain ⟨hfst, hrelated⟩ := h.step_copy hc ⟨e, he, hek⟩ (fun e he ↦ live e he k hc) hforward
      have htail := ih (List.pairwise_cons.mp hforward).2 hrelated
      rw [fresh.eq_2 W known' c ds']
      rcases hd : W.step known' c with ⟨drop, known₁⟩
      rw [hd] at hfst htail
      obtain rfl : drop = true := hfst
      exact htail

end Reader

end Nanobook.Dedup
