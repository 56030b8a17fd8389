import Mathlib.Logic.Relation
import Mathlib.Order.Basic

/-!
# Loops that may fail to return

A loop is given by its body `f : S → Option (R ⊕ S)`, run once per pass: `Sum.inl` leaves the
loop with a result, `Sum.inr` goes round again, and `none` says that the pass itself did not
return.  `iterate f n` runs at most `n` passes, so a loop that never leaves is `none` for every
`n`, and a loop that leaves does so for all large enough `n` with one and the same result.

The rules below are the ones a proof about a nest of loops needs: more passes never change a
result, an invariant holds at the exit, a decreasing variant makes a loop return, and a set of
states that the body cannot leave makes it diverge.
-/

namespace Nanobook.Loop

universe u v

variable {S : Type u} {R : Type v}

/-- Run the body at most `n` times. -/
def iterate (f : S → Option (R ⊕ S)) : Nat → S → Option R
  | 0, _ => none
  | n + 1, s =>
      match f s with
      | none => none
      | some (.inl r) => some r
      | some (.inr s') => iterate f n s'

@[simp] theorem iterate_zero (f : S → Option (R ⊕ S)) (s : S) : iterate f 0 s = none := rfl

/-- One pass that leaves the loop. -/
theorem iterate_succ_inl {f : S → Option (R ⊕ S)} {s : S} {r : R} (h : f s = some (.inl r))
    (n : Nat) : iterate f (n + 1) s = some r := by
  simp only [iterate, h]

/-- One pass that goes round again. -/
theorem iterate_succ_inr {f : S → Option (R ⊕ S)} {s s' : S} (h : f s = some (.inr s'))
    (n : Nat) : iterate f (n + 1) s = iterate f n s' := by
  simp only [iterate, h]

/-- What a run that returned did on its first pass. -/
theorem iterate_some_cases {f : S → Option (R ⊕ S)} {n : Nat} {s : S} {r : R}
    (h : iterate f n s = some r) :
    ∃ m, n = m + 1 ∧
    (f s = some (.inl r) ∨ ∃ s', f s = some (.inr s') ∧ iterate f m s' = some r) := by
  cases n with
  | zero => cases h
  | succ m =>
      refine ⟨m, rfl, ?_⟩
      simp only [iterate] at h
      split at h
      · cases h
      · next hf => cases h; exact .inl hf
      · next s' hf => exact .inr ⟨s', hf, h⟩

/-- More passes and a body that returns more often never change a result. -/
theorem iterate_mono {f g : S → Option (R ⊕ S)} (hfg : ∀ s x, f s = some x → g s = some x)
    {n m : Nat} (hnm : n ≤ m) {s : S} {r : R} (h : iterate f n s = some r) :
    iterate g m s = some r := by
  induction n generalizing m s with
  | zero => cases h
  | succ n ih =>
      obtain ⟨m, rfl⟩ : ∃ k, m = k + 1 := ⟨m - 1, by omega⟩
      obtain ⟨n', hn', hf⟩ := iterate_some_cases h
      obtain rfl : n = n' := by omega
      rcases hf with hf | ⟨s', hf, hr⟩
      · exact iterate_succ_inl (hfg _ _ hf) m
      · rw [iterate_succ_inr (hfg _ _ hf)]
        exact ih (by omega) hr

/-- The same for a fold of passes over a list. -/
theorem foldlM_mono {A : Type v} {f g : S → A → Option S}
    (hfg : ∀ s a t, f s a = some t → g s a = some t) {l : List A} {s t : S}
    (h : l.foldlM f s = some t) : l.foldlM g s = some t := by
  induction l generalizing s with
  | nil => exact h
  | cons a l ih =>
      obtain ⟨s', hs', h⟩ := Option.bind_eq_some_iff.mp h
      exact Option.bind_eq_some_iff.mpr ⟨s', hfg _ _ _ hs', ih h⟩

/-- What every pass preserves, a fold of passes preserves. -/
theorem foldlM_invariant {A : Type v} {f : S → A → Option S} {I : S → Prop} {l : List A}
    (hpass : ∀ s, ∀ a ∈ l, ∀ t, I s → f s a = some t → I t) {s t : S} (hs : I s)
    (h : l.foldlM f s = some t) : I t := by
  induction l generalizing s with
  | nil =>
      cases h
      exact hs
  | cons a l ih =>
      obtain ⟨s', hs', h⟩ := Option.bind_eq_some_iff.mp h
      exact ih (fun s b hb ↦ hpass s b (List.mem_cons_of_mem a hb))
        (hpass s a List.mem_cons_self s' hs hs') h

/-- Passes that agree on what can be seen of a state agree on what can be seen of a fold of them. -/
theorem map_foldlM_congr {A : Type v} {T : Type u} {f f' : S → A → Option S} {g : S → T}
    (hpass : ∀ s s' a, g s = g s' → (f s a).map g = (f' s' a).map g) {l : List A} {s s' : S}
    (hs : g s = g s') : (l.foldlM f s).map g = (l.foldlM f' s').map g := by
  induction l generalizing s s' with
  | nil => exact congrArg some hs
  | cons a l ih =>
      have hfirst := hpass s s' a hs
      rw [List.foldlM_cons, List.foldlM_cons]
      cases hf : f s a with
      | none =>
          rw [hf, Option.map_none, eq_comm, Option.map_eq_none_iff] at hfirst
          rw [hfirst]
          rfl
      | some t =>
          rw [hf, Option.map_some, eq_comm, Option.map_eq_some_iff] at hfirst
          obtain ⟨t', ht', htt'⟩ := hfirst
          rw [ht']
          exact ih htt'.symm

/-! ## Visited states -/

/-- `Reaches f s s'`: the loop started in `s` comes back to its head in state `s'`. -/
def Reaches (f : S → Option (R ⊕ S)) : S → S → Prop :=
  Relation.ReflTransGen fun s s' ↦ f s = some (.inr s')

/-- An invariant of the body holds at every visited state. -/
theorem Reaches.invariant {f : S → Option (R ⊕ S)} {I : S → Prop}
    (hstep : ∀ s s', I s → f s = some (.inr s') → I s') {s s' : S} (h : Reaches f s s')
    (hs : I s) : I s' := by
  induction h with
  | refl => exact hs
  | tail _ hlast ih => exact hstep _ _ ih hlast

/-- A run that returned left from a visited state. -/
theorem exists_reaches_of_iterate {f : S → Option (R ⊕ S)} {n : Nat} {s : S} {r : R}
    (h : iterate f n s = some r) : ∃ s', Reaches f s s' ∧ f s' = some (.inl r) := by
  induction n generalizing s with
  | zero => cases h
  | succ n ih =>
      obtain ⟨n', hn', hf⟩ := iterate_some_cases h
      obtain rfl : n = n' := by omega
      rcases hf with hf | ⟨s', hf, hr⟩
      · exact ⟨s, .refl, hf⟩
      · obtain ⟨t, ht, hl⟩ := ih hr
        exact ⟨t, .head hf ht, hl⟩

/-- The invariant rule: what holds at the head of the loop holds where it is left. -/
theorem iterate_invariant {f : S → Option (R ⊕ S)} {I : S → Prop} {Q : R → Prop}
    (hstep : ∀ s s', I s → f s = some (.inr s') → I s')
    (hexit : ∀ s r, I s → f s = some (.inl r) → Q r)
    {n : Nat} {s : S} {r : R} (hs : I s) (h : iterate f n s = some r) : Q r := by
  obtain ⟨s', hr, hl⟩ := exists_reaches_of_iterate h
  exact hexit _ _ (hr.invariant hstep hs) hl

/-! ## Termination and divergence -/

/-- The variant rule: a body that always returns and lowers `μ` whenever it goes round again
makes the loop return. -/
theorem exists_iterate_of_variant {f : S → Option (R ⊕ S)} {I : S → Prop} (μ : S → Nat)
    (hpass : ∀ s, I s → (∃ r, f s = some (.inl r)) ∨
      ∃ s', f s = some (.inr s') ∧ I s' ∧ μ s' < μ s)
    {s : S} (hs : I s) : ∃ n r, iterate f n s = some r := by
  induction hμ : μ s using Nat.strongRecOn generalizing s with
  | ind k ih =>
      rcases hpass s hs with ⟨r, hr⟩ | ⟨s', hf, hs', hlt⟩
      · exact ⟨1, r, iterate_succ_inl hr 0⟩
      · obtain ⟨n, r, hn⟩ := ih (μ s') (hμ ▸ hlt) hs' rfl
        exact ⟨n + 1, r, by rw [iterate_succ_inr hf]; exact hn⟩

/-- The variant also bounds the passes. -/
theorem exists_iterate_of_lt {f : S → Option (R ⊕ S)} {I : S → Prop} {Q : R → Prop} (μ : S → Nat)
    (hpass : ∀ s, I s → (∃ r, f s = some (.inl r) ∧ Q r) ∨
      ∃ s', f s = some (.inr s') ∧ I s' ∧ μ s' < μ s)
    {s : S} {n : Nat} (hs : I s) (hn : μ s < n) : ∃ r, iterate f n s = some r ∧ Q r := by
  induction n generalizing s with
  | zero => omega
  | succ n ih =>
      rcases hpass s hs with ⟨r, hr, hQ⟩ | ⟨s', hf, hs', hlt⟩
      · exact ⟨r, iterate_succ_inl hr n, hQ⟩
      · rw [iterate_succ_inr hf]
        exact ih hs' (by omega)

/-- A fold of passes that may each need more fuel than the one before returns with enough of it. -/
theorem exists_foldlM {A : Type v} {f : Nat → S → A → Option S} {I : S → Prop}
    (hmono : ∀ n m s a t, n ≤ m → f n s a = some t → f m s a = some t) (l : List A)
    (hpass : ∀ s, ∀ a ∈ l, I s → ∃ n t, f n s a = some t ∧ I t) {s : S} (hs : I s) :
    ∃ n t, l.foldlM (f n) s = some t ∧ I t := by
  induction l generalizing s with
  | nil => exact ⟨0, s, rfl, hs⟩
  | cons a l ih =>
      obtain ⟨n, s', hn, hs'⟩ := hpass s a List.mem_cons_self hs
      obtain ⟨m, t, hm, ht⟩ := ih (fun s b hb ↦ hpass s b (List.mem_cons_of_mem _ hb)) hs'
      refine ⟨max n m, t, ?_, ht⟩
      exact Option.bind_eq_some_iff.mpr ⟨s', hmono n _ _ _ _ (Nat.le_max_left n m) hn,
        foldlM_mono (fun _ _ _ h ↦ hmono m _ _ _ _ (Nat.le_max_right n m) h) hm⟩

/-- A set of states that every pass keeps to makes the loop diverge. -/
theorem iterate_eq_none_of_closed {f : S → Option (R ⊕ S)} {D : S → Prop}
    (hD : ∀ s, D s → ∃ s', f s = some (.inr s') ∧ D s') (n : Nat) {s : S} (hs : D s) :
    iterate f n s = none := by
  induction n generalizing s with
  | zero => rfl
  | succ n ih =>
      obtain ⟨s', hf, hs'⟩ := hD s hs
      rw [iterate_succ_inr hf]
      exact ih hs'

end Nanobook.Loop
