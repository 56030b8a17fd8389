import Mathlib.Data.List.Basic

/-!
# Steps that may fail

A list of inputs is worked off by steps `f : S → A → Except E S`, and the first error ends the work.
The rules say what a run that failed, or one that went through, did at each input: the state before
the `i`-th one is what is left of the first `i` of them.
-/

namespace Nanobook.Steps

universe u v w

variable {S : Type u} {A : Type v} {E : Type u} {f : S → A → Except E S} {l : List A} {s t : S}

/-- The first `i + 1` inputs are the first `i` and one more. -/
theorem foldlM_take_succ {i : Nat} {a : A} (h : l[i]? = some a) :
    (l.take (i + 1)).foldlM f s = (do f (← (l.take i).foldlM f s) a) := by
  rw [List.take_add_one, h, Option.toList_some, List.foldlM_append]
  refine bind_congr fun u ↦ ?_
  rw [List.foldlM_cons]
  exact bind_pure (f u a)

theorem bind_eq_ok {B C : Type u} {x : Except E B} {g : B → Except E C} {c : C} :
    (x >>= g) = .ok c ↔ ∃ b, x = .ok b ∧ g b = .ok c := by
  constructor
  · intro h
    cases x with
    | error e => cases h
    | ok b => exact ⟨b, rfl, h⟩
  · rintro ⟨b, rfl, hg⟩
    exact hg

theorem toOption_eq_some {x : Except E S} : x.toOption = some s ↔ x = .ok s := by
  cases x <;> simp [Except.toOption]

theorem bind_eq_error {B C : Type u} {x : Except E B} {g : B → Except E C} {e : E} :
    (x >>= g) = .error e ↔ x = .error e ∨ ∃ b, x = .ok b ∧ g b = .error e := by
  constructor
  · intro h
    cases x with
    | error e' =>
        cases h
        exact .inl rfl
    | ok b => exact .inr ⟨b, rfl, h⟩
  · rintro (rfl | ⟨b, rfl, hg⟩)
    · rfl
    · exact hg

/-- Computations that agree on what can be seen are continued alike by steps that do. -/
theorem map_bind_congr {B B' C C' T V : Type u} {g : B → T} {q : B' → T} {k : C → V} {k' : C' → V}
    {x : Except E B} {x' : Except E B'} {f : B → Except E C} {f' : B' → Except E C'}
    (hx : x.map g = x'.map q) (hf : ∀ b b', g b = q b' → (f b).map k = (f' b').map k') :
    (x >>= f).map k = (x' >>= f').map k' := by
  cases x with
  | error e =>
      cases x' with
      | error e' =>
          cases hx
          rfl
      | ok b' => cases hx
  | ok b =>
      cases x' with
      | error e' => cases hx
      | ok b' => exact hf b b' (Except.ok.inj hx)

/-- Steps that agree on what can be seen of a state agree on what can be seen of a run. -/
theorem map_foldlM_congr {T : Type u} {f' : S → A → Except E S} {g : S → T}
    (hstep : ∀ s s' a, g s = g s' → (f s a).map g = (f' s' a).map g) {s' : S} (hs : g s = g s') :
    (l.foldlM f s).map g = (l.foldlM f' s').map g := by
  induction l generalizing s s' with
  | nil => exact congrArg Except.ok hs
  | cons a l ih =>
      rw [List.foldlM_cons, List.foldlM_cons]
      exact map_bind_congr (hstep s s' a hs) fun _ _ ↦ ih

/-- A run that fails does so at one of its inputs, the ones before it having gone through. -/
theorem exists_of_foldlM_error {e : E} (h : l.foldlM f s = .error e) :
    ∃ i a t, l[i]? = some a ∧ (l.take i).foldlM f s = .ok t ∧ f t a = .error e := by
  induction l generalizing s with
  | nil => cases h
  | cons a l ih =>
      rw [List.foldlM_cons] at h
      cases hs : f s a with
      | error e' =>
          rw [hs] at h
          cases h
          exact ⟨0, a, s, rfl, rfl, hs⟩
      | ok s' =>
          rw [hs] at h
          obtain ⟨i, b, t, hb, ht, hf⟩ := ih h
          refine ⟨i + 1, b, t, hb, ?_, hf⟩
          rw [List.take_succ_cons, List.foldlM_cons, hs]
          exact ht

/-- A run that goes through has gone through every prefix. -/
theorem exists_take_of_foldlM_ok (h : l.foldlM f s = .ok t) (i : Nat) :
    ∃ u, (l.take i).foldlM f s = .ok u := by
  rw [← List.take_append_drop i l, List.foldlM_append] at h
  obtain ⟨u, hu, -⟩ := bind_eq_ok.mp h
  exact ⟨u, hu⟩

/-- What it did at an input. -/
theorem exists_step_of_foldlM_ok (h : l.foldlM f s = .ok t) {i : Nat} {a : A}
    (ha : l[i]? = some a) :
    ∃ u v, (l.take i).foldlM f s = .ok u ∧ f u a = .ok v ∧ (l.take (i + 1)).foldlM f s = .ok v := by
  obtain ⟨v, hv⟩ := exists_take_of_foldlM_ok h (i + 1)
  rw [foldlM_take_succ ha] at hv
  obtain ⟨u, hu, huv⟩ := bind_eq_ok.mp hv
  exact ⟨u, v, hu, huv, by rw [foldlM_take_succ ha, hu]; exact huv⟩

/-- An invariant that may depend on how many inputs have been worked off, from some point on. -/
theorem invariant_from {P : Nat → S → Prop} {m n : Nat} {u : S} (hu : (l.take m).foldlM f s = .ok u)
    (hstart : P m u)
    (hstep : ∀ i a v w, m ≤ i → l[i]? = some a → P i v → f v a = .ok w → P (i + 1) w) (hmn : m ≤ n)
    (hn : n ≤ l.length) (h : (l.take n).foldlM f s = .ok t) : P n t := by
  induction hmn generalizing t with
  | refl =>
      rw [hu] at h
      cases h
      exact hstart
  | @step i hi ih =>
      have ha : l[i]? = some l[i] := List.getElem?_eq_getElem hn
      rw [foldlM_take_succ ha] at h
      obtain ⟨v, hv, hvt⟩ := bind_eq_ok.mp h
      exact hstep i l[i] v t hi ha (ih (by omega) hv) hvt

/-- An invariant of the whole run. -/
theorem invariant {P : Nat → S → Prop} (hstart : P 0 s)
    (hstep : ∀ i a u v, l[i]? = some a → P i u → f u a = .ok v → P (i + 1) v) {i : Nat}
    (hi : i ≤ l.length) (h : (l.take i).foldlM f s = .ok t) : P i t :=
  invariant_from (u := s) rfl hstart (fun i a u v _ ha hu huv ↦ hstep i a u v ha hu huv)
  (Nat.zero_le i)
    hi h

end Nanobook.Steps
