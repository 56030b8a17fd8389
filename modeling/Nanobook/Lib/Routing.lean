import Mathlib.Data.Option.Basic
import Mathlib.Data.List.Basic

/-!
# Machines side by side

A state that holds one machine for each key, and operations that are each routed to the machine of
their key.  Whatever the interleaving, every machine makes the run of its own operations, and the
whole returns just if all of these runs do.
-/

namespace Nanobook

universe u v w x

variable {M : Type u} {K : Type v} {S : Type w} {O : Type x} [DecidableEq K]

/-- The operations routed to a key. -/
def routedTo (k : K) (l : List (K × O)) : List O := (l.filter fun e ↦ e.1 = k).map Prod.snd

theorem routedTo_cons_self (k : K) (o : O) (l : List (K × O)) :
    routedTo k ((k, o) :: l) = o :: routedTo k l := by
  rw [routedTo, List.filter_cons, if_pos (by simp), List.map_cons, routedTo]

theorem routedTo_cons_of_ne {k j : K} (h : j ≠ k) (o : O) (l : List (K × O)) :
    routedTo k ((j, o) :: l) = routedTo k l := by
  rw [routedTo, List.filter_cons, if_neg (by simpa using h), routedTo]

/-- `f` performs an operation on the machine of its key, as `step` does, and on no other. -/
structure Routes (get : M → K → S) (step : S → O → Option S) (f : M → K × O → Option M) :
    Prop where
  returns : ∀ m e s, step (get m e.1) e.2 = some s → ∃ m', f m e = some m'
  own : ∀ m e m', f m e = some m' → step (get m e.1) e.2 = some (get m' e.1)
  others : ∀ m e m', f m e = some m' → ∀ k, k ≠ e.1 → get m' k = get m k

namespace Routes

variable {get : M → K → S} {step : S → O → Option S} {f : M → K × O → Option M}
  (h : Routes get step f) {l l' : List (K × O)} {m m' : M}

include h

/-- In a run every machine makes the run of its own operations. -/
theorem foldlM_routedTo (hrun : l.foldlM f m = some m') (k : K) :
    (routedTo k l).foldlM step (get m k) = some (get m' k) := by
  induction l generalizing m with
  | nil =>
      cases hrun
      rfl
  | cons e l ih =>
      rw [List.foldlM_cons] at hrun
      obtain ⟨m₁, h₁, hrest⟩ := Option.bind_eq_some_iff.mp hrun
      obtain ⟨j, o⟩ := e
      by_cases hj : j = k
      · subst hj
        rw [routedTo_cons_self, List.foldlM_cons, h.own m (j, o) m₁ h₁]
        exact ih hrest
      · rw [routedTo_cons_of_ne hj, ← h.others m (j, o) m₁ h₁ k (Ne.symm hj)]
        exact ih hrest

/-- If every machine returns from its own operations, so does the whole, in any order. -/
theorem exists_foldlM (hown : ∀ k, ∃ s, (routedTo k l).foldlM step (get m k) = some s) :
    ∃ m', l.foldlM f m = some m' := by
  induction l generalizing m with
  | nil => exact ⟨m, rfl⟩
  | cons e l ih =>
      obtain ⟨j, o⟩ := e
      obtain ⟨s, hs⟩ := hown j
      rw [routedTo_cons_self, List.foldlM_cons] at hs
      obtain ⟨s₁, hs₁, -⟩ := Option.bind_eq_some_iff.mp hs
      obtain ⟨m₁, h₁⟩ := h.returns m (j, o) s₁ hs₁
      have hrest : ∀ k, ∃ s, (routedTo k l).foldlM step (get m₁ k) = some s := by
        intro k
        obtain ⟨s', hs'⟩ := hown k
        by_cases hj : j = k
        · subst hj
          rw [routedTo_cons_self, List.foldlM_cons, h.own m (j, o) m₁ h₁] at hs'
          exact ⟨s', hs'⟩
        · rw [routedTo_cons_of_ne hj, ← h.others m (j, o) m₁ h₁ k (Ne.symm hj)] at hs'
          exact ⟨s', hs'⟩
      obtain ⟨m', hm'⟩ := ih hrest
      exact ⟨m', by rw [List.foldlM_cons, h₁]; exact hm'⟩

/-- The order in which operations of different keys come does not matter. -/
theorem foldlM_congr (hsame : ∀ k, routedTo k l = routedTo k l') (hrun : l.foldlM f m = some m') :
    ∃ m'', l'.foldlM f m = some m'' ∧ ∀ k, get m'' k = get m' k := by
  have hown := h.foldlM_routedTo hrun
  obtain ⟨m'', hrun'⟩ := h.exists_foldlM (l := l') (m := m) fun k ↦ ⟨_, hsame k ▸ hown k⟩
  refine ⟨m'', hrun', fun k ↦ ?_⟩
  have hown' := h.foldlM_routedTo hrun' k
  rw [← hsame k, hown k] at hown'
  exact (Option.some.inj hown').symm

end Routes

end Nanobook
