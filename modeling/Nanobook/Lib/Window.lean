import Mathlib.Algebra.BigOperators.Group.List.Basic
import Mathlib.Algebra.Order.BigOperators.Group.List

/-!
# Budgets by window

Entries fall into windows that follow one another, and what is spent in a window is bounded by a
budget. The spender keeps one counter, for the current window, and sets it back when a new window
begins.  The counter may be charged with more than is spent in the end.
-/

namespace Nanobook.Window

universe u v

variable {E : Type u} {A : Type v} [AddCommMonoid A]

/-- What the entries of a window add up to. -/
def spent (window : E → Option Int) (amount : E → A) (l : List E) (w : Int) : A :=
  ((l.filter fun e ↦ window e = some w).map amount).sum

/-- The counter `used` of the window `current` accounts for the entries. -/
structure Sound [LE A] (window : E → Option Int) (amount : E → A) (budget : A) (l : List E)
    (used : A) (current : Option Int) : Prop where
  within : ∀ w, spent window amount l w ≤ budget
  past : ∀ e ∈ l, ∀ w, window e = some w → ∃ c, current = some c ∧ w ≤ c
  counted : ∀ c, current = some c → spent window amount l c ≤ used
  used_le : used ≤ budget

variable [PartialOrder A] [IsOrderedAddMonoid A] {window : E → Option Int} {amount : E → A}
  {budget used x : A} {l l' : List E} {current : Option Int} {w : Int}

omit [PartialOrder A] [IsOrderedAddMonoid A] in
theorem spent_append (l l' : List E) (w : Int) :
    spent window amount (l ++ l') w = spent window amount l w + spent window amount l' w := by
  rw [spent, List.filter_append, List.map_append, List.sum_append, spent, spent]

omit [PartialOrder A] [IsOrderedAddMonoid A] in
theorem spent_eq_zero (h : ∀ e ∈ l, window e ≠ some w) : spent window amount l w = 0 := by
  rw [spent, List.filter_eq_nil_iff.mpr, List.map_nil, List.sum_nil]
  exact fun e he ↦ by simpa using h e he

omit [PartialOrder A] [IsOrderedAddMonoid A] in
theorem spent_eq_sum (h : ∀ e ∈ l, window e = some w) : spent window amount l w =
    (l.map amount).sum := by
  rw [spent, List.filter_eq_self.mpr]
  exact fun e he ↦ decide_eq_true (h e he)

/-- With one for every entry, the entries are counted. -/
theorem spent_one (window : E → Option Int) (l : List E) (w : Int) :
    spent window (fun _ ↦ 1) l w = (l.filter fun e ↦ window e = some w).length := by
  rw [spent, List.map_const', List.sum_replicate_nat, Nat.mul_one]

omit [IsOrderedAddMonoid A] in
/-- Nothing has been spent. -/
theorem sound_nil (h : 0 ≤ budget) : Sound window amount budget [] 0 none where
  within _ := h
  past _ h := absurd h List.not_mem_nil
  counted _ h := by cases h
  used_le := h

omit [IsOrderedAddMonoid A] in
/-- A window that does not begin before the current one is entered: a new one with nothing spent. -/
theorem Sound.enter (h : Sound window amount budget l used current) (hbudget : 0 ≤ budget)
    (hw : ∀ c, current = some c → c ≤ w) :
    Sound window amount budget l (if current ≠ some w then 0 else used) (some w) where
  within := h.within
  past e he v hv := by
    obtain ⟨c, hc, hle⟩ := h.past e he v hv
    exact ⟨w, rfl, hle.trans (hw c hc)⟩
  counted v hv := by
    cases hv
    by_cases hsame : current = some w
    · rw [if_neg (not_not.mpr hsame)]
      exact h.counted w hsame
    · rw [if_pos hsame, spent_eq_zero]
      intro e he hew
      obtain ⟨c, hc, hle⟩ := h.past e he w hew
      exact hsame (hc.trans (congrArg some (le_antisymm (hw c hc) hle)))
  used_le := by
    split
    · exact hbudget
    · exact h.used_le

/-- Entries of the current window are charged with what they spend, or with more. -/
theorem Sound.charge (h : Sound window amount budget l used (some w))
    (hwindow : ∀ e ∈ l', window e = some w) (hspent : (l'.map amount).sum ≤ x)
    (hbudget : used + x ≤ budget) : Sound window amount budget (l ++ l') (used + x) (some w) where
  within v := by
    rw [spent_append]
    by_cases hv : v = w
    · rw [hv, spent_eq_sum hwindow]
      exact (add_le_add (h.counted w rfl) hspent).trans hbudget
    · have hnone : spent window amount l' v = 0 :=
        spent_eq_zero fun e he hev ↦ hv (Option.some_inj.mp (hev.symm.trans (hwindow e he)))
      rw [hnone, add_zero]
      exact h.within v
  past e he v hv := by
    rcases List.mem_append.mp he with he | he
    · exact h.past e he v hv
    · exact ⟨w, rfl, (Option.some_inj.mp (hv.symm.trans (hwindow e he))).le⟩
  counted c hc := by
    cases hc
    rw [spent_append, spent_eq_sum hwindow]
    exact add_le_add (h.counted w rfl) hspent
  used_le := hbudget

end Nanobook.Window
