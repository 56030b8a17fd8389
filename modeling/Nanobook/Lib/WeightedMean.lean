import Mathlib.Algebra.Order.BigOperators.Group.List
import Mathlib.Algebra.Order.Ring.Int
import Mathlib.Data.List.MinMax
import Mathlib.Tactic.Linarith

/-!
# Weighted means

A mean with weights that are not negative lies between the smallest and the largest of the values
that have a positive weight.  Division comes last: the bounds are stated for the weighted sum, and
carried to quotients that are truncated.
-/

namespace Nanobook.WeightedMean

universe u

variable {A : Type u} (l : List A) (weight value : A → Int)

def totalWeight : Int := (l.map weight).sum

def weightedSum : Int := (l.map fun a ↦ value a * weight a).sum

variable {l : List A} {weight value : A → Int}

theorem totalWeight_nonneg (h : ∀ a ∈ l, 0 ≤ weight a) : 0 ≤ totalWeight l weight := by
  refine List.sum_nonneg fun w hw ↦ ?_
  obtain ⟨a, ha, rfl⟩ := List.mem_map.mp hw
  exact h a ha

/-- A lower bound of the values that count. -/
theorem mul_totalWeight_le (h : ∀ a ∈ l, 0 ≤ weight a) {c : Int}
    (hc : ∀ a ∈ l, 0 < weight a → c ≤ value a) :
    c * totalWeight l weight ≤ weightedSum l weight value := by
  induction l with
  | nil => simp [totalWeight, weightedSum]
  | cons a l ih =>
      obtain ⟨ha, hl⟩ := List.forall_mem_cons.mp h
      obtain ⟨hca, hcl⟩ := List.forall_mem_cons.mp hc
      have hrest := ih hl hcl
      have hfirst : c * weight a ≤ value a * weight a := by
        rcases ha.eq_or_lt with hzero | hpos
        · rw [← hzero, mul_zero, mul_zero]
        · exact mul_le_mul_of_nonneg_right (hca hpos) ha
      simp only [totalWeight, weightedSum, List.map_cons, List.sum_cons] at hrest ⊢
      linarith

/-- Some value that counts is not above the mean. -/
theorem exists_mul_le (value : A → Int) (h : ∀ a ∈ l, 0 ≤ weight a)
    (hpos : 0 < totalWeight l weight) :
    ∃ a ∈ l, 0 < weight a ∧ value a * totalWeight l weight ≤ weightedSum l weight value := by
  obtain ⟨a, ha⟩ : ∃ a, (l.filter fun a ↦ 0 < weight a).argmin value = some a := by
    rw [← Option.ne_none_iff_exists', Ne, List.argmin_eq_none, List.filter_eq_nil_iff]
    intro hnone
    refine hpos.ne' (List.sum_eq_zero fun w hw ↦ ?_)
    obtain ⟨a, ha, rfl⟩ := List.mem_map.mp hw
    exact le_antisymm (not_lt.mp (by simpa using hnone a ha)) (h a ha)
  obtain ⟨hmem, hweight⟩ := List.mem_filter.mp (List.argmin_mem ha)
  refine ⟨a, hmem, of_decide_eq_true hweight, mul_totalWeight_le h fun b hb hwb ↦ ?_⟩
  exact List.le_of_mem_argmin (List.mem_filter.mpr ⟨hb, decide_eq_true hwb⟩) ha

/-- Some value that counts is not below the mean. -/
theorem exists_le_mul (value : A → Int) (h : ∀ a ∈ l, 0 ≤ weight a)
    (hpos : 0 < totalWeight l weight) :
    ∃ a ∈ l, 0 < weight a ∧ weightedSum l weight value ≤ value a * totalWeight l weight := by
  obtain ⟨a, ha, hweight, hle⟩ := exists_mul_le (fun a ↦ -value a) h hpos
  refine ⟨a, ha, hweight, ?_⟩
  have hneg : weightedSum l weight (fun a ↦ -value a) = -weightedSum l weight value := by
    simp only [weightedSum, neg_mul, List.sum_neg, List.map_map, Function.comp_def]
  rw [hneg] at hle
  linarith

/-! ## Truncated quotients -/

/-- A truncated quotient is not below a bound, just where what is divided is more than the next
lower multiple; it is rounded up, so either of them must not be positive. -/
theorem le_tdiv_iff {a x d : Int} (h : a ≤ 0 ∨ x ≤ 0) (hd : 0 < d) :
    a ≤ x.tdiv d ↔ (a - 1) * d < x := by
  rcases lt_or_ge 0 x with hx | hx
  · have ha : a ≤ 0 := h.resolve_right (not_le.mpr hx)
    refine iff_of_true (ha.trans (Int.tdiv_nonneg hx.le hd.le)) (lt_trans ?_ hx)
    exact mul_neg_of_neg_of_pos (by omega) hd
  · obtain ⟨y, rfl⟩ : ∃ y, x = -y := ⟨-x, (neg_neg x).symm⟩
    rw [Int.neg_tdiv, Int.tdiv_eq_ediv_of_nonneg (neg_nonpos.mp hx), le_neg, ← Int.lt_add_one_iff,
      Int.ediv_lt_iff_lt_mul hd]
    constructor <;> intro h <;> linarith

section Exists

variable {P : A → Prop} {v : A → Int} {x d : Int}

/-- Whether some value is not above a quotient, if one is known to be on the side on which quotients
are rounded down. -/
theorem exists_le_tdiv_iff (h : ∃ a ∈ l, P a ∧ (v a ≤ 0 ∨ x ≤ 0)) (hd : 0 < d) :
    (∃ a ∈ l, P a ∧ v a ≤ x.tdiv d) ↔ ∃ a ∈ l, P a ∧ (v a - 1) * d < x := by
  rcases le_or_gt x 0 with hx | hx
  · exact exists_congr fun a ↦ and_congr_right fun _ ↦ and_congr_right fun _ ↦
      le_tdiv_iff (.inr hx) hd
  · obtain ⟨a, ha, hP, hsign⟩ := h
    have hv : v a ≤ 0 := hsign.resolve_right (not_le.mpr hx)
    have hle : v a ≤ x.tdiv d := hv.trans (Int.tdiv_nonneg hx.le hd.le)
    exact iff_of_true ⟨a, ha, hP, hle⟩ ⟨a, ha, hP, (le_tdiv_iff (.inl hv) hd).mp hle⟩

@[inherit_doc exists_le_tdiv_iff]
theorem exists_tdiv_le_iff (h : ∃ a ∈ l, P a ∧ (0 ≤ v a ∨ 0 ≤ x)) (hd : 0 < d) :
    (∃ a ∈ l, P a ∧ x.tdiv d ≤ v a) ↔ ∃ a ∈ l, P a ∧ x < (v a + 1) * d := by
  have hneg : (∃ a ∈ l, P a ∧ -v a ≤ (-x).tdiv d) ↔ ∃ a ∈ l, P a ∧ (-v a - 1) * d < -x := by
    refine exists_le_tdiv_iff ?_ hd
    simpa only [neg_nonpos] using h
  have hmul (a : A) : (-v a - 1) * d = -((v a + 1) * d) := by linarith
  simpa only [Int.neg_tdiv, neg_le_neg_iff, hmul, neg_lt_neg_iff] using hneg

end Exists

/-- The quotient is where the exact mean is bounded by integers. -/
theorem le_tdiv_of_mul_le {a x d : Int} (hd : 0 < d) (h : a * d ≤ x) : a ≤ x.tdiv d := by
  rcases le_or_gt a 0 with ha | ha
  · exact (le_tdiv_iff (.inl ha) hd).mpr (by linarith)
  · rw [Int.tdiv_eq_ediv_of_nonneg ((mul_pos ha hd).le.trans h)]
    exact (Int.le_ediv_iff_mul_le hd).mpr h

@[inherit_doc le_tdiv_of_mul_le]
theorem tdiv_le_of_le_mul {b x d : Int} (hd : 0 < d) (h : x ≤ b * d) : x.tdiv d ≤ b := by
  have hneg := le_tdiv_of_mul_le (a := -b) (x := -x) hd (by linarith)
  rwa [Int.neg_tdiv, neg_le_neg_iff] at hneg

end Nanobook.WeightedMean
