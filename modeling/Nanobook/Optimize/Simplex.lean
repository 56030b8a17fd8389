import Nanobook.Lib.Arrangement
import Nanobook.Lib.Simplex
import Nanobook.Optimize.Numbers
import Nanobook.Optimize.Weights

/-!
# Projection onto the simplex

`project_simplex` of `optimize.rs`, which the projected-gradient optimizers call in every pass.  In
exact arithmetic it returns the point of the simplex nearest to the given numbers
(`projectSimplex_nearest`).
-/

namespace Nanobook

namespace Optimize

open F64

inductive OptimizeError where
  | emptyInput
  | degenerateProjection
deriving DecidableEq

variable {F : Type} [F64 F]

/-- The loop over the sorted numbers: their running sum, and how many come up to the last that is
above its threshold. -/
def simplexScan (u : List F) : F × Nat :=
  u.zipIdx.foldl (fun acc p ↦
    let cssv := acc.1 + p.1
    let theta := (cssv - ofInt 1) / (ofInt p.2 + ofInt 1)
    (cssv, if lt (ofInt 0) (p.1 - theta) then p.2 + 1 else acc.2)) (ofInt 0, 0)

def projectSimplex (v : List F) : Except OptimizeError (List F) :=
  if v.isEmpty then .error .emptyInput
  else if !v.any (fun x ↦ isFinite x && lt (ofInt 0) x) then .error .degenerateProjection
  else
    let u := v.insertionSort fun a b ↦ lt a b = false
    let rho := (simplexScan u).2
    let theta := (sum (u.take rho) - ofInt 1) / ofInt rho
    .ok (normalizeLongOnly (v.map fun x ↦ maxNum (x - theta) (ofInt 0)))

/-! ## Exact numbers -/

open Simplex

theorem exact_maxNum (a b : Rat) : (maxNum (some a) (some b) : Option Rat) = some (max a b) := by
  have hle : le (some a) (some a) = true := exact_le_iff.mpr le_rfl
  rw [maxNum, hle, Bool.not_true, Bool.or_false]
  rcases lt_or_ge a b with h | h
  · rw [if_pos (exact_lt_iff.mpr h), max_eq_right h.le]
  · rw [if_neg (exact_lt_iff.not.mpr (not_lt.mpr h)), max_eq_left h]

/-- Sorting puts the numbers in descending order. -/
theorem exact_sort (v : List Rat) :
    (v.map some).insertionSort (fun a b ↦ (lt a b : Bool) = false) =
      (v.insertionSort (· ≥ ·)).map some := by
  refine (List.map_insertionSort _ _ some v fun a _ b _ ↦ ?_).symm
  rw [ge_iff_le, ← not_lt, ← exact_lt_iff, Bool.not_eq_true]

theorem above_append_iff {u : List Rat} {x : Rat} {i : Nat} :
    Above (u ++ [x]) i ↔ Above u i ∨ i = u.length ∧ u.sum + x - 1 < x * (u.length + 1) := by
  rcases Nat.lt_trichotomy i u.length with hi | rfl | hi
  · rw [Above, List.getElem?_append_left hi, List.take_append_of_le_length hi, ← Above,
      or_iff_left fun h ↦ hi.ne h.1]
  · have hnone : ¬Above u u.length := by
      rintro ⟨y, hy, -⟩
      rw [List.getElem?_eq_none le_rfl] at hy
      cases hy
    rw [above_split, or_iff_right hnone, and_iff_right rfl]
  · have hnone : ∀ l : List Rat, l.length ≤ i → ¬Above l i := by
      rintro l hl ⟨y, hy, -⟩
      rw [List.getElem?_eq_none hl] at hy
      cases hy
    refine iff_of_false (hnone _ (by rw [List.length_append]; exact hi)) ?_
    rintro (h | ⟨h, -⟩)
    · exact hnone u hi.le h
    · exact hi.ne' h

/-- The scan stops at the last number above its threshold. -/
theorem exact_simplexScan (u : List Rat) :
    (simplexScan (u.map some)).1 = some u.sum ∧ (simplexScan (u.map some)).2 ≤ u.length ∧
      (∀ r, (simplexScan (u.map some)).2 = r + 1 → Above u r) ∧
      ∀ i, (simplexScan (u.map some)).2 ≤ i → ¬Above u i := by
  induction u using List.reverseRecOn with
  | nil =>
      refine ⟨rfl, Nat.le_refl 0, nofun, fun i _ ⟨x, hx, _⟩ ↦ ?_⟩
      cases hx
  | append_singleton u x ih =>
      obtain ⟨hsum, hle, hlast, hnone⟩ := ih
      have hpos : (0 : Rat) < (u.length : Rat) + 1 := by positivity
      have hstep : simplexScan ((u ++ [x]).map some) = (some (u.sum + x),
          if u.sum + x - 1 < x * (u.length + 1) then u.length + 1
          else (simplexScan (u.map some)).2) := by
        have hindex : (ofInt (u.length : Int) + ofInt 1 : Option Rat) =
            some ((u.length : Rat) + 1) := by
          rw [exact_ofInt, exact_ofInt, exact_add, Int.cast_natCast, Int.cast_one]
        have hcheck : lt (ofInt 0) (some x - (some (u.sum + x) - ofInt 1) /
            some ((u.length : Rat) + 1)) = true ↔ u.sum + x - 1 < x * (u.length + 1) := by
          rw [exact_ofInt, exact_ofInt, exact_sub, exact_div hpos.ne', exact_sub, exact_lt_iff,
            Int.cast_zero, Int.cast_one, sub_pos, div_lt_iff₀ hpos]
        rw [simplexScan, List.map_append, List.zipIdx_append, List.foldl_append, ← simplexScan]
        simp only [List.map_cons, List.map_nil, List.zipIdx_cons, List.zipIdx_nil, List.foldl_cons,
          List.foldl_nil, hsum, exact_add, List.length_map, Nat.zero_add, hindex, hcheck]
      rw [hstep, List.sum_append, List.sum_singleton, List.length_append, List.length_singleton]
      refine ⟨rfl, ?_, fun r hr ↦ ?_, fun i hi ↦ ?_⟩
      · dsimp only
        split_ifs <;> omega
      · dsimp only at hr
        rw [above_append_iff]
        split_ifs at hr with hx
        · exact .inr ⟨by omega, hx⟩
        · exact .inl (hlast r hr)
      · dsimp only at hi
        rw [above_append_iff]
        split_ifs at hi with hx
        · rintro (⟨y, hy, -⟩ | ⟨rfl, -⟩)
          · rw [List.getElem?_eq_none (by omega)] at hy
            cases hy
          · omega
        · rintro (h | ⟨-, h⟩)
          · exact hnone i hi h
          · exact hx h

/-- The threshold of the code is the amount that leads to the simplex. -/
theorem exists_threshold {v : List Rat} (hne : v ≠ []) :
    ∃ t, (sum (((v.map some).insertionSort fun a b ↦ (lt a b : Bool) = false).take
        (simplexScan ((v.map some).insertionSort fun a b ↦ (lt a b : Bool) = false)).2) -
      ofInt 1) / ofInt
        (simplexScan ((v.map some).insertionSort fun a b ↦ (lt a b : Bool) = false)).2 = some t ∧
      (shrink t v).sum = 1 := by
  rw [exact_sort]
  have hperm := List.perm_insertionSort (· ≥ ·) v
  have hsorted := List.pairwise_insertionSort (· ≥ ·) v
  generalize v.insertionSort (· ≥ ·) = u at hperm hsorted
  have hu : u ≠ [] := fun hnil ↦ hne (hnil ▸ hperm).symm.eq_nil
  obtain ⟨-, hle, hlast, hnone⟩ := exact_simplexScan u
  obtain ⟨r, hr⟩ : ∃ r, (simplexScan (u.map some)).2 = r + 1 := by
    refine Nat.exists_eq_succ_of_ne_zero fun hzero ↦ hnone 0 hzero.le (above_zero hu)
  have hpos : ((r : Rat) + 1) ≠ 0 := by positivity
  refine ⟨((u.take (r + 1)).sum - 1) / (r + 1), ?_, ?_⟩
  · rw [hr, ← List.map_take, exact_sum, exact_ofInt, exact_ofInt, exact_sub]
    push_cast
    exact exact_div hpos
  · exact ((hperm.symm.map fun x ↦ max (x - _) 0).sum_eq).trans
      (sum_shrink_eq_one hsorted (hlast r hr) (hnone (r + 1) hr.le))

/-- The projection of exact numbers.  It is refused for no numbers at all and for numbers of which
none is positive.  Otherwise it is the point of the simplex nearest to them, and any other point is
farther away by its distance from that one. -/
theorem projectSimplex_nearest (v : List Rat) :
    (v = [] → projectSimplex (v.map some) = .error .emptyInput) ∧
    (v ≠ [] → (∀ x ∈ v, x ≤ 0) → projectSimplex (v.map some) = .error .degenerateProjection) ∧
    ((∃ x ∈ v, 0 < x) → ∃ w, projectSimplex (v.map some) = .ok (w.map some) ∧
      w.length = v.length ∧ IsPoint w ∧
      ∀ y, y.length = v.length → IsPoint y → sqDist v w + sqDist w y ≤ sqDist v y) := by
  have hany : ((v.map some).any fun x ↦ isFinite x && lt (ofInt 0) x) = true ↔
      ∃ x ∈ v, 0 < x := by
    rw [List.any_map, List.any_eq_true]
    refine exists_congr fun x ↦ and_congr_right fun _ ↦ ?_
    rw [Function.comp_apply, Bool.and_eq_true, exact_ofInt, exact_lt_iff, Int.cast_zero]
    exact and_iff_right rfl
  refine ⟨fun hnil ↦ hnil ▸ rfl, fun hne hnone ↦ ?_, fun hpos ↦ ?_⟩
  · have hnot : ¬∃ x ∈ v, 0 < x := fun ⟨x, hx, h⟩ ↦ (hnone x hx).not_gt h
    rw [projectSimplex, if_neg (by simpa using hne), if_pos]
    rw [Bool.not_eq_true', ← Bool.not_eq_true, hany]
    exact hnot
  · obtain ⟨x, hx, -⟩ := id hpos
    have hne : v ≠ [] := List.ne_nil_of_mem hx
    obtain ⟨t, ht, hsum⟩ := exists_threshold hne
    refine ⟨shrink t v, ?_, length_shrink t v, ⟨shrink_nonneg t v, hsum⟩, fun y hlen hy ↦
      sqDist_shrink_le hsum hlen hy⟩
    have hshrink : (v.map some).map (fun x ↦ maxNum (x - some t) (ofInt 0)) =
        ((shrink t v).map some : List (Option Rat)) := by
      rw [List.map_map, shrink, List.map_map]
      refine List.map_congr_left fun x _ ↦ ?_
      rw [Function.comp_apply, Function.comp_apply, exact_sub, exact_ofInt, exact_maxNum,
        Int.cast_zero]
    have hlow : 1 / 10 ^ 12 < (shrink t v).sum := by rw [hsum]; norm_num
    rw [projectSimplex, if_neg (by simpa using hne), hany.mpr hpos, Bool.not_true,
      if_neg Bool.false_ne_true]
    simp only [ht, hshrink, exact_normalizeLongOnly (shrink_nonneg t v) hlow, hsum, div_one,
      List.map_id']

end Optimize

end Nanobook
