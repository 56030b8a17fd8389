import Mathlib.Algebra.Order.BigOperators.Group.List
import Mathlib.Algebra.BigOperators.Ring.List
import Mathlib.Tactic.Linarith
import Nanobook.Portfolio.Arithmetic

/-!
# Long-only weights

The helpers of `optimize.rs` that turn scores into weights, and what they do to exact numbers.
-/

namespace Nanobook

namespace Optimize

open F64

variable {F : Type} [F64 F]

/-! ## Weights -/

/-- `1e-12`. -/
def tiny : F := ofInt 1 / ofInt (10 ^ 12)

/-- `iter().sum::<f64>()`. -/
def sum (w : List F) : F := w.foldl (· + ·) (ofInt 0)

def equalWeights (n : Nat) : List F :=
  if n = 0 then [] else List.replicate n (ofInt 1 / ofInt n)

def normalizeLongOnly (w : List F) : List F :=
  if w.isEmpty then w
  else
    let w := w.map fun x ↦ if !isFinite x || lt x (ofInt 0) then ofInt 0 else x
    let total := sum w
    if le total tiny then equalWeights w.length else w.map (· / total)

def inverseRiskWeights (risks : List F) : List F :=
  if risks.isEmpty then []
  else normalizeLongOnly (risks.map fun r ↦
    let rr := if isFinite r && lt (ofInt 0) r then r else ofInt 1
    ofInt 1 / rr)

/-! ## Exact numbers -/

section Exact

variable {a b : Rat}

theorem exact_ofInt (n : Int) : (ofInt n : Option Rat) = some (n : Rat) := rfl

theorem exact_add : (some a + some b : Option Rat) = some (a + b) := rfl

theorem exact_sub : (some a - some b : Option Rat) = some (a - b) := rfl

theorem exact_mul : (some a * some b : Option Rat) = some (a * b) := rfl

theorem exact_div (hb : b ≠ 0) : (some a / some b : Option Rat) = some (a / b) := by
  have hnum : b.num ≠ 0 := Rat.num_ne_zero.mpr hb
  change (if b.num = 0 then none else some (Rat.div a b)) = some (a / b)
  rw [if_neg hnum]
  rfl

theorem exact_lt_iff : lt (some a) (some b) = true ↔ a < b := Iff.rfl

theorem exact_le_iff : le (some a) (some b) = true ↔ a ≤ b :=
  iff_of_eq (Bool.not_eq_true' (Rat.blt b a))

theorem exact_tiny : (tiny : Option Rat) = some (1 / 10 ^ 12) := by
  rw [tiny, exact_ofInt, exact_ofInt, exact_div (by norm_num)]
  norm_num

/-- A number that is finite and above another is a number. -/
theorem exists_of_lt {x : Option Rat} (h : lt (some a) x = true) : ∃ q, x = some q ∧ a < q := by
  cases x with
  | none => cases h
  | some q => exact ⟨q, rfl, exact_lt_iff.mp h⟩

theorem exact_sum (w : List Rat) : sum (w.map some) = some w.sum := by
  have hfold : ∀ (acc : Rat) (w : List Rat),
      (w.map some).foldl (· + ·) (some acc) = (some (acc + w.sum) : Option Rat) := by
    intro acc w
    induction w generalizing acc with
    | nil => rw [List.map_nil, List.foldl_nil, List.sum_nil, add_zero]
    | cons x w ih =>
        rw [List.map_cons, List.foldl_cons, exact_add, ih, List.sum_cons, add_assoc]
  rw [sum, exact_ofInt, hfold, Int.cast_zero, zero_add]

/-- Weights that are not negative are scaled to sum to one. -/
theorem exact_normalizeLongOnly {w : List Rat} (hw : ∀ x ∈ w, 0 ≤ x) (hsum : 1 / 10 ^ 12 < w.sum) :
    normalizeLongOnly (w.map some) = (w.map (· / w.sum)).map some := by
  have hne : w ≠ [] := by
    rintro rfl
    norm_num at hsum
  have hpos : w.sum ≠ 0 := by
    have hlow : (0 : Rat) < 1 / 10 ^ 12 := by norm_num
    exact (hlow.trans hsum).ne'
  have hkept : (w.map some).map (fun x ↦ if !isFinite x || lt x (ofInt 0) then ofInt 0 else x) =
      (w.map some : List (Option Rat)) := by
    rw [List.map_map]
    refine List.map_congr_left fun x hx ↦ if_neg ?_
    rw [exact_ofInt, Bool.or_eq_true, exact_lt_iff]
    simpa [isFinite] using hw x hx
  rw [normalizeLongOnly, if_neg (by simpa using hne)]
  simp only [hkept, exact_sum, exact_tiny, exact_le_iff]
  rw [if_neg (not_le.mpr hsum), List.map_map, List.map_map]
  exact List.map_congr_left fun x _ ↦ exact_div hpos

end Exact

end Optimize

end Nanobook
