import Nanobook.Lib.Multiples
import Nanobook.Portfolio.Rebalance

/-!
# Sizing quantities

`truncate_qty_to_max_value` and `size_qty` divide twice, by the price and by the step, and round
down both times.  Nothing is lost by it: of the multiples of the step that a value pays for they
return the one of the greatest magnitude, as long as it fits into an `i64`.  Their intermediate
values are `i128`, and none of them overflows.
-/

namespace Nanobook

open Multiples (IsLargest OnSide floor)

/-! ## Exact values -/

/-- What a quantity is worth before any rounding. -/
def exactValue (qty : Shares) (price : Int) : ℚ := (|qty| * |price| : Int) / (Shares.scale : ℚ)

/-- The multiple of the step of the greatest magnitude, on the side of `side`, that is worth no more
than `bound`. -/
def IsLargestSize (side price step bound : Int) (qty : Shares) : Prop :=
  IsLargest side step (fun q ↦ exactValue q price ≤ bound) qty

theorem exactValue_le_iff {qty : Shares} {price bound : Int} :
    exactValue qty price ≤ bound ↔ |qty| * |price| ≤ bound * Shares.scale := by
  rw [exactValue, div_le_iff₀ (by norm_num [Shares.scale])]
  exact_mod_cast Iff.rfl

/-- In whole steps, as many micro-shares as a value pays for. -/
def wholeSteps (value price step : Int) : Int := floor step (value * Shares.scale / |price|)

section WholeSteps

variable {qty : Shares} {value price step : Int}

theorem wholeSteps_nonneg (hvalue : 0 ≤ value) (price : Int) (hstep : 0 < step) :
    0 ≤ wholeSteps value price step :=
  Multiples.floor_nonneg hstep
    (Int.ediv_nonneg (Int.mul_nonneg hvalue (by decide)) (abs_nonneg price))

theorem isGreatest_wholeSteps (value : Int) (hprice : price ≠ 0) (hstep : 0 < step) :
    IsGreatest {m | step ∣ m ∧ m * |price| ≤ value * Shares.scale} (wholeSteps value price step) :=
  Multiples.isGreatest_floor_ediv hstep (abs_pos.mpr hprice) _

/-- A quantity of that magnitude is the largest size. -/
theorem isLargestSize_of_abs_eq {side : Int} (hprice : price ≠ 0) (hstep : 0 < step)
    (hqty : |qty| = wholeSteps value price step) (hside : OnSide side qty) :
    IsLargestSize side price step value qty := by
  refine IsLargest.of_abs (q := fun m ↦ m * |price| ≤ value * Shares.scale)
    (fun _ ↦ exactValue_le_iff) ?_ hside
  rw [hqty]
  exact isGreatest_wholeSteps value hprice hstep

end WholeSteps

/-! ## Cutting down to a value -/

section Truncate

variable {qty : Shares} {price step maxValue : Int}

/-- What a value pays for is less than a quantity that is worth more. -/
theorem wholeSteps_lt (hprice : price ≠ 0) (hstep : 0 < step)
    (hlarge : maxValue < notionalOf qty price) : wholeSteps maxValue price step < |qty| := by
  obtain ⟨-, hle⟩ := (isGreatest_wholeSteps maxValue hprice hstep).1
  have hdiv : maxValue < |qty| * |price| / Shares.scale := by
    refine lt_of_lt_of_le hlarge ((min_le_left _ _).trans_eq ?_)
    rw [Int.natCast_ediv, Int.natCast_mul, Int.abs_eq_natAbs, Int.abs_eq_natAbs]
    rfl
  have hlt : maxValue * Shares.scale < |qty| * |price| :=
    Int.mul_lt_of_lt_ediv (by decide) hdiv
  exact lt_of_mul_lt_mul_right (hle.trans_lt hlt) (abs_nonneg price)

/-- The quotients, the clamp and the sign. -/
theorem truncateQtyToMaxValue_eq (hvalue : 0 < maxValue) (hprice : price ≠ 0) (hstep : 0 < step) :
    truncateQtyToMaxValue qty price step maxValue =
      if qty < 0 then -min (wholeSteps maxValue price step) i64Max
      else min (wholeSteps maxValue price step) i64Max := by
  have hproduct : 0 ≤ maxValue * Shares.scale := Int.mul_nonneg hvalue.le (by decide)
  have hclamp : 0 ≤ min (wholeSteps maxValue price step) i64Max :=
    le_min (wholeSteps_nonneg hvalue.le price hstep) (by decide)
  rw [truncateQtyToMaxValue, if_neg (by omega), ← Int.abs_eq_natAbs]
  simp only [Multiples.tdiv_tdiv_mul hproduct (abs_nonneg price), ← wholeSteps.eq_def,
    max_eq_right hclamp]

theorem abs_truncateQtyToMaxValue (qty : Shares) (hvalue : 0 < maxValue) (hprice : price ≠ 0)
    (hstep : 0 < step) :
    |truncateQtyToMaxValue qty price step maxValue| =
      min (wholeSteps maxValue price step) i64Max := by
  rw [truncateQtyToMaxValue_eq hvalue hprice hstep, apply_ite abs, abs_neg, ite_self]
  exact abs_of_nonneg (le_min (wholeSteps_nonneg hvalue.le price hstep) (by decide))

/-- Cutting down a quantity that is worth too much does not saturate. -/
theorem wholeSteps_le_i64Max (hqty : InI64 qty) (hprice : price ≠ 0) (hstep : 0 < step)
    (hlarge : maxValue < notionalOf qty price) : wholeSteps maxValue price step ≤ i64Max := by
  have hlt := wholeSteps_lt hprice hstep hlarge
  rw [Int.abs_eq_natAbs] at hlt
  simp only [InI64, i64Min, i64Max] at hqty ⊢
  lia

theorem price_ne_zero_of_lt (hvalue : 0 ≤ maxValue) (hlarge : maxValue < notionalOf qty price) :
    price ≠ 0 := by
  rintro rfl
  rw [notionalOf, Int.natAbs_zero, Nat.mul_zero, Nat.zero_div] at hlarge
  exact absurd (hlarge.trans_le (min_le_left _ _)) (not_lt.mpr hvalue)

/-- What is cut down is the largest size that the value pays for, and it is less than it was. -/
theorem isLargestSize_truncateQtyToMaxValue (hqty : InI64 qty) (hvalue : 0 < maxValue)
    (hstep : 0 < step) (hlarge : maxValue < notionalOf qty price) :
    IsLargestSize qty price step maxValue (truncateQtyToMaxValue qty price step maxValue) ∧
      |truncateQtyToMaxValue qty price step maxValue| < |qty| := by
  have hprice := price_ne_zero_of_lt hvalue.le hlarge
  have hnonneg := wholeSteps_nonneg hvalue.le price hstep
  have hlt := wholeSteps_lt hprice hstep hlarge
  have hle := min_eq_left (wholeSteps_le_i64Max hqty hprice hstep hlarge)
  have habs := abs_truncateQtyToMaxValue qty hvalue hprice hstep
  rw [hle] at habs
  constructor
  · refine isLargestSize_of_abs_eq hprice hstep habs ?_
    rw [truncateQtyToMaxValue_eq hvalue hprice hstep, hle]
    refine OnSide.ite_neg hnonneg ?_
    rintro rfl
    rw [abs_zero] at hlt
    exact absurd hlt (not_lt.mpr hnonneg)
  · rw [habs]
    exact hlt

end Truncate

/-! ## Sizing a difference -/

/-- What `size_qty` comes to before the clamp to `i64`. -/
def sizeQtySigned (diffValue price step : Int) : Int :=
  let sign : Int := if diffValue < 0 then -1 else 1
  let rawMicro := (diffValue.natAbs * Shares.scale).tdiv price
  let snapped := rawMicro.tdiv step * step
  snapped * sign

section Size

variable {diffValue price step : Int}

theorem sizeQtySigned_eq (hprice : 0 < price) :
    sizeQtySigned diffValue price step =
      if diffValue < 0 then -wholeSteps |diffValue| price step
      else wholeSteps |diffValue| price step := by
  have hproduct : 0 ≤ |diffValue| * Shares.scale := Int.mul_nonneg (abs_nonneg _) (by decide)
  simp only [sizeQtySigned, wholeSteps, ← Int.abs_eq_natAbs, abs_of_pos hprice,
    Multiples.tdiv_tdiv_mul hproduct hprice.le]
  split_ifs
  · exact Int.mul_neg_one _
  · exact Int.mul_one _

/-- The guard against no difference is no exception. -/
theorem sizeQty_eq_clampI64 (hprice : 0 < price) (hstep : 0 < step) :
    sizeQty diffValue price step = clampI64 (sizeQtySigned diffValue price step) := by
  rw [sizeQty]
  split
  · next h =>
      obtain rfl : diffValue = 0 := by omega
      rw [sizeQtySigned_eq hprice, wholeSteps, abs_zero, Int.zero_mul, Int.zero_ediv, floor,
        Int.zero_ediv, Int.zero_mul]
      rfl
  · rfl

theorem isLargestSize_sizeQtySigned (hprice : 0 < price) (hstep : 0 < step) :
    IsLargestSize diffValue price step |diffValue| (sizeQtySigned diffValue price step) := by
  have hnonneg := wholeSteps_nonneg (abs_nonneg diffValue) price hstep
  rw [sizeQtySigned_eq hprice]
  refine isLargestSize_of_abs_eq hprice.ne' hstep ?_ (OnSide.ite_neg hnonneg ?_)
  · rw [apply_ite abs, abs_neg, ite_self, abs_of_nonneg hnonneg]
  · rintro rfl
    rw [wholeSteps, abs_zero, Int.zero_mul, Int.zero_ediv, floor, Int.zero_ediv, Int.zero_mul]

/-- The size is the largest exactly when it fits. -/
theorem isLargestSize_sizeQty_iff (hprice : 0 < price) (hstep : 0 < step) :
    IsLargestSize diffValue price step |diffValue| (sizeQty diffValue price step) ↔
      InI64 (sizeQtySigned diffValue price step) := by
  rw [IsLargestSize, (isLargestSize_sizeQtySigned hprice hstep).eq_iff,
    sizeQty_eq_clampI64 hprice hstep, clampI64_eq_iff]

end Size

/-! ## No overflow -/

/-- The value fits into an `i128`. -/
def InI128 (x : Int) : Prop := -2 ^ 127 ≤ x ∧ x < 2 ^ 127

instance (x : Int) : Decidable (InI128 x) := inferInstanceAs (Decidable (_ ∧ _))

/-- The result of an operation on `i128`, unless it overflows. -/
def checkedI128 (x : Int) : Option Int := if InI128 x then some x else none

/-- `notional_of`, every operation checked. -/
def notionalOfChecked (qty : Shares) (price : Int) : Option Int := do
  let product ← checkedI128 (qty.natAbs * price.natAbs)
  let notional ← checkedI128 (product.tdiv Shares.scale)
  some (max 0 (min notional i64Max))

/-- `truncate_qty_to_max_value`, every operation checked, the negation of an `i64` included. -/
def truncateQtyToMaxValueChecked (qty : Shares) (price step maxValue : Int) : Option Shares :=
  if maxValue ≤ 0 ∨ price = 0 ∨ step ≤ 0 then some 0
  else do
    let product ← checkedI128 (maxValue * Shares.scale)
    let rawAbsCap ← checkedI128 (product.tdiv price.natAbs)
    let steps ← checkedI128 (rawAbsCap.tdiv step)
    let snapped ← checkedI128 (steps * step)
    let snapped := max 0 (min snapped i64Max)
    if qty < 0 then
      if InI64 (-snapped) then some (-snapped) else none
    else some snapped

/-- `size_qty`, every operation checked. -/
def sizeQtyChecked (diffValue price step : Int) : Option Shares :=
  if diffValue = 0 ∨ price ≤ 0 ∨ step ≤ 0 then some 0
  else do
    let sign : Int := if diffValue < 0 then -1 else 1
    let product ← checkedI128 (diffValue.natAbs * Shares.scale)
    let rawMicro ← checkedI128 (product.tdiv price)
    let steps ← checkedI128 (rawMicro.tdiv step)
    let snapped ← checkedI128 (steps * step)
    let signed ← checkedI128 (snapped * sign)
    some (clampI64 signed)

theorem checkedI128_eq {x : Int} (h : InI128 x) : checkedI128 x = some x := if_pos h

theorem InI128.of_le {x y : Int} (hy : InI128 y) (hx : 0 ≤ x) (hle : x ≤ y) : InI128 x := by
  simp only [InI128] at *
  omega

/-- A product of two values of `i64` fits, magnitudes of `i64::MIN` included. -/
theorem inI128_natAbs_mul {x y : Int} (hx : InI64 x) (hy : InI64 y) :
    InI128 (x.natAbs * y.natAbs) := by
  have hmagnitude {z : Int} (hz : InI64 z) : z.natAbs ≤ 2 ^ 63 := by
    simp only [InI64, i64Min, i64Max] at hz
    omega
  have hmul : x.natAbs * y.natAbs ≤ 2 ^ 63 * 2 ^ 63 :=
    Nat.mul_le_mul (hmagnitude hx) (hmagnitude hy)
  rw [← Int.natCast_mul]
  constructor <;> omega

/-- An amount in cents fits in millionths of them. -/
theorem inI128_natAbs_mul_scale {x : Int} (hx : InI64 x) : InI128 (x.natAbs * Shares.scale) :=
  inI128_natAbs_mul hx (show InI64 Shares.scale by decide)

/-- The quotients and the multiple are no greater than what is divided. -/
theorem inI128_quotients {n price step : Int} (hn : 0 ≤ n) (h : InI128 n) (hprice : 0 ≤ price)
    (hstep : 0 < step) :
    InI128 (n.tdiv price) ∧ InI128 ((n.tdiv price).tdiv step) ∧
      InI128 ((n.tdiv price).tdiv step * step) := by
  have hraw : 0 ≤ n.tdiv price := Int.tdiv_nonneg hn hprice
  have hraw128 : InI128 (n.tdiv price) := h.of_le hraw (Int.tdiv_le_self price hn)
  refine ⟨hraw128, ?_, ?_⟩
  · exact hraw128.of_le (Int.tdiv_nonneg hraw hstep.le) (Int.tdiv_le_self step hraw)
  · rw [Int.tdiv_eq_ediv_of_nonneg hraw]
    exact hraw128.of_le (Multiples.floor_nonneg hstep hraw) (Multiples.floor_le hstep)

theorem notionalOfChecked_eq {qty : Shares} {price : Int} (hqty : InI64 qty)
    (hprice : InI64 price) : notionalOfChecked qty price = some (notionalOf qty price) := by
  have hproduct := inI128_natAbs_mul hqty hprice
  have hnonneg : (0 : Int) ≤ qty.natAbs * price.natAbs :=
    Int.mul_nonneg (Int.natCast_nonneg _) (Int.natCast_nonneg _)
  have hquot : InI128 ((qty.natAbs * price.natAbs : Int).tdiv Shares.scale) :=
    hproduct.of_le (Int.tdiv_nonneg hnonneg (by decide)) (Int.tdiv_le_self _ hnonneg)
  rw [notionalOfChecked, checkedI128_eq hproduct, Option.bind_eq_bind, Option.bind_some,
    checkedI128_eq hquot, Option.bind_some]
  exact congrArg some (max_eq_right (notionalOf_nonneg qty price))

theorem truncateQtyToMaxValueChecked_eq {qty : Shares} {price step maxValue : Int}
    (hmax : InI64 maxValue) :
    truncateQtyToMaxValueChecked qty price step maxValue =
      some (truncateQtyToMaxValue qty price step maxValue) := by
  rw [truncateQtyToMaxValueChecked, truncateQtyToMaxValue]
  split
  · rfl
  next h =>
    have hproduct := inI128_natAbs_mul_scale hmax
    rw [Int.natAbs_of_nonneg (by omega)] at hproduct
    obtain ⟨hraw, hsteps, hsnapped⟩ := inI128_quotients
      (Int.mul_nonneg (by omega) (by decide)) hproduct (Int.natCast_nonneg price.natAbs)
      (show 0 < step by omega)
    simp only [checkedI128_eq hproduct, checkedI128_eq hraw, checkedI128_eq hsteps,
      checkedI128_eq hsnapped, Option.bind_eq_bind, Option.bind_some]
    split_ifs with hneg hin
    · rfl
    · exact absurd hin (by simp only [InI64, i64Min, i64Max]; omega)
    · rfl

theorem sizeQtyChecked_eq {diffValue price step : Int} (hdiff : InI64 diffValue) :
    sizeQtyChecked diffValue price step = some (sizeQty diffValue price step) := by
  rw [sizeQtyChecked, sizeQty]
  split
  · rfl
  next h =>
    obtain ⟨-, hprice, hstep⟩ : diffValue ≠ 0 ∧ 0 < price ∧ 0 < step := by omega
    have hproduct := inI128_natAbs_mul_scale hdiff
    have hproduct₀ : 0 ≤ (diffValue.natAbs : Int) * Shares.scale :=
      Int.mul_nonneg (Int.natCast_nonneg _) (by decide)
    obtain ⟨hraw, hsteps, hsnapped⟩ := inI128_quotients hproduct₀ hproduct hprice.le hstep
    have hsigned : InI128 (((diffValue.natAbs * Shares.scale).tdiv price).tdiv step * step *
        (if diffValue < 0 then -1 else 1)) := by
      have hnonneg : 0 ≤ ((diffValue.natAbs * Shares.scale).tdiv price).tdiv step * step := by
        rw [Multiples.tdiv_tdiv_mul hproduct₀ hprice.le]
        exact Multiples.floor_nonneg hstep (Int.ediv_nonneg hproduct₀ hprice.le)
      simp only [InI128] at hsnapped ⊢
      split_ifs <;> omega
    simp only [checkedI128_eq hproduct, checkedI128_eq hraw, checkedI128_eq hsteps,
      checkedI128_eq hsnapped, checkedI128_eq hsigned, Option.bind_eq_bind, Option.bind_some]

/-! ## Exactness -/

/-- A quantity that is worth too much is cut down to the largest size that the value pays for, a
difference that does not saturate is turned into the largest size it pays for, and no operation
overflows. -/
theorem sizing_exact {qty : Shares} {price step maxValue diffValue : Int} (hqty : InI64 qty)
    (hprice : InI64 price) (hmax : InI64 maxValue) (hdiff : InI64 diffValue) (hstep : 0 < step) :
    (0 < maxValue → maxValue < notionalOf qty price →
      (∀ q, IsLargestSize qty price step maxValue q ↔
        q = truncateQtyToMaxValue qty price step maxValue) ∧
      |truncateQtyToMaxValue qty price step maxValue| < |qty|) ∧
    (0 < price → InI64 (sizeQtySigned diffValue price step) →
      ∀ q, IsLargestSize diffValue price step |diffValue| q ↔ q = sizeQty diffValue price step) ∧
    notionalOfChecked qty price = some (notionalOf qty price) ∧
    truncateQtyToMaxValueChecked qty price step maxValue =
      some (truncateQtyToMaxValue qty price step maxValue) ∧
    sizeQtyChecked diffValue price step = some (sizeQty diffValue price step) := by
  refine ⟨?_, ?_, ?_, ?_, ?_⟩
  · intro hvalue hlarge
    obtain ⟨hlargest, hsmaller⟩ := isLargestSize_truncateQtyToMaxValue hqty hvalue hstep hlarge
    exact ⟨fun _ ↦ hlargest.eq_iff, hsmaller⟩
  · intro hpos hfits q
    exact ((isLargestSize_sizeQty_iff hpos hstep).mpr hfits).eq_iff
  · exact notionalOfChecked_eq hqty hprice
  · exact truncateQtyToMaxValueChecked_eq hmax
  · exact sizeQtyChecked_eq hdiff

/-- Two and a half shares' worth, in whole shares: of five shares that are sold two are left. -/
theorem sizing_exact_sell :
    IsLargestSize (-5000000) 100 1000000 250 (-2000000) ∧ |(-2000000 : Shares)| < |-5000000| ∧
      IsLargestSize (-250) 100 1000000 |-250| (-2000000) ∧
      truncateQtyToMaxValueChecked (-5000000) 100 1000000 250 = some (-2000000) ∧
      sizeQtyChecked (-250) 100 1000000 = some (-2000000) := by
  obtain ⟨htruncate, hsize, -, htruncateChecked, hsizeChecked⟩ :=
    @sizing_exact (-5000000) 100 1000000 250 (-250) (by decide) (by decide) (by decide) (by decide)
      (by decide)
  obtain ⟨hlargest, hsmaller⟩ := htruncate (by decide) (by decide)
  exact ⟨(hlargest _).mpr (by decide), hsmaller, (hsize (by decide) (by decide) _).mpr (by decide),
    htruncateChecked, hsizeChecked⟩

end Nanobook
