import Nanobook.Portfolio.Sizing

/-!
# Caps

The orders of a rebalance keep to the caps on their number and on their value.  An order that would
exceed what is left of the value is cut down to it, and is the last one.
-/

namespace Nanobook

open Rebalancer (Symbol collected)

/-- What is worth no more than a value is no more than it after rounding. -/
theorem notionalOf_le_of_mul_le {qty : Shares} {price value : Int}
    (h : |qty| * |price| ≤ value * Shares.scale) : notionalOf qty price ≤ value := by
  refine (min_le_left _ _).trans ?_
  rw [Int.natCast_ediv, Int.natCast_mul, ← Int.abs_eq_natAbs, ← Int.abs_eq_natAbs]
  exact Int.ediv_le_of_le_mul (by decide) h

/-- What is cut down to a value is worth no more. -/
theorem notionalOf_truncateQtyToMaxValue_le (qty : Shares) (price step : Int) {maxValue : Int}
    (h : 0 ≤ maxValue) :
    notionalOf (truncateQtyToMaxValue qty price step maxValue) price ≤ maxValue := by
  apply notionalOf_le_of_mul_le
  by_cases hnone : maxValue ≤ 0 ∨ price = 0 ∨ step ≤ 0
  · rw [truncateQtyToMaxValue, if_pos hnone, abs_zero, Int.zero_mul]
    exact Int.mul_nonneg h (by decide)
  · obtain ⟨hvalue, hprice, hstep⟩ : 0 < maxValue ∧ price ≠ 0 ∧ 0 < step := by omega
    rw [abs_truncateQtyToMaxValue _ hvalue hprice hstep]
    calc _ ≤ wholeSteps maxValue price step * |price| :=
          Int.mul_le_mul_of_nonneg_right (min_le_left _ _) (abs_nonneg price)
      _ ≤ maxValue * Shares.scale := (isGreatest_wholeSteps maxValue hprice hstep).1.2

namespace Portfolio

variable {F : Type} {p : Portfolio F}

/-- The values of orders, added up. -/
def notionalSum (orders : List (PlannedOrder F)) : Int :=
  (orders.map fun o ↦ notionalOf o.qty o.price).sum

/-- The cap on the number of orders; without one it is that of a `usize`. -/
def tradeCap (p : Portfolio F) : Nat := p.maxTradesPerRebalance.getD u64Max

theorem length_admitFrom {count : Nat} {running : Int} {l : List (PlannedOrder F)} :
    (p.admitFrom count running l).length ≤ p.tradeCap - count := by
  induction l generalizing count running with
  | nil => exact Nat.zero_le _
  | cons o l ih =>
      simp only [admitFrom, ← tradeCap.eq_def]
      split_ifs with hfull
      · exact Nat.zero_le _
      · exact Nat.zero_le _
      · exact Nat.zero_le _
      · rw [List.length_singleton]
        omega
      · exact Nat.zero_le _
      · rw [List.length_cons]
        have hrest := @ih (count + 1) (wrapI64 (running + notionalOf o.qty o.price))
        omega

theorem notionalSum_admitFrom (hmax : 0 < p.maxRebalanceNotional)
    (hrange : InI64 p.maxRebalanceNotional)
    {count : Nat} {running : Int} (hrunning : 0 ≤ running) (hle : running ≤ p.maxRebalanceNotional)
    {l : List (PlannedOrder F)} :
    running + notionalSum (p.admitFrom count running l) ≤ p.maxRebalanceNotional := by
  induction l generalizing count running with
  | nil => simpa [admitFrom, notionalSum] using hle
  | cons o l ih =>
      have hremaining :
        wrapI64 (p.maxRebalanceNotional - running) = p.maxRebalanceNotional - running :=
        wrapI64_eq ⟨(by decide : i64Min ≤ 0).trans (by omega), by have := hrange.2; omega⟩
      have hnotional := notionalOf_nonneg o.qty o.price
      simp only [admitFrom, hremaining, hmax, true_and]
      split_ifs with hfull hspent hlarge hzero hsmall
      · simpa [notionalSum] using hle
      · simpa [notionalSum] using hle
      · simpa [notionalSum] using hle
      · have hcut :=
          notionalOf_truncateQtyToMaxValue_le o.qty o.price p.quantityStep (not_le.mp hspent).le
        simp only [notionalSum, List.map_cons, List.map_nil, List.sum_singleton]
        omega
      · simpa [notionalSum] using hle
      · have hrun :
          wrapI64 (running + notionalOf o.qty o.price) = running + notionalOf o.qty o.price :=
          wrapI64_eq ⟨(by decide : i64Min ≤ 0).trans (by omega), by have := hrange.2; omega⟩
        have hrest := @ih (count + 1) (running + notionalOf o.qty o.price) (by omega) (by omega)
        rw [hrun]
        simp only [notionalSum, List.map_cons, List.sum_cons] at hrest ⊢
        omega

variable [F64 F] {prices : PriceMap} {order : HashMap.Order Symbol} {targets : List (Symbol × F)}

/-- There are no more orders than the cap on their number. -/
theorem length_rebalanceOrders {cap : Nat} (hcap : p.maxTradesPerRebalance = some cap) :
    (p.rebalanceOrders prices order targets).length ≤ cap := by
  simp only [rebalanceOrders, admitted, hcap, Option.isSome_some, true_or, if_true]
  split
  · exact Nat.zero_le _
  · exact length_admitFrom.trans_eq (by rw [tradeCap, hcap]; rfl)

/-- The orders are worth no more than the cap on their value. -/
theorem notionalSum_rebalanceOrders (hmax : 0 < p.maxRebalanceNotional)
    (hrange : InI64 p.maxRebalanceNotional) :
    notionalSum (p.rebalanceOrders prices order targets) ≤ p.maxRebalanceNotional := by
  simp only [rebalanceOrders, admitted, hmax, or_true, if_true]
  split
  · exact hmax.le
  · rw [← Int.zero_add (notionalSum _)]
    exact notionalSum_admitFrom hmax hrange le_rfl hmax.le

end Portfolio

end Nanobook
