import Nanobook.Portfolio.OrderIndependence

/-!
# What the caps admit

With a cap set, the orders of a rebalance are the first of its plan, the largest drift first.  The
one after them may be cut down to what is left of the value.  No order is left out without need.
-/

namespace Nanobook

open Rebalancer (Symbol)

namespace Portfolio

variable {F : Type} {p : Portfolio F} {a o : PlannedOrder F} {l : List (PlannedOrder F)}

/-! ## Orders that are cut down -/

/-- An order cut down: to a smaller quantity on the same side, in steps, above the minimum. -/
structure Truncated (p : Portfolio F) (a o : PlannedOrder F) : Prop where
  same : o = { a with qty := o.qty }
  nonzero : o.qty ≠ 0
  side : 0 < o.qty ↔ 0 < a.qty
  smaller : |o.qty| < |a.qty|
  stepped : p.quantityStep ∣ o.qty
  min : 0 < p.minOrderValue → p.minOrderValue ≤ notionalOf o.qty o.price

/-- Cutting down a quantity that is worth too much leaves less, on the same side. -/
theorem truncateQtyToMaxValue_lt {qty : Shares} {price step maxValue : Int}
    (hlarge : maxValue < notionalOf qty price)
    (hnonzero : truncateQtyToMaxValue qty price step maxValue ≠ 0) :
    |truncateQtyToMaxValue qty price step maxValue| < |qty| ∧
      (0 < truncateQtyToMaxValue qty price step maxValue ↔ 0 < qty) := by
  by_cases hnone : maxValue ≤ 0 ∨ price = 0 ∨ step ≤ 0
  · exact absurd (if_pos hnone) hnonzero
  obtain ⟨hvalue, hprice, hstep⟩ : 0 < maxValue ∧ price ≠ 0 ∧ 0 < step := by omega
  have hlt := wholeSteps_lt hprice hstep hlarge
  constructor
  · rw [abs_truncateQtyToMaxValue _ hvalue hprice hstep]
    exact (min_le_left _ _).trans_lt hlt
  · have hnonneg := wholeSteps_nonneg hvalue.le price hstep
    rw [truncateQtyToMaxValue_eq hvalue hprice hstep] at hnonzero ⊢
    rw [Int.abs_eq_natAbs] at hlt
    simp only [i64Max] at hnonzero ⊢
    split_ifs at hnonzero ⊢ <;> lia

theorem Truncated.of_remaining {remaining : Int} (hqty : InI64 a.qty)
    (hlarge : remaining < notionalOf a.qty a.price)
    (hnonzero : truncateQtyToMaxValue a.qty a.price p.quantityStep remaining ≠ 0)
    (hmin : p.minOrderValue ≤ 0 ∨ p.minOrderValue ≤
      notionalOf (truncateQtyToMaxValue a.qty a.price p.quantityStep remaining) a.price) :
    p.Truncated a { a with
      qty := truncateQtyToMaxValue a.qty a.price p.quantityStep remaining } where
  same := rfl
  nonzero := hnonzero
  side := (truncateQtyToMaxValue_lt hlarge hnonzero).2
  smaller := (truncateQtyToMaxValue_lt hlarge hnonzero).1
  stepped := dvd_truncateQtyToMaxValue hqty hlarge
  min h := hmin.resolve_left (not_le.mpr h)

/-! ## The prefix -/

section Prefix

variable (p) (count : Nat) (running : Int) (plan orders : List (PlannedOrder F))

/-- Why, after `count` orders that are worth `running`, no more than the first `k` orders of a plan
are admitted as they are: there are as many as the cap allows, the budget is used up, or the next
one exceeds what is left of it. -/
def Exhausted (k : Nat) : Prop :=
  p.tradeCap ≤ count + k ∨ 0 < p.maxRebalanceNotional ∧
    (p.maxRebalanceNotional ≤ running + notionalSum (plan.take k) ∨
      ∃ a, plan[k]? = some a ∧ p.maxRebalanceNotional <
        running + notionalSum (plan.take k) + notionalOf a.qty a.price)

/-- The orders are the first of a plan, and maybe a part of the next one; what is left out does not
fit. -/
def IsPrefix : Prop :=
  ∃ (k : Nat) (last : Option (PlannedOrder F)), k ≤ plan.length ∧
    orders = plan.take k ++ last.toList ∧
    (∀ o ∈ last, ∃ a, plan[k]? = some a ∧ p.Truncated a o) ∧
    (k < plan.length → p.Exhausted count running plan k)

/-- What the caps make of a plan. -/
structure Prioritised : Prop where
  isPrefix : p.IsPrefix 0 0 plan orders
  length : orders.length ≤ p.tradeCap
  value : 0 < p.maxRebalanceNotional → notionalSum orders ≤ p.maxRebalanceNotional

end Prefix

variable {count : Nat} {running running' : Int} {orders : List (PlannedOrder F)}

/-- No order is admitted as it is. -/
theorem IsPrefix.stop (last : Option (PlannedOrder F)) (hlast : ∀ o ∈ last, p.Truncated a o)
    (hwhy : p.tradeCap ≤ count ∨ 0 < p.maxRebalanceNotional ∧
      (p.maxRebalanceNotional ≤ running ∨
        p.maxRebalanceNotional < running + notionalOf a.qty a.price)) :
    p.IsPrefix count running (a :: l) last.toList := by
  refine ⟨0, last, Nat.zero_le _, rfl, fun o ho ↦ ⟨a, rfl, hlast o ho⟩, fun _ ↦ ?_⟩
  have hempty : notionalSum ((a :: l).take 0) = 0 := rfl
  rw [Exhausted, hempty, Int.add_zero]
  exact hwhy.imp_right fun h ↦ ⟨h.1, h.2.imp_right fun hmore ↦ ⟨a, rfl, hmore⟩⟩

/-- The first order is admitted as it is. -/
theorem IsPrefix.cons (hrunning : 0 < p.maxRebalanceNotional →
      running' = running + notionalOf a.qty a.price)
    (h : p.IsPrefix (count + 1) running' l orders) :
    p.IsPrefix count running (a :: l) (a :: orders) := by
  obtain ⟨k, last, hk, rfl, hlast, hwhy⟩ := h
  refine ⟨k + 1, last, Nat.succ_le_succ hk, rfl, hlast, fun hlt ↦ ?_⟩
  have hsum : notionalSum ((a :: l).take (k + 1)) =
      notionalOf a.qty a.price + notionalSum (l.take k) := List.sum_cons
  rw [Exhausted, hsum, List.getElem?_cons_succ]
  rcases hwhy (Nat.lt_of_succ_lt_succ hlt) with hcap | ⟨hmax, hbudget⟩
  · exact .inl (by omega)
  · rw [hrunning hmax, Int.add_assoc] at hbudget
    exact .inr ⟨hmax, hbudget⟩

theorem isPrefix_admitFrom (hrange : InI64 p.maxRebalanceNotional)
    (hrunning : 0 < p.maxRebalanceNotional → 0 ≤ running ∧ running ≤ p.maxRebalanceNotional)
    (hqty : ∀ a ∈ l, InI64 a.qty) : p.IsPrefix count running l (p.admitFrom count running l) := by
  induction l generalizing count running with
  | nil =>
      exact ⟨0, none, le_rfl, rfl, (fun _ ho ↦ by cases ho), fun h ↦ absurd h (Nat.lt_irrefl 0)⟩
  | cons a l ih =>
      obtain ⟨ha, hl⟩ := List.forall_mem_cons.mp hqty
      have hmin : i64Min ≤ 0 := by decide
      have hmost := hrange.2
      have hnotional := notionalOf_nonneg a.qty a.price
      have hremaining (hmax : 0 < p.maxRebalanceNotional) :
          wrapI64 (p.maxRebalanceNotional - running) = p.maxRebalanceNotional - running := by
        have hbounds := hrunning hmax
        exact wrapI64_eq ⟨by omega, by omega⟩
      simp only [admitFrom, ← tradeCap.eq_def]
      split_ifs with hfull hspent hlarge hzero hsmall
      · exact IsPrefix.stop none (fun _ ho ↦ by cases ho) (.inl hfull)
      · rw [hremaining hspent.1] at hspent
        exact IsPrefix.stop none (fun _ ho ↦ by cases ho) (.inr ⟨hspent.1, .inl (by omega)⟩)
      · rw [hremaining hlarge.1] at hlarge
        exact IsPrefix.stop none (fun _ ho ↦ by cases ho) (.inr ⟨hlarge.1, .inr (by omega)⟩)
      · have hcut := Truncated.of_remaining ha hlarge.2 hzero hsmall
        rw [hremaining hlarge.1] at hlarge
        refine IsPrefix.stop (some _) (fun o ho ↦ ?_) (.inr ⟨hlarge.1, .inr (by omega)⟩)
        rwa [← Option.some.inj ho]
      · rw [hremaining hlarge.1] at hlarge
        exact IsPrefix.stop none (fun _ ho ↦ by cases ho) (.inr ⟨hlarge.1, .inr (by omega)⟩)
      · have hfits (hmax : 0 < p.maxRebalanceNotional) :
            running + notionalOf a.qty a.price ≤ p.maxRebalanceNotional := by
          have hle := not_lt.mp fun hlt ↦ hlarge ⟨hmax, hlt⟩
          rw [hremaining hmax] at hle
          omega
        have hwrap (hmax : 0 < p.maxRebalanceNotional) :
            wrapI64 (running + notionalOf a.qty a.price) = running + notionalOf a.qty a.price := by
          have hbounds := hrunning hmax
          have hle := hfits hmax
          exact wrapI64_eq ⟨by omega, by omega⟩
        refine IsPrefix.cons hwrap (ih (fun hmax ↦ ?_) hl)
        rw [hwrap hmax]
        have hbounds := hrunning hmax
        exact ⟨by omega, hfits hmax⟩

/-! ## The orders of a rebalance -/

variable [F64 F] {prices : PriceMap} {order : HashMap.Order Symbol} {targets : List (Symbol × F)}

/-- What a rebalance plans: nothing without equity. -/
def plan (p : Portfolio F) (prices : PriceMap) (order : HashMap.Order Symbol)
    (targets : List (Symbol × F)) : List (PlannedOrder F) :=
  let equity := p.totalEquity order prices
  if equity ≤ 0 then [] else p.planned prices equity order targets

/-- The larger drift comes first, and of equal drifts the smaller symbol. -/
def Before (a b : PlannedOrder F) : Prop :=
  F64.lt b.driftBps a.driftBps = true ∨
    F64.lt a.driftBps b.driftBps = false ∧ a.symbol.asStr < b.symbol.asStr

theorem pairwise_before (hdrift : ComparesDrifts F) (hdistinct : (targets.map Prod.fst).Nodup) :
    ((p.plan prices order targets).insertionSort precedes).Pairwise Before := by
  rw [plan]
  split_ifs with hequity
  · exact .nil
  have hrange : InI64 (p.totalEquity order prices) := inI64_clampI64 _
  let planned := p.planned prices (p.totalEquity order prices) order targets
  have hsorted : (planned.insertionSort precedes).Pairwise precedes :=
    Arrangement.pairwise_insertionSort (fun a _ b _ ↦ precedes_total a b)
      fun a ha b hb c hc ↦ precedes_trans hdrift hrange (not_le.mp hequity) ha hb hc
  have hperm : (planned.insertionSort precedes).Perm planned := List.perm_insertionSort _ _
  have hnodup : ((planned.insertionSort precedes).map PlannedOrder.symbol).Nodup :=
    (hperm.map _).nodup_iff.mpr (nodup_symbols hdistinct)
  refine (hsorted.and (List.pairwise_map.mp hnodup)).imp fun ⟨hprecedes, hne⟩ ↦ ?_
  rcases hprecedes with hless | ⟨hless, hsymbol⟩
  · exact .inl hless
  · refine .inr ⟨Bool.not_eq_true _ ▸ hless, ?_⟩
    by_contra hnot
    exact hne (Symbol.asStr_injective (String.le_antisymm hsymbol hnot))

/-- With a cap set the orders of a rebalance are a prioritised prefix of its plan. -/
theorem prioritised_rebalanceOrders (hdrift : ComparesDrifts F)
    (hdistinct : (targets.map Prod.fst).Nodup) (hrange : InI64 p.maxRebalanceNotional)
    (hcapped : p.Capped) :
    ∃ sorted : List (PlannedOrder F), sorted.Perm (p.plan prices order targets) ∧
      sorted.Pairwise Before ∧ p.Prioritised sorted (p.rebalanceOrders prices order targets) := by
  refine ⟨_, List.perm_insertionSort precedes _, pairwise_before hdrift hdistinct, ?_⟩
  have horders : p.rebalanceOrders prices order targets =
      p.admitFrom 0 0 ((p.plan prices order targets).insertionSort precedes) := by
    rw [rebalanceOrders, plan]
    split_ifs
    · rfl
    · exact admitted_of_capped hcapped _
  have hqty : ∀ a ∈ (p.plan prices order targets).insertionSort precedes, InI64 a.qty := by
    intro a ha
    rw [(List.perm_insertionSort precedes _).mem_iff, plan] at ha
    split_ifs at ha
    · cases ha
    · exact (planned_valid ha).1
  rw [horders]
  refine ⟨isPrefix_admitFrom hrange (fun hmax ↦ ⟨le_rfl, hmax.le⟩) hqty, length_admitFrom, ?_⟩
  intro hmax
  rw [← Int.zero_add (notionalSum _)]
  exact notionalSum_admitFrom hmax hrange le_rfl hmax.le

/-- Ten dollars, of which a rebalance may move five. -/
def fiveToMove : Portfolio (Option Rat) := { tenDollars 0 with maxRebalanceNotional := 500 }

theorem prioritised_fiveToMove :
    (fiveToMove.rebalanceOrders (fun _ ↦ some 100) .insertion
      [(aapl, F64.ofInt 1)]).map PlannedOrder.qty = [5000000] ∧
    ∃ sorted : List (PlannedOrder (Option Rat)),
      sorted.Perm (fiveToMove.plan (fun _ ↦ some 100) .insertion [(aapl, F64.ofInt 1)]) ∧
        sorted.Pairwise Before ∧ fiveToMove.Prioritised sorted
          (fiveToMove.rebalanceOrders (fun _ ↦ some 100) .insertion [(aapl, F64.ofInt 1)]) :=
  ⟨by decide +kernel, prioritised_rebalanceOrders comparesDrifts_exact (by decide)
    (by decide +kernel) (.inr (by decide +kernel))⟩

end Portfolio

end Nanobook
