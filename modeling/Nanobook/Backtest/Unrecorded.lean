import Nanobook.Backtest.LookAhead

/-!
# Runs that are not recorded

Whether fills are recorded makes no difference to what is filled: two runs that only differ in it
agree on everything but the records and the cash snapshots.
-/

namespace Nanobook

open Rebalancer (Symbol collected)

variable {F : Type}

/-! ## Portfolios -/

namespace Portfolio

/-- The portfolio without its records, and what they would be marked with. -/
def unrecorded (p : Portfolio F) : Portfolio F :=
  { p with executions := none, executionPeriodIndex := 0, executionKind := .rebalance }

section Fields

variable (p : Portfolio F)

@[simp] theorem cash_unrecorded : p.unrecorded.cash = p.cash := rfl

@[simp] theorem costModel_unrecorded : p.unrecorded.costModel = p.costModel := rfl

@[simp] theorem quantityStep_unrecorded : p.unrecorded.quantityStep = p.quantityStep := rfl

@[simp] theorem position_unrecorded (sym : Symbol) : p.unrecorded.position sym = p.position sym :=
    rfl

@[simp] theorem unrecorded_unrecorded : p.unrecorded.unrecorded = p.unrecorded := rfl

@[simp] theorem unrecorded_setExecutionContext (periodIndex : Nat) (kind : ExecutionKind) :
    (p.setExecutionContext periodIndex kind).unrecorded = p.unrecorded := rfl

end Fields

/-- What does not look at the records is the same for portfolios that only differ in them. -/
theorem eq_of_unrecorded_eq {A : Type} {f : Portfolio F → A} (hf : ∀ p, f p.unrecorded = f p)
    {p p' : Portfolio F} (h : p.unrecorded = p'.unrecorded) : f p = f p' := by
  rw [← hf p, h, hf]

variable [F64 F] (p : Portfolio F)

theorem trimBuy_unrecorded (qty : Shares) (effectivePrice : Int) :
    p.unrecorded.trimBuy qty effectivePrice =
      (p.trimBuy qty effectivePrice).map fun r ↦ (r.1.unrecorded, r.2) := by
  rw [trimBuy, trimBuy]
  change ite (0 < qty ∧ p.cash < buyCashRequired qty effectivePrice p.costModel) _ _ = _
  by_cases hshort : 0 < qty ∧ p.cash < buyCashRequired qty effectivePrice p.costModel
  · rw [if_pos hshort, if_pos hshort]
    rw [cash_unrecorded, quantityStep_unrecorded, costModel_unrecorded]
    cases largestAffordableBuyQty qty p.cash p.quantityStep effectivePrice p.costModel <;> rfl
  · rw [if_neg hshort, if_neg hshort]
    rfl

theorem executeFill_unrecorded (symbol : Symbol) (qty : Shares) (price : Int) :
    p.unrecorded.executeFill symbol qty price =
    (p.executeFill symbol qty price).map unrecorded := by
  simp only [executeFill, costModel_unrecorded, trimBuy_unrecorded]
  by_cases hzero : qty = 0
  · rw [if_pos hzero, if_pos hzero]
    rfl
  · rw [if_neg hzero, if_neg hzero]
    cases p.trimBuy qty (p.costModel.effectivePrice qty price) with
    | none => rfl
    | some r =>
        simp only [Option.map_some, Option.bind_eq_bind, Option.bind_some,
          apply_ite (Option.map unrecorded)]
        rfl

variable {p} {p' : Portfolio F}

/-- Portfolios that only differ in the records are filled alike. -/
theorem executeFill_congr (h : p.unrecorded = p'.unrecorded) (symbol : Symbol) (qty : Shares)
    (price : Int) :
    (p.executeFill symbol qty price).map unrecorded =
      (p'.executeFill symbol qty price).map unrecorded := by
  rw [← executeFill_unrecorded, h, executeFill_unrecorded]

variable (p)

omit [F64 F] in
theorem admitFrom_unrecorded (count : Nat) (running : Int) (l : List (PlannedOrder F)) :
    p.unrecorded.admitFrom count running l = p.admitFrom count running l := by
  induction l generalizing count running with
  | nil => rfl
  | cons o l ih =>
      simp only [admitFrom, ih]
      rfl

variable (prices : PriceMap) (order : HashMap.Order Symbol)

/-- The orders of a rebalance do not depend on the records. -/
theorem rebalanceOrders_unrecorded (targets : List (Symbol × F)) :
    p.unrecorded.rebalanceOrders prices order targets = p.rebalanceOrders prices order targets := by
  have hplanned : ∀ equity, p.unrecorded.planned prices equity order targets =
      p.planned prices equity order targets := fun _ ↦ rfl
  have hequity : p.unrecorded.totalEquity order prices = p.totalEquity order prices := rfl
  simp only [rebalanceOrders, admitted, hplanned, hequity, admitFrom_unrecorded]
  rfl

variable {p}

theorem rebalanceSimple_congr (h : p.unrecorded = p'.unrecorded) (targets : List (Symbol × F)) :
    (p.rebalanceSimple prices order targets).map unrecorded =
      (p'.rebalanceSimple prices order targets).map unrecorded := by
  rw [rebalanceSimple, rebalanceSimple, ← rebalanceOrders_unrecorded p, h,
    rebalanceOrders_unrecorded p']
  refine Loop.map_foldlM_congr (fun p p' o hp ↦ executeFill_congr hp o.symbol o.qty o.price) ?_
  exact congrArg (countOrders · (p'.rebalanceOrders prices order targets)) h

theorem closePositionAt_congr (h : p.unrecorded = p'.unrecorded) (symbol : Symbol) (price : Int) :
    (p.closePositionAt symbol price).map (fun r ↦ (r.1.unrecorded, r.2)) =
      (p'.closePositionAt symbol price).map fun r ↦ (r.1.unrecorded, r.2) := by
  have hposition : p.position symbol = p'.position symbol :=
    eq_of_unrecorded_eq (f := fun p ↦ p.position symbol) (fun _ ↦ rfl) h
  rw [closePositionAt, closePositionAt, hposition]
  have hskip : (some (p, false)).map (fun r : Portfolio F × Bool ↦ (r.1.unrecorded, r.2)) =
      (some (p', false)).map fun r ↦ (r.1.unrecorded, r.2) := by
    rw [Option.map_some, Option.map_some, h]
  by_cases hprice : price ≤ 0
  · rw [if_pos hprice, if_pos hprice, hskip]
  · rw [if_neg hprice, if_neg hprice]
    cases p'.position symbol with
    | none => exact hskip
    | some pos =>
        by_cases hflat : pos.isFlat = true
        · simp only [hflat, if_true]
          exact hskip
        · simp only [hflat, Bool.false_eq_true, if_false]
          have hfill := congrArg (Option.map fun p : Portfolio F ↦ (p, true))
            (executeFill_congr h symbol (satNeg pos.quantity) price)
          rw [Option.map_map, Option.map_map] at hfill ⊢
          exact hfill

end Portfolio

/-! ## Stops -/

/-- The state of a stop step without records. -/
def StopState.unrecorded (st : StopState F) : StopState F :=
    { st with portfolio := st.portfolio.unrecorded }

section Stops

variable [F64 F] {cfg : BacktestStopConfig F} {periodIndex : Nat} {st st' : StopState F}
  {order : HashMap.Order Symbol}

theorem stopPosition_congr (h : st.unrecorded = st'.unrecorded) (pos : OpenPosition) :
    (stopPosition cfg periodIndex st pos).map StopState.unrecorded =
      (stopPosition cfg periodIndex st' pos).map StopState.unrecorded := by
  obtain ⟨p, trackers, events⟩ := st
  obtain ⟨p', trackers', events'⟩ := st'
  obtain ⟨hp, rfl, rfl⟩ := StopState.mk.inj h
  simp only [stopPosition]
  cases breach cfg (trackerAt cfg trackers pos) pos.price with
  | none => simp only [Option.map_some, StopState.unrecorded, hp]
  | some stop =>
      have hcontext : (p.setExecutionContext periodIndex .stopExit).unrecorded =
          (p'.setExecutionContext periodIndex .stopExit).unrecorded := hp
      have hclose :
        ((p.setExecutionContext periodIndex .stopExit).closePositionAt pos.symbol pos.price).map
          (fun r ↦ (r.1.unrecorded, r.2)) =
          ((p'.setExecutionContext periodIndex .stopExit).closePositionAt pos.symbol pos.price).map
            fun r ↦ (r.1.unrecorded, r.2) :=
              Portfolio.closePositionAt_congr hcontext pos.symbol pos.price
      revert hclose
      cases (p.setExecutionContext periodIndex .stopExit).closePositionAt pos.symbol pos.price with
      | none =>
          intro hclose
          rw [Option.map_none, eq_comm, Option.map_eq_none_iff] at hclose
          rw [hclose]
      | some r =>
          intro hclose
          rw [Option.map_some, eq_comm, Option.map_eq_some_iff] at hclose
          obtain ⟨r', hr', heq⟩ := hclose
          obtain ⟨hportfolio, hclosed⟩ := Prod.mk.inj heq
          rw [hr']
          simp only [Option.bind_eq_bind, Option.bind_some, hclosed]
          split
          · simp only [Option.map_some, StopState.unrecorded, hportfolio]
          · simp only [Option.map_some, StopState.unrecorded, hportfolio]

theorem applyStopCfg_congr (h : st.unrecorded = st'.unrecorded) (prices : PriceMap) :
    (applyStopCfg cfg periodIndex order prices st).map StopState.unrecorded =
      (applyStopCfg cfg periodIndex order prices st').map StopState.unrecorded := by
  obtain ⟨p, trackers, events⟩ := st
  obtain ⟨p', trackers', events'⟩ := st'
  obtain ⟨hp, rfl, rfl⟩ := StopState.mk.inj h
  have hopen : p.openPositions order prices = p'.openPositions order prices :=
    Portfolio.eq_of_unrecorded_eq (f := fun p ↦ p.openPositions order prices) (fun _ ↦ rfl) hp
  simp only [applyStopCfg, hopen]
  refine Loop.map_foldlM_congr (fun s s' pos hs ↦ stopPosition_congr hs pos) ?_
  simp only [StopState.unrecorded, hp]

end Stops

/-! ## Periods -/

/-- The state without its records and snapshots. -/
def BridgeState.unrecorded (st : BridgeState F) : BridgeState F :=
  { st with portfolio := st.portfolio.unrecorded, cashSnapshots := none }

/-- The same input, with recording off. -/
def BacktestInput.unrecorded (inp : BacktestInput F) : BacktestInput F :=
  { inp with options := { inp.options with recordExecutions := false } }

theorem Halt.ofOption_map {A B : Type} (f : A → B) (x : Option A) :
    (Halt.ofOption x).map f = Halt.ofOption (x.map f) := by
  cases x <;> rfl

namespace BridgeState

variable [F64 F] {inp : BacktestInput F} {order : HashMap.Order Symbol} {period : Period F}
  {st st' : BridgeState F}

theorem applyBudgets_congr (h : st.unrecorded = st'.unrecorded) :
    (applyBudgets inp period (recordSymbolReturns period st)).unrecorded =
      (applyBudgets inp.unrecorded period (recordSymbolReturns period st')).unrecorded := by
  have hcommute : ∀ st : BridgeState F,
      (applyBudgets inp period (recordSymbolReturns period st)).unrecorded =
        applyBudgets inp period (recordSymbolReturns period st.unrecorded) := by
    intro st
    rw [applyBudgets, applyBudgets]
    cases inp.options.windowedBudgetsActive <;> rfl
  have hinput : applyBudgets inp.unrecorded period (recordSymbolReturns period st') =
      applyBudgets inp period (recordSymbolReturns period st') := rfl
  rw [hinput, hcommute, h, hcommute]

omit [F64 F] in
/-- States that only differ in what is recorded have different portfolios and snapshots at most. -/
theorem exists_of_unrecorded_eq (h : st.unrecorded = st'.unrecorded) : ∃ p snapshots,
    st' = { st with portfolio := p, cashSnapshots := snapshots } ∧
      st.portfolio.unrecorded = p.unrecorded := by
  obtain ⟨p, budgets, equityCurve, holdings, symbolReturns, stopEvents, skipped, snapshots,
    prevPrices, trackers⟩ := st
  obtain ⟨p', budgets', equityCurve', holdings', symbolReturns', stopEvents', skipped', snapshots',
    prevPrices', trackers'⟩ := st'
  obtain ⟨hp, rfl, rfl, rfl, rfl, rfl, rfl, -, rfl, rfl⟩ := BridgeState.mk.inj h
  exact ⟨p', snapshots', rfl, hp⟩

theorem rebalance_congr (h : st.unrecorded = st'.unrecorded) :
    (rebalance inp order period st).map unrecorded =
      (rebalance inp.unrecorded order period st').map unrecorded := by
  obtain ⟨p, snapshots, rfl, hp⟩ := exists_of_unrecorded_eq h
  rw [rebalance, rebalance]
  cases period.fillPrices with
  | none => exact congrArg Except.ok (by simp only [unrecorded, hp])
  | some fillPrices =>
      have hunpriced : st.portfolio.unpricedHolding order (collected fillPrices) =
          p.unpricedHolding order (collected fillPrices) :=
        Portfolio.eq_of_unrecorded_eq (f := fun p ↦ p.unpricedHolding order (collected fillPrices))
          (fun _ ↦ rfl) hp
      simp only [hunpriced]
      cases p.unpricedHolding order (collected fillPrices) with
      | some symbol => rfl
      | none =>
          refine Steps.map_bind_congr (g := Portfolio.unrecorded) (q := Portfolio.unrecorded) ?_ ?_
          · have hcontext : Portfolio.unrecorded (if inp.options.recordExecutions = true then
                st.portfolio.setExecutionContext period.index .rebalance else st.portfolio) =
                p.unrecorded := by
              rw [← hp]
              split <;> rfl
            rw [Halt.ofOption_map, Halt.ofOption_map]
            exact congrArg Halt.ofOption (Portfolio.rebalanceSimple_congr _ _ hcontext _)
          · intro q q' hq
            have hcharge : ∀ st : BridgeState F,
                (chargeBudgets inp st).unrecorded = chargeBudgets inp st.unrecorded := by
              intro st
              rw [chargeBudgets, chargeBudgets]
              cases inp.options.windowedBudgetsActive <;> rfl
            have hinput :
              ∀ st : BridgeState F, chargeBudgets inp.unrecorded st = chargeBudgets inp st :=
              fun _ ↦ rfl
            refine congrArg Except.ok ?_
            rw [hinput, hcharge, hcharge]
            simp only [unrecorded, hq]

theorem applyStops_congr (h : st.unrecorded = st'.unrecorded) :
    (applyStops inp order period st).map unrecorded =
      (applyStops inp.unrecorded order period st').map unrecorded := by
  obtain ⟨p, snapshots, rfl, hp⟩ := exists_of_unrecorded_eq h
  have hinput : inp.unrecorded.options.stopCfg = inp.options.stopCfg := rfl
  rw [applyStops, applyStops, hinput]
  cases inp.options.stopCfg.bind BacktestStopConfig.sanitized with
  | none => exact congrArg Except.ok (by simp only [unrecorded, hp])
  | some cfg =>
      refine Steps.map_bind_congr (g := StopState.unrecorded) (q := StopState.unrecorded) ?_ ?_
      · rw [Halt.ofOption_map, Halt.ofOption_map]
        refine congrArg Halt.ofOption (applyStopCfg_congr ?_ _)
        simp only [StopState.unrecorded, hp]
      · intro s s' hs
        obtain ⟨p₁, trackers, events⟩ := s
        obtain ⟨p₂, trackers', events'⟩ := s'
        obtain ⟨hp', rfl, rfl⟩ := StopState.mk.inj hs
        have hp₁ : p₁.unrecorded = p₂.unrecorded := hp'
        exact congrArg Except.ok (by simp only [unrecorded, hp₁])

theorem closePeriod_congr (h : st.unrecorded = st'.unrecorded) :
    (closePeriod order period st).map unrecorded =
    (closePeriod order period st').map unrecorded := by
  obtain ⟨p, snapshots, rfl, hp⟩ := exists_of_unrecorded_eq h
  have hunpriced : st.portfolio.unpricedHolding order (closes period) =
      p.unpricedHolding order (closes period) :=
    Portfolio.eq_of_unrecorded_eq (f := fun p ↦ p.unpricedHolding order (closes period))
    (fun _ ↦ rfl) hp
  have hrecord : (st.portfolio.recordReturn order (closes period)).unrecorded =
      (p.recordReturn order (closes period)).unrecorded :=
    congrArg (fun p : Portfolio F ↦ p.recordReturn order (closes period)) hp
  have hequity :
    (st.portfolio.recordReturn order (closes period)).totalEquity order (closes period) =
      (p.recordReturn order (closes period)).totalEquity order (closes period) :=
    Portfolio.eq_of_unrecorded_eq (f := fun p ↦ p.totalEquity order (closes period))
    (fun _ ↦ rfl) hrecord
  have hweights : ∀ equity,
      (st.portfolio.recordReturn order (closes period)).currentWeights order
        (closes period) equity =
        (p.recordReturn order (closes period)).currentWeights order (closes period) equity :=
    fun equity ↦ Portfolio.eq_of_unrecorded_eq
      (f := fun p ↦ p.currentWeights order (closes period) equity) (fun _ ↦ rfl) hrecord
  rw [closePeriod, closePeriod]
  simp only [hunpriced]
  cases p.unpricedHolding order (closes period) with
  | some symbol => rfl
  | none => exact congrArg Except.ok (by simp only [unrecorded, hrecord, hequity, hweights])

/-- A period does the same whether fills are recorded or not. -/
theorem step_congr (h : st.unrecorded = st'.unrecorded) :
    (step inp order st period).map unrecorded =
    (step inp.unrecorded order st' period).map unrecorded :=
  Steps.map_bind_congr (rebalance_congr (applyBudgets_congr h)) fun _ _ h ↦
    Steps.map_bind_congr (applyStops_congr h) fun _ _ h ↦ closePeriod_congr h

end BridgeState

/-! ## Results -/

/-- The result without its records and snapshots. -/
def BacktestBridgeResult.unrecorded {M : Type} (r : BacktestBridgeResult F M) :
    BacktestBridgeResult F M :=
  { r with executions := none, cashSnapshots := none }

namespace BacktestInput

variable [F64 F] {M : Type} {inp : BacktestInput F} {order : HashMap.Order Symbol}
  {st : BridgeState F}
  {computeMetrics : List F → F → F → Option M}

theorem run_unrecorded : (inp.run order).map BridgeState.unrecorded =
    (inp.unrecorded.run order).map BridgeState.unrecorded := by
  have hstep : ∀ (st st' : BridgeState F) (period : Period F), st.unrecorded = st'.unrecorded →
      (BridgeState.step inp order st period).map BridgeState.unrecorded =
        (BridgeState.step inp.unrecorded order st' period).map BridgeState.unrecorded :=
    fun _ _ _ h ↦ BridgeState.step_congr h
  exact Steps.map_foldlM_congr hstep rfl

/-- A run that is not recorded has neither records nor snapshots. -/
theorem completed_unrecorded (haccepted : inp.accepted = true)
    (h : inp.unrecorded.run order = .ok st) :
    inp.unrecorded.completed computeMetrics st = (inp.completed computeMetrics st).unrecorded := by
  rw [run_eq_runTo] at h
  have hexecutions : st.portfolio.executions = none := by
    have hsome := isSome_executions le_rfl h
    exact Option.not_isSome_iff_eq_none.mp fun hrec ↦ Bool.false_ne_true (hsome.symm.trans hrec)
  have hsnapshots : st.cashSnapshots = none := by
    have haligned : BridgeState.Aligned inp.unrecorded inp.unrecorded.periods.length st :=
      aligned_of_runTo haccepted le_rfl h
    exact Option.map_eq_none_iff.mp haligned.cashSnapshots
  simp only [completed, BacktestBridgeResult.unrecorded, hexecutions, hsnapshots]
  rfl

/-- With recording off, the result is the same but for the records and the snapshots. -/
theorem backtest_unrecorded : inp.unrecorded.backtestWeightsWithOptions order computeMetrics =
    (inp.backtestWeightsWithOptions order computeMetrics).map BacktestBridgeResult.unrecorded := by
  have hrun : (inp.run order).map BridgeState.unrecorded =
      (inp.unrecorded.run order).map BridgeState.unrecorded := run_unrecorded
  have hinput : inp.unrecorded.accepted = inp.accepted := rfl
  rw [backtestWeightsWithOptions, backtestWeightsWithOptions, hinput]
  by_cases haccepted : inp.accepted = true
  · rw [if_pos haccepted, if_pos haccepted]
    cases hoff : inp.unrecorded.run order with
    | error halt =>
        rw [hoff] at hrun
        cases hon : inp.run order with
        | ok st =>
            rw [hon] at hrun
            cases hrun
        | error halt' =>
            rw [hon] at hrun
            cases hrun
            cases halt <;> rfl
    | ok st' =>
        rw [hoff] at hrun
        cases hon : inp.run order with
        | error halt =>
            rw [hon] at hrun
            cases hrun
        | ok st =>
            rw [hon] at hrun
            obtain ⟨p, snapshots, rfl, hp⟩ :=
              BridgeState.exists_of_unrecorded_eq (Except.ok.inj hrun)
            refine congrArg some ((completed_unrecorded haccepted hoff).trans ?_)
            have hreturns : p.returns = st.portfolio.returns := (congrArg Portfolio.returns hp).symm
            have hcash : p.cash = st.portfolio.cash := (congrArg Portfolio.cash hp).symm
            simp only [BacktestBridgeResult.unrecorded, completed, hreturns, hcash]
  · rw [if_neg haccepted, if_neg haccepted]
    rfl

end BacktestInput

end Nanobook
