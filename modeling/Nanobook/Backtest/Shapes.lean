import Nanobook.Backtest.Run

/-!
# The two shapes of a result

A run either ends at the first period in which an open position has no positive fill price or no
positive close, and then reports that position and nothing else; or it goes through every period,
and its series are as long as the schedules.
-/

namespace Nanobook

open Rebalancer (Symbol collected)

variable {F : Type} [F64 F] {M : Type}

namespace Portfolio

omit [F64 F]

/-- Every open position has a positive price. -/
def Priced (p : Portfolio F) (prices : PriceMap) : Prop :=
  ∀ sym pos, p.position sym = some pos → pos.isFlat = false → ∃ px, prices sym = some px ∧ 0 < px

/-- The position is open and has no positive price. -/
def Lacks (p : Portfolio F) (prices : PriceMap) (sym : Symbol) : Prop :=
  (∃ pos, p.position sym = some pos ∧ pos.isFlat = false) ∧ ∀ px, prices sym = some px → px ≤ 0

end Portfolio

/-- The part of a period that trades. -/
def BridgeState.trade (inp : BacktestInput F) (order : HashMap.Order Symbol) (period : Period F)
    (st : BridgeState F) : Except Halt (BridgeState F) := do
  let st ← rebalance inp order period (applyBudgets inp period (recordSymbolReturns period st))
  applyStops inp order period st

namespace BacktestInput

variable (inp : BacktestInput F) (order : HashMap.Order Symbol)

/-- In this period every open position had a positive fill price, if there were fill prices, and
after the stops a positive close. -/
def PricedIn (period : Period F) : Prop := ∃ st st',
  inp.runTo order period.index = .ok st ∧ inp.runTo order (period.index + 1) = .ok st' ∧
    (∀ fillPrices, period.fillPrices =
        some fillPrices → st.portfolio.Priced (collected fillPrices)) ∧
      st'.portfolio.Priced (BridgeState.closes period)

/-- In the period named an open position had no positive fill price, or had no positive close. -/
def UnpricedIn (holding : UnpricedHolding) : Prop := ∃ period st,
  inp.periods[holding.periodIndex]? = some period ∧ inp.runTo order holding.periodIndex = .ok st ∧
    match holding.atFill with
    | true => ∃ fillPrices, period.fillPrices = some fillPrices ∧
        st.portfolio.Lacks (collected fillPrices) holding.symbol
    | false =>
        (∀ fillPrices, period.fillPrices = some fillPrices →
          st.portfolio.Priced (collected fillPrices)) ∧
        ∃ st', BridgeState.trade inp order period st = .ok st' ∧
          st'.portfolio.Lacks (BridgeState.closes period) holding.symbol

/-- The result of a run that was given up: the equity curve is the starting cash alone. -/
structure UnpricedShape (r : BacktestBridgeResult F M) : Prop where
  holding : ∃ holding, r.unpricedHolding = some holding ∧ inp.UnpricedIn order holding ∧
    ∀ (i : Nat) (period : Period F), i < holding.periodIndex →
    inp.periods[i]? = some period → inp.PricedIn order period
  returns : r.returns = []
  holdings : r.holdings = []
  symbolReturns : r.symbolReturns = []
  stopEvents : r.stopEvents = []
  skippedRebalances : r.skippedRebalances = []
  executions : ∀ l, r.executions = some l → l = []
  cashSnapshots : ∀ l, r.cashSnapshots = some l → l = []
  equityCurve : r.equityCurve = [inp.initialCashCents]
  finalCash : r.finalCash = inp.initialCashCents

/-- The result of a run that was finished. -/
structure CompletedShape (r : BacktestBridgeResult F M) : Prop where
  unpricedHolding : r.unpricedHolding = none
  returns : r.returns.length = inp.weightSchedule.length
  holdings : r.holdings.length = inp.weightSchedule.length
  symbolReturns : r.symbolReturns.length = inp.weightSchedule.length
  cashSnapshots : r.cashSnapshots.map List.length =
    if inp.options.recordExecutions then some inp.weightSchedule.length else none
  equityCurve : r.equityCurve.length = inp.weightSchedule.length + 1
  start : r.equityCurve.head? = some inp.initialCashCents
  priced : ∀ (i : Nat) (period : Period F), inp.periods[i]? =
  some period → inp.PricedIn order period

end BacktestInput

/-! ## Runs -/

variable {inp : BacktestInput F} {order : HashMap.Order Symbol}

/-- After `n` periods every series has its entries. -/
structure BridgeState.Aligned (inp : BacktestInput F) (n : Nat) (st : BridgeState F) : Prop where
  returns : st.portfolio.returns.length = n
  started : 0 < st.portfolio.prevEquity ∨ st.portfolio.returns ≠ []
  holdings : st.holdings.length = n
  symbolReturns : st.symbolReturns.length = n
  cashSnapshots : st.cashSnapshots.map List.length =
    if inp.options.recordExecutions then some n else none
  equityCurve : st.equityCurve.length = n + 1
  start : st.equityCurve.head? = some inp.initialCashCents
  quantityStep : st.portfolio.quantityStep = inp.startPortfolio.quantityStep

namespace BridgeState

variable {period : Period F} {st st' : BridgeState F} {n : Nat}

/-- The starting cash is positive, so that the first return is recorded. -/
theorem aligned_start (h : inp.accepted = true) : Aligned inp 0 inp.start where
  returns := rfl
  started := .inl (BacktestInput.validInputs_iff.mp (BacktestInput.accepted_iff.mp h).1).2.1
  holdings := rfl
  symbolReturns := rfl
  cashSnapshots := by
    rw [BacktestInput.start]
    split <;> rfl
  equityCurve := rfl
  start := rfl
  quantityStep := rfl

/-- A return is recorded in every period, a zero where there was no equity. -/
theorem length_recordReturn {p : Portfolio F} {prices : PriceMap}
    (h : 0 < p.prevEquity ∨ p.returns ≠ []) :
    (p.recordReturn order prices).returns.length = p.returns.length + 1 := by
  simp only [Portfolio.recordReturn]
  split
  · exact List.length_append
  · next hprev =>
      rw [if_pos (h.resolve_left hprev)]
      exact List.length_append

theorem Aligned.step (h : Aligned inp n st) (hstep : step inp order st period = .ok st') :
    Aligned inp (n + 1) st' := by
  obtain ⟨st₂, hsame, hclose⟩ := series_step hstep
  obtain ⟨-, rfl⟩ := closePeriod_ok hclose
  have hreturns : (st₂.portfolio.recordReturn order (closes period)).returns.length = n + 1 := by
    rw [length_recordReturn, hsame.returns]
    · exact congrArg (· + 1) h.returns
    · rw [hsame.returns, hsame.prevEquity]
      exact h.started
  constructor
  · exact hreturns
  · exact .inr (List.ne_nil_of_length_eq_add_one hreturns)
  · rw [List.length_append, hsame.holdings]
    exact congrArg (· + 1) h.holdings
  · rw [hsame.symbolReturns, recordSymbolReturns, List.length_append]
    exact congrArg (· + 1) h.symbolReturns
  · have hsnap := h.cashSnapshots
    have hlength : List.length ∘ (fun snapshots : List Int ↦ snapshots ++ [st₂.portfolio.cash]) =
        (· + 1) ∘ List.length := funext fun _ ↦ List.length_append
    rw [hsame.cashSnapshots, Option.map_map, hlength, ← Option.map_map]
    simp only [recordSymbolReturns, hsnap]
    split <;> rfl
  · rw [List.length_append, hsame.equityCurve]
    exact congrArg (· + 1) h.equityCurve
  · rw [hsame.equityCurve]
    simp only [recordSymbolReturns, List.head?_append, h.start, Option.some_or]
  · exact hsame.quantityStep.trans h.quantityStep

/-! ## Steps that fail -/

/-- Neither the symbol returns nor the budgets touch a position. -/
theorem position_applyBudgets (sym : Symbol) :
    (applyBudgets inp period (recordSymbolReturns period st)).portfolio.position sym =
      st.portfolio.position sym := by
  obtain ⟨budgets, cap, value, heq⟩ := applyBudgets_eq inp period (recordSymbolReturns period st)
  rw [heq]
  rfl

theorem step_eq : step inp order st period =
    (do closePeriod order period (← trade inp order period st)) := by
  simp only [step, trade, bind_assoc]

/-- A rebalance that went through had a price for every open position, if it had prices. -/
theorem priced_of_rebalance
    (h : rebalance inp order period (applyBudgets inp period (recordSymbolReturns period st)) =
        .ok st')
    (fillPrices : List (Symbol × Int)) (hfill : period.fillPrices = some fillPrices) :
    st.portfolio.Priced (collected fillPrices) := by
  rcases rebalance_ok h with ⟨hnone, -⟩ | ⟨fillPrices', p, hfill', hpriced, -, -⟩
  · rw [hfill] at hnone
    cases hnone
  · rw [hfill] at hfill'
    cases hfill'
    intro sym pos hpos
    exact Portfolio.unpricedHolding_eq_none_iff.mp hpriced sym pos
      ((position_applyBudgets sym).trans hpos)

theorem rebalance_error {halt : Halt} (h : rebalance inp order period st = .error halt) :
    (∃ fillPrices symbol, period.fillPrices = some fillPrices ∧
      st.portfolio.unpricedHolding order (collected fillPrices) = some symbol ∧
      halt = .unpriced ⟨period.index, symbol, true⟩) ∨
    (st.portfolio.quantityStep = 1 ∧ halt = .stuck) := by
  rw [rebalance] at h
  split at h
  · cases h
  · next fillPrices hfill =>
      split at h
      · next symbol hsym =>
          cases h
          exact .inl ⟨fillPrices, symbol, hfill, hsym, rfl⟩
      · refine .inr ?_
        have hrebalancing :
          (rebalancing inp period st).quantityStep = st.portfolio.quantityStep := by
          rw [rebalancing]
          split <;> rfl
        by_contra hne
        rw [← rebalancing] at h
        rcases Steps.bind_eq_error.mp h with h | ⟨p, -, h⟩
        · obtain ⟨hnone, rfl⟩ := Halt.ofOption_eq_error h
          obtain ⟨p, hp⟩ :
            ∃ p, (rebalancing inp period st).rebalanceSimple (collected fillPrices) order
              period.weights = some p :=
            Portfolio.exists_rebalanceSimple fun hone ↦ hne ⟨hrebalancing.symm.trans hone, rfl⟩
          rw [hp] at hnone
          cases hnone
        · cases h

theorem applyStops_error {halt : Halt} (h : applyStops inp order period st = .error halt) :
    st.portfolio.quantityStep = 1 ∧ halt = .stuck := by
  rw [applyStops] at h
  split at h
  · cases h
  · next cfg _ =>
      rcases Steps.bind_eq_error.mp h with h | ⟨stops, -, h⟩
      · obtain ⟨hnone, rfl⟩ := Halt.ofOption_eq_error h
        refine ⟨by_contra fun hne ↦ ?_, rfl⟩
        obtain ⟨stops, hstops⟩ : ∃ stops, applyStopCfg cfg period.index order (closes period)
          ⟨st.portfolio, st.stopTrackers, st.stopEvents⟩ = some stops := exists_applyStopCfg hne
        rw [hstops] at hnone
        cases hnone
      · cases h

theorem closePeriod_error {halt : Halt} (h : closePeriod order period st = .error halt) :
    ∃ symbol, st.portfolio.unpricedHolding order (closes period) = some symbol ∧
      halt = .unpriced ⟨period.index, symbol, false⟩ := by
  rw [closePeriod] at h
  split at h
  · next symbol hsym =>
      cases h
      exact ⟨symbol, hsym, rfl⟩
  · cases h

/-- A step fails because of an unpriced holding, or with a step of a single micro-share. -/
theorem step_error {halt : Halt} (h : step inp order st period = .error halt) :
    (∃ fillPrices symbol, period.fillPrices = some fillPrices ∧
      st.portfolio.Lacks (collected fillPrices) symbol ∧
      halt = .unpriced ⟨period.index, symbol, true⟩) ∨
    (∃ st' symbol, (∀ fillPrices, period.fillPrices = some fillPrices →
        st.portfolio.Priced (collected fillPrices)) ∧
      trade inp order period st = .ok st' ∧ st'.portfolio.Lacks (closes period) symbol ∧
      halt = .unpriced ⟨period.index, symbol, false⟩) ∨
    (st.portfolio.quantityStep = 1 ∧ halt = .stuck) := by
  have hsame : ((applyBudgets inp period (recordSymbolReturns period st))).portfolio.quantityStep =
      st.portfolio.quantityStep := (sameSeries_applyBudgets _).quantityStep
  rw [step_eq] at h
  rcases Steps.bind_eq_error.mp h with h | ⟨st₂, htrade, hclose⟩
  · rcases Steps.bind_eq_error.mp h with h | ⟨st₁, hreb, hstops⟩
    · rcases rebalance_error h with ⟨fillPrices, symbol, hfill, hsym, rfl⟩ | ⟨hone, rfl⟩
      · refine .inl ⟨fillPrices, symbol, hfill, ?_, rfl⟩
        have hlacks := Portfolio.unpricedHolding_eq_some hsym
        rwa [position_applyBudgets] at hlacks
      · exact .inr (.inr ⟨hsame.symm.trans hone, rfl⟩)
    · obtain ⟨hone, rfl⟩ := applyStops_error hstops
      exact .inr
        (.inr ⟨hsame.symm.trans ((sameSeries_rebalance hreb).quantityStep.symm.trans hone), rfl⟩)
  · obtain ⟨symbol, hsym, rfl⟩ := closePeriod_error hclose
    obtain ⟨st₁, hreb, -⟩ := Steps.bind_eq_ok.mp htrade
    exact .inr (.inl ⟨st₂, symbol, priced_of_rebalance hreb, htrade,
      Portfolio.unpricedHolding_eq_some hsym, rfl⟩)

end BridgeState

namespace BacktestInput

variable {period : Period F} {st : BridgeState F} {n i : Nat}

/-- What a step did in a run that went on. -/
theorem step_of_runTo (h : inp.runTo order n = .ok st) (hi : i < n)
    (hperiod : inp.periods[i]? = some period) : ∃ u v, inp.runTo order i = .ok u ∧
      BridgeState.step inp order u period = .ok v ∧ inp.runTo order (i + 1) = .ok v := by
  have htake : (inp.periods.take n)[i]? = some period := by
    rw [List.getElem?_take_of_lt hi]
    exact hperiod
  obtain ⟨u, v, hu, huv, hv⟩ := Steps.exists_step_of_foldlM_ok h htake
  rw [List.take_take, min_eq_left hi.le] at hu
  rw [List.take_take, min_eq_left hi] at hv
  exact ⟨u, v, hu, huv, hv⟩

theorem run_eq_runTo : inp.run order = inp.runTo order inp.periods.length := by
  rw [run, runTo, List.take_length]

/-- The periods a run has gone through had the prices they needed. -/
theorem pricedIn_of_runTo (h : inp.runTo order n = .ok st) (hi : i < n)
    (hperiod : inp.periods[i]? = some period) : inp.PricedIn order period := by
  obtain ⟨u, v, hu, hstep, hv⟩ := step_of_runTo h hi hperiod
  obtain ⟨st₁, st₂, hreb, -, hclose⟩ := BridgeState.step_ok hstep
  obtain ⟨hpriced, rfl⟩ := BridgeState.closePeriod_ok hclose
  obtain rfl := index_of_periods hperiod
  exact ⟨u, _, hu, hv, BridgeState.priced_of_rebalance hreb,
    Portfolio.unpricedHolding_eq_none_iff.mp hpriced⟩

theorem aligned_of_runTo (haccepted : inp.accepted = true) (hn : n ≤ inp.periods.length)
    (h : inp.runTo order n = .ok st) : BridgeState.Aligned inp n st :=
  Steps.invariant (P := BridgeState.Aligned inp) (BridgeState.aligned_start haccepted)
    (fun _ _ _ _ _ hu hstep ↦ hu.step hstep) hn h

/-- A run is stuck only with a step of a single micro-share. -/
theorem quantityStep_of_stuck (haccepted : inp.accepted = true)
    (h : inp.run order = .error .stuck) :
    inp.startPortfolio.quantityStep = 1 := by
  obtain ⟨i, period, st, hperiod, hst, hstep⟩ := Steps.exists_of_foldlM_error h
  have hi : i < inp.periods.length := (List.getElem?_eq_some_iff.mp hperiod).choose
  rcases BridgeState.step_error hstep with ⟨_, _, -, -, heq⟩ | ⟨_, _, -, -, -, heq⟩ | ⟨hone, -⟩
  · cases heq
  · cases heq
  · exact (aligned_of_runTo haccepted hi.le hst).quantityStep.symm.trans hone

/-- The first unpriced holding is the one a run is given up for. -/
theorem unpricedIn_of_run {holding : UnpricedHolding}
    (h : inp.run order = .error (.unpriced holding)) :
    inp.UnpricedIn order holding ∧ ∀ (i : Nat) (period : Period F), i < holding.periodIndex →
      inp.periods[i]? = some period → inp.PricedIn order period := by
  obtain ⟨n, period, st, hperiod, hst, hstep⟩ := Steps.exists_of_foldlM_error h
  have hfirst : ∀ (i : Nat) (period : Period F), i < n → inp.periods[i]? = some period →
      inp.PricedIn order period := fun i period hi hp ↦ pricedIn_of_runTo hst hi hp
  obtain rfl := index_of_periods hperiod
  rcases BridgeState.step_error hstep with
    ⟨fillPrices, symbol, hfill, hlacks, heq⟩ | ⟨st', symbol, hpriced, htrade, hlacks, heq⟩ | ⟨-,
      heq⟩
  · cases heq
    exact ⟨⟨period, st, hperiod, hst, fillPrices, hfill, hlacks⟩, hfirst⟩
  · cases heq
    exact ⟨⟨period, st, hperiod, hst, hpriced, st', htrade, hlacks⟩, hfirst⟩
  · cases heq

variable {computeMetrics : List F → F → F → Option M}

theorem unpricedShape_of_run {holding : UnpricedHolding}
    (h : inp.run order = .error (.unpriced holding)) : inp.UnpricedShape order
      (unpricedResult M inp.initialCashCents holding inp.options.recordExecutions) where
  holding := ⟨holding, rfl, unpricedIn_of_run h⟩
  returns := rfl
  holdings := rfl
  symbolReturns := rfl
  stopEvents := rfl
  skippedRebalances := rfl
  executions l hl := by
    simp only [unpricedResult, emptyResult] at hl
    split_ifs at hl
    exact (Option.some_inj.mp hl).symm
  cashSnapshots l hl := by
    simp only [unpricedResult, emptyResult] at hl
    split_ifs at hl
    exact (Option.some_inj.mp hl).symm
  equityCurve := rfl
  finalCash := rfl

theorem completedShape_of_run (haccepted : inp.accepted = true) (h : inp.run order = .ok st) :
    inp.CompletedShape order (inp.completed computeMetrics st) := by
  rw [run_eq_runTo] at h
  have haligned := aligned_of_runTo haccepted le_rfl h
  rw [length_periods haccepted] at haligned
  exact
    { unpricedHolding := rfl
      returns := haligned.returns
      holdings := haligned.holdings
      symbolReturns := haligned.symbolReturns
      cashSnapshots := haligned.cashSnapshots
      equityCurve := haligned.equityCurve
      start := haligned.start
      priced := fun _ _ hperiod ↦
        pricedIn_of_runTo h (List.getElem?_eq_some_iff.mp hperiod).choose hperiod }

end BacktestInput

end Nanobook
