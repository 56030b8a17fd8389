import Nanobook.Backtest.Shapes

/-!
# Backtests of a strategy

`run_backtest` of `portfolio/strategy.rs` asks a strategy for the weights of every bar, and the
strategy may look at the portfolio.  The bridge is given the weights beforehand.  On the weights
that a strategy decides on, both take the portfolio through the same states for as long as every
open position has a price; where one has none, the bridge gives up and `run_backtest` values it at
nothing.
-/

namespace Nanobook

open Rebalancer (Symbol collected)

variable {F : Type}

/-- `Strategy`: the weights for a bar, from its index, its prices and the portfolio. -/
structure Strategy (F : Type) where
  computeWeights : Nat → List (Symbol × Int) → Portfolio F → List (Symbol × F)

structure BacktestResult (F M : Type) where
  portfolio : Portfolio F
  metrics : Option M

/-- What the two results have in common. -/
structure BacktestResult.Agrees {M : Type} (result : BacktestResult F M)
    (r : BacktestBridgeResult F M) : Prop where
  returns : r.returns = result.portfolio.returns
  equityCurve : r.equityCurve = result.portfolio.equityCurve
  finalCash : r.finalCash = result.portfolio.cash
  metrics : r.metrics = result.metrics

/-- `BacktestBridgeOptions::default`. -/
def BacktestBridgeOptions.default : BacktestBridgeOptions F where
  recordExecutions := false
  stopCfg := none
  quantityStep := none
  minOrderValue := none
  noTradeBandBps := none
  maxTradesPerRebalance := none
  maxOrderValue := none
  maxTradesPerDay := none
  maxTradesPerMonth := none
  maxTradedValuePerMonth := none
  periodDayOrdinal := none
  periodMonthOrdinal := none
  fillSchedule := none

namespace Strategy

variable [F64 F]

/-- `EqualWeight`. -/
def equalWeight : Strategy F where
  computeWeights _ prices _ :=
    if prices.isEmpty then []
    else prices.map fun e ↦ (e.1, F64.ofInt 1 / F64.ofInt prices.length)

section Run

variable (strategy : Strategy F) (order : HashMap.Order Symbol)

/-- Rebalance to what the strategy says at a bar. -/
def trade (p : Portfolio F) (i : Nat) (prices : List (Symbol × Int)) : Option (Portfolio F) :=
  p.rebalanceSimple (collected prices) order (strategy.computeWeights i prices p)

/-- The body of the loop. -/
def bar (p : Portfolio F) (e : List (Symbol × Int) × Nat) : Option (Portfolio F) :=
  (strategy.trade order p e.2 e.1).map fun p ↦ p.recordReturn order (collected e.1)

variable (priceSeries : List (List (Symbol × Int))) (initialCash : Int) (costModel : CostModel F)

/-- The portfolio after the first bars. -/
def runTo (n : Nat) : Option (Portfolio F) :=
  (priceSeries.zipIdx.take n).foldlM (strategy.bar order) (.new initialCash costModel)

def runBacktest {M : Type} (computeMetrics : List F → F → F → Option M)
    (periodsPerYear riskFree : F) : Option (BacktestResult F M) :=
  (priceSeries.zipIdx.foldlM (strategy.bar order) (.new initialCash costModel)).map fun portfolio ↦
    ⟨portfolio, computeMetrics portfolio.returns periodsPerYear riskFree⟩

/-! ## The weights a strategy decides on -/

/-- What the strategy says at each of some bars, from a portfolio on. -/
def decisionsFrom (p : Portfolio F) : List (List (Symbol × Int) × Nat) → List (List (Symbol × F))
  | [] => []
  | e :: bars =>
      strategy.computeWeights e.2 e.1 p ::
        match strategy.bar order p e with
        | some p => decisionsFrom p bars
        | none => bars.map fun _ ↦ []

def decisions : List (List (Symbol × F)) :=
  strategy.decisionsFrom order (.new initialCash costModel) priceSeries.zipIdx

/-- Both before and after it is rebalanced, the portfolio has a price for every open position. -/
def PricedAt (i : Nat) (prices : List (Symbol × Int)) (p : Portfolio F) : Prop :=
  p.Priced (collected prices) ∧
    ∀ q, strategy.trade order p i prices = some q → q.Priced (collected prices)

/-- So it is at the first bars. -/
def PricedUpTo (n : Nat) : Prop :=
  ∀ i prices p, i < n → priceSeries[i]? = some prices →
    strategy.runTo order priceSeries initialCash costModel i = some p →
    strategy.PricedAt order i prices p

/-- The bridge on the weights that the strategy decides on: `backtest_weights`, with fills at the
closes. -/
def bridge (bars : List Bars) (periodsPerYear riskFree : F) : BacktestInput F where
  weightSchedule := strategy.decisions order (bars.map closePrices) initialCash costModel
  priceSchedule := bars
  initialCashCents := initialCash
  costModel := costModel
  fillPolicy := .signalBarClose
  periodsPerYear := periodsPerYear
  riskFree := riskFree
  options := .default

end Run

section Decisions

variable {strategy : Strategy F} {order : HashMap.Order Symbol}
  {priceSeries : List (List (Symbol × Int))} {initialCash : Int} {costModel : CostModel F}

theorem length_decisionsFrom (p : Portfolio F) (bars : List (List (Symbol × Int) × Nat)) :
    (strategy.decisionsFrom order p bars).length = bars.length := by
  induction bars generalizing p with
  | nil => rfl
  | cons e bars ih =>
      rw [decisionsFrom, List.length_cons, List.length_cons]
      split
      · rw [ih]
      · rw [List.length_map]

theorem length_decisions :
    (strategy.decisions order priceSeries initialCash costModel).length = priceSeries.length := by
  rw [decisions, length_decisionsFrom, List.length_zipIdx]

/-- A decision is taken on the portfolio that the bars before it led to. -/
theorem getElem?_decisionsFrom {bars : List (List (Symbol × Int) × Nat)} {p q : Portfolio F}
    {i : Nat} {e : List (Symbol × Int) × Nat} (he : bars[i]? = some e)
    (hq : (bars.take i).foldlM (strategy.bar order) p = some q) :
    (strategy.decisionsFrom order p bars)[i]? = some (strategy.computeWeights e.2 e.1 q) := by
  induction bars generalizing p i with
  | nil => cases he
  | cons a bars ih =>
      cases i with
      | zero =>
          cases he
          cases hq
          rfl
      | succ i =>
          rw [List.take_succ_cons, List.foldlM_cons] at hq
          obtain ⟨p', hp', hq⟩ := Option.bind_eq_some_iff.mp hq
          rw [decisionsFrom, List.getElem?_cons_succ, hp']
          exact ih he hq

theorem getElem?_decisions {i : Nat} {prices : List (Symbol × Int)} {p : Portfolio F}
    (hprices : priceSeries[i]? = some prices)
    (hp : strategy.runTo order priceSeries initialCash costModel i = some p) :
    (strategy.decisions order priceSeries initialCash costModel)[i]? =
      some (strategy.computeWeights i prices p) := by
  refine getElem?_decisionsFrom (e := (prices, i)) ?_ hp
  rw [List.getElem?_zipIdx, hprices]
  simp

end Decisions

/-! ## Bar by bar -/

section Lockstep

variable {strategy : Strategy F} {order : HashMap.Order Symbol} {bars : List Bars}
  {initialCash : Int} {costModel : CostModel F} {periodsPerYear riskFree : F} {i n : Nat}

/-- A rebalance has nothing to do with the equity curve. -/
theorem trade_keeps {p q : Portfolio F} {prices : List (Symbol × Int)}
    (h : strategy.trade order p i prices = some q) :
    q.equityCurve = p.equityCurve ∧ q.quantityStep = p.quantityStep := by
  refine ⟨?_, (Portfolio.kept_rebalanceSimple h).quantityStep⟩
  simp only [trade, Portfolio.rebalanceSimple] at h
  have hinv := fun hfill ↦ Portfolio.foldlM_executeOrder_invariant
    (I := fun q : Portfolio F ↦ q.equityCurve = p.equityCurve)
    (fun _ ho ↦ Portfolio.inI64_rebalanceOrders ho) hfill (p := p.countOrders _) rfl h
  refine hinv ?_
  intro q q' symbol qty price hqty hq hfill
  obtain ⟨count, shortfall, filled, -, rfl⟩ := Portfolio.executeFill_cases hqty hfill
  rw [Portfolio.booked]
  split
  · exact hq
  · exact hq

variable (strategy order initialCash costModel) in
/-- The bars of a strategy can be worked off. -/
theorem exists_runTo (priceSeries : List (List (Symbol × Int))) (n : Nat) :
    ∃ p, strategy.runTo order priceSeries initialCash costModel n = some p ∧
      p.quantityStep ≠ 1 := by
  obtain ⟨-, p, hp, hstep⟩ := Loop.exists_foldlM (f := fun _ ↦ strategy.bar order)
    (I := fun p : Portfolio F ↦ p.quantityStep ≠ 1) (s := .new initialCash costModel)
    (fun _ _ _ _ _ _ h ↦ h) (priceSeries.zipIdx.take n)
    (fun p e _ hp ↦ by
      obtain ⟨q, hq⟩ : ∃ q, strategy.trade order p e.2 e.1 = some q :=
        Portfolio.exists_rebalanceSimple hp
      refine ⟨0, q.recordReturn order (collected e.1), by rw [bar, hq]; rfl, fun hone ↦ hp ?_⟩
      exact (trade_keeps hq).2.symm.trans hone)
    (show Shares.scale ≠ 1 by decide)
  exact ⟨p, hp, hstep⟩

theorem runTo_succ {priceSeries : List (List (Symbol × Int))} {prices : List (Symbol × Int)}
    {p : Portfolio F} (hprices : priceSeries[i]? = some prices)
    (hp : strategy.runTo order priceSeries initialCash costModel i = some p) :
    strategy.runTo order priceSeries initialCash costModel (i + 1) =
      strategy.bar order p (prices, i) := by
  have he : priceSeries.zipIdx[i]? = some (prices, i) := by
    rw [List.getElem?_zipIdx, hprices]
    simp
  rw [runTo, List.take_add_one, he, Option.toList_some, List.foldlM_append]
  refine (congrArg (· >>= _) hp).trans ?_
  show [(prices, i)].foldlM (strategy.bar order) p = _
  rw [List.foldlM_cons]
  exact bind_pure (strategy.bar order p (prices, i))

variable {b : Bars} {st st' : BridgeState F}

theorem getElem?_closePrices (hb : bars[i]? = some b) :
    (bars.map closePrices)[i]? = some (closePrices b) := by
  rw [List.getElem?_map, hb]
  rfl

/-- The bridge fills at the closes of the bar. -/
theorem fillPrices_bridge (hb : bars[i]? = some b) (weights : List (Symbol × F)) :
    ((strategy.bridge order initialCash costModel bars periodsPerYear riskFree).period i weights
      b).fillPrices = some (closePrices b) := by
  show bars[i]?.map closePrices = some (closePrices b)
  rw [hb]
  rfl

/-- The trades of a period of the bridge are those of a bar. -/
theorem trade_of_trade (hb : bars[i]? = some b)
    (h : BridgeState.trade
      (strategy.bridge order initialCash costModel bars periodsPerYear riskFree) order
      ((strategy.bridge order initialCash costModel bars periodsPerYear riskFree).period i
        (strategy.computeWeights i (closePrices b) st.portfolio) b) st = .ok st') :
    strategy.trade order st.portfolio i (closePrices b) = some st'.portfolio ∧
      st'.equityCurve = st.equityCurve := by
  obtain ⟨st₁, hreb, hstops⟩ := Steps.bind_eq_ok.mp h
  rcases BridgeState.applyStops_ok hstops with ⟨-, rfl⟩ | ⟨cfg, stops, hcfg, -⟩
  · rcases BridgeState.rebalance_ok hreb with ⟨hnone, -⟩ | ⟨prices, q, hprices, -, hq, rfl⟩
    · rw [fillPrices_bridge hb] at hnone
      cases hnone
    · rw [fillPrices_bridge hb] at hprices
      cases hprices
      exact ⟨hq, rfl⟩
  · cases hcfg

/-- A period of the bridge does to the portfolio what a bar does, if there is a price for every open
position. -/
theorem bar_of_step (hb : bars[i]? = some b)
    (h : BridgeState.step (strategy.bridge order initialCash costModel bars periodsPerYear riskFree)
      order st ((strategy.bridge order initialCash costModel bars periodsPerYear riskFree).period i
        (strategy.computeWeights i (closePrices b) st.portfolio) b) = .ok st') :
    strategy.PricedAt order i (closePrices b) st.portfolio ∧
      strategy.bar order st.portfolio (closePrices b, i) = some st'.portfolio ∧
      (st.equityCurve = st.portfolio.equityCurve →
        st'.equityCurve = st'.portfolio.equityCurve) := by
  obtain ⟨st₁, -, hreb, -, -⟩ := BridgeState.step_ok h
  rw [BridgeState.step_eq] at h
  obtain ⟨st₂, htrade, hclose⟩ := Steps.bind_eq_ok.mp h
  obtain ⟨hq, hsame⟩ := trade_of_trade hb htrade
  obtain ⟨hclosed, rfl⟩ := BridgeState.closePeriod_ok hclose
  refine ⟨⟨BridgeState.priced_of_rebalance hreb _ (fillPrices_bridge hb _), fun q hq' ↦ ?_⟩, ?_,
    fun hcurve ↦ ?_⟩
  · rw [hq] at hq'
    cases hq'
    exact Portfolio.unpricedHolding_eq_none_iff.mp hclosed
  · rw [bar, hq]
    rfl
  · refine congrArg (· ++ [_]) ?_
    exact hsame.trans (hcurve.trans (trade_keeps hq).1.symm)

variable (periodsPerYear riskFree) in
/-- Such a period goes through. -/
theorem exists_step (hb : bars[i]? = some b) (hstep : st.portfolio.quantityStep ≠ 1)
    (hpriced : strategy.PricedAt order i (closePrices b) st.portfolio) :
    ∃ st', BridgeState.step
      (strategy.bridge order initialCash costModel bars periodsPerYear riskFree) order st
      ((strategy.bridge order initialCash costModel bars periodsPerYear riskFree).period i
        (strategy.computeWeights i (closePrices b) st.portfolio) b) = .ok st' := by
  cases h : BridgeState.step
    (strategy.bridge order initialCash costModel bars periodsPerYear riskFree) order st
      ((strategy.bridge order initialCash costModel bars periodsPerYear riskFree).period i
        (strategy.computeWeights i (closePrices b) st.portfolio) b) with
  | ok st' => exact ⟨st', rfl⟩
  | error halt =>
      exfalso
      rcases BridgeState.step_error h with
        ⟨prices, symbol, hprices, ⟨⟨pos, hpos, hopen⟩, hlacks⟩, -⟩ |
        ⟨st₂, symbol, -, htrade, ⟨⟨pos, hpos, hopen⟩, hlacks⟩, -⟩ | ⟨hone, -⟩
      · rw [fillPrices_bridge hb] at hprices
        cases hprices
        obtain ⟨px, hpx, hpxpos⟩ := hpriced.1 symbol pos hpos hopen
        exact absurd (hlacks px hpx) (not_le.mpr hpxpos)
      · obtain ⟨px, hpx, hpxpos⟩ := hpriced.2 _ (trade_of_trade hb htrade).1 symbol pos hpos hopen
        exact absurd (hlacks px hpx) (not_le.mpr hpxpos)
      · exact hstep hone

/-- What the bridge is given for a bar is what the strategy decides on there. -/
theorem getElem?_periods_bridge {p : Portfolio F} (hb : bars[i]? = some b)
    (hp : strategy.runTo order (bars.map closePrices) initialCash costModel i = some p) :
    (strategy.bridge order initialCash costModel bars periodsPerYear riskFree).periods[i]? =
      some ((strategy.bridge order initialCash costModel bars periodsPerYear riskFree).period i
        (strategy.computeWeights i (closePrices b) p) b) := by
  have hzip : ((strategy.bridge order initialCash costModel bars periodsPerYear
      riskFree).weightSchedule.zip bars)[i]? =
        some (strategy.computeWeights i (closePrices b) p, b) :=
    List.getElem?_zip_eq_some.mpr ⟨getElem?_decisions (getElem?_closePrices hb) hp, hb⟩
  show (((strategy.bridge order initialCash costModel bars periodsPerYear
    riskFree).weightSchedule.zip bars).zipIdx.map _)[i]? = _
  rw [List.getElem?_map, List.getElem?_zipIdx, hzip]
  simp

theorem pricedUpTo_succ (hb : bars[i]? = some b)
    (hp : strategy.runTo order (bars.map closePrices) initialCash costModel i = some st.portfolio) :
    strategy.PricedUpTo order (bars.map closePrices) initialCash costModel (i + 1) ↔
      strategy.PricedUpTo order (bars.map closePrices) initialCash costModel i ∧
        strategy.PricedAt order i (closePrices b) st.portfolio := by
  have hclose := getElem?_closePrices hb
  constructor
  · intro h
    exact ⟨fun j prices p hj ↦ h j prices p (hj.trans i.lt_succ_self),
      h i _ _ i.lt_succ_self hclose hp⟩
  · rintro ⟨hbefore, hat⟩ j prices p hj hprices hj'
    rcases Nat.lt_succ_iff_lt_or_eq.mp hj with hlt | rfl
    · exact hbefore j prices p hlt hprices hj'
    · rw [hclose] at hprices
      rw [hp] at hj'
      cases hprices
      cases hj'
      exact hat

/-- For as long as the bridge goes on, it has the portfolio of the strategy, and there was a price
for every open position. -/
theorem lockstep (hn : n ≤ bars.length)
    (h : (strategy.bridge order initialCash costModel bars periodsPerYear riskFree).runTo order n =
      .ok st) :
    strategy.runTo order (bars.map closePrices) initialCash costModel n = some st.portfolio ∧
      st.equityCurve = st.portfolio.equityCurve ∧
      strategy.PricedUpTo order (bars.map closePrices) initialCash costModel n := by
  induction n generalizing st with
  | zero =>
      cases h
      exact ⟨rfl, rfl, fun i _ _ hi ↦ absurd hi i.not_lt_zero⟩
  | succ n ih =>
      have hb : bars[n]? = some bars[n] := List.getElem?_eq_getElem hn
      obtain ⟨p, hp, -⟩ :=
        exists_runTo strategy order initialCash costModel (bars.map closePrices) n
      rw [BacktestInput.runTo, Steps.foldlM_take_succ (getElem?_periods_bridge hb hp)] at h
      obtain ⟨u, hu, hstep⟩ := Steps.bind_eq_ok.mp h
      obtain ⟨hrun, hcurve, hpriced⟩ := ih (Nat.le_of_succ_le hn) hu
      obtain rfl : p = u.portfolio := Option.some_inj.mp (hp.symm.trans hrun)
      obtain ⟨hat, hbar, hkept⟩ := bar_of_step hb hstep
      refine ⟨?_, hkept hcurve, (pricedUpTo_succ hb hp).mpr ⟨hpriced, hat⟩⟩
      rw [runTo_succ (getElem?_closePrices hb) hp, hbar]

/-- With prices for every open position the bridge goes on. -/
theorem exists_of_pricedUpTo (hn : n ≤ bars.length)
    (h : strategy.PricedUpTo order (bars.map closePrices) initialCash costModel n) :
    ∃ st, (strategy.bridge order initialCash costModel bars periodsPerYear riskFree).runTo order n =
      .ok st := by
  induction n with
  | zero => exact ⟨_, rfl⟩
  | succ n ih =>
      have hb : bars[n]? = some bars[n] := List.getElem?_eq_getElem hn
      obtain ⟨st, hst⟩ := ih (Nat.le_of_succ_le hn) fun i prices p hi ↦
        h i prices p (hi.trans n.lt_succ_self)
      obtain ⟨hrun, -, -⟩ := lockstep (Nat.le_of_succ_le hn) hst
      obtain ⟨p, hp, hstep⟩ :=
        exists_runTo strategy order initialCash costModel (bars.map closePrices) n
      obtain rfl : p = st.portfolio := Option.some_inj.mp (hp.symm.trans hrun)
      obtain ⟨st', hst'⟩ :=
        exists_step periodsPerYear riskFree hb hstep ((pricedUpTo_succ hb hrun).mp h).2
      refine ⟨st', ?_⟩
      rw [BacktestInput.runTo, Steps.foldlM_take_succ (getElem?_periods_bridge hb hrun)]
      exact Steps.bind_eq_ok.mpr ⟨st, hst, hst'⟩

end Lockstep

/-! ## The two results -/

section Results

variable {strategy : Strategy F} {order : HashMap.Order Symbol} {bars : List Bars}
  {initialCash : Int} {costModel : CostModel F} {periodsPerYear riskFree : F}

/-- The bridge gives up at the first bar at which an open position has no price. -/
theorem pricedUpTo_of_unpriced {holding : UnpricedHolding}
    (h : (strategy.bridge order initialCash costModel bars periodsPerYear riskFree).run order =
      .error (.unpriced holding)) :
    holding.periodIndex < bars.length ∧
      strategy.PricedUpTo order (bars.map closePrices) initialCash costModel holding.periodIndex ∧
      ¬ strategy.PricedUpTo order (bars.map closePrices) initialCash costModel
        (holding.periodIndex + 1) := by
  obtain ⟨n, period, st, hperiod, hst, hstep⟩ := Steps.exists_of_foldlM_error h
  obtain rfl : holding.periodIndex = n := by
    obtain rfl := BacktestInput.index_of_periods hperiod
    rcases BridgeState.step_error hstep with
      ⟨_, _, -, -, heq⟩ | ⟨_, _, -, -, -, heq⟩ | ⟨-, heq⟩
    · cases heq
      rfl
    · cases heq
      rfl
    · cases heq
  obtain ⟨weights, b, -, hb, -⟩ := BacktestInput.getElem?_periods hperiod
  have hn : holding.periodIndex < bars.length := (List.getElem?_eq_some_iff.mp hb).choose
  refine ⟨hn, (lockstep hn.le hst).2.2, fun hpriced ↦ ?_⟩
  obtain ⟨st', hst'⟩ := exists_of_pricedUpTo hn hpriced
  rw [BacktestInput.runTo, Steps.foldlM_take_succ hperiod] at hst'
  obtain ⟨u, hu, hok⟩ := Steps.bind_eq_ok.mp hst'
  obtain rfl : u = st := Except.ok.inj (hu.symm.trans hst)
  rw [hstep] at hok
  cases hok

theorem length_periods_bridge :
    (strategy.bridge order initialCash costModel bars periodsPerYear riskFree).periods.length =
      bars.length := by
  have hlength : (strategy.bridge order initialCash costModel bars periodsPerYear
      riskFree).weightSchedule.length = bars.length :=
    length_decisions.trans (List.length_map _)
  rw [BacktestInput.length_periods_of_eq hlength, hlength]

variable {M : Type} {computeMetrics : List F → F → F → Option M}

/-- Both backtests return.  If at every bar there is a price for every open position, they have the
same returns, equity curve, cash and metrics; else the bridge names the first bar where there is
none. -/
theorem runBacktest_agrees
    (h : (strategy.bridge order initialCash costModel bars periodsPerYear riskFree).accepted =
      true) :
    ∃ result r,
      strategy.runBacktest order (bars.map closePrices) initialCash costModel computeMetrics
        periodsPerYear riskFree = some result ∧
      (strategy.bridge order initialCash costModel bars periodsPerYear
        riskFree).backtestWeightsWithOptions order computeMetrics = some r ∧
      match r.unpricedHolding with
      | none =>
          strategy.PricedUpTo order (bars.map closePrices) initialCash costModel bars.length ∧
            result.Agrees r
      | some holding =>
          holding.periodIndex < bars.length ∧
            strategy.PricedUpTo order (bars.map closePrices) initialCash costModel
              holding.periodIndex ∧
            ¬ strategy.PricedUpTo order (bars.map closePrices) initialCash costModel
              (holding.periodIndex + 1) := by
  obtain ⟨p, hp, -⟩ := exists_runTo strategy order initialCash costModel (bars.map closePrices)
    bars.length
  have hwhole : (bars.map closePrices).zipIdx.take bars.length = (bars.map closePrices).zipIdx :=
    List.take_of_length_le (by rw [List.length_zipIdx, List.length_map])
  have hresult : strategy.runBacktest order (bars.map closePrices) initialCash costModel
      computeMetrics periodsPerYear riskFree =
        some ⟨p, computeMetrics p.returns periodsPerYear riskFree⟩ := by
    rw [runTo, hwhole] at hp
    rw [runBacktest, hp]
    rfl
  rw [BacktestInput.backtestWeightsWithOptions, if_pos h]
  cases hrun : (strategy.bridge order initialCash costModel bars periodsPerYear riskFree).run
      order with
  | ok st =>
      refine ⟨_, _, hresult, rfl, ?_⟩
      rw [BacktestInput.run_eq_runTo, length_periods_bridge] at hrun
      obtain ⟨hportfolio, hcurve, hpriced⟩ := lockstep le_rfl hrun
      obtain rfl : p = st.portfolio := Option.some_inj.mp (hp.symm.trans hportfolio)
      exact ⟨hpriced, rfl, hcurve, rfl, rfl⟩
  | error halt =>
      cases halt with
      | unpriced holding => exact ⟨_, _, hresult, rfl, pricedUpTo_of_unpriced hrun⟩
      | stuck =>
          have hone := BacktestInput.quantityStep_of_stuck h hrun
          cases hone

/-- Equal weights in one symbol that loses half of its price. -/
theorem runBacktest_agrees_halved : ∃ result r,
    equalWeight.runBacktest .insertion
      ([[(aapl, flatBar 100)], [(aapl, flatBar 50)]].map closePrices) 1000
      ⟨F64.ofInt 0, F64.ofInt 0, 0⟩ (fun _ _ _ ↦ (none : Option Unit)) (F64.ofInt 252 : Option Rat)
      (F64.ofInt 0) = some result ∧ r.unpricedHolding = none ∧ result.Agrees r := by
  have haccepted : (equalWeight.bridge .insertion 1000 ⟨F64.ofInt 0, F64.ofInt 0, 0⟩
      [[(aapl, flatBar 100)], [(aapl, flatBar 50)]] (F64.ofInt 252 : Option Rat)
      (F64.ofInt 0)).accepted = true := by
    decide +kernel
  obtain ⟨result, r, hresult, hr, hagrees⟩ :=
    @runBacktest_agrees _ _ equalWeight .insertion _ 1000 _ _ _ Unit (fun _ _ _ ↦ none) haccepted
  have hpriced : ((equalWeight.bridge .insertion 1000 ⟨F64.ofInt 0, F64.ofInt 0, 0⟩
      [[(aapl, flatBar 100)], [(aapl, flatBar 50)]] (F64.ofInt 252 : Option Rat)
      (F64.ofInt 0)).backtestWeightsWithOptions .insertion (fun _ _ _ ↦ (none : Option Unit))).map
        (·.unpricedHolding) = some none := by
    decide +kernel
  rw [hr] at hpriced
  have hnone : r.unpricedHolding = none := Option.some_inj.mp hpriced
  rw [hnone] at hagrees
  exact ⟨result, r, hresult, hnone, hagrees.2⟩

end Results

end Strategy

end Nanobook
