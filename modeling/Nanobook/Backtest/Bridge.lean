import Nanobook.Backtest.Stops

/-!
# The backtest bridge

`backtest_weights_with_options`: a schedule of target weights is run against a schedule of price
bars, one period after the other.  A period sets the caps that the budgets leave, rebalances at the
fill prices, checks the stops at the close and records the period; it ends the run if an open
position has no price.

The metrics of the returns are computed by a function that is a parameter.
-/

namespace Nanobook

open Rebalancer (Symbol collected)

variable {F : Type}

/-! ## Inputs -/

structure BarPrices where
  openPrice : Int
  high : Int
  low : Int
  close : Int
deriving DecidableEq

inductive FillPolicy where
  | signalBarClose
  | nextBarOpen
  | nextBarTypical
deriving DecidableEq, Repr

/-- The bars of one period. -/
abbrev Bars := List (Symbol × BarPrices)

structure BacktestBridgeOptions (F : Type) where
  recordExecutions : Bool
  stopCfg : Option (BacktestStopConfig F)
  quantityStep : Option Int
  minOrderValue : Option Int
  noTradeBandBps : Option F
  maxTradesPerRebalance : Option Nat
  maxOrderValue : Option Int
  maxTradesPerDay : Option Nat
  maxTradesPerMonth : Option Nat
  maxTradedValuePerMonth : Option Int
  periodDayOrdinal : Option (List Int)
  periodMonthOrdinal : Option (List Int)
  fillSchedule : Option (List Bars)

namespace BacktestBridgeOptions

variable (options : BacktestBridgeOptions F)

def hasDayBudget : Bool := options.maxTradesPerDay.isSome && options.periodDayOrdinal.isSome

def hasMonthTradeBudget : Bool :=
    options.maxTradesPerMonth.isSome && options.periodMonthOrdinal.isSome

def hasMonthValueBudget : Bool :=
  options.maxTradedValuePerMonth.isSome && options.periodMonthOrdinal.isSome

def windowedBudgetsActive : Bool :=
  options.hasDayBudget || options.hasMonthTradeBudget || options.hasMonthValueBudget

end BacktestBridgeOptions

structure BacktestInput (F : Type) where
  weightSchedule : List (List (Symbol × F))
  priceSchedule : List Bars
  initialCashCents : Int
  costModel : CostModel F
  fillPolicy : FillPolicy
  periodsPerYear : F
  riskFree : F
  options : BacktestBridgeOptions F

/-! ## Results -/

/-- A still-open lot with no positive price on the fill or close bar. -/
structure UnpricedHolding where
  periodIndex : Nat
  symbol : Symbol
  atFill : Bool
deriving DecidableEq

structure BacktestBridgeResult (F M : Type) where
  initialCash : Int
  executions : Option (List ExecutionRecord)
  cashSnapshots : Option (List Int)
  returns : List F
  equityCurve : List Int
  finalCash : Int
  metrics : Option M
  holdings : List (List (Symbol × F))
  symbolReturns : List (List (Symbol × F))
  stopEvents : List BacktestStopEvent
  skippedRebalances : List Nat
  unpricedHolding : Option UnpricedHolding

def emptyResult (M : Type) (initialCashCents : Int) (recordExecutions : Bool) :
    BacktestBridgeResult F M where
  initialCash := initialCashCents
  executions := if recordExecutions then some [] else none
  cashSnapshots := if recordExecutions then some [] else none
  returns := []
  equityCurve := [initialCashCents]
  finalCash := initialCashCents
  metrics := none
  holdings := []
  symbolReturns := []
  stopEvents := []
  skippedRebalances := []
  unpricedHolding := none

def unpricedResult (M : Type) (initialCashCents : Int) (unpriced : UnpricedHolding)
    (recordExecutions : Bool) : BacktestBridgeResult F M :=
  { emptyResult M initialCashCents recordExecutions with unpricedHolding := some unpriced }

/-! ## Fill prices -/

/-- The bars a next-bar fill policy reads: those of the fill schedule if there is one, else the next
ones. -/
def nextFillBars (priceSchedule : List Bars) (periodIndex : Nat)
    (fillSchedule : Option (List Bars)) :
    Option Bars :=
  match fillSchedule with
  | some schedule => schedule[periodIndex]?.filter fun bars ↦ !bars.isEmpty
  | none => priceSchedule[periodIndex + 1]?

def closePrices (bars : Bars) : List (Symbol × Int) := bars.map fun b ↦ (b.1, b.2.close)

def fillPricesForPeriod (priceSchedule : List Bars) (periodIndex : Nat) (fillPolicy : FillPolicy)
    (fillSchedule : Option (List Bars)) : Option (List (Symbol × Int)) :=
  match fillPolicy with
  | .signalBarClose => priceSchedule[periodIndex]?.map closePrices
  | .nextBarOpen =>
      (nextFillBars priceSchedule periodIndex fillSchedule).map fun bars ↦
        bars.map fun b ↦ (b.1, b.2.openPrice)
  | .nextBarTypical =>
      (nextFillBars priceSchedule periodIndex fillSchedule).map fun bars ↦
        bars.map fun b ↦
          (b.1, (wrapI64 (wrapI64 (b.2.high + b.2.low) + b.2.close)).tdiv 3)

/-! ## Periods -/

/-- What one period of the schedules says. -/
structure Period (F : Type) where
  index : Nat
  weights : List (Symbol × F)
  bars : Bars
  fillPrices : Option (List (Symbol × Int))
  day : Option Int
  month : Option Int

namespace BacktestInput

variable (inp : BacktestInput F)

def period (index : Nat) (weights : List (Symbol × F)) (bars : Bars) : Period F where
  index := index
  weights := weights
  bars := bars
  fillPrices :=
    fillPricesForPeriod inp.priceSchedule index inp.fillPolicy inp.options.fillSchedule
  day := inp.options.periodDayOrdinal.bind fun days ↦ days[index]?
  month := inp.options.periodMonthOrdinal.bind fun months ↦ months[index]?

def periods : List (Period F) :=
  (inp.weightSchedule.zip inp.priceSchedule).zipIdx.map fun e ↦ inp.period e.2 e.1.1 e.1.2

/-! ## Validation -/

/-- Bars with negative prices, or with the high below the low, are refused. -/
def validBar (bar : BarPrices) : Bool :=
  0 ≤ bar.openPrice && 0 ≤ bar.high && 0 ≤ bar.low && 0 ≤ bar.close && bar.low ≤ bar.high

variable [F64 F]

def validInputs : Bool :=
  inp.weightSchedule.length = inp.priceSchedule.length && 0 < inp.initialCashCents &&
    (inp.weightSchedule.zip inp.priceSchedule).all fun e ↦
      (e.1.all fun w ↦ F64.isFinite w.2) && e.2.all fun b ↦ validBar b.2

/-- A schedule that is given has an entry for each period. -/
def aligned {A : Type} (schedule : Option (List A)) (n : Nat) : Bool :=
  schedule.all fun l ↦ l.length = n

/-- The input passes validation. -/
def accepted : Bool :=
  inp.validInputs && aligned inp.options.periodDayOrdinal inp.weightSchedule.length &&
    aligned inp.options.periodMonthOrdinal inp.weightSchedule.length &&
      aligned inp.options.fillSchedule inp.weightSchedule.length

end BacktestInput

/-! ## Budgets -/

/-- What has been traded on the current day and in the current month. -/
structure Budgets where
  tradesUsedToday : Nat
  tradesUsedMonth : Nat
  valueUsedMonth : Int
  prevDayOrdinal : Option Int
  prevMonthOrdinal : Option Int
deriving DecidableEq

namespace Budgets

def start : Budgets := ⟨0, 0, 0, none, none⟩

variable (b : Budgets)

/-- A new day starts with nothing traded. -/
def enterDay (day : Option Int) : Budgets :=
  match day with
  | none => b
  | some day =>
      if b.prevDayOrdinal ≠ some day then
        { b with tradesUsedToday := 0, prevDayOrdinal := some day }
      else b

/-- So does a new month. -/
def enterMonth (month : Option Int) : Budgets :=
  match month with
  | none => b
  | some month =>
      if b.prevMonthOrdinal ≠ some month then
        { b with tradesUsedMonth := 0, valueUsedMonth := 0, prevMonthOrdinal := some month }
      else b

def charge (orders : Nat) (notional : Int) : Budgets :=
  { b with
    tradesUsedToday := b.tradesUsedToday + orders
    tradesUsedMonth := b.tradesUsedMonth + orders
    valueUsedMonth := satAdd b.valueUsedMonth notional }

variable (options : BacktestBridgeOptions F)

/-- What is left of the value of a month, where it is budgeted. -/
def monthValueRemaining : Option Int :=
  if options.hasMonthValueBudget then
    options.maxTradedValuePerMonth.map fun budget ↦ satSub budget b.valueUsedMonth
  else none

/-- The numbers of trades that the budgets leave. -/
def capCandidates : List Nat :=
  options.maxTradesPerRebalance.toList ++
    (if options.hasDayBudget then
      (options.maxTradesPerDay.map fun n ↦ n - b.tradesUsedToday).toList else []) ++
      (if options.hasMonthTradeBudget then
        (options.maxTradesPerMonth.map fun n ↦ n - b.tradesUsedMonth).toList else []) ++
        match b.monthValueRemaining options with
        | some remaining => if remaining ≤ 0 then [0] else []
        | none => []

/-- The cap on the value of a rebalance, which is none where it is zero. -/
def notionalCap : Int := max 0 ((b.monthValueRemaining options).getD 0)

end Budgets

/-! ## The state of a run -/

structure BridgeState (F : Type) where
  portfolio : Portfolio F
  budgets : Budgets
  equityCurve : List Int
  holdings : List (List (Symbol × F))
  symbolReturns : List (List (Symbol × F))
  stopEvents : List BacktestStopEvent
  skippedRebalances : List Nat
  cashSnapshots : Option (List Int)
  prevPrices : PriceMap
  stopTrackers : Symbol → Option StopTracker

/-- Why a run ends before its last period: an unpriced holding, or a fill that never returns. -/
inductive Halt where
  | unpriced (holding : UnpricedHolding)
  | stuck
deriving DecidableEq

/-- A computation that is stuck if it does not return. -/
def Halt.ofOption {A : Type} : Option A → Except Halt A
  | some a => .ok a
  | none => .error .stuck

variable [F64 F]

open F64

/-- The portfolio a run starts with: an option that is not given keeps its default. -/
def BacktestInput.startPortfolio (inp : BacktestInput F) : Portfolio F :=
  let o := inp.options
  { Portfolio.new inp.initialCashCents inp.costModel with
    executions := if o.recordExecutions then some [] else none
    quantityStep := o.quantityStep.getD Shares.scale
    minOrderValue := o.minOrderValue.getD 0
    maxOrderValue := o.maxOrderValue.getD 0
    noTradeBandBps := o.noTradeBandBps.getD (ofInt 0)
    maxTradesPerRebalance := o.maxTradesPerRebalance }

def BacktestInput.start (inp : BacktestInput F) : BridgeState F where
  portfolio := inp.startPortfolio
  budgets := .start
  equityCurve := [inp.initialCashCents]
  holdings := []
  symbolReturns := []
  stopEvents := []
  skippedRebalances := []
  cashSnapshots := if inp.options.recordExecutions then some [] else none
  prevPrices := fun _ ↦ none
  stopTrackers := fun _ ↦ none

/-! ## One period -/

namespace BridgeState

/-- In the order of the symbols. -/
def sortBySymbol {A : Type} (l : List (Symbol × A)) : List (Symbol × A) :=
  l.insertionSort fun a b ↦ ¬ b.1.asStr < a.1.asStr

/-- The close-to-close return of a symbol. -/
def symbolReturn (prevPrices : PriceMap) (sym : Symbol) (px : Int) : F :=
  match prevPrices sym with
  | some p0 => if 0 < p0 ∧ 0 < px then ofInt (wrapI64 (px - p0)) / ofInt p0 else nan
  | none => nan

variable (inp : BacktestInput F) (order : HashMap.Order Symbol) (period : Period F)
  (st : BridgeState F)

def recordSymbolReturns : BridgeState F :=
  { st with
    symbolReturns := st.symbolReturns ++
      [sortBySymbol (period.bars.map fun b ↦ (b.1, symbolReturn st.prevPrices b.1 b.2.close))] }

/-- Hand the caps that the budgets leave over to the portfolio. -/
def applyBudgets : BridgeState F :=
  if inp.options.windowedBudgetsActive then
    let budgets := (st.budgets.enterDay period.day).enterMonth period.month
    { st with
      budgets
      portfolio :=
        (st.portfolio.setMaxTradesPerRebalance
          (budgets.capCandidates inp.options).min?).setMaxRebalanceNotional
            (budgets.notionalCap inp.options) }
  else st

/-- Charge what a rebalance has planned. -/
def chargeBudgets : BridgeState F :=
  if inp.options.windowedBudgetsActive then
    { st with
      budgets := st.budgets.charge st.portfolio.lastRebalanceOrderCount
        st.portfolio.lastRebalanceNotional }
  else st

/-- Rebalance at the fill prices, if the policy has any for the period. -/
def rebalance : Except Halt (BridgeState F) :=
  match period.fillPrices with
  | none => .ok { st with skippedRebalances := st.skippedRebalances ++ [period.index] }
  | some fillPrices =>
      match st.portfolio.unpricedHolding order (collected fillPrices) with
      | some symbol => .error (.unpriced ⟨period.index, symbol, true⟩)
      | none => do
          let p :=
            if inp.options.recordExecutions then
              st.portfolio.setExecutionContext period.index .rebalance
            else st.portfolio
          let p ← Halt.ofOption (p.rebalanceSimple (collected fillPrices) order period.weights)
          .ok (chargeBudgets inp { st with portfolio := p })

/-- The closes of the period. -/
def closes : PriceMap := collected (closePrices period.bars)

/-- Check the stops, if any are configured. -/
def applyStops : Except Halt (BridgeState F) :=
  match inp.options.stopCfg.bind BacktestStopConfig.sanitized with
  | none => .ok st
  | some cfg => do
      let stops ← Halt.ofOption <| applyStopCfg cfg period.index order (closes period)
        ⟨st.portfolio, st.stopTrackers, st.stopEvents⟩
      .ok { st with
        portfolio := stops.portfolio, stopTrackers := stops.trackers, stopEvents := stops.events }

/-- Record the period at its closes, if every open position has one. -/
def closePeriod : Except Halt (BridgeState F) :=
  match st.portfolio.unpricedHolding order (closes period) with
  | some symbol => .error (.unpriced ⟨period.index, symbol, false⟩)
  | none =>
      let p := st.portfolio.recordReturn order (closes period)
      let equity := p.totalEquity order (closes period)
      .ok { st with
        portfolio := p
        holdings := st.holdings ++
          [sortBySymbol (p.currentWeights order (closes period) equity)]
        equityCurve := st.equityCurve ++ [equity]
        cashSnapshots := st.cashSnapshots.map fun snapshots ↦ snapshots ++ [p.cash]
        prevPrices := closes period }

/-- The main loop's body. -/
def step (st : BridgeState F) (period : Period F) : Except Halt (BridgeState F) := do
  let st := applyBudgets inp period (recordSymbolReturns period st)
  let st ← rebalance inp order period st
  let st ← applyStops inp order period st
  closePeriod order period st

end BridgeState

namespace BacktestInput

variable (inp : BacktestInput F) (order : HashMap.Order Symbol)

/-- The main loop over the first periods. -/
def runTo (n : Nat) : Except Halt (BridgeState F) :=
  (inp.periods.take n).foldlM (BridgeState.step inp order) inp.start

def run : Except Halt (BridgeState F) :=
  inp.periods.foldlM (BridgeState.step inp order) inp.start

variable {M : Type} (computeMetrics : List F → F → F → Option M)

/-- The result of a run that went through all its periods. -/
def completed (st : BridgeState F) : BacktestBridgeResult F M where
  initialCash := inp.initialCashCents
  executions := st.portfolio.executions
  cashSnapshots := st.cashSnapshots
  returns := st.portfolio.returns
  equityCurve := st.equityCurve
  finalCash := st.portfolio.cash
  metrics := computeMetrics st.portfolio.returns inp.periodsPerYear inp.riskFree
  holdings := st.holdings
  symbolReturns := st.symbolReturns
  stopEvents := st.stopEvents
  skippedRebalances := st.skippedRebalances
  unpricedHolding := none

/-- `backtest_weights_with_options`. -/
def backtestWeightsWithOptions : Option (BacktestBridgeResult F M) :=
  if inp.accepted then
    match inp.run order with
    | .ok st => some (inp.completed computeMetrics st)
    | .error (.unpriced holding) =>
        some (unpricedResult M inp.initialCashCents holding inp.options.recordExecutions)
    | .error .stuck => none
  else some (emptyResult M inp.initialCashCents inp.options.recordExecutions)

end BacktestInput

/-! ## Inputs to run examples with -/

/-- A bar that does not move. -/
def flatBar (price : Int) : BarPrices := ⟨price, price, price, price⟩

/-- Everything goes into one symbol, at no cost. -/
def allIn (cash : Int) (quantityStep : Option Int) (bars : List Bars) :
    BacktestInput (Option Rat) where
  weightSchedule := bars.map fun _ ↦ [(aapl, F64.ofInt 1)]
  priceSchedule := bars
  initialCashCents := cash
  costModel := ⟨F64.ofInt 0, F64.ofInt 0, 0⟩
  fillPolicy := .signalBarClose
  periodsPerYear := F64.ofInt 252
  riskFree := F64.ofInt 0
  options :=
    { recordExecutions := true
      stopCfg := none
      quantityStep
      minOrderValue := none
      noTradeBandBps := none
      maxTradesPerRebalance := none
      maxOrderValue := none
      maxTradesPerDay := none
      maxTradesPerMonth := none
      maxTradedValuePerMonth := none
      periodDayOrdinal := none
      periodMonthOrdinal := none
      fillSchedule := none }

end Nanobook
