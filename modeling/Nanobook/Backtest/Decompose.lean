import Mathlib.Data.List.Dedup
import Nanobook.Backtest.Bridge

/-!
# Decomposing a backtest

`decompose_backtest`: what each symbol contributes to the return of each period, and the trades, as
they are seen from the weights.  A trade is entered in the period in which the weight of its symbol
becomes non-zero, and exited in the one in which it becomes zero.
-/

namespace Nanobook

open Rebalancer (Symbol collected)

variable {F : Type}

structure AttributionTrade (F : Type) where
  symbol : Symbol
  entryIndex : Nat
  exitIndex : Option Nat
  entryWeight : F
  exitWeight : F

structure AttributionResult (F : Type) where
  contributions : List (List (Symbol × F))
  cumulativeContributions : List (List (Symbol × F))
  trades : List (AttributionTrade F)

/-- By the entry, then the symbol. -/
def AttributionTrade.precedes (a b : AttributionTrade F) : Prop :=
  a.entryIndex < b.entryIndex ∨ a.entryIndex = b.entryIndex ∧ ¬ b.symbol.asStr < a.symbol.asStr

instance (a b : AttributionTrade F) : Decidable (a.precedes b) :=
  inferInstanceAs (Decidable (_ ∨ _))

/-- What the loop over the periods keeps; the parts of the period at hand come last. -/
structure Decomposition (F : Type) where
  cumulative : HashMap Symbol F
  previousWeights : List (Symbol × F)
  openTrades : HashMap Symbol (Nat × F)
  contributions : List (List (Symbol × F))
  cumulativeContributions : List (List (Symbol × F))
  trades : List (AttributionTrade F)
  periodContrib : List (Symbol × F)
  periodCumulative : List (Symbol × F)

namespace Decomposition

variable [F64 F]

/-- `x == 0.0`. -/
def isZero (x : F) : Bool := F64.le x (F64.ofInt 0) && F64.le (F64.ofInt 0) x

/-- The last value for a symbol, and zero where there is none or it is not finite. -/
def finiteOrZero (pairs : List (Symbol × F)) (symbol : Symbol) : F :=
  ((collected pairs symbol).filter F64.isFinite).getD (F64.ofInt 0)

def init : Decomposition F where
  cumulative := .empty
  previousWeights := []
  openTrades := .empty
  contributions := []
  cumulativeContributions := []
  trades := []
  periodContrib := []
  periodCumulative := []

/-- A trade of a symbol begins or ends with the change of its weight. -/
def updateTrade (periodIndex : Nat) (symbol : Symbol) (weight previous : F) (d : Decomposition F) :
    Decomposition F :=
  if isZero previous && !isZero weight then
    { d with openTrades := d.openTrades.insert symbol (periodIndex, weight) }
  else if !isZero previous && isZero weight then
    match d.openTrades.get? symbol with
    | some (entryIndex, entryWeight) =>
        { d with
          openTrades := d.openTrades.erase symbol
          trades := d.trades ++ [⟨symbol, entryIndex, some periodIndex, entryWeight, previous⟩] }
    | none => d
  else d

/-- The contribution of a symbol to a period. -/
def updateContribution (symbol : Symbol) (weight previous periodReturn : F) (d : Decomposition F) :
    Decomposition F :=
  let contribution := weight * periodReturn
  if !isZero contribution || !isZero weight || !isZero previous then
    let running := (d.cumulative.get? symbol).getD (F64.ofInt 0) + contribution
    { d with
      cumulative := d.cumulative.insert symbol running
      periodContrib := d.periodContrib ++ [(symbol, contribution)]
      periodCumulative := d.periodCumulative ++ [(symbol, running)] }
  else d

/-- One symbol of a period. -/
def updateSymbol (periodIndex : Nat) (weights returns : List (Symbol × F)) (d : Decomposition F)
    (symbol : Symbol) : Decomposition F :=
  let weight := finiteOrZero weights symbol
  let previous := finiteOrZero d.previousWeights symbol
  updateContribution symbol weight previous (finiteOrZero returns symbol)
    (updateTrade periodIndex symbol weight previous d)

/-- The symbols of a period, in order and each once. -/
def periodSymbols (weights returns previousWeights : List (Symbol × F)) : List Symbol :=
  ((weights ++ returns ++ previousWeights).map Prod.fst |>.insertionSort
    fun a b ↦ ¬ b.asStr < a.asStr).dedup

/-- The records of a period are filed. -/
def endPeriod (weights : List (Symbol × F)) (d : Decomposition F) : Decomposition F :=
  { d with
    contributions := d.contributions ++ [BridgeState.sortBySymbol d.periodContrib]
    cumulativeContributions :=
      d.cumulativeContributions ++ [BridgeState.sortBySymbol d.periodCumulative]
    periodContrib := []
    periodCumulative := []
    previousWeights := weights }

/-- One period: its weights and returns, and its number. -/
def step (d : Decomposition F) (period : (List (Symbol × F) × List (Symbol × F)) × Nat) :
    Decomposition F :=
  let ((weights, returns), periodIndex) := period
  endPeriod weights ((periodSymbols weights returns d.previousWeights).foldl
    (updateSymbol periodIndex weights returns) d)

/-- The trades that have not been exited. -/
def stillOpen (order : HashMap.Order Symbol) (d : Decomposition F) : List (AttributionTrade F) :=
  (d.openTrades.iter order).map fun (symbol, entryIndex, entryWeight) ↦
    ⟨symbol, entryIndex, none, entryWeight, (collected d.previousWeights symbol).getD entryWeight⟩

def result (order : HashMap.Order Symbol) (d : Decomposition F) : AttributionResult F where
  contributions := d.contributions
  cumulativeContributions := d.cumulativeContributions
  trades := (d.trades ++ d.stillOpen order).insertionSort AttributionTrade.precedes

end Decomposition

/-- The open trades are gone through in the order in which a map yields them. -/
def decomposeBacktest [F64 F] (order : HashMap.Order Symbol)
    (weightSchedule returnSchedule : List (List (Symbol × F))) : AttributionResult F :=
  if weightSchedule.length ≠ returnSchedule.length then ⟨[], [], []⟩
  else
    (((weightSchedule.zip returnSchedule).zipIdx.foldl Decomposition.step .init).result order)

end Nanobook
