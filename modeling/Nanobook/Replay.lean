import Nanobook.Exchange

/-!
# Replaying the event log

`Exchange::apply` and `Exchange::replay` of `event.rs`.  Each operation is implemented a second
time here, on top of the same internal methods as the public one.
-/

namespace Nanobook

structure ApplyResult where
  trades : List Trade
deriving DecidableEq, Repr

namespace Exchange

/-- The arm of `apply` for one event, after the event has been recorded. -/
def applyInternal (ex : Exchange) (fuel : Nat) : Event → Option (Exchange × ApplyResult)
  | .submitLimit side price quantity tif => do
      let (ex, result) ← ex.submitLimitInternal fuel side price quantity tif
      let ex ← ex.onTrades fuel result.trades
      some (ex, ⟨result.trades⟩)
  | .submitMarket side quantity => do
      let (ex, result) ← ex.submitLimitInternal fuel side side.marketPrice quantity .ioc
      let ex ← ex.onTrades fuel result.trades
      some (ex, ⟨result.trades⟩)
  | .cancel orderId => some ((ex.cancelInternal orderId).1, ⟨[]⟩)
  | .modify orderId newPrice newQuantity => do
      let (ex, result) ← ex.modifyInternal fuel orderId newPrice newQuantity
      let ex ← ex.onTrades fuel result.trades
      some (ex, ⟨result.trades⟩)
  | .submitStopMarket side stopPrice quantity => do
      let (ex, _) ← ex.submitStopInternal fuel side stopPrice none quantity .gtc
      some (ex, ⟨[]⟩)
  | .submitStopLimit side stopPrice limitPrice quantity tif => do
      let (ex, _) ← ex.submitStopInternal fuel side stopPrice (some limitPrice) quantity tif
      some (ex, ⟨[]⟩)
  | .submitTrailingStopMarket side stopPrice quantity trailMethod => do
      let (ex, _) ← ex.submitTrailingStopInternal fuel side stopPrice none quantity .gtc trailMethod
      some (ex, ⟨[]⟩)
  | .submitTrailingStopLimit side stopPrice limitPrice quantity tif trailMethod => do
      let (ex, _) ← ex.submitTrailingStopInternal fuel side stopPrice (some limitPrice) quantity tif
        trailMethod
      some (ex, ⟨[]⟩)

def apply (ex : Exchange) (fuel : Nat) (event : Event) : Option (Exchange × ApplyResult) :=
  (ex.record event).applyInternal fuel event

/-- Apply the events in order, dropping the results. -/
def applyEvents (fuel : Nat) (ex : Exchange) (events : List Event) : Option Exchange :=
  events.foldlM (fun ex event ↦ (ex.apply fuel event).map Prod.fst) ex

def clearEvents (ex : Exchange) : Exchange := { ex with events := [] }

/-- `Exchange::replay`, onto an exchange with the given self-trade prevention policy. -/
def replay (fuel : Nat) (policy : StpPolicy) (events : List Event) : Option Exchange :=
  applyEvents fuel (create.withStpPolicy policy) events

end Exchange

end Nanobook
