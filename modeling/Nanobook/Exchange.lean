import Nanobook.Event

/-!
# The exchange

`exchange.rs`: the order book with time-in-force handling, stop orders and the event log.  Every
operation that may match takes the number of loop passes it is allowed, and is `none` if the
match does not return within it.

A trade moves the last trade price, which may trigger stops, which submit orders of their own:
`processTradeTriggers` runs these cascades round by round.
-/

namespace Nanobook

structure Exchange where
  book : OrderBook
  trades : List Trade
  stopBook : StopBook
  lastTradePrice : Option Price
  stpPolicy : StpPolicy
  events : List Event

/-- The arguments of `submit_limit_internal_with_owner`. -/
structure Submission where
  side : Side
  price : Price
  quantity : Quantity
  timeInForce : TimeInForce
  owner : Option OrderOwner
deriving DecidableEq, Repr

namespace StopOrder

/-- What a stop submits when it triggers: a limit order, or an IOC order at the worst price. -/
def submission (stop : StopOrder) : Submission :=
  match stop.limitPrice with
  | some limit => ⟨stop.side, limit, stop.quantity, stop.timeInForce, none⟩
  | none => ⟨stop.side, stop.side.marketPrice, stop.quantity, .ioc, none⟩

end StopOrder

namespace Exchange

/-- `Exchange::new`. -/
def create : Exchange where
  book := OrderBook.create
  trades := []
  stopBook := StopBook.create
  lastTradePrice := none
  stpPolicy := .off
  events := []

def withStpPolicy (ex : Exchange) (policy : StpPolicy) : Exchange := { ex with stpPolicy := policy }

def setStpPolicy (ex : Exchange) (policy : StpPolicy) : Exchange := { ex with stpPolicy := policy }

def getOrder (ex : Exchange) (orderId : OrderId) : Option Order := ex.book.getOrder orderId

/-- Append to the event log. -/
def record (ex : Exchange) (event : Event) : Exchange :=
  { ex with events := ex.events ++ [event] }

/-! ## Submission -/

/-- What happens to an order once it has been matched: trades are recorded, and the remainder
rests, is cancelled, or was cancelled already by self-trade prevention. -/
def settle (ex : Exchange) (sub : Submission) (s : MatchState) : Exchange × SubmitResult :=
  let ex := { ex with trades := ex.trades ++ s.result.trades }
  let order := s.incoming
  let filled := order.filledQuantity
  let remaining := order.remainingQuantity
  let store (status : OrderStatus) : Exchange :=
    { ex with
      book := { s.book with
        orders := s.book.orders.insert order.id { order with status := status } } }
  let result (status : OrderStatus) (resting cancelled : Quantity) : SubmitResult :=
    ⟨order.id, status, s.result.trades, filled, resting, cancelled⟩
  if s.result.stpCancelled then
    let status := if filled > 0 then .partiallyFilled else .cancelled
    (store status, result status 0 (sub.quantity - filled))
  else if remaining = 0 then
    (store .filled, result .filled 0 0)
  else if sub.timeInForce = .gtc then
    let status := if filled > 0 then .partiallyFilled else .new
    ({ ex with book := s.book.addOrder { order with status := status } }, result status remaining 0)
  else
    let status := if filled > 0 then .partiallyFilled else .cancelled
    (store status, result status 0 remaining)

/-- A FOK order that the feasibility check turns away. -/
def rejectsFok (ex : Exchange) (sub : Submission) : Bool :=
  sub.timeInForce = .fok && !ex.book.canFullyFill sub.side sub.price sub.quantity

/-- The incoming order as it enters the match, and the book it was numbered from. -/
def incoming (ex : Exchange) (sub : Submission) : Order × OrderBook :=
  let (order, book) := ex.book.createOrder sub.side sub.price sub.quantity sub.timeInForce
  ({ order with owner := sub.owner }, book)

def submitLimitInternalWithOwner (ex : Exchange) (fuel : Nat) (sub : Submission) :
    Option (Exchange × SubmitResult) :=
  if ex.rejectsFok sub then
    let (order, book) := ex.book.createOrder sub.side sub.price sub.quantity sub.timeInForce
    some ({ ex with book := book }, ⟨order.id, .cancelled, [], 0, 0, sub.quantity⟩)
  else do
    let (order, book) := ex.incoming sub
    let s ← book.matchOrderWithPolicy fuel order ex.stpPolicy
    some (ex.settle sub s)

def submitLimitInternal (ex : Exchange) (fuel : Nat) (side : Side) (price : Price)
    (quantity : Quantity) (tif : TimeInForce) : Option (Exchange × SubmitResult) :=
  ex.submitLimitInternalWithOwner fuel ⟨side, price, quantity, tif, none⟩

/-! ## Stop triggers -/

def maxCascadeDepth : Nat := 100

/-- Submit one triggered stop, keeping the price of the last trade of the round. -/
def submitTriggered (fuel : Nat) (acc : Exchange × Option Price) (stop : StopOrder) :
    Option (Exchange × Option Price) := do
  let (ex, result) ← acc.1.submitLimitInternalWithOwner fuel stop.submission
  some (ex, (result.trades.getLast?.map Trade.price).or acc.2)

/-- The stops a trade at the last price triggers, and the exchange they are taken from. -/
def collectTriggered (ex : Exchange) (tradePrice : Price) : Exchange × List StopOrder :=
  let (stopBook, triggered) :=
    (ex.stopBook.updateTrailingStops tradePrice).collectTriggered tradePrice
  ({ ex with stopBook := stopBook }, triggered)

/-- One round of the cascade: `inl` returns, `inr` goes on to the next round. -/
def triggerRound (ex : Exchange) (fuel : Nat) : Option (Exchange ⊕ Exchange) :=
  match ex.lastTradePrice with
  | none => some (.inl ex)
  | some tradePrice =>
      let (ex, triggered) := ex.collectTriggered tradePrice
      if triggered.isEmpty then some (.inl ex)
      else do
        let (ex, newLastPrice) ← triggered.foldlM (submitTriggered fuel) (ex, none)
        match newLastPrice with
        | some p => some (.inr { ex with lastTradePrice := some p })
        | none => some (.inl ex)

/-- At most `n` rounds. -/
def triggerRounds (fuel : Nat) : Nat → Exchange → Option Exchange
  | 0, ex => some ex
  | n + 1, ex => do
      match ← ex.triggerRound fuel with
      | .inl ex => some ex
      | .inr ex => triggerRounds fuel n ex

def processTradeTriggers (ex : Exchange) (fuel : Nat) : Option Exchange :=
  triggerRounds fuel maxCascadeDepth ex

/-- What the public methods do with the trades of a submission. -/
def onTrades (ex : Exchange) (fuel : Nat) (trades : List Trade) : Option Exchange :=
  match trades.getLast? with
  | none => some ex
  | some last => { ex with lastTradePrice := some last.price }.processTradeTriggers fuel

/-! ## Public submissions -/

def submitLimit (ex : Exchange) (fuel : Nat) (side : Side) (price : Price) (quantity : Quantity)
    (tif : TimeInForce) : Option (Exchange × SubmitResult) := do
  let ex := ex.record (.submitLimit side price quantity tif)
  let (ex, result) ← ex.submitLimitInternal fuel side price quantity tif
  let ex ← ex.onTrades fuel result.trades
  some (ex, result)

/-- The event it records is the one of `submitLimit`: the log has no room for the owner. -/
def submitLimitWithOwner (ex : Exchange) (fuel : Nat) (side : Side) (price : Price)
    (quantity : Quantity) (tif : TimeInForce) (owner : OrderOwner) :
    Option (Exchange × SubmitResult) := do
  let ex := ex.record (.submitLimit side price quantity tif)
  let (ex, result) ← ex.submitLimitInternalWithOwner fuel ⟨side, price, quantity, tif, some owner⟩
  let ex ← ex.onTrades fuel result.trades
  some (ex, result)

def submitMarket (ex : Exchange) (fuel : Nat) (side : Side) (quantity : Quantity) :
    Option (Exchange × SubmitResult) := do
  let ex := ex.record (.submitMarket side quantity)
  let (ex, result) ← ex.submitLimitInternal fuel side side.marketPrice quantity .ioc
  let ex ← ex.onTrades fuel result.trades
  some (ex, result)

/-! ## Cancelling and modifying -/

def cancelInternal (ex : Exchange) (orderId : OrderId) : Exchange × CancelResult :=
  match ex.stopBook.containsPending orderId, ex.stopBook.get orderId with
  | true, some stop =>
      ({ ex with stopBook := ex.stopBook.cancel orderId }, .succeeded stop.quantity)
  | _, _ =>
      match ex.book.getOrder orderId with
      | none => (ex, .failure .orderNotFound)
      | some order =>
          if order.isActive then
            match ex.book.cancelOrder orderId with
            | (book, some qty) => ({ ex with book := book }, .succeeded qty)
            | (book, none) => ({ ex with book := book }, .failure .orderNotActive)
          else (ex, .failure .orderNotActive)

def cancel (ex : Exchange) (orderId : OrderId) : Exchange × CancelResult :=
  (ex.record (.cancel orderId)).cancelInternal orderId

/-- Cancel and replace.  The replacement is submitted without the old order's owner. -/
def modifyInternal (ex : Exchange) (fuel : Nat) (orderId : OrderId) (newPrice : Price)
    (newQuantity : Quantity) : Option (Exchange × ModifyResult) :=
  if newQuantity = 0 then some (ex, .failure orderId .invalidQuantity)
  else
    match ex.book.getOrder orderId with
    | none => some (ex, .failure orderId .orderNotFound)
    | some order =>
        if order.isActive then
          match ex.book.cancelOrder orderId with
          | (book, none) => some ({ ex with book := book }, .failure orderId .orderNotActive)
          | (book, some cancelled) => do
              let (ex, result) ← { ex with book := book }.submitLimitInternal fuel order.side
                newPrice newQuantity order.timeInForce
              some (ex, .succeeded orderId result.orderId cancelled result.trades)
        else some (ex, .failure orderId .orderNotActive)

/-- The trades of the replacement are not passed on to the stop triggers. -/
def modify (ex : Exchange) (fuel : Nat) (orderId : OrderId) (newPrice : Price)
    (newQuantity : Quantity) : Option (Exchange × ModifyResult) :=
  (ex.record (.modify orderId newPrice newQuantity)).modifyInternal fuel orderId newPrice
    newQuantity

/-! ## Stop orders -/

/-- The stop order built from the next id and timestamp. -/
def nextStop (ex : Exchange) (side : Side) (stopPrice : Price) (limitPrice : Option Price)
    (quantity : Quantity) (tif : TimeInForce) (trailMethod : Option TrailMethod) : StopOrder where
  id := ex.book.nextOrderId
  side := side
  stopPrice := stopPrice
  limitPrice := limitPrice
  quantity := quantity
  timeInForce := tif
  timestamp := ex.book.nextTimestamp
  status := .pending
  trailMethod := trailMethod
  watermark := none

/-- The exchange once a stop order with the next id and timestamp has joined the stop book. -/
def insertStop (ex : Exchange) (order : StopOrder) : Exchange :=
  { ex with
    book := { ex.book with
      nextOrderId := ex.book.nextOrderId + 1, nextTimestamp := ex.book.nextTimestamp + 1 }
    stopBook := ex.stopBook.insert order }

/-- Whether a new stop triggers at once: trailing stops wait for a price movement. -/
def shouldTrigger (ex : Exchange) (order : StopOrder) : Bool :=
  match order.trailMethod, ex.lastTradePrice, order.side with
  | none, some lastPrice, .buy => decide (lastPrice ≥ order.stopPrice)
  | none, some lastPrice, .sell => decide (lastPrice ≤ order.stopPrice)
  | _, _, _ => false

def insertStopOrder (ex : Exchange) (fuel : Nat) (side : Side) (stopPrice : Price)
    (limitPrice : Option Price) (quantity : Quantity) (tif : TimeInForce)
    (trailMethod : Option TrailMethod) : Option (Exchange × StopSubmitResult) :=
  let order := ex.nextStop side stopPrice limitPrice quantity tif trailMethod
  let ex := ex.insertStop order
  if ex.shouldTrigger order then do
    let ex ← ex.processTradeTriggers fuel
    some (ex, ⟨order.id, ((ex.stopBook.get order.id).map StopOrder.status).getD .triggered⟩)
  else some (ex, ⟨order.id, .pending⟩)

def submitStopInternal (ex : Exchange) (fuel : Nat) (side : Side) (stopPrice : Price)
    (limitPrice : Option Price) (quantity : Quantity) (tif : TimeInForce) :
    Option (Exchange × StopSubmitResult) :=
  ex.insertStopOrder fuel side stopPrice limitPrice quantity tif none

def submitTrailingStopInternal (ex : Exchange) (fuel : Nat) (side : Side) (stopPrice : Price)
    (limitPrice : Option Price) (quantity : Quantity) (tif : TimeInForce)
    (trailMethod : TrailMethod) : Option (Exchange × StopSubmitResult) :=
  ex.insertStopOrder fuel side stopPrice limitPrice quantity tif (some trailMethod)

def submitStopMarket (ex : Exchange) (fuel : Nat) (side : Side) (stopPrice : Price)
    (quantity : Quantity) : Option (Exchange × StopSubmitResult) :=
  (ex.record (.submitStopMarket side stopPrice quantity)).submitStopInternal fuel side stopPrice
    none quantity .gtc

def submitStopLimit (ex : Exchange) (fuel : Nat) (side : Side) (stopPrice limitPrice : Price)
    (quantity : Quantity) (tif : TimeInForce) : Option (Exchange × StopSubmitResult) :=
  (ex.record (.submitStopLimit side stopPrice limitPrice quantity tif)).submitStopInternal fuel side
    stopPrice (some limitPrice) quantity tif

def submitTrailingStopMarket (ex : Exchange) (fuel : Nat) (side : Side)
    (initialStopPrice : Price) (quantity : Quantity) (trailMethod : TrailMethod) :
    Option (Exchange × StopSubmitResult) :=
  (ex.record (.submitTrailingStopMarket side initialStopPrice quantity
    trailMethod)).submitTrailingStopInternal fuel side initialStopPrice none quantity .gtc
    trailMethod

def submitTrailingStopLimit (ex : Exchange) (fuel : Nat) (side : Side)
    (initialStopPrice limitPrice : Price) (quantity : Quantity) (tif : TimeInForce)
    (trailMethod : TrailMethod) : Option (Exchange × StopSubmitResult) :=
  (ex.record (.submitTrailingStopLimit side initialStopPrice limitPrice quantity tif
    trailMethod)).submitTrailingStopInternal fuel side initialStopPrice (some limitPrice) quantity
      tif trailMethod

/-! ## Memory management -/

def clearTrades (ex : Exchange) : Exchange := { ex with trades := [] }

def clearOrderHistory (ex : Exchange) : Exchange × Nat :=
  let (book, removed) := ex.book.clearHistory
  ({ ex with stopBook := ex.stopBook.clearHistory, book := book }, removed)

def compact (ex : Exchange) : Exchange := { ex with book := ex.book.compact }

end Exchange

end Nanobook
