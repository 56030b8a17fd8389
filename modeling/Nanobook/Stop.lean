import Mathlib.Data.List.Sort
import Nanobook.Lib.OrdMap
import Nanobook.Order

/-!
# Stop orders

`stop.rs`: the book of pending stop orders, indexed by stop price on each side, with the trailing
stops listed apart.  Percentages and multipliers are `f64` in the source and `Float` here; nothing
below computes with them beyond the two offsets of `trailingOffset`.
-/

namespace Nanobook

inductive TrailMethod where
  | fixed (cents : Int)
  | percentage (pct : Float)
  | smaAbsChange (multiplier : Float) (period : Nat)

inductive StopStatus where
  | pending
  | triggered
  | cancelled
deriving DecidableEq, Repr

structure StopOrder where
  id : OrderId
  side : Side
  stopPrice : Price
  /-- `none` for a stop-market order. -/
  limitPrice : Option Price
  quantity : Quantity
  timeInForce : TimeInForce
  timestamp : Timestamp
  status : StopStatus
  trailMethod : Option TrailMethod
  /-- Best price seen: the highest for a sell, the lowest for a buy. -/
  watermark : Option Price

structure StopBook where
  buyStops : OrdMap Price (List OrderId)
  sellStops : OrdMap Price (List OrderId)
  orders : OrdMap OrderId StopOrder
  trailingIds : List OrderId
  priceChanges : List Int
  lastPrice : Option Price

namespace StopBook

def maxPriceHistory : Nat := 10000

/-- `StopBook::new`. -/
def create : StopBook := ⟨OrdMap.empty, OrdMap.empty, OrdMap.empty, [], [], none⟩

/-- The index of one side. -/
def stops (sb : StopBook) : Side → OrdMap Price (List OrderId)
  | .buy => sb.buyStops
  | .sell => sb.sellStops

def updateStops (sb : StopBook) (side : Side)
    (f : OrdMap Price (List OrderId) → OrdMap Price (List OrderId)) : StopBook :=
  match side with
  | .buy => { sb with buyStops := f sb.buyStops }
  | .sell => { sb with sellStops := f sb.sellStops }

@[simp] theorem orders_updateStops (sb : StopBook) (side : Side)
    (f : OrdMap Price (List OrderId) → OrdMap Price (List OrderId)) :
    (sb.updateStops side f).orders = sb.orders := by cases side <;> rfl

@[simp] theorem trailingIds_updateStops (sb : StopBook) (side : Side)
    (f : OrdMap Price (List OrderId) → OrdMap Price (List OrderId)) :
    (sb.updateStops side f).trailingIds = sb.trailingIds := by cases side <;> rfl

theorem stops_updateStops (sb : StopBook) (side s : Side)
    (f : OrdMap Price (List OrderId) → OrdMap Price (List OrderId)) :
    (sb.updateStops side f).stops s = if s = side then f (sb.stops s) else sb.stops s := by
  cases side <;> cases s <;> rfl

/-- The indices do not depend on the orders and the price history. -/
@[simp] theorem stops_mk (sb : StopBook) (orders : OrdMap OrderId StopOrder)
    (trailingIds : List OrderId) (priceChanges : List Int) (lastPrice : Option Price) (s : Side) :
    (StopBook.mk sb.buyStops sb.sellStops orders trailingIds priceChanges lastPrice).stops s =
      sb.stops s := by cases s <;> rfl

/-- `map.entry(price).or_default().push(id)`. -/
def pushId (m : OrdMap Price (List OrderId)) (price : Price) (id : OrderId) :
    OrdMap Price (List OrderId) :=
  m.insert price ((m.get? price).getD [] ++ [id])

/-- Drop `id` from the list at `price`, and the list itself when nothing is left in it. -/
def removeId (m : OrdMap Price (List OrderId)) (price : Price) (id : OrderId) :
    OrdMap Price (List OrderId) :=
  match m.get? price with
  | none => m
  | some ids =>
      let ids := ids.filter (· ≠ id)
      if ids = [] then m.erase price else m.insert price ids

def get (sb : StopBook) (orderId : OrderId) : Option StopOrder := sb.orders.get? orderId

def containsPending (sb : StopBook) (orderId : OrderId) : Bool :=
  match sb.orders.get? orderId with
  | some o => o.status = .pending
  | none => false

def pendingCount (sb : StopBook) : Nat :=
  (sb.buyStops.entries.map fun e ↦ e.2.length).sum +
    (sb.sellStops.entries.map fun e ↦ e.2.length).sum

def insert (sb : StopBook) (order : StopOrder) : StopBook :=
  let sb := sb.updateStops order.side fun m ↦ pushId m order.stopPrice order.id
  { sb with
    orders := sb.orders.insert order.id order
    trailingIds := if order.trailMethod.isSome then sb.trailingIds ++ [order.id]
      else sb.trailingIds }

/-- The stop book after `cancel`; an order that is not pending is left alone. -/
def cancel (sb : StopBook) (orderId : OrderId) : StopBook :=
  match sb.orders.get? orderId with
  | none => sb
  | some order =>
      if order.status = .pending then
        let sb := sb.updateStops order.side fun m ↦ removeId m order.stopPrice orderId
        { sb with
          orders := sb.orders.insert orderId { order with status := .cancelled }
          trailingIds := sb.trailingIds.filter (· ≠ orderId) }
      else sb

/-! ## Triggering -/

/-- Mark one id as triggered, if it is pending, and collect a copy of the order. -/
def triggerId (acc : StopBook × List StopOrder) (id : OrderId) : StopBook × List StopOrder :=
  match acc.1.orders.get? id with
  | none => acc
  | some order =>
      if order.status = .pending then
        let order := { order with status := .triggered }
        ({ acc.1 with orders := acc.1.orders.insert id order }, acc.2 ++ [order])
      else acc

/-- Take one price off an index and trigger everything listed there. -/
def triggerKey (side : Side) (acc : StopBook × List StopOrder) (key : Price) :
    StopBook × List StopOrder :=
  match (acc.1.stops side).get? key with
  | none => acc
  | some ids => ids.foldl triggerId (acc.1.updateStops side fun m ↦ m.erase key, acc.2)

/-- The buy stops at or below the trade price. -/
def triggerBuys (sb : StopBook) (tradePrice : Price) : StopBook × List StopOrder :=
  let buyKeys := (sb.buyStops.entries.map Prod.fst).filter fun k ↦ k ≤ tradePrice
  buyKeys.foldl (triggerKey .buy) (sb, [])

/-- The sell stops at or above the trade price. -/
def triggerSells (acc : StopBook × List StopOrder) (tradePrice : Price) :
    StopBook × List StopOrder :=
  let sellKeys := (acc.1.sellStops.entries.map Prod.fst).filter fun k ↦ tradePrice ≤ k
  sellKeys.foldl (triggerKey .sell) acc

/-- Take the stops that are no longer pending off the list of trailing ids. -/
def pruneTrailing (sb : StopBook) : StopBook :=
  { sb with trailingIds := sb.trailingIds.filter sb.containsPending }

/-- Remove and return the stops triggered by a trade at `tradePrice`, oldest first. -/
def collectTriggered (sb : StopBook) (tradePrice : Price) : StopBook × List StopOrder :=
  let (sb, triggered) := triggerSells (sb.triggerBuys tradePrice) tradePrice
  let triggered := triggered.insertionSort fun a b ↦ a.timestamp ≤ b.timestamp
  (if triggered.isEmpty then sb else sb.pruneTrailing, triggered)

/-! ## Trailing stops -/

/-- Append the change from the last price seen, keeping the most recent entries only. -/
def recordPrice (sb : StopBook) (tradePrice : Price) : StopBook :=
  let priceChanges := match sb.lastPrice with
    | none => sb.priceChanges
    | some prev =>
        -- `i64::abs` wraps at the minimum, as the subtraction does
        let change := wrapI64 (wrapI64 (tradePrice - prev)).natAbs
        let changes := sb.priceChanges ++ [change]
        changes.drop (changes.length - maxPriceHistory)
  { sb with priceChanges := priceChanges, lastPrice := some tradePrice }

/-- `multiplier × mean(|Δ price|)` over the last `period` price changes. -/
def computeSmaAbsChangeOffset (sb : StopBook) (multiplier : Float) (period : Nat) : Int :=
  if sb.priceChanges = [] ∨ period = 0 then 0
  else
    let window := sb.priceChanges.drop (sb.priceChanges.length - period)
    let sma := Float.ofInt (wrapI64 window.sum) / Float.ofNat window.length
    (sma * multiplier).toInt64.toInt

def trailingOffset (sb : StopBook) (newWatermark : Price) : TrailMethod → Int
  | .fixed cents => cents
  | .percentage pct => (Float.ofInt newWatermark * pct).round.toInt64.toInt
  | .smaAbsChange multiplier period => sb.computeSmaAbsChangeOffset multiplier period

/-- The update of one trailing stop. -/
def updateTrailingStop (tradePrice : Price) (sb : StopBook) (id : OrderId) : StopBook :=
  match sb.orders.get? id with
  | none => sb
  | some order =>
      match order.status, order.trailMethod with
      | .pending, some trailMethod =>
          let oldWatermark := order.watermark.getD tradePrice
          let newWatermark := match order.side with
            | .sell => Max.max oldWatermark tradePrice
            | .buy => Min.min oldWatermark tradePrice
          let offset := sb.trailingOffset newWatermark trailMethod
          if offset ≤ 0 then
            { sb with orders := sb.orders.insert id { order with watermark := some newWatermark } }
          else
            let newStop := match order.side with
              | .sell => wrapI64 (newWatermark - offset)
              | .buy => wrapI64 (newWatermark + offset)
            let oldStop := order.stopPrice
            -- the stop only ever moves towards the market
            let shouldUpdate := match order.side with
              | .sell => decide (newStop > oldStop)
              | .buy => decide (newStop < oldStop)
            if shouldUpdate then
              let sb := sb.updateStops order.side fun m ↦ pushId (removeId m oldStop id) newStop id
              { sb with
                orders := sb.orders.insert id
                  { order with stopPrice := newStop, watermark := some newWatermark } }
            else
              { sb with
                orders := sb.orders.insert id { order with watermark := some newWatermark } }
      | _, _ => sb

def updateTrailingStops (sb : StopBook) (tradePrice : Price) : StopBook :=
  let sb := sb.recordPrice tradePrice
  sb.trailingIds.foldl (updateTrailingStop tradePrice) sb

def clearHistory (sb : StopBook) : StopBook :=
  let orders := sb.orders.filter fun _ order ↦ order.status = .pending
  { sb with orders := orders, trailingIds := sb.trailingIds.filter orders.contains }

end StopBook

end Nanobook
