import Nanobook.PriceLevels

/-!
# The order book

`book.rs`: both sides, the table of all orders by id (historical ones included) and the three
counters.  `cancelOrder` is the only place that writes tombstones: it goes straight to the slot
recorded in the order, without looking at what the slot holds.
-/

namespace Nanobook

structure OrderBook where
  bids : PriceLevels
  asks : PriceLevels
  orders : OrdMap OrderId Order
  nextOrderId : OrderId
  nextTradeId : TradeId
  nextTimestamp : Timestamp
deriving DecidableEq

namespace OrderBook

/-- `OrderBook::new`. -/
def create : OrderBook where
  bids := PriceLevels.create .buy
  asks := PriceLevels.create .sell
  orders := OrdMap.empty
  nextOrderId := 1
  nextTradeId := 1
  nextTimestamp := 1

def getOrder (b : OrderBook) (orderId : OrderId) : Option Order := b.orders.get? orderId

def side (b : OrderBook) : Side → PriceLevels
  | .buy => b.bids
  | .sell => b.asks

/-- `side_mut`. -/
def updateSide (b : OrderBook) (s : Side) (f : PriceLevels → PriceLevels) : OrderBook :=
  match s with
  | .buy => { b with bids := f b.bids }
  | .sell => { b with asks := f b.asks }

def oppositeSide (b : OrderBook) (s : Side) : PriceLevels := b.side s.opposite

def bestBid (b : OrderBook) : Option Price := b.bids.bestPrice

def bestAsk (b : OrderBook) : Option Price := b.asks.bestPrice

/-- Rest an order on the book.  The source asserts that its id is new. -/
def addOrder (b : OrderBook) (order : Order) : OrderBook :=
  let inserted := (b.side order.side).insertOrder order.price order.id order.remainingQuantity
  let b := b.updateSide order.side fun _ ↦ inserted.1
  { b with orders := b.orders.insert order.id { order with positionInLevel := inserted.2 } }

/-- Cancel an active order: the book afterwards and the quantity cancelled. -/
def cancelOrder (b : OrderBook) (orderId : OrderId) : OrderBook × Option Quantity :=
  match b.orders.get? orderId with
  | none => (b, none)
  | some order =>
      if order.isActive then
        let b := { b with orders := b.orders.modify orderId Order.cancel }
        (b.updateSide order.side fun pl ↦
            pl.markTombstone order.price order.positionInLevel order.remainingQuantity,
          some order.remainingQuantity)
      else (b, none)

/-- A new order with the next id and timestamp; it is not added to the book. -/
def createOrder (b : OrderBook) (side : Side) (price : Price) (quantity : Quantity)
    (timeInForce : TimeInForce) : Order × OrderBook :=
  (Order.create b.nextOrderId side price quantity b.nextTimestamp timeInForce,
    { b with nextOrderId := b.nextOrderId + 1, nextTimestamp := b.nextTimestamp + 1 })

/-- Forget the orders that are no longer active, and say how many there were. -/
def clearHistory (b : OrderBook) : OrderBook × Nat :=
  let orders := b.orders.filter fun _ order ↦ order.isActive
  ({ b with orders := orders }, b.orders.size - orders.size)

def compact (b : OrderBook) : OrderBook :=
  { b with bids := b.bids.compact, asks := b.asks.compact }

/-! ## Looking up levels -/

/-- The level of one side at a price. -/
def level (b : OrderBook) (s : Side) (p : Price) : Option Level := (b.side s).getLevel p

/-- The sides do not depend on the orders and the counters. -/
@[simp] theorem side_mk (b : OrderBook) (orders : OrdMap OrderId Order) (i t ts : Nat) (s : Side) :
    (OrderBook.mk b.bids b.asks orders i t ts).side s = b.side s := by cases s <;> rfl

@[simp] theorem level_mk (b : OrderBook) (orders : OrdMap OrderId Order) (i t ts : Nat) (s : Side)
    (p : Price) : (OrderBook.mk b.bids b.asks orders i t ts).level s p = b.level s p := by
  cases s <;> rfl

@[simp] theorem side_updateSide (b : OrderBook) (s t : Side) (f : PriceLevels → PriceLevels) :
    (b.updateSide s f).side t = if t = s then f (b.side t) else b.side t := by
  cases s <;> cases t <;> rfl

@[simp] theorem orders_updateSide (b : OrderBook) (s : Side) (f : PriceLevels → PriceLevels) :
    (b.updateSide s f).orders = b.orders := by cases s <;> rfl

@[simp] theorem nextOrderId_updateSide (b : OrderBook) (s : Side)
    (f : PriceLevels → PriceLevels) : (b.updateSide s f).nextOrderId = b.nextOrderId := by
  cases s <;> rfl

@[simp] theorem nextTradeId_updateSide (b : OrderBook) (s : Side)
    (f : PriceLevels → PriceLevels) : (b.updateSide s f).nextTradeId = b.nextTradeId := by
  cases s <;> rfl

@[simp] theorem nextTimestamp_updateSide (b : OrderBook) (s : Side)
    (f : PriceLevels → PriceLevels) : (b.updateSide s f).nextTimestamp = b.nextTimestamp := by
  cases s <;> rfl

theorem updateSide_eq_self {b : OrderBook} {s : Side} {f : PriceLevels → PriceLevels}
    (h : f (b.side s) = b.side s) : b.updateSide s f = b := by
  cases s with
  | buy => simp only [side] at h; simp only [updateSide, h]
  | sell => simp only [side] at h; simp only [updateSide, h]

@[simp] theorem side_compact (b : OrderBook) (s : Side) :
    b.compact.side s = (b.side s).compact := by cases s <;> rfl

@[simp] theorem side_clearHistory (b : OrderBook) (s : Side) :
    b.clearHistory.1.side s = b.side s := by cases s <;> rfl

/-- What `cancelOrder` does to an active order. -/
theorem cancelOrder_of_active {b : OrderBook} {id : OrderId} {o : Order}
    (h : b.orders.get? id = some o) (ha : o.isActive = true) :
    b.cancelOrder id =
      (({ b with orders := b.orders.insert id o.cancel } : OrderBook).updateSide o.side fun pl ↦
          pl.markTombstone o.price o.positionInLevel o.remainingQuantity,
        some o.remainingQuantity) := by
  simp only [cancelOrder, h, ha, if_true, OrdMap.modify_eq_insert h]

/-- The levels after an active order was cancelled. -/
theorem level_cancelOrder {b : OrderBook} {id : OrderId} {o : Order}
    (h : b.orders.get? id = some o) (ha : o.isActive = true) (s : Side) (p : Price) :
    (b.cancelOrder id).1.level s p =
      if s = o.side ∧ p = o.price then
        ((b.level s p).map fun l ↦ l.markTombstone o.positionInLevel o.remainingQuantity).filter
          fun l ↦ !l.isEmpty
      else b.level s p := by
  rw [cancelOrder_of_active h ha, level, side_updateSide, side_mk]
  by_cases hs : s = o.side
  · subst hs
    simp only [if_true, true_and, PriceLevels.getLevel_markTombstone]
    rfl
  · simp only [hs, false_and, if_false]
    rfl

theorem orders_cancelOrder {b : OrderBook} {id : OrderId} {o : Order}
    (h : b.orders.get? id = some o) (ha : o.isActive = true) :
    (b.cancelOrder id).1.orders = b.orders.insert id o.cancel := by
  rw [cancelOrder_of_active h ha, orders_updateSide]

theorem side_cancelOrder_of_ne {b : OrderBook} {id : OrderId} {o : Order}
    (h : b.orders.get? id = some o) (ha : o.isActive = true) {s : Side} (hs : s ≠ o.side) :
    (b.cancelOrder id).1.side s = b.side s := by
  rw [cancelOrder_of_active h ha, side_updateSide, if_neg hs, side_mk]

theorem counters_cancelOrder {b : OrderBook} {id : OrderId} {o : Order}
    (h : b.orders.get? id = some o) (ha : o.isActive = true) :
    (b.cancelOrder id).1.nextTradeId = b.nextTradeId ∧
      (b.cancelOrder id).1.nextTimestamp = b.nextTimestamp := by
  rw [cancelOrder_of_active h ha, nextTradeId_updateSide, nextTimestamp_updateSide]
  exact ⟨rfl, rfl⟩

/-- An order that is missing or not active is left alone. -/
theorem cancelOrder_of_inactive {b : OrderBook} {id : OrderId}
    (h : ∀ o, b.orders.get? id = some o → o.isActive = false) : b.cancelOrder id = (b, none) := by
  simp only [cancelOrder]
  split
  · rfl
  · next o ho => rw [h o ho]; rfl

/-- Cancelling an order neither numbers a trade nor moves the clock. -/
theorem clock_cancelOrder (b : OrderBook) (id : OrderId) :
    (b.cancelOrder id).1.nextTradeId = b.nextTradeId ∧
      (b.cancelOrder id).1.nextTimestamp = b.nextTimestamp := by
  by_cases hact : ∃ o, b.orders.get? id = some o ∧ o.isActive = true
  · obtain ⟨o, ho, ha⟩ := hact
    exact counters_cancelOrder ho ha
  · rw [cancelOrder_of_inactive fun o ho ↦ by simpa using fun ha ↦ hact ⟨o, ho, ha⟩]
    exact ⟨rfl, rfl⟩

end OrderBook

end Nanobook
