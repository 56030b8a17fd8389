import Nanobook.Types

/-!
# Orders and their lifecycle

`order.rs`: the order record with its status, and the three ways its quantities change.  The
source asserts that a fill or a decrement stays within the remaining quantity and that only an
active order is cancelled; every caller checks this right before the call.
-/

namespace Nanobook

inductive OrderStatus where
  | new
  | partiallyFilled
  | filled
  | cancelled
deriving DecidableEq, Repr

namespace OrderStatus

def isActive : OrderStatus → Bool
  | new | partiallyFilled => true
  | filled | cancelled => false

end OrderStatus

structure Order where
  id : OrderId
  side : Side
  price : Price
  originalQuantity : Quantity
  remainingQuantity : Quantity
  filledQuantity : Quantity
  timestamp : Timestamp
  timeInForce : TimeInForce
  status : OrderStatus
  owner : Option OrderOwner
  /-- The index in the level's queue, recorded when the order is added. -/
  positionInLevel : Nat
deriving DecidableEq, Repr

namespace Order

/-- `Order::new`. -/
def create (id : OrderId) (side : Side) (price : Price) (quantity : Quantity)
    (timestamp : Timestamp) (timeInForce : TimeInForce) : Order where
  id := id
  side := side
  price := price
  originalQuantity := quantity
  remainingQuantity := quantity
  filledQuantity := 0
  timestamp := timestamp
  timeInForce := timeInForce
  status := .new
  owner := none
  positionInLevel := 0

def isActive (o : Order) : Bool := o.status.isActive

/-- Lower the remaining quantity without recording a fill. -/
def stpDecrement (o : Order) (quantity : Quantity) : Order :=
  let remaining := o.remainingQuantity - quantity
  { o with
    remainingQuantity := remaining
    status := if remaining = 0 then .cancelled else o.status }

def fill (o : Order) (quantity : Quantity) : Order :=
  let remaining := o.remainingQuantity - quantity
  { o with
    remainingQuantity := remaining
    filledQuantity := o.filledQuantity + quantity
    status := if remaining = 0 then .filled else .partiallyFilled }

def cancel (o : Order) : Order :=
  { o with remainingQuantity := 0, status := .cancelled }

/-! ## What never changes -/

/-- `o'` is `o` at a later point of its life: only its quantities and its status may differ. -/
structure SameOrder (o o' : Order) : Prop where
  id : o'.id = o.id
  side : o'.side = o.side
  price : o'.price = o.price
  originalQuantity : o'.originalQuantity = o.originalQuantity
  timestamp : o'.timestamp = o.timestamp
  timeInForce : o'.timeInForce = o.timeInForce
  owner : o'.owner = o.owner
  positionInLevel : o'.positionInLevel = o.positionInLevel

theorem SameOrder.refl (o : Order) : SameOrder o o :=
  ⟨rfl, rfl, rfl, rfl, rfl, rfl, rfl, rfl⟩

theorem SameOrder.trans {o o' o'' : Order} (h : SameOrder o o') (h' : SameOrder o' o'') :
    SameOrder o o'' where
  id := h'.id.trans h.id
  side := h'.side.trans h.side
  price := h'.price.trans h.price
  originalQuantity := h'.originalQuantity.trans h.originalQuantity
  timestamp := h'.timestamp.trans h.timestamp
  timeInForce := h'.timeInForce.trans h.timeInForce
  owner := h'.owner.trans h.owner
  positionInLevel := h'.positionInLevel.trans h.positionInLevel

theorem sameOrder_fill (o : Order) (q : Quantity) : SameOrder o (o.fill q) :=
  ⟨rfl, rfl, rfl, rfl, rfl, rfl, rfl, rfl⟩

theorem sameOrder_stpDecrement (o : Order) (q : Quantity) : SameOrder o (o.stpDecrement q) :=
  ⟨rfl, rfl, rfl, rfl, rfl, rfl, rfl, rfl⟩

theorem sameOrder_cancel (o : Order) : SameOrder o o.cancel :=
  ⟨rfl, rfl, rfl, rfl, rfl, rfl, rfl, rfl⟩

/-- The status tells whether something is left, as it does for an order queued in a level. -/
def Settled (o : Order) : Prop := o.isActive = true ↔ 0 < o.remainingQuantity

theorem settled_fill (o : Order) (q : Quantity) : (o.fill q).Settled := by
  simp only [Settled, fill, isActive]
  split_ifs with h
  · simp [h, OrderStatus.isActive]
  · simp only [OrderStatus.isActive, true_iff]
    exact Nat.pos_of_ne_zero h

theorem settled_cancel (o : Order) : o.cancel.Settled := by
  simp [Settled, cancel, isActive, OrderStatus.isActive]

@[simp] theorem fill_remainingQuantity (o : Order) (q : Quantity) :
    (o.fill q).remainingQuantity = o.remainingQuantity - q := rfl

@[simp] theorem stpDecrement_remainingQuantity (o : Order) (q : Quantity) :
    (o.stpDecrement q).remainingQuantity = o.remainingQuantity - q := rfl

end Order

end Nanobook
