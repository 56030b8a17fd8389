import Nanobook.Matching
import Nanobook.Stop

/-!
# Inputs and results of the exchange

The recorded inputs of `event.rs` and the result records of `result.rs`.
-/

namespace Nanobook

/-- An input recorded in the event log. -/
inductive Event where
  | submitLimit (side : Side) (price : Price) (quantity : Quantity) (timeInForce : TimeInForce)
  | submitMarket (side : Side) (quantity : Quantity)
  | cancel (orderId : OrderId)
  | modify (orderId : OrderId) (newPrice : Price) (newQuantity : Quantity)
  | submitStopMarket (side : Side) (stopPrice : Price) (quantity : Quantity)
  | submitStopLimit (side : Side) (stopPrice limitPrice : Price) (quantity : Quantity)
      (timeInForce : TimeInForce)
  | submitTrailingStopMarket (side : Side) (stopPrice : Price) (quantity : Quantity)
      (trailMethod : TrailMethod)
  | submitTrailingStopLimit (side : Side) (stopPrice limitPrice : Price) (quantity : Quantity)
      (timeInForce : TimeInForce) (trailMethod : TrailMethod)

structure SubmitResult where
  orderId : OrderId
  status : OrderStatus
  trades : List Trade
  filledQuantity : Quantity
  restingQuantity : Quantity
  cancelledQuantity : Quantity
deriving DecidableEq, Repr

inductive CancelError where
  | orderNotFound
  | orderNotActive
deriving DecidableEq, Repr

structure CancelResult where
  success : Bool
  cancelledQuantity : Quantity
  error : Option CancelError
deriving DecidableEq, Repr

namespace CancelResult

/-- `CancelResult::success`. -/
def succeeded (cancelledQuantity : Quantity) : CancelResult := ⟨true, cancelledQuantity, none⟩

/-- `CancelResult::failure`. -/
def failure (error : CancelError) : CancelResult := ⟨false, 0, some error⟩

end CancelResult

inductive ModifyError where
  | orderNotFound
  | orderNotActive
  | invalidQuantity
deriving DecidableEq, Repr

structure ModifyResult where
  success : Bool
  oldOrderId : OrderId
  newOrderId : Option OrderId
  cancelledQuantity : Quantity
  trades : List Trade
  error : Option ModifyError
deriving DecidableEq, Repr

namespace ModifyResult

/-- `ModifyResult::success`. -/
def succeeded (oldOrderId newOrderId : OrderId) (cancelledQuantity : Quantity)
    (trades : List Trade) : ModifyResult :=
  ⟨true, oldOrderId, some newOrderId, cancelledQuantity, trades, none⟩

/-- `ModifyResult::failure`. -/
def failure (oldOrderId : OrderId) (error : ModifyError) : ModifyResult :=
  ⟨false, oldOrderId, none, 0, [], some error⟩

end ModifyResult

structure StopSubmitResult where
  orderId : OrderId
  status : StopStatus
deriving DecidableEq, Repr

end Nanobook
