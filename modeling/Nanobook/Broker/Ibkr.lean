import Nanobook.Lib.Dedup
import Nanobook.Portfolio.Arithmetic
import Nanobook.Rebalancer.Execution
import Nanobook.Text

/-!
# Limit orders at Interactive Brokers

`execute_limit_order`, `cancel_order` and `reconcile_filled_order` of `ibkr/orders.rs`: a limit
order is placed, what comes of it is read until it is filled or cancelled, and it is cancelled if
that takes too long.  The client library and the clock are up to the environment: a subscription is
what it delivers, each delivery with what is read from the clock while it is handled.  A
subscription that neither ends nor delivers anything makes its reader wait for ever, which is
`none`.

The lock of the cache is not modelled: nobody panics while holding it.
-/

namespace Nanobook.Ibkr

open Rebalancer (BrokerError BrokerSide OrderOutcome Symbol)

variable {F : Type} [F64 F]

/-! ## The client library -/

structure OrderCallbackKey where
  orderId : Int32
  status : String
  filledQuantity : Int64
deriving DecidableEq

/-- The times are those at which the callbacks were seen. -/
abbrev CallbackDedupCache := Dedup.Entries OrderCallbackKey

structure OrderStatus (F : Type) where
  status : String
  filled : F
  averageFillPrice : F

/-- The responses to a placed order. -/
inductive PlaceOrder (F : Type) where
  | orderStatus (status : OrderStatus F)
  | openOrder
  | executionData
  | commissionReport (commission : F)
  | message (code : Int32)

/-- A response and the readings of the clock, in nanoseconds: `start.elapsed()`, the time when an
entry of the cache is looked at, and the time when one is made. -/
structure Delivery (F : Type) where
  response : PlaceOrder F
  elapsed : Nat
  sweptAt : OrderCallbackKey → Nat
  storedAt : Nat

/-- `endElapsed` is `start.elapsed()` after the loop. -/
structure Subscription (F : Type) where
  deliveries : List (Delivery F)
  ends : Bool
  endElapsed : Nat
  forward : deliveries.Pairwise fun d e ↦ ∀ key, d.sweptAt key ≤ e.sweptAt key

/-- The responses to a request to cancel an order. -/
inductive CancelOrder where
  | orderStatus (status : String)
  | notice (message : String)

structure CancelSubscription where
  responses : List CancelOrder
  ends : Bool

/-- The reference is left as it is if there is no client order id. -/
structure IbOrder (F : Type) where
  action : BrokerSide
  quantity : F
  limitPrice : F
  orderRef : Option String

/-- Errors are the texts they are shown as. -/
structure Client (F : Type) where
  nextValidOrderId : Except String Int32
  placeOrder : Int32 → String → IbOrder F → Except String (Subscription F)
  cancelOrder : Int32 → Except String CancelSubscription

structure OrderResult (F : Type) where
  symbol : Symbol
  orderId : Int32
  filledShares : Int64
  avgFillPrice : F
  commission : F
  status : OrderOutcome

/-! ## Cancelling -/

def containsAny (text : String) (patterns : List String) : Bool := patterns.any (contains text)

/-- Read the answers to a cancel request. -/
def awaitCancel (orderId : Int32) (ends : Bool) :
    List CancelOrder → Option (Except BrokerError Unit)
  | [] => if ends then some (.ok ()) else none
  | .orderStatus status :: responses =>
      if status = "Cancelled" ∨ status = "Filled" then some (.ok ())
      else awaitCancel orderId ends responses
  | .notice message :: responses =>
      if containsAny (toLowercase message)
          ["cannot cancel", "already filled", "order completed", "no such order"] then
        some (.error (.cancelReject orderId message))
      else awaitCancel orderId ends responses

def cancelOrder (client : Client F) (orderId : Int32) : Option (Except BrokerError Unit) :=
  match client.cancelOrder orderId with
  | .ok subscription => awaitCancel orderId subscription.ends subscription.responses
  | .error e =>
      if containsAny (toLowercase e) ["already filled", "order completed", "no such order"] then
        some (.ok ())
      else
        some (.error (.order ("failed to cancel order " ++ toString orderId.toInt ++ ": " ++ e)))

/-- Whether a reason for which a cancel was rejected says that the order is filled. -/
def reconcileFilledOrder (_orderId : Int32) (rejectionReason : String) : Except BrokerError Bool :=
  .ok (containsAny (toLowercase rejectionReason) ["filled", "completed", "executed"])

/-! ## The loop -/

/-- `x as i64`. -/
def asI64 (x : F) : Int64 := Int64.ofInt (F64.toI64 x)

/-- `x > 0.0`. -/
def positive (x : F) : Bool := F64.lt (F64.ofInt 0) x

/-- What the loop knows of the order. -/
structure Progress (F : Type) where
  filled : F
  avgPrice : F
  commission : F
  finalStatus : OrderOutcome

def Progress.start : Progress F where
  filled := F64.ofInt 0
  avgPrice := F64.ofInt 0
  commission := F64.ofInt 0
  finalStatus := .failed

/-- How an order ends that is not filled. -/
def Progress.unfilled (s : Progress F) : OrderOutcome :=
  if positive s.filled then .partialFill else .cancelled

/-- How the loop goes on: with the next response, or not at all. -/
inductive Flow (F : Type) where
  | next (s : Progress F)
  | stop (result : Option (Except BrokerError (Progress F)))

/-- Five minutes. -/
def ttl : Nat := 300 * 10 ^ 9

def connectionLost (orderId : Int32) (filled : F) : BrokerError :=
  .connectionLost orderId (asI64 (F64.round filled))

section Loop

variable (cancel : Option (Except BrokerError Unit)) (orderId : Int32) (timeout : Nat)

/-- The order is cancelled, and the broker may say that it was filled before. -/
def onTimeout (s : Progress F) : Flow F :=
  match cancel with
  | none => .stop none
  | some (.error (.cancelReject oid reason)) =>
      match reconcileFilledOrder oid reason with
      | .ok true => .stop (some (.ok { s with finalStatus := .filled }))
      | _ => .stop (some (.ok { s with finalStatus := s.unfilled }))
  | some _ => .stop (some (.ok { s with finalStatus := s.unfilled }))

def callbackKey (status : OrderStatus F) : OrderCallbackKey where
  orderId := orderId
  status := status.status
  filledQuantity := asI64 (F64.round status.filled)

/-- Look a callback up in the cache, if there is one. -/
def isDuplicate (d : Delivery F) (status : OrderStatus F) :
    Option CallbackDedupCache → Bool × Option CallbackDedupCache
  | none => (false, none)
  | some cache =>
      let (duplicate, cache) :=
        Dedup.check ttl d.sweptAt d.storedAt (callbackKey orderId status) cache
      (duplicate, some cache)

def onStatus (s : Progress F) (status : OrderStatus F) : Flow F :=
  let s := { s with filled := status.filled, avgPrice := status.averageFillPrice }
  if status.status = "Filled" then .stop (some (.ok { s with finalStatus := .filled }))
  else if status.status = "Cancelled" then
    .stop (some (.ok { s with finalStatus := s.unfilled }))
  else .next s

/-- The codes that say that the connection is lost. -/
def isDisconnect (code : Int32) : Bool := code = 1100 || code = 1101 || code = 1102

def onMessage (s : Progress F) (code : Int32) : Flow F :=
  if code < 0 ∨ 2000 ≤ code then
    if isDisconnect code then .stop (some (.error (connectionLost orderId s.filled)))
    else .next s
  else .next s

def step (s : Progress F) (cache : Option CallbackDedupCache) (d : Delivery F) :
    Flow F × Option CallbackDedupCache :=
  if timeout < d.elapsed then (onTimeout cancel s, cache)
  else
    match d.response with
    | .orderStatus status =>
        match isDuplicate orderId d status cache with
        | (true, cache) => (.next s, cache)
        | (false, cache) => (onStatus s status, cache)
    | .executionData => (.next s, cache)
    | .commissionReport commission => (.next { s with commission := commission }, cache)
    | .message code => (onMessage orderId s code, cache)
    | .openOrder => (.next s, cache)

def loop (ends : Bool) (s : Progress F) (cache : Option CallbackDedupCache) :
    List (Delivery F) → Option (Except BrokerError (Progress F)) × Option CallbackDedupCache
  | [] => (if ends then some (.ok s) else none, cache)
  | d :: deliveries =>
      match step cancel orderId timeout s cache d with
      | (.next s, cache) => loop ends s cache deliveries
      | (.stop result, cache) => (result, cache)

end Loop

/-! ## Execution -/

/-- The result, unless the subscription seems to have been lost. -/
def finish (symbol : Symbol) (orderId : Int32) (timeout endElapsed : Nat) (s : Progress F) :
    Except BrokerError (OrderResult F) :=
  if s.finalStatus = .failed ∧ endElapsed < timeout ∧ positive s.filled then
    .error (connectionLost orderId s.filled)
  else
    .ok {
      symbol := symbol
      orderId := orderId
      filledShares := asI64 s.filled
      avgFillPrice := s.avgPrice
      commission := s.commission
      status := s.finalStatus }

/-- The arguments but for the client and the cache. -/
structure LimitOrder where
  symbol : Symbol
  side : BrokerSide
  shares : Int64
  limitPriceCents : Int64
  clientOrderId : Option String
  timeout : Nat

def LimitOrder.ibOrder (order : LimitOrder) : IbOrder F where
  action := order.side
  quantity := F64.ofInt order.shares.toInt
  limitPrice := F64.ofInt order.limitPriceCents.toInt / F64.ofInt 100
  orderRef := order.clientOrderId

/-- What is returned, and the cache. -/
def executeLimitOrder (client : Client F) (order : LimitOrder)
    (dedupCache : Option CallbackDedupCache) :
    Option (Except BrokerError (OrderResult F)) × Option CallbackDedupCache :=
  match client.nextValidOrderId with
  | .error e => (some (.error (.order ("failed to get order id: " ++ e))), dedupCache)
  | .ok orderId =>
      match client.placeOrder orderId order.symbol.asStr order.ibOrder with
      | .error e =>
          (some (.error (.order
            ("failed to place order " ++ toString orderId.toInt ++ ": " ++ e))), dedupCache)
      | .ok subscription =>
          let (result, cache) := loop (cancelOrder client orderId) orderId order.timeout
            subscription.ends Progress.start dedupCache subscription.deliveries
          (result.map fun result ↦
            result.bind (finish order.symbol orderId order.timeout subscription.endElapsed), cache)

end Nanobook.Ibkr
