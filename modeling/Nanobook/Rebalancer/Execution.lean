import Mathlib.Data.List.Induction
import Nanobook.Lib.Retry
import Nanobook.Rebalancer.RoundTrip

/-!
# Executing an order

`execute_order_with_write_ahead`: the intent is logged, the order is given to the broker gateway,
again after an error that counts as transient, and what came of it is logged.  What the gateway
answers is up to the environment.  Waiting between two attempts is left out.
-/

namespace Nanobook.Rebalancer

/-! ## The gateway -/

inductive OrderOutcome where
  | filled
  | partialFill
  | cancelled
  | failed
deriving DecidableEq, Repr

structure OrderResult where
  symbol : Symbol
  orderId : Int32
  filledShares : Int64
  avgFillPrice : ℚ
  commission : ℚ
  status : OrderOutcome
deriving DecidableEq

/-- Errors of a broker.  A value that is not finite or does not fit is kept as the text it is shown
as. -/
inductive BrokerError where
  | connection (message : String)
  | order (message : String)
  | notConnected
  | invalidSymbol (message : String)
  | auth (message : String)
  | rateLimit
  | noQuoteForMarketOrder (symbol : String)
  | marketOrderRejected
  | nonFiniteValue (field value : String)
  | valueOutOfRange (field value : String)
  | cancelReject (orderId : Int32) (reason : String)
  | connectionLost (orderId : Int32) (filledQuantity : Int64)
  | reconnectFailed (attempts : Nat) (reason : String)
  | duplicateOrder (clientOrderId : String)
  | other (message : String)
deriving DecidableEq, Repr

namespace BrokerError

def toText : BrokerError → String
  | connection message => "connection error: " ++ message
  | order message => "order error: " ++ message
  | notConnected => "not connected"
  | invalidSymbol message => "invalid symbol: " ++ message
  | auth message => "authentication error: " ++ message
  | rateLimit => "rate limit exceeded"
  | noQuoteForMarketOrder symbol => "market order rejected: no NBBO quote available for " ++ symbol
  | marketOrderRejected => "market orders are disabled (strict-market-reject feature)"
  | nonFiniteValue field value => field ++ " received non-finite value: " ++ value
  | valueOutOfRange field value => field ++ " out of i64 range after scaling: " ++ value
  | cancelReject orderId reason =>
      "cancel rejected for order " ++ toString orderId.toInt ++ ": " ++ reason
  | connectionLost orderId filledQuantity =>
      "connection lost during order execution (order_id=" ++ toString orderId.toInt ++
        ", filled_quantity=" ++ toString filledQuantity.toInt ++ ")"
  | reconnectFailed attempts reason =>
      "reconnect failed after " ++ toString attempts ++ " attempts: " ++ reason
  | duplicateOrder clientOrderId => "duplicate order with client_order_id: " ++ clientOrderId
  | other message => message

end BrokerError

/-- The arguments of `execute_limit_order`. -/
structure LimitOrderRequest where
  symbol : Symbol
  side : BrokerSide
  shares : Nat
  limitPriceCents : Int64
  clientOrderId : Option String
  timeout : Nat
deriving DecidableEq

/-- What the gateway answers when it is asked to execute a limit order. -/
abbrev Response := Except BrokerError OrderResult

/-- The gateway: what it is going to answer, and the calls it got with its answers. -/
structure BrokerGateway where
  responses : Nat → Response
  calls : List (LimitOrderRequest × Response)

def BrokerGateway.executeLimitOrder (broker : BrokerGateway) (request : LimitOrderRequest) :
    Response × BrokerGateway :=
  (broker.responses 0,
    { responses := fun n ↦ broker.responses (n + 1)
      calls := broker.calls ++ [(request, broker.responses 0)] })

/-! ## Execution with retries -/

/-- Errors after which the order is given to the gateway again. -/
def isTransientError : BrokerError → Bool
  | .connection _ => true
  | .notConnected => true
  | .rateLimit => true
  | .connectionLost _ _ => true
  | .reconnectFailed _ _ => true
  | .invalidSymbol _ => false
  | .auth _ => false
  | .order _ => false
  | .duplicateOrder _ => false
  | .cancelReject _ _ => false
  | .nonFiniteValue _ _ => false
  | .valueOutOfRange _ _ => false
  | .noQuoteForMarketOrder _ => false
  | .marketOrderRejected => false
  | .other _ => false

def Response.callsForRetry : Response → Bool
  | .ok _ => false
  | .error e => isTransientError e

/-- Errors of the rebalancer: a number of shares that is negative, a message about an order, and an
audit log that could not be written. -/
inductive ExecutionError where
  | invalidShareQuantity (shares : Int64)
  | order (message : String)
  | audit
deriving DecidableEq

def maxRetries : Nat := 5

section Execute

variable (div : CentDivision) (order : RebalanceOrder) (clientOrderId : String)
  (sequenceNumber : Nat)

/-- The request every attempt makes. -/
def limitOrderRequest (timeout : Nat) : LimitOrderRequest where
  symbol := order.symbol
  side := actionToSide order.action
  shares := order.shares.toInt.toNat
  limitPriceCents := order.limitPriceCents
  clientOrderId := some clientOrderId
  timeout := timeout

def failureContext : String :=
  "symbol:" ++ order.symbol.asStr ++ ", client_order_id:" ++ clientOrderId

/-- Log a failure and return an error, which is that of the log where its write fails. -/
def failOrder (audit : AuditLog) (errorType errorMessage message : String) :
    Except ExecutionError OrderResult × AuditLog :=
  match logOrderFailedCheckpoint audit (sequenceNumber + 1) errorType errorMessage
      (failureContext order clientOrderId) with
  | (true, audit) => (.error (.order message), audit)
  | (false, audit) => (.error .audit, audit)

/-- What an answer leads to if there is no attempt after it. -/
def finishOrder (audit : AuditLog) : Response → Except ExecutionError OrderResult × AuditLog
  | .ok result =>
      match logOrderSubmittedCheckpoint div audit (sequenceNumber + 1) order result.orderId with
      | (true, audit) => (.ok result, audit)
      | (false, audit) => (.error .audit, audit)
  | .error e =>
      if isTransientError e then
        failOrder order clientOrderId sequenceNumber audit "max_retries_exceeded"
          (e.toText ++ " (attempts: " ++ toString maxRetries ++ ")")
          ("order failed after " ++ toString maxRetries ++ " retries: " ++ e.toText)
      else
        failOrder order clientOrderId sequenceNumber audit "permanent_error" e.toText
          ("order failed: " ++ e.toText)

/-- The retry loop, with the number of attempts that may follow this one. -/
def attemptOrder (timeout : Nat) (broker : BrokerGateway) (audit : AuditLog) :
    Nat → Except ExecutionError OrderResult × BrokerGateway × AuditLog
  | 0 =>
      let (response, broker) :=
        broker.executeLimitOrder (limitOrderRequest order clientOrderId timeout)
      let (result, audit) := finishOrder div order clientOrderId sequenceNumber audit response
      (result, broker, audit)
  | retriesLeft + 1 =>
      let (response, broker) :=
        broker.executeLimitOrder (limitOrderRequest order clientOrderId timeout)
      if response.callsForRetry then attemptOrder timeout broker audit retriesLeft
      else
        let (result, audit) := finishOrder div order clientOrderId sequenceNumber audit response
        (result, broker, audit)

/-- The intent is logged before the first attempt, at the time `timestamp`. -/
def executeOrderWithWriteAhead (broker : BrokerGateway) (audit : AuditLog) (timeout : Nat)
    (timestamp targetSpec : String) :
    Except ExecutionError OrderResult × BrokerGateway × AuditLog :=
  if order.shares < 0 then (.error (.invalidShareQuantity order.shares), broker, audit)
  else
    match logOrderIntentCheckpoint div audit sequenceNumber order clientOrderId timestamp targetSpec
        ("rebalance_run:" ++ toString sequenceNumber) with
    | (false, audit) => (.error .audit, broker, audit)
    | (true, audit) =>
        attemptOrder div order clientOrderId sequenceNumber timeout broker audit (maxRetries - 1)

end Execute

/-! ## One order, one submission -/

/-- The order was placed: the gateway gave a result, or lost the connection to an order with an
id. -/
def Response.isPlaced : Response → Bool
  | .ok _ => true
  | .error (.connectionLost _ _) => true
  | .error _ => false

def Response.isConnectionLost : Response → Bool
  | .error (.connectionLost _ _) => true
  | _ => false

/-- No call follows one that lost the connection. -/
def NoCallAfterLoss (calls : List (LimitOrderRequest × Response)) : Prop :=
  ∀ before c after, calls = before ++ c :: after → c.2.isConnectionLost = true → after = []

/-- The shares of the orders that were placed. -/
def placedShares (calls : List (LimitOrderRequest × Response)) : Nat :=
  ((calls.filter fun c ↦ c.2.isPlaced).map fun c ↦ c.1.shares).sum

section Submission

variable {div : CentDivision} {order : RebalanceOrder} {clientOrderId : String}
  {sequenceNumber timeout : Nat} {broker : BrokerGateway} {audit : AuditLog}
  {timestamp targetSpec : String}

theorem callsForRetry_of_isConnectionLost {r : Response} (h : r.isConnectionLost = true) :
    r.callsForRetry = true := by
  unfold Response.isConnectionLost at h
  split at h
  · rfl
  · cases h

theorem attemptOrder_of_callsForRetry {n : Nat} (h : (broker.responses 0).callsForRetry = true) :
    attemptOrder div order clientOrderId sequenceNumber timeout broker audit (n + 1) =
      attemptOrder div order clientOrderId sequenceNumber timeout
        (broker.executeLimitOrder (limitOrderRequest order clientOrderId timeout)).2 audit n :=
  if_pos h

theorem attemptOrder_of_not_callsForRetry {n : Nat}
    (h : (broker.responses 0).callsForRetry = false) :
    attemptOrder div order clientOrderId sequenceNumber timeout broker audit n =
      ((finishOrder div order clientOrderId sequenceNumber audit (broker.responses 0)).1,
        (broker.executeLimitOrder (limitOrderRequest order clientOrderId timeout)).2,
        (finishOrder div order clientOrderId sequenceNumber audit (broker.responses 0)).2) := by
  cases n with
  | zero => rfl
  | succ n => exact if_neg (Bool.eq_false_iff.mp h)

/-- The answer an order ends with. -/
def finalResponse (retriesLeft : Nat) (responses : Nat → Response) : Response :=
  (Retry.answers Response.callsForRetry retriesLeft responses).getLast Retry.answers_ne_nil

/-- The last answer decides what an order comes to; no other leads to a line in the log. -/
theorem attemptOrder_eq_finishOrder (n : Nat) :
    (attemptOrder div order clientOrderId sequenceNumber timeout broker audit n).1 =
        (finishOrder div order clientOrderId sequenceNumber audit
          (finalResponse n broker.responses)).1 ∧
      (attemptOrder div order clientOrderId sequenceNumber timeout broker audit n).2.2 =
        (finishOrder div order clientOrderId sequenceNumber audit
          (finalResponse n broker.responses)).2 := by
  induction n generalizing broker with
  | zero => exact ⟨rfl, rfl⟩
  | succ n ih =>
      cases h : (broker.responses 0).callsForRetry with
      | true =>
          rw [attemptOrder_of_callsForRetry h, finalResponse, Retry.getLast_of_again h]
          exact ih
      | false =>
          rw [attemptOrder_of_not_callsForRetry h, finalResponse, Retry.getLast_of_not_again h]
          exact ⟨rfl, rfl⟩

/-- Every attempt makes the same request, and gets the next answer. -/
theorem calls_attemptOrder (n : Nat) :
    (attemptOrder div order clientOrderId sequenceNumber timeout broker audit n).2.1.calls =
      broker.calls ++ (Retry.answers Response.callsForRetry n broker.responses).map
        fun r ↦ (limitOrderRequest order clientOrderId timeout, r) := by
  induction n generalizing broker with
  | zero => rfl
  | succ n ih =>
      cases h : (broker.responses 0).callsForRetry with
      | true =>
          rw [attemptOrder_of_callsForRetry h, ih, Retry.answers_of_again h, List.map_cons,
            List.append_cons]
          rfl
      | false =>
          rw [attemptOrder_of_not_callsForRetry h, Retry.answers_of_not_again h]
          rfl

theorem noCallAfterLoss_iff {calls : List (LimitOrderRequest × Response)} :
    NoCallAfterLoss calls ↔ ∀ c ∈ calls.dropLast, c.2.isConnectionLost = false := by
  induction calls using List.reverseRecOn with
  | nil => simp [NoCallAfterLoss]
  | append_singleton calls last ih =>
      rw [List.dropLast_concat]
      constructor
      · intro h c hc
        obtain ⟨before, after, rfl⟩ := List.append_of_mem hc
        by_contra hloss
        have := h before c (after ++ [last]) (by simp) (by simpa using hloss)
        simp at this
      · intro h before c after heq hloss
        cases after using List.reverseRecOn with
        | nil => rfl
        | append_singleton after x =>
            rw [← List.cons_append, ← List.append_assoc] at heq
            obtain ⟨rfl, -⟩ := List.append_inj' heq rfl
            exact absurd (h c (by simp)) (by simp [hloss])

theorem isPlaced_of_callsForRetry {r : Response} (h : r.callsForRetry = true)
    (hloss : r.isConnectionLost = false) : r.isPlaced = false := by
  cases r with
  | ok result => cases h
  | error e => cases e <;> simp_all [Response.isPlaced, Response.isConnectionLost]

/-- Where every call but the last is made again, only the last can be an order that was placed, or
one that lost the connection is called again. -/
theorem placedShares_le {calls : List (LimitOrderRequest × Response)} {n : Nat}
    (hshares : ∀ c ∈ calls, c.1.shares = n)
    (hretry : ∀ c ∈ calls.dropLast, c.2.callsForRetry = true) (h : NoCallAfterLoss calls) :
    placedShares calls ≤ n := by
  rw [noCallAfterLoss_iff] at h
  cases calls using List.reverseRecOn with
  | nil => exact Nat.zero_le n
  | append_singleton calls last =>
      rw [List.dropLast_concat] at h hretry
      have hnone : (calls.filter fun c ↦ c.2.isPlaced) = [] := by
        rw [List.filter_eq_nil_iff]
        intro c hc
        simp [isPlaced_of_callsForRetry (hretry c hc) (h c hc)]
      have hlast : last.1.shares = n := hshares last (by simp)
      rw [placedShares, List.filter_append, hnone, List.nil_append]
      by_cases hplaced : last.2.isPlaced = true
      · simp [hplaced, hlast]
      · simp [hplaced]

/-- A gateway without calls so far. -/
def BrokerGateway.new (responses : Nat → Response) : BrokerGateway := ⟨responses, []⟩

theorem executeOrderWithWriteAhead_of_not_submitted
    (h : order.shares < 0 ∨ audit.accepts = false) :
    (executeOrderWithWriteAhead div order clientOrderId sequenceNumber broker audit timeout
      timestamp
      targetSpec).2.1 = broker := by
  simp only [executeOrderWithWriteAhead]
  split_ifs with hshares
  · rfl
  · have haudit : (audit.writer 0).1.succeeded = false := h.resolve_left hshares
    simp only [logOrderIntentCheckpoint, AuditLog.logCheckpoint, AuditLog.append, haudit]

/-- The calls for an order whose intent was logged. -/
theorem calls_executeOrderWithWriteAhead (hshares : ¬ order.shares < 0)
    (haudit : audit.accepts = true) :
    (executeOrderWithWriteAhead div order clientOrderId sequenceNumber broker audit timeout
      timestamp
      targetSpec).2.1.calls =
      broker.calls ++ (Retry.answers Response.callsForRetry (maxRetries - 1) broker.responses).map
        fun r ↦ (limitOrderRequest order clientOrderId timeout, r) := by
  have haudit : (audit.writer 0).1.succeeded = true := haudit
  simp only [executeOrderWithWriteAhead, if_neg hshares, logOrderIntentCheckpoint,
    AuditLog.logCheckpoint, AuditLog.append, haudit]
  exact calls_attemptOrder _

/-- Among the answers to an order, no call follows a loss exactly if each loss that could be called
again comes after the end of the attempts. -/
theorem noCallAfterLoss_answers_iff (request : LimitOrderRequest) (n : Nat)
    (responses : Nat → Response) :
    NoCallAfterLoss ((Retry.answers Response.callsForRetry n responses).map fun r ↦ (request, r)) ↔
      ∀ i < n, (responses i).isConnectionLost = true →
        ∃ j < i, (responses j).callsForRetry = false := by
  rw [noCallAfterLoss_iff, ← List.map_dropLast, List.forall_mem_map]
  refine (Retry.forall_mem_dropLast_answers
    (P := fun r ↦ Response.isConnectionLost r = false)).trans ?_
  refine forall₂_congr fun i _ ↦ ⟨fun h hloss ↦ ?_, fun h hagain ↦ ?_⟩
  · by_contra! hnone
    have hagain : ∀ j ≤ i, (responses j).callsForRetry = true := by
      intro j hj
      rcases Nat.lt_or_eq_of_le hj with hlt | rfl
      · exact Bool.eq_true_of_not_eq_false (hnone j hlt)
      · exact callsForRetry_of_isConnectionLost hloss
    exact absurd (h hagain) (by simp [hloss])
  · by_contra hloss
    obtain ⟨j, hj, hend⟩ := h (Bool.eq_true_of_not_eq_false hloss)
    exact absurd (hagain j hj.le) (by simp [hend])

/-- For every order and every sequence of answers, no call is made after one that lost the
connection and no more is placed than the shares of the order, exactly if no call is made at all, as
the shares are negative or the intent cannot be logged, or each of the first four answers that lost
the connection comes after one that ended the attempts. -/
theorem executeOrderWithWriteAhead_once_iff (responses : Nat → Response) :
    (NoCallAfterLoss (executeOrderWithWriteAhead div order clientOrderId sequenceNumber
        (.new responses) audit timeout timestamp targetSpec).2.1.calls ∧
      placedShares (executeOrderWithWriteAhead div order clientOrderId sequenceNumber
        (.new responses) audit timeout timestamp targetSpec).2.1.calls ≤ order.shares.toInt.toNat) ↔
      order.shares < 0 ∨ audit.accepts = false ∨
        ∀ i < maxRetries - 1, (responses i).isConnectionLost = true →
          ∃ j < i, (responses j).callsForRetry = false := by
  by_cases hnone : order.shares < 0 ∨ audit.accepts = false
  · rw [executeOrderWithWriteAhead_of_not_submitted hnone]
    refine iff_of_true ⟨?_, Nat.zero_le _⟩ (hnone.imp_right .inl)
    exact noCallAfterLoss_iff.mpr fun c hc ↦ absurd hc List.not_mem_nil
  obtain ⟨hshares, haudit⟩ := not_or.mp hnone
  rw [Bool.not_eq_false] at haudit
  rw [calls_executeOrderWithWriteAhead hshares haudit, BrokerGateway.new, List.nil_append,
    ← noCallAfterLoss_answers_iff (limitOrderRequest order clientOrderId timeout)]
  simp only [hshares, haudit, false_or, Bool.true_eq_false, and_iff_left_iff_imp]
  refine placedShares_le (fun c hc ↦ ?_) fun c hc ↦ ?_
  · obtain ⟨r, -, rfl⟩ := List.mem_map.mp hc
    rfl
  · rw [← List.map_dropLast] at hc
    obtain ⟨r, hr, rfl⟩ := List.mem_map.mp hc
    exact Retry.again_of_mem_dropLast hr

/-! ## An order that is placed twice -/

/-- Half of the order is filled when the connection is lost; the next attempt fills all of it. -/
def lostThenFilled : Nat → Response
  | 0 => .error (.connectionLost 7 5)
  | _ => .ok ⟨(buyAapl 15025).order.symbol, 8, 10, mkRat 15025 100, mkRat 1 1, .filled⟩

/-- An order for 10 shares places 20. -/
theorem executeOrderWithWriteAhead_twice :
    placedShares (executeOrderWithWriteAhead .exact (buyAapl 15025).order "a1" 3
      (.new lostThenFilled) .empty 30 "" "").2.1.calls = 20 ∧
    ¬ NoCallAfterLoss (executeOrderWithWriteAhead .exact (buyAapl 15025).order "a1" 3
      (.new lostThenFilled) .empty 30 "" "").2.1.calls := by
  rw [noCallAfterLoss_iff]
  decide +kernel

end Submission

end Nanobook.Rebalancer
