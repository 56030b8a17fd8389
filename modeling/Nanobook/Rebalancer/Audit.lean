import Nanobook.Rebalancer.Types

/-!
# The audit log

`audit.rs`: the checkpoints of a run, with write-ahead logging, and the functions that log them.
The line of an event is appended to the log or its write fails, which may leave the line in the log;
what the writer answers, and when, is up to the environment.
-/

namespace Nanobook.Rebalancer

abbrev Timestamp := Int

/-! ## Checkpoints -/

inductive Checkpoint where
  | runStarted
  | positionsIntent
  | positionsFetched
  | positionsResult
  | diffComputed
  | riskCheckPassed
  | orderIntent
  | orderSubmitted
  | orderFailed
  | orderFilled
  | quotesIntent
  | quotesResult
  | accountSummaryIntent
  | accountSummaryResult
  | cancelIntent
  | cancelResult
  | runCompleted
deriving DecidableEq, Repr

namespace Checkpoint

def asEventName : Checkpoint → String
  | runStarted => "run_started"
  | positionsIntent => "positions_intent"
  | positionsFetched => "positions_fetched"
  | positionsResult => "positions_result"
  | diffComputed => "diff_computed"
  | riskCheckPassed => "risk_check_passed"
  | orderIntent => "order_intent"
  | orderSubmitted => "order_submitted"
  | orderFailed => "order_failed"
  | orderFilled => "order_filled"
  | quotesIntent => "quotes_intent"
  | quotesResult => "quotes_result"
  | accountSummaryIntent => "account_summary_intent"
  | accountSummaryResult => "account_summary_result"
  | cancelIntent => "cancel_intent"
  | cancelResult => "cancel_result"
  | runCompleted => "run_completed"

def fromEventName (name : String) : Option Checkpoint :=
  match name with
  | "run_started" => some runStarted
  | "positions_intent" => some positionsIntent
  | "positions_fetched" => some positionsFetched
  | "positions_result" => some positionsResult
  | "diff_computed" => some diffComputed
  | "risk_check_passed" => some riskCheckPassed
  | "order_intent" => some orderIntent
  | "order_submitted" => some orderSubmitted
  | "order_failed" => some orderFailed
  | "order_filled" => some orderFilled
  | "quotes_intent" => some quotesIntent
  | "quotes_result" => some quotesResult
  | "account_summary_intent" => some accountSummaryIntent
  | "account_summary_result" => some accountSummaryResult
  | "cancel_intent" => some cancelIntent
  | "cancel_result" => some cancelResult
  | "run_completed" => some runCompleted
  | _ => none

@[simp] theorem fromEventName_asEventName (c : Checkpoint) :
    fromEventName c.asEventName = some c := by
  cases c <;> decide

end Checkpoint

/-! ## The log -/

/-- An event as recovery reads it back, with the data that is flattened into its line. -/
structure AuditEvent where
  event : String
  ts : Timestamp
  sequenceNumber : Option Nat
  windowId : Option String
  data : Json

/-- The checkpoint an event is logged for, if it is one. -/
def AuditEvent.checkpoint (e : AuditEvent) : Option Checkpoint := Checkpoint.fromEventName e.event

/-- The event a checkpoint is logged as. -/
def checkpointEvent (checkpoint : Checkpoint) (ts : Timestamp) (sequenceNumber : Nat)
    (data : Json) :
    AuditEvent :=
  ⟨checkpoint.asEventName, ts, some sequenceNumber, none, data⟩

@[simp] theorem checkpoint_checkpointEvent (c : Checkpoint) (ts : Timestamp) (n : Nat)
    (data : Json) :
    (checkpointEvent c ts n data).checkpoint = some c :=
  Checkpoint.fromEventName_asEventName c

/-- How a write ends: with its line in the log, without it, or with an error although the line got
into the log. -/
inductive WriteOutcome where
  | written
  | failed
  | unsynced
deriving DecidableEq, Repr

namespace WriteOutcome

def succeeded : WriteOutcome → Bool
  | written => true
  | failed | unsynced => false

def leavesLine : WriteOutcome → Bool
  | written | unsynced => true
  | failed => false

end WriteOutcome

/-- The log, with what its writer is going to answer: how a write ends, and at what time. -/
structure AuditLog where
  events : List AuditEvent
  writer : Nat → WriteOutcome × Timestamp

namespace AuditLog

/-- Whether the next write succeeds. -/
def accepts (audit : AuditLog) : Bool := (audit.writer 0).1.succeeded

/-- Write the line of an event that happens at the time of the write. -/
def append (audit : AuditLog) (event : Timestamp → AuditEvent) : Bool × AuditLog :=
  let (outcome, ts) := audit.writer 0
  (outcome.succeeded,
    { events := if outcome.leavesLine then audit.events ++ [event ts] else audit.events
      writer := fun n ↦ audit.writer (n + 1) })

/-- The line of a write, where it gets into the log. -/
theorem events_append (audit : AuditLog) (event : Timestamp → AuditEvent) :
    (audit.append event).2.events =
      audit.events ++ if (audit.writer 0).1.leavesLine then [event (audit.writer 0).2] else [] := by
  simp only [append]
  split_ifs
  · rfl
  · exact (List.append_nil _).symm

def logCheckpoint (audit : AuditLog) (checkpoint : Checkpoint) (sequenceNumber : Nat)
    (data : Json) :
    Bool × AuditLog :=
  audit.append fun ts ↦ checkpointEvent checkpoint ts sequenceNumber data

/-- Log an event that may carry a sequence number and a window id without being a checkpoint. -/
def logWithIdempotency (audit : AuditLog) (event : String) (sequenceNumber : Option Nat)
    (windowId : Option String) (data : Json) : Bool × AuditLog :=
  audit.append fun ts ↦ ⟨event, ts, sequenceNumber, windowId, data⟩

def log (audit : AuditLog) (event : String) (data : Json) : Bool × AuditLog :=
  audit.logWithIdempotency event none none data

def logSimple (audit : AuditLog) (event : String) : Bool × AuditLog := audit.log event (.obj [])

end AuditLog

/-! ## What is logged -/

section Log

variable (div : CentDivision)

def positionData (p : CurrentPosition) : Json :=
  .obj [("symbol", .str p.symbol.asStr), ("qty", .i64 p.quantity),
    ("avg_cost", .float (div.dollars p.avgCostCents))]

def positionsResultData (positions : List CurrentPosition) (equityCents : Int64) : Json :=
  .obj [("positions", .arr (positions.map (positionData div))),
    ("equity", .float (div.dollars equityCents))]

def diffOrderData (o : RebalanceOrder) : Json :=
  .obj [("symbol", .str o.symbol.asStr), ("action", .str o.action.toText),
  ("shares", .i64 o.shares),
    ("limit", .float (div.dollars o.limitPriceCents)), ("description", .str o.description)]

def diffData (orders : List RebalanceOrder) : Json :=
  .obj [("orders", .arr (orders.map (diffOrderData div)))]

/-- Besides the order, its client order id and where the intent comes from. -/
def orderIntentData (order : RebalanceOrder) (clientOrderId timestamp targetSpecReference
    executionContext : String) : Json :=
  .obj [("symbol", .str order.symbol.asStr), ("action", .str order.action.toText),
    ("shares", .i64 order.shares), ("limit", .float (div.dollars order.limitPriceCents)),
    ("client_order_id", .str clientOrderId), ("timestamp", .str timestamp),
    ("target_spec_reference", .str targetSpecReference),
    ("execution_context", .str executionContext)]

def orderSubmittedData (order : RebalanceOrder) (ibkrId : Int32) : Json :=
  .obj [("symbol", .str order.symbol.asStr), ("action", .str order.action.toText),
    ("shares", .i64 order.shares), ("limit", .float (div.dollars order.limitPriceCents)),
    ("ibkr_id", .int ibkrId.toInt)]

def orderFailedData (errorType errorMessage context : String) : Json :=
  .obj [("error_type", .str errorType), ("error_message", .str errorMessage),
    ("context", .str context)]

def logPositionsResultCheckpoint (audit : AuditLog) (sequenceNumber : Nat)
    (positions : List CurrentPosition) (equityCents : Int64) : Bool × AuditLog :=
  audit.logCheckpoint .positionsResult sequenceNumber
  (positionsResultData div positions equityCents)

def logDiffCheckpoint (audit : AuditLog) (sequenceNumber : Nat) (orders : List RebalanceOrder) :
    Bool × AuditLog :=
  audit.logCheckpoint .diffComputed sequenceNumber (diffData div orders)

def logOrderIntentCheckpoint (audit : AuditLog) (sequenceNumber : Nat) (order : RebalanceOrder)
    (clientOrderId timestamp targetSpecReference executionContext : String) : Bool × AuditLog :=
  audit.logCheckpoint .orderIntent sequenceNumber
    (orderIntentData div order clientOrderId timestamp targetSpecReference executionContext)

def logOrderSubmittedCheckpoint (audit : AuditLog) (sequenceNumber : Nat) (order : RebalanceOrder)
    (ibkrId : Int32) : Bool × AuditLog :=
  audit.logCheckpoint .orderSubmitted sequenceNumber (orderSubmittedData div order ibkrId)

def logOrderFailedCheckpoint (audit : AuditLog) (sequenceNumber : Nat)
    (errorType errorMessage context : String) : Bool × AuditLog :=
  audit.logCheckpoint .orderFailed sequenceNumber (orderFailedData errorType errorMessage context)

end Log

end Nanobook.Rebalancer
