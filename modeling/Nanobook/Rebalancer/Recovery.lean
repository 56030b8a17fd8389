import Nanobook.Rebalancer.Audit

/-!
# Crash recovery

`recovery.rs`, with write-ahead logging: the state a log reconstructs to, one event at a time, and
the action that is recommended for it.
-/

namespace Nanobook.Rebalancer

inductive RecoveryAction where
  | restart
  | resume
  | manualReview
  | rollback
deriving DecidableEq, Repr

/-- Order reconstructed from the audit log. -/
structure RecoveredOrder where
  symbol : Symbol
  action : String
  shares : Int64
  limitPriceCents : Int64
  ibkrId : Int32
  clientOrderId : Option String
  submitted : Bool
  filled : Bool
  failed : Bool
  failureReason : Option String
deriving DecidableEq

namespace RecoveredOrder

/-- An order that was only planned. -/
def planned (symbol : Symbol) (action : String) (shares limitPriceCents : Int64)
    (clientOrderId : Option String) : RecoveredOrder where
  symbol := symbol
  action := action
  shares := shares
  limitPriceCents := limitPriceCents
  ibkrId := 0
  clientOrderId := clientOrderId
  submitted := false
  filled := false
  failed := false
  failureReason := none

/-- Submitted and, as far as the log goes, not filled. -/
def live (o : RecoveredOrder) : Bool := o.submitted && !o.filled

/-- Intended, and neither submitted nor failed. -/
def incomplete (o : RecoveredOrder) : Bool := o.clientOrderId.isSome && !o.submitted && !o.failed

end RecoveredOrder

/-- What is known of one kind of broker call that is logged before and after it is made: the source
keeps these four fields for positions, quotes, account summaries and cancellations. -/
structure CallLog where
  intentLogged : Bool
  resultLogged : Bool
  lastIntentSequence : Option Nat
  lastResultSequence : Option Nat
deriving DecidableEq, Repr

namespace CallLog

def new : CallLog := ⟨false, false, none, none⟩

/-- There was an intent, and no result since. -/
def incomplete (c : CallLog) : Bool :=
  match c.lastIntentSequence, c.lastResultSequence with
  | some intent, some result => decide (result < intent)
  | some _, none => true
  | none, _ => false

def intent (c : CallLog) (sequenceNumber : Option Nat) : CallLog :=
  { c with intentLogged := true, lastIntentSequence := sequenceNumber }

def result (c : CallLog) (sequenceNumber : Option Nat) : CallLog :=
  { c with resultLogged := true, lastResultSequence := sequenceNumber }

end CallLog

structure RecoveredState where
  checkpoint : Checkpoint
  sequenceNumber : Nat
  timestamp : Timestamp
  positions : List CurrentPosition
  orders : List RecoveredOrder
  equityCents : Int64
  runCompleted : Bool
  positionsCall : CallLog
  quotesCall : CallLog
  accountSummaryCall : CallLog
  cancelCall : CallLog
  /-- Some cancellation reported failure. -/
  cancelFailed : Bool

namespace RecoveredState

def new (now : Timestamp) : RecoveredState where
  checkpoint := .runStarted
  sequenceNumber := 0
  timestamp := now
  positions := []
  orders := []
  equityCents := 0
  runCompleted := false
  positionsCall := .new
  quotesCall := .new
  accountSummaryCall := .new
  cancelCall := .new
  cancelFailed := false

/-- The order of the checks is the order of the source. -/
def determineRecoveryAction (st : RecoveredState) : RecoveryAction :=
  if st.runCompleted then .restart
  else if st.cancelFailed then .manualReview
  else if st.cancelCall.incomplete then .manualReview
  else if st.orders.isEmpty then .restart
  else if st.orders.any RecoveredOrder.incomplete then .resume
  else if st.positionsCall.incomplete then .restart
  else if st.quotesCall.incomplete then .restart
  else if st.accountSummaryCall.incomplete then .restart
  else if st.orders.any RecoveredOrder.live then .manualReview
  else .restart

/-! ## Reading one event -/

/-- One entry of a positions array; it is skipped where a field is missing or does not fit. -/
def readPosition (p : Json) : Option CurrentPosition := do
  let symbol ← (← p.get "symbol").asStr
  let qty ← (← p.get "qty").asI64
  let avgCost ← (← p.get "avg_cost").asF64
  let avgCostCents ← f64CentsChecked avgCost
  let sym ← Symbol.tryNew symbol
  some ⟨sym, qty, avgCostCents⟩

def applyPositions (st : RecoveredState) (data : Json) : RecoveredState :=
  match (data.get "positions").bind Json.asArray with
  | some positions => { st with positions := positions.filterMap readPosition }
  | none => st

/-- The equity stays as it was where it is missing or out of range. -/
def applyEquity (st : RecoveredState) (data : Json) : RecoveredState :=
  match ((data.get "equity").bind Json.asF64).bind f64CentsChecked with
  | some cents => { st with equityCents := cents }
  | none => st

/-- One entry of the orders of a diff, with a default for whatever is missing.  The limit is taken
as it is, without the conversion to cents. -/
def readDiffOrder (o : Json) : RecoveredOrder :=
  let symbol := ((o.get "symbol").bind Json.asStr).getD ""
  let action := ((o.get "action").bind Json.asStr).getD ""
  let shares := ((o.get "shares").bind Json.asI64).getD 0
  let limit := castI64 (((o.get "limit").bind Json.asF64).getD 0)
  .planned ((Symbol.tryNew symbol).getD .unknown) action shares limit none

def applyDiff (st : RecoveredState) (data : Json) : RecoveredState :=
  match (data.get "orders").bind Json.asArray with
  | some orders => { st with orders := orders.map readDiffOrder }
  | none => st

/-- Update the first order that satisfies `p`. -/
def updateFirst (p : RecoveredOrder → Bool) (f : RecoveredOrder → RecoveredOrder) :
    List RecoveredOrder → List RecoveredOrder
  | [] => []
  | o :: rest => if p o then f o :: rest else o :: updateFirst p f rest

/-- An intent names an order of the diff by its symbol, or adds an order of its own. -/
def applyOrderIntent (st : RecoveredState) (data : Json) : RecoveredState :=
  match (data.get "symbol").bind Json.asStr, (data.get "action").bind Json.asStr,
      (data.get "shares").bind Json.asI64, (data.get "limit").bind Json.asF64 with
  | some symbol, some action, some shares, some limit =>
      let clientOrderId := (data.get "client_order_id").bind Json.asStr
      if st.orders.any fun o ↦ o.symbol.asStr = symbol then
        { st with
          orders := updateFirst (fun o ↦ o.symbol.asStr = symbol)
            (fun o ↦ { o with clientOrderId := clientOrderId }) st.orders }
      else
        { st with
          orders := st.orders ++ [.planned ((Symbol.tryNew symbol).getD .unknown) action shares
            (castI64 limit) clientOrderId] }
  | _, _, _, _ => st

def applyOrderFailed (st : RecoveredState) (data : Json) : RecoveredState :=
  let failureReason := (data.get "reason").bind Json.asStr
  match (data.get "symbol").bind Json.asStr with
  | some symbol =>
      { st with
        orders := updateFirst (fun o ↦ o.symbol.asStr = symbol)
          (fun o ↦ { o with failed := true, failureReason := failureReason }) st.orders }
  | none => st

def applyOrderSubmitted (st : RecoveredState) (data : Json) : RecoveredState :=
  match (data.get "ibkr_id").bind Json.asI64, (data.get "symbol").bind Json.asStr with
  | some ibkrId, some symbol =>
      { st with
        orders := updateFirst (fun o ↦ o.symbol.asStr = symbol)
          (fun o ↦ { o with ibkrId := ibkrId.toInt32, submitted := true }) st.orders }
  | _, _ => st

def applyOrderFilled (st : RecoveredState) (data : Json) : RecoveredState :=
  match (data.get "ibkr_id").bind Json.asI64 with
  | some ibkrId =>
      { st with
        orders := updateFirst (fun o ↦ o.ibkrId.toInt64 = ibkrId)
          (fun o ↦ { o with filled := true }) st.orders }
  | none => st

/-- Whether a cancellation says that it failed; one that does not say anything did not. -/
def reportsFailure (data : Json) : Bool := (data.get "success").bind Json.asBool == some false

/-- What an event does besides moving on to its checkpoint. -/
def applyCheckpoint (st : RecoveredState) (event : AuditEvent) : Checkpoint → RecoveredState
  | .runStarted => { st with runCompleted := false }
  | .positionsIntent => { st with positionsCall := st.positionsCall.intent event.sequenceNumber }
  | .positionsFetched => (st.applyPositions event.data).applyEquity event.data
  | .positionsResult =>
      let st := { st with positionsCall := st.positionsCall.result event.sequenceNumber }
      (st.applyPositions event.data).applyEquity event.data
  | .diffComputed => st.applyDiff event.data
  | .riskCheckPassed => st
  | .orderIntent => st.applyOrderIntent event.data
  | .orderFailed => st.applyOrderFailed event.data
  | .orderSubmitted => st.applyOrderSubmitted event.data
  | .orderFilled => st.applyOrderFilled event.data
  | .quotesIntent => { st with quotesCall := st.quotesCall.intent event.sequenceNumber }
  | .quotesResult => { st with quotesCall := st.quotesCall.result event.sequenceNumber }
  | .accountSummaryIntent =>
      { st with accountSummaryCall := st.accountSummaryCall.intent event.sequenceNumber }
  | .accountSummaryResult =>
      let st := { st with accountSummaryCall := st.accountSummaryCall.result event.sequenceNumber }
      st.applyEquity event.data
  | .cancelIntent => { st with cancelCall := st.cancelCall.intent event.sequenceNumber }
  | .cancelResult =>
      { st with
        cancelCall := st.cancelCall.result event.sequenceNumber
        cancelFailed := st.cancelFailed || reportsFailure event.data }
  | .runCompleted => { st with runCompleted := true }

def applyEvent (st : RecoveredState) (event : AuditEvent) : RecoveredState :=
  match Checkpoint.fromEventName event.event with
  | some checkpoint =>
      { st with
        checkpoint := checkpoint
        sequenceNumber := event.sequenceNumber.getD 0
        timestamp := event.ts }.applyCheckpoint event checkpoint
  | none => st

end RecoveredState

/-- The state a log of events leads to.  Reading the file is left out. -/
def reconstruct (now : Timestamp) (events : List AuditEvent) : RecoveredState :=
  events.foldl RecoveredState.applyEvent (.new now)

/-- `reconstruct_state`. -/
def reconstructState (now : Timestamp) (events : List AuditEvent) :
    RecoveredState × RecoveryAction :=
  let st := reconstruct now events
  (st, st.determineRecoveryAction)

end Nanobook.Rebalancer
