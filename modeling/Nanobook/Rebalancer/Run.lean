import Nanobook.Lib.Program
import Nanobook.Rebalancer.Log
import Nanobook.Rebalancer.Sequence

/-!
# A run

`execution::run`, with write-ahead logging: in cron mode the window is looked up first; then the
account, the positions and the quotes are fetched, the plan is computed, checked and confirmed, its
orders are executed one by one, and everything is fetched again.  What the clock, the broker, the
user, a signal and the log answer is up to the environment.  Reports on the screen, waiting and
opening the log are left out.
-/

namespace Nanobook.Rebalancer

/-! ## What a run is given -/

/-- What is not looked into: the division and the products of floating point numbers, the hashes,
and the risk checks. -/
structure Primitives (W : Type) where
  div : CentDivision
  targetValue : Int64 → W → Int64
  windowHash : String → List (Symbol × W) → String
  clientOrderHash : String → String → BrokerSide → Nat → String
  checkRisk : List RebalanceOrder → Int64 → List (Symbol × W) → List (Symbol × Int64) →
    List CurrentPosition → RiskReport

/-- A target, with the scope its ids are derived from. -/
structure TargetSpec (W : Type) where
  idempotencyScope : String
  targets : List (Symbol × W)

def TargetSpec.windowId {W : Type} (prims : Primitives W) (target : TargetSpec W) : String :=
  prims.windowHash target.idempotencyScope target.targets

structure Config where
  accountId : String
  quoteStalenessThresholdSec : Nat
  limitOffsetBps : UInt32
  minTradeCents : Int64
  maxOrdersPerRun : Nat
  orderTimeoutSecs : Nat

structure RunOptions where
  dryRun : Bool
  force : Bool
  targetFile : String
  cronMode : Bool

/-- What a run is answered.  The clock may be set before the epoch, and a quote may come from the
future; an order of the plan is asked about by its index, a timestamp by the number of its
checkpoint. -/
structure Environment where
  clock : Option Nat
  connection : Except String Unit
  accountSummary : Except BrokerError Account
  positions : Except BrokerError (List Position)
  quotes : List Symbol → Except BrokerError (List Quote)
  quoteAge : Nat → Option Nat
  confirmation : Except String Bool
  responses : Nat → Response
  cancellation : Except BrokerError Unit
  shutdownBefore : Nat → Bool
  shutdownAfter : Nat → Bool
  finalPositions : Except BrokerError (List Position)
  finalQuotes : List Symbol → Except BrokerError (List Quote)
  finalAccountSummary : Except BrokerError Account
  timestamp : Nat → String
  shutdownSeconds : ℚ
  writer : Nat → WriteOutcome × Timestamp

/-- All that a run is called with and meets. -/
structure RunInput (W : Type) where
  config : Config
  target : TargetSpec W
  opts : RunOptions
  env : Environment

inductive RunError where
  | config (message : String)
  | connection (message : String)
  | staleQuote (symbol : String) (ageSec thresholdSec : Nat)
  | riskFailed (message : String)
  | aborted (message : String)
  | invalidShareQuantity (shares : Int64)
  | order (message : String)
  | audit
  | idempotencyRejection (windowId : String) (sequenceNumber : Nat)
deriving DecidableEq

/-! ## What a run changes -/

structure Session where
  audit : AuditLog
  checkpointSequence : Nat
  connected : Bool
  broker : BrokerGateway

abbrev Run (A : Type) := Program RunError Session A

/-- The log of a session. -/
def Session.log (s : Session) : List AuditEvent := s.audit.events

/-- Write to the log. -/
def writeLog (write : AuditLog → Bool × AuditLog) : Run Unit := fun s ↦
  match write s.audit with
  | (true, audit) => (.ok (), { s with audit := audit })
  | (false, audit) => (.error .audit, { s with audit := audit })

def nextCheckpointSequence : Run Nat := fun s ↦
  (.ok (s.checkpointSequence + 1), { s with checkpointSequence := s.checkpointSequence + 1 })

/-- Log a checkpoint under the next number, with data that may depend on it. -/
def logNextCheckpoint (checkpoint : Checkpoint) (data : Nat → Json) : Run Unit := do
  let n ← nextCheckpointSequence
  writeLog fun audit ↦ audit.logCheckpoint checkpoint n (data n)

/-- A fetch, logged before and after it is made. -/
def fetchWithWriteAhead {A : Type} (intent result : Checkpoint) (intentData : Nat → Json)
    (answer : Except BrokerError A) (resultData : A → Json) : Run A := do
  logNextCheckpoint intent intentData
  match answer with
  | .error e => Program.raise (.connection e.toText)
  | .ok a => do
      logNextCheckpoint result fun _ ↦ resultData a
      pure a

/-- Symbols in the order of their first occurrence; a symbol of several positions is there as
often. -/
def collectAllSymbols (positions : List CurrentPosition) (targetSymbols : List Symbol) :
    List Symbol :=
  positions.map CurrentPosition.symbol ++
    (targetSymbols.filter fun sym ↦ sym ∉ positions.map CurrentPosition.symbol).dedup

/-- The sequence number of the last completion of a window. -/
def checkWindowAlreadyComplete (events : List AuditEvent) (windowId : String) : Option Nat :=
  (events.filterMap fun e ↦
    if e.event = "cron_completed" ∧ e.windowId = some windowId then e.sequenceNumber
    else none).getLast?

/-- How a run ends that does not fail before its end: there is nothing to do, it stops before its
orders are all executed, or everything is done and fetched again. -/
inductive RunOutcome where
  | nothingToDo
  | stopped
  | reconciled (counts : RunCounts)

section Run

variable {W : Type} (prims : Primitives W) (input : RunInput W)

/-! ## Fetching -/

def fetchAccountSummaryWithWriteAhead (answer : Except BrokerError Account) : Run Account :=
  fetchWithWriteAhead .accountSummaryIntent .accountSummaryResult
    (fun n ↦ fetchIntentData (input.env.timestamp n) input.target.idempotencyScope) answer
    fun summary ↦ accountSummaryResultData prims.div summary.equityCents summary.cashCents

def fetchPositionsWithWriteAhead (answer : Except BrokerError (List Position))
    (equityCents : Int64) :
    Run (List Position) :=
  fetchWithWriteAhead .positionsIntent .positionsResult
    (fun n ↦ fetchIntentData (input.env.timestamp n) input.target.idempotencyScope) answer
    fun positions ↦ positionsResultData prims.div (toCurrentPositions positions) equityCents

def fetchQuotesWithWriteAhead (answer : List Symbol → Except BrokerError (List Quote))
    (symbols : List Symbol) : Run (List Quote) :=
  fetchWithWriteAhead .quotesIntent .quotesResult
    (fun n ↦ quotesIntentData symbols input.config.quoteStalenessThresholdSec
        (input.env.timestamp n)
      input.target.idempotencyScope) (answer symbols) quotesResultData

/-- The first quote that is too old, or comes from the future, ends the run. -/
def checkStaleness (i : Nat) : List Quote → Run Unit
  | [] => pure ()
  | quote :: rest =>
      match input.env.quoteAge i with
      | some age =>
          if input.config.quoteStalenessThresholdSec < age then
            Program.raise
            (.staleQuote quote.symbol.asStr age input.config.quoteStalenessThresholdSec)
          else checkStaleness (i + 1) rest
      | none =>
          Program.raise (.staleQuote quote.symbol.asStr 0 input.config.quoteStalenessThresholdSec)

/-! ## Executing orders -/

/-- The client order id of an order of the plan. -/
def deriveClientOrderId (order : RebalanceOrder) : Run String :=
  if order.shares < 0 then Program.raise (.invalidShareQuantity order.shares)
  else
    pure (prims.clientOrderHash input.target.idempotencyScope order.symbol.asStr
      (actionToSide order.action) order.shares.toInt.toNat)

/-- Execute an order under a number; an error is a result like any other. -/
def executeOrder (order : RebalanceOrder) (clientOrderId : String) (orderSequence : Nat) :
    Run (Except ExecutionError OrderResult) := fun s ↦
  match executeOrderWithWriteAhead prims.div order clientOrderId orderSequence s.broker s.audit
      input.config.orderTimeoutSecs (input.env.timestamp orderSequence)
      input.target.idempotencyScope with
  | (result, broker, audit) => (.ok result, { s with broker := broker, audit := audit })

/-- The number of the submission may be in use as well. -/
def raiseCheckpointSequence (orderSequence : Nat) : Run Unit :=
  Program.modify fun s ↦
    { s with checkpointSequence := max s.checkpointSequence (orderSequence + 1) }

/-- Log what came of an order, and count it.  A partial fill may have to be cancelled. -/
def logExecution (counts : RunCounts) :
    Except ExecutionError OrderResult → Run (RunCounts × Option Int32)
  | .ok result => do
      logNextCheckpoint .orderFilled fun _ ↦ orderFilledData result
      match result.status with
      | .filled => pure ({ counts with filled := counts.filled + 1 }, none)
      | .partialFill => pure ({ counts with filled := counts.filled + 1 }, some result.orderId)
      | .cancelled => pure ({ counts with failed := counts.failed + 1 }, none)
      | .failed => pure ({ counts with failed := counts.failed + 1 }, none)
  | .error _ => pure ({ counts with failed := counts.failed + 1 }, none)

/-- One order of the plan. -/
def processOrder (counts : RunCounts) (order : RebalanceOrder) :
    Run (RunCounts × Option Int32) := do
  let clientOrderId ← deriveClientOrderId prims input order
  let orderSequence ← nextCheckpointSequence
  let result ← executeOrder prims input order clientOrderId orderSequence
  raiseCheckpointSequence orderSequence
  logExecution { counts with submitted := counts.submitted + 1 } result

def cancelOrderWithWriteAhead (orderId : Nat) (cancellationReason : String) : Run Unit := do
  logNextCheckpoint .cancelIntent fun n ↦
    cancelIntentData orderId cancellationReason (input.env.timestamp n)
  match input.env.cancellation with
  | .ok () => logNextCheckpoint .cancelResult fun _ ↦ cancelResultData orderId true none
  | .error e => do
      logNextCheckpoint .cancelResult fun _ ↦ cancelResultData orderId false (some e.toText)
      Program.raise (.order ("cancel failed for order " ++ toString orderId ++ ": " ++ e.toText))

/-- A graceful shutdown, with the number of orders that are cancelled or skipped. -/
def logKillCompleted (ordersCancelledCount : Nat) : Run Unit :=
  writeLog fun audit ↦ audit.log "kill_completed"
    (killCompletedData "graceful" ordersCancelledCount input.env.shutdownSeconds)

/-- Shutdown after an order, of which the unfilled part is cancelled. -/
def shutDownAfter (remaining : Nat) : Option Int32 → Run Unit
  | none => logKillCompleted input remaining
  | some orderId => do
      cancelOrderWithWriteAhead input orderId.toInt.toNat "graceful_shutdown_partial_fill"
      logKillCompleted input (remaining + 1)

/-- The orders from the one with index `i` on; there is no result where a shutdown ends them. -/
def executeOrders (i : Nat) (counts : RunCounts) : List RebalanceOrder → Run (Option RunCounts)
  | [] => pure (some counts)
  | order :: rest =>
      if input.env.shutdownBefore i then do
        logKillCompleted input (rest.length + 1)
        pure none
      else do
        let (counts, currentOrderToCancel) ← processOrder prims input counts order
        if input.env.shutdownAfter i then do
          shutDownAfter input rest.length currentOrderToCancel
          pure none
        else executeOrders (i + 1) counts rest

/-! ## The whole run -/

/-- In cron mode, a window that is completed is rejected. -/
def checkIdempotency : Run Unit := do
  let windowId := input.target.windowId prims
  let existing ← Program.read fun s ↦ checkWindowAlreadyComplete s.log windowId
  match existing with
  | none => pure ()
  | some existingSeq => do
      writeLog fun audit ↦ audit.logWithIdempotency "idempotency_rejection" (some existingSeq)
        (some windowId) (.obj [])
      Program.raise (.idempotencyRejection windowId existingSeq)

def connect : Run Unit :=
  match input.env.connection with
  | .ok () => Program.modify fun s ↦ { s with connected := true }
  | .error message => Program.raise (.connection message)

/-- Start the numbers at the clock or at what is in the log, whichever is later.  The number of the
run is returned. -/
def beginRun : Run Nat := do
  let existing ← Program.read fun s ↦ maxCheckpointSequence s.log
  match input.env.clock with
  | none => Program.raise (.config "clock error: second time provided was later than self")
  | some now => do
      let runSequenceNumber := max now existing
      Program.modify fun s ↦ { s with checkpointSequence := runSequenceNumber }
      logNextCheckpoint .runStarted fun _ ↦
        runStartedData input.opts.targetFile input.config.accountId
      Program.when input.opts.cronMode <|
        writeLog fun audit ↦ audit.logWithIdempotency "cron_start" (some runSequenceNumber)
          (some (input.target.windowId prims)) (.obj [])
      pure runSequenceNumber

/-- Fetch everything, and compute and log the plan. -/
def computePlan : Run (Account × List CurrentPosition × List (Symbol × Int64) × List Symbol ×
    List RebalanceOrder) := do
  let summary ← fetchAccountSummaryWithWriteAhead prims input input.env.accountSummary
  let brokerPositions ← fetchPositionsWithWriteAhead prims input input.env.positions
    summary.equityCents
  let positions := toCurrentPositions brokerPositions
  let allSymbols := collectAllSymbols positions (input.target.targets.map Prod.fst)
  let quotes ← fetchQuotesWithWriteAhead input input.env.quotes allSymbols
  checkStaleness input 0 quotes
  let prices := quoteMidPrices quotes
  let orders := computeDiff prims.targetValue summary.equityCents positions input.target.targets
    prices input.config.limitOffsetBps input.config.minTradeCents
  if input.config.maxOrdersPerRun < orders.length then
    Program.raise (.riskFailed (toString orders.length ++
      " orders generated, but max_orders_per_run is " ++ toString input.config.maxOrdersPerRun))
  else do
    logNextCheckpoint .diffComputed fun _ ↦ diffData prims.div orders
    pure (summary, positions, prices, allSymbols, orders)

def checkRisk (summary : Account) (positions : List CurrentPosition)
    (prices : List (Symbol × Int64)) (orders : List RebalanceOrder) : Run Unit := do
  let report := prims.checkRisk orders summary.equityCents input.target.targets prices positions
  writeLog fun audit ↦ audit.log "risk_check" (riskCheckData report)
  if report.hasFailures then
    Program.raise (.riskFailed "one or more risk checks failed — aborting")
  else logNextCheckpoint .riskCheckPassed fun _ ↦ riskCheckPassedData report

/-- Whether the orders are to be executed. -/
def confirm : Run Bool :=
  if input.opts.dryRun then pure false
  else if input.opts.force then pure true
  else
    match input.env.confirmation with
    | .error e => Program.raise (.aborted ("confirmation prompt failed: " ++ e))
    | .ok approved => do
        writeLog fun audit ↦ audit.log "user_confirmed" (userConfirmedData approved)
        pure approved

/-- Everything is fetched again, for a report. -/
def reconcile (summary : Account) (allSymbols : List Symbol) : Run Unit := do
  let _ ← fetchPositionsWithWriteAhead prims input input.env.finalPositions summary.equityCents
  let _ ← fetchQuotesWithWriteAhead input input.env.finalQuotes allSymbols
  let _ ← fetchAccountSummaryWithWriteAhead prims input input.env.finalAccountSummary
  pure ()

/-- All of a run between its start and its completion. -/
def rebalance : Run RunOutcome := do
  let (summary, positions, prices, allSymbols, orders) ← computePlan prims input
  if orders.isEmpty then pure .nothingToDo
  else do
    checkRisk prims input summary positions prices orders
    let confirmed ← confirm input
    if !confirmed then pure .stopped
    else do
      let executed ← executeOrders prims input 0 ⟨0, 0, 0⟩ orders
      match executed with
      | none => pure .stopped
      | some counts => do
          reconcile prims input summary allSymbols
          pure (.reconciled counts)

/-- Log the completion, unless the run was stopped. -/
def finishRun (runSequenceNumber : Nat) : RunOutcome → Run Unit
  | .nothingToDo => do
      writeLog fun audit ↦ audit.logSimple "no_rebalance_needed"
      logNextCheckpoint .runCompleted fun _ ↦ runCompletedData ⟨0, 0, 0⟩
  | .stopped => pure ()
  | .reconciled counts => do
      Program.when input.opts.cronMode <|
        writeLog fun audit ↦ audit.logWithIdempotency "cron_completed" (some runSequenceNumber)
          (some (input.target.windowId prims)) (runCompletedData counts)
      logNextCheckpoint .runCompleted fun _ ↦ runCompletedData counts

/-- What comes before the first fetch. -/
def startRun : Run Nat := do
  Program.when input.opts.cronMode (checkIdempotency prims input)
  connect input
  beginRun prims input

def run : Run Unit := do
  let runSequenceNumber ← startRun prims input
  let outcome ← rebalance prims input
  finishRun prims input runSequenceNumber outcome

/-- The session of a process that starts over a log. -/
def RunInput.session (events : List AuditEvent) : Session where
  audit := ⟨events, input.env.writer⟩
  checkpointSequence := 0
  connected := false
  broker := .new input.env.responses

def runOn (events : List AuditEvent) : Except RunError Unit × Session :=
  run prims input (input.session events)

/-! ## The plan -/

/-- The orders of the plan, where everything is fetched. -/
def plannedOrders : Option (List RebalanceOrder) :=
  match input.env.accountSummary, input.env.positions with
  | .ok summary, .ok brokerPositions =>
      let positions := toCurrentPositions brokerPositions
      match input.env.quotes
          (collectAllSymbols positions (input.target.targets.map Prod.fst)) with
      | .ok quotes => some (computeDiff prims.targetValue summary.equityCents positions
          input.target.targets (quoteMidPrices quotes) input.config.limitOffsetBps
          input.config.minTradeCents)
      | .error _ => none
  | _, _ => none

end Run

end Nanobook.Rebalancer
