import Nanobook.Rebalancer.Diff
import Nanobook.Rebalancer.Execution

/-!
# What else a run logs

The data of the events around the orders: the fetches, the risk check, fills, cancellations, and the
beginning and end of a run.
-/

namespace Nanobook.Rebalancer

/-! ## What is fetched and checked -/

structure Account where
  equityCents : Int64
  cashCents : Int64
deriving DecidableEq

structure Position where
  symbol : Symbol
  quantity : Int64
  avgCostCents : Int64
deriving DecidableEq

def toCurrentPositions (brokerPositions : List Position) : List CurrentPosition :=
  brokerPositions.map fun p ↦ ⟨p.symbol, p.quantity, p.avgCostCents⟩

inductive RiskStatus where
  | pass
  | warn
  | fail
deriving DecidableEq, Repr

def RiskStatus.toText : RiskStatus → String
  | pass => "PASS"
  | warn => "WARN"
  | fail => "FAIL"

structure RiskCheck where
  name : String
  status : RiskStatus
  detail : String
deriving DecidableEq

structure RiskReport where
  checks : List RiskCheck
deriving DecidableEq

def RiskReport.hasFailures (report : RiskReport) : Bool :=
  report.checks.any fun c ↦ c.status = .fail

/-- The text of an outcome in the log. -/
def OrderOutcome.toText : OrderOutcome → String
  | filled => "Filled"
  | partialFill => "PartialFill"
  | cancelled => "Cancelled"
  | failed => "Failed"

theorem OrderOutcome.toText_injective {s t : OrderOutcome} (h : s.toText = t.toText) : s = t := by
  cases s <;> cases t <;> first | rfl | exact absurd h (by decide)

/-! ## Data -/

def runStartedData (targetFile accountId : String) : Json :=
  .obj [("target_file", .str targetFile), ("account", .str accountId)]

/-- The intent to fetch positions or the account summary. -/
def fetchIntentData (timestamp targetSpecReference : String) : Json :=
  .obj [("timestamp", .str timestamp), ("target_spec_reference", .str targetSpecReference)]

def quotesIntentData (symbols : List Symbol) (stalenessThresholdSec : Nat)
    (timestamp targetSpecReference : String) : Json :=
  .obj [("symbols", .arr (symbols.map fun s ↦ .str s.asStr)),
    ("staleness_threshold_sec", .int stalenessThresholdSec), ("timestamp", .str timestamp),
    ("target_spec_reference", .str targetSpecReference)]

def quoteData (q : Quote) : Json :=
  .obj [("symbol", .str q.symbol.asStr), ("bid_cents", .i64 q.bidCents),
    ("ask_cents", .i64 q.askCents), ("last_cents", .i64 q.lastCents),
    ("timestamp", .str q.timestamp)]

def quotesResultData (quotes : List Quote) : Json :=
  .obj [("quotes", .arr (quotes.map quoteData))]

def accountSummaryResultData (div : CentDivision) (equityCents cashCents : Int64) : Json :=
  .obj [("equity", .float (div.dollars equityCents)), ("cash", .float (div.dollars cashCents))]

def riskCheckRowData (c : RiskCheck) : Json :=
  .obj [("name", .str c.name), ("status", .str c.status.toText), ("detail", .str c.detail)]

def riskCheckData (report : RiskReport) : Json :=
  .obj [("passed", .bool (!report.hasFailures)),
    ("checks", .arr (report.checks.map riskCheckRowData))]

def riskCheckPassedData (report : RiskReport) : Json :=
  .obj [("checks", .arr (report.checks.map riskCheckRowData))]

def userConfirmedData (approved : Bool) : Json := .obj [("approved", .bool approved)]

/-- Every result is logged this way, whatever its status. -/
def orderFilledData (result : OrderResult) : Json :=
  .obj [("symbol", .str result.symbol.asStr), ("ibkr_id", .int result.orderId.toInt),
    ("filled", .i64 result.filledShares), ("avg_price", .float result.avgFillPrice),
    ("commission", .float result.commission), ("status", .str result.status.toText)]

def cancelIntentData (orderId : Nat) (cancellationReason timestamp : String) : Json :=
  .obj [("order_id", .int orderId), ("cancellation_reason", .str cancellationReason),
    ("timestamp", .str timestamp)]

def cancelResultData (orderId : Nat) (success : Bool) (errorMessage : Option String) : Json :=
  .obj [("order_id", .int orderId), ("success", .bool success),
    ("error_message", (errorMessage.map Json.str).getD .null)]

def killCompletedData (method : String) (ordersCancelledCount : Nat) (durationSeconds : ℚ) : Json :=
  .obj [("method", .str method), ("orders_cancelled_count", .int ordersCancelledCount),
    ("orders_remaining_count", .int 0), ("duration_seconds", .float durationSeconds),
    ("error_messages", .arr [])]

/-- The counts of a run that is completed, in cron mode or not. -/
structure RunCounts where
  submitted : Nat
  filled : Nat
  failed : Nat
deriving DecidableEq, Repr

def runCompletedData (counts : RunCounts) : Json :=
  .obj [("submitted", .int counts.submitted), ("filled", .int counts.filled),
    ("failed", .int counts.failed)]

end Nanobook.Rebalancer
