import Mathlib.Data.List.Induction
import Nanobook.Rebalancer.RoundTrip

/-!
# Restarting over live orders

The recommended action depends on what the log says last of each kind of call, on its cancellations,
and on the orders.  A log without an incomplete intent that ends within one of the three fetches is
taken for one that is safe to restart, whatever orders are out.
-/

namespace Nanobook.Rebalancer

/-! ## What the log says last -/

/-- The broker calls that are logged before and after they are made. -/
inductive Call where
  | positions
  | quotes
  | accountSummary
  | cancel
deriving DecidableEq, Repr

namespace Call

def intent : Call → Checkpoint
  | positions => .positionsIntent
  | quotes => .quotesIntent
  | accountSummary => .accountSummaryIntent
  | cancel => .cancelIntent

def result : Call → Checkpoint
  | positions => .positionsResult
  | quotes => .quotesResult
  | accountSummary => .accountSummaryResult
  | cancel => .cancelResult

end Call

/-- The sequence number of the last event at a checkpoint. -/
def lastSequence (events : List AuditEvent) (c : Checkpoint) : Option Nat :=
  (events.filter fun e ↦ e.checkpoint = some c).getLast?.bind AuditEvent.sequenceNumber

/-- The last intent of a call has no result with a sequence number as large. -/
def Unanswered (events : List AuditEvent) (k : Call) : Prop :=
  ∃ i, lastSequence events k.intent = some i ∧
    ∀ r, lastSequence events k.result = some r → r < i

/-- The last run that was started in the log, or the first part of a log that starts none, was
completed. -/
def LastRunCompleted (events : List AuditEvent) : Prop :=
  ∃ e, (events.filter fun e ↦
      e.checkpoint = some .runStarted ∨ e.checkpoint = some .runCompleted).getLast? = some e ∧
    e.checkpoint = some .runCompleted

/-- Some cancellation reported failure. -/
def CancelFailed (events : List AuditEvent) : Prop :=
  ∃ e ∈ events, e.checkpoint = some .cancelResult ∧ RecoveredState.reportsFailure e.data = true

namespace RecoveredState

variable (st : RecoveredState) (e : AuditEvent)

/-- The calls of a state. -/
def call (st : RecoveredState) : Call → CallLog
  | .positions => st.positionsCall
  | .quotes => st.quotesCall
  | .accountSummary => st.accountSummaryCall
  | .cancel => st.cancelCall

/-- The part of a state that does not come from the data of its events. -/
def progress (st : RecoveredState) : Bool × (Call → CallLog) × Bool :=
  (st.runCompleted, st.call, st.cancelFailed)

@[simp] theorem progress_applyPositions (data : Json) :
    (st.applyPositions data).progress = st.progress := by
  simp only [applyPositions]
  split <;> rfl

@[simp] theorem progress_applyEquity (data : Json) :
    (st.applyEquity data).progress = st.progress := by
  simp only [applyEquity]
  split <;> rfl

@[simp] theorem progress_applyDiff (data : Json) : (st.applyDiff data).progress = st.progress := by
  simp only [applyDiff]
  split <;> rfl

@[simp] theorem progress_applyOrderIntent (data : Json) :
    (st.applyOrderIntent data).progress = st.progress := by
  simp only [applyOrderIntent]
  split
  · split_ifs <;> rfl
  · rfl

@[simp] theorem progress_applyOrderFailed (data : Json) :
    (st.applyOrderFailed data).progress = st.progress := by
  simp only [applyOrderFailed]
  split <;> rfl

@[simp] theorem progress_applyOrderSubmitted (data : Json) :
    (st.applyOrderSubmitted data).progress = st.progress := by
  simp only [applyOrderSubmitted]
  split <;> rfl

@[simp] theorem progress_applyOrderFilled (data : Json) :
    (st.applyOrderFilled data).progress = st.progress := by
  simp only [applyOrderFilled]
  split <;> rfl

/-- What a checkpoint says of the progress of a run. -/
theorem progress_applyCheckpoint (c : Checkpoint) : (st.applyCheckpoint e c).progress =
    (if c = .runStarted then false else if c = .runCompleted then true else st.runCompleted,
      fun k ↦ if c = k.intent then (st.call k).intent e.sequenceNumber
        else if c = k.result then (st.call k).result e.sequenceNumber else st.call k,
      st.cancelFailed || (decide (c = .cancelResult) && reportsFailure e.data)) := by
  cases c <;> simp only [applyCheckpoint, progress_applyEquity, progress_applyPositions,
    progress_applyDiff, progress_applyOrderIntent, progress_applyOrderFailed,
    progress_applyOrderSubmitted, progress_applyOrderFilled] <;>
  · refine Prod.ext (by simp [progress]) (Prod.ext (funext fun k ↦ ?_) (by simp [progress]))
    cases k <;> simp [progress, call, Call.intent, Call.result]

/-- What an event says of the progress of a run. -/
theorem progress_applyEvent : (st.applyEvent e).progress =
    (if e.checkpoint = some .runStarted then false
      else if e.checkpoint = some .runCompleted then true else st.runCompleted,
      fun k ↦ if e.checkpoint = some k.intent then (st.call k).intent e.sequenceNumber
        else if e.checkpoint = some k.result then (st.call k).result e.sequenceNumber
        else st.call k,
      st.cancelFailed || (decide (e.checkpoint = some .cancelResult) && reportsFailure e.data))
      := by
  obtain h | ⟨c, h⟩ := Option.eq_none_or_eq_some (Checkpoint.fromEventName e.event)
  · simp [AuditEvent.checkpoint, applyEvent, h, progress]
  · simp only [AuditEvent.checkpoint, applyEvent, h, progress_applyCheckpoint, Option.some.injEq]
    rfl

end RecoveredState

/-! ## What is recovered says the same -/

section Reconstruct

variable (now : Timestamp) (events : List AuditEvent) (e : AuditEvent)

theorem lastSequence_concat (c : Checkpoint) : lastSequence (events ++ [e]) c =
    if e.checkpoint = some c then e.sequenceNumber else lastSequence events c := by
  by_cases h : e.checkpoint = some c
  · simp [lastSequence, List.filter_append, h]
  · simp [lastSequence, List.filter_append, h]

theorem lastRunCompleted_concat : LastRunCompleted (events ++ [e]) ↔
    if e.checkpoint = some .runStarted then False
    else if e.checkpoint = some .runCompleted then True else LastRunCompleted events := by
  by_cases hs : e.checkpoint = some .runStarted
  · simp [LastRunCompleted, List.filter_append, hs]
  by_cases hc : e.checkpoint = some .runCompleted
  · simp [LastRunCompleted, List.filter_append, hc]
  · simp [LastRunCompleted, List.filter_append, hs, hc]

theorem cancelFailed_concat : CancelFailed (events ++ [e]) ↔
    CancelFailed events ∨
      e.checkpoint = some .cancelResult ∧ RecoveredState.reportsFailure e.data = true := by
  simp [CancelFailed, or_and_right, exists_or]

theorem runCompleted_reconstruct :
    (reconstruct now events).runCompleted = true ↔ LastRunCompleted events := by
  induction events using List.reverseRecOn with
  | nil => simp [reconstruct, RecoveredState.new, LastRunCompleted]
  | append_singleton events e ih =>
      have h := congrArg Prod.fst (RecoveredState.progress_applyEvent (reconstruct now events) e)
      rw [reconstruct_concat, lastRunCompleted_concat, ← ih]
      simp only [RecoveredState.progress] at h
      rw [h]
      split_ifs <;> simp

theorem cancelFailed_reconstruct :
    (reconstruct now events).cancelFailed = true ↔ CancelFailed events := by
  induction events using List.reverseRecOn with
  | nil => simp [reconstruct, RecoveredState.new, CancelFailed]
  | append_singleton events e ih =>
      have h := congrArg (fun p ↦ p.2.2)
        (RecoveredState.progress_applyEvent (reconstruct now events) e)
      rw [reconstruct_concat, cancelFailed_concat, ← ih]
      simp only [RecoveredState.progress] at h
      rw [h]
      simp

theorem sequences_reconstruct (k : Call) :
    ((reconstruct now events).call k).lastIntentSequence = lastSequence events k.intent ∧
      ((reconstruct now events).call k).lastResultSequence = lastSequence events k.result := by
  induction events using List.reverseRecOn with
  | nil => cases k <;> exact ⟨rfl, rfl⟩
  | append_singleton events e ih =>
      have h := congrArg (fun p ↦ p.2.1 k)
        (RecoveredState.progress_applyEvent (reconstruct now events) e)
      have hne : k.intent ≠ k.result := by cases k <;> decide
      rw [reconstruct_concat, lastSequence_concat, lastSequence_concat]
      simp only [RecoveredState.progress] at h
      rw [h]
      by_cases hi : e.checkpoint = some k.intent
      · simp [hi, hne, CallLog.intent, ih.2]
      by_cases hr : e.checkpoint = some k.result
      · simp [hr, hne.symm, CallLog.result, ih.1]
      · simp [hi, hr, ih]

theorem incomplete_reconstruct (k : Call) :
    ((reconstruct now events).call k).incomplete = true ↔ Unanswered events k := by
  obtain ⟨hi, hr⟩ := sequences_reconstruct now events k
  simp only [CallLog.incomplete, Unanswered, hi, hr]
  cases lastSequence events k.intent with
  | none => simp
  | some i => cases lastSequence events k.result <;> simp

end Reconstruct

/-! ## Restarting -/

section Restart

variable (now : Timestamp) (events : List AuditEvent)

/-- The recommendation for a run that was not completed, over a live order: a fetch without an
answer comes before the order. -/
theorem determineRecoveryAction_ne_restart_iff {st : RecoveredState}
    (hrun : st.runCompleted = false) (hlive : st.orders.any RecoveredOrder.live = true) :
    st.determineRecoveryAction ≠ .restart ↔
      st.cancelFailed = true ∨ st.cancelCall.incomplete = true ∨
        st.orders.any RecoveredOrder.incomplete = true ∨
        (¬ st.positionsCall.incomplete = true ∧ ¬ st.quotesCall.incomplete = true ∧
          ¬ st.accountSummaryCall.incomplete = true) := by
  have hne : st.orders.isEmpty = false := by
    cases horders : st.orders with
    | nil => simp [horders] at hlive
    | cons o rest => rfl
  simp only [RecoveredState.determineRecoveryAction, hrun, hne, hlive]
  split_ifs <;> simp_all

/-- For a log whose last run was not completed and that leaves an order submitted and not filled,
the recommended action is other than to restart exactly if a cancellation failed or was not
answered, an order was intended and neither submitted nor failed, or each fetch has its answer. -/
theorem reconstructState_ne_restart_iff (hrun : ¬ LastRunCompleted events)
    (hlive : ∃ o ∈ (reconstructState now events).1.orders, o.submitted = true ∧ o.filled = false) :
    (reconstructState now events).2 ≠ .restart ↔
      CancelFailed events ∨ Unanswered events .cancel ∨
        (∃ o ∈ (reconstructState now events).1.orders, o.incomplete = true) ∨
        (¬ Unanswered events .positions ∧ ¬ Unanswered events .quotes ∧
          ¬ Unanswered events .accountSummary) := by
  have hrun' : (reconstruct now events).runCompleted = false := by
    rw [← runCompleted_reconstruct now] at hrun
    exact Bool.eq_false_iff.mpr hrun
  have hlive' : (reconstruct now events).orders.any RecoveredOrder.live = true := by
    obtain ⟨o, ho, hsubmitted, hfilled⟩ := hlive
    exact List.any_eq_true.mpr ⟨o, ho, by simp [RecoveredOrder.live, hsubmitted, hfilled]⟩
  simp only [← cancelFailed_reconstruct now, ← incomplete_reconstruct now, ← List.any_eq_true]
  exact determineRecoveryAction_ne_restart_iff hrun' hlive'

end Restart

/-! ## A second run that stops at its first fetch -/

/-- An event that carries no data. -/
def bareEvent (c : Checkpoint) (sequenceNumber : Nat) : AuditEvent :=
  checkpointEvent c 0 sequenceNumber (.obj [])

/-- A run that stops between the submission of its order and the fill. -/
def interruptedRun : List AuditEvent :=
  [bareEvent .runStarted 1,
    checkpointEvent .diffComputed 0 2 (diffData .exact [(buyAapl 15025).order]),
    checkpointEvent .orderIntent 0 3 (orderIntentData .exact (buyAapl 15025).order "a1" "" "" ""),
    checkpointEvent .orderSubmitted 0 4 (orderSubmittedData .exact (buyAapl 15025).order 7)]

/-- The run after it, which stops while it asks for the account summary. -/
def interruptedFetch : List AuditEvent :=
    [bareEvent .runStarted 5, bareEvent .accountSummaryIntent 6]

/-- The order of the first run is still live, and the recommendation is to restart. -/
theorem reconstructState_restart_live :
    ¬ LastRunCompleted (interruptedRun ++ interruptedFetch) ∧
    (∃ o ∈ (reconstructState 0 (interruptedRun ++ interruptedFetch)).1.orders,
      o.submitted = true ∧ o.filled = false) ∧
    (reconstructState 0 (interruptedRun ++ interruptedFetch)).2 = .restart := by
  rw [← runCompleted_reconstruct 0]
  decide +kernel

/-- Without the second run, the order is reviewed. -/
theorem reconstructState_ne_restart_iff_interruptedRun :
    (reconstructState 0 interruptedRun).2 ≠ .restart := by
  have hrun : ¬ LastRunCompleted interruptedRun := by
    rw [← runCompleted_reconstruct 0]
    decide +kernel
  refine (reconstructState_ne_restart_iff 0 interruptedRun hrun (by decide +kernel)).mpr ?_
  simp only [← incomplete_reconstruct 0]
  exact .inr (.inr (.inr (by decide +kernel)))

end Nanobook.Rebalancer
