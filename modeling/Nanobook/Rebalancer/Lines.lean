import Nanobook.Rebalancer.Run

/-!
# The lines of a run

What the parts of a run add to the log: the line of a write, the lines of an order, and everything
between the start of a run and its completion.
-/

namespace Nanobook.Rebalancer

open Program

/-! ## One write -/

/-- What a write adds, and whether it succeeds: the line of its event, which may be there after an
error as well, or nothing. -/
inductive WriteLines (event : AuditEvent → Prop) : Bool → List AuditEvent → Prop
  | written {e : AuditEvent} (h : event e) : WriteLines event true [e]
  | unsynced {e : AuditEvent} (h : event e) : WriteLines event false [e]
  | failed : WriteLines event false []

def RunError.isRejection : RunError → Bool
  | idempotencyRejection _ _ => true
  | _ => false

/-- A part of a run that does not reject the run. -/
def NotRejected {A : Type} : Except RunError A → Prop
  | .ok _ => True
  | .error e => e.isRejection = false

/-- The result of a write in a run. -/
def writeResult : Bool → Except RunError Unit
  | true => .ok ()
  | false => .error .audit

theorem notRejected_writeResult (b : Bool) : NotRejected (writeResult b) := by
  cases b
  · rfl
  · trivial

section Write

variable {event event' : AuditEvent → Prop} {p : AuditEvent → Prop}
  {q : Except RunError Unit → Prop}
  {write : Run Unit} {b : Bool} {l : List AuditEvent}

theorem WriteLines.mono (h : WriteLines event b l) (himp : ∀ e, event e → event' e) :
    WriteLines event' b l := by
  cases h with
  | written h => exact .written (himp _ h)
  | unsynced h => exact .unsynced (himp _ h)
  | failed => exact .failed

theorem WriteLines.forall_mem (h : WriteLines event b l) : ∀ e ∈ l, event e := by
  intro e he
  cases h with
  | written h | unsynced h => exact List.mem_singleton.mp he ▸ h
  | failed => cases he

theorem writeLines_append (audit : AuditLog) (event : Timestamp → AuditEvent) :
    ∃ l, (audit.append event).2.events = audit.events ++ l ∧
      WriteLines (fun e ↦ ∃ ts, e = event ts) (audit.append event).1 l := by
  cases h : audit.writer 0 with
  | mk outcome ts =>
      simp only [AuditLog.append, h]
      cases outcome with
      | written => exact ⟨[event ts], rfl, .written ⟨ts, rfl⟩⟩
      | unsynced => exact ⟨[event ts], rfl, .unsynced ⟨ts, rfl⟩⟩
      | failed => exact ⟨[], (List.append_nil _).symm, .failed⟩

theorem writeLines_logCheckpoint (audit : AuditLog) (c : Checkpoint) (n : Nat) (data : Json) :
    ∃ l, (audit.logCheckpoint c n data).2.events = audit.events ++ l ∧
      WriteLines (fun e ↦ ∃ ts, e = checkpointEvent c ts n data)
      (audit.logCheckpoint c n data).1 l :=
  writeLines_append audit _

/-- A write of a run adds lines of such events. -/
def Writes (write : Run Unit) (event : AuditEvent → Prop) : Prop :=
  Emits Session.log write fun r l ↦ ∃ b, r = writeResult b ∧ WriteLines event b l

theorem writes_writeLog (event : Timestamp → AuditEvent) :
    Writes (writeLog fun audit ↦ audit.append event) fun e ↦ ∃ ts, e = event ts := by
  intro s
  obtain ⟨l, hlog, hl⟩ := writeLines_append s.audit event
  rcases heq : s.audit.append event with ⟨b, audit⟩
  rw [heq] at hlog hl
  simp only [writeLog, heq]
  cases b with
  | true => exact ⟨l, hlog, true, rfl, hl⟩
  | false => exact ⟨l, hlog, false, rfl, hl⟩

theorem writes_logWithIdempotency (event : String) (sequenceNumber : Option Nat)
    (windowId : Option String) (data : Json) :
    Writes (writeLog fun audit ↦ audit.logWithIdempotency event sequenceNumber windowId data)
      fun e ↦ ∃ ts, e = ⟨event, ts, sequenceNumber, windowId, data⟩ :=
  writes_writeLog _

theorem writes_logNextCheckpoint (checkpoint : Checkpoint) (data : Nat → Json) :
    Writes (logNextCheckpoint checkpoint data) fun e ↦
      ∃ ts n, e = checkpointEvent checkpoint ts n (data n) := by
  intro s
  obtain ⟨l, hlog, b, hb, hl⟩ := writes_writeLog
    (fun ts ↦ checkpointEvent checkpoint ts (s.checkpointSequence + 1)
      (data (s.checkpointSequence + 1)))
    { s with checkpointSequence := s.checkpointSequence + 1 }
  exact ⟨l, hlog, b, hb, hl.mono fun e ⟨ts, he⟩ ↦ ⟨ts, _, he⟩⟩

theorem Writes.emitsOnly (h : Writes write event) (hp : ∀ e, event e → p e)
    (hq : ∀ b, q (writeResult b)) : EmitsOnly Session.log p q write := by
  exact h.mono fun r l ⟨b, hb, hl⟩ ↦ ⟨fun e he ↦ hp e (hl.forall_mem e he), hb ▸ hq b⟩

end Write

/-! ## An order -/

section Order

variable (div : CentDivision) (order : RebalanceOrder)

def AuditEvent.IsIntentOf (e : AuditEvent) : Prop :=
  ∃ ts n clientOrderId timestamp targetSpec context, e = checkpointEvent .orderIntent ts n
    (orderIntentData div order clientOrderId timestamp targetSpec context)

def AuditEvent.IsFailure (e : AuditEvent) : Prop :=
  ∃ ts n errorType errorMessage context,
    e = checkpointEvent .orderFailed ts n (orderFailedData errorType errorMessage context)

def AuditEvent.IsSubmissionOf (id : Int32) (e : AuditEvent) : Prop :=
  ∃ ts n, e = checkpointEvent .orderSubmitted ts n (orderSubmittedData div order id)

def AuditEvent.IsFillOf (result : OrderResult) (e : AuditEvent) : Prop :=
  ∃ ts n, e = checkpointEvent .orderFilled ts n (orderFilledData result)

/-- The lines of the execution of an order: as many of its intent and its outcome as are written. -/
inductive ExecutedLines : Except ExecutionError OrderResult → List AuditEvent → Prop
  | nothing {e : ExecutionError} : ExecutedLines (.error e) []
  | intended {e : ExecutionError} {i : AuditEvent} (hi : i.IsIntentOf div order) :
      ExecutedLines (.error e) [i]
  | failed {e : ExecutionError} {i f : AuditEvent} (hi : i.IsIntentOf div order)
      (hf : f.IsFailure) :
      ExecutedLines (.error e) [i, f]
  | unsynced {e : ExecutionError} {i s : AuditEvent} {id : Int32} (hi : i.IsIntentOf div order)
      (hs : s.IsSubmissionOf div order id) : ExecutedLines (.error e) [i, s]
  | submitted {result : OrderResult} {i s : AuditEvent} (hi : i.IsIntentOf div order)
      (hs : s.IsSubmissionOf div order result.orderId) : ExecutedLines (.ok result) [i, s]

/-- The lines of an order of a run: after the execution there may be one of its result. -/
inductive OrderLines : List AuditEvent → Prop
  | nothing : OrderLines []
  | intended {i : AuditEvent} (hi : i.IsIntentOf div order) : OrderLines [i]
  | failed {i f : AuditEvent} (hi : i.IsIntentOf div order) (hf : f.IsFailure) : OrderLines [i, f]
  | submitted {i s : AuditEvent} (id : Int32) (hi : i.IsIntentOf div order)
      (hs : s.IsSubmissionOf div order id) : OrderLines [i, s]
  | filled {i s f : AuditEvent} (result : OrderResult) (hi : i.IsIntentOf div order)
      (hs : s.IsSubmissionOf div order result.orderId) (hf : f.IsFillOf result) :
      OrderLines [i, s, f]

variable {div order} {clientOrderId : String} {n timeout : Nat} {broker : BrokerGateway}
  {audit : AuditLog}

theorem failOrder_lines (errorType errorMessage message : String) {i : AuditEvent}
    (hi : i.IsIntentOf div order) :
    ∃ l, (failOrder order clientOrderId n audit errorType errorMessage message).2.events =
        audit.events ++ l ∧
      ExecutedLines div order
      (failOrder order clientOrderId n audit errorType errorMessage message).1
        (i :: l) := by
  obtain ⟨l, hlog, hl⟩ := writeLines_logCheckpoint audit .orderFailed (n + 1)
    (orderFailedData errorType errorMessage (failureContext order clientOrderId))
  rcases heq : logOrderFailedCheckpoint audit (n + 1) errorType errorMessage
    (failureContext order clientOrderId) with ⟨b, audit'⟩
  rw [← logOrderFailedCheckpoint, heq] at hlog hl
  simp only [failOrder, heq]
  cases hl with
  | written h =>
      obtain ⟨ts, rfl⟩ := h
      exact ⟨_, hlog, .failed hi ⟨ts, _, _, _, _, rfl⟩⟩
  | unsynced h =>
      obtain ⟨ts, rfl⟩ := h
      exact ⟨_, hlog, .failed hi ⟨ts, _, _, _, _, rfl⟩⟩
  | failed => exact ⟨_, hlog, .intended hi⟩

/-- The lines that the last answer leads to, after an intent. -/
theorem finishOrder_lines (response : Response) {i : AuditEvent} (hi : i.IsIntentOf div order) :
    ∃ l, (finishOrder div order clientOrderId n audit response).2.events = audit.events ++ l ∧
      ExecutedLines div order (finishOrder div order clientOrderId n audit response).1
      (i :: l) := by
  cases response with
  | ok result =>
      obtain ⟨l, hlog, hl⟩ := writeLines_logCheckpoint audit .orderSubmitted (n + 1)
        (orderSubmittedData div order result.orderId)
      rcases heq :
        logOrderSubmittedCheckpoint div audit (n + 1) order result.orderId with ⟨b, audit'⟩
      rw [← logOrderSubmittedCheckpoint, heq] at hlog hl
      simp only [finishOrder, heq]
      cases hl with
      | written h =>
          obtain ⟨ts, rfl⟩ := h
          exact ⟨_, hlog, .submitted hi ⟨ts, _, rfl⟩⟩
      | unsynced h =>
          obtain ⟨ts, rfl⟩ := h
          exact ⟨_, hlog, .unsynced hi ⟨ts, _, rfl⟩⟩
      | failed => exact ⟨_, hlog, .intended hi⟩
  | error e =>
      simp only [finishOrder]
      split_ifs
      · exact failOrder_lines _ _ _ hi
      · exact failOrder_lines _ _ _ hi

theorem attemptOrder_lines (retriesLeft : Nat) {i : AuditEvent} (hi : i.IsIntentOf div order) :
    ∃ l, (attemptOrder div order clientOrderId n timeout broker audit retriesLeft).2.2.events =
        audit.events ++ l ∧
      ExecutedLines div order
        (attemptOrder div order clientOrderId n timeout broker audit retriesLeft).1 (i :: l) := by
  rw [(attemptOrder_eq_finishOrder retriesLeft).1, (attemptOrder_eq_finishOrder retriesLeft).2]
  exact finishOrder_lines _ hi

/-- The lines of an order; the first is there if its write leaves it. -/
theorem executeOrderWithWriteAhead_lines (timestamp targetSpec : String) :
    ∃ l, (executeOrderWithWriteAhead div order clientOrderId n broker audit timeout timestamp
        targetSpec).2.2.events = audit.events ++ l ∧
      ExecutedLines div order
      (executeOrderWithWriteAhead div order clientOrderId n broker audit timeout
        timestamp targetSpec).1 l ∧
      (l = [] → order.shares < 0 ∨ (audit.writer 0).1.leavesLine = false) := by
  rw [executeOrderWithWriteAhead]
  split_ifs with hshares
  · exact ⟨[], (List.append_nil _).symm, .nothing, fun _ ↦ .inl hshares⟩
  have hintent (ts : Timestamp) : (checkpointEvent .orderIntent ts n (orderIntentData div order
      clientOrderId timestamp targetSpec ("rebalance_run:" ++ toString n))).IsIntentOf div order :=
    ⟨ts, n, _, _, _, _, rfl⟩
  obtain ⟨l, hlog, hl⟩ := writeLines_logCheckpoint audit .orderIntent n
    (orderIntentData div order clientOrderId timestamp targetSpec ("rebalance_run:" ++ toString n))
  rcases heq : logOrderIntentCheckpoint div audit n order clientOrderId timestamp targetSpec
    ("rebalance_run:" ++ toString n) with ⟨b, audit'⟩
  have hleaves := AuditLog.events_append audit fun ts ↦ checkpointEvent .orderIntent ts n
    (orderIntentData div order clientOrderId timestamp targetSpec ("rebalance_run:" ++ toString n))
  rw [← AuditLog.logCheckpoint, ← logOrderIntentCheckpoint, heq] at hleaves
  rw [← logOrderIntentCheckpoint, heq] at hlog hl
  cases hl with
  | written h =>
      obtain ⟨ts, rfl⟩ := h
      obtain ⟨l, hrest, hl⟩ := attemptOrder_lines (maxRetries - 1) (hintent ts)
      refine ⟨_ :: l, ?_, hl, fun h ↦ absurd h (List.cons_ne_nil _ _)⟩
      rw [hrest, hlog, List.append_assoc]
      rfl
  | unsynced h =>
      obtain ⟨ts, rfl⟩ := h
      exact ⟨_, hlog, .intended (hintent ts), fun h ↦ absurd h (List.cons_ne_nil _ _)⟩
  | failed =>
      refine ⟨_, hlog, .nothing, fun _ ↦ .inr (Bool.eq_false_iff.mpr fun hline ↦ ?_)⟩
      rw [hlog, if_pos hline] at hleaves
      simp at hleaves

/-- An intent whose line is not written ends the order. -/
theorem executeOrderWithWriteAhead_of_failed (hshares : ¬ order.shares < 0)
    (h : (audit.writer 0).1.leavesLine = false) (timestamp targetSpec : String) :
    executeOrderWithWriteAhead div order clientOrderId n broker audit timeout timestamp targetSpec =
      (.error .audit, broker, ⟨audit.events, fun i ↦ audit.writer (i + 1)⟩) := by
  have hfailed : (audit.writer 0).1 = .failed := by
    cases houtcome : (audit.writer 0).1 with
    | failed => rfl
    | written | unsynced => simp [houtcome, WriteOutcome.leavesLine] at h
  simp [executeOrderWithWriteAhead, if_neg hshares, logOrderIntentCheckpoint,
    AuditLog.logCheckpoint,
    AuditLog.append, hfailed, WriteOutcome.succeeded, WriteOutcome.leavesLine]

section Run

variable {W : Type} {prims : Primitives W} {input : RunInput W}

theorem emits_logExecution (counts : RunCounts) {result : Except ExecutionError OrderResult}
    {l : List AuditEvent} (hl : ExecutedLines prims.div order result l) :
    Emits Session.log (logExecution counts result) fun r l' ↦
      NotRejected r ∧ OrderLines prims.div order (l ++ l') := by
  cases result with
  | error e =>
      refine (Emits.pure _).mono fun r l' h ↦ ⟨h.1 ▸ trivial, ?_⟩
      rw [h.2, List.append_nil]
      cases hl with
      | nothing => exact .nothing
      | intended hi => exact .intended hi
      | failed hi hf => exact .failed hi hf
      | unsynced hi hs => exact .submitted _ hi hs
  | ok result =>
      cases hl with
      | submitted hi hs =>
          have hcount (r : RunCounts × Option Int32) : Emits Session.log (pure r : Run _) fun r l ↦
              NotRejected r ∧ l = [] := (Emits.pure r).mono fun _ _ h ↦ ⟨h.1 ▸ trivial, h.2⟩
          refine (Emits.bind (writes_logNextCheckpoint _ _)
            (M := fun _ r l ↦ NotRejected r ∧ l = [])
            fun _ _ _ ↦ by cases result.status <;> exact hcount _).mono fun r l' h ↦ ?_
          have hwrite : NotRejected r ∧ ∃ b, WriteLines (AuditEvent.IsFillOf result) b l' := by
            rcases h with ⟨e, rfl, b, hb, hl⟩ | ⟨-, l₁, -, rfl, ⟨b, -, hl⟩, hr, rfl⟩
            · have hrejected := notRejected_writeResult b
              rw [← hb] at hrejected
              exact ⟨hrejected, b, hl⟩
            · exact ⟨hr, b, l₁.append_nil.symm ▸ hl⟩
          obtain ⟨hr, b, hl⟩ := hwrite
          cases hl with
          | written hf => exact ⟨hr, .filled result hi hs hf⟩
          | unsynced hf => exact ⟨hr, .filled result hi hs hf⟩
          | failed => exact ⟨hr, .submitted _ hi hs⟩

/-- However the processing of an order ends. -/
theorem processOrder_lines (counts : RunCounts) (s : Session) :
    ∃ l, (processOrder prims input counts order s).2.log = s.log ++ l ∧
      NotRejected (processOrder prims input counts order s).1 ∧ OrderLines prims.div order l ∧
      (l = [] → order.shares < 0 ∨ (s.audit.writer 0).1.leavesLine = false) := by
  rw [processOrder, deriveClientOrderId]
  split_ifs with hshares
  · exact ⟨[], (List.append_nil _).symm, rfl, .nothing, fun _ ↦ .inl hshares⟩
  rw [bind_of_ok (show (pure _ : Run String) s = _ from rfl),
    bind_of_ok (show nextCheckpointSequence s = _ from rfl),
    bind_of_ok (show executeOrder _ _ _ _ _ _ = _ from rfl),
    bind_of_ok (show raiseCheckpointSequence _ _ = _ from rfl)]
  obtain ⟨l, hlog, hl, hnil⟩ := executeOrderWithWriteAhead_lines
    (input.env.timestamp (s.checkpointSequence + 1)) input.target.idempotencyScope
  obtain ⟨l', hlog', hr, hl'⟩ :=
    emits_logExecution { counts with submitted := counts.submitted + 1 } hl _
  refine ⟨l ++ l', hlog'.trans ?_, hr, hl', fun h ↦ hnil (List.append_eq_nil_iff.mp h).1⟩
  rw [← List.append_assoc]
  exact congrArg (· ++ l') hlog

theorem processOrder_of_failed (hshares : ¬ order.shares < 0) {s : Session}
    (h : (s.audit.writer 0).1.leavesLine = false) (counts : RunCounts) :
    (processOrder prims input counts order s).2.log = s.log ∧
      ∀ i, (processOrder prims input counts order s).2.audit.writer i = s.audit.writer (i + 1) := by
  have hexecute (clientOrderId : String) (n : Nat) : executeOrder prims input order clientOrderId n
      { s with checkpointSequence := n } = (.ok (.error .audit),
        { s with
          checkpointSequence := n
          audit := ⟨s.audit.events, fun i ↦ s.audit.writer (i + 1)⟩ }) := by
    simp only [executeOrder, executeOrderWithWriteAhead_of_failed hshares h]
  rw [processOrder, deriveClientOrderId, if_neg hshares,
    bind_of_ok (show (pure _ : Run String) s = _ from rfl),
    bind_of_ok (show nextCheckpointSequence s = _ from rfl), bind_of_ok (hexecute _ _),
    bind_of_ok (show raiseCheckpointSequence _ _ = _ from rfl)]
  exact ⟨rfl, fun _ ↦ rfl⟩

end Run

end Order

/-! ## The parts of a run -/

/-- What is fetched is what was answered. -/
def FetchedFrom {A : Type} (answer : Except BrokerError A) : Except RunError A → Prop
  | .ok a => answer = .ok a
  | .error e => e.isRejection = false

section Parts

variable {W : Type} {prims : Primitives W} {input : RunInput W} {p : AuditEvent → Prop}

theorem emitsOnly_logNextCheckpoint {c : Checkpoint}
    (hc : ∀ ts n data, p (checkpointEvent c ts n data))
    (data : Nat → Json) : EmitsOnly Session.log p NotRejected (logNextCheckpoint c data) :=
  (writes_logNextCheckpoint c data).emitsOnly (fun _ ⟨ts, n, he⟩ ↦ he ▸ hc ts n _)
    notRejected_writeResult

theorem emitsOnly_logWithIdempotency {event : String} {n : Option Nat} {windowId : Option String}
    (hevent : ∀ ts data, p ⟨event, ts, n, windowId, data⟩) (data : Json) :
    EmitsOnly Session.log p NotRejected
      (writeLog fun audit ↦ audit.logWithIdempotency event n windowId data) :=
  (writes_logWithIdempotency event n windowId data).emitsOnly (fun _ ⟨ts, he⟩ ↦ he ▸ hevent ts data)
    notRejected_writeResult

theorem emitsOnly_fetchWithWriteAhead {A : Type} {intent result : Checkpoint}
    (hintent : ∀ ts n data, p (checkpointEvent intent ts n data))
    (hresult : ∀ ts n data, p (checkpointEvent result ts n data)) (intentData : Nat → Json)
    (answer : Except BrokerError A) (resultData : A → Json) :
    EmitsOnly Session.log p (FetchedFrom answer)
      (fetchWithWriteAhead intent result intentData answer resultData) := by
  refine (emitsOnly_logNextCheckpoint hintent _).bind (fun _ _ ↦ ?_) fun _ he ↦ he
  cases answer with
  | error e => exact EmitsOnly.raise rfl
  | ok a =>
      exact (emitsOnly_logNextCheckpoint hresult _).bind (fun _ _ ↦ EmitsOnly.pure rfl) fun _ he ↦
        he

theorem emitsOnly_raise {A : Type} {e : RunError} (he : e.isRejection = false) :
    EmitsOnly Session.log p NotRejected (raise e : Run A) :=
  EmitsOnly.raise he

theorem emitsOnly_bind {A B : Type} {m : Run A} {f : A → Run B}
    (hm : EmitsOnly Session.log p NotRejected m)
    (hf : ∀ a, EmitsOnly Session.log p NotRejected (f a)) :
    EmitsOnly Session.log p NotRejected (m >>= f) :=
  hm.bind (fun a _ ↦ hf a) fun _ he ↦ he

theorem emitsOnly_when {c : Prop} [Decidable c] {m : Run Unit}
    (hm : EmitsOnly Session.log p NotRejected m) :
    EmitsOnly Session.log p NotRejected (Program.when c m) :=
  EmitsOnly.ite hm (EmitsOnly.pure trivial)

theorem emitsOnly_checkStaleness (quotes : List Quote) (i : Nat) :
    EmitsOnly Session.log p NotRejected (checkStaleness input i quotes) := by
  induction quotes generalizing i with
  | nil => exact EmitsOnly.pure trivial
  | cons quote rest ih =>
      rw [checkStaleness]
      split
      · exact EmitsOnly.ite (emitsOnly_raise rfl) (ih _)
      · exact emitsOnly_raise rfl

theorem emitsOnly_checkRisk (hcheck : ∀ ts data, p ⟨"risk_check", ts, none, none, data⟩)
    (hpassed : ∀ ts n data, p (checkpointEvent .riskCheckPassed ts n data)) (summary : Account)
    (positions : List CurrentPosition) (prices : List (Symbol × Int64))
    (orders : List RebalanceOrder) :
    EmitsOnly Session.log p NotRejected (checkRisk prims input summary positions prices orders) :=
  emitsOnly_bind (emitsOnly_logWithIdempotency hcheck _) fun _ ↦
    EmitsOnly.ite (emitsOnly_raise rfl) (emitsOnly_logNextCheckpoint hpassed _)

theorem emitsOnly_confirm (hconfirmed : ∀ ts data, p ⟨"user_confirmed", ts, none, none, data⟩) :
    EmitsOnly Session.log p NotRejected (confirm input) := by
  refine (EmitsOnly.pure trivial).ite ((EmitsOnly.pure trivial).ite ?_)
  cases input.env.confirmation with
  | error e => exact emitsOnly_raise rfl
  | ok approved =>
      exact emitsOnly_bind (emitsOnly_logWithIdempotency hconfirmed _) fun _ ↦
        EmitsOnly.pure trivial

theorem emitsOnly_cancelOrderWithWriteAhead
    (hintent : ∀ ts n data, p (checkpointEvent .cancelIntent ts n data))
    (hresult : ∀ ts n data, p (checkpointEvent .cancelResult ts n data)) (orderId : Nat)
    (reason : String) :
    EmitsOnly Session.log p NotRejected (cancelOrderWithWriteAhead input orderId reason) := by
  refine emitsOnly_bind (emitsOnly_logNextCheckpoint hintent _) fun _ ↦ ?_
  cases input.env.cancellation with
  | ok _ => exact emitsOnly_logNextCheckpoint hresult _
  | error e =>
      exact emitsOnly_bind (emitsOnly_logNextCheckpoint hresult _) fun _ ↦ emitsOnly_raise rfl

theorem emitsOnly_logKillCompleted (hkill : ∀ ts data, p ⟨"kill_completed", ts, none, none, data⟩)
    (count : Nat) : EmitsOnly Session.log p NotRejected (logKillCompleted input count) :=
  emitsOnly_logWithIdempotency hkill _

theorem emitsOnly_shutDownAfter (hintent : ∀ ts n data, p (checkpointEvent .cancelIntent ts n data))
    (hresult : ∀ ts n data, p (checkpointEvent .cancelResult ts n data))
    (hkill : ∀ ts data, p ⟨"kill_completed", ts, none, none, data⟩) (remaining : Nat)
    (orderId : Option Int32) :
    EmitsOnly Session.log p NotRejected (shutDownAfter input remaining orderId) := by
  cases orderId with
  | none => exact emitsOnly_logKillCompleted hkill _
  | some orderId =>
      exact emitsOnly_bind (emitsOnly_cancelOrderWithWriteAhead hintent hresult _ _) fun _ ↦
        emitsOnly_logKillCompleted hkill _

/-- The lines of the last fetches. -/
theorem emitsOnly_reconcile
    (hfetch : ∀ c ∈ [Checkpoint.positionsIntent, .positionsResult, .quotesIntent,
    .quotesResult, .accountSummaryIntent, .accountSummaryResult],
      ∀ ts n data, p (checkpointEvent c ts n data)) (summary : Account) (allSymbols : List Symbol) :
    EmitsOnly Session.log p NotRejected (reconcile prims input summary allSymbols) := by
  refine (emitsOnly_fetchWithWriteAhead (hfetch _ (by decide)) (hfetch _ (by decide)) _ _ _).bind
    (fun _ _ ↦ ?_) fun _ he ↦ he
  refine (emitsOnly_fetchWithWriteAhead (hfetch _ (by decide)) (hfetch _ (by decide)) _ _ _).bind
    (fun _ _ ↦ ?_) fun _ he ↦ he
  exact (emitsOnly_fetchWithWriteAhead (hfetch _ (by decide)) (hfetch _ (by decide)) _ _ _).bind
    (fun _ _ ↦ EmitsOnly.pure trivial) fun _ he ↦ he

theorem emitsOnly_finishRun (hneeded : ∀ ts data, p ⟨"no_rebalance_needed", ts, none, none, data⟩)
    (hcron : ∀ ts n windowId data, p ⟨"cron_completed", ts, n, windowId, data⟩)
    (hcompleted : ∀ ts n data, p (checkpointEvent .runCompleted ts n data)) (n : Nat)
    (outcome : RunOutcome) :
    EmitsOnly Session.log p NotRejected (finishRun prims input n outcome) := by
  cases outcome with
  | nothingToDo =>
      exact emitsOnly_bind (emitsOnly_logWithIdempotency hneeded _) fun _ ↦
        emitsOnly_logNextCheckpoint hcompleted _
  | stopped => exact EmitsOnly.pure trivial
  | reconciled counts =>
      exact emitsOnly_bind
        (emitsOnly_when (emitsOnly_logWithIdempotency (fun ts data ↦ hcron ts _ _ data) _))
        fun _ ↦ emitsOnly_logNextCheckpoint hcompleted _

end Parts

/-! ## Everything before the completion -/

section Rebalance

variable {W : Type} (prims : Primitives W) (input : RunInput W)

/-- The lines between the start of a run and its completion.  A diff has the orders of the plan. -/
inductive RebalanceLine : AuditEvent → Prop
  | checkpoint {c : Checkpoint} (hstarted : c ≠ .runStarted) (hcompleted : c ≠ .runCompleted)
      (hdiff : c ≠ .diffComputed) (ts : Timestamp) (n : Nat) (data : Json) :
      RebalanceLine (checkpointEvent c ts n data)
  | diff {orders : List RebalanceOrder} (hplan : plannedOrders prims input = some orders)
      (ts : Timestamp) (n : Nat) :
      RebalanceLine (checkpointEvent .diffComputed ts n (diffData prims.div orders))
  | other {event : String} (hevent : Checkpoint.fromEventName event = none)
      (hcompleted : event ≠ "cron_completed") (ts : Timestamp) (data : Json) :
      RebalanceLine ⟨event, ts, none, none, data⟩

/-- The plan is empty where there is nothing to do, and not otherwise. -/
def OutcomeOfPlan : Except RunError RunOutcome → Prop
  | .ok .nothingToDo => plannedOrders prims input = some []
  | .ok .stopped | .ok (.reconciled _) =>
      ∃ order orders, plannedOrders prims input = some (order :: orders)
  | .error e => e.isRejection = false

variable {prims input}

theorem rebalanceLine_of_mem {c : Checkpoint} {ts : Timestamp} {n : Nat} {data : Json}
    (hc : c ∉ [.runStarted, .runCompleted, .diffComputed]) :
    RebalanceLine prims input (checkpointEvent c ts n data) := by
  simp only [List.mem_cons, List.not_mem_nil, or_false, not_or] at hc
  exact .checkpoint hc.1 hc.2.1 hc.2.2 ts n data

theorem rebalanceLine_other {event : String} (hevent : Checkpoint.fromEventName event = none)
    (hcompleted : event ≠ "cron_completed") (ts : Timestamp) (data : Json) :
    RebalanceLine prims input ⟨event, ts, none, none, data⟩ :=
  .other hevent hcompleted ts data

/-- The fetches before the plan. -/
theorem emitsOnly_fetch {A : Type} {intent result : Checkpoint}
    (hintent : intent ∉ [.runStarted, .runCompleted, .diffComputed])
    (hresult : result ∉ [.runStarted, .runCompleted, .diffComputed]) (intentData : Nat → Json)
    (answer : Except BrokerError A) (resultData : A → Json) :
    EmitsOnly Session.log (RebalanceLine prims input) (FetchedFrom answer)
      (fetchWithWriteAhead intent result intentData answer resultData) :=
  emitsOnly_fetchWithWriteAhead (fun _ _ _ ↦ rebalanceLine_of_mem hintent)
    (fun _ _ _ ↦ rebalanceLine_of_mem hresult) intentData answer resultData

/-- What is planned is computed from the answers. -/
theorem emitsOnly_computePlan : EmitsOnly Session.log (RebalanceLine prims input)
    (fun r ↦ NotRejected r ∧ ∀ plan, r = .ok plan → plannedOrders prims input = some plan.2.2.2.2)
    (computePlan prims input) := by
  refine (emitsOnly_fetch (by decide) (by decide) _ _ _).bind (fun summary hsummary ↦ ?_)
    fun _ he ↦ ⟨he, fun _ h ↦ by cases h⟩
  refine (emitsOnly_fetch (by decide) (by decide) _ _ _).bind
    (fun positions hpositions ↦ ?_) fun _ he ↦ ⟨he, fun _ h ↦ by cases h⟩
  refine (emitsOnly_fetch (by decide) (by decide) _ _ _).bind
    (fun quotes hquotes ↦ ?_) fun _ he ↦ ⟨he, fun _ h ↦ by cases h⟩
  have hplan : plannedOrders prims input = some (computeDiff prims.targetValue summary.equityCents
      (toCurrentPositions positions) input.target.targets (quoteMidPrices quotes)
      input.config.limitOffsetBps input.config.minTradeCents) := by
    simp only [FetchedFrom] at hsummary hpositions hquotes
    simp only [plannedOrders, hsummary, hpositions, hquotes]
  refine (emitsOnly_checkStaleness _ _).bind (fun _ _ ↦ EmitsOnly.ite ?_ ?_)
    fun _ he ↦ ⟨he, fun _ h ↦ by cases h⟩
  · exact EmitsOnly.raise ⟨rfl, fun _ h ↦ by cases h⟩
  · refine ((writes_logNextCheckpoint _ _).emitsOnly (fun e ⟨ts, n, he⟩ ↦ ?_)
      notRejected_writeResult).bind (fun _ _ ↦ EmitsOnly.pure ⟨trivial, fun plan h ↦ ?_⟩)
      fun _ he ↦ ⟨he, fun _ h ↦ by cases h⟩
    · cases h
      exact hplan
    · exact he ▸ .diff hplan ts n

theorem rebalanceLine_of_orderLines {order : RebalanceOrder} {l : List AuditEvent}
    (h : OrderLines prims.div order l) : ∀ e ∈ l, RebalanceLine prims input e := by
  have hintent {e : AuditEvent} (he : e.IsIntentOf prims.div order) :
    RebalanceLine prims input e := by
    obtain ⟨ts, n, _, _, _, _, rfl⟩ := he
    exact .checkpoint (by decide) (by decide) (by decide) _ _ _
  have hsubmission {e : AuditEvent} {id : Int32} (he : e.IsSubmissionOf prims.div order id) :
      RebalanceLine prims input e := by
    obtain ⟨ts, n, rfl⟩ := he
    exact .checkpoint (by decide) (by decide) (by decide) _ _ _
  cases h with
  | nothing => simp
  | intended hi => simpa using hintent hi
  | failed hi hf =>
      obtain ⟨ts, n, _, _, _, rfl⟩ := hf
      simpa using ⟨hintent hi, .checkpoint (by decide) (by decide) (by decide) _ _ _⟩
  | submitted id hi hs => simpa using ⟨hintent hi, hsubmission hs⟩
  | filled result hi hs hf =>
      obtain ⟨ts, n, rfl⟩ := hf
      simpa using ⟨hintent hi, hsubmission hs,
        .checkpoint (by decide) (by decide) (by decide) _ _ _⟩

theorem emitsOnly_processOrder (counts : RunCounts) (order : RebalanceOrder) :
    EmitsOnly Session.log (RebalanceLine prims input) NotRejected
      (processOrder prims input counts order) :=
  fun s ↦
    have ⟨l, hlog, hr, hl, _⟩ := processOrder_lines counts s
    ⟨l, hlog, rebalanceLine_of_orderLines hl, hr⟩

theorem emitsOnly_executeOrders (orders : List RebalanceOrder) (i : Nat) (counts : RunCounts) :
    EmitsOnly Session.log (RebalanceLine prims input) NotRejected
      (executeOrders prims input i counts orders) := by
  have hkill (ts : Timestamp) (data : Json) :
      RebalanceLine prims input ⟨"kill_completed", ts, none, none, data⟩ :=
    rebalanceLine_other (by decide) (by decide) ts data
  induction orders generalizing i counts with
  | nil => exact EmitsOnly.pure trivial
  | cons order rest ih =>
      refine EmitsOnly.ite (emitsOnly_bind (emitsOnly_logKillCompleted hkill _) fun _ ↦
        EmitsOnly.pure trivial) ?_
      refine emitsOnly_bind (emitsOnly_processOrder counts order) fun _ ↦ EmitsOnly.ite ?_ (ih _ _)
      exact emitsOnly_bind (emitsOnly_shutDownAfter (fun _ _ _ ↦ rebalanceLine_of_mem (by decide))
        (fun _ _ _ ↦ rebalanceLine_of_mem (by decide)) hkill _ _) fun _ ↦ EmitsOnly.pure trivial

theorem emitsOnly_rebalance : EmitsOnly Session.log (RebalanceLine prims input)
    (OutcomeOfPlan prims input) (rebalance prims input) := by
  refine emitsOnly_computePlan.bind (fun plan hplan ↦ ?_) fun _ he ↦ he.1
  obtain ⟨summary, positions, prices, allSymbols, orders⟩ := plan
  have hplan : plannedOrders prims input = some orders := hplan.2 _ rfl
  cases orders with
  | nil => exact EmitsOnly.pure hplan
  | cons order rest =>
      have hcons : ∃ order orders, plannedOrders prims input = some (order :: orders) :=
        ⟨order, rest, hplan⟩
      refine (emitsOnly_checkRisk (rebalanceLine_other (by decide) (by decide))
        (fun _ _ _ ↦ rebalanceLine_of_mem (by decide)) _ _ _ _).bind (fun _ _ ↦ ?_) fun _ he ↦ he
      refine (emitsOnly_confirm (rebalanceLine_other (by decide) (by decide))).bind
        (fun _ _ ↦ EmitsOnly.ite (EmitsOnly.pure hcons) ?_) fun _ he ↦ he
      refine (emitsOnly_executeOrders _ _ _).bind (fun executed _ ↦ ?_) fun _ he ↦ he
      cases executed with
      | none => exact EmitsOnly.pure hcons
      | some counts =>
          have hfetch :
            ∀ c ∈ [Checkpoint.positionsIntent, .positionsResult, .quotesIntent, .quotesResult,
              .accountSummaryIntent, .accountSummaryResult],
              c ∉ [Checkpoint.runStarted, .runCompleted, .diffComputed] := by decide
          exact (emitsOnly_reconcile (fun c hc _ _ _ ↦ rebalanceLine_of_mem (hfetch c hc)) _ _).bind
            (fun _ _ ↦ EmitsOnly.pure hcons) fun _ he ↦ he

end Rebalance

/-! ## The start -/

/-- The lines before the first fetch, of a run that is not rejected. -/
inductive StartLine : AuditEvent → Prop
  | started (ts : Timestamp) (n : Nat) (data : Json) :
      StartLine (checkpointEvent .runStarted ts n data)
  | cron (ts : Timestamp) (n : Option Nat) (windowId : Option String) (data : Json) :
      StartLine ⟨"cron_start", ts, n, windowId, data⟩

theorem emitsOnly_begin {W : Type} {prims : Primitives W} {input : RunInput W} :
    EmitsOnly Session.log StartLine NotRejected (do connect input; beginRun prims input) := by
  have hconnect : EmitsOnly Session.log StartLine NotRejected (connect input) := by
    rw [connect]
    cases input.env.connection with
    | ok _ => exact EmitsOnly.of_eq (fun _ ↦ rfl) fun _ ↦ trivial
    | error message => exact EmitsOnly.raise rfl
  refine hconnect.bind (fun _ _ ↦ ?_) fun _ he ↦ he
  refine EmitsOnly.bind (q := NotRejected) (EmitsOnly.of_eq (fun _ ↦ rfl) fun _ ↦ trivial)
    (fun existing _ ↦ ?_) fun _ he ↦ he
  cases input.env.clock with
  | none => exact EmitsOnly.raise rfl
  | some now =>
      refine EmitsOnly.bind (q := NotRejected) (EmitsOnly.of_eq (fun _ ↦ rfl) fun _ ↦ trivial)
        (fun _ _ ↦ ?_) fun _ he ↦ he
      refine ((writes_logNextCheckpoint _ _).emitsOnly (fun e ⟨ts, n, he⟩ ↦ he ▸ .started ts n _)
        notRejected_writeResult).bind (fun _ _ ↦ ?_) fun _ he ↦ he
      exact EmitsOnly.bind (q := NotRejected) (EmitsOnly.ite
        ((writes_logWithIdempotency _ _ _ _).emitsOnly (fun e ⟨ts, he⟩ ↦ he ▸ .cron ts _ _ _)
          notRejected_writeResult) (EmitsOnly.pure trivial))
        (fun _ _ ↦ EmitsOnly.pure trivial) fun _ he ↦ he

/-! ## The check of the window -/

section Check

variable {W : Type} {prims : Primitives W} {input : RunInput W} {s : Session}

/-- The rejection is logged; where that fails, its error is returned. -/
theorem checkIdempotency_of_marked {n : Nat}
    (h : checkWindowAlreadyComplete s.log (input.target.windowId prims) = some n) :
    checkIdempotency prims input s =
      (.error (if s.audit.accepts then .idempotencyRejection (input.target.windowId prims) n
        else .audit),
        { s with audit := (s.audit.logWithIdempotency "idempotency_rejection" (some n)
          (some (input.target.windowId prims)) (.obj [])).2 }) := by
  rw [checkIdempotency, bind_of_ok (show Program.read _ s = _ from rfl)]
  simp only [h]
  rcases heq : s.audit.logWithIdempotency "idempotency_rejection" (some n)
    (some (input.target.windowId prims)) (.obj []) with ⟨b, audit⟩
  have hb : s.audit.accepts = b := congrArg Prod.fst heq
  cases b with
  | true =>
      rw [bind_of_ok (a := ()) (by rw [writeLog, heq]), hb]
      rfl
  | false =>
      rw [bind_of_error (e := .audit) (by rw [writeLog, heq]), hb]
      rfl

theorem checkIdempotency_of_unmarked
    (h : checkWindowAlreadyComplete s.log (input.target.windowId prims) = none) :
    checkIdempotency prims input s = (.ok (), s) := by
  rw [checkIdempotency, bind_of_ok (show Program.read _ s = _ from rfl)]
  simp only [h]
  rfl

end Check

end Nanobook.Rebalancer
