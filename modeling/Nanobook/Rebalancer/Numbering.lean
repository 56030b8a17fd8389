import Nanobook.Rebalancer.Reconcile
import Nanobook.Rebalancer.Run
import Nanobook.Rebalancer.Validator

/-!
# The numbers of checkpoints

A run takes its numbers above all that are in the file, whatever the clock says, and counts on from
there; a recovery counts on from the last checkpoint that it has read.  So the numbers increase over
the whole file, whatever processes wrote it one after the other, and wherever these crashed.
-/

namespace Nanobook.Rebalancer

/-- The numbers increase up to one that is not exceeded. -/
structure NumberedUpTo (events : List AuditEvent) (bound : Nat) : Prop where
  increasing : Increasing events
  le_bound : ∀ n ∈ checkpointSequences events, n ≤ bound

/-! ## Lines -/

section Lines

variable {events : List AuditEvent} {audit : AuditLog} {c : Checkpoint} {e : AuditEvent} {k n : Nat}
  {data : Json}

theorem Increasing.numberedUpTo (h : Increasing events) :
    NumberedUpTo events (maxCheckpointSequence events) :=
  ⟨h, fun _ hn ↦ le_maxCheckpointSequence hn⟩

theorem NumberedUpTo.mono (h : NumberedUpTo events k) (hle : k ≤ n) : NumberedUpTo events n :=
  ⟨h.increasing, fun m hm ↦ (h.le_bound m hm).trans hle⟩

/-- A checkpoint under a higher number. -/
theorem NumberedUpTo.concat (h : NumberedUpTo events k) (hlt : k < n) (ts : Timestamp) :
    NumberedUpTo (events ++ [checkpointEvent c ts n data]) n where
  increasing := increasing_concat_iff.mpr
    ⟨h.increasing, fun _ ↦ ⟨n, rfl, fun m hm ↦ (h.le_bound m hm).trans_lt hlt⟩⟩
  le_bound m hm := by
    rw [checkpointSequences_append] at hm
    rcases List.mem_append.mp hm with hm | hm
    · exact ((h.le_bound m hm).trans_lt hlt).le
    · obtain ⟨e, he, hseq⟩ := List.mem_filterMap.mp hm
      obtain rfl := List.mem_singleton.mp he
      rw [checkpointSequence_of_checkpoint (checkpoint_checkpointEvent c ts n data)] at hseq
      exact (Option.some.inj hseq).ge

/-- An event that is no checkpoint. -/
theorem NumberedUpTo.concat_of_none (h : NumberedUpTo events k) (he : e.checkpoint = none) :
    NumberedUpTo (events ++ [e]) k where
  increasing := increasing_concat_iff.mpr ⟨h.increasing, fun hsome ↦ by simp [he] at hsome⟩
  le_bound m hm := by
    rw [checkpointSequences_append] at hm
    rcases List.mem_append.mp hm with hm | hm
    · exact h.le_bound m hm
    · simp [checkpointSequences, checkpointSequence_of_none he] at hm

/-- Whether the write of a checkpoint succeeds or not. -/
theorem NumberedUpTo.logCheckpoint (h : NumberedUpTo audit.events k) (hlt : k < n) :
    NumberedUpTo (audit.logCheckpoint c n data).2.events n := by
  rw [AuditLog.logCheckpoint, AuditLog.events_append]
  split_ifs
  · exact h.concat hlt _
  · rw [List.append_nil]
    exact h.mono hlt.le

theorem NumberedUpTo.logWithIdempotency (h : NumberedUpTo audit.events k) {event : String}
    (hevent : Checkpoint.fromEventName event = none) (sequenceNumber : Option Nat)
    (windowId : Option String) (data : Json) :
    NumberedUpTo (audit.logWithIdempotency event sequenceNumber windowId data).2.events k := by
  rw [AuditLog.logWithIdempotency, AuditLog.events_append]
  split_ifs
  · exact h.concat_of_none hevent
  · rw [List.append_nil]
    exact h

end Lines

/-! ## An order -/

section Order

variable {div : CentDivision} {order : RebalanceOrder} {clientOrderId : String}
  {broker : BrokerGateway}
  {audit : AuditLog} {k n timeout : Nat}

theorem NumberedUpTo.finishOrder (h : NumberedUpTo audit.events n) (response : Response) :
    NumberedUpTo (finishOrder div order clientOrderId n audit response).2.events (n + 1) := by
  have hfail (errorType errorMessage message : String) : NumberedUpTo
      (failOrder order clientOrderId n audit errorType errorMessage message).2.events (n + 1) := by
    rw [failOrder]
    split <;> rename_i heq <;> obtain ⟨-, rfl⟩ := Prod.mk.inj heq <;>
      exact h.logCheckpoint n.lt_succ_self
  cases response with
  | ok result =>
      rw [Rebalancer.finishOrder]
      split <;> rename_i heq <;> obtain ⟨-, rfl⟩ := Prod.mk.inj heq <;>
        exact h.logCheckpoint n.lt_succ_self
  | error e =>
      rw [Rebalancer.finishOrder]
      split_ifs
      · exact hfail _ _ _
      · exact hfail _ _ _

/-- The outcome has the number after that of the intent. -/
theorem NumberedUpTo.executeOrderWithWriteAhead (h : NumberedUpTo audit.events k) (hlt : k < n)
    (timestamp targetSpec : String) :
    NumberedUpTo
    (executeOrderWithWriteAhead div order clientOrderId n broker audit timeout timestamp
      targetSpec).2.2.events (n + 1) := by
  rw [Rebalancer.executeOrderWithWriteAhead]
  split_ifs
  · exact h.mono (Nat.le_succ_of_le hlt.le)
  split <;> rename_i heq <;> obtain ⟨-, rfl⟩ := Prod.mk.inj heq
  · exact (h.logCheckpoint hlt).mono n.le_succ
  · rw [(attemptOrder_eq_finishOrder _).2]
    exact (h.logCheckpoint hlt).finishOrder _

end Order

/-! ## A run -/

/-- The numbers in the file increase, and the next one that is taken exceeds them. -/
def Session.Numbered (s : Session) : Prop := NumberedUpTo s.log s.checkpointSequence

section Run

open Program

variable {W : Type} {prims : Primitives W} {input : RunInput W}

theorem keeps_logNextCheckpoint (checkpoint : Checkpoint) (data : Nat → Json) :
    Keeps Session.Numbered (logNextCheckpoint checkpoint data) := by
  intro s hs
  have hs : NumberedUpTo s.audit.events s.checkpointSequence := hs
  have hnext : NumberedUpTo (s.audit.logCheckpoint checkpoint (s.checkpointSequence + 1)
      (data (s.checkpointSequence + 1))).2.events (s.checkpointSequence + 1) :=
    hs.logCheckpoint s.checkpointSequence.lt_succ_self
  simp only [logNextCheckpoint, bind_of_ok (show nextCheckpointSequence s = _ from rfl), writeLog]
  split <;> rename_i heq <;> obtain ⟨-, rfl⟩ := Prod.mk.inj heq <;> exact hnext

/-- An event that is no checkpoint, whatever number it carries. -/
theorem keeps_writeLog {event : String} (hevent : Checkpoint.fromEventName event = none)
    (sequenceNumber : Option Nat) (windowId : Option String) (data : Json) :
    Keeps Session.Numbered (writeLog fun audit ↦
      audit.logWithIdempotency event sequenceNumber windowId data) := by
  intro s hs
  have hs : NumberedUpTo s.audit.events s.checkpointSequence := hs
  have hwrite := hs.logWithIdempotency hevent sequenceNumber windowId data
  simp only [writeLog]
  split <;> rename_i heq <;> obtain ⟨-, rfl⟩ := Prod.mk.inj heq <;> exact hwrite

theorem keeps_fetchWithWriteAhead {A : Type} (intent result : Checkpoint) (intentData : Nat → Json)
    (answer : Except BrokerError A) (resultData : A → Json) :
    Keeps Session.Numbered (fetchWithWriteAhead intent result intentData answer resultData) := by
  refine (keeps_logNextCheckpoint _ _).bind fun _ ↦ ?_
  cases answer with
  | error e => exact Keeps.raise _
  | ok a => exact (keeps_logNextCheckpoint _ _).bind fun _ ↦ Keeps.pure a

theorem keeps_checkStaleness (quotes : List Quote) (i : Nat) :
    Keeps Session.Numbered (checkStaleness input i quotes) := by
  induction quotes generalizing i with
  | nil => exact Keeps.pure ()
  | cons quote rest ih =>
      rw [checkStaleness]
      split
      · exact (Keeps.raise _).ite (ih _)
      · exact Keeps.raise _

theorem keeps_deriveClientOrderId (order : RebalanceOrder) :
    Keeps Session.Numbered (deriveClientOrderId prims input order) :=
  (Keeps.raise _).ite (Keeps.pure _)

theorem keeps_logExecution (counts : RunCounts) (result : Except ExecutionError OrderResult) :
    Keeps Session.Numbered (logExecution counts result) := by
  cases result with
  | error e => exact Keeps.pure _
  | ok result =>
      refine (keeps_logNextCheckpoint _ _).bind fun _ ↦ ?_
      cases result.status <;> exact Keeps.pure _

/-- The intent and the outcome of an order are numbered one after the other, and the next number is
taken after both. -/
theorem keeps_processOrder (counts : RunCounts) (order : RebalanceOrder) :
    Keeps Session.Numbered (processOrder prims input counts order) := by
  refine (keeps_deriveClientOrderId order).bind fun clientOrderId s hs ↦ ?_
  have hs : NumberedUpTo s.audit.events s.checkpointSequence := hs
  rw [bind_of_ok (show nextCheckpointSequence s = _ from rfl),
    bind_of_ok (show executeOrder _ _ _ _ _ _ = _ from rfl),
    bind_of_ok (show raiseCheckpointSequence _ _ = _ from rfl)]
  refine keeps_logExecution _ _ _ (NumberedUpTo.mono ?_ (Nat.le_max_right _ _))
  exact hs.executeOrderWithWriteAhead s.checkpointSequence.lt_succ_self _ _

theorem keeps_cancelOrderWithWriteAhead (orderId : Nat) (reason : String) :
    Keeps Session.Numbered (cancelOrderWithWriteAhead input orderId reason) := by
  refine (keeps_logNextCheckpoint _ _).bind fun _ ↦ ?_
  cases input.env.cancellation with
  | ok _ => exact keeps_logNextCheckpoint _ _
  | error e => exact (keeps_logNextCheckpoint _ _).bind fun _ ↦ Keeps.raise _

theorem keeps_logKillCompleted (count : Nat) :
    Keeps Session.Numbered (logKillCompleted input count) :=
  keeps_writeLog (by decide) none none _

theorem keeps_shutDownAfter (remaining : Nat) (orderId : Option Int32) :
    Keeps Session.Numbered (shutDownAfter input remaining orderId) := by
  cases orderId with
  | none => exact keeps_logKillCompleted _
  | some orderId =>
      exact (keeps_cancelOrderWithWriteAhead _ _).bind fun _ ↦ keeps_logKillCompleted _

theorem keeps_executeOrders (orders : List RebalanceOrder) (i : Nat) (counts : RunCounts) :
    Keeps Session.Numbered (executeOrders prims input i counts orders) := by
  induction orders generalizing i counts with
  | nil => exact Keeps.pure _
  | cons order rest ih =>
      refine Keeps.ite ?_
        ((keeps_processOrder counts order).bind fun processed ↦ Keeps.ite ?_ (ih _ _))
      · exact (keeps_logKillCompleted _).bind fun _ ↦ Keeps.pure none
      · exact (keeps_shutDownAfter _ _).bind fun _ ↦ Keeps.pure none

theorem keeps_computePlan : Keeps Session.Numbered (computePlan prims input) := by
  refine (keeps_fetchWithWriteAhead _ _ _ _ _).bind fun summary ↦ ?_
  refine (keeps_fetchWithWriteAhead _ _ _ _ _).bind fun positions ↦ ?_
  refine (keeps_fetchWithWriteAhead _ _ _ _ _).bind fun quotes ↦ ?_
  refine (keeps_checkStaleness quotes 0).bind fun _ ↦ ?_
  exact (Keeps.raise _).ite ((keeps_logNextCheckpoint _ _).bind fun _ ↦ Keeps.pure _)

theorem keeps_checkRisk (summary : Account) (positions : List CurrentPosition)
    (prices : List (Symbol × Int64)) (orders : List RebalanceOrder) :
    Keeps Session.Numbered (checkRisk prims input summary positions prices orders) :=
  (keeps_writeLog (by decide) none none _).bind fun _ ↦
    (Keeps.raise _).ite (keeps_logNextCheckpoint _ _)

theorem keeps_confirm : Keeps Session.Numbered (confirm input) := by
  refine (Keeps.pure _).ite ((Keeps.pure _).ite ?_)
  cases input.env.confirmation with
  | error e => exact Keeps.raise _
  | ok approved => exact (keeps_writeLog (by decide) none none _).bind fun _ ↦ Keeps.pure approved

theorem keeps_reconcile (summary : Account) (allSymbols : List Symbol) :
    Keeps Session.Numbered (reconcile prims input summary allSymbols) := by
  refine (keeps_fetchWithWriteAhead _ _ _ _ _).bind fun _ ↦ ?_
  refine (keeps_fetchWithWriteAhead _ _ _ _ _).bind fun _ ↦ ?_
  exact (keeps_fetchWithWriteAhead _ _ _ _ _).bind fun _ ↦ Keeps.pure ()

theorem keeps_rebalance : Keeps Session.Numbered (rebalance prims input) := by
  refine keeps_computePlan.bind fun ⟨summary, positions, prices, allSymbols, orders⟩ ↦ ?_
  refine (Keeps.pure _).ite ((keeps_checkRisk _ _ _ _).bind fun _ ↦ ?_)
  refine keeps_confirm.bind fun confirmed ↦ (Keeps.pure _).ite ?_
  refine (keeps_executeOrders _ _ _).bind fun executed ↦ ?_
  cases executed with
  | none => exact Keeps.pure _
  | some counts => exact (keeps_reconcile _ _).bind fun _ ↦ Keeps.pure _

theorem keeps_finishRun (runSequenceNumber : Nat) (outcome : RunOutcome) :
    Keeps Session.Numbered (finishRun prims input runSequenceNumber outcome) := by
  cases outcome with
  | nothingToDo =>
      exact (keeps_writeLog (by decide) none none _).bind fun _ ↦ keeps_logNextCheckpoint _ _
  | stopped => exact Keeps.pure ()
  | reconciled counts =>
      exact (keeps_writeLog (by decide) _ _ _).when.bind fun _ ↦ keeps_logNextCheckpoint _ _

/-- Before the run has taken a number, only the file counts. -/
theorem keeps_checkIdempotency :
    Keeps (fun s : Session ↦ Increasing s.log) (checkIdempotency prims input) := by
  refine (Keeps.read _).bind fun existing ↦ ?_
  cases existing with
  | none => exact Keeps.pure ()
  | some existingSeq =>
      refine Keeps.bind (fun s hs ↦ ?_) fun _ ↦ Keeps.raise _
      have hs : Increasing s.audit.events := hs
      have hwrite := hs.numberedUpTo.logWithIdempotency (show
        Checkpoint.fromEventName "idempotency_rejection" = none by decide) (some existingSeq)
        (some (input.target.windowId prims)) (.obj [])
      simp only [writeLog]
      split <;> rename_i heq <;> obtain ⟨-, rfl⟩ := Prod.mk.inj heq <;> exact hwrite.increasing

/-- The numbers start above all that are in the file. -/
theorem triple_beginRun : Triple (fun s : Session ↦ Increasing s.log) (beginRun prims input)
    fun result s ↦ Increasing s.log ∧ ∀ n, result = .ok n → s.Numbered := by
  intro s hs
  rw [beginRun, bind_of_ok (show Program.read _ s = _ from rfl)]
  cases input.env.clock with
  | none => exact ⟨hs, fun n hn ↦ by cases hn⟩
  | some now =>
      have hkeeps : Keeps Session.Numbered (do
          logNextCheckpoint .runStarted fun _ ↦
            runStartedData input.opts.targetFile input.config.accountId
          Program.when input.opts.cronMode <|
            writeLog fun audit ↦ audit.logWithIdempotency "cron_start"
              (some (max now (maxCheckpointSequence s.log))) (some (input.target.windowId prims))
              (.obj [])
          pure (max now (maxCheckpointSequence s.log))) :=
        (keeps_logNextCheckpoint _ _).bind fun _ ↦
          (keeps_writeLog (by decide) _ _ _).when.bind fun _ ↦ Keeps.pure _
      have hnumbered := hkeeps
        { s with checkpointSequence := max now (maxCheckpointSequence s.log) }
        (hs.numberedUpTo.mono (Nat.le_max_right _ _))
      exact ⟨hnumbered.increasing, fun _ _ ↦ hnumbered⟩

theorem triple_startRun : Triple (fun s : Session ↦ Increasing s.log) (startRun prims input)
    fun result s ↦ Increasing s.log ∧ ∀ n, result = .ok n → s.Numbered := by
  have hconnect : Keeps (fun s : Session ↦ Increasing s.log) (connect input) := by
    rw [connect]
    cases input.env.connection with
    | ok _ => exact fun s hs ↦ hs
    | error e => exact Keeps.raise _
  refine Triple.bind (Keeps.when keeps_checkIdempotency) (fun _ ↦ ?_) fun e s hs ↦
    ⟨hs, fun n hn ↦ by cases hn⟩
  exact Triple.bind hconnect (fun _ ↦ triple_beginRun) fun e s hs ↦ ⟨hs, fun n hn ↦ by cases hn⟩

/-- However a run ends, the numbers in the file increase if they did before. -/
theorem keeps_run : Keeps (fun s : Session ↦ Increasing s.log) (run prims input) := by
  refine Triple.bind triple_startRun (fun runSequenceNumber s hs ↦ ?_) fun e s hs ↦ hs.1
  have hrest : Keeps Session.Numbered (do
      let outcome ← rebalance prims input
      finishRun prims input runSequenceNumber outcome) :=
    keeps_rebalance.bind fun outcome ↦ keeps_finishRun _ outcome
  exact (hrest s (hs.2 _ rfl)).increasing

theorem increasing_runOn {events : List AuditEvent} (h : Increasing events) :
    Increasing (runOn prims input events).2.log :=
  keeps_run _ h

end Run

/-! ## A recovery -/

section Recovery

variable {broker : Nat → OpenOrdersResponse} {audit : AuditLog} {events : List AuditEvent}
  {k n : Nat}

namespace RecoveredState

variable {st : RecoveredState} {e : AuditEvent}

theorem sequenceNumber_applyCheckpoint (c : Checkpoint) :
    (st.applyCheckpoint e c).sequenceNumber = st.sequenceNumber := by
  cases c <;> simp only [applyCheckpoint, applyEquity, applyPositions, applyDiff, applyOrderIntent,
    applyOrderFailed, applyOrderSubmitted, applyOrderFilled] <;> (repeat' split) <;> rfl

theorem sequenceNumber_applyEvent_of_checkpoint {c : Checkpoint} (h : e.checkpoint = some c) :
    (st.applyEvent e).sequenceNumber = e.sequenceNumber.getD 0 := by
  rw [AuditEvent.checkpoint] at h
  simp only [applyEvent, h]
  exact sequenceNumber_applyCheckpoint c

theorem applyEvent_of_none (h : e.checkpoint = none) : st.applyEvent e = st := by
  rw [AuditEvent.checkpoint] at h
  simp only [applyEvent, h]

end RecoveredState

/-- No number in the file exceeds that of the state it is read as. -/
theorem numberedUpTo_reconstruct (h : Increasing events) (now : Timestamp) :
    NumberedUpTo events (reconstruct now events).sequenceNumber := by
  induction events using List.reverseRecOn with
  | nil => exact ⟨h, fun n hn ↦ by simp [checkpointSequences] at hn⟩
  | append_singleton events e ih =>
      rw [reconstruct_concat]
      cases hc : e.checkpoint with
      | none =>
          rw [RecoveredState.applyEvent_of_none hc]
          exact (ih h.of_append).concat_of_none hc
      | some c =>
          obtain ⟨-, hlast⟩ := increasing_concat_iff.mp h
          obtain ⟨n, hn, hlt⟩ := hlast (Option.isSome_iff_exists.mpr ⟨c, hc⟩)
          rw [RecoveredState.sequenceNumber_applyEvent_of_checkpoint hc, hn, Option.getD_some]
          refine ⟨h, fun m hm ↦ ?_⟩
          rw [checkpointSequences_append] at hm
          rcases List.mem_append.mp hm with hm | hm
          · exact (hlt m hm).le
          · have hm : m = n := by
              simpa [checkpointSequences, checkpointSequence_of_checkpoint hc, hn] using hm
            exact hm.le

theorem NumberedUpTo.logReconciled (h : NumberedUpTo audit.events k) (hlt : k < n) (symbol : Symbol)
    (found : Option OrderId) :
    NumberedUpTo (logReconciled audit n symbol found).2.events n := by
  cases found with
  | none => exact h.logCheckpoint hlt
  | some brokerOrderId => exact h.logCheckpoint hlt

/-- A number is taken only where an intent is settled. -/
theorem NumberedUpTo.reconcileOrders (orders : List RecoveredOrder)
    (h : NumberedUpTo audit.events k) (failedCount : Nat) :
    Increasing (reconcileOrders broker audit (k + 1) failedCount orders).2.events := by
  induction orders generalizing broker audit k failedCount with
  | nil => exact h.increasing
  | cons order rest ih =>
      rw [Rebalancer.reconcileOrders]
      split_ifs
      · split
        · rename_i found broker' heq
          have hlogged := h.logReconciled k.lt_succ_self order.symbol found
          split <;> rename_i heq <;> obtain ⟨-, rfl⟩ := Prod.mk.inj heq
          · exact ih hlogged _
          · exact hlogged.increasing
        · exact ih h _
      · exact ih h _

theorem increasing_reconcileIncompleteIntents (h : Increasing audit.events) (now : Timestamp) :
    Increasing (reconcileIncompleteIntents broker (reconstruct now audit.events) audit).2.events :=
  (numberedUpTo_reconstruct h now).reconcileOrders _ _

end Recovery

/-! ## One process after another -/

/-- A process that writes to the file: a run, or a recovery, which reads the file first. -/
inductive Process (W : Type) where
  | run (input : RunInput W)
  | recovery (now : Timestamp) (broker : Nat → OpenOrdersResponse)
      (writer : Nat → WriteOutcome × Timestamp)

section Process

variable {W : Type} (prims : Primitives W)

/-- The file a process leaves if it comes to its end, in whatever way. -/
def Process.fileAtEnd (events : List AuditEvent) : Process W → List AuditEvent
  | run input => (runOn prims input events).2.log
  | recovery now broker writer =>
      (reconcileIncompleteIntents broker (reconstruct now events) ⟨events, writer⟩).2.events

/-- The file a process leaves.  It may crash after so many lines. -/
def Process.file (events : List AuditEvent) (process : Process W) : Option Nat → List AuditEvent
  | none => process.fileAtEnd prims events
  | some lines => (process.fileAtEnd prims events).take (events.length + lines)

/-- The file after one process after another, each of which may crash. -/
def fileAfter (processes : List (Process W × Option Nat)) : List AuditEvent :=
  processes.foldl (fun events p ↦ p.1.file prims events p.2) []

variable {prims}

theorem increasing_file {events : List AuditEvent} (h : Increasing events) (process : Process W)
    (crash : Option Nat) : Increasing (process.file prims events crash) := by
  have hend : Increasing (process.fileAtEnd prims events) := by
    cases process with
    | run input => exact increasing_runOn h
    | recovery now broker writer => exact increasing_reconcileIncompleteIntents h now
  cases crash with
  | none => exact hend
  | some lines =>
      rw [← List.take_append_drop (events.length + lines) (process.fileAtEnd prims events)] at hend
      exact hend.of_append

theorem increasing_foldl_file (processes : List (Process W × Option Nat)) {events : List AuditEvent}
    (h : Increasing events) :
    Increasing (processes.foldl (fun events p ↦ p.1.file prims events p.2) events) := by
  induction processes generalizing events with
  | nil => exact h
  | cons p rest ih => exact ih (increasing_file h p.1 p.2)

/-- Whatever runs and recoveries write to one file, and wherever they crash, every checkpoint in it
has a sequence number, these increase in the order of the file, and no validation of the file says
otherwise. -/
theorem increasing_fileAfter (prims : Primitives W) (processes : List (Process W × Option Nat)) :
    Increasing (fileAfter prims processes) ∧ ∀ line got last,
      validateCheckpointsFromParsed (fileAfter prims processes) ≠
        .error (.notMonotonic line got last) := by
  have h : Increasing (fileAfter prims processes) := increasing_foldl_file processes increasing_nil
  refine ⟨h, fun line got last herror ↦ ?_⟩
  have habout := pastNumbers_validateCheckpointsFromParsed h _ herror
  cases habout

end Process

end Nanobook.Rebalancer
