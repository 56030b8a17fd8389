import Nanobook.Rebalancer.Completed
import Nanobook.Rebalancer.Success

/-!
# Windows in cron mode

A run in cron mode is rejected if its window is marked as completed.  A window is marked when a run
has executed its orders and fetched everything again; a run with an empty plan completes without a
mark, so its window can be run again.
-/

namespace Nanobook.Rebalancer

open Program

/-- A run in cron mode. -/
structure CronRun (W : Type) where
  input : RunInput W
  cron : input.opts.cronMode = true

/-- A run, and the log that it starts over. -/
structure Attempt (W : Type) where
  run : CronRun W
  before : List AuditEvent

section Attempt

variable {W : Type} (prims : Primitives W)

namespace Attempt

variable (a : Attempt W)

def windowId : String := a.run.input.target.windowId prims

def outcome : Except RunError Unit × Session := runOn prims a.run.input a.before

/-- The lines that a run adds to the log. -/
def written : List AuditEvent := (a.outcome prims).2.log.drop a.before.length

/-- The run logs `run_completed`. -/
def Completes : Prop := Checkpoint.runCompleted ∈ checkpoints (a.written prims)

def Rejected : Prop := ∃ windowId n, (a.outcome prims).1 = .error (.idempotencyRejection windowId n)

/-- The run neither connects to the broker nor gives it an order. -/
def LeavesBrokerAlone : Prop :=
  (a.outcome prims).2.connected = false ∧ (a.outcome prims).2.broker.calls = []

/-- The run executes its orders to the end and fetches everything again. -/
def Finishes : Prop :=
  ∃ n begun counts ended, startRun prims a.run.input (a.run.input.session a.before) =
  (.ok n, begun) ∧
    rebalance prims a.run.input begun = (.ok (.reconciled counts), ended)

end Attempt

/-- Runs one after the other over one log. -/
def attempts (before : List AuditEvent) : List (CronRun W) → List (Attempt W)
  | [] => []
  | run :: rest => ⟨run, before⟩ :: attempts (runOn prims run.input before).2.log rest

/-- A window runs at most once: after a run that completed, every other run of its window is
rejected before it reaches the broker; and a run is only rejected after one of its window that
finished. -/
structure RunsOnce (runs : List (Attempt W)) : Prop where
  rejects : runs.Pairwise fun earlier later ↦ earlier.windowId prims = later.windowId prims →
    earlier.Completes prims → later.Rejected prims ∧ later.LeavesBrokerAlone prims
  finished : ∀ done a rest, runs = done ++ a :: rest → a.Rejected prims →
    ∃ earlier ∈ done, earlier.windowId prims = a.windowId prims ∧ earlier.Finishes prims

end Attempt

/-! ## Marks -/

/-- The line marks a window as completed. -/
def AuditEvent.Marks (e : AuditEvent) (windowId : String) : Prop :=
  e.event = "cron_completed" ∧ e.windowId = some windowId ∧ e.sequenceNumber.isSome = true

section Marks

variable {events : List AuditEvent} {windowId : String}

def Marked (events : List AuditEvent) (windowId : String) : Prop := ∃ e ∈ events, e.Marks windowId

theorem Marked.append (h : Marked events windowId) (later : List AuditEvent) :
    Marked (events ++ later) windowId := by
  obtain ⟨e, he, hmark⟩ := h
  exact ⟨e, List.mem_append_left _ he, hmark⟩

theorem checkWindowAlreadyComplete_eq_none_iff :
    checkWindowAlreadyComplete events windowId = none ↔ ¬ Marked events windowId := by
  rw [Marked, not_exists]
  simp only [not_and]
  rw [checkWindowAlreadyComplete, List.getLast?_eq_none_iff, List.filterMap_eq_nil_iff]
  refine forall₂_congr fun e _ ↦ ?_
  by_cases h : e.event = "cron_completed" ∧ e.windowId = some windowId
  · rw [if_pos h, AuditEvent.Marks, ← Option.not_isSome_iff_eq_none]
    simp [h]
  · rw [if_neg h, AuditEvent.Marks]
    simp only [true_iff]
    exact fun hmarks ↦ h ⟨hmarks.1, hmarks.2.1⟩

end Marks

/-! ## The check -/

section Check

variable {W : Type} {prims : Primitives W} {a : Attempt W}

/-- A run of a window that is marked ends with its rejection, or with the error of its write. -/
theorem outcome_of_marked {n : Nat}
    (h : checkWindowAlreadyComplete a.before (a.windowId prims) = some n) :
    a.outcome prims =
      (.error (if (a.run.input.session a.before).audit.accepts then
          .idempotencyRejection (a.windowId prims) n else .audit),
        { a.run.input.session a.before with
          audit := ((a.run.input.session a.before).audit.logWithIdempotency "idempotency_rejection"
            (some n) (some (a.windowId prims)) (.obj [])).2 }) := by
  have hcheck : checkIdempotency prims a.run.input (a.run.input.session a.before) = _ :=
    checkIdempotency_of_marked h
  rw [Attempt.outcome, runOn, run, startRun, Program.when, if_pos a.run.cron]
  exact bind_of_error (bind_of_error hcheck)

theorem startRun_of_unmarked (h : checkWindowAlreadyComplete a.before (a.windowId prims) = none) :
    startRun prims a.run.input (a.run.input.session a.before) =
      (do connect a.run.input; beginRun prims a.run.input) (a.run.input.session a.before) := by
  have hcheck : checkIdempotency prims a.run.input (a.run.input.session a.before) = _ :=
    checkIdempotency_of_unmarked h
  rw [startRun, Program.when, if_pos a.run.cron]
  exact bind_of_ok hcheck

end Check

/-! ## A run that is not rejected -/

/-- The line neither marks a window nor completes a run. -/
def AuditEvent.Quiet (e : AuditEvent) : Prop :=
  e.event ≠ "cron_completed" ∧ e.checkpoint ≠ some .runCompleted

section Pass

variable {W : Type} {prims : Primitives W} {input : RunInput W} {a : Attempt W}

theorem quiet_checkpointEvent {c : Checkpoint} (hc : c ≠ .runCompleted) (ts : Timestamp) (n : Nat)
    (data : Json) : (checkpointEvent c ts n data).Quiet := by
  refine ⟨fun h ↦ ?_, fun h ↦ hc ?_⟩
  · have hname : Checkpoint.fromEventName c.asEventName = some c :=
      Checkpoint.fromEventName_asEventName c
    rw [show c.asEventName = "cron_completed" from h] at hname
    cases hname
  · rw [checkpoint_checkpointEvent] at h
    exact Option.some.inj h

theorem quiet_of_name {event : String} (hcompleted : event ≠ "cron_completed")
    (hevent : Checkpoint.fromEventName event = none) (ts : Timestamp) (n : Option Nat)
    (windowId : Option String) (data : Json) : AuditEvent.Quiet ⟨event, ts, n, windowId, data⟩ :=
  ⟨hcompleted, fun h ↦ by cases hevent.symm.trans h⟩

theorem runCompleted_notMem_of_quiet {l : List AuditEvent} (h : ∀ e ∈ l, e.Quiet) :
    Checkpoint.runCompleted ∉ checkpoints l := by
  intro hmem
  obtain ⟨e, he, hcompleted⟩ := List.mem_filterMap.mp hmem
  exact (h e he).2 hcompleted

theorem RebalanceLine.quiet {e : AuditEvent} (h : RebalanceLine prims input e) : e.Quiet := by
  cases h with
  | checkpoint hstarted hcompleted hdiff ts n data => exact quiet_checkpointEvent hcompleted _ _ _
  | diff hplan ts n => exact quiet_checkpointEvent (by decide) _ _ _
  | other hevent hcompleted ts data => exact quiet_of_name hcompleted hevent _ _ _ _

theorem StartLine.quiet {e : AuditEvent} (h : StartLine e) : e.Quiet := by
  cases h with
  | started ts n data => exact quiet_checkpointEvent (by decide) _ _ _
  | cron ts n windowId data => exact quiet_of_name (by decide) (by decide) _ _ _ _

/-- Only a run that fetched everything again marks its window; it does so before it is completed. -/
theorem emits_finishRun (hcron : input.opts.cronMode = true) (n : Nat) (outcome : RunOutcome) :
    Emits Session.log (finishRun prims input n outcome) fun r l ↦ NotRejected r ∧
      (∀ e ∈ l, e.event = "cron_completed" →
        e.Marks (input.target.windowId prims) ∧ ∃ counts, outcome = .reconciled counts) ∧
      (Checkpoint.runCompleted ∈ checkpoints l →
        outcome = .nothingToDo ∨ ∃ e ∈ l, e.Marks (input.target.windowId prims)) := by
  cases outcome with
  | nothingToDo =>
      have honly : EmitsOnly Session.log (fun e ↦ e.event ≠ "cron_completed") NotRejected
          (finishRun prims input n .nothingToDo) := by
        refine ((writes_logWithIdempotency _ _ _ _).emitsOnly (fun e ⟨ts, he⟩ ↦ ?_)
          notRejected_writeResult).bind (fun _ _ ↦ ?_) fun _ he ↦ he
        · exact (writes_logNextCheckpoint _ _).emitsOnly (fun e ⟨ts, n, he⟩ ↦ he ▸ by
            exact (by decide : "run_completed" ≠ "cron_completed")) notRejected_writeResult
        · exact he ▸ (by decide : "no_rebalance_needed" ≠ "cron_completed")
      exact honly.mono fun r l h ↦ ⟨h.2, fun e he hname ↦ absurd hname (h.1 e he), fun _ ↦ .inl rfl⟩
  | stopped =>
      exact (Emits.pure ()).mono fun r l h ↦ by
        rw [h.1, h.2]
        exact ⟨trivial, by simp, by simp⟩
  | reconciled counts =>
      rw [finishRun, Program.when, if_pos hcron]
      have hcompleted {l : List AuditEvent} {b : Bool}
          (hl : WriteLines (fun e ↦ ∃ ts n, e =
            checkpointEvent .runCompleted ts n (runCompletedData counts)) b l) :
          ∀ e ∈ l, e.event ≠ "cron_completed" := by
        intro e he
        obtain ⟨ts, n, rfl⟩ := hl.forall_mem e he
        exact (by decide : "run_completed" ≠ "cron_completed")
      refine (Emits.bind (writes_logWithIdempotency _ _ _ _)
        fun _ _ _ ↦ writes_logNextCheckpoint _ _).mono fun r l h ↦ ?_
      rcases h with ⟨e, rfl, b, hb, hl⟩ | ⟨_, l₁, l₂, rfl, ⟨b, hb, hl₁⟩, b', rfl, hl₂⟩
      · refine ⟨by rw [show (.error e : Except RunError Unit) = _ from hb]; exact
          notRejected_writeResult b, ?_⟩
        cases hl with
        | written h | unsynced h =>
            obtain ⟨ts, rfl⟩ := h
            exact ⟨by simp [AuditEvent.Marks],
              fun _ ↦ .inr ⟨_, List.mem_singleton_self _, rfl, rfl, rfl⟩⟩
        | failed => simp
      · refine ⟨notRejected_writeResult b', ?_⟩
        cases hl₁ with
        | written h =>
            obtain ⟨ts, rfl⟩ := h
            refine ⟨fun e he hname ↦ ?_, fun _ ↦ .inr ⟨_, List.mem_cons_self, rfl, rfl, rfl⟩⟩
            rcases List.mem_append.mp he with he | he
            · obtain rfl := List.mem_singleton.mp he
              exact ⟨⟨rfl, rfl, rfl⟩, counts, rfl⟩
            · exact absurd hname (hcompleted hl₂ e he)
        | unsynced | failed => cases hb

/-- A run of a window that is not marked is not rejected; it marks its own window and no other, and
only if it finished.  It completes with a mark, unless its plan is empty. -/
theorem outcome_of_unmarked (h : checkWindowAlreadyComplete a.before (a.windowId prims) = none) :
    ∃ l, (a.outcome prims).2.log = a.before ++ l ∧ NotRejected (a.outcome prims).1 ∧
      (∀ e ∈ l, e.event = "cron_completed" → e.Marks (a.windowId prims) ∧ a.Finishes prims) ∧
      (Checkpoint.runCompleted ∈ checkpoints l → plannedOrders prims a.run.input = some [] ∨
        ∃ e ∈ l, e.Marks (a.windowId prims)) := by
  have hstart := startRun_of_unmarked h
  have hbegin : EmitsOnly Session.log StartLine NotRejected
      (do connect a.run.input; beginRun prims a.run.input) := emitsOnly_begin
  obtain ⟨l₁, hlog₁, hlines₁, hr₁⟩ := hbegin (a.run.input.session a.before)
  have hquiet₁ (e : AuditEvent) (he : e ∈ l₁) : e.Quiet := (hlines₁ e he).quiet
  rcases hbegun :
    (do connect a.run.input; beginRun prims a.run.input) (a.run.input.session a.before)
    with ⟨r₁, begun⟩
  rw [hbegun] at hstart hlog₁ hr₁
  rw [Attempt.outcome, runOn, run]
  cases r₁ with
  | error e =>
      rw [bind_of_error hstart]
      exact ⟨l₁, hlog₁, hr₁, fun e he hname ↦ absurd hname (hquiet₁ e he).1,
        fun hmem ↦ absurd hmem (runCompleted_notMem_of_quiet hquiet₁)⟩
  | ok n =>
      rw [bind_of_ok hstart]
      have hrebalance : EmitsOnly Session.log _ _ (rebalance prims a.run.input) :=
        emitsOnly_rebalance
      obtain ⟨l₂, hlog₂, hlines, hplan⟩ := hrebalance begun
      have hquiet : ∀ e ∈ l₁ ++ l₂, e.Quiet := fun e he ↦
        (List.mem_append.mp he).elim (hquiet₁ e) fun he ↦ (hlines e he).quiet
      rcases hres : rebalance prims a.run.input begun with ⟨r₂, ended⟩
      rw [hres] at hlog₂ hplan
      have hlog : ended.log = a.before ++ (l₁ ++ l₂) := by
        rw [hlog₂, hlog₁, ← List.append_assoc]
        rfl
      cases r₂ with
      | error e =>
          rw [bind_of_error hres]
          exact ⟨l₁ ++ l₂, hlog, hplan, fun e he hname ↦ absurd hname (hquiet e he).1,
            fun hmem ↦ absurd hmem (runCompleted_notMem_of_quiet hquiet)⟩
      | ok outcome =>
          rw [bind_of_ok hres]
          have hfinish : Emits Session.log (finishRun prims a.run.input n outcome) _ :=
            emits_finishRun a.run.cron n outcome
          obtain ⟨l₃, hlog₃, hr₃, hmarks, hcompleted⟩ := hfinish ended
          refine ⟨l₁ ++ l₂ ++ l₃, by rw [hlog₃, hlog, List.append_assoc a.before], hr₃,
            fun e he hname ↦ ?_, fun hmem ↦ ?_⟩
          · rcases List.mem_append.mp he with he | he
            · exact absurd hname (hquiet e he).1
            · obtain ⟨hmark, counts, rfl⟩ := hmarks e he hname
              exact ⟨hmark, n, begun, counts, ended, hstart, hres⟩
          · rw [checkpoints_append, List.mem_append] at hmem
            rcases hcompleted
              (hmem.resolve_left (runCompleted_notMem_of_quiet hquiet)) with rfl | hmark
            · exact .inl hplan
            · obtain ⟨e, he, hmark⟩ := hmark
              exact .inr ⟨e, List.mem_append_right _ he, hmark⟩

end Pass

/-! ## One run -/

namespace Attempt

variable {W : Type} {prims : Primitives W} {a : Attempt W} {windowId : String}

theorem written_eq {l : List AuditEvent} (h : (a.outcome prims).2.log = a.before ++ l) :
    a.written prims = l := by
  rw [written, h, List.drop_left]

theorem exists_mark (h : Marked a.before (a.windowId prims)) :
    ∃ n, checkWindowAlreadyComplete a.before (a.windowId prims) = some n := by
  rw [← Option.ne_none_iff_exists']
  exact fun hnone ↦ checkWindowAlreadyComplete_eq_none_iff.mp hnone h

/-- The only line of a run of a marked window is that of its rejection. -/
theorem quiet_of_marked (h : Marked a.before (a.windowId prims)) :
    ∃ l, (a.outcome prims).2.log = a.before ++ l ∧ ∀ e ∈ l, e.Quiet := by
  obtain ⟨n, hn⟩ := exists_mark h
  rw [outcome_of_marked hn]
  obtain ⟨l, hlog, hl⟩ := writeLines_append (a.run.input.session a.before).audit fun ts ↦
    ⟨"idempotency_rejection", ts, some n, some (a.windowId prims), .obj []⟩
  refine ⟨l, hlog, fun e he ↦ ?_⟩
  obtain ⟨ts, rfl⟩ := hl.forall_mem e he
  exact quiet_of_name (by decide) (by decide) _ _ _ _

theorem not_completes_of_marked (h : Marked a.before (a.windowId prims)) : ¬ a.Completes prims := by
  obtain ⟨l, hlog, hquiet⟩ := quiet_of_marked h
  rw [Completes, written_eq hlog]
  exact runCompleted_notMem_of_quiet hquiet

/-- A run of a marked window is rejected if that can be logged. -/
theorem rejected_iff_of_marked (h : Marked a.before (a.windowId prims)) :
    a.Rejected prims ↔ (a.run.input.env.writer 0).1.succeeded = true := by
  obtain ⟨n, hn⟩ := exists_mark h
  rw [Rejected, outcome_of_marked hn]
  change (∃ windowId m,
    Except.error (if (a.run.input.env.writer 0).1.succeeded = true then _ else _) =
    _) ↔ _
  split_ifs with hwrite
  · exact iff_of_true ⟨_, n, rfl⟩ hwrite
  · exact iff_of_false (fun ⟨_, _, h⟩ ↦ by cases h) hwrite

theorem leavesBrokerAlone_of_marked (h : Marked a.before (a.windowId prims)) :
    a.LeavesBrokerAlone prims := by
  obtain ⟨n, hn⟩ := exists_mark h
  rw [LeavesBrokerAlone, outcome_of_marked hn]
  exact ⟨rfl, rfl⟩

theorem marked_of_rejected (h : a.Rejected prims) : Marked a.before (a.windowId prims) := by
  by_contra hmark
  obtain ⟨l, -, hr, -⟩ := outcome_of_unmarked (checkWindowAlreadyComplete_eq_none_iff.mpr hmark)
  obtain ⟨windowId, n, herror⟩ := h
  rw [herror] at hr
  cases hr

theorem marked_log (h : Marked a.before windowId) : Marked (a.outcome prims).2.log windowId := by
  by_cases hmark : Marked a.before (a.windowId prims)
  · obtain ⟨l, hlog, -⟩ := quiet_of_marked hmark
    exact hlog ▸ h.append l
  · obtain ⟨l, hlog, -⟩ := outcome_of_unmarked (checkWindowAlreadyComplete_eq_none_iff.mpr hmark)
    exact hlog ▸ h.append l

/-- A new mark is that of the window of the run, which finished. -/
theorem marked_of_marked_log (h : Marked (a.outcome prims).2.log windowId) :
    Marked a.before windowId ∨ a.windowId prims = windowId ∧ a.Finishes prims := by
  obtain ⟨e, he, hmark⟩ := h
  by_cases hmarked : Marked a.before (a.windowId prims)
  · obtain ⟨l, hlog, hquiet⟩ := quiet_of_marked hmarked
    rw [hlog, List.mem_append] at he
    exact he.elim (fun he ↦ .inl ⟨e, he, hmark⟩) fun he ↦ absurd hmark.1 (hquiet e he).1
  · obtain ⟨l, hlog, -, hmarks, -⟩ :=
      outcome_of_unmarked (checkWindowAlreadyComplete_eq_none_iff.mpr hmarked)
    rw [hlog, List.mem_append] at he
    refine he.elim (fun he ↦ .inl ⟨e, he, hmark⟩) fun he ↦ .inr ?_
    obtain ⟨hown, hfinishes⟩ := hmarks e he hmark.1
    exact ⟨Option.some.inj (hown.2.1.symm.trans hmark.2.1), hfinishes⟩

theorem plannedOrders_of_finishes (h : a.Finishes prims) :
    plannedOrders prims a.run.input ≠ some [] := by
  obtain ⟨n, begun, counts, ended, -, hres⟩ := h
  have hrebalance : EmitsOnly Session.log _ _ (rebalance prims a.run.input) := emitsOnly_rebalance
  obtain ⟨-, -, -, hplan⟩ := hrebalance begun
  rw [hres] at hplan
  obtain ⟨order, orders, hplan⟩ := hplan
  simp [hplan]

/-- A run that completes marks its window, unless its plan is empty. -/
theorem marked_iff_of_completes (h : a.Completes prims) :
    Marked (a.outcome prims).2.log (a.windowId prims) ↔
    plannedOrders prims a.run.input ≠ some [] := by
  have hmark : ¬ Marked a.before (a.windowId prims) := fun hmark ↦ not_completes_of_marked hmark h
  constructor
  · intro hlog
    rcases marked_of_marked_log hlog with hbefore | ⟨-, hfinishes⟩
    · exact absurd hbefore hmark
    · exact plannedOrders_of_finishes hfinishes
  · intro hplan
    obtain ⟨l, hlog, -, -, hcompleted⟩ :=
      outcome_of_unmarked (checkWindowAlreadyComplete_eq_none_iff.mpr hmark)
    rw [Completes, written_eq hlog] at h
    obtain ⟨e, he, hown⟩ := (hcompleted h).resolve_left hplan
    exact ⟨e, hlog ▸ List.mem_append_right _ he, hown⟩

end Attempt

/-! ## Run after run -/

section Runs

variable {W : Type} {prims : Primitives W} {before : List AuditEvent} {runs : List (CronRun W)}
  {windowId : String}

/-- A mark stays in the log. -/
theorem marked_before_of_mem (h : Marked before windowId) :
    ∀ a ∈ attempts prims before runs, Marked a.before windowId := by
  induction runs generalizing before with
  | nil => simp [attempts]
  | cons run rest ih =>
      intro a ha
      rcases List.mem_cons.mp ha with rfl | ha
      · exact h
      · exact ih (Attempt.marked_log (a := ⟨run, before⟩) h) a ha

/-- Where a window is not marked and every run of it is rejected, there is no run of it. -/
theorem windowId_ne_of_rejected (h : ¬ Marked before windowId)
    (hrejected : ∀ a ∈ attempts prims before runs, windowId = a.windowId prims → a.Rejected prims) :
    ∀ a ∈ attempts prims before runs, windowId ≠ a.windowId prims := by
  induction runs generalizing before with
  | nil => simp [attempts]
  | cons run rest ih =>
      have hne : windowId ≠ Attempt.windowId prims ⟨run, before⟩ := fun heq ↦
        h (heq ▸ Attempt.marked_of_rejected (hrejected _ List.mem_cons_self heq))
      intro a ha
      rcases List.mem_cons.mp ha with rfl | ha
      · exact hne
      · refine ih (fun hmark ↦ ?_) (fun a ha ↦ hrejected a (List.mem_cons_of_mem _ ha)) a ha
        rcases Attempt.marked_of_marked_log (a := ⟨run, before⟩) hmark with hmark | ⟨heq, -⟩
        · exact h hmark
        · exact hne heq.symm

/-- Every mark was there before, or is that of a run that finished. -/
theorem marked_before_of_append {done rest : List (Attempt W)} {a : Attempt W}
    (h : attempts prims before runs = done ++ a :: rest) (hmark : Marked a.before windowId) :
    Marked before windowId ∨
      ∃ earlier ∈ done, earlier.windowId prims = windowId ∧ earlier.Finishes prims := by
  induction runs generalizing before done with
  | nil => simp [attempts] at h
  | cons run runs ih =>
      cases done with
      | nil =>
          obtain ⟨rfl, -⟩ := List.cons.inj h
          exact .inl hmark
      | cons first done =>
          obtain ⟨rfl, htail⟩ := List.cons.inj h
          rcases ih htail with hlog | ⟨earlier, hmem, hearlier⟩
          · rcases Attempt.marked_of_marked_log (a := ⟨run, before⟩) hlog with hbefore | hfirst
            · exact .inl hbefore
            · exact .inr ⟨_, List.mem_cons_self, hfirst⟩
          · exact .inr ⟨earlier, List.mem_cons_of_mem _ hmem, hearlier⟩

/-- After a run that completes, every other of its window is rejected exactly if its plan was not
empty and the rejections can be logged. -/
theorem rejects_iff (run : CronRun W) (hcompletes : Attempt.Completes prims ⟨run, before⟩) :
    (∀ later ∈ attempts prims (runOn prims run.input before).2.log runs,
      run.input.target.windowId prims = later.windowId prims →
        later.Rejected prims ∧ later.LeavesBrokerAlone prims) ↔
    ∀ later ∈ attempts prims (runOn prims run.input before).2.log runs,
      run.input.target.windowId prims = later.windowId prims →
        plannedOrders prims run.input ≠ some [] ∧
          (later.run.input.env.writer 0).1.succeeded = true := by
  have hiff := Attempt.marked_iff_of_completes hcompletes
  by_cases hmark : Marked (runOn prims run.input before).2.log (run.input.target.windowId prims)
  · refine forall₂_congr fun later hlater ↦ ?_
    refine forall_congr' fun hwindow ↦ ?_
    have hlater : Marked later.before (later.windowId prims) :=
      hwindow ▸ marked_before_of_mem hmark later hlater
    rw [Attempt.rejected_iff_of_marked hlater, and_comm]
    exact and_congr_left fun _ ↦
      iff_of_true (Attempt.leavesBrokerAlone_of_marked hlater) (hiff.mp hmark)
  · constructor
    · intro h later hlater hwindow
      exact absurd hwindow
        (windowId_ne_of_rejected hmark (fun a ha heq ↦ (h a ha heq).1) later hlater)
    · intro h later hlater hwindow
      exact absurd (hiff.mpr (h later hlater hwindow).1) hmark

theorem pairwise_rejects_iff :
    ((attempts prims before runs).Pairwise fun earlier later ↦
      earlier.windowId prims = later.windowId prims → earlier.Completes prims →
        later.Rejected prims ∧ later.LeavesBrokerAlone prims) ↔
    (attempts prims before runs).Pairwise fun earlier later ↦
      earlier.windowId prims = later.windowId prims → earlier.Completes prims →
        plannedOrders prims earlier.run.input ≠ some [] ∧
          (later.run.input.env.writer 0).1.succeeded = true := by
  induction runs generalizing before with
  | nil => exact iff_of_true .nil .nil
  | cons run rest ih =>
      rw [attempts, List.pairwise_cons, List.pairwise_cons]
      refine and_congr ?_ ih
      by_cases hcompletes : Attempt.Completes prims ⟨run, before⟩
      · simp only [hcompletes, true_imp_iff]
        exact rejects_iff run hcompletes
      · simp only [hcompletes, false_imp_iff, implies_true]

/-- Over every sequence of runs in cron mode, windows run at most once exactly if no run that
completes with an empty plan is followed by another of its window, and every run that follows one
that completed its window can log its rejection. -/
theorem runsOnce_iff (prims : Primitives W) (runs : List (CronRun W)) :
    RunsOnce prims (attempts prims [] runs) ↔
      (attempts prims [] runs).Pairwise fun earlier later ↦
        earlier.windowId prims = later.windowId prims → earlier.Completes prims →
          plannedOrders prims earlier.run.input ≠ some [] ∧
            (later.run.input.env.writer 0).1.succeeded = true := by
  rw [← pairwise_rejects_iff]
  refine ⟨RunsOnce.rejects, fun h ↦ ⟨h, fun done a rest heq hrejected ↦ ?_⟩⟩
  rcases marked_before_of_append heq (Attempt.marked_of_rejected hrejected) with ⟨e, he, -⟩ | hfound
  · cases he
  · exact hfound

end Runs

/-! ## A window that is run twice -/

/-- A run with an empty plan. -/
def idleRun : CronRun Unit := ⟨plainInput true false [], rfl⟩

/-- A run with an empty plan completes without a mark, so that the next run of its window is not
rejected. -/
theorem not_runsOnce_idleRun :
    ¬ RunsOnce plainPrimitives (attempts plainPrimitives [] [idleRun, idleRun]) := by
  have hidle : Unhindered plainPrimitives idleRun.input [] :=
    unhindered_plainInput rfl (Nat.zero_le _)
  have hplan : plannedOrders plainPrimitives idleRun.input = some [] := rfl
  have hok : (runOn plainPrimitives idleRun.input []).1 = .ok () :=
    runOn_ok hidle rfl (yields_rebalance_of_empty hidle)
  rcases hres : runOn plainPrimitives idleRun.input [] with ⟨result, s⟩
  rw [hres] at hok
  obtain rfl : result = .ok () := hok
  obtain ⟨orders, found, hplan', hfound, hshape⟩ := ensures_run [] s hres
  obtain rfl : [] = orders := Option.some.inj (hplan.symm.trans hplan')
  have hcompletes : Attempt.Completes plainPrimitives ⟨idleRun, []⟩ := by
    rw [Attempt.Completes, Attempt.written, Attempt.outcome, hres]
    simp only [List.length_nil, List.drop_zero, hfound]
    cases hshape
    decide
  have hattempts : attempts plainPrimitives [] [idleRun, idleRun] =
      [⟨idleRun, []⟩, ⟨idleRun, s.log⟩] := by
    rw [attempts, attempts, attempts, hres]
  have hmark := Attempt.marked_iff_of_completes hcompletes
  rw [Attempt.outcome, hres] at hmark
  rw [hattempts]
  intro h
  have hrejected : Attempt.Rejected plainPrimitives ⟨idleRun, s.log⟩ :=
    ((List.pairwise_cons.mp h.rejects).1 _ List.mem_cons_self rfl hcompletes).1
  exact hmark.mp (Attempt.marked_of_rejected hrejected) hplan

end Nanobook.Rebalancer
