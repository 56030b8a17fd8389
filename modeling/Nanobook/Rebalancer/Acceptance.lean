import Nanobook.Lib.Precedence
import Nanobook.Rebalancer.Completed
import Nanobook.Rebalancer.Numbering
import Nanobook.Rebalancer.Success

/-!
# What the validator accepts

A run that succeeds logs its checkpoints in the order the validator asks for.  But whether an
`order_intent` has to be there is read off the last diff alone, and a run whose plan is not empty
may end without one: a dry run, or one that is not confirmed or shut down.
-/

namespace Nanobook.Rebalancer

open Precedence Program

/-- The pairs of checkpoints the validator compares. -/
def comparedCheckpoints : List (Checkpoint × Checkpoint) :=
  [(.positionsIntent, .positionsResult), (.runStarted, .positionsResult),
    (.positionsResult, .diffComputed), (.diffComputed, .riskCheckPassed),
    (.riskCheckPassed, .orderIntent), (.diffComputed, .runCompleted),
    (.accountSummaryIntent, .accountSummaryResult), (.runStarted, .accountSummaryIntent),
    (.quotesIntent, .quotesResult), (.cancelIntent, .cancelResult)]

/-! ## The checks -/

section Checks

variable {found : List Checkpoint} {c c' : Checkpoint} {message : String}

theorem requireCheckpoint_of_mem (h : c ∈ found) :
    requireCheckpoint found c = .ok (found.idxOf c) := by
  rw [requireCheckpoint, idxOf?_of_mem h]

theorem requireCheckpoint_of_notMem (h : c ∉ found) :
    requireCheckpoint found c = .error (.missingCheckpoint c) := by
  rw [requireCheckpoint, idxOf?_of_notMem h]

theorem rejectIf_of_not {p : Prop} [Decidable p] (h : ¬ p) : rejectIf p message = .ok () := if_neg h

/-- Where a checkpoint is found, it stands after another. -/
theorem rejectIfAt_of_precedes (h : Precedes c' c found) :
    rejectIfAt found c (· ≤ found.idxOf c') message = .ok () := by
  by_cases hc : c ∈ found
  · rw [rejectIfAt, idxOf?_of_mem hc]
    exact rejectIf_of_not (Nat.not_le.mpr (h hc))
  · rw [rejectIfAt, idxOf?_of_notMem hc]

theorem validateCall_of_precedes (h : Precedes c c' found) :
    validateCall found c c' message = .ok () := by
  by_cases hc : c ∈ found
  · rw [validateCall, idxOf?_of_mem hc]
    exact rejectIfAt_of_precedes h
  · rw [validateCall, idxOf?_of_notMem hc]

/-- Unless the last diff is empty, an intent is all that can be missing. -/
theorem validateExecution_eq_ok_iff (h : Ordered comparedCheckpoints found) (empty : Bool) :
    validateExecution found (found.idxOf .diffComputed) empty = .ok () ↔
      empty = true ∨ Checkpoint.orderIntent ∈ found := by
  cases empty with
  | true =>
      have hcompleted : Precedes .diffComputed .runCompleted found :=
        h (.diffComputed, .runCompleted) (by decide)
      exact iff_of_true (rejectIfAt_of_precedes hcompleted) (.inl rfl)
  | false =>
      have hintent : Precedes .riskCheckPassed .orderIntent found :=
        h (.riskCheckPassed, .orderIntent) (by decide)
      by_cases hmem : Checkpoint.orderIntent ∈ found
      · have hrisk := hintent.mem hmem
        have hdiff : found.idxOf Checkpoint.diffComputed < found.idxOf .riskCheckPassed :=
          h (.diffComputed, .riskCheckPassed) (by decide) hrisk
        refine iff_of_true ?_ (.inr hmem)
        rw [validateExecution, requireCheckpoint_of_mem hrisk, requireCheckpoint_of_mem hmem]
        change (rejectIf _ _ >>= fun _ ↦ rejectIf _ _) = _
        rw [rejectIf_of_not (Nat.not_le.mpr hdiff)]
        exact rejectIf_of_not (Nat.not_le.mpr (hintent hmem))
      · refine iff_of_false ?_ (by simp [hmem])
        rw [validateExecution, requireCheckpoint_of_notMem hmem]
        by_cases hrisk : Checkpoint.riskCheckPassed ∈ found
        · rw [requireCheckpoint_of_mem hrisk]
          exact fun h ↦ by cases h
        · rw [requireCheckpoint_of_notMem hrisk]
          exact fun h ↦ by cases h

end Checks

/-- A log with its checkpoints in order is accepted exactly if its last diff is empty or there is an
intent. -/
theorem validateCheckpointsFromParsed_eq_ok_iff {events : List AuditEvent} (h : Increasing events)
    (hordered : Ordered comparedCheckpoints (checkpoints events))
    (hstarted : (checkpoints events).idxOf Checkpoint.runStarted = 0)
    (hdiff : Checkpoint.diffComputed ∈ checkpoints events) :
    validateCheckpointsFromParsed events = .ok () ↔
      emptyDiffCompletedRun events = true ∨ Checkpoint.orderIntent ∈ checkpoints events := by
  have hprecedes (c c' : Checkpoint) (hmem : (c, c') ∈ comparedCheckpoints) :
      Precedes c c' (checkpoints events) := hordered (c, c') hmem
  have hresult := (hprecedes .positionsResult .diffComputed (by decide)).mem hdiff
  have hintent := (hprecedes .positionsIntent .positionsResult (by decide)).mem hresult
  have hrun := (hprecedes .runStarted .positionsResult (by decide)).mem hresult
  have hpositions := (hprecedes .positionsIntent .positionsResult (by decide)) hresult
  have hafter := (hprecedes .runStarted .positionsResult (by decide)) hresult
  have hplanned := (hprecedes .positionsResult .diffComputed (by decide)) hdiff
  have hsummary (message : String) : rejectIfAt (checkpoints events) .accountSummaryIntent
      (· ≤ (checkpoints events).idxOf Checkpoint.runStarted) message = .ok () :=
    rejectIfAt_of_precedes (hprecedes .runStarted .accountSummaryIntent (by decide))
  rw [← validateExecution_eq_ok_iff hordered, validateCheckpointsFromParsed,
    scanCheckpoints_of_increasing h 1 none (by simp)]
  simp only [requireCheckpoint_of_mem hrun, requireCheckpoint_of_mem hdiff,
    requireCheckpoint_of_mem hresult, requireCheckpoint_of_mem hintent,
    rejectIf_of_not (not_not.mpr hstarted), rejectIf_of_not (Nat.not_le.mpr hpositions),
    rejectIf_of_not (Nat.not_le.mpr hafter), rejectIf_of_not (Nat.not_le.mpr hplanned), hsummary,
    validateCall_of_precedes (hprecedes .accountSummaryIntent .accountSummaryResult (by decide)),
    validateCall_of_precedes (hprecedes .quotesIntent .quotesResult (by decide)),
    validateCall_of_precedes (hprecedes .cancelIntent .cancelResult (by decide)), bind, Except.bind]
  cases validateExecution (checkpoints events) ((checkpoints events).idxOf .diffComputed)
      (emptyDiffCompletedRun events) with
  | ok _ => exact iff_of_true rfl rfl
  | error e => exact iff_of_false (fun h ↦ by cases h) fun h ↦ by cases h

/-! ## A run -/

section Run

variable {W : Type} {prims : Primitives W} {input : RunInput W} {orders : List RebalanceOrder}
  {found : List Checkpoint}

/-- Each run that succeeds logs its checkpoints in order. -/
theorem RunShape.ordered (h : RunShape input orders found) : Ordered comparedCheckpoints found := by
  cases h with
  | empty => decide
  | @executed order rest xs tail hxs hintent htail =>
      have hstart : ∀ p ∈ comparedCheckpoints,
          Precedes p.1 p.2 (.runStarted :: firstFetches ++ [.diffComputed, .riskCheckPassed]) ∧
            (p.1 ∈ Checkpoint.runStarted :: firstFetches ++ [.diffComputed, .riskCheckPassed] ∨
              p = (.cancelIntent, .cancelResult)) := by decide
      intro p hp
      obtain ⟨hprecedes, hmem⟩ := hstart p hp
      rw [List.append_assoc]
      refine hprecedes.append (hmem.imp_right ?_)
      rintro rfl
      have hcancel : Checkpoint.cancelResult ∉ xs :=
        fun h ↦ by simpa [orderCheckpoints] using hxs _ h
      refine (Precedes.of_notMem hcancel).append (.inr ?_)
      simp only [List.mem_cons, List.not_mem_nil, or_false] at htail
      rcases htail with rfl | rfl | rfl <;> decide

theorem RunShape.runStarted (h : RunShape input orders found) :
    ∃ rest, found = .runStarted :: rest ∧ Checkpoint.diffComputed ∈ found := by
  cases h with
  | empty => exact ⟨_, rfl, by decide⟩
  | executed hxs hintent htail => exact ⟨_, rfl, by simp⟩

/-- Whether a run that succeeds logs an intent. -/
def RunInput.LogsIntent (prims : Primitives W) (input : RunInput W) : Prop :=
  input.approved ∧ ∃ orders, plannedOrders prims input = some orders ∧
    IntentLogged input 0 orders.length fun j ↦ input.env.writer (j + input.firstOrderWrite)

theorem RunShape.orderIntent_mem (h : RunShape input orders found)
    (hplan : plannedOrders prims input = some orders) :
    Checkpoint.orderIntent ∈ found ↔ input.LogsIntent prims := by
  have hlogs : input.LogsIntent prims ↔ input.approved ∧
      IntentLogged input 0 orders.length fun j ↦ input.env.writer (j + input.firstOrderWrite) := by
    simp [RunInput.LogsIntent, hplan]
  rw [hlogs]
  cases h with
  | empty =>
      refine iff_of_false (by decide) ?_
      rintro ⟨-, j, hj, -⟩
      exact absurd hj (Nat.not_lt_zero j)
  | @executed order rest xs tail hxs hintent htail =>
      have htail : Checkpoint.orderIntent ∉ tail := by
        simp only [List.mem_cons, List.not_mem_nil, or_false] at htail
        rcases htail with rfl | rfl | rfl <;> decide
      have hstart : Checkpoint.orderIntent ∉
          Checkpoint.runStarted :: firstFetches ++ [.diffComputed, .riskCheckPassed] := by decide
      rw [List.mem_append, List.mem_append, List.length_cons, ← hintent]
      exact ⟨fun h ↦ (h.resolve_right htail).resolve_left hstart, fun h ↦ .inl (.inr h)⟩

/-- The diffs of a run that succeeds have the orders of its plan. -/
theorem diff_lines_runOn {events : List AuditEvent} {s' : Session}
    (h : runOn prims input events = (.ok (), s')) : ∃ l, s'.log = events ++ l ∧
      ∀ e ∈ l, e.checkpoint = some .diffComputed →
        ∃ orders, plannedOrders prims input = some orders ∧ e.data = diffData prims.div orders := by
  obtain ⟨n, s₁, hstart, h⟩ := bind_eq_ok h
  obtain ⟨outcome, s₂, hrebalance, hfinish⟩ := bind_eq_ok h
  have hbegin :
    EmitsOnly Session.log StartLine NotRejected (do connect input; beginRun prims input) :=
    emitsOnly_begin
  obtain ⟨l₁, hlog₁, hlines₁, -⟩ := hbegin (input.session events)
  rw [startRun_eq_ok hstart] at hlog₁
  have hemits : EmitsOnly Session.log (RebalanceLine prims input) _ (rebalance prims input) :=
    emitsOnly_rebalance
  obtain ⟨l₂, hlog₂, hlines₂, -⟩ := hemits s₁
  rw [hrebalance] at hlog₂
  have hfinishes : EmitsOnly Session.log (fun e ↦ e.checkpoint ≠ some .diffComputed) NotRejected
      (finishRun prims input n outcome) :=
    emitsOnly_finishRun (fun _ _ h ↦ by cases h) (fun _ _ _ _ h ↦ by cases h)
      (fun _ _ _ ↦ by simp) n outcome
  obtain ⟨l₃, hlog₃, hlines₃, -⟩ := hfinishes s₂
  rw [hfinish] at hlog₃
  refine ⟨l₁ ++ l₂ ++ l₃, ?_, fun e he hdiff ↦ ?_⟩
  · rw [hlog₃, hlog₂, hlog₁, List.append_assoc, List.append_assoc, List.append_assoc]
    rfl
  · rcases List.mem_append.mp he with he | he
    · rcases List.mem_append.mp he with he | he
      · cases hlines₁ e he with
        | started ts n data => rw [checkpoint_checkpointEvent] at hdiff; cases hdiff
        | cron ts n windowId data => cases hdiff
      · cases hlines₂ e he with
        | @checkpoint c hstarted hcompleted hne ts n data =>
            rw [checkpoint_checkpointEvent] at hdiff
            exact absurd (Option.some.inj hdiff) hne
        | diff hplan ts n => exact ⟨_, hplan, rfl⟩
        | other hevent hcompleted ts data => cases hevent.symm.trans hdiff
    · exact absurd hdiff (hlines₃ e he)

/-- Whether the last diff is empty is whether the last plan is. -/
theorem emptyDiffCompletedRun_append {div : CentDivision} {events l : List AuditEvent}
    (hlines : ∀ e ∈ l, e.checkpoint = some .diffComputed → e.data = diffData div orders)
    (hdiff : Checkpoint.diffComputed ∈ checkpoints l) :
    emptyDiffCompletedRun (events ++ l) = orders.isEmpty := by
  obtain ⟨e, he, hcheckpoint⟩ := List.mem_filterMap.mp hdiff
  have hfind : ∃ e' ∈ l, e'.checkpoint = some .diffComputed ∧
      ((events ++ l).reverse.find? fun event ↦ event.checkpoint = some .diffComputed) =
        some e' := by
    rw [List.reverse_append, List.find?_append]
    cases hlast : l.reverse.find? fun event ↦ event.checkpoint = some .diffComputed with
    | none =>
        rw [List.find?_eq_none] at hlast
        exact absurd hcheckpoint (by simpa using hlast e (List.mem_reverse.mpr he))
    | some e' =>
        refine ⟨e', List.mem_reverse.mp (List.mem_of_find?_eq_some hlast), ?_, rfl⟩
        simpa using List.find?_some hlast
  obtain ⟨e', hmem, hcheckpoint', hfind⟩ := hfind
  have hdata := hlines e' hmem hcheckpoint'
  rw [emptyDiffCompletedRun, hfind]
  simp [hdata, diffData, Json.get, Json.asArray]

end Run

/-! ## Run after run -/

section Runs

variable {W : Type} (prims : Primitives W)

/-- The log after runs one after the other. -/
def logAfter (events : List AuditEvent) (runs : List (RunInput W)) : List AuditEvent :=
  runs.foldl (fun events input ↦ (runOn prims input events).2.log) events

/-- Every run returns `Ok`. -/
def AllSucceed : List AuditEvent → List (RunInput W) → Prop
  | _, [] => True
  | events, input :: rest =>
      (runOn prims input events).1 = .ok () ∧ AllSucceed (runOn prims input events).2.log rest

variable {prims}

/-- What is known of the log after runs that all succeed, over one that was empty. -/
structure Succeeded (prims : Primitives W) (runs : List (RunInput W)) (events : List AuditEvent) :
    Prop where
  increasing : Increasing events
  ordered : Ordered comparedCheckpoints (checkpoints events)
  started : checkpoints events = [] ∨ ∃ rest, checkpoints events = .runStarted :: rest
  planned : runs ≠ [] → Checkpoint.diffComputed ∈ checkpoints events
  orderIntent_mem_iff :
    Checkpoint.orderIntent ∈ checkpoints events ↔ ∃ input ∈ runs, input.LogsIntent prims
  lastPlan : ∀ input ∈ runs.getLast?, ∃ orders, plannedOrders prims input = some orders ∧
    emptyDiffCompletedRun events = orders.isEmpty

theorem succeeded_nil : Succeeded prims [] [] where
  increasing := increasing_nil
  ordered := ordered_nil
  started := .inl rfl
  planned h := absurd rfl h
  orderIntent_mem_iff := by simp
  lastPlan := by simp

/-- One more run that succeeds. -/
theorem Succeeded.concat {runs : List (RunInput W)} {events : List AuditEvent} {input : RunInput W}
    (h : Succeeded prims runs events) (hok : (runOn prims input events).1 = .ok ()) :
    Succeeded prims (runs ++ [input]) (runOn prims input events).2.log := by
  rcases hres : runOn prims input events with ⟨result, s'⟩
  rw [hres] at hok
  obtain rfl : result = .ok () := hok
  obtain ⟨orders, found, hplan, hfound, hshape⟩ := ensures_run events s' hres
  obtain ⟨rest, rfl, hdiff⟩ := hshape.runStarted
  obtain ⟨l, hlog, hlines⟩ := diff_lines_runOn hres
  have hl : checkpoints l = .runStarted :: rest := by
    rw [hlog, checkpoints_append] at hfound
    exact List.append_cancel_left hfound
  have hincreasing : Increasing (runOn prims input events).2.log := increasing_runOn h.increasing
  rw [hres] at hincreasing
  exact {
    increasing := hincreasing
    ordered := hfound ▸ h.ordered.append hshape.ordered
    started := .inr <| by
      rw [hfound]
      rcases h.started with hempty | ⟨first, hfirst⟩
      · exact ⟨rest, by rw [hempty, List.nil_append]⟩
      · exact ⟨first ++ .runStarted :: rest, by rw [hfirst, List.cons_append]⟩
    planned := fun _ ↦ hfound ▸ List.mem_append_right _ hdiff
    orderIntent_mem_iff := by
      rw [hfound, List.mem_append, h.orderIntent_mem_iff, hshape.orderIntent_mem hplan]
      simp [or_and_right, exists_or]
    lastPlan := fun input' hlast ↦ by
      rw [List.getLast?_concat] at hlast
      obtain rfl := Option.some.inj hlast
      have hdata : ∀ e ∈ l, e.checkpoint = some .diffComputed →
          e.data = diffData prims.div orders := by
        intro e he hcheckpoint
        obtain ⟨orders', hplan', hdata⟩ := hlines e he hcheckpoint
        rw [hdata, Option.some.inj (hplan.symm.trans hplan')]
      refine ⟨orders, hplan, ?_⟩
      rw [hlog]
      exact emptyDiffCompletedRun_append hdata (hl ▸ hdiff) }

theorem Succeeded.logAfter {done rest : List (RunInput W)} {events : List AuditEvent}
    (h : Succeeded prims done events) (hok : AllSucceed prims events rest) :
    Succeeded prims (done ++ rest) (logAfter prims events rest) := by
  induction rest generalizing done events with
  | nil => simpa [Rebalancer.logAfter] using h
  | cons input rest ih =>
      rw [List.append_cons]
      exact ih (h.concat hok.1) hok.2

/-- The log is accepted if its last diff is empty or an intent is in it. -/
theorem Succeeded.accepted_iff {runs : List (RunInput W)} {events : List AuditEvent}
    (h : Succeeded prims runs events) (hnil : runs ≠ []) :
    validateCheckpointsFromParsed events = .ok () ↔
      (∃ input ∈ runs.getLast?, plannedOrders prims input = some []) ∨
        ∃ input ∈ runs, input.LogsIntent prims := by
  have hplanned := h.planned hnil
  have hstarted : (checkpoints events).idxOf Checkpoint.runStarted = 0 := by
    rcases h.started with hempty | ⟨rest, hrest⟩
    · rw [hempty] at hplanned
      cases hplanned
    · rw [hrest, List.idxOf_cons_self]
  rw [validateCheckpointsFromParsed_eq_ok_iff h.increasing h.ordered hstarted hplanned,
    h.orderIntent_mem_iff]
  refine or_congr_left ?_
  obtain ⟨last, hlast⟩ : ∃ last, runs.getLast? = some last :=
    Option.ne_none_iff_exists'.mp fun hnone ↦ hnil (List.getLast?_eq_none_iff.mp hnone)
  obtain ⟨orders, hplan, hempty⟩ := h.lastPlan last hlast
  simp [hlast, hplan, hempty]

/-- The log of runs that all succeed is accepted exactly if the plan of the last one is empty, or
one of them logs an intent: its plan is not empty, it is no dry run, it is confirmed, and the line
of an intent gets into the log before a shutdown. -/
theorem validateCheckpointsFromParsed_logAfter_iff (prims : Primitives W) (runs : List (RunInput W))
    (hok : AllSucceed prims [] runs) :
    validateCheckpointsFromParsed (logAfter prims [] runs) = .ok () ↔
      (∃ input ∈ runs.getLast?, plannedOrders prims input = some []) ∨
        ∃ input ∈ runs, input.LogsIntent prims := by
  by_cases hnil : runs = []
  · subst hnil
    exact iff_of_false (fun h ↦ by cases h) (by simp)
  · have h : Succeeded prims runs (logAfter prims [] runs) := succeeded_nil.logAfter hok
    exact h.accepted_iff hnil

/-- A run with an empty plan is accepted. -/
theorem validateCheckpointsFromParsed_idle :
    validateCheckpointsFromParsed (logAfter plainPrimitives [] [plainInput false false []]) =
    .ok () := by
  have hidle : Unhindered plainPrimitives (plainInput false false []) [] :=
    unhindered_plainInput rfl (Nat.zero_le _)
  exact (validateCheckpointsFromParsed_logAfter_iff plainPrimitives [plainInput false false []]
    ⟨runOn_ok hidle rfl (yields_rebalance_of_empty hidle), trivial⟩).mpr
    (.inl ⟨_, rfl, rfl⟩)

end Runs

/-! ## A log that is not accepted -/

/-- Buy for all of the equity. -/
def dryRun : RunInput Unit := plainInput false true [((buyAapl 0).order.symbol, ())]

/-- A dry run returns `Ok`, and the log it leaves is rejected. -/
theorem validateCheckpointsFromParsed_dryRun :
    (runOn plainPrimitives dryRun []).1 = .ok () ∧
      validateCheckpointsFromParsed (runOn plainPrimitives dryRun []).2.log ≠ .ok () := by
  obtain ⟨orders, hplan, hlength⟩ : ∃ orders, plannedOrders plainPrimitives dryRun = some orders ∧
      orders.length = 1 := ⟨_, rfl, by decide +kernel⟩
  have hne : orders ≠ [] := fun h ↦ by simp [h] at hlength
  have hdry : Unhindered plainPrimitives dryRun orders := unhindered_plainInput hplan (by omega)
  have hok : (runOn plainPrimitives dryRun []).1 = .ok () :=
    runOn_ok hdry rfl (yields_rebalance_of_dryRun hdry hne rfl fun _ _ _ ↦ rfl)
  refine ⟨hok, fun haccepted ↦ ?_⟩
  have h : Succeeded plainPrimitives [dryRun] (runOn plainPrimitives dryRun []).2.log :=
    succeeded_nil.concat hok
  rcases (h.accepted_iff (List.cons_ne_nil _ _)).mp haccepted with
    ⟨input, hlast, hempty⟩ | ⟨input, hmem, happroved, -⟩
  · obtain rfl := Option.some.inj hlast
    exact hne (Option.some.inj (hplan.symm.trans hempty))
  · obtain rfl := List.mem_singleton.mp hmem
    cases happroved.1

end Nanobook.Rebalancer
