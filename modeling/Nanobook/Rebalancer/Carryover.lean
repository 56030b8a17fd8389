import Nanobook.Rebalancer.Comparison

/-!
# What an earlier run leaves

The log goes on over many runs, and the start of a run resets whether one was completed and nothing
else.  The orders, the calls without an answer and the failed cancellations of the runs before count
for the run after as well, as long as it says nothing of them itself.
-/

namespace Nanobook.Rebalancer

open RecoveredState

/-! ## Orders -/

/-- A diff with its orders, which takes the place of all orders before. -/
def AuditEvent.isDiff (e : AuditEvent) : Prop :=
  e.checkpoint = some .diffComputed ∧ ((e.data.get "orders").bind Json.asArray).isSome = true

/-- An event about an order of a diff. -/
def AuditEvent.isOrderEvent (e : AuditEvent) : Prop :=
  e.checkpoint = some .orderIntent ∨ e.checkpoint = some .orderSubmitted ∨
    e.checkpoint = some .orderFailed ∨ e.checkpoint = some .orderFilled

/-- No order is intended before the run computed its diff. -/
def OrdersAfterDiff (events : List AuditEvent) : Prop :=
  ∀ before e after, events = before ++ e :: after → e.isOrderEvent → ∃ d ∈ before, d.isDiff

section Orders

variable {st st' : RecoveredState} {events before : List AuditEvent} {e : AuditEvent}
  {now : Timestamp}

@[simp] theorem orders_applyPositions (data : Json) :
    (st.applyPositions data).orders = st.orders := by
  simp only [applyPositions]
  split <;> rfl

@[simp] theorem orders_applyEquity (data : Json) : (st.applyEquity data).orders = st.orders := by
  simp only [applyEquity]
  split <;> rfl

/-- Events that are about neither a diff nor an order leave the orders alone. -/
theorem orders_applyEvent_of_other (hdiff : e.checkpoint ≠ some .diffComputed)
    (horder : ¬ e.isOrderEvent) : (st.applyEvent e).orders = st.orders := by
  simp only [AuditEvent.isOrderEvent, not_or] at horder
  obtain ⟨hintent, hsubmitted, hfailed, hfilled⟩ := horder
  simp only [AuditEvent.checkpoint] at hdiff hintent hsubmitted hfailed hfilled
  simp only [applyEvent]
  split
  · next c hc =>
      rw [hc] at hdiff hintent hsubmitted hfailed hfilled
      cases c <;> first | contradiction | simp [applyCheckpoint]
  · rfl

/-- The orders after a diff come from the diff. -/
theorem orders_applyEvent_of_isDiff (h : e.isDiff) :
    (st.applyEvent e).orders = (st'.applyEvent e).orders := by
  obtain ⟨hcheckpoint, horders⟩ := h
  obtain ⟨orders, horders⟩ := Option.isSome_iff_exists.mp horders
  simp only [AuditEvent.checkpoint] at hcheckpoint
  simp only [applyEvent, hcheckpoint, applyCheckpoint, applyDiff, horders]

/-- The orders after an event depend on those before it alone. -/
theorem orders_applyEvent_congr (h : st.orders = st'.orders) :
    (st.applyEvent e).orders = (st'.applyEvent e).orders := by
  simp only [applyEvent]
  split
  · next c _ =>
      cases c <;> simp only [applyCheckpoint, orders_applyPositions, orders_applyEquity, h]
      case diffComputed => simp only [applyDiff]; split <;> simp
      case orderIntent =>
        simp only [applyOrderIntent]
        split
        · split_ifs <;> rfl
        · rfl
      case orderFailed => simp only [applyOrderFailed]; split <;> simp
      case orderSubmitted => simp only [applyOrderSubmitted]; split <;> simp
      case orderFilled => simp only [applyOrderFilled]; split <;> simp
  · exact h

theorem orders_foldl_congr (h : st.orders = st'.orders) :
    (events.foldl applyEvent st).orders = (events.foldl applyEvent st').orders := by
  induction events generalizing st st' with
  | nil => exact h
  | cons e events ih => exact ih (orders_applyEvent_congr h)

/-- A diff anywhere in a run makes its orders independent of what was before it. -/
theorem orders_foldl_of_isDiff (h : ∃ e ∈ events, e.isDiff) :
    (events.foldl applyEvent st).orders = (events.foldl applyEvent st').orders := by
  obtain ⟨e, he, hdiff⟩ := h
  obtain ⟨before, after, rfl⟩ := List.append_of_mem he
  rw [List.foldl_append, List.foldl_append, List.foldl_cons, List.foldl_cons]
  exact orders_foldl_congr (orders_applyEvent_of_isDiff hdiff)

/-- Without a diff, a run whose orders come after its diff has no effect on the orders. -/
theorem orders_foldl_of_not_isDiff (hrun : OrdersAfterDiff events) (h : ¬ ∃ e ∈ events, e.isDiff) :
    (events.foldl applyEvent st).orders = st.orders := by
  induction events using List.reverseRecOn with
  | nil => rfl
  | append_singleton events e ih =>
      have hrest : OrdersAfterDiff events := fun before x after heq ↦
        hrun before x (after ++ [e]) (by rw [heq, List.append_assoc, List.cons_append])
      have hnone : ¬ ∃ x ∈ events, x.isDiff := fun ⟨x, hx, hdiff⟩ ↦
        h ⟨x, List.mem_append_left _ hx, hdiff⟩
      rw [List.foldl_append, List.foldl_cons, List.foldl_nil]
      refine Eq.trans ?_ (ih hrest hnone)
      by_cases hdiff : e.checkpoint = some .diffComputed
      · have horders : ¬ ((e.data.get "orders").bind Json.asArray).isSome = true := fun horders ↦
          h ⟨e, by simp, hdiff, horders⟩
        rw [Bool.not_eq_true, Option.isSome_eq_false_iff, Option.isNone_iff_eq_none] at horders
        simp only [AuditEvent.checkpoint] at hdiff
        simp only [applyEvent, hdiff, applyCheckpoint, applyDiff, horders]
      · exact orders_applyEvent_of_other hdiff fun horder ↦ hnone (hrun events e [] rfl horder)

end Orders

/-! ## The rest -/

/-- A run begins with its start. -/
def StartsRun (events : List AuditEvent) : Prop :=
  ∃ e rest, events = e :: rest ∧ e.checkpoint = some .runStarted

/-- A call without an answer that a later run says nothing of. -/
def Carried (before run : List AuditEvent) (k : Call) : Prop :=
  LastIntentOpen before k ∧
    ∀ e ∈ run, e.checkpoint ≠ some k.intent ∧ e.checkpoint ≠ some k.result

section Progress

variable {before run : List AuditEvent} {k : Call}

theorem lastRunCompleted_append (h : StartsRun run) :
    LastRunCompleted (before ++ run) ↔ LastRunCompleted run := by
  obtain ⟨e, rest, rfl, he⟩ := h
  induction rest using List.reverseRecOn with
  | nil =>
      rw [← List.nil_append [e], ← List.append_assoc, lastRunCompleted_concat,
        lastRunCompleted_concat, if_pos he, if_pos he]
  | append_singleton rest x ih =>
      rw [← List.cons_append, ← List.append_assoc, lastRunCompleted_concat, lastRunCompleted_concat,
        ih]

theorem cancelFailed_append :
    CancelFailed (before ++ run) ↔ CancelFailed before ∨ CancelFailed run := by
  simp [CancelFailed, or_and_right, exists_or]

/-- A run that says something of a call decides whether it is answered. -/
theorem lastIntentOpen_append :
    LastIntentOpen (before ++ run) k ↔ LastIntentOpen run k ∨ Carried before run k := by
  induction run using List.reverseRecOn with
  | nil =>
      have hnil : ¬ LastIntentOpen [] k := by
        rintro ⟨x, e, y, h, -⟩
        simp at h
      simp [Carried, hnil]
  | append_singleton run e ih =>
      rw [← List.append_assoc, lastIntentOpen_concat, lastIntentOpen_concat, ih]
      by_cases hintent : e.checkpoint = some k.intent
      · simp [hintent]
      by_cases hresult : e.checkpoint = some k.result
      · simp [hresult, Carried]
      · simp [hintent, hresult, Carried, or_imp, forall_and]

end Progress

/-! ## The verdict -/

/-- The action, from whether the run was completed, a cancellation failed or was not answered, an
intent is incomplete, a fetch was not answered, and an order is live. -/
def verdict (completed cancel incomplete fetch live : Bool) : RecoveryAction :=
  if completed then .restart
  else if cancel then .manualReview
  else if incomplete then .resume
  else if fetch then .restart
  else if live then .manualReview
  else .restart

def RecoveredState.fetchIncomplete (st : RecoveredState) : Bool :=
  st.positionsCall.incomplete || st.quotesCall.incomplete || st.accountSummaryCall.incomplete

/-- Two checks in a row with the same outcome are one check. -/
theorem ite_ite_or {α : Type} (a b : Bool) (x y : α) :
    (if a then x else if b then x else y) = if a || b then x else y := by
  cases a <;> rfl

/-- The three fetches count together, and an empty list has no live order. -/
theorem determineRecoveryAction_eq (st : RecoveredState) : st.determineRecoveryAction =
    verdict st.runCompleted (st.cancelFailed || st.cancelCall.incomplete)
      (st.orders.any RecoveredOrder.incomplete) st.fetchIncomplete
      (st.orders.any RecoveredOrder.live) := by
  simp only [determineRecoveryAction, verdict, fetchIncomplete]
  rw [ite_ite_or, ite_ite_or, ite_ite_or]
  cases horders : st.orders with
  | nil => simp only [List.isEmpty_nil, List.any_nil, Bool.false_eq_true, if_false, ite_self]
  | cons o rest => rfl

/-- What more there is of cancellations, `c`, and of fetches, `f`, does not show where there is a
reason before it in the order of the checks. -/
theorem verdict_eq_iff (completed cancel incomplete fetch live c f : Bool) :
    verdict completed (cancel || c) incomplete (fetch || f) live =
        verdict completed cancel incomplete fetch live ↔
      completed = true ∨ cancel = true ∨
        ((live = true ∧ incomplete = false ∧ fetch = false → c = true ∨ f = false) ∧
          (¬ (live = true ∧ incomplete = false ∧ fetch = false) → c = false)) := by
  cases completed with
  | true => simp [verdict]
  | false =>
      cases cancel with
      | true => simp [verdict]
      | false =>
          cases c <;> cases incomplete <;> cases fetch <;> cases live <;> cases f <;> decide

/-- The run is reviewed for its live orders. -/
def UnderReview (now : Timestamp) (run : List AuditEvent) : Prop :=
  (∃ o ∈ (reconstruct now run).orders, o.live = true) ∧
    (∀ o ∈ (reconstruct now run).orders, o.incomplete = false) ∧
    ∀ k, k ≠ .cancel → ¬ LastIntentOpen run k

/-- Recovery says of a run what it says of it without the log before it. -/
def SameRecovery (now : Timestamp) (before run : List AuditEvent) : Prop :=
  (reconstructState now (before ++ run)).1.orders = (reconstructState now run).1.orders ∧
    (reconstructState now (before ++ run)).2 = (reconstructState now run).2

/-- The run has orders of its own, or there were none before it; and either its verdict comes before
any that could be carried over, or it is under review and only that is carried over which leads to a
review, or it is not and no cancellation is carried over. -/
def Unaffected (now : Timestamp) (before run : List AuditEvent) : Prop :=
  ((∃ e ∈ run, e.isDiff) ∨ (reconstruct now before).orders = []) ∧
    (LastRunCompleted run ∨ CancelFailed run ∨ LastIntentOpen run .cancel ∨
      ((UnderReview now run → CancelFailed before ∨ Carried before run .cancel ∨
          ∀ k, k ≠ .cancel → ¬ Carried before run k) ∧
        (¬ UnderReview now run → ¬ CancelFailed before ∧ ¬ Carried before run .cancel)))

section Verdict

variable {now : Timestamp} {before run : List AuditEvent}

theorem incomplete_iff_lastIntentOpen (now : Timestamp) {events : List AuditEvent}
    (h : Increasing events) (k : Call) :
    ((reconstruct now events).call k).incomplete = true ↔ LastIntentOpen events k :=
  (incomplete_reconstruct now events k).trans (unanswered_iff_lastIntentOpen h)

theorem fetchIncomplete_iff {events : List AuditEvent} (h : Increasing events) :
    (reconstruct now events).fetchIncomplete =
      true ↔ ∃ k, k ≠ .cancel ∧ LastIntentOpen events k := by
  have hp := incomplete_iff_lastIntentOpen now h .positions
  have hq := incomplete_iff_lastIntentOpen now h .quotes
  have ha := incomplete_iff_lastIntentOpen now h .accountSummary
  simp only [call] at hp hq ha
  rw [fetchIncomplete, Bool.or_eq_true, Bool.or_eq_true, hp, hq, ha]
  constructor
  · rintro ((h | h) | h)
    · exact ⟨.positions, by decide, h⟩
    · exact ⟨.quotes, by decide, h⟩
    · exact ⟨.accountSummary, by decide, h⟩
  · rintro ⟨k, hk, h⟩
    cases k with
    | positions => exact .inl (.inl h)
    | quotes => exact .inl (.inr h)
    | accountSummary => exact .inr h
    | cancel => exact absurd rfl hk

theorem cancel_iff {events : List AuditEvent} (h : Increasing events) :
    ((reconstruct now events).cancelFailed ||
        (reconstruct now events).cancelCall.incomplete) = true ↔
      CancelFailed events ∨ LastIntentOpen events .cancel := by
  have hc := incomplete_iff_lastIntentOpen now h .cancel
  simp only [call] at hc
  rw [Bool.or_eq_true, cancelFailed_reconstruct, hc]

theorem underReview_iff (h : Increasing run) : UnderReview now run ↔
    (reconstruct now run).orders.any RecoveredOrder.live = true ∧
      (reconstruct now run).orders.any RecoveredOrder.incomplete = false ∧
      (reconstruct now run).fetchIncomplete = false := by
  rw [UnderReview, List.any_eq_true, List.any_eq_false, ← Bool.not_eq_true, fetchIncomplete_iff h]
  simp

/-- With the same orders, the action is the same exactly if what is carried over does not show. -/
theorem action_append_iff (hrun : StartsRun run) (h : Increasing (before ++ run))
    (horders : (reconstruct now (before ++ run)).orders = (reconstruct now run).orders) :
    (reconstructState now (before ++ run)).2 = (reconstructState now run).2 ↔
      (LastRunCompleted run ∨ CancelFailed run ∨ LastIntentOpen run .cancel ∨
        ((UnderReview now run → CancelFailed before ∨ Carried before run .cancel ∨
            ∀ k, k ≠ .cancel → ¬ Carried before run k) ∧
          (¬ UnderReview now run → ¬ CancelFailed before ∧ ¬ Carried before run .cancel))) := by
  classical
  have hright := h.of_append_right
  have hcompleted : (reconstruct now (before ++ run)).runCompleted =
      (reconstruct now run).runCompleted := by
    rw [Bool.eq_iff_iff, runCompleted_reconstruct, runCompleted_reconstruct,
      lastRunCompleted_append hrun]
  have hcancel : ((reconstruct now (before ++ run)).cancelFailed ||
        (reconstruct now (before ++ run)).cancelCall.incomplete) =
      (((reconstruct now run).cancelFailed || (reconstruct now run).cancelCall.incomplete) ||
        decide (CancelFailed before ∨ Carried before run .cancel)) := by
    rw [Bool.eq_iff_iff, cancel_iff h, Bool.or_eq_true, cancel_iff hright, decide_eq_true_iff,
      cancelFailed_append, lastIntentOpen_append]
    tauto
  have hfetch : (reconstruct now (before ++ run)).fetchIncomplete =
      ((reconstruct now run).fetchIncomplete ||
        decide (∃ k, k ≠ .cancel ∧ Carried before run k)) := by
    rw [Bool.eq_iff_iff, fetchIncomplete_iff h, Bool.or_eq_true, fetchIncomplete_iff hright,
      decide_eq_true_iff]
    simp only [lastIntentOpen_append, and_or_left, exists_or]
  simp only [reconstructState, determineRecoveryAction_eq, horders, hcompleted, hcancel, hfetch]
  rw [verdict_eq_iff, runCompleted_reconstruct, cancel_iff hright, ← underReview_iff hright,
    decide_eq_true_iff, decide_eq_false_iff_not, decide_eq_false_iff_not, not_or, or_assoc,
    or_assoc]
  simp only [not_exists, not_and]

/-- For every log, and every run after it such that the numbers of the checkpoints increase: the
orders and the action that are recovered are those of the run alone if the run is unaffected; and
only then, where the orders of the run come after its diff. -/
theorem sameRecovery_iff (now : Timestamp) {before run : List AuditEvent} (hrun : StartsRun run)
    (h : Increasing (before ++ run)) :
    (Unaffected now before run → SameRecovery now before run) ∧
      (OrdersAfterDiff run → SameRecovery now before run → Unaffected now before run) := by
  have hfold : ∀ st, st = reconstruct now before →
      reconstruct now (before ++ run) = run.foldl applyEvent st := by
    rintro _ rfl
    rw [reconstruct, reconstruct, List.foldl_append]
  constructor
  · rintro ⟨hsource, hverdict⟩
    have horders : (reconstruct now (before ++ run)).orders = (reconstruct now run).orders := by
      rw [hfold _ rfl]
      rcases hsource with hdiff | hnone
      · exact orders_foldl_of_isDiff hdiff
      · exact orders_foldl_congr hnone
    exact ⟨horders, (action_append_iff hrun h horders).mpr hverdict⟩
  · rintro hafter ⟨horders, haction⟩
    refine ⟨?_, (action_append_iff hrun h horders).mp haction⟩
    by_cases hdiff : ∃ e ∈ run, e.isDiff
    · exact .inl hdiff
    · refine .inr ?_
      rw [reconstructState, reconstructState, hfold _ rfl,
        orders_foldl_of_not_isDiff hafter hdiff] at horders
      exact horders.trans (orders_foldl_of_not_isDiff hafter hdiff)

/-! ## A rejected order of a run that is over -/

/-- Runs one after another, each of which begins with its start and ends with its completion. -/
def CompletedRuns (events : List AuditEvent) : Prop :=
  ∃ runs : List (List AuditEvent), events = runs.flatten ∧
    ∀ r ∈ runs, StartsRun r ∧ ∃ e, r.getLast? = some e ∧ e.checkpoint = some .runCompleted

/-- A run whose only order is rejected. -/
def rejectedRun : List AuditEvent :=
  [bareEvent .runStarted 1,
    checkpointEvent .diffComputed 0 2 (diffData .exact [(buyAapl 15025).order]),
    checkpointEvent .orderIntent 0 3 (orderIntentData .exact (buyAapl 15025).order "a1" "" "" ""),
    checkpointEvent .orderFailed 0 4
      (orderFailedData "permanent_error" "" (failureContext (buyAapl 15025).order "a1")),
    bareEvent .runCompleted 5]

theorem completedRuns_rejectedRun : CompletedRuns rejectedRun := by
  refine ⟨[rejectedRun], by simp, fun r hr ↦ ?_⟩
  obtain rfl := List.mem_singleton.mp hr
  exact ⟨⟨_, _, rfl, by decide⟩, bareEvent .runCompleted 5, rfl, by decide⟩

/-- The next run stops right away, and recovery is to go on with the order that was rejected. -/
theorem reconstructState_after_rejectedRun :
    CompletedRuns rejectedRun ∧ StartsRun [bareEvent .runStarted 6] ∧
    Increasing (rejectedRun ++ [bareEvent .runStarted 6]) ∧
    (reconstructState 0 (rejectedRun ++ [bareEvent .runStarted 6])).2 = .resume ∧
    (reconstructState 0 [bareEvent .runStarted 6]).2 = .restart ∧
    ¬ SameRecovery 0 rejectedRun [bareEvent .runStarted 6] := by
  have hresume : (reconstructState 0 (rejectedRun ++ [bareEvent .runStarted 6])).2 = .resume := by
    decide +kernel
  have hrestart : (reconstructState 0 [bareEvent .runStarted 6]).2 = .restart := by decide +kernel
  refine ⟨completedRuns_rejectedRun, ⟨_, [], rfl, by decide⟩,
    ⟨by decide, by decide⟩, hresume, hrestart, fun h ↦ ?_⟩
  rw [SameRecovery, hresume, hrestart] at h
  exact absurd h.2 (by decide)

/-- A run without orders before it leaves nothing. -/
theorem sameRecovery_after_empty :
    SameRecovery 0 [bareEvent .runStarted 1, bareEvent .runCompleted 2]
    [bareEvent .runStarted 3] := by
  have hcarried : ∀ k, ¬ Carried [bareEvent .runStarted 1, bareEvent .runCompleted 2]
      [bareEvent .runStarted 3] k := by
    rintro k ⟨hopen, -⟩
    have hnone : ((reconstruct 0 [bareEvent .runStarted 1, bareEvent .runCompleted 2]).call
        k).incomplete = false := by cases k <;> decide +kernel
    rw [← incomplete_iff_lastIntentOpen 0 ⟨by decide, by decide⟩, hnone] at hopen
    exact Bool.false_ne_true hopen
  refine (sameRecovery_iff 0 ⟨_, [], rfl, by decide⟩ ⟨by decide, by decide⟩).1
    ⟨.inr (by decide +kernel), .inr (.inr (.inr ⟨fun h ↦ ?_, fun _ ↦ ⟨?_, hcarried .cancel⟩⟩))⟩
  · exact .inr (.inr fun k _ ↦ hcarried k)
  · rintro ⟨e, he, hcancel, -⟩
    revert he hcancel
    simp only [List.mem_cons, List.not_mem_nil, or_false]
    rintro (rfl | rfl) <;> decide

end Verdict

end Nanobook.Rebalancer
