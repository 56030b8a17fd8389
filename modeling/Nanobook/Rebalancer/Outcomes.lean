import Nanobook.Rebalancer.Attribution

/-!
# Failed and submitted orders

The line of a failure has a type, a message and a context; recovery looks for a symbol in it and
finds none.  No order is ever marked as failed, and one that failed counts as an intent without an
outcome.
-/

namespace Nanobook.Rebalancer

open Program RecoveredState

section Outcomes

variable (orders : List RebalanceOrder) (log : List AuditEvent) (recovered : List RecoveredOrder)
  (lines : List (List AuditEvent))

/-- The orders with a failure in their lines are marked as failed, those with a submission as
submitted; an incomplete intent is the last line of the log. -/
structure OutcomesRecognised : Prop where
  length_eq : recovered.length = lines.length
  failed_iff : ∀ (i : Nat) (r : RecoveredOrder), recovered[i]? = some r →
    (r.failed = true ↔ Checkpoint.orderFailed ∈ checkpoints (linesOf lines i))
  submitted_iff : ∀ (i : Nat) (r : RecoveredOrder), recovered[i]? = some r →
    (r.submitted = true ↔ Checkpoint.orderSubmitted ∈ checkpoints (linesOf lines i))
  incomplete : ∀ (i : Nat) (r : RecoveredOrder), recovered[i]? = some r → r.incomplete = true →
    checkpoints (linesOf lines i) = [.orderIntent] ∧ linesOf lines i <:+ log

/-- No failure is logged; an order that is submitted is the first with its symbol, and one that is
intended comes after the intent of the first with its symbol; where that has no outcome, the log
ends. -/
structure OutcomesTraceable : Prop where
  not_failed : ∀ i, Checkpoint.orderFailed ∉ checkpoints (linesOf lines i)
  submitted_first : ∀ i, Checkpoint.orderSubmitted ∈ checkpoints (linesOf lines i) →
    leader orders i = some i
  intended_first : ∀ i j, leader orders j = some i → linesOf lines j ≠ [] → linesOf lines i ≠ []
  last : ∀ i, leader orders i = some i → checkpoints (linesOf lines i) = [.orderIntent] →
    linesOf lines i <:+ log

variable {orders log recovered lines} {div : CentDivision} {order : RebalanceOrder}
  {l : List AuditEvent}

/-- An order that neither failed nor was submitted has its intent alone. -/
theorem OrderLines.checkpoints_eq_intent (h : OrderLines div order l) (hne : l ≠ [])
    (hfailed : Checkpoint.orderFailed ∉ checkpoints l)
    (hsubmitted : Checkpoint.orderSubmitted ∉ checkpoints l) : checkpoints l = [.orderIntent] := by
  cases h with
  | nothing => exact absurd rfl hne
  | intended hi => simp [checkpoints, hi.checkpoint_eq]
  | failed hi hf => simp [checkpoints, hi.checkpoint_eq, hf.checkpoint_eq] at hfailed
  | submitted id hi hs => simp [checkpoints, hi.checkpoint_eq, hs.checkpoint_eq] at hsubmitted
  | filled result hi hs hf =>
      simp [checkpoints, hi.checkpoint_eq, hs.checkpoint_eq, hf.checkpoint_eq] at hsubmitted

section Tracked

variable (hlines : List.Forall₂ (OrderLines div) orders lines)
  (h : Tracked orders lines orders.length recovered)
include hlines h

/-- The marks of an order, in terms of its lines and those of the orders with its symbol. -/
theorem Tracked.submitted_iff_mem {i : Nat} {r : RecoveredOrder} (hr : recovered[i]? = some r) :
    r.submitted = true ↔
      ∃ j, leader orders j =
      some i ∧ Checkpoint.orderSubmitted ∈ checkpoints (linesOf lines j) := by
  rw [h.submitted_iff i r hr]
  constructor
  · rintro ⟨j, hj, hleader, hid⟩
    exact ⟨j, hleader, (orderLines_linesOf hlines hj).isSome_submittedId.mp hid⟩
  · rintro ⟨j, hleader, hmem⟩
    have hj := lt_of_leader hleader
    exact ⟨j, hj, hleader, (orderLines_linesOf hlines hj).isSome_submittedId.mpr hmem⟩

theorem Tracked.incomplete_iff {i : Nat} {r : RecoveredOrder} (hr : recovered[i]? = some r) :
    r.incomplete = true ↔ (∃ j, leader orders j = some i ∧ linesOf lines j ≠ []) ∧
      ¬ ∃ j, leader orders j =
      some i ∧ Checkpoint.orderSubmitted ∈ checkpoints (linesOf lines j) := by
  have hintended :
    r.clientOrderId.isSome = true ↔ ∃ j, leader orders j = some i ∧ linesOf lines j ≠ [] := by
    rw [h.intended_iff i r hr]
    constructor
    · rintro ⟨j, -, hj⟩
      exact ⟨j, hj⟩
    · rintro ⟨j, hleader, hne⟩
      exact ⟨j, lt_of_leader hleader, hleader, hne⟩
  rw [RecoveredOrder.incomplete, h.failed_eq i r hr, ← hintended, ← h.submitted_iff_mem hlines hr]
  simp

theorem Tracked.outcomesRecognised (htraceable : OutcomesTraceable orders log lines) :
    OutcomesRecognised log recovered lines where
  length_eq := h.length_eq.trans hlines.length_eq
  failed_iff i r hr := by simp [h.failed_eq i r hr, htraceable.not_failed i]
  submitted_iff i r hr := by
    rw [h.submitted_iff_mem hlines hr]
    constructor
    · rintro ⟨j, hleader, hmem⟩
      have hfirst := htraceable.submitted_first j hmem
      rw [hleader, Option.some.injEq] at hfirst
      exact hfirst ▸ hmem
    · intro hmem
      exact ⟨i, htraceable.submitted_first i hmem, hmem⟩
  incomplete i r hr hincomplete := by
    obtain ⟨⟨j, hleader, hne⟩, hsubmitted⟩ := (h.incomplete_iff hlines hr).mp hincomplete
    have hfirst := leader_leader hleader
    have heq : checkpoints (linesOf lines i) = [.orderIntent] :=
      (orderLines_linesOf hlines (lt_of_leader hfirst)).checkpoints_eq_intent
        (htraceable.intended_first i j hleader hne) (htraceable.not_failed i)
        fun hmem ↦ hsubmitted ⟨i, hfirst, hmem⟩
    exact ⟨heq, htraceable.last i hfirst heq⟩

theorem Tracked.outcomesTraceable (hrecognised : OutcomesRecognised log recovered lines) :
    OutcomesTraceable orders log lines := by
  have hget {i : Nat} (hi : i < orders.length) : ∃ r, recovered[i]? = some r :=
    ⟨_, List.getElem?_eq_getElem (h.length_eq.symm ▸ hi)⟩
  -- beyond the plan there are no lines
  have hlt {i : Nat} {c : Checkpoint} (hmem : c ∈ checkpoints (linesOf lines i)) :
    i < orders.length := by
    by_contra hle
    rw [linesOf_of_le hlines (Nat.le_of_not_lt hle)] at hmem
    simp at hmem
  constructor
  · intro i hmem
    obtain ⟨r, hr⟩ := hget (hlt hmem)
    have hfailed := (hrecognised.failed_iff i r hr).mpr hmem
    rw [h.failed_eq i r hr] at hfailed
    cases hfailed
  · intro i hmem
    obtain ⟨r, hr⟩ := hget (hlt hmem)
    obtain ⟨j, hleader, -⟩ := (h.submitted_iff_mem hlines hr).mp
      ((hrecognised.submitted_iff i r hr).mpr hmem)
    exact leader_leader hleader
  · intro i j hleader hne hempty
    have hi := lt_of_leader (leader_leader hleader)
    obtain ⟨r, hr⟩ := hget hi
    have hsubmitted : ¬ r.submitted = true := by
      rw [hrecognised.submitted_iff i r hr, hempty]
      simp
    rw [h.submitted_iff_mem hlines hr] at hsubmitted
    have hincomplete := (h.incomplete_iff hlines hr).mpr ⟨⟨j, hleader, hne⟩, hsubmitted⟩
    have heq := (hrecognised.incomplete i r hr hincomplete).1
    rw [hempty] at heq
    cases heq
  · intro i hleader heq
    obtain ⟨r, hr⟩ := hget (lt_of_leader hleader)
    have hne : linesOf lines i ≠ [] := by
      intro hempty
      rw [hempty] at heq
      cases heq
    have hsubmitted : ¬ r.submitted = true := by
      rw [hrecognised.submitted_iff i r hr, heq]
      simp
    rw [h.submitted_iff_mem hlines hr] at hsubmitted
    have hincomplete := (h.incomplete_iff hlines hr).mpr ⟨⟨i, hleader, hne⟩, hsubmitted⟩
    exact (hrecognised.incomplete i r hr hincomplete).2

end Tracked

/-- For every log that ends after the plan of a run: the orders that recovery marks as failed or
submitted are those whose failure or submission was logged, and an incomplete intent is where the
process stopped, exactly if the outcomes are traceable. -/
theorem outcomesRecognised_iff {W : Type} {prims : Primitives W} {input : RunInput W}
    {events : List AuditEvent} {s : Session}
    (hstart : loopStart prims input (input.session events) = (.ok (some orders), s))
    (now : Timestamp) (k : Nat) :
    OutcomesRecognised (logAt prims input events s k)
        (reconstructState now (logAt prims input events s k)).1.orders
          (linesAt prims input orders s k) ↔
      OutcomesTraceable orders (logAt prims input events s k) (linesAt prims input orders s k) := by
  have hlines : List.Forall₂ (OrderLines prims.div) orders (linesAt prims input orders s k) :=
    forall₂_cutAll (forall₂_orderSegments orders 0 ⟨0, 0, 0⟩ s) k
  have htracked := tracked_logAt hstart now k
  exact ⟨htracked.outcomesTraceable hlines, htracked.outcomesRecognised hlines⟩

end Outcomes

/-! ## An order that is rejected -/

/-- The broker rejects every order. -/
def rejectedOrder : RunInput Unit := answeredInput fun _ ↦ .error (.order "no trading permissions")

/-- The loop of that run has one order. -/
theorem loopStart_answeredInput (responses : Nat → Response) : ∃ order s,
    loopStart plainPrimitives (answeredInput responses) ((answeredInput responses).session []) =
        (.ok (some [order]), s) ∧
      ¬ order.shares < 0 ∧ s.Ready (.new responses) := by
  obtain ⟨order, hshares, hplan⟩ := exists_plannedOrders_answeredInput
  have h : Unhindered plainPrimitives (answeredInput responses) [order] :=
    unhindered_answeredInput (hplan responses) (Nat.le_add_left 1 9)
  have hwindow : checkWindowAlreadyComplete []
      ((answeredInput responses).target.windowId plainPrimitives) = none := rfl
  obtain ⟨s, hstart, hready⟩ :=
    loopStart_ok h (List.cons_ne_nil _ _) rfl rfl (fun _ _ _ ↦ rfl) hwindow
  exact ⟨order, s, hstart, hshares, hready⟩

theorem loopStart_rejectedOrder : ∃ order s,
    loopStart plainPrimitives rejectedOrder (rejectedOrder.session []) = (.ok (some [order]), s) ∧
      ¬ order.shares < 0 ∧ s.Ready (.new fun _ ↦ .error (.order "no trading permissions")) :=
  loopStart_answeredInput _

/-- Where the process stops before the first order, nothing is marked, and nothing was logged. -/
theorem outcomesRecognised_rejectedOrder : ∃ order s,
    loopStart plainPrimitives rejectedOrder (rejectedOrder.session []) = (.ok (some [order]), s) ∧
      OutcomesRecognised (logAt plainPrimitives rejectedOrder [] s 0)
        (reconstructState 0 (logAt plainPrimitives rejectedOrder [] s 0)).1.orders
        (linesAt plainPrimitives rejectedOrder [order] s 0) := by
  obtain ⟨order, s, hstart, -, -⟩ := loopStart_rejectedOrder
  refine ⟨order, s, hstart, (outcomesRecognised_iff hstart 0 0).mpr ?_⟩
  have hnone (i : Nat) : linesOf (linesAt plainPrimitives rejectedOrder [order] s 0) i = [] :=
    getElem?_cutAll_zero _ i
  constructor
  · intro i
    rw [hnone]
    simp
  · intro i h
    rw [hnone] at h
    simp at h
  · intro i j _ h
    exact absurd (hnone j) h
  · intro i _ h
    rw [hnone] at h
    cases h


section Rejected

variable {W : Type} {prims : Primitives W} {input : RunInput W} {order : RebalanceOrder}
  {s : Session}

/-- An order that the broker rejects leaves its intent and its failure. -/
theorem processOrder_of_rejected (hs : s.Writable) (hshares : ¬ order.shares < 0) {e : BrokerError}
    (he : isTransientError e = false) (hresponse : s.broker.responses 0 = .error e)
    (counts : RunCounts) :
    ∃ i f, i.IsIntentOf prims.div order ∧ f.IsFailure ∧
      (processOrder prims input counts order s).2.log = s.log ++ [i, f] := by
  have hfinal : (s.broker.responses 0).callsForRetry = false := by rw [hresponse]; exact he
  have hexecute (clientOrderId : String) (n timeout : Nat) (timestamp targetSpec : String) :
      ∃ i f message broker writer, i.IsIntentOf prims.div order ∧ f.IsFailure ∧
        executeOrderWithWriteAhead prims.div order clientOrderId n s.broker s.audit timeout
        timestamp
          targetSpec = (.error (.order message), broker, ⟨s.log ++ [i] ++ [f], writer⟩) := by
    simp only [executeOrderWithWriteAhead, if_neg hshares, logOrderIntentCheckpoint,
      AuditLog.logCheckpoint, AuditLog.append, hs 0, hs 1, WriteOutcome.succeeded,
      WriteOutcome.leavesLine, if_true, attemptOrder_of_not_callsForRetry hfinal, hresponse,
      finishOrder, he, Bool.false_eq_true, if_false, failOrder, logOrderFailedCheckpoint]
    exact ⟨_, _, _, _, _, ⟨_, _, _, _, _, _, rfl⟩, ⟨_, _, _, _, _, rfl⟩, rfl⟩
  obtain ⟨i, f, message, broker, writer, hi, hf, heq⟩ := hexecute
    (prims.clientOrderHash input.target.idempotencyScope order.symbol.asStr
        (actionToSide order.action)
      order.shares.toInt.toNat) (s.checkpointSequence + 1) input.config.orderTimeoutSecs
    (input.env.timestamp (s.checkpointSequence + 1)) input.target.idempotencyScope
  refine ⟨i, f, hi, hf, ?_⟩
  rw [processOrder, deriveClientOrderId, if_neg hshares,
    bind_of_ok (show (pure _ : Run String) s = _ from rfl),
    bind_of_ok (show nextCheckpointSequence s = _ from rfl),
    bind_of_ok (a := .error (.order message)) (by rw [executeOrder, heq])]
  exact List.append_assoc ..

end Rejected

/-- The failure of the order is in the log, and recovery does not mark it. -/
theorem not_outcomesRecognised_rejectedOrder : ∃ order s,
    loopStart plainPrimitives rejectedOrder (rejectedOrder.session []) = (.ok (some [order]), s) ∧
      ¬ OutcomesRecognised (logAt plainPrimitives rejectedOrder [] s 2)
        (reconstructState 0 (logAt plainPrimitives rejectedOrder [] s 2)).1.orders
        (linesAt plainPrimitives rejectedOrder [order] s 2) := by
  obtain ⟨order, s, hstart, hshares, hwritable, hbroker⟩ := loopStart_rejectedOrder
  refine ⟨order, s, hstart, fun hrecognised ↦ ?_⟩
  have htracked := tracked_logAt hstart 0 2
  have hresponse :
    s.broker.responses 0 = .error (.order "no trading permissions") := by rw [hbroker]; rfl
  obtain ⟨i, f, hi, hf, hlog⟩ :=
    @processOrder_of_rejected Unit plainPrimitives rejectedOrder order s
    hwritable hshares _ rfl hresponse ⟨0, 0, 0⟩
  have hlines : linesAt plainPrimitives rejectedOrder [order] s 2 = [[i, f]] := by
    rw [linesAt, orderSegments_singleton rfl, hlog, List.drop_left]
    rfl
  have hlength :
    0 < (reconstruct 0 (logAt plainPrimitives rejectedOrder [] s 2)).orders.length := by
    rw [htracked.length_eq]
    exact Nat.zero_lt_one
  have hr := List.getElem?_eq_getElem hlength
  have hfailed := (hrecognised.failed_iff 0 _ hr).mpr (by
    rw [hlines]
    simp [linesOf, checkpoints, hi.checkpoint_eq, hf.checkpoint_eq])
  rw [htracked.failed_eq 0 _ hr] at hfailed
  cases hfailed

end Nanobook.Rebalancer
