import Nanobook.Rebalancer.Comparison

/-!
# Reconciling intents

`reconcile_incomplete_intents`: for each order that was intended and neither submitted nor failed
the broker is asked for its open orders, and the first of these is taken to be the order, whatever
it is. Two intents, or an intent and an order that is out already, can be given one order of the
broker.
-/

namespace Nanobook.Rebalancer

/-! ## The reconciliation -/

inductive RecoveryError where
  | queryFailed (attempts : Nat) (error : BrokerError)
  | intentsFailed (failedCount : Nat)
  | audit
deriving DecidableEq

def maxQueries : Nat := 5

/-- The first open order of which some quantity remains. -/
def firstOpenOrder (orders : List BrokerOrderStatus) : Option OrderId :=
  (orders.find? fun order ↦ 0 < order.remainingQuantity).map BrokerOrderStatus.id

/-- Ask for the open orders, with the number of times that this may be done again.  Neither the
symbol nor the quantity of the intent is looked at. -/
def reconcileOrderIntent (broker : Nat → OpenOrdersResponse) :
    Nat → Except RecoveryError (Option OrderId) × (Nat → OpenOrdersResponse)
  | 0 =>
      match broker 0 with
      | .ok orders => (.ok (firstOpenOrder orders), fun n ↦ broker (n + 1))
      | .error e => (.error (.queryFailed maxQueries e), fun n ↦ broker (n + 1))
  | retriesLeft + 1 =>
      match broker 0 with
      | .ok orders => (.ok (firstOpenOrder orders), fun n ↦ broker (n + 1))
      | .error _ => reconcileOrderIntent (fun n ↦ broker (n + 1)) retriesLeft

def reconciledSubmissionData (symbol : Symbol) (brokerOrderId : OrderId) : Json :=
  .obj [("symbol", .str symbol.asStr), ("ibkr_id", .int brokerOrderId.toNat),
    ("reconciled", .bool true)]

def reconciledFailureData (symbol : Symbol) : Json :=
  .obj [("symbol", .str symbol.asStr), ("reason", .str "not_found_at_broker"),
    ("reconciled", .bool true)]

/-- Log an order of the broker for an intent, or that there is none. -/
def logReconciled (audit : AuditLog) (sequenceNumber : Nat) (symbol : Symbol) :
    Option OrderId → Bool × AuditLog
  | some brokerOrderId =>
      audit.logCheckpoint .orderSubmitted sequenceNumber
      (reconciledSubmissionData symbol brokerOrderId)
  | none => audit.logCheckpoint .orderFailed sequenceNumber (reconciledFailureData symbol)

/-- The orders from some order on, with the number of those that failed before. -/
def reconcileOrders (broker : Nat → OpenOrdersResponse) (audit : AuditLog)
    (nextSequence failedCount : Nat) : List RecoveredOrder → Except RecoveryError Unit × AuditLog
  | [] => (if 0 < failedCount then .error (.intentsFailed failedCount) else .ok (), audit)
  | order :: rest =>
      if order.incomplete then
        match reconcileOrderIntent broker (maxQueries - 1) with
        | (.ok found, broker) =>
            match logReconciled audit nextSequence order.symbol found with
            | (true, audit) => reconcileOrders broker audit (nextSequence + 1) failedCount rest
            | (false, audit) => (.error .audit, audit)
        | (.error _, broker) => reconcileOrders broker audit nextSequence (failedCount + 1) rest
      else reconcileOrders broker audit nextSequence failedCount rest

/-- What the broker is going to answer to its queries is `broker`. -/
def reconcileIncompleteIntents (broker : Nat → OpenOrdersResponse) (st : RecoveredState)
    (audit : AuditLog) : Except RecoveryError Unit × AuditLog :=
  reconcileOrders broker audit (st.sequenceNumber + 1) 0 st.orders

/-! ## Which orders are assigned -/

/-- The broker id that an event submits an order under. -/
def AuditEvent.assignedId (e : AuditEvent) : Option OrderId :=
  if e.checkpoint = some .orderSubmitted then
    match e.data.get "ibkr_id" with
    | some (.int n) => some (UInt64.ofNat n.toNat)
    | _ => none
  else none

/-- The broker orders assigned to intents by what was written to a log: no order twice, and none
that a recovered order was submitted as. -/
def AssignsSoundly (st : RecoveredState) (written : List AuditEvent) : Prop :=
  (written.filterMap AuditEvent.assignedId).Nodup ∧
    ∀ o ∈ st.orders, o.submitted = true → o.brokerId ∉ written.filterMap AuditEvent.assignedId

/-- How many of the lines that are written one after another get into a log: the first error ends
it. -/
def linesLeft (writer : Nat → WriteOutcome × Timestamp) : Nat → Nat
  | 0 => 0
  | n + 1 =>
      match (writer 0).1 with
      | .written => linesLeft (fun k ↦ writer (k + 1)) n + 1
      | .unsynced => 1
      | .failed => 0

/-- The first open order of an answer, of which there need not be any. -/
def OpenOrdersResponse.firstOpen : OpenOrdersResponse → Option (Option OrderId)
  | .ok orders => some (firstOpenOrder orders)
  | .error _ => none

/-- What the intents find, each in the answer that its queries end with. -/
def foundOrders (broker : Nat → OpenOrdersResponse) (intents : Nat) : List (Option OrderId) :=
  (Retry.settled OpenOrdersResponse.isFailure (maxQueries - 1) intents broker).filterMap
    OpenOrdersResponse.firstOpen

section Reconcile

variable {broker : Nat → OpenOrdersResponse} {audit : AuditLog} {st : RecoveredState}

/-- The queries for an intent end with its answer, and the next intent goes on after them. -/
theorem reconcileOrderIntent_eq (broker : Nat → OpenOrdersResponse) (n : Nat) :
    (reconcileOrderIntent broker n).1.toOption =
        ((Retry.answers OpenOrdersResponse.isFailure n broker).getLast
          Retry.answers_ne_nil).firstOpen ∧
      (reconcileOrderIntent broker n).2 =
        fun i ↦ broker ((Retry.answers OpenOrdersResponse.isFailure n broker).length + i) := by
  induction n generalizing broker with
  | zero =>
      cases h : broker 0 with
      | ok orders =>
          have hnot : OpenOrdersResponse.isFailure (broker 0) = false := by rw [h]; rfl
          rw [Retry.getLast_of_not_again hnot, Retry.answers_of_not_again hnot, h]
          simp [reconcileOrderIntent, h, Except.toOption, OpenOrdersResponse.firstOpen,
            Nat.add_comm]
      | error e =>
          simp [reconcileOrderIntent, h, Except.toOption, OpenOrdersResponse.firstOpen,
            Nat.add_comm, Retry.answers]
  | succ n ih =>
      cases h : broker 0 with
      | ok orders =>
          have hnot : OpenOrdersResponse.isFailure (broker 0) = false := by rw [h]; rfl
          rw [Retry.getLast_of_not_again hnot, Retry.answers_of_not_again hnot, h]
          simp [reconcileOrderIntent, h, Except.toOption, OpenOrdersResponse.firstOpen,
            Nat.add_comm]
      | error e =>
          have hagain : OpenOrdersResponse.isFailure (broker 0) = true := by rw [h]; rfl
          have hstep : reconcileOrderIntent broker (n + 1) =
              reconcileOrderIntent (fun i ↦ broker (i + 1)) n := by rw [reconcileOrderIntent, h]
          obtain ⟨hresult, htape⟩ := ih fun i ↦ broker (i + 1)
          rw [hstep, Retry.getLast_of_again hagain, Retry.answers_of_again hagain, hresult, htape]
          refine ⟨rfl, funext fun i ↦ congrArg broker ?_⟩
          rw [List.length_cons]
          omega

theorem foundOrders_succ (broker : Nat → OpenOrdersResponse) (k : Nat) :
    foundOrders broker (k + 1) =
      (reconcileOrderIntent broker (maxQueries - 1)).1.toOption.toList ++
        foundOrders (reconcileOrderIntent broker (maxQueries - 1)).2 k := by
  obtain ⟨hresult, htape⟩ := reconcileOrderIntent_eq broker (maxQueries - 1)
  rw [hresult, htape, foundOrders, Retry.settled, List.filterMap_cons]
  cases OpenOrdersResponse.firstOpen _ <;> rfl

theorem assignedId_submission (ts : Timestamp) (n : Nat) (symbol : Symbol)
    (brokerOrderId : OrderId) :
    (checkpointEvent .orderSubmitted ts n
      (reconciledSubmissionData symbol brokerOrderId)).assignedId = some brokerOrderId := by
  simp [AuditEvent.assignedId, checkpointEvent, reconciledSubmissionData, Json.get,
    List.lookup_cons, AuditEvent.checkpoint]

theorem assignedId_failure (ts : Timestamp) (n : Nat) (symbol : Symbol) :
    (checkpointEvent .orderFailed ts n (reconciledFailureData symbol)).assignedId = none := by
  simp [AuditEvent.assignedId, checkpointEvent, AuditEvent.checkpoint]

/-- What is logged for an intent assigns what it found, where the line gets into the log. -/
theorem logReconciled_cases (audit : AuditLog) (n : Nat) (symbol : Symbol)
    (found : Option OrderId) :
    ∃ e : AuditEvent, e.assignedId = found ∧
      (logReconciled audit n symbol found).2.events =
        audit.events ++ (if (audit.writer 0).1.leavesLine then [e] else []) ∧
      (logReconciled audit n symbol found).2.writer = (fun k ↦ audit.writer (k + 1)) ∧
      (logReconciled audit n symbol found).1 = (audit.writer 0).1.succeeded := by
  cases found with
  | none => exact ⟨_, assignedId_failure _ n symbol, audit.events_append _, rfl, rfl⟩
  | some brokerOrderId =>
      exact ⟨_, assignedId_submission _ n symbol brokerOrderId, audit.events_append _, rfl, rfl⟩

/-- Lines written one after another: the first, and the others unless it is the last. -/
theorem take_linesLeft_succ {writer : Nat → WriteOutcome × Timestamp} (found : Option OrderId)
    (rest : List (Option OrderId)) : (found :: rest).take (linesLeft writer (rest.length + 1)) =
      (if (writer 0).1.leavesLine then [found] else []) ++
        if (writer 0).1.succeeded then
          rest.take (linesLeft (fun k ↦ writer (k + 1)) rest.length)
        else [] := by
  simp only [linesLeft]
  cases (writer 0).1 <;> rfl

/-- The orders assigned by the lines for what some intents find. -/
def assignedOrders (writer : Nat → WriteOutcome × Timestamp) (found : List (Option OrderId)) :
    List OrderId :=
  (found.take (linesLeft writer found.length)).filterMap id

theorem assignedOrders_cons {writer : Nat → WriteOutcome × Timestamp} (found : Option OrderId)
    (rest : List (Option OrderId)) : assignedOrders writer (found :: rest) =
      (if (writer 0).1.leavesLine then found.toList else []) ++
        if (writer 0).1.succeeded then assignedOrders (fun k ↦ writer (k + 1)) rest else [] := by
  rw [assignedOrders, List.length_cons, take_linesLeft_succ, List.filterMap_append]
  congr 1
  · split_ifs
    · cases found <;> rfl
    · rfl
  · split_ifs <;> rfl

/-- The lines that a reconciliation leaves assign what the intents find. -/
theorem assigned_reconcileOrders (orders : List RecoveredOrder) (broker : Nat → OpenOrdersResponse)
    (audit : AuditLog) (nextSequence failedCount : Nat) :
    ∃ written, (reconcileOrders broker audit nextSequence failedCount orders).2.events =
        audit.events ++ written ∧
      written.filterMap AuditEvent.assignedId = assignedOrders audit.writer
        (foundOrders broker (orders.countP RecoveredOrder.incomplete)) := by
  induction orders generalizing broker audit nextSequence failedCount with
  | nil => exact ⟨[], (List.append_nil _).symm, rfl⟩
  | cons order rest ih =>
      cases hincomplete : order.incomplete with
      | false =>
          rw [reconcileOrders, hincomplete, List.countP_cons_of_neg (by simp [hincomplete])]
          exact ih broker audit nextSequence failedCount
      | true =>
          rw [reconcileOrders, hincomplete, if_pos rfl, List.countP_cons_of_pos hincomplete,
            foundOrders_succ]
          obtain ⟨result, broker'⟩ := reconcileOrderIntent broker (maxQueries - 1)
          cases result with
          | error e => exact ih broker' audit nextSequence (failedCount + 1)
          | ok found =>
              obtain ⟨e, hassigned, hevents, hwriter, hok⟩ :=
                logReconciled_cases audit nextSequence order.symbol found
              have hline : (if (audit.writer 0).1.leavesLine then [e] else []).filterMap
                    AuditEvent.assignedId =
                  if (audit.writer 0).1.leavesLine then found.toList else [] := by
                split_ifs
                · cases found <;> simp [hassigned]
                · rfl
              change ∃ written, (match logReconciled audit nextSequence order.symbol found with
                | (true, audit) => reconcileOrders broker' audit (nextSequence + 1) failedCount rest
                | (false, audit) => (.error .audit, audit)).2.events = _ ∧
                  _ = assignedOrders audit.writer (found :: foundOrders broker' _)
              rw [assignedOrders_cons, ← hline, ← hok, ← hwriter]
              generalize logReconciled audit nextSequence order.symbol found =
              logged at hevents hok hwriter ⊢
              obtain ⟨ok, audit'⟩ := logged
              cases ok with
              | true =>
                  obtain ⟨written, hwritten, hrest⟩ :=
                    ih broker' audit' (nextSequence + 1) failedCount
                  refine ⟨_, hwritten.trans ((congrArg (· ++ written) hevents).trans
                    (List.append_assoc _ _ _)), ?_⟩
                  rw [List.filterMap_append, hrest, if_pos rfl]
              | false =>
                  refine ⟨_, hevents, ?_⟩
                  rw [if_neg Bool.false_ne_true, List.append_nil]

/-- For every recovered state, every sequence of answers of the broker and every behaviour of the
log, the broker orders assigned to intents are pairwise different and none that a recovered order
was submitted as, exactly if this holds of the first open orders in the answers that the intents
get, as far as there are lines for them in the log. -/
theorem reconcileIncompleteIntents_sound_iff (broker : Nat → OpenOrdersResponse)
    (st : RecoveredState) (audit : AuditLog) :
    (∃ written, (reconcileIncompleteIntents broker st audit).2.events = audit.events ++ written ∧
      AssignsSoundly st written) ↔
      let assigned := assignedOrders audit.writer
        (foundOrders broker (st.orders.countP RecoveredOrder.incomplete))
      assigned.Nodup ∧ ∀ o ∈ st.orders, o.submitted = true → o.brokerId ∉ assigned := by
  obtain ⟨written, hwritten, hassigned⟩ :=
    assigned_reconcileOrders st.orders broker audit (st.sequenceNumber + 1) 0
  rw [← reconcileIncompleteIntents] at hwritten
  constructor
  · rintro ⟨written', hwritten', hsound⟩
    obtain rfl := List.append_cancel_left (hwritten'.symm.trans hwritten)
    rwa [AssignsSoundly, hassigned] at hsound
  · intro h
    exact ⟨written, hwritten, by rwa [AssignsSoundly, hassigned]⟩

/-! ## One list of open orders -/

theorem foundOrders_const (orders : List BrokerOrderStatus) (k : Nat) :
    foundOrders (fun _ ↦ .ok orders) k = List.replicate k (firstOpenOrder orders) := by
  induction k with
  | zero => rfl
  | succ k ih =>
      rw [foundOrders_succ, List.replicate_succ, ← ih]
      rfl

theorem assignedOrders_of_written {writer : Nat → WriteOutcome × Timestamp}
    (h : ∀ k, (writer k).1 = .written) (found : List (Option OrderId)) :
    assignedOrders writer found = found.filterMap id := by
  induction found generalizing writer with
  | nil => rfl
  | cons x found ih =>
      rw [assignedOrders_cons, h 0, ih fun k ↦ h (k + 1)]
      cases x <;> rfl

/-- A broker that shows one list all the time, to a log that can be written: no order of the list is
assigned, or there is one intent for it and it is none that was submitted. -/
theorem reconcileIncompleteIntents_sound_const_iff (orders : List BrokerOrderStatus)
    (st : RecoveredState) (audit : AuditLog) (hwriter : ∀ k, (audit.writer k).1 = .written) :
    (let assigned := assignedOrders audit.writer
      (foundOrders (fun _ ↦ .ok orders) (st.orders.countP RecoveredOrder.incomplete))
    assigned.Nodup ∧ ∀ o ∈ st.orders, o.submitted = true → o.brokerId ∉ assigned) ↔
      ∀ brokerOrderId, firstOpenOrder orders = some brokerOrderId →
        st.orders.countP RecoveredOrder.incomplete = 0 ∨
        st.orders.countP RecoveredOrder.incomplete = 1 ∧
          ∀ o ∈ st.orders, o.submitted = true → o.brokerId ≠ brokerOrderId := by
  rw [assignedOrders_of_written hwriter, foundOrders_const]
  cases hfirst : firstOpenOrder orders with
  | none => simp
  | some brokerOrderId =>
      simp only [Option.some.injEq, forall_eq']
      have hreplicate : (List.replicate (st.orders.countP RecoveredOrder.incomplete)
          (some brokerOrderId)).filterMap id =
            List.replicate (st.orders.countP RecoveredOrder.incomplete) brokerOrderId :=
        List.filterMap_replicate_of_some rfl
      rw [hreplicate, List.nodup_replicate]
      generalize st.orders.countP RecoveredOrder.incomplete = k
      simp only [List.mem_replicate, not_and]
      constructor
      · rintro ⟨hk, hne⟩
        rcases Nat.eq_zero_or_pos k with rfl | hpos
        · exact .inl rfl
        · exact .inr ⟨by omega, fun o ho hsubmitted ↦ hne o ho hsubmitted (by omega)⟩
      · rintro (rfl | ⟨rfl, hne⟩)
        · exact ⟨by omega, fun o _ _ h ↦ absurd rfl h⟩
        · exact ⟨by omega, fun o ho hsubmitted _ ↦ hne o ho hsubmitted⟩

/-! ## Two intents -/

/-- Two orders that were intended before the process stopped. -/
def twoIntents : RecoveredState :=
  { RecoveredState.new 0 with
    orders := [.planned (buyAapl 0).order.symbol "BUY" 10 0 (some "a1"),
      .planned ⟨"MSFT", by decide⟩ "BUY" 5 0 (some "m1")] }

/-- One order is open, and it is assigned to both. -/
theorem reconcileIncompleteIntents_twoIntents :
    (reconcileIncompleteIntents (fun _ ↦ .ok [⟨7, .submitted, 0, 10, 0⟩]) twoIntents
      .empty).2.events.filterMap AuditEvent.assignedId = [7, 7] ∧
    ¬ ∃ written, (reconcileIncompleteIntents (fun _ ↦ .ok [⟨7, .submitted, 0, 10, 0⟩]) twoIntents
      .empty).2.events = AuditLog.empty.events ++ written ∧ AssignsSoundly twoIntents written := by
  have hassigned : (reconcileIncompleteIntents (fun _ ↦ .ok [⟨7, .submitted, 0, 10, 0⟩]) twoIntents
      .empty).2.events.filterMap AuditEvent.assignedId = [7, 7] := by decide +kernel
  refine ⟨hassigned, ?_⟩
  rintro ⟨written, hwritten, hnodup, -⟩
  have hnil : AuditLog.empty.events = [] := rfl
  rw [hwritten, hnil, List.nil_append] at hassigned
  rw [hassigned] at hnodup
  exact absurd hnodup (by decide)

end Reconcile

end Nanobook.Rebalancer
