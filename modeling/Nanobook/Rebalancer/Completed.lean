import Nanobook.Rebalancer.Lines

/-!
# What a run that succeeds logs

The checkpoints that each part of a run logs where it succeeds, and how many writes it makes.
-/

namespace Nanobook.Rebalancer

open Program

/-- These checkpoints were logged, in so many writes. -/
structure Logged (found : List Checkpoint) (writes : Nat) (s s' : Session) : Prop where
  checkpoints_eq : checkpoints s'.log = checkpoints s.log ++ found
  writer_eq : ∀ i, s'.audit.writer i = s.audit.writer (i + writes)

section Logged

variable {s s' s'' : Session} {found found' : List Checkpoint} {m n : Nat}

theorem Logged.refl (s : Session) : Logged [] 0 s s := ⟨by simp, fun _ ↦ rfl⟩

theorem Logged.trans (h : Logged found m s s') (h' : Logged found' n s' s'') :
    Logged (found ++ found') (m + n) s s'' where
  checkpoints_eq := by rw [h'.checkpoints_eq, h.checkpoints_eq, List.append_assoc]
  writer_eq i := by rw [h'.writer_eq, h.writer_eq, Nat.add_assoc, Nat.add_comm n]

end Logged

section Writes

variable {W : Type} {prims : Primitives W} {input : RunInput W}

theorem ensures_writeLog (event : Timestamp → AuditEvent) :
    Ensures (writeLog fun audit ↦ audit.append event) fun s _ s' ↦
      ∃ ts, Logged (checkpoints [event ts]) 1 s s' := by
  intro s a s' hres
  cases h : s.audit.writer 0 with
  | mk outcome ts =>
      simp only [writeLog, AuditLog.append, h] at hres
      cases outcome with
      | written =>
          cases hres
          exact ⟨ts, checkpoints_append, fun _ ↦ rfl⟩
      | unsynced | failed => cases hres

theorem ensures_logNextCheckpoint (checkpoint : Checkpoint) (data : Nat → Json) :
    Ensures (logNextCheckpoint checkpoint data) fun s _ s' ↦ Logged [checkpoint] 1 s s' := by
  intro s a s' hres
  obtain ⟨ts, h⟩ :=
    ensures_writeLog _ { s with checkpointSequence := s.checkpointSequence + 1 } a s' hres
  rw [checkpoints_checkpointEvent] at h
  exact ⟨h.checkpoints_eq, h.writer_eq⟩

/-- An event that is no checkpoint. -/
theorem ensures_logWithIdempotency {event : String} (hevent : Checkpoint.fromEventName event = none)
    (n : Option Nat) (windowId : Option String) (data : Json) :
    Ensures (writeLog fun audit ↦ audit.logWithIdempotency event n windowId data) fun s _ s' ↦
      Logged [] 1 s s' := by
  intro s a s' hres
  obtain ⟨ts, h⟩ := ensures_writeLog _ s a s' hres
  have hnone : checkpoints [(⟨event, ts, n, windowId, data⟩ : AuditEvent)] = [] := by
    simp [checkpoints, AuditEvent.checkpoint, hevent]
  rwa [hnone] at h

theorem ensures_fetchWithWriteAhead {A : Type} (intent result : Checkpoint)
    (intentData : Nat → Json) (answer : Except BrokerError A) (resultData : A → Json) :
    Ensures (fetchWithWriteAhead intent result intentData answer resultData) fun s a s' ↦
      answer = .ok a ∧ Logged [intent, result] 2 s s' := by
  cases answer with
  | error e =>
      exact ((ensures_logNextCheckpoint _ _).bind fun _ ↦
        Ensures.raise _ (R := fun _ _ _ ↦ False)).mono
        fun s a s' ⟨_, _, _, h⟩ ↦ h.elim
  | ok a =>
      refine ((ensures_logNextCheckpoint _ _).bind fun _ ↦
        (ensures_logNextCheckpoint _ _).bind fun _ ↦
        Ensures.pure a).mono ?_
      rintro s b s' ⟨_, s₁, h₁, _, s₂, h₂, rfl, rfl⟩
      exact ⟨rfl, h₁.trans h₂⟩

theorem ensures_checkStaleness (quotes : List Quote) (i : Nat) :
    Ensures (checkStaleness input i quotes) fun s _ s' ↦ s' = s := by
  induction quotes generalizing i with
  | nil => exact (Ensures.pure ()).mono fun _ _ _ h ↦ h.2
  | cons quote rest ih =>
      rw [checkStaleness]
      split
      · exact Ensures.ite (fun _ ↦ Ensures.raise _) fun _ ↦ ih _
      · exact Ensures.raise _

/-! ## The plan, the risk check and the confirmation -/

/-- The checkpoints of the fetches before the plan. -/
def firstFetches : List Checkpoint :=
  [.accountSummaryIntent, .accountSummaryResult, .positionsIntent, .positionsResult, .quotesIntent,
    .quotesResult]

/-- The checkpoints of the fetches after the orders. -/
def lastFetches : List Checkpoint :=
  [.positionsIntent, .positionsResult, .quotesIntent, .quotesResult, .accountSummaryIntent,
    .accountSummaryResult]

theorem ensures_computePlan : Ensures (computePlan prims input) fun s plan s' ↦
    plannedOrders prims input =
    some plan.2.2.2.2 ∧ Logged (firstFetches ++ [.diffComputed]) 7 s s' := by
  refine ((ensures_fetchWithWriteAhead _ _ _ _ _).bind fun summary ↦
    (ensures_fetchWithWriteAhead _ _ _ _ _).bind fun positions ↦
    (ensures_fetchWithWriteAhead _ _ _ _ _).bind fun quotes ↦
    (ensures_checkStaleness quotes 0).bind fun _ ↦
    Ensures.ite (fun _ ↦ Ensures.raise _) fun _ ↦ (ensures_logNextCheckpoint _ _).bind fun _ ↦
      Ensures.pure _).mono ?_
  rintro s plan s' ⟨summary, s₁, ⟨hsummary, h₁⟩, positions, s₂, ⟨hpositions, h₂⟩, quotes, s₃,
    ⟨hquotes, h₃⟩, _, s₄, rfl, _, s₅, h₅, rfl, rfl⟩
  refine ⟨?_, ((h₁.trans h₂).trans h₃).trans h₅⟩
  simp only [plannedOrders, hsummary, hpositions, hquotes]

theorem ensures_checkRisk (summary : Account) (positions : List CurrentPosition)
    (prices : List (Symbol × Int64)) (orders : List RebalanceOrder) :
    Ensures (checkRisk prims input summary positions prices orders) fun s _ s' ↦
      Logged [.riskCheckPassed] 2 s s' := by
  refine ((ensures_logWithIdempotency (by decide) none none _).bind fun _ ↦
    Ensures.ite (fun _ ↦ Ensures.raise _) fun _ ↦ ensures_logNextCheckpoint _ _).mono ?_
  rintro s _ s' ⟨_, s₁, h₁, h₂⟩
  exact h₁.trans h₂

/-- Whether orders are executed, once the plan has passed. -/
def RunInput.approved (input : RunInput W) : Prop :=
  input.opts.dryRun = false ∧ (input.opts.force = true ∨ input.env.confirmation = .ok true)

/-- The number of writes of the confirmation. -/
def RunInput.confirmationWrites (input : RunInput W) : Nat := if input.opts.force then 0 else 1

theorem ensures_confirm : Ensures (confirm input) fun s confirmed s' ↦
    (confirmed = true ↔ input.approved) ∧ checkpoints s'.log = checkpoints s.log ∧
      (confirmed = true → Logged [] input.confirmationWrites s s') := by
  refine Ensures.ite (fun hdry ↦ (Ensures.pure _).mono ?_) fun hdry ↦ Ensures.ite
    (fun hforce ↦ (Ensures.pure _).mono ?_) fun hforce ↦ ?_
  · rintro _ _ s ⟨rfl, rfl⟩
    exact ⟨by simp [RunInput.approved, hdry], rfl, by simp⟩
  · rintro _ _ s ⟨rfl, rfl⟩
    refine ⟨by simp [RunInput.approved, hdry, hforce], rfl, fun _ ↦ ?_⟩
    rw [RunInput.confirmationWrites, if_pos hforce]
    exact Logged.refl s
  · cases hconfirmation : input.env.confirmation with
    | error e => exact Ensures.raise _
    | ok approved =>
        refine ((ensures_logWithIdempotency (by decide) none none _).bind fun _ ↦
          Ensures.pure _).mono ?_
        rintro s _ _ ⟨_, s₁, h₁, rfl, rfl⟩
        refine ⟨?_, by simp [h₁.checkpoints_eq], fun _ ↦ ?_⟩
        · simp [RunInput.approved, hdry, hforce, hconfirmation]
        · rw [RunInput.confirmationWrites, if_neg hforce]
          exact h₁

/-! ## The orders -/

def orderCheckpoints : List Checkpoint :=
    [.orderIntent, .orderSubmitted, .orderFailed, .orderFilled]

section OrderLines

variable {div : CentDivision} {order : RebalanceOrder} {e : AuditEvent} {l : List AuditEvent}

theorem AuditEvent.IsIntentOf.checkpoint_eq (h : e.IsIntentOf div order) :
    e.checkpoint = some .orderIntent := by
  obtain ⟨ts, n, _, _, _, _, rfl⟩ := h
  exact checkpoint_checkpointEvent ..

theorem AuditEvent.IsFailure.checkpoint_eq (h : e.IsFailure) :
    e.checkpoint = some .orderFailed := by
  obtain ⟨ts, n, _, _, _, rfl⟩ := h
  exact checkpoint_checkpointEvent ..

theorem AuditEvent.IsSubmissionOf.checkpoint_eq {id : Int32} (h : e.IsSubmissionOf div order id) :
    e.checkpoint = some .orderSubmitted := by
  obtain ⟨ts, n, rfl⟩ := h
  exact checkpoint_checkpointEvent ..

theorem AuditEvent.IsFillOf.checkpoint_eq {result : OrderResult} (h : e.IsFillOf result) :
    e.checkpoint = some .orderFilled := by
  obtain ⟨ts, n, rfl⟩ := h
  exact checkpoint_checkpointEvent ..

/-- The checkpoints of the lines of an order. -/
theorem OrderLines.checkpoints_mem (h : OrderLines div order l) :
    (∀ c ∈ checkpoints l, c ∈ orderCheckpoints) ∧
      (Checkpoint.orderIntent ∈ checkpoints l ↔ l ≠ []) := by
  cases h with
  | nothing => simp
  | intended hi => simp [checkpoints, hi.checkpoint_eq, orderCheckpoints]
  | failed hi hf => simp [checkpoints, hi.checkpoint_eq, hf.checkpoint_eq, orderCheckpoints]
  | submitted id hi hs => simp [checkpoints, hi.checkpoint_eq, hs.checkpoint_eq, orderCheckpoints]
  | filled result hi hs hf =>
      simp [checkpoints, hi.checkpoint_eq, hs.checkpoint_eq, hf.checkpoint_eq, orderCheckpoints]

end OrderLines

theorem not_neg_of_processOrder {counts : RunCounts} {order : RebalanceOrder} {s s' : Session}
    {processed : RunCounts × Option Int32}
    (h : processOrder prims input counts order s = (.ok processed, s')) : ¬ order.shares < 0 := by
  intro hshares
  rw [processOrder, deriveClientOrderId, if_pos hshares] at h
  cases h

/-- The first intent whose line is written comes before any shutdown.  Where a line is not written,
the order is left alone and the next write is that of the next intent. -/
def IntentLogged (input : RunInput W) (i count : Nat) (writer : Nat → WriteOutcome × Timestamp) :
    Prop :=
  ∃ j < count, (writer j).1.leavesLine = true ∧
    (∀ k ≤ j, input.env.shutdownBefore (i + k) = false) ∧
      ∀ k < j, input.env.shutdownAfter (i + k) = false

theorem intentLogged_succ {i count : Nat} {writer : Nat → WriteOutcome × Timestamp}
    (hbefore : input.env.shutdownBefore i = false) :
    IntentLogged input i (count + 1) writer ↔ (writer 0).1.leavesLine = true ∨
      input.env.shutdownAfter i =
      false ∧ IntentLogged input (i + 1) count fun k ↦ writer (k + 1) := by
  constructor
  · rintro ⟨j, hj, hline, hbefore, hafter⟩
    cases j with
    | zero => exact .inl hline
    | succ j =>
        refine .inr ⟨hafter 0 j.succ_pos, j, Nat.lt_of_succ_lt_succ hj, hline, fun k hk ↦ ?_,
          fun k hk ↦ ?_⟩
        · rw [Nat.add_assoc, Nat.add_comm 1]
          exact hbefore (k + 1) (Nat.succ_le_succ hk)
        · rw [Nat.add_assoc, Nat.add_comm 1]
          exact hafter (k + 1) (Nat.succ_lt_succ hk)
  · rintro (hline | ⟨hafter, j, hj, hline, hbefores, hafters⟩)
    · refine ⟨0, count.succ_pos, hline, fun k hk ↦ ?_, fun k hk ↦ absurd hk (Nat.not_lt_zero k)⟩
      obtain rfl := Nat.le_zero.mp hk
      exact hbefore
    · refine ⟨j + 1, Nat.succ_lt_succ hj, hline, fun k hk ↦ ?_, fun k hk ↦ ?_⟩
      · cases k with
        | zero => exact hbefore
        | succ k =>
            rw [Nat.add_comm k, ← Nat.add_assoc]
            exact hbefores k (Nat.le_of_succ_le_succ hk)
      · cases k with
        | zero => exact hafter
        | succ k =>
            rw [Nat.add_comm k, ← Nat.add_assoc]
            exact hafters k (Nat.lt_of_succ_lt_succ hk)

/-- The lines of an order: there are some if the first write leaves its line; otherwise that was the
only write. -/
theorem processOrder_intent (counts : RunCounts) (order : RebalanceOrder) (s : Session) :
    ∃ l, (processOrder prims input counts order s).2.log = s.log ++ l ∧
      OrderLines prims.div order l ∧
      (¬ order.shares < 0 → (l ≠ [] ↔ (s.audit.writer 0).1.leavesLine = true)) ∧
      (¬ order.shares < 0 → l = [] → ∀ i,
        (processOrder prims input counts order s).2.audit.writer i = s.audit.writer (i + 1)) := by
  obtain ⟨l, hlog, -, hl, hnil⟩ := processOrder_lines counts s
  have hleaves (hshares : ¬ order.shares < 0) :
    l ≠ [] ↔ (s.audit.writer 0).1.leavesLine = true := by
    constructor
    · intro hne
      by_contra hline
      have hfailed : (processOrder prims input counts order s).2.log = s.log :=
        (processOrder_of_failed hshares (Bool.eq_false_iff.mpr hline) counts).1
      exact hne (List.self_eq_append_right.mp (hfailed.symm.trans hlog))
    · intro hline hempty
      rcases hnil hempty with hneg | hfalse
      · exact hshares hneg
      · exact absurd hline (by simp [hfalse])
  refine ⟨l, hlog, hl, hleaves, fun hshares hempty ↦ ?_⟩
  have hline : (s.audit.writer 0).1.leavesLine = false :=
    Bool.eq_false_iff.mpr fun h ↦ (hleaves hshares).mpr h hempty
  exact (processOrder_of_failed hshares hline counts).2

theorem ensures_logKillCompleted (count : Nat) :
    Ensures (logKillCompleted input count) fun s _ s' ↦ Logged [] 1 s s' :=
  ensures_logWithIdempotency (by decide) none none _

theorem ensures_shutDownAfter (remaining : Nat) (orderId : Option Int32) :
    Ensures (shutDownAfter input remaining orderId) fun s _ s' ↦ ∃ ys,
      checkpoints s'.log = checkpoints s.log ++ ys ∧
      (ys = [] ∨ ys = [.cancelIntent, .cancelResult]) := by
  cases orderId with
  | none => exact (ensures_logKillCompleted _).mono fun s _ s' h ↦ ⟨[], h.checkpoints_eq, .inl rfl⟩
  | some orderId =>
      have hcancel : Ensures (cancelOrderWithWriteAhead input orderId.toInt.toNat
          "graceful_shutdown_partial_fill") fun s _ s' ↦
          Logged [.cancelIntent, .cancelResult] 2 s s' := by
        rw [cancelOrderWithWriteAhead]
        cases input.env.cancellation with
        | ok _ =>
            refine ((ensures_logNextCheckpoint _ _).bind fun _ ↦ ensures_logNextCheckpoint _ _).mono
              ?_
            rintro s _ s' ⟨_, s₁, h₁, h₂⟩
            exact h₁.trans h₂
        | error e =>
            refine ((ensures_logNextCheckpoint _ _).bind fun _ ↦
              (ensures_logNextCheckpoint _ _).bind
              fun _ ↦ Ensures.raise _ (R := fun _ _ _ ↦ False)).mono ?_
            rintro s _ s' ⟨_, _, _, _, _, _, h⟩
            exact h.elim
      refine (hcancel.bind fun _ ↦ ensures_logKillCompleted _).mono ?_
      rintro s _ s' ⟨_, s₁, h₁, h₂⟩
      exact ⟨_, (h₁.trans h₂).checkpoints_eq, .inr rfl⟩

/-- After the checkpoints of the orders there may be those of a cancellation, where a shutdown ends
them. -/
theorem ensures_executeOrders (orders : List RebalanceOrder) (i : Nat) (counts : RunCounts) :
    Ensures (executeOrders prims input i counts orders) fun s executed s' ↦ ∃ xs ys,
      checkpoints s'.log = checkpoints s.log ++ (xs ++ ys) ∧ (∀ c ∈ xs, c ∈ orderCheckpoints) ∧
        (Checkpoint.orderIntent ∈ xs ↔ IntentLogged input i orders.length s.audit.writer) ∧
        (ys = [] ∨ ys = [.cancelIntent, .cancelResult] ∧ executed = none) := by
  induction orders generalizing i counts with
  | nil =>
      refine (Ensures.pure _).mono ?_
      rintro s _ _ ⟨rfl, rfl⟩
      exact ⟨[], [], by simp, by simp, by simp [IntentLogged], .inl rfl⟩
  | cons order rest ih =>
      intro s executed s' hres
      rw [executeOrders] at hres
      by_cases hbefore : input.env.shutdownBefore i = true
      · rw [if_pos hbefore] at hres
        obtain ⟨_, s₁, h₁, rfl, rfl⟩ :=
          ((ensures_logKillCompleted _).bind fun _ ↦ Ensures.pure none) s _ _ hres
        refine ⟨[], [], by simp [h₁.checkpoints_eq], by simp, iff_of_false (by simp) ?_, .inl rfl⟩
        rintro ⟨j, -, -, hbefores, -⟩
        exact absurd hbefore (by simpa using hbefores 0 j.zero_le)
      rw [if_neg hbefore] at hres
      rw [List.length_cons, intentLogged_succ (Bool.eq_false_iff.mpr hbefore)]
      obtain ⟨l, hlog, hl, hleaves, hshift⟩ := processOrder_intent counts order s
      rcases hprocessed : processOrder prims input counts order s with ⟨result, s₁⟩
      rw [hprocessed] at hlog hshift
      cases result with
      | error e =>
          rw [bind_of_error hprocessed] at hres
          cases hres
      | ok processed =>
          have hleaves := hleaves (not_neg_of_processOrder hprocessed)
          have hshift := hshift (not_neg_of_processOrder hprocessed)
          have hlog : checkpoints s₁.log = checkpoints s.log ++ checkpoints l := by
            rw [← checkpoints_append]
            exact congrArg checkpoints hlog
          obtain ⟨hmem, hintent⟩ := hl.checkpoints_mem
          rw [bind_of_ok hprocessed] at hres
          by_cases hafter : input.env.shutdownAfter i = true
          · simp only [hafter, if_true] at hres
            obtain ⟨_, s₂, ⟨ys, h₂, hys⟩, rfl, rfl⟩ :=
              ((ensures_shutDownAfter _ _).bind fun _ ↦ Ensures.pure none) s₁ _ _ hres
            refine ⟨checkpoints l, ys, by rw [h₂, hlog, List.append_assoc], hmem, ?_,
              hys.imp_right fun hys ↦ ⟨hys, rfl⟩⟩
            simp [hintent, hleaves, hafter]
          · simp only [hafter, Bool.false_eq_true, if_false] at hres
            obtain ⟨xs, ys, hrest, hxs, hiff, hys⟩ := ih _ _ s₁ executed s' hres
            refine ⟨checkpoints l ++ xs, ys, by rw [hrest, hlog]; simp [List.append_assoc],
              fun c hc ↦ (List.mem_append.mp hc).elim (hmem c) (hxs c), ?_, hys⟩
            rw [List.mem_append, hintent, hleaves, hiff]
            by_cases hline : (s.audit.writer 0).1.leavesLine = true
            · simp [hline]
            · have hempty : l = [] := by_contra fun hne ↦ hline (hleaves.mp hne)
              have hwriter : s₁.audit.writer = fun k ↦ s.audit.writer (k + 1) :=
                funext (hshift hempty)
              simp [hline, hafter, hwriter]

/-! ## The whole run -/

theorem ensures_reconcile (summary : Account) (allSymbols : List Symbol) :
    Ensures (reconcile prims input summary allSymbols) fun s _ s' ↦ Logged lastFetches 6 s s' := by
  refine ((ensures_fetchWithWriteAhead _ _ _ _ _).bind fun _ ↦
    (ensures_fetchWithWriteAhead _ _ _ _ _).bind fun _ ↦
    (ensures_fetchWithWriteAhead _ _ _ _ _).bind fun _ ↦ Ensures.pure ()).mono ?_
  rintro s _ s' ⟨_, s₁, ⟨-, h₁⟩, _, s₂, ⟨-, h₂⟩, _, s₃, ⟨-, h₃⟩, -, rfl⟩
  exact (h₁.trans h₂).trans h₃

/-- The checkpoints of a run from its plan on. -/
inductive RebalanceShape (input : RunInput W) (firstOrderWrite : Nat → WriteOutcome × Timestamp) :
    List RebalanceOrder → RunOutcome → List Checkpoint → Prop
  | empty : RebalanceShape input firstOrderWrite [] .nothingToDo (firstFetches ++ [.diffComputed])
  | stopped {order : RebalanceOrder} {rest : List RebalanceOrder} {xs ys : List Checkpoint}
      (hxs : ∀ c ∈ xs, c ∈ orderCheckpoints)
      (hintent : Checkpoint.orderIntent ∈ xs ↔
        input.approved ∧ IntentLogged input 0 (rest.length + 1) firstOrderWrite)
      (hys : ys = [] ∨ ys = [.cancelIntent, .cancelResult]) :
      RebalanceShape input firstOrderWrite (order :: rest) .stopped
        (firstFetches ++ [.diffComputed, .riskCheckPassed] ++ (xs ++ ys))
  | reconciled {order : RebalanceOrder} {rest : List RebalanceOrder} {xs : List Checkpoint}
      {counts : RunCounts} (hxs : ∀ c ∈ xs, c ∈ orderCheckpoints)
      (hintent : Checkpoint.orderIntent ∈ xs ↔
        input.approved ∧ IntentLogged input 0 (rest.length + 1) firstOrderWrite) :
      RebalanceShape input firstOrderWrite (order :: rest) (.reconciled counts)
        (firstFetches ++ [.diffComputed, .riskCheckPassed] ++ xs ++ lastFetches)

theorem ensures_rebalance : Ensures (rebalance prims input) fun s outcome s' ↦ ∃ orders found,
    plannedOrders prims input = some orders ∧ checkpoints s'.log = checkpoints s.log ++ found ∧
      RebalanceShape input (fun j ↦ s.audit.writer (j + (9 + input.confirmationWrites))) orders
      outcome
        found := by
  intro s outcome s' hres
  obtain ⟨plan, s₁, hcompute, hres⟩ := bind_eq_ok hres
  obtain ⟨hplan, h₁⟩ := ensures_computePlan s plan s₁ hcompute
  obtain ⟨summary, positions, prices, allSymbols, orders⟩ := plan
  cases orders with
  | nil =>
      cases hres
      exact ⟨[], _, hplan, h₁.checkpoints_eq, .empty⟩
  | cons order rest =>
      obtain ⟨_, s₂, hrisk, hres⟩ := bind_eq_ok hres
      have h₂ := h₁.trans (ensures_checkRisk _ _ _ _ s₁ _ s₂ hrisk)
      obtain ⟨confirmed, s₃, hconfirm, hres⟩ := bind_eq_ok hres
      obtain ⟨happroved, h₃, hwrites⟩ := ensures_confirm s₂ confirmed s₃ hconfirm
      cases confirmed with
      | false =>
          cases hres
          have hshape :
            RebalanceShape input (fun j ↦ s.audit.writer (j + (9 + input.confirmationWrites)))
              (order :: rest) .stopped
                (firstFetches ++ [.diffComputed, .riskCheckPassed] ++ ([] ++ [])) :=
            .stopped (by simp) (by simp [← happroved]) (.inl rfl)
          exact ⟨_, _, hplan, by rw [h₃, h₂.checkpoints_eq]; simp, hshape⟩
      | true =>
          have h₃ := h₂.trans (hwrites rfl)
          have hwriter : s₃.audit.writer =
              fun j ↦ s.audit.writer (j + (9 + input.confirmationWrites)) := funext h₃.writer_eq
          obtain ⟨executed, s₄, hexecute, hres⟩ := bind_eq_ok hres
          obtain ⟨xs, ys, h₄, hxs, hintent, hys⟩ :=
            ensures_executeOrders _ _ _ s₃ executed s₄ hexecute
          rw [hwriter] at hintent
          have hintent : Checkpoint.orderIntent ∈ xs ↔ input.approved ∧ IntentLogged input 0
              (rest.length + 1) fun j ↦ s.audit.writer (j + (9 + input.confirmationWrites)) :=
            hintent.trans (iff_and_self.mpr fun _ ↦ happroved.mp rfl)
          rw [h₃.checkpoints_eq] at h₄
          cases executed with
          | none =>
              cases hres
              refine ⟨_, _, hplan, ?_, .stopped hxs hintent (hys.imp_right And.left)⟩
              rw [h₄]
              simp
          | some counts =>
              obtain rfl : ys = [] := hys.resolve_right fun h ↦ by cases h.2
              obtain ⟨_, s₅, hreconcile, hres⟩ := bind_eq_ok hres
              cases hres
              refine ⟨_, _, hplan, ?_, .reconciled hxs hintent⟩
              rw [(ensures_reconcile _ _ s₄ _ _ hreconcile).checkpoints_eq, h₄]
              simp

def RunOutcome.completion : RunOutcome → List Checkpoint
  | .stopped => []
  | .nothingToDo | .reconciled _ => [.runCompleted]

theorem ensures_finishRun (n : Nat) (outcome : RunOutcome) :
    Ensures (finishRun prims input n outcome) fun s _ s' ↦
      checkpoints s'.log = checkpoints s.log ++ outcome.completion := by
  cases outcome with
  | nothingToDo =>
      refine ((ensures_logWithIdempotency (by decide) none none _).bind fun _ ↦
        ensures_logNextCheckpoint _ _).mono ?_
      rintro s _ s' ⟨_, s₁, h₁, h₂⟩
      exact (h₁.trans h₂).checkpoints_eq
  | stopped =>
      refine (Ensures.pure ()).mono ?_
      rintro _ _ s ⟨-, rfl⟩
      exact (List.append_nil _).symm
  | reconciled counts =>
      intro s _ s' hres
      obtain ⟨_, s₁, hmark, hres⟩ := bind_eq_ok hres
      have h₂ := ensures_logNextCheckpoint _ _ s₁ _ s' hres
      rw [Program.when] at hmark
      split_ifs at hmark
      · have h₁ := ensures_logWithIdempotency (by decide) _ _ _ s _ s₁ hmark
        exact (h₁.trans h₂).checkpoints_eq
      · cases hmark
        exact h₂.checkpoints_eq

/-- The number of writes before the first order. -/
def RunInput.firstOrderWrite (input : RunInput W) : Nat :=
  (if input.opts.cronMode then 2 else 1) + (9 + input.confirmationWrites)

theorem ensures_beginRun : Ensures (beginRun prims input) fun s _ s' ↦
    Logged [.runStarted] (if input.opts.cronMode then 2 else 1) s s' := by
  have hread : Ensures (Program.read fun s : Session ↦ maxCheckpointSequence s.log : Run Nat)
      fun s _ s' ↦ s' = s := fun s a s' h ↦ by
    cases h
    rfl
  have hcron (n : Nat) : Ensures (Program.when (input.opts.cronMode = true) (writeLog fun audit ↦
      audit.logWithIdempotency "cron_start" (some n) (some (input.target.windowId prims))
      (.obj [])))
      fun s _ s' ↦ Logged [] (if input.opts.cronMode then 1 else 0) s s' := by
    refine Ensures.ite (fun hcron ↦ ?_) fun hcron ↦ ?_
    · rw [if_pos hcron]
      exact ensures_logWithIdempotency (by decide) _ _ _
    · rw [if_neg hcron]
      refine (Ensures.pure ()).mono ?_
      rintro _ _ s ⟨-, rfl⟩
      exact Logged.refl s
  rw [beginRun]
  cases input.env.clock with
  | none =>
      refine (hread.bind fun _ ↦ Ensures.raise _ (R := fun _ _ _ ↦ False)).mono ?_
      rintro s _ s' ⟨_, _, _, h⟩
      exact h.elim
  | some now =>
      have hmodify (existing : Nat) : Ensures (Program.modify fun s : Session ↦
          { s with checkpointSequence := max now existing } : Run Unit) fun s _ s' ↦
            Logged [] 0 s s' :=
        fun s a s' h ↦ by
          cases h
          exact ⟨(List.append_nil _).symm, fun _ ↦ rfl⟩
      refine (hread.bind fun existing ↦ (hmodify existing).bind fun _ ↦
        (ensures_logNextCheckpoint _ _).bind fun _ ↦ (hcron _).bind fun _ ↦ Ensures.pure _).mono ?_
      rintro _ n s' ⟨existing, s, rfl, _, s₁, h₁, _, s₂, h₂, _, s₃, h₃, -, rfl⟩
      have h := (h₁.trans h₂).trans h₃
      split_ifs at h ⊢
      · exact h
      · exact h

theorem ensures_connect : Ensures (connect input) fun s _ s' ↦ Logged [] 0 s s' := by
  rw [connect]
  cases input.env.connection with
  | error message => exact Ensures.raise _
  | ok _ =>
      intro s _ s' h
      cases h
      exact ⟨(List.append_nil _).symm, fun _ ↦ rfl⟩

/-- A run that is not rejected has done nothing before its start. -/
theorem startRun_eq_ok {s s' : Session} {n : Nat} (h : startRun prims input s = (.ok n, s')) :
    (do connect input; beginRun prims input) s = (.ok n, s') := by
  obtain ⟨_, s₁, hcheck, hrest⟩ := bind_eq_ok h
  have hcheck : s₁ = s := by
    rw [Program.when] at hcheck
    split_ifs at hcheck
    · cases hmatch : checkWindowAlreadyComplete s.log (input.target.windowId prims) with
      | none =>
          cases (checkIdempotency_of_unmarked hmatch).symm.trans hcheck
          rfl
      | some n => cases (checkIdempotency_of_marked hmatch).symm.trans hcheck
    · cases hcheck
      rfl
  exact hcheck ▸ hrest

theorem ensures_startRun : Ensures (startRun prims input) fun s _ s' ↦
    Logged [.runStarted] (if input.opts.cronMode then 2 else 1) s s' := by
  intro s n s' hres
  obtain ⟨_, s₂, hconnect, hbegin⟩ := bind_eq_ok (startRun_eq_ok hres)
  have h := (ensures_connect s _ s₂ hconnect).trans (ensures_beginRun s₂ n s' hbegin)
  simpa using h

/-- The checkpoints of a run that succeeds. -/
inductive RunShape (input : RunInput W) : List RebalanceOrder → List Checkpoint → Prop
  | empty : RunShape input [] (.runStarted :: firstFetches ++ [.diffComputed, .runCompleted])
  | executed {order : RebalanceOrder} {rest : List RebalanceOrder} {xs tail : List Checkpoint}
      (hxs : ∀ c ∈ xs, c ∈ orderCheckpoints)
      (hintent : Checkpoint.orderIntent ∈ xs ↔ input.approved ∧ IntentLogged input 0
        (rest.length + 1) fun j ↦ input.env.writer (j + input.firstOrderWrite))
      (htail : tail ∈ [[], [.cancelIntent, .cancelResult], lastFetches ++ [.runCompleted]]) :
      RunShape input (order :: rest)
        (.runStarted :: firstFetches ++ [.diffComputed, .riskCheckPassed] ++ xs ++ tail)

theorem ensures_run (events : List AuditEvent) (s' : Session)
    (h : runOn prims input events = (.ok (), s')) : ∃ orders found,
      plannedOrders prims input = some orders ∧ checkpoints s'.log = checkpoints events ++ found ∧
        RunShape input orders found := by
  obtain ⟨n, s₁, hstart, h⟩ := bind_eq_ok h
  obtain ⟨outcome, s₂, hrebalance, hfinish⟩ := bind_eq_ok h
  have h₁ := ensures_startRun _ n s₁ hstart
  obtain ⟨orders, found, hplan, h₂, hshape⟩ := ensures_rebalance s₁ outcome s₂ hrebalance
  have h₃ := ensures_finishRun _ _ s₂ _ s' hfinish
  have hwriter : (fun j ↦ s₁.audit.writer (j + (9 + input.confirmationWrites))) =
      fun j ↦ input.env.writer (j + input.firstOrderWrite) := by
    funext j
    rw [h₁.writer_eq, RunInput.firstOrderWrite, Nat.add_assoc, Nat.add_comm (9 + _)]
    rfl
  rw [hwriter] at hshape
  refine ⟨orders, .runStarted :: found ++ outcome.completion, hplan, ?_, ?_⟩
  · rw [h₃, h₂, h₁.checkpoints_eq]
    simp [Session.log, RunInput.session]
  · cases hshape with
    | empty => exact .empty
    | @stopped order rest xs ys hxs hintent hys =>
        have htail : ys ∈ [[], [.cancelIntent, .cancelResult], lastFetches ++ [.runCompleted]] := by
          rcases hys with rfl | rfl <;> simp
        simpa [RunOutcome.completion] using RunShape.executed hxs hintent htail
    | @reconciled order rest xs counts hxs hintent =>
        have hshape : RunShape input (order :: rest) _ := .executed hxs hintent
          (List.mem_cons_of_mem _ (List.mem_cons_of_mem _ List.mem_cons_self))
        simpa [RunOutcome.completion] using hshape

end Writes

end Nanobook.Rebalancer
