import Mathlib.Data.List.Nodup
import Nanobook.Rebalancer.Outcomes

/-!
# Filled orders

Every result is logged as a fill, and recovery does not look at its status: an order is marked as
filled by a partial fill, a cancellation or a failure as well.  A result is joined to an order by
its broker id, which is 0 for every order that was not submitted.
-/

namespace Nanobook.Rebalancer

open Program RecoveredState

section Fills

variable (orders : List RebalanceOrder) (recovered : List RecoveredOrder)
  (lines : List (List AuditEvent))

/-- An order is marked as filled if the result for its broker id says so; one that is filled in part
is live. -/
structure OnlyFullFillsCount : Prop where
  filled_iff : ∀ (i : Nat) (r : RecoveredOrder), recovered[i]? = some r →
    (r.filled = true ↔ ∃ id, submittedId (linesOf lines i) = some id ∧
      ∃ j, loggedResult (linesOf lines j) = some (id, OrderOutcome.filled.toText))
  partial_live : ∀ (i : Nat) (id : Int32),
    loggedResult (linesOf lines i) = some (id, OrderOutcome.partialFill.toText) →
    (∀ j, loggedResult (linesOf lines j) ≠ some (id, OrderOutcome.filled.toText)) →
    recovered.any RecoveredOrder.live = true

/-- Every result is a full fill, of an order that is the first with its symbol and the only one with
its broker id; if that is 0, every order before it was submitted and is the first with its
symbol. -/
structure FillsUnambiguous : Prop where
  full : ∀ (m : Nat) (id : Int32) (status : String),
    loggedResult (linesOf lines m) = some (id, status) → status = OrderOutcome.filled.toText
  first : ∀ (m : Nat) (id : Int32) (status : String),
    loggedResult (linesOf lines m) = some (id, status) → leader orders m = some m
  unique : ∀ (m : Nat) (id : Int32) (status : String),
    loggedResult (linesOf lines m) = some (id, status) →
      ∀ j, submittedId (linesOf lines j) = some id → j = m
  named : ∀ (m : Nat) (status : String), loggedResult (linesOf lines m) = some (0, status) →
    ∀ j < m, leader orders j = some j ∧ (submittedId (linesOf lines j)).isSome = true

variable {orders recovered lines} {div : CentDivision} {k i m : Nat} {id : Int32}

/-! ## The broker ids -/

theorem length_recoveredIds : (recoveredIds orders lines k).length = orders.length := by
  induction k with
  | zero => exact List.length_map _
  | succ k ih =>
      rw [recoveredIds]
      split
      · rw [List.length_set, ih]
      · exact ih

/-- An order has the broker id of a submission that is taken for it, or 0 if there is none. -/
theorem recoveredIds_cases (h : (recoveredIds orders lines k)[i]? = some id) :
    (id = 0 ∧ ∀ j < k, leader orders j = some i → submittedId (linesOf lines j) = none) ∨
      ∃ j < k, leader orders j = some i ∧ submittedId (linesOf lines j) = some id := by
  induction k with
  | zero =>
      rw [recoveredIds, List.getElem?_map] at h
      obtain ⟨_, -, rfl⟩ := Option.map_eq_some_iff.mp h
      exact .inl ⟨rfl, fun j hj ↦ absurd hj (Nat.not_lt_zero j)⟩
  | succ k ih =>
      have hearlier (h : (recoveredIds orders lines k)[i]? = some id)
          (hlast : leader orders k = some i → submittedId (linesOf lines k) = none) :
          (id = 0 ∧ ∀ j < k + 1, leader orders j = some i → submittedId (linesOf lines j) = none) ∨
            ∃ j < k + 1, leader orders j = some i ∧ submittedId (linesOf lines j) = some id := by
        rcases ih h with ⟨rfl, hnone⟩ | ⟨j, hj, hsome⟩
        · refine .inl ⟨rfl, fun j hj hleader ↦ ?_⟩
          rcases Nat.lt_succ_iff_lt_or_eq.mp hj with hj | rfl
          · exact hnone j hj hleader
          · exact hlast hleader
        · exact .inr ⟨j, Nat.lt_succ_of_lt hj, hsome⟩
      rw [recoveredIds] at h
      split at h
      · next l id' hleader hid =>
          by_cases hli : l = i
          · subst hli
            rw [List.getElem?_set_self'] at h
            obtain ⟨_, -, rfl⟩ := Option.map_eq_some_iff.mp h
            exact .inr ⟨k, Nat.lt_succ_self k, hleader, hid⟩
          · rw [List.getElem?_set_ne hli] at h
            refine hearlier h fun hleader' ↦ ?_
            rw [hleader, Option.some.injEq] at hleader'
            exact absurd hleader' hli
      · next hnone =>
          refine hearlier h fun hleader ↦ ?_
          cases hid : submittedId (linesOf lines k) with
          | none => rfl
          | some id' => exact absurd hid (hnone i id' hleader)

/-- The submission of an order that is the first with its symbol gives it its broker id. -/
theorem recoveredIds_self (hfirst : leader orders m = some m)
    (hid : submittedId (linesOf lines m) = some id) :
    (recoveredIds orders lines (m + 1))[m]? = some id := by
  rw [recoveredIds, hfirst, hid, List.getElem?_set_self]
  rw [length_recoveredIds]
  exact lt_of_leader hfirst

section Tracked

variable (hlines : List.Forall₂ (OrderLines div) orders lines)
include hlines

theorem submittedId_of_loggedResult {status : String}
    (h : loggedResult (linesOf lines m) = some (id, status)) :
    submittedId (linesOf lines m) = some id :=
  have ⟨_, horder⟩ := exists_orderLines hlines m
  horder.submittedId_of_loggedResult h

theorem lt_of_submittedId (h : submittedId (linesOf lines m) = some id) : m < orders.length := by
  by_contra hle
  rw [linesOf_of_le hlines (Nat.le_of_not_lt hle)] at h
  cases h

theorem FillsUnambiguous.filledBy_eq (hfills : FillsUnambiguous orders lines) {status : String}
    (h : loggedResult (linesOf lines m) = some (id, status)) :
    filledBy orders lines m = some m := by
  have hfirst := hfills.first m id status h
  have hself := recoveredIds_self hfirst (submittedId_of_loggedResult hlines h)
  obtain ⟨hlt, hget⟩ := List.getElem?_eq_some_iff.mp hself
  rw [filledBy, h, Option.bind_some, List.idxOf?_eq_some_iff]
  refine ⟨hlt, hget, fun i hi heq ↦ ?_⟩
  -- no order before it has its broker id
  rcases recoveredIds_cases (List.getElem?_eq_some_iff.mpr ⟨_, heq⟩) with ⟨rfl, hnone⟩ | ⟨j, -,
    hleader, hid⟩
  · obtain ⟨hleader, hsome⟩ := hfills.named m status h i hi
    rw [hnone i (Nat.lt_succ_of_lt hi) hleader] at hsome
    cases hsome
  · obtain rfl := hfills.unique m id status h j hid
    rw [hfirst, Option.some.injEq] at hleader
    omega

theorem Tracked.onlyFullFillsCount (h : Tracked orders lines orders.length recovered)
    (hfills : FillsUnambiguous orders lines) : OnlyFullFillsCount recovered lines where
  filled_iff i r hr := by
    rw [h.filled_iff i r hr]
    constructor
    · rintro ⟨m, -, hfilled⟩
      cases hresult : loggedResult (linesOf lines m) with
      | none => simp [filledBy, hresult] at hfilled
      | some result =>
          obtain ⟨id, status⟩ := result
          rw [hfills.filledBy_eq hlines hresult, Option.some.injEq] at hfilled
          subst hfilled
          refine ⟨id, submittedId_of_loggedResult hlines hresult, m, ?_⟩
          rw [hresult, hfills.full m id status hresult]
    · rintro ⟨id, hid, m, hresult⟩
      obtain rfl := hfills.unique m id _ hresult i hid
      exact ⟨i, lt_of_leader (hfills.first i id _ hresult), hfills.filledBy_eq hlines hresult⟩
  partial_live i id hpartial := by
    have htext := hfills.full i id _ hpartial
    exact absurd (OrderOutcome.toText_injective htext) (by decide)

/-! ## A plan with distinct symbols -/

section Distinct

variable (hnodup : (orders.map RebalanceOrder.symbol).Nodup)
include hnodup

omit hlines in
theorem leader_of_nodup (hk : k < orders.length) : leader orders k = some k := by
  rw [leader_of_getElem? (List.getElem?_eq_getElem hk), List.idxOf?_eq_some_iff]
  refine ⟨(List.length_map (f := RebalanceOrder.symbol)).symm ▸ hk, List.getElem_map ..,
    fun j hj heq ↦ ?_⟩
  rw [← List.getElem_map RebalanceOrder.symbol (h := (List.length_map (f := _)).symm ▸ hk)] at heq
  exact absurd ((List.Nodup.getElem_inj_iff hnodup).mp heq) (Nat.ne_of_lt hj)

omit hlines in
theorem eq_of_leader {j : Nat} (h : leader orders j = some i) : j = i := by
  rw [leader_of_nodup hnodup (lt_of_leader h), Option.some.injEq] at h
  exact h

/-- An order keeps the broker id of its submission. -/
theorem recoveredIds_of_submittedId {j : Nat} (hid : submittedId (linesOf lines j) = some id)
    (hj : j < k) : (recoveredIds orders lines k)[j]? = some id := by
  have hlt := lt_of_submittedId hlines hid
  have hleader := leader_of_nodup hnodup hlt
  have hget : (recoveredIds orders lines k)[j]? = some _ :=
    List.getElem?_eq_getElem (length_recoveredIds.symm ▸ hlt)
  rcases recoveredIds_cases hget with ⟨-, hnone⟩ | ⟨j', -, hleader', hid'⟩
  · rw [hnone j hj hleader] at hid
    cases hid
  · obtain rfl := eq_of_leader hnodup hleader'
    rw [hget, ← hid', hid]

/-- A result is taken for the first order with its broker id, which is no later. -/
theorem exists_filledBy {t : String} (h : loggedResult (linesOf lines m) = some (id, t)) :
    ∃ i ≤ m, filledBy orders lines m = some i ∧ (recoveredIds orders lines (m + 1))[i]? = some id ∧
      ∀ j < i, (recoveredIds orders lines (m + 1))[j]? ≠ some id := by
  have hself := recoveredIds_of_submittedId hlines hnodup (submittedId_of_loggedResult hlines h)
    (Nat.lt_succ_self m)
  obtain ⟨hlt, hget⟩ := List.getElem?_eq_some_iff.mp hself
  obtain ⟨i, hi⟩ : ∃ i, (recoveredIds orders lines (m + 1)).idxOf? id = some i :=
    Option.isSome_iff_exists.mp (List.isSome_idxOf?.mpr (hget ▸ List.getElem_mem hlt))
  obtain ⟨hlti, hgeti, hbefore⟩ := List.idxOf?_eq_some_iff.mp hi
  refine ⟨i, ?_, by rw [filledBy, h, Option.bind_some, hi],
    List.getElem?_eq_some_iff.mpr ⟨hlti, hgeti⟩, fun j hj heq ↦ ?_⟩
  · by_contra hmi
    exact hbefore m (Nat.lt_of_not_le hmi) hget
  · exact hbefore j hj (List.getElem?_eq_some_iff.mp heq).2

variable (h : Tracked orders lines orders.length recovered)
  (hcount : OnlyFullFillsCount recovered lines)
include h hcount

/-- A full fill of the broker id of an order is taken for that order, so that no order before it has
its broker id. -/
theorem Tracked.no_earlier_id {j : Nat} (hid : submittedId (linesOf lines j) = some id)
    (hfull : ∃ m, loggedResult (linesOf lines m) = some (id, OrderOutcome.filled.toText)) :
    ∃ m, j ≤ m ∧ ∀ i < j, (recoveredIds orders lines (m + 1))[i]? ≠ some id := by
  have hlt := lt_of_submittedId hlines hid
  have hr : recovered[j]? = some _ := List.getElem?_eq_getElem (h.length_eq.symm ▸ hlt)
  obtain ⟨m, -, hfilled⟩ :=
    (h.filled_iff j _ hr).mp ((hcount.filled_iff j _ hr).mpr ⟨id, hid, hfull⟩)
  cases hresult : loggedResult (linesOf lines m) with
  | none => simp [filledBy, hresult] at hfilled
  | some result =>
      obtain ⟨i, hi, hfilled', hget, hbefore⟩ :=
        exists_filledBy hlines hnodup (t := result.2) hresult
      rw [hfilled, Option.some.injEq] at hfilled'
      subst hfilled'
      have hself := recoveredIds_of_submittedId hlines hnodup hid (Nat.lt_succ_of_le hi)
      rw [hget, Option.some.injEq] at hself
      exact ⟨m, hi, hself ▸ hbefore⟩

/-- The order a result is taken for has a full fill with the broker id of the result. -/
theorem Tracked.exists_full {status : String}
    (hresult : loggedResult (linesOf lines m) = some (id, status)) :
    ∃ j, loggedResult (linesOf lines j) = some (id, OrderOutcome.filled.toText) := by
  have hid := submittedId_of_loggedResult hlines hresult
  have hm := lt_of_submittedId hlines hid
  obtain ⟨i, hi, hfilled, hget, -⟩ := exists_filledBy hlines hnodup hresult
  have hr : recovered[i]? = some _ :=
    List.getElem?_eq_getElem (h.length_eq.symm ▸ Nat.lt_of_le_of_lt hi hm)
  obtain ⟨id', hid', hfull⟩ :=
    (hcount.filled_iff i _ hr).mp ((h.filled_iff i _ hr).mpr ⟨m, hm, hfilled⟩)
  have hself := recoveredIds_of_submittedId hlines hnodup hid' (Nat.lt_succ_of_le hi)
  rw [hget, Option.some.injEq] at hself
  exact hself ▸ hfull

theorem Tracked.eq_of_submittedId {j : Nat} {status : String}
    (hresult : loggedResult (linesOf lines m) = some (id, status))
    (hid : submittedId (linesOf lines j) = some id) : j = m := by
  have hfull := h.exists_full hlines hnodup hcount hresult
  have hid' := submittedId_of_loggedResult hlines hresult
  rcases Nat.lt_trichotomy j m with hlt | heq | hlt
  · obtain ⟨m', hm', hbefore⟩ := h.no_earlier_id hlines hnodup hcount hid' hfull
    exact absurd (recoveredIds_of_submittedId hlines hnodup hid (by omega)) (hbefore j hlt)
  · exact heq
  · obtain ⟨m', hm', hbefore⟩ := h.no_earlier_id hlines hnodup hcount hid hfull
    exact absurd (recoveredIds_of_submittedId hlines hnodup hid' (by omega)) (hbefore m hlt)

theorem Tracked.fillsUnambiguous : FillsUnambiguous orders lines where
  full m id status hresult := by
    obtain ⟨j, hfull⟩ := h.exists_full hlines hnodup hcount hresult
    obtain rfl := h.eq_of_submittedId hlines hnodup hcount hresult
      (submittedId_of_loggedResult hlines hfull)
    rw [hresult, Option.some.injEq, Prod.mk.injEq] at hfull
    exact hfull.2
  first m id status hresult :=
    leader_of_nodup hnodup (lt_of_submittedId hlines (submittedId_of_loggedResult hlines hresult))
  unique m id status hresult j := h.eq_of_submittedId hlines hnodup hcount hresult
  named m status hresult j hj := by
    have hid := submittedId_of_loggedResult hlines hresult
    obtain ⟨m', hm', hbefore⟩ := h.no_earlier_id hlines hnodup hcount hid
      (h.exists_full hlines hnodup hcount hresult)
    have hlt := Nat.lt_trans hj (lt_of_submittedId hlines hid)
    have hleader := leader_of_nodup hnodup hlt
    refine ⟨hleader, ?_⟩
    have hget : (recoveredIds orders lines (m' + 1))[j]? = some _ :=
      List.getElem?_eq_getElem (length_recoveredIds.symm ▸ hlt)
    rcases recoveredIds_cases hget with ⟨hzero, -⟩ | ⟨j', -, hleader', hid'⟩
    · rw [hzero] at hget
      exact absurd hget (hbefore j hj)
    · obtain rfl := eq_of_leader hnodup hleader'
      rw [hid', Option.isSome_some]

end Distinct

end Tracked

/-- For every log that ends after the plan of a run: recovery marks the orders as filled whose
result says so, if the results are full and unambiguous; and only then, where the symbols of the
plan are distinct. -/
theorem onlyFullFillsCount_logAt {W : Type} {prims : Primitives W} {input : RunInput W}
    {events : List AuditEvent} {s : Session}
    (hstart : loopStart prims input (input.session events) = (.ok (some orders), s))
    (now : Timestamp) (k : Nat) :
    (FillsUnambiguous orders (linesAt prims input orders s k) →
      OnlyFullFillsCount (reconstructState now (logAt prims input events s k)).1.orders
        (linesAt prims input orders s k)) ∧
    ((orders.map RebalanceOrder.symbol).Nodup →
      OnlyFullFillsCount (reconstructState now (logAt prims input events s k)).1.orders
        (linesAt prims input orders s k) →
      FillsUnambiguous orders (linesAt prims input orders s k)) := by
  have hlines : List.Forall₂ (OrderLines prims.div) orders (linesAt prims input orders s k) :=
    forall₂_cutAll (forall₂_orderSegments orders 0 ⟨0, 0, 0⟩ s) k
  have htracked := tracked_logAt hstart now k
  exact ⟨htracked.onlyFullFillsCount hlines, fun hnodup ↦ htracked.fillsUnambiguous hlines hnodup⟩

end Fills

/-! ## An order that is answered -/

section Answered

variable {W : Type} {prims : Primitives W} {input : RunInput W} {order : RebalanceOrder}
  {s : Session}

theorem logExecution_of_writable (hs : s.Writable) (counts : RunCounts) (result : OrderResult) :
    ∃ f, f.IsFillOf result ∧ (logExecution counts (.ok result) s).2.log = s.log ++ [f] := by
  have hwrite : logNextCheckpoint .orderFilled (fun _ ↦ orderFilledData result) s =
      (.ok (), { s with
        checkpointSequence := s.checkpointSequence + 1
        audit := ⟨s.log ++
          [checkpointEvent .orderFilled (s.audit.writer 0).2 (s.checkpointSequence + 1)
          (orderFilledData result)], fun m ↦ s.audit.writer (m + 1)⟩ }) := by
    rw [logNextCheckpoint, bind_of_ok (show nextCheckpointSequence s = _ from rfl)]
    simp only [writeLog, AuditLog.logCheckpoint, AuditLog.append, hs 0, WriteOutcome.succeeded,
      WriteOutcome.leavesLine, if_true]
    rfl
  rw [logExecution, bind_of_ok hwrite]
  refine ⟨_, ⟨(s.audit.writer 0).2, s.checkpointSequence + 1, rfl⟩, ?_⟩
  cases result.status <;> rfl

/-- An order that the broker answers leaves its intent, its submission and its result. -/
theorem processOrder_of_answered (hs : s.Writable) (hshares : ¬ order.shares < 0)
    {result : OrderResult} (hresponse : s.broker.responses 0 = .ok result) (counts : RunCounts) :
    ∃ i b f, i.IsIntentOf prims.div order ∧ b.IsSubmissionOf prims.div order result.orderId ∧
      f.IsFillOf result ∧
      (processOrder prims input counts order s).2.log = s.log ++ [i, b, f] := by
  have hfinal : (s.broker.responses 0).callsForRetry = false := by rw [hresponse]; rfl
  have hexecute (clientOrderId : String) (n timeout : Nat) (timestamp targetSpec : String) :
      ∃ i b broker, i.IsIntentOf prims.div order ∧ b.IsSubmissionOf prims.div order result.orderId ∧
        executeOrderWithWriteAhead prims.div order clientOrderId n s.broker s.audit timeout
        timestamp
          targetSpec =
            (.ok result, broker, ⟨s.log ++ [i] ++ [b], fun m ↦ s.audit.writer (m + 1 + 1)⟩) := by
    simp only [executeOrderWithWriteAhead, if_neg hshares, logOrderIntentCheckpoint,
      AuditLog.logCheckpoint, AuditLog.append, hs 0, hs 1, WriteOutcome.succeeded,
      WriteOutcome.leavesLine, if_true, attemptOrder_of_not_callsForRetry hfinal, hresponse,
      finishOrder, logOrderSubmittedCheckpoint]
    exact ⟨_, _, _, ⟨_, _, _, _, _, _, rfl⟩, ⟨_, _, rfl⟩, rfl⟩
  obtain ⟨i, b, broker, hi, hb, heq⟩ := hexecute
    (prims.clientOrderHash input.target.idempotencyScope order.symbol.asStr
        (actionToSide order.action)
      order.shares.toInt.toNat) (s.checkpointSequence + 1) input.config.orderTimeoutSecs
    (input.env.timestamp (s.checkpointSequence + 1)) input.target.idempotencyScope
  rw [processOrder, deriveClientOrderId, if_neg hshares,
    bind_of_ok (show (pure _ : Run String) s = _ from rfl),
    bind_of_ok (show nextCheckpointSequence s = _ from rfl),
    bind_of_ok (a := .ok result) (by rw [executeOrder, heq]),
    bind_of_ok (show raiseCheckpointSequence _ _ = _ from rfl)]
  obtain ⟨f, hf, hlog⟩ := logExecution_of_writable (s :=
    { s with
      broker := broker
      audit := ⟨s.log ++ [i] ++ [b], fun m ↦ s.audit.writer (m + 1 + 1)⟩
      checkpointSequence := max (s.checkpointSequence + 1) (s.checkpointSequence + 1 + 1) })
    (fun m ↦ hs (m + 1 + 1)) { counts with submitted := counts.submitted + 1 } result
  refine ⟨i, b, f, hi, hb, hf, hlog.trans ?_⟩
  simp [Session.log]

end Answered

/-- An answer for 5 shares of AAPL under the broker id 7. -/
def answer (status : OrderOutcome) : OrderResult := ⟨(buyAapl 0).order.symbol, 7, 5, 100, 0, status⟩

/-- Every order is answered alike. -/
def answeredOrder (status : OrderOutcome) : RunInput Unit :=
    answeredInput fun _ ↦ .ok (answer status)

/-- The lines of the order of that run. -/
theorem linesAt_answeredOrder (status : OrderOutcome) : ∃ order s,
    loopStart plainPrimitives (answeredOrder status) ((answeredOrder status).session []) =
        (.ok (some [order]), s) ∧
      ∃ l, linesAt plainPrimitives (answeredOrder status) [order] s 3 = [l] ∧
        submittedId l = some 7 ∧ loggedResult l = some (7, status.toText) := by
  obtain ⟨order, s, hstart, hshares, hwritable, hbroker⟩ :=
    loopStart_answeredInput fun _ ↦ .ok (answer status)
  have hresponse : s.broker.responses 0 = .ok (answer status) := by rw [hbroker]; rfl
  obtain ⟨i, b, f, hi, hb, hf, hlog⟩ := @processOrder_of_answered Unit plainPrimitives
    (answeredOrder status) order s hwritable hshares _ hresponse ⟨0, 0, 0⟩
  refine ⟨order, s, hstart, [i, b, f], ?_, ?_, ?_⟩
  · rw [linesAt, orderSegments_singleton rfl, hlog, List.drop_left]
    rfl
  · simp [submittedId, hi.checkpoint_eq, hb.checkpoint_eq, hb.brokerId_eq, answer]
  · simp [loggedResult, hi.checkpoint_eq, hb.checkpoint_eq, hf.checkpoint_eq, hf.result_eq, answer]

/-- An order that is filled is marked as filled. -/
theorem onlyFullFillsCount_answeredOrder : ∃ order s,
    loopStart plainPrimitives (answeredOrder .filled) ((answeredOrder .filled).session []) =
        (.ok (some [order]), s) ∧
      OnlyFullFillsCount
      (reconstructState 0 (logAt plainPrimitives (answeredOrder .filled) [] s 3)).1.orders
        (linesAt plainPrimitives (answeredOrder .filled) [order] s 3) := by
  obtain ⟨order, s, hstart, l, hlines, hid, hresult⟩ := linesAt_answeredOrder .filled
  refine ⟨order, s, hstart, (onlyFullFillsCount_logAt hstart 0 3).1 ?_⟩
  rw [hlines]
  constructor
  · intro m id status h
    cases m with
    | zero => exact (Prod.mk.inj (Option.some.inj (h.symm.trans hresult))).2
    | succ m => cases h
  · intro m id status h
    cases m with
    | zero => simp [leader]
    | succ m => cases h
  · intro m id status h j hj
    cases m with
    | zero =>
        cases j with
        | zero => rfl
        | succ j => cases hj
    | succ m => cases h
  · intro m status h j hj
    cases m with
    | zero => cases hj
    | succ m => cases h

/-- An order that is filled in part is marked as filled, too. -/
theorem not_onlyFullFillsCount_answeredOrder : ∃ order s,
    loopStart plainPrimitives (answeredOrder .partialFill)
    ((answeredOrder .partialFill).session []) =
        (.ok (some [order]), s) ∧
      ¬ OnlyFullFillsCount
        (reconstructState 0 (logAt plainPrimitives (answeredOrder .partialFill) [] s 3)).1.orders
        (linesAt plainPrimitives (answeredOrder .partialFill) [order] s 3) := by
  obtain ⟨order, s, hstart, l, hlines, hid, hresult⟩ := linesAt_answeredOrder .partialFill
  refine ⟨order, s, hstart, fun hcount ↦ ?_⟩
  have htracked := tracked_logAt hstart 0 3
  rw [hlines] at htracked hcount
  have hlength : 0 < (reconstruct 0
      (logAt plainPrimitives (answeredOrder .partialFill) [] s 3)).orders.length := by
    rw [htracked.length_eq]
    exact Nat.zero_lt_one
  have hr := List.getElem?_eq_getElem hlength
  have hfilledBy : filledBy [order] [l] 0 = some 0 := by
    have hleader : leader [order] 0 = some 0 := by simp [leader]
    simp [filledBy, linesOf, hresult, recoveredIds, hleader, hid]
  obtain ⟨id, -, j, hj⟩ := (hcount.filled_iff 0 _ hr).mp
    ((htracked.filled_iff 0 _ hr).mpr ⟨0, Nat.zero_lt_one, hfilledBy⟩)
  cases j with
  | zero =>
      have htext := (Prod.mk.inj (Option.some.inj (hresult.symm.trans hj))).2
      exact absurd (OrderOutcome.toText_injective htext) (by decide)
  | succ j => cases hj

end Nanobook.Rebalancer
