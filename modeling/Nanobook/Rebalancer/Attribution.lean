import Nanobook.Rebalancer.OrderLoop

/-!
# Which order a line is taken for

Recovery takes an intent and a submission for the first order of the plan with their symbol, and a
result for the first order with its broker id, which is 0 for an order without one.  The marks of
the orders are read off the lines that were logged for them.
-/

namespace Nanobook.Rebalancer

open RecoveredState

/-! ## What the lines of an order say -/

/-- The broker id a line carries. -/
def AuditEvent.brokerId (e : AuditEvent) : Option Int32 :=
  ((e.data.get "ibkr_id").bind Json.asI64).map Int64.toInt32

/-- The broker id and the status of a result. -/
def AuditEvent.result (e : AuditEvent) : Option (Int32 × String) :=
  match e.brokerId, (e.data.get "status").bind Json.asStr with
  | some id, some status => some (id, status)
  | _, _ => none

/-- The id of the submission among the lines of an order. -/
def submittedId (lines : List AuditEvent) : Option Int32 :=
  (lines.find? fun e ↦ e.checkpoint = some .orderSubmitted).bind AuditEvent.brokerId

/-- The result among the lines of an order. -/
def loggedResult (lines : List AuditEvent) : Option (Int32 × String) :=
  (lines.find? fun e ↦ e.checkpoint = some .orderFilled).bind AuditEvent.result

section Lines

variable {div : CentDivision} {order : RebalanceOrder} {l : List AuditEvent}

theorem AuditEvent.IsSubmissionOf.brokerId_eq {e : AuditEvent} {id : Int32}
    (h : e.IsSubmissionOf div order id) : e.brokerId = some id := by
  obtain ⟨ts, n, rfl⟩ := h
  simp [AuditEvent.brokerId, checkpointEvent, orderSubmittedData, Json.get, List.lookup_cons]

theorem AuditEvent.IsFillOf.result_eq {e : AuditEvent} {result : OrderResult}
    (h : e.IsFillOf result) :
    e.result = some (result.orderId, result.status.toText) := by
  obtain ⟨ts, n, rfl⟩ := h
  simp [AuditEvent.result, AuditEvent.brokerId, checkpointEvent, orderFilledData, Json.get,
    List.lookup_cons]

/-- An order is submitted where its submission is logged. -/
theorem OrderLines.isSome_submittedId (h : OrderLines div order l) :
    (submittedId l).isSome = true ↔ Checkpoint.orderSubmitted ∈ checkpoints l := by
  cases h with
  | nothing => simp [submittedId]
  | intended hi => simp [submittedId, checkpoints, hi.checkpoint_eq]
  | failed hi hf => simp [submittedId, checkpoints, hi.checkpoint_eq, hf.checkpoint_eq]
  | submitted id hi hs =>
      simp [submittedId, checkpoints, hi.checkpoint_eq, hs.checkpoint_eq, hs.brokerId_eq]
  | filled result hi hs hf =>
      simp [submittedId, checkpoints, hi.checkpoint_eq, hs.checkpoint_eq, hs.brokerId_eq]

/-- A result is logged after a submission with its id. -/
theorem OrderLines.submittedId_of_loggedResult (h : OrderLines div order l) {id : Int32}
    {status : String} (hresult : loggedResult l = some (id, status)) : submittedId l = some id := by
  cases h with
  | nothing => cases hresult
  | intended hi => simp [loggedResult, hi.checkpoint_eq] at hresult
  | failed hi hf => simp [loggedResult, hi.checkpoint_eq, hf.checkpoint_eq] at hresult
  | submitted id hi hs => simp [loggedResult, hi.checkpoint_eq, hs.checkpoint_eq] at hresult
  | filled result hi hs hf =>
      simp [loggedResult, hi.checkpoint_eq, hs.checkpoint_eq, hf.checkpoint_eq, hf.result_eq]
        at hresult
      obtain ⟨rfl, -⟩ := hresult
      simp [submittedId, hi.checkpoint_eq, hs.checkpoint_eq, hs.brokerId_eq]

end Lines

/-! ## The first order -/

theorem updateFirst_of_none {p : RecoveredOrder → Bool} {os : List RecoveredOrder}
    (f : RecoveredOrder → RecoveredOrder) (h : os.findIdx? p = none) : updateFirst p f os = os := by
  induction os with
  | nil => rfl
  | cons o os ih =>
      rw [List.findIdx?_cons] at h
      rw [updateFirst]
      split_ifs at h ⊢ with ho
      rw [ih (by simpa using h)]

theorem updateFirst_of_some {p : RecoveredOrder → Bool} {os : List RecoveredOrder} {i : Nat}
    (f : RecoveredOrder → RecoveredOrder) (h : os.findIdx? p = some i) :
    updateFirst p f os = os.modify i f := by
  induction os generalizing i with
  | nil => cases h
  | cons o os ih =>
      rw [List.findIdx?_cons] at h
      rw [updateFirst]
      split_ifs at h ⊢ with ho
      · cases h
        rfl
      · obtain ⟨i, hi, rfl⟩ := Option.map_eq_some_iff.mp h
        rw [ih hi]
        rfl

/-- The first order with a symbol, by the texts of the symbols. -/
theorem findIdx?_asStr (os : List RecoveredOrder) (sym : Symbol) :
    os.findIdx? (fun o ↦ decide (o.symbol.asStr = sym.asStr)) =
      (os.map RecoveredOrder.symbol).idxOf? sym := by
  have hp : (fun o : RecoveredOrder ↦ decide (o.symbol.asStr = sym.asStr)) =
      (· == sym) ∘ RecoveredOrder.symbol := by
    funext o
    rw [Function.comp_apply, beq_eq_decide]
    exact decide_eq_decide.mpr ⟨Symbol.asStr_injective, congrArg Symbol.asStr⟩
  rw [List.idxOf?, List.findIdx?_map, hp]

/-- The first order with a broker id. -/
theorem findIdx?_ibkrId (os : List RecoveredOrder) (id : Int32) :
    os.findIdx? (fun o ↦ decide (o.ibkrId.toInt64 = id.toInt64)) =
      (os.map RecoveredOrder.ibkrId).idxOf? id := by
  have hp : (fun o : RecoveredOrder ↦ decide (o.ibkrId.toInt64 = id.toInt64)) =
      (· == id) ∘ RecoveredOrder.ibkrId := by
    funext o
    rw [Function.comp_apply, beq_eq_decide]
    exact decide_eq_decide.mpr
      ⟨fun h ↦ by simpa using congrArg Int64.toInt32 h, congrArg Int32.toInt64⟩
  rw [List.idxOf?, List.findIdx?_map, hp]

/-- Mark the first order with a broker id as filled, if there is a result. -/
def markFilled : Option Int32 → List RecoveredOrder → List RecoveredOrder
  | none, os => os
  | some id, os =>
      updateFirst (fun o ↦ o.ibkrId.toInt64 = id.toInt64) (fun o ↦ { o with filled := true }) os

/-- What the lines of an order make of the order they are taken for, results left aside. -/
def RecoveredOrder.marked (lines : List AuditEvent) (clientOrderId : String) (o : RecoveredOrder) :
    RecoveredOrder :=
  { o with
    clientOrderId := if lines.isEmpty then o.clientOrderId else some clientOrderId
    submitted := o.submitted || (submittedId lines).isSome
    ibkrId := (submittedId lines).getD o.ibkrId }

section Effect

variable {div : CentDivision} {order : RebalanceOrder} {e : AuditEvent} {st : RecoveredState}
  {i : Nat}

theorem orders_applyEvent_of_isIntentOf (h : e.IsIntentOf div order)
    (hi : (st.orders.map RecoveredOrder.symbol).idxOf? order.symbol = some i) :
    ∃ clientOrderId, (st.applyEvent e).orders =
      st.orders.modify i fun o ↦ { o with clientOrderId := some clientOrderId } := by
  obtain ⟨ts, n, clientOrderId, timestamp, targetSpec, context, rfl⟩ := h
  rw [← findIdx?_asStr] at hi
  have hany : st.orders.any
      (Intent.isFor ⟨order, clientOrderId, n, timestamp, targetSpec, context⟩) = true := by
    rw [← List.findIdx?_isSome]
    exact hi ▸ rfl
  refine ⟨clientOrderId, ?_⟩
  rw [applyEvent_checkpointEvent]
  refine (congrArg RecoveredState.orders (applyOrderIntent_eq (st.reached .orderIntent ts n)
    ⟨order, clientOrderId, n, timestamp, targetSpec, context⟩ hany)).trans ?_
  exact updateFirst_of_some _ hi

/-- The line of a failure does not name its order. -/
theorem orders_applyEvent_of_isFailure (h : e.IsFailure) :
    (st.applyEvent e).orders = st.orders := by
  obtain ⟨ts, n, errorType, errorMessage, context, rfl⟩ := h
  rw [applyEvent_checkpointEvent]
  simp [applyCheckpoint, applyOrderFailed, checkpointEvent, orderFailedData, Json.get,
    List.lookup_cons, RecoveredState.reached]

theorem orders_applyEvent_of_isSubmissionOf {id : Int32} (h : e.IsSubmissionOf div order id)
    (hi : (st.orders.map RecoveredOrder.symbol).idxOf? order.symbol = some i) :
    (st.applyEvent e).orders =
      st.orders.modify i fun o ↦ { o with ibkrId := id, submitted := true } := by
  obtain ⟨ts, n, rfl⟩ := h
  rw [← findIdx?_asStr] at hi
  rw [applyEvent_checkpointEvent]
  simp only [applyCheckpoint, applyOrderSubmitted, checkpointEvent, orderSubmittedData, Json.get,
    List.lookup_cons, RecoveredState.reached]
  simpa using updateFirst_of_some _ hi

theorem orders_applyEvent_of_isFillOf {result : OrderResult} (h : e.IsFillOf result) :
    (st.applyEvent e).orders = markFilled (some result.orderId) st.orders := by
  obtain ⟨ts, n, rfl⟩ := h
  rw [applyEvent_checkpointEvent]
  simp [applyCheckpoint, applyOrderFilled, checkpointEvent, orderFilledData, Json.get,
    List.lookup_cons, RecoveredState.reached, markFilled]

theorem map_modify_of_eq {A B : Type} {f : A → A} {g : A → B} (h : ∀ a, g (f a) = g a) (l : List A)
    (i : Nat) : (l.modify i f).map g = l.map g := by
  refine List.ext_getElem? fun j ↦ ?_
  rw [List.getElem?_map, List.getElem?_map, List.getElem?_modify, Option.map_eq_map, Option.map_map]
  refine congrArg (fun k ↦ Option.map k l[j]?) (funext fun a ↦ ?_)
  rw [Function.comp_apply]
  split_ifs
  · exact h a
  · rfl

theorem marked_nil (clientOrderId : String) : RecoveredOrder.marked [] clientOrderId = id := by
  funext o
  simp [RecoveredOrder.marked, submittedId]

theorem marked_of_none {l : List AuditEvent} (hne : l.isEmpty = false) (hid : submittedId l = none)
    (clientOrderId : String) :
    RecoveredOrder.marked l clientOrderId =
    fun o ↦ { o with clientOrderId := some clientOrderId } := by
  funext o
  simp [RecoveredOrder.marked, hne, hid]

theorem marked_of_some {l : List AuditEvent} {id : Int32} (hne : l.isEmpty = false)
    (hid : submittedId l = some id) (clientOrderId : String) :
    RecoveredOrder.marked l clientOrderId = fun o ↦
      { o with clientOrderId := some clientOrderId, ibkrId := id, submitted := true } := by
  funext o
  simp [RecoveredOrder.marked, hne, hid]

/-- The lines of an order change the order they are taken for, and the result marks one as
filled. -/
theorem orders_foldl_of_orderLines {l : List AuditEvent} (h : OrderLines div order l)
    (hi : (st.orders.map RecoveredOrder.symbol).idxOf? order.symbol = some i) :
    ∃ clientOrderId, (l.foldl applyEvent st).orders =
      markFilled ((loggedResult l).map Prod.fst)
      (st.orders.modify i (.marked l clientOrderId)) := by
  have hsymbol {e : AuditEvent} {clientOrderId : String} (heq : (st.applyEvent e).orders =
      st.orders.modify i fun o ↦ { o with clientOrderId := some clientOrderId }) :
      ((st.applyEvent e).orders.map RecoveredOrder.symbol).idxOf? order.symbol = some i := by
    have hmap := map_modify_of_eq (f := fun o ↦ { o with clientOrderId := some clientOrderId })
      (g := RecoveredOrder.symbol) (fun _ ↦ rfl) st.orders i
    rw [heq, hmap]
    exact hi
  cases h with
  | nothing =>
      refine ⟨"", ?_⟩
      rw [marked_nil, List.modify_id]
      rfl
  | @intended intent hi' =>
      obtain ⟨clientOrderId, heq⟩ := orders_applyEvent_of_isIntentOf hi' hi
      have hid : submittedId [intent] = none := by simp [submittedId, hi'.checkpoint_eq]
      have hresult : loggedResult [intent] = none := by simp [loggedResult, hi'.checkpoint_eq]
      refine ⟨clientOrderId, ?_⟩
      rw [hresult, marked_of_none rfl hid]
      exact heq
  | @failed intent failure hi' hf =>
      obtain ⟨clientOrderId, heq⟩ := orders_applyEvent_of_isIntentOf hi' hi
      have hid : submittedId [intent, failure] = none := by
        simp [submittedId, hi'.checkpoint_eq, hf.checkpoint_eq]
      have hresult : loggedResult [intent, failure] = none := by
        simp [loggedResult, hi'.checkpoint_eq, hf.checkpoint_eq]
      refine ⟨clientOrderId, ?_⟩
      rw [hresult, marked_of_none rfl hid]
      exact (orders_applyEvent_of_isFailure hf).trans heq
  | @submitted intent submission id hi' hs =>
      obtain ⟨clientOrderId, heq⟩ := orders_applyEvent_of_isIntentOf hi' hi
      have hid : submittedId [intent, submission] = some id := by
        simp [submittedId, hi'.checkpoint_eq, hs.checkpoint_eq, hs.brokerId_eq]
      have hresult : loggedResult [intent, submission] = none := by
        simp [loggedResult, hi'.checkpoint_eq, hs.checkpoint_eq]
      refine ⟨clientOrderId, ?_⟩
      have hsubmitted := orders_applyEvent_of_isSubmissionOf hs (hsymbol heq)
      rw [heq, List.modify_modify_eq] at hsubmitted
      rw [hresult, marked_of_some rfl hid]
      exact hsubmitted
  | @filled intent submission fill result hi' hs hf =>
      obtain ⟨clientOrderId, heq⟩ := orders_applyEvent_of_isIntentOf hi' hi
      have hid : submittedId [intent, submission, fill] = some result.orderId := by
        simp [submittedId, hi'.checkpoint_eq, hs.checkpoint_eq, hs.brokerId_eq]
      have hresult : loggedResult [intent, submission, fill] =
          some (result.orderId, result.status.toText) := by
        simp [loggedResult, hi'.checkpoint_eq, hs.checkpoint_eq, hf.checkpoint_eq, hf.result_eq]
      refine ⟨clientOrderId, ?_⟩
      have hsubmitted := orders_applyEvent_of_isSubmissionOf hs (hsymbol heq)
      rw [heq, List.modify_modify_eq] at hsubmitted
      rw [hresult, marked_of_some rfl hid]
      refine (orders_applyEvent_of_isFillOf hf).trans ?_
      rw [hsubmitted]
      rfl

end Effect

/-! ## The marks of the orders -/

/-- The lines of an order of the plan, by its index. -/
def linesOf (lines : List (List AuditEvent)) (k : Nat) : List AuditEvent := lines[k]?.getD []

section Marks

variable (orders : List RebalanceOrder) (lines : List (List AuditEvent))

/-- The first order with the symbol of an order. -/
def leader (k : Nat) : Option Nat :=
  orders[k]?.bind fun o ↦ (orders.map RebalanceOrder.symbol).idxOf? o.symbol

/-- The broker ids that recovery knows once it read the lines of the first `k` orders. -/
def recoveredIds : Nat → List Int32
  | 0 => orders.map fun _ ↦ 0
  | k + 1 =>
      match leader orders k, submittedId (linesOf lines k) with
      | some i, some id => (recoveredIds k).set i id
      | _, _ => recoveredIds k

/-- The order that the result of an order is taken for. -/
def filledBy (k : Nat) : Option Nat :=
  (loggedResult (linesOf lines k)).bind fun result ↦
    (recoveredIds orders lines (k + 1)).idxOf? result.1

/-- The marks of the orders once the lines of the first `k` are read. -/
structure Tracked (k : Nat) (recovered : List RecoveredOrder) : Prop where
  symbols_eq : recovered.map RecoveredOrder.symbol = orders.map RebalanceOrder.symbol
  ids_eq : recovered.map RecoveredOrder.ibkrId = recoveredIds orders lines k
  failed_eq : ∀ (i : Nat) (r : RecoveredOrder), recovered[i]? = some r → r.failed = false
  intended_iff : ∀ (i : Nat) (r : RecoveredOrder), recovered[i]? = some r →
    (r.clientOrderId.isSome = true ↔ ∃ j < k, leader orders j = some i ∧ linesOf lines j ≠ [])
  submitted_iff : ∀ (i : Nat) (r : RecoveredOrder), recovered[i]? = some r →
    (r.submitted = true ↔
      ∃ j < k, leader orders j = some i ∧ (submittedId (linesOf lines j)).isSome = true)
  filled_iff : ∀ (i : Nat) (r : RecoveredOrder), recovered[i]? = some r →
    (r.filled = true ↔ ∃ j < k, filledBy orders lines j = some i)

variable {orders lines} {div : CentDivision} {recovered : List RecoveredOrder} {k : Nat}

theorem tracked_zero (hrecovered : recovered = orders.map fun o ↦ recoveredOrder div o none) :
    Tracked orders lines 0 recovered := by
  subst hrecovered
  have hplanned (i : Nat) (r : RecoveredOrder)
      (hr : (orders.map fun o ↦ recoveredOrder div o none)[i]? = some r) :
      ∃ o, r = recoveredOrder div o none := by
    rw [List.getElem?_map] at hr
    obtain ⟨o, -, rfl⟩ := Option.map_eq_some_iff.mp hr
    exact ⟨o, rfl⟩
  constructor
  · rw [List.map_map]
    rfl
  · rw [List.map_map]
    rfl
  · intro i r hr
    obtain ⟨o, rfl⟩ := hplanned i r hr
    rfl
  all_goals
    intro i r hr
    obtain ⟨o, rfl⟩ := hplanned i r hr
    simp [recoveredOrder, RecoveredOrder.planned]

theorem map_markFilled {A : Type} {g : RecoveredOrder → A}
    (hg : ∀ o, g { o with filled := true } = g o)
    (result : Option Int32) (os : List RecoveredOrder) :
    (markFilled result os).map g = os.map g := by
  cases result with
  | none => rfl
  | some id =>
      rw [markFilled]
      cases hi : os.findIdx? fun o ↦ decide (o.ibkrId.toInt64 = id.toInt64) with
      | none => rw [updateFirst_of_none _ hi]
      | some i =>
          rw [updateFirst_of_some _ hi]
          exact map_modify_of_eq hg os i

/-- An order is filled by a result or was before. -/
theorem getElem?_markFilled (result : Option Int32) (os : List RecoveredOrder) (j : Nat) :
    (markFilled result os)[j]? = os[j]?.map fun o ↦
      if (result.bind fun id ↦ (os.map RecoveredOrder.ibkrId).idxOf? id) = some j
      then { o with filled := true } else o := by
  cases result with
  | none => simp [markFilled]
  | some id =>
      rw [markFilled, Option.bind_some, ← findIdx?_ibkrId]
      cases hi : os.findIdx? fun o ↦ decide (o.ibkrId.toInt64 = id.toInt64) with
      | none =>
          rw [updateFirst_of_none _ hi]
          simp
      | some i =>
          rw [updateFirst_of_some _ hi, List.getElem?_modify]
          simp

theorem Tracked.length_eq (h : Tracked orders lines k recovered) :
    recovered.length = orders.length := by
  have := congrArg List.length h.symbols_eq
  rwa [List.length_map, List.length_map] at this

theorem leader_of_getElem? {order : RebalanceOrder} (h : orders[k]? = some order) :
    leader orders k = (orders.map RebalanceOrder.symbol).idxOf? order.symbol := by
  rw [leader, h, Option.bind_some]

/-- The lines of an order leave its broker id with the order they are taken for. -/
theorem Tracked.map_ibkrId_marked {i : Nat} (h : Tracked orders lines k recovered)
    (hi : leader orders k = some i) (clientOrderId : String) :
    (recovered.modify i (.marked (linesOf lines k) clientOrderId)).map RecoveredOrder.ibkrId =
      recoveredIds orders lines (k + 1) := by
  rw [recoveredIds, hi, ← h.ids_eq]
  cases hid : submittedId (linesOf lines k) with
  | none =>
      refine map_modify_of_eq (fun o ↦ ?_) recovered i
      rw [RecoveredOrder.marked, hid, Option.getD_none]
  | some id =>
      refine List.ext_getElem? fun j ↦ ?_
      rw [List.getElem?_map, List.getElem?_modify, List.getElem?_set', List.getElem?_map]
      split_ifs with hij
      · cases recovered[j]? with
        | none => rfl
        | some o => simp [hid, RecoveredOrder.marked]
      · cases recovered[j]? with
        | none => rfl
        | some o => rfl

/-- What becomes of one order by the lines of another. -/
theorem Tracked.getElem?_markFilled_marked {i : Nat} (h : Tracked orders lines k recovered)
    (hi : leader orders k = some i) (clientOrderId : String) (j : Nat) :
    (markFilled ((loggedResult (linesOf lines k)).map Prod.fst)
        (recovered.modify i (.marked (linesOf lines k) clientOrderId)))[j]? =
      recovered[j]?.map fun o ↦
        let o := if i = j then o.marked (linesOf lines k) clientOrderId else o
        if filledBy orders lines k = some j then { o with filled := true } else o := by
  have hfilled : (((loggedResult (linesOf lines k)).map Prod.fst).bind fun id ↦
      (recoveredIds orders lines (k + 1)).idxOf? id) = filledBy orders lines k := by
    rw [filledBy]
    cases loggedResult (linesOf lines k) <;> rfl
  rw [getElem?_markFilled, List.getElem?_modify, h.map_ibkrId_marked hi, hfilled,
    Option.map_eq_map, Option.map_map]
  rfl

/-- The lines of one more order. -/
theorem tracked_succ {st : RecoveredState} {order : RebalanceOrder} {i : Nat}
    (horder : orders[k]? = some order) (hi : leader orders k = some i)
    (hlines : OrderLines div order (linesOf lines k)) (h : Tracked orders lines k st.orders) :
    Tracked orders lines (k + 1) ((linesOf lines k).foldl applyEvent st).orders := by
  have hsymbol : (st.orders.map RecoveredOrder.symbol).idxOf? order.symbol = some i := by
    rw [h.symbols_eq, ← leader_of_getElem? horder]
    exact hi
  obtain ⟨clientOrderId, heq⟩ := orders_foldl_of_orderLines hlines hsymbol
  have hget (j : Nat) := h.getElem?_markFilled_marked hi clientOrderId j
  rw [← heq] at hget
  set l := linesOf lines k with hl
  have hunfilled {A : Type} {g : RecoveredOrder → A} (hg : ∀ o, g { o with filled := true } = g o)
      (j : Nat) (o : RecoveredOrder) :
      g (if filledBy orders lines k = some j then { o with filled := true } else o) = g o := by
    split_ifs
    · exact hg o
    · rfl
  have hlast {p : Nat → Prop} : (∃ j < k + 1, p j) ↔ (∃ j < k, p j) ∨ p k :=
    Nat.exists_lt_succ_right
  constructor
  · rw [heq, map_markFilled fun _ ↦ rfl, ← h.symbols_eq]
    exact map_modify_of_eq (f := .marked l clientOrderId) (g := RecoveredOrder.symbol)
      (fun _ ↦ rfl) _ i
  · rw [heq, map_markFilled fun _ ↦ rfl, hl, h.map_ibkrId_marked hi]
  · intro j r hr
    rw [hget] at hr
    obtain ⟨o, ho, rfl⟩ := Option.map_eq_some_iff.mp hr
    have := h.failed_eq j o ho
    split_ifs <;> exact this
  · intro j r hr
    rw [hget] at hr
    obtain ⟨o, ho, rfl⟩ := Option.map_eq_some_iff.mp hr
    have hbefore := h.intended_iff j o ho
    rw [hlast, ← hbefore, ← hl, hi, Option.some.injEq,
      hunfilled (g := RecoveredOrder.clientOrderId) fun _ ↦ rfl]
    by_cases hij : i = j
    · rw [if_pos hij, RecoveredOrder.marked]
      cases l with
      | nil => simp
      | cons e l => simp [hij]
    · simp [hij]
  · intro j r hr
    rw [hget] at hr
    obtain ⟨o, ho, rfl⟩ := Option.map_eq_some_iff.mp hr
    have hbefore := h.submitted_iff j o ho
    rw [hlast, ← hbefore, ← hl, hi, Option.some.injEq,
      hunfilled (g := RecoveredOrder.submitted) fun _ ↦ rfl]
    by_cases hij : i = j
    · rw [if_pos hij, RecoveredOrder.marked, Bool.or_eq_true]
      simp [hij]
    · simp [hij]
  · intro j r hr
    rw [hget] at hr
    obtain ⟨o, ho, rfl⟩ := Option.map_eq_some_iff.mp hr
    have hbefore := h.filled_iff j o ho
    have hmarked : (if i = j then o.marked l clientOrderId else o).filled = o.filled := by
      split_ifs <;> rfl
    rw [hlast, ← hbefore, ← hmarked]
    simp only
    by_cases hfilled : filledBy orders lines k = some j
    · simp [hfilled]
    · simp [hfilled]

/-- Every order has a first order with its symbol, which is no later. -/
theorem exists_leader (hk : k < orders.length) : ∃ i ≤ k, leader orders k = some i := by
  rw [leader_of_getElem? (List.getElem?_eq_getElem hk)]
  have hmem : orders[k].symbol ∈ orders.map RebalanceOrder.symbol :=
    List.mem_map_of_mem (List.getElem_mem hk)
  obtain ⟨i, hi⟩ := Option.isSome_iff_exists.mp (List.isSome_idxOf?.mpr hmem)
  refine ⟨i, ?_, hi⟩
  obtain ⟨_, -, hfirst⟩ := List.idxOf?_eq_some_iff.mp hi
  by_contra hlt
  exact hfirst k (Nat.lt_of_not_le hlt) (List.getElem_map ..)

theorem lt_of_leader {i : Nat} (h : leader orders k = some i) : k < orders.length := by
  by_contra hk
  rw [leader, List.getElem?_eq_none (Nat.le_of_not_lt hk)] at h
  cases h

/-- The first order with a symbol is taken for itself. -/
theorem leader_leader {i : Nat} (h : leader orders k = some i) : leader orders i = some i := by
  have hk := lt_of_leader h
  rw [leader_of_getElem? (List.getElem?_eq_getElem hk)] at h
  obtain ⟨hi, hsymbol, -⟩ := List.idxOf?_eq_some_iff.mp h
  rw [List.length_map] at hi
  rw [List.getElem_map] at hsymbol
  rw [leader_of_getElem? (List.getElem?_eq_getElem hi), hsymbol]
  exact h

theorem orderLines_linesOf (h : List.Forall₂ (OrderLines div) orders lines)
    (hk : k < orders.length) :
    OrderLines div orders[k] (linesOf lines k) := by
  rw [linesOf, List.getElem?_eq_getElem (h.length_eq ▸ hk)]
  exact h.get hk (h.length_eq ▸ hk)

theorem linesOf_of_le (h : List.Forall₂ (OrderLines div) orders lines) (hk : orders.length ≤ k) :
    linesOf lines k = [] := by
  rw [linesOf, List.getElem?_eq_none (h.length_eq ▸ hk), Option.getD_none]

/-- What is known of the lines of an order of the plan is known of all. -/
theorem exists_orderLines (h : List.Forall₂ (OrderLines div) orders lines) (k : Nat) :
    ∃ order, OrderLines div order (linesOf lines k) := by
  by_cases hk : k < orders.length
  · exact ⟨_, orderLines_linesOf h hk⟩
  · rw [linesOf_of_le h (Nat.le_of_not_lt hk)]
    exact ⟨⟨.unknown, .buy, 0, 0, ""⟩, .nothing⟩

/-- From the plan on, the marks of the orders follow the lines that are read. -/
theorem tracked_take {st : RecoveredState} (h : List.Forall₂ (OrderLines div) orders lines)
    (hst : st.orders = orders.map fun o ↦ recoveredOrder div o none) (hk : k ≤ orders.length) :
    Tracked orders lines k ((lines.take k).flatten.foldl applyEvent st).orders := by
  induction k with
  | zero => exact tracked_zero hst
  | succ k ih =>
      have hlength : k < lines.length := h.length_eq ▸ hk
      obtain ⟨i, -, hi⟩ := exists_leader hk
      have hlast : (lines.take (k + 1)).flatten = (lines.take k).flatten ++ linesOf lines k := by
        rw [List.take_add_one, List.flatten_append, linesOf, List.getElem?_eq_getElem hlength]
        simp
      rw [hlast, List.foldl_append]
      exact tracked_succ (List.getElem?_eq_getElem hk) hi (orderLines_linesOf h hk)
        (ih (Nat.le_of_succ_le hk))

end Marks

/-- The marks of the orders in a log that ends anywhere after the plan. -/
theorem tracked_logAt {W : Type} {prims : Primitives W} {input : RunInput W}
    {events : List AuditEvent} {orders : List RebalanceOrder} {s : Session}
    (hstart : loopStart prims input (input.session events) = (.ok (some orders), s))
    (now : Timestamp) (k : Nat) :
    Tracked orders (linesAt prims input orders s k) orders.length
      (reconstruct now (logAt prims input events s k)).orders := by
  have hlines : List.Forall₂ (OrderLines prims.div) orders (linesAt prims input orders s k) :=
    forall₂_cutAll (forall₂_orderSegments orders 0 ⟨0, 0, 0⟩ s) k
  obtain ⟨st, hst, hread⟩ := orders_reconstruct_logAt hstart now k
  have htracked := tracked_take hlines hst (Nat.le_refl _)
  rw [hread]
  rwa [hlines.length_eq, List.take_length, ← hlines.length_eq] at htracked

end Nanobook.Rebalancer
