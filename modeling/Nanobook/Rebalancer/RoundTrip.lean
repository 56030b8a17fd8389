import Nanobook.Rebalancer.Recovery

/-!
# What recovery reads back

The positions, the plan and the intents of a run, logged and read back.  Everything comes back as it
was but the limits of the orders: they are written in dollars and read as if they were cents.
-/

namespace Nanobook.Rebalancer

open RecoveredState

/-! ## Single events -/

/-- Everything but the effect of the checkpoint itself. -/
def RecoveredState.reached (st : RecoveredState) (c : Checkpoint) (ts : Timestamp)
    (sequenceNumber : Nat) : RecoveredState :=
  { st with checkpoint := c, sequenceNumber := sequenceNumber, timestamp := ts }

theorem applyEvent_checkpointEvent (st : RecoveredState) (c : Checkpoint) (ts : Timestamp) (n : Nat)
    (data : Json) : st.applyEvent (checkpointEvent c ts n data) =
      (st.reached c ts n).applyCheckpoint (checkpointEvent c ts n data) c := by
  simp only [applyEvent, checkpointEvent, Checkpoint.fromEventName_asEventName]
  rfl

/-- Logging a checkpoint appends its event, if the write succeeds. -/
theorem events_logCheckpoint {audit audit' : AuditLog} {c : Checkpoint} {n : Nat} {data : Json}
    (h : audit.logCheckpoint c n data = (true, audit')) :
    ∃ ts, audit'.events = audit.events ++ [checkpointEvent c ts n data] := by
  obtain ⟨hok, rfl⟩ := Prod.mk.inj h
  refine ⟨(audit.writer 0).2, ?_⟩
  simp only at hok ⊢
  cases houtcome : (audit.writer 0).1 with
  | written => rfl
  | failed | unsynced => simp [houtcome, WriteOutcome.succeeded] at hok

section Data

variable (div : CentDivision)

@[simp] theorem readPosition_positionData (p : CurrentPosition) :
    readPosition (positionData div p) = some p := by
  simp [readPosition, positionData, Json.get, List.lookup_cons]

/-- What is left of an order of the plan: its limit is in dollars now. -/
def recoveredOrder (o : RebalanceOrder) (clientOrderId : Option String) : RecoveredOrder :=
  .planned o.symbol o.action.toText o.shares (castI64 (div.dollars o.limitPriceCents)) clientOrderId

@[simp] theorem readDiffOrder_diffOrderData (o : RebalanceOrder) :
    readDiffOrder (diffOrderData div o) = recoveredOrder div o none := by
  simp [readDiffOrder, diffOrderData, recoveredOrder, Json.get, List.lookup_cons]

theorem applyDiff_diffData (st : RecoveredState) (orders : List RebalanceOrder) :
    st.applyDiff (diffData div orders) =
      { st with orders := orders.map fun o ↦ recoveredOrder div o none } := by
  simp [applyDiff, diffData, Json.get, Function.comp_def]

theorem applyPositions_positionsResultData (st : RecoveredState) (positions : List CurrentPosition)
    (equityCents : Int64) :
    (st.applyPositions (positionsResultData div positions equityCents)).applyEquity
        (positionsResultData div positions equityCents) =
      { st with positions := positions, equityCents := equityCents } := by
  have hread : (positions.map (positionData div)).filterMap readPosition = positions := by
    rw [List.filterMap_map]
    simp
  simp [applyPositions, applyEquity, positionsResultData, Json.get, List.lookup_cons, hread]

end Data

/-! ## Whole logs -/

/-- An intent, with all that is logged for it. -/
structure Intent where
  order : RebalanceOrder
  clientOrderId : String
  sequenceNumber : Nat
  timestamp : String
  targetSpecReference : String
  executionContext : String

/-- What `log` and recovery are to agree on: symbol, action, shares, limit and client order id. -/
def Intent.fields (i : Intent) : Symbol × String × Int64 × Int64 × Option String :=
  (i.order.symbol, i.order.action.toText, i.order.shares, i.order.limitPriceCents,
    some i.clientOrderId)

def RecoveredOrder.fields (o : RecoveredOrder) : Symbol × String × Int64 × Int64 × Option String :=
  (o.symbol, o.action, o.shares, o.limitPriceCents, o.clientOrderId)

section Logs

variable (div : CentDivision)

/-- Log the intents one after another, as long as the writes succeed. -/
def logIntents (audit : AuditLog) : List Intent → Bool × AuditLog
  | [] => (true, audit)
  | i :: rest =>
      match logOrderIntentCheckpoint div audit i.sequenceNumber i.order i.clientOrderId i.timestamp
          i.targetSpecReference i.executionContext with
      | (true, audit) => logIntents audit rest
      | (false, audit) => (false, audit)

/-- Log the positions with the equity, then the plan, then the intent of each of its orders. -/
def logPlan (audit : AuditLog) (positionsSequence diffSequence : Nat)
    (positions : List CurrentPosition) (equityCents : Int64) (intents : List Intent) :
    Bool × AuditLog :=
  match logPositionsResultCheckpoint div audit positionsSequence positions equityCents with
  | (false, audit) => (false, audit)
  | (true, audit) =>
      match logDiffCheckpoint div audit diffSequence (intents.map Intent.order) with
      | (false, audit) => (false, audit)
      | (true, audit) => logIntents div audit intents

variable {div} {audit audit' : AuditLog} {intents : List Intent}

/-- The orders of the plan before its intent is read, and after. -/
def Intent.recovered (div : CentDivision) (i : Intent) : RecoveredOrder :=
  recoveredOrder div i.order (some i.clientOrderId)

def Intent.plannedOrder (div : CentDivision) (i : Intent) : RecoveredOrder :=
  recoveredOrder div i.order none

theorem updateFirst_append {p : RecoveredOrder → Bool} {f : RecoveredOrder → RecoveredOrder}
    {os : List RecoveredOrder} (h : ∀ o ∈ os, p o = false) (o : RecoveredOrder)
    (rest : List RecoveredOrder) (ho : p o = true) :
    updateFirst p f (os ++ o :: rest) = os ++ f o :: rest := by
  induction os with
  | nil => simp only [List.nil_append, updateFirst, ho, if_true]
  | cons x os ih =>
      simp only [List.cons_append, updateFirst, h x List.mem_cons_self,
        Bool.false_eq_true, if_false]
      rw [ih fun o ho ↦ h o (List.mem_cons_of_mem _ ho)]

/-- The order an intent is for. -/
def Intent.isFor (i : Intent) (o : RecoveredOrder) : Bool := o.symbol.asStr = i.order.symbol.asStr

theorem applyOrderIntent_eq (st : RecoveredState) (i : Intent) (h : st.orders.any i.isFor = true) :
    st.applyOrderIntent (orderIntentData div i.order i.clientOrderId i.timestamp
        i.targetSpecReference i.executionContext) =
      { st with
        orders := updateFirst i.isFor (fun o ↦ { o with clientOrderId := some i.clientOrderId })
          st.orders } := by
  have hfor : i.isFor = fun o ↦ decide (o.symbol.asStr = i.order.symbol.asStr) := rfl
  rw [hfor] at h ⊢
  simp [applyOrderIntent, orderIntentData, Json.get, List.lookup_cons, h]

/-- Reading an intent gives its order of the plan the client order id. -/
theorem applyOrderIntent_orderIntentData {st : RecoveredState} {done rest : List Intent}
    {i : Intent} (hnodup : ∀ j ∈ done, j.order.symbol ≠ i.order.symbol)
    (hst : st.orders = done.map (Intent.recovered div) ++
      Intent.plannedOrder div i :: rest.map (Intent.plannedOrder div)) :
    st.applyOrderIntent (orderIntentData div i.order i.clientOrderId i.timestamp
        i.targetSpecReference i.executionContext) =
      { st with
        orders := (done ++ [i]).map (Intent.recovered div) ++
          rest.map (Intent.plannedOrder div) } := by
  have hself : i.isFor (Intent.plannedOrder div i) = true := decide_eq_true rfl
  have hdone : ∀ o ∈ done.map (Intent.recovered div), i.isFor o = false := by
    intro o ho
    obtain ⟨j, hj, rfl⟩ := List.mem_map.mp ho
    exact decide_eq_false fun heq ↦ hnodup j hj (Symbol.asStr_injective heq)
  have hany : st.orders.any i.isFor = true := by
    rw [hst, List.any_append, List.any_cons, hself, Bool.true_or, Bool.or_true]
  rw [applyOrderIntent_eq st i hany, hst, updateFirst_append hdone _ _ hself, List.map_append,
    List.append_assoc]
  rfl

/-- Reading one more event. -/
theorem reconstruct_concat (now : Timestamp) (events : List AuditEvent) (event : AuditEvent) :
    reconstruct now (events ++ [event]) = (reconstruct now events).applyEvent event := by
  rw [reconstruct, List.foldl_append]
  rfl

theorem reconstruct_logIntents {now : Timestamp} {done rest : List Intent}
    (hnodup : ((done ++ rest).map fun i ↦ i.order.symbol).Nodup)
    (hst : (reconstruct now audit.events).orders = done.map (Intent.recovered div) ++
      rest.map (Intent.plannedOrder div)) (h : logIntents div audit rest = (true, audit')) :
    (reconstruct now audit'.events).orders = (done ++ rest).map (Intent.recovered div) ∧
      (reconstruct now audit'.events).positions = (reconstruct now audit.events).positions ∧
      (reconstruct now audit'.events).equityCents = (reconstruct now audit.events).equityCents := by
  induction rest generalizing audit done with
  | nil =>
      cases h
      rw [hst, List.map_nil, List.append_nil, List.append_nil]
      exact ⟨rfl, rfl, rfl⟩
  | cons i rest ih =>
      simp only [logIntents] at h
      split at h
      · next audit₁ hlog =>
          obtain ⟨ts, hevents⟩ := events_logCheckpoint hlog
          have hne : ∀ j ∈ done, j.order.symbol ≠ i.order.symbol := by
            rw [List.map_append, List.nodup_append] at hnodup
            exact fun j hj ↦ hnodup.2.2 _ (List.mem_map_of_mem hj) _ List.mem_cons_self
          set st :=
          (reconstruct now audit.events).reached .orderIntent ts i.sequenceNumber with hst'
          have hst₁ : reconstruct now audit₁.events =
              { st with
                orders := (done ++ [i]).map (Intent.recovered div) ++
                  rest.map (Intent.plannedOrder div) } := by
            rw [hevents, reconstruct_concat, applyEvent_checkpointEvent]
            exact applyOrderIntent_orderIntentData hne (hst : st.orders = _)
          rw [List.append_cons done i rest] at hnodup ⊢
          obtain ⟨horders, hpositions, hequity⟩ := ih hnodup (by rw [hst₁]) h
          exact ⟨horders, by rw [hpositions, hst₁]; rfl, by rw [hequity, hst₁]; rfl⟩
      · cases h

/-- What recovery makes of a logged plan, whatever was logged before. -/
theorem reconstruct_logPlan (now : Timestamp) {m n : Nat} {positions : List CurrentPosition}
    {equityCents : Int64} (hnodup : (intents.map fun i ↦ i.order.symbol).Nodup)
    (h : logPlan div audit m n positions equityCents intents = (true, audit')) :
    (reconstruct now audit'.events).orders = intents.map (Intent.recovered div) ∧
      (reconstruct now audit'.events).positions = positions ∧
      (reconstruct now audit'.events).equityCents = equityCents := by
  simp only [logPlan] at h
  split at h
  · cases h
  · next audit₁ hpos =>
      split at h
      · cases h
      · next audit₂ hdiff =>
          obtain ⟨ts₁, hevents₁⟩ := events_logCheckpoint hpos
          obtain ⟨ts₂, hevents₂⟩ := events_logCheckpoint hdiff
          have hst₁ : (reconstruct now audit₁.events).positions = positions ∧
              (reconstruct now audit₁.events).equityCents = equityCents := by
            have hread := applyPositions_positionsResultData div
              { (reconstruct now audit.events).reached .positionsResult ts₁ m with
                positionsCall := ((reconstruct now audit.events).positionsCall.result (some m)) }
              positions equityCents
            rw [hevents₁, reconstruct_concat, applyEvent_checkpointEvent]
            exact ⟨congrArg RecoveredState.positions hread,
              congrArg RecoveredState.equityCents hread⟩
          have hst₂ : reconstruct now audit₂.events =
              { (reconstruct now audit₁.events).reached .diffComputed ts₂ n with
                orders := (intents.map Intent.order).map fun o ↦ recoveredOrder div o none } := by
            rw [hevents₂, reconstruct_concat, applyEvent_checkpointEvent]
            exact applyDiff_diffData div _ _
          have horders : (reconstruct now audit₂.events).orders =
              ([] : List Intent).map (Intent.recovered div) ++
                intents.map (Intent.plannedOrder div) := by
            rw [hst₂, List.map_map]
            rfl
          have hnodup' :
            ((([] : List Intent) ++ intents).map fun i ↦ i.order.symbol).Nodup := hnodup
          obtain ⟨ho, hp, he⟩ := reconstruct_logIntents hnodup' horders h
          exact ⟨ho, by rw [hp, hst₂]; exact hst₁.1, by rw [he, hst₂]; exact hst₁.2⟩

/-- For a plan with distinct symbols whose log was written, recovery gives back the positions, the
equity and the orders with their client order ids, in order, exactly if no order has a limit: every
other limit comes back as the dollars it was written in. -/
theorem reconstruct_logPlan_iff (now : Timestamp) {m n : Nat} {positions : List CurrentPosition}
    {equityCents : Int64} (hnodup : (intents.map fun i ↦ i.order.symbol).Nodup)
    (h : logPlan div audit m n positions equityCents intents = (true, audit')) :
    ((reconstruct now audit'.events).positions = positions ∧
      (reconstruct now audit'.events).equityCents = equityCents ∧
      (reconstruct now audit'.events).orders.map RecoveredOrder.fields =
        intents.map Intent.fields) ↔
      ∀ i ∈ intents, i.order.limitPriceCents = 0 := by
  obtain ⟨horders, hpositions, hequity⟩ := reconstruct_logPlan now hnodup h
  have hfields : ∀ i : Intent, (Intent.recovered div i).fields = i.fields ↔
      i.order.limitPriceCents = 0 := by
    intro i
    rw [← div.castI64_dollars]
    simp [Intent.recovered, recoveredOrder, RecoveredOrder.planned, RecoveredOrder.fields,
      Intent.fields]
  rw [horders, hpositions, hequity, List.map_map]
  simp only [true_and, List.map_inj_left, Function.comp_apply, hfields]

end Logs

/-! ## A limit of $150.25 -/

/-- A log that is empty and can always be written. -/
def AuditLog.empty : AuditLog := ⟨[], fun _ ↦ (.written, 0)⟩

/-- The intent to buy 10 shares of AAPL at a limit. -/
def buyAapl (limitPriceCents : Int64) : Intent where
  order := ⟨⟨"AAPL", by decide⟩, .buy, 10, limitPriceCents, "rebalance"⟩
  clientOrderId := "a1"
  sequenceNumber := 3
  timestamp := "2026-01-01T00:00:00+00:00"
  targetSpecReference := "target.json"
  executionContext := "rebalance_run:3"

theorem logPlan_empty (limitPriceCents : Int64) :
    (logPlan .exact .empty 1 2 [⟨⟨"AAPL", by decide⟩, 5, 14000⟩] 1000000
      [buyAapl limitPriceCents]).1 = true := rfl

/-- An order limited to 15025 cents comes back limited to 150. -/
theorem reconstruct_logPlan_dollars : ∃ audit',
    logPlan .exact .empty 1 2 [⟨⟨"AAPL", by decide⟩, 5, 14000⟩] 1000000 [buyAapl 15025] =
      (true, audit') ∧
    (reconstruct 0 audit'.events).orders.map RecoveredOrder.limitPriceCents = [150] ∧
    (reconstruct 0 audit'.events).orders.map RecoveredOrder.fields ≠
      [buyAapl 15025].map Intent.fields := by
  obtain ⟨audit', h⟩ : ∃ audit', logPlan .exact .empty 1 2 [⟨⟨"AAPL", by decide⟩, 5, 14000⟩] 1000000
      [buyAapl 15025] = (true, audit') := ⟨_, Prod.ext (logPlan_empty 15025) rfl⟩
  have horders := (reconstruct_logPlan 0 (by simp) h).1
  have hcast : castI64 (CentDivision.exact.dollars 15025) = 150 := by decide +kernel
  have hlimit :
    (reconstruct 0 audit'.events).orders.map RecoveredOrder.limitPriceCents = [150] := by
    rw [horders]
    simp [Intent.recovered, recoveredOrder, RecoveredOrder.planned, buyAapl, hcast]
  refine ⟨audit', h, hlimit, fun hfields ↦ ?_⟩
  have := congrArg (List.map fun x : Symbol × String × Int64 × Int64 × Option String ↦ x.2.2.2.1)
    hfields
  rw [List.map_map] at this
  rw [show (reconstruct 0 audit'.events).orders.map
    ((fun x : Symbol × String × Int64 × Int64 × Option String ↦ x.2.2.2.1) ∘
        RecoveredOrder.fields) =
      [150] from hlimit] at this
  exact absurd this (by decide)

/-- An order without a limit. -/
theorem reconstruct_logPlan_iff_unlimited : ∃ audit',
    logPlan .exact .empty 1 2 [⟨⟨"AAPL", by decide⟩, 5, 14000⟩] 1000000 [buyAapl 0] =
      (true, audit') ∧
    (reconstruct 0 audit'.events).positions = [⟨⟨"AAPL", by decide⟩, 5, 14000⟩] ∧
    (reconstruct 0 audit'.events).orders.map RecoveredOrder.fields =
    [buyAapl 0].map Intent.fields := by
  obtain ⟨audit', h⟩ : ∃ audit', logPlan .exact .empty 1 2 [⟨⟨"AAPL", by decide⟩, 5, 14000⟩] 1000000
      [buyAapl 0] = (true, audit') := ⟨_, Prod.ext (logPlan_empty 0) rfl⟩
  have hread := (reconstruct_logPlan_iff 0 (by simp) h).mpr (by decide)
  exact ⟨audit', h, hread.1, hread.2.2⟩

end Nanobook.Rebalancer
