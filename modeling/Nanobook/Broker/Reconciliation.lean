import Nanobook.Broker.Idempotency

/-!
# Reconciling the order cache with the exchange

`reconcile_state`: the open orders of a snapshot are compared with the cached ones in three scans,
and the broker takes no more orders if one of them finds something.  The scan for orders that are
missing at the exchange looks at those alone that are cached as submitted.
-/

namespace Nanobook.Binance

open Rebalancer (BrokerError BrokerSide OrderState Symbol)

/-! ## The scans -/

inductive Discrepancy where
  | orphanOrder (orderId : OrderId)
  | missingOrder (orderId : OrderId)
  | orderStatusMismatch (orderId : OrderId) (localStatus : String) (brokerStatus : OrderState)
  | positionMismatch (symbol : Symbol) (localQuantity brokerQuantity : Int64)

structure DiscrepancyReport where
  discrepancies : List Discrepancy
  hasCriticalIssues : Bool

/-- The text of `{:?}`. -/
def debugStatus : OrderState → String
  | .pending => "Pending"
  | .submitted => "Submitted"
  | .partiallyFilled => "PartiallyFilled"
  | .filled => "Filled"
  | .cancelled => "Cancelled"
  | .rejected => "Rejected"

/-- Orders on the broker but not in the cache. -/
def orphanOrders (cachedOrders : List (OrderId × CachedOrder)) (openOrders : List OrderInfo) :
    List Discrepancy :=
  openOrders.filterMap fun brokerOrder ↦
    if cachedOrders.any fun e ↦ e.1 = brokerOrder.orderId then none
    else some (.orphanOrder brokerOrder.orderId)

/-- Orders in the cache but not on the broker. -/
def missingOrders (cachedOrders : List (OrderId × CachedOrder)) (openOrders : List OrderInfo) :
    List Discrepancy :=
  cachedOrders.filterMap fun e ↦
    if ¬ (openOrders.any fun brokerOrder ↦ brokerOrder.orderId = e.1) ∧ e.2.status = .submitted then
      some (.missingOrder e.1)
    else none

def statusMismatches (cachedOrders : List (OrderId × CachedOrder)) (openOrders : List OrderInfo) :
    List Discrepancy :=
  openOrders.filterMap fun brokerOrder ↦
    match cachedOrders.find? fun e ↦ e.1 = brokerOrder.orderId with
    | some (_, cachedOrder) =>
        if cachedOrder.status ≠ orderStatus brokerOrder.status then
          some (.orderStatusMismatch brokerOrder.orderId (debugStatus cachedOrder.status)
            (orderStatus brokerOrder.status))
        else none
    | none => none

def discrepanciesOf (cachedOrders : List (OrderId × CachedOrder)) (openOrders : List OrderInfo) :
    List Discrepancy :=
  orphanOrders cachedOrders openOrders ++ missingOrders cachedOrders openOrders ++
    statusMismatches cachedOrders openOrders

/-- Block the broker if something was found. -/
def reportDiscrepancies (discrepancies : List Discrepancy) : Call DiscrepancyReport := do
  let hasCriticalIssues := !discrepancies.isEmpty
  Program.when (hasCriticalIssues = true) <| Program.modify fun w ↦
    { w with broker := { w.broker with reconciliationBlocked := true } }
  pure ⟨discrepancies, hasCriticalIssues⟩

/-- `info` is what the exchange answers, and the order that in which the cache yields its keys. -/
def reconcileState (order : HashMap.Order OrderId) (info : Except BrokerError AccountInfo) :
    Call DiscrepancyReport := do
  requireClient
  let info ← Program.lift info
  let cachedOrders ← Program.read fun w ↦ w.broker.orderCache.iter order
  reportDiscrepancies (discrepanciesOf cachedOrders info.openOrders)

/-! ## Agreement -/

/-- An order that can still be filled. -/
def Live (status : OrderState) : Prop :=
  status = .pending ∨ status = .submitted ∨ status = .partiallyFilled

def IsOpen (openOrders : List OrderInfo) (orderId : OrderId) : Prop :=
  ∃ brokerOrder ∈ openOrders, brokerOrder.orderId = orderId

/-- An open order is cached, with its status. -/
def Tracks (cache : OrderCache) (brokerOrder : OrderInfo) : Prop :=
  ∃ cachedOrder, cache.get? brokerOrder.orderId = some cachedOrder ∧
    cachedOrder.status = orderStatus brokerOrder.status

/-- Every cached order of a kind is open at the exchange. -/
def OpenIf (kind : OrderState → Prop) (cache : OrderCache) (openOrders : List OrderInfo) : Prop :=
  ∀ orderId cachedOrder, cache.get? orderId = some cachedOrder → kind cachedOrder.status →
    IsOpen openOrders orderId

/-- Cache and exchange tell the same of all open orders. -/
structure Agrees (cache : OrderCache) (openOrders : List OrderInfo) : Prop where
  tracked : ∀ brokerOrder ∈ openOrders, Tracks cache brokerOrder
  live : OpenIf Live cache openOrders

/-- Every submission is refused until somebody has looked into it. -/
def SubmissionsBlocked (w : World) : Prop :=
  ∀ text out order, submitOrder text out order w =
    (.error (.order "Reconciliation blocked - manual review required"), w)

/-- Nothing is reported just if cache and exchange agree, and submissions are blocked afterwards
just if they were before or something is reported. -/
def ReconcilesExactly (order : HashMap.Order OrderId) (info : AccountInfo) (w : World) : Prop :=
  ∃ report w', reconcileState order (.ok info) w = (.ok report, w') ∧
    (report.discrepancies = [] ↔ Agrees w.broker.orderCache info.openOrders) ∧
    (SubmissionsBlocked w' ↔ SubmissionsBlocked w ∨ report.discrepancies ≠ [])

/-- No order that is cached as pending or partially filled is missing at the exchange, or something
else is amiss that the scans do find. -/
def Covered (cache : OrderCache) (openOrders : List OrderInfo) : Prop :=
  OpenIf (fun status ↦ status = .pending ∨ status = .partiallyFilled) cache openOrders ∨
    (∃ brokerOrder ∈ openOrders, ¬ Tracks cache brokerOrder) ∨
    ¬ OpenIf (· = .submitted) cache openOrders

/-! ## What the scans find -/

section Scans

variable {cache : OrderCache} {openOrders : List OrderInfo} {order : HashMap.Order OrderId}
  {w : World}

/-- Neither an orphan nor a mismatch is found just if all open orders are tracked. -/
theorem tracked_iff : orphanOrders (cache.iter order) openOrders = [] ∧
      statusMismatches (cache.iter order) openOrders = [] ↔
    ∀ brokerOrder ∈ openOrders, Tracks cache brokerOrder := by
  rw [orphanOrders, statusMismatches, List.filterMap_eq_nil_iff, List.filterMap_eq_nil_iff,
    ← forall₂_and]
  refine forall₂_congr fun brokerOrder _ ↦ ?_
  rw [HashMap.any_iter, HashMap.find?_iter, Tracks]
  cases cache.get? brokerOrder.orderId with
  | none => simp
  | some cachedOrder => simp

theorem missingOrders_eq_nil_iff : missingOrders (cache.iter order) openOrders = [] ↔
    OpenIf (· = .submitted) cache openOrders := by
  rw [missingOrders, List.filterMap_eq_nil_iff]
  constructor
  · intro h orderId cachedOrder hcached hstatus
    have hnone := h (orderId, cachedOrder) (HashMap.mem_iter.mpr hcached)
    rw [ite_eq_right_iff] at hnone
    by_contra hout
    refine Option.some_ne_none _ (hnone ⟨fun hany ↦ hout ?_, hstatus⟩)
    obtain ⟨brokerOrder, hmem, hid⟩ := List.any_eq_true.mp hany
    exact ⟨brokerOrder, hmem, of_decide_eq_true hid⟩
  · rintro h ⟨orderId, cachedOrder⟩ hmem
    rw [ite_eq_right_iff]
    rintro ⟨hout, hstatus⟩
    obtain ⟨brokerOrder, hopen, hid⟩ :=
      h orderId cachedOrder (HashMap.mem_iter.mp hmem) hstatus
    exact absurd (List.any_eq_true.mpr ⟨brokerOrder, hopen, decide_eq_true hid⟩) hout

theorem discrepanciesOf_eq_nil_iff : discrepanciesOf (cache.iter order) openOrders = [] ↔
    (∀ brokerOrder ∈ openOrders, Tracks cache brokerOrder) ∧
      OpenIf (· = .submitted) cache openOrders := by
  rw [discrepanciesOf, List.append_eq_nil_iff, List.append_eq_nil_iff, and_right_comm, tracked_iff,
    missingOrders_eq_nil_iff]

/-- Live is what the scan for missing orders looks at, and what it does not. -/
theorem openIf_live_iff : OpenIf Live cache openOrders ↔
    OpenIf (· = .submitted) cache openOrders ∧
      OpenIf (fun status ↦ status = .pending ∨ status = .partiallyFilled) cache openOrders := by
  constructor
  · intro hlive
    refine ⟨fun orderId cachedOrder hcached hstatus ↦ ?_,
      fun orderId cachedOrder hcached hstatus ↦ ?_⟩
    · exact hlive orderId cachedOrder hcached (.inr (.inl hstatus))
    · exact hlive orderId cachedOrder hcached (hstatus.imp_right .inr)
  · rintro ⟨hsubmitted, hother⟩ orderId cachedOrder hcached (hstatus | hstatus | hstatus)
    · exact hother orderId cachedOrder hcached (.inl hstatus)
    · exact hsubmitted orderId cachedOrder hcached hstatus
    · exact hother orderId cachedOrder hcached (.inr hstatus)

/-- The scans are exact just if what they do not look at is covered. -/
theorem covered_iff (order : HashMap.Order OrderId) : Covered cache openOrders ↔
    (discrepanciesOf (cache.iter order) openOrders = [] ↔ Agrees cache openOrders) := by
  have hagrees : Agrees cache openOrders ↔
      (∀ brokerOrder ∈ openOrders, Tracks cache brokerOrder) ∧ OpenIf Live cache openOrders :=
    ⟨fun h ↦ ⟨h.1, h.2⟩, fun h ↦ ⟨h.1, h.2⟩⟩
  have huntracked : (∃ brokerOrder ∈ openOrders, ¬ Tracks cache brokerOrder) ↔
      ¬ ∀ brokerOrder ∈ openOrders, Tracks cache brokerOrder := by
    simp only [not_forall, exists_prop]
  rw [discrepanciesOf_eq_nil_iff, hagrees, openIf_live_iff, Covered, huntracked]
  tauto

end Scans

/-! ## Blocking -/

section Block

variable {w : World} {order : HashMap.Order OrderId} {info : AccountInfo}

/-- The broker stays blocked, or is now. -/
def World.blockIf (w : World) (found : Bool) : World :=
  { w with broker := { w.broker with
    reconciliationBlocked := w.broker.reconciliationBlocked || found } }

theorem reportDiscrepancies_eq (discrepancies : List Discrepancy) (w : World) :
    reportDiscrepancies discrepancies w =
      (.ok ⟨discrepancies, !discrepancies.isEmpty⟩, w.blockIf !discrepancies.isEmpty) := by
  cases discrepancies with
  | nil =>
      have hsame : w.blockIf false = w := by rw [World.blockIf, Bool.or_false]
      exact congrArg _ hsame.symm
  | cons d ds =>
      have hblocked : w.blockIf true = { w with broker :=
          { w.broker with reconciliationBlocked := true } } := by rw [World.blockIf, Bool.or_true]
      exact congrArg _ hblocked.symm

theorem reconcileState_eq (order : HashMap.Order OrderId) (info : AccountInfo)
    (hconnected : w.broker.connected = true) : reconcileState order (.ok info) w =
      reportDiscrepancies
        (discrepanciesOf (w.broker.orderCache.iter order) info.openOrders) w := by
  rw [reconcileState, Program.bind_of_ok (requireClient_of hconnected), Program.lift_ok_bind,
    Program.read_bind]

/-- A stop order is refused in any case, for another reason unless the broker is blocked. -/
theorem submitOrder_stop_of_not_blocked {text : FloatText} {out : Outside} {order : BrokerOrder}
    {p : Int64} (hstop : order.orderType = .stop p)
    (hflag : w.broker.reconciliationBlocked = false) : submitOrder text out order w ≠
      (.error (.order "Reconciliation blocked - manual review required"), w) := by
  rw [submitOrder, Program.read_bind, hflag, Program.when_neg (by simp), Program.pure_bind]
  by_cases hconnected : w.broker.connected = true
  · rw [Program.bind_of_ok (requireClient_of hconnected), Program.read_bind, toRequest, hstop]
    intro h
    have htexts := BrokerError.order.inj (Except.error.inj (congrArg Prod.fst h))
    exact absurd htexts (by decide)
  · rw [Program.bind_of_error (requireClient_of_not hconnected)]
    intro h
    cases congrArg Prod.fst h

/-- Submissions are blocked by the flag of the broker. -/
theorem submissionsBlocked_iff : SubmissionsBlocked w ↔ w.broker.reconciliationBlocked = true := by
  constructor
  · intro h
    by_contra hflag
    let text : FloatText := ⟨fun _ ↦ 0, fun _ _ ↦ false, fun _ _ ↦ .ok 0, fun _ ↦ ""⟩
    let out : Outside := ⟨"", 0, false, false, .ok (), .error .notConnected⟩
    let order : BrokerOrder := ⟨.unknown, .buy, 1, .stop 1, none⟩
    have hstop : order.orderType = .stop 1 := rfl
    exact submitOrder_stop_of_not_blocked hstop (Bool.eq_false_iff.mpr hflag) (h text out order)
  · intro hflag text out order
    rw [submitOrder, Program.read_bind, hflag, Program.when_pos rfl]
    rfl

theorem submissionsBlocked_blockIf {found : Bool} :
    SubmissionsBlocked (w.blockIf found) ↔ SubmissionsBlocked w ∨ found = true := by
  rw [submissionsBlocked_iff, submissionsBlocked_iff, World.blockIf, Bool.or_eq_true]

/-- A reconciliation is exact unless all that is wrong is an order, cached as pending or partially
filled, that is missing at the exchange. -/
theorem reconcilesExactly_iff (order : HashMap.Order OrderId) (info : AccountInfo)
    (hconnected : w.broker.connected = true) :
    ReconcilesExactly order info w ↔ Covered w.broker.orderCache info.openOrders := by
  have hreconcile := reconcileState_eq order info hconnected
  rw [reportDiscrepancies_eq] at hreconcile
  rw [covered_iff order]
  constructor
  · rintro ⟨report, w', hres, hexact, -⟩
    rw [hreconcile] at hres
    cases hres
    exact hexact
  · intro hexact
    refine ⟨_, _, hreconcile, hexact, ?_⟩
    rw [submissionsBlocked_blockIf, Bool.not_eq_true', List.isEmpty_eq_false_iff]

/-! ## An order that was partially filled -/

/-- A world whose cache has one order. -/
def worldWith (status : OrderState) : World where
  broker := {
    connected := true
    quoteAsset := "USDT"
    orderCache := HashMap.empty.insert 7 ⟨.unknown, 100, .buy, status, "7", none, 0⟩
    lastAccountPoll := none
    lastOrdersPoll := none
    positionCache := []
    auditLogPath := none
    reconciliationBlocked := false }
  cacheFiles _ := none
  auditLogs _ := []
  sent := []

/-- An order that is missing is found, where it was not filled at all. -/
theorem reconcilesExactly_submitted :
    ReconcilesExactly HashMap.Order.insertion ⟨[], []⟩ (worldWith .submitted) := by
  refine (reconcilesExactly_iff HashMap.Order.insertion ⟨[], []⟩ rfl).mpr (.inr (.inr fun h ↦ ?_))
  obtain ⟨brokerOrder, hmem, -⟩ := h 7 _ rfl rfl
  cases hmem

/-- A partially filled order is not open at the exchange any more: nothing is reported. -/
theorem not_reconcilesExactly_partiallyFilled :
    ¬ ReconcilesExactly HashMap.Order.insertion ⟨[], []⟩ (worldWith .partiallyFilled) := by
  rintro ⟨report, w', hres, hexact, -⟩
  cases hres
  obtain ⟨brokerOrder, hmem, -⟩ := (hexact.mp rfl).live 7 _ rfl (.inr (.inr rfl))
  cases hmem

end Block

end Nanobook.Binance
