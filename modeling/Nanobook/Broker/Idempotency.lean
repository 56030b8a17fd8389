import Nanobook.Broker.Binance

/-!
# Client order ids in the cache

A submission is refused as a duplicate as long as its client order id is in the order cache.  Once
it has been accepted it is there, and it stays unless an operation replaces the cache: a poll builds
it anew from a snapshot that has no client order ids, a file that is loaded may know fewer orders,
and an order id the exchange gives out twice takes the place of the order that had it.

`Safe` says that an operation is none of these.  Submissions are idempotent over a run exactly if
all of its operations are safe.
-/

namespace Nanobook.Binance

open Rebalancer (BrokerError BrokerSide OrderState Symbol)

/-! ## Runs -/

inductive Op where
  | submitOrderWithSequence (out : Outside) (order : BrokerOrder) (sequenceNumber : Option UInt64)
  | pollAccountInfo (poll : Poll)
  | pollOpenOrders (poll : Poll)
  | updateCachedOrderStatus (orderId : OrderId) (status : OrderState)
  | saveCacheToDisk (path : Path) (order : HashMap.Order OrderId)
      (failure : Option (BrokerError × Option CacheFile))
  | loadCacheFromDisk (path : Path)

namespace Op

def call (text : FloatText) : Op → Call Unit
  | .submitOrderWithSequence out order sequenceNumber => do
      let _ ← Binance.submitOrderWithSequence text out order sequenceNumber
  | .pollAccountInfo poll => Binance.pollAccountInfo text poll
  | .pollOpenOrders poll => Binance.pollOpenOrders text poll
  | .updateCachedOrderStatus orderId status => Binance.updateCachedOrderStatus orderId status
  | .saveCacheToDisk path order failure => Binance.saveCacheToDisk path order failure
  | .loadCacheFromDisk path => Binance.loadCacheFromDisk path

/-- The client order id a submission carries. -/
def carried : Op → Option ClientOrderId
  | .submitOrderWithSequence out order sequenceNumber =>
      match clientOrderIdOf order sequenceNumber out.uuid with
      | .ok cid => cid
      | .error _ => none
  | _ => none

end Op

variable (text : FloatText)

/-- The world after an operation, whether it succeeds or not. -/
def after (w : World) (op : Op) : World := (op.call text w).2

def run (w : World) (ops : List Op) : World := ops.foldl (after text) w

/-- The client order id with which an operation submits an order successfully. -/
def accepted (w : World) (op : Op) : Option ClientOrderId :=
  match (op.call text w).1 with
  | .ok _ => op.carried
  | .error _ => none

/-- The client order ids submitted successfully in a run. -/
def submitted : World → List Op → List ClientOrderId
  | _, [] => []
  | w, op :: ops => (accepted text w op).toList ++ submitted (after text w op) ops

/-- Every submission that carries `c` is refused as a duplicate and posts nothing. -/
def Refuses (w : World) (c : ClientOrderId) : Prop :=
  ∀ op : Op, op.carried = some c →
    (op.call text w).1 = .error (.duplicateOrder c.asStr) ∧ (after text w op).sent = w.sent

/-- At every point of a run, whatever submission comes next, what has been submitted successfully is
refused. -/
def Idempotent (w : World) (ops : List Op) : Prop :=
  ∀ before, before <+: ops → ∀ c ∈ submitted text w before, Refuses text (run text w before) c

/-! ## Safe operations -/

/-- The submission reaches the exchange, which accepts it under an order id. -/
structure Accepts (w : World) (out : Outside) (order : BrokerOrder) (sequenceNumber : Option UInt64)
    (cid : Option ClientOrderId) (orderId : OrderId) : Prop where
  carries : clientOrderIdOf order sequenceNumber out.uuid = .ok cid
  notLogged : isLogged out sequenceNumber w = false
  notCached : isCached cid w = false
  unblocked : w.broker.reconciliationBlocked = false
  connected : w.broker.connected = true
  request : ∃ request, toRequest text w.broker.quoteAsset { order with clientOrderId := cid } =
    .ok request ∧ validateRequest request = .ok ()
  signed : out.signed = .ok ()
  response : out.response = .ok ⟨orderId⟩
  quantity : ∃ quantity, quantityI64 order.quantity = .ok quantity

/-- An order with the client order id is in the cache. -/
def Holds (cache : OrderCache) (c : ClientOrderId) : Prop :=
  ∃ orderId order, cache.get? orderId = some order ∧ order.clientOrderId = some c.asStr

/-- The poll gets as far as the snapshot, and to replacing the cache. -/
structure AccountPoll (w : World) (poll : Poll) (info : AccountInfo) : Prop where
  due : shouldPoll poll.begun w.broker.lastAccountPoll = true
  connected : w.broker.connected = true
  answered : poll.info = .ok info
  valued : ∃ positions, positionsOf text info.balances = .ok positions

@[inherit_doc AccountPoll]
structure OrdersPoll (w : World) (poll : Poll) (info : AccountInfo) : Prop where
  due : shouldPoll poll.begun w.broker.lastOrdersPoll = true
  connected : w.broker.connected = true
  answered : poll.info = .ok info

/-- The operation leaves the ids in `done` in the cache: a poll that gets as far as replacing the
cache comes before the first submission, a cache that is loaded has them all, and a submission that
is accepted does not take the place of the one order that has such an id. -/
def Safe (done : List ClientOrderId) (w : World) : Op → Prop
  | .submitOrderWithSequence out order sequenceNumber =>
      ∀ cid orderId, Accepts text w out order sequenceNumber cid orderId → ∀ c ∈ done,
        ∃ k o, k ≠ orderId ∧ w.broker.orderCache.get? k = some o ∧ o.clientOrderId = some c.asStr
  | .pollAccountInfo poll => ∀ info, AccountPoll text w poll info → done = []
  | .pollOpenOrders poll => ∀ info, OrdersPoll w poll info → done = []
  | .loadCacheFromDisk path =>
      ∀ cache, OrderCache.loadFromDisk (w.cacheFiles path) = .ok cache → ∀ c ∈ done, Holds cache c
  | .updateCachedOrderStatus _ _ | .saveCacheToDisk _ _ _ => True

/-- All operations of a run are safe for what has been submitted before them. -/
def SafeRun : List ClientOrderId → World → List Op → Prop
  | _, _, [] => True
  | done, w, op :: ops =>
      Safe text done w op ∧ SafeRun (done ++ (accepted text w op).toList) (after text w op) ops

/-! ## The cache -/

variable {text} {w : World} {cache : OrderCache} {c : ClientOrderId} {cid : Option ClientOrderId}

theorem checkDuplicate_iff {s : String} : cache.checkDuplicateClientOrderId s = true ↔
    ∃ orderId order, cache.get? orderId = some order ∧ order.clientOrderId = some s := by
  rw [OrderCache.checkDuplicateClientOrderId, List.any_eq_true]
  constructor
  · rintro ⟨⟨k, o⟩, he, hs⟩
    exact ⟨k, o, HashMap.mem_entries.mp he, of_decide_eq_true hs⟩
  · rintro ⟨k, o, ho, hs⟩
    exact ⟨(k, o), HashMap.mem_entries.mpr ho, decide_eq_true hs⟩

theorem isCached_some : isCached (some c) w = true ↔ Holds w.broker.orderCache c :=
    checkDuplicate_iff

/-- Without a sequence number the audit log is not asked. -/
theorem isLogged_none (out : Outside) (w : World) : isLogged out none w = false := by
  unfold isLogged
  cases w.broker.auditLogPath <;> rfl

/-- A snapshot knows no client order id. -/
theorem not_holds_cacheOf (quoteAsset : String) (now : DateTime) (info : AccountInfo) :
    ¬ Holds (cacheOf text quoteAsset now info) c := by
  have hnone : ∀ (orders : List OrderInfo) (cache : OrderCache),
      (∀ k o, cache.get? k = some o → o.clientOrderId = none) →
        ∀ k o, (orders.foldl (insertOpenOrder text quoteAsset now) cache).get? k = some o →
          o.clientOrderId = none := by
    intro orders
    induction orders with
    | nil => exact fun _ h ↦ h
    | cons order orders ih =>
        intro cache h
        refine ih _ fun k o ho ↦ ?_
        rw [insertOpenOrder] at ho
        split at ho
        · exact h k o ho
        · rw [HashMap.get?_insert] at ho
          split_ifs at ho
          · cases ho
            rfl
          · exact h k o ho
  rintro ⟨k, o, ho, hc⟩
  rw [hnone _ _ (fun _ _ h ↦ by cases h) k o ho] at hc
  cases hc

theorem holds_updateStatus (orderId : OrderId) (status : OrderState) :
    Holds (cache.updateStatus orderId status) c ↔ Holds cache c := by
  rw [OrderCache.updateStatus]
  split
  · next order horder =>
      constructor
      · rintro ⟨k, o, ho, hc⟩
        rw [HashMap.get?_insert] at ho
        split_ifs at ho with hk
        · cases ho
          exact ⟨orderId, order, horder, hc⟩
        · exact ⟨k, o, ho, hc⟩
      · rintro ⟨k, o, ho, hc⟩
        by_cases hk : orderId = k
        · subst hk
          obtain rfl : order = o := Option.some.inj (horder.symm.trans ho)
          exact ⟨orderId, _, HashMap.get?_insert_self _ _ _, hc⟩
        · exact ⟨k, o, by rw [HashMap.get?_insert_of_ne _ hk, ho], hc⟩
  · exact Iff.rfl

/-! ## Submissions -/

theorem writeAuditEvent_eq (w : World) (out : Outside) (path : Path) (event : AuditEvent) :
    ∃ logs, writeAuditEvent out path event w = (.ok (), { w with auditLogs := logs }) := by
  rw [writeAuditEvent]
  by_cases h : out.auditWritable = true
  · exact ⟨_, by rw [Program.when_pos h]; rfl⟩
  · exact ⟨w.auditLogs, by rw [Program.when_neg h]; rfl⟩

section Submit

variable (w) (out : Outside) (order : BrokerOrder) (sequenceNumber : Option UInt64) (cid)

theorem logIdempotencyRejection_eq (clientOrderId reason : String) :
    ∃ logs, logIdempotencyRejection out order sequenceNumber clientOrderId reason w =
      (.ok (), { w with auditLogs := logs }) := by
  rw [logIdempotencyRejection, Program.read_bind]
  rcases w.broker.auditLogPath with _ | path
  · exact ⟨w.auditLogs, rfl⟩
  · rcases sequenceNumber with _ | seq
    · exact ⟨w.auditLogs, rfl⟩
    · exact writeAuditEvent_eq w out path _

theorem logOrderSubmitted_eq (orderId : OrderId) :
    ∃ logs, logOrderSubmitted out order sequenceNumber cid orderId w =
      (.ok (), { w with auditLogs := logs }) := by
  rw [logOrderSubmitted, Program.read_bind]
  rcases w.broker.auditLogPath with _ | path
  · exact ⟨w.auditLogs, rfl⟩
  · rcases sequenceNumber with _ | seq
    · exact ⟨w.auditLogs, rfl⟩
    · rcases cid with _ | c
      · exact ⟨w.auditLogs, rfl⟩
      · exact writeAuditEvent_eq w out path _

/-- A refusal is an error that names the client order id, and reaches the audit log at most. -/
theorem refuse_eq (reason : String) :
    ∃ logs, refuse out order sequenceNumber cid reason w =
      (.error (.duplicateOrder ((cid.map ClientOrderId.asStr).getD "")),
        { w with auditLogs := logs }) := by
  obtain ⟨logs, hlogs⟩ := logIdempotencyRejection_eq w out order sequenceNumber
    ((cid.map ClientOrderId.asStr).getD "") reason
  exact ⟨logs, Program.bind_of_ok hlogs⟩

variable {w out order sequenceNumber cid}

/-- A submission whose client order id is logged or cached is refused. -/
theorem submit_eq_refuse (hcid : clientOrderIdOf order sequenceNumber out.uuid = .ok cid)
    (h : isLogged out sequenceNumber w = true ∨ isCached cid w = true) :
    ∃ logs, submitOrderWithSequence text out order sequenceNumber w =
      (.error (.duplicateOrder ((cid.map ClientOrderId.asStr).getD "")),
        { w with auditLogs := logs }) := by
  rw [submitOrderWithSequence, hcid, Program.lift_ok_bind, Program.read_bind]
  cases hlogged : isLogged out sequenceNumber w with
  | true =>
      obtain ⟨logs, hlogs⟩ := refuse_eq w cid out order sequenceNumber
        "duplicate sequence number in audit log"
      rw [Program.when_pos rfl]
      exact ⟨logs, Program.bind_of_error hlogs⟩
  | false =>
      have hcached := h.resolve_left (by simp [hlogged])
      obtain ⟨logs, hlogs⟩ := refuse_eq w cid out order sequenceNumber
        "duplicate client order ID in cache"
      rw [Program.when_neg (by simp), Program.pure_bind, Program.read_bind, hcached,
        Program.when_pos rfl]
      exact ⟨logs, Program.bind_of_error hlogs⟩

/-- One whose client order id is neither goes on to the broker. -/
theorem submit_eq_submitOrder (hcid : clientOrderIdOf order sequenceNumber out.uuid = .ok cid)
    (hlogged : isLogged out sequenceNumber w = false) (hcached : isCached cid w = false) :
    submitOrderWithSequence text out order sequenceNumber w =
      (do
        let orderId ← submitOrder text out { order with clientOrderId := cid }
        logOrderSubmitted out order sequenceNumber cid orderId
        pure orderId : Call OrderId) w := by
  rw [submitOrderWithSequence, hcid, Program.lift_ok_bind, Program.read_bind, hlogged,
    Program.when_neg (by simp), Program.pure_bind, Program.read_bind, hcached,
    Program.when_neg (by simp), Program.pure_bind]

theorem requireClient_of (h : w.broker.connected = true) : requireClient w = (.ok (), w) := by
  rw [requireClient, Program.read_bind, Program.when_neg (not_not.mpr h)]
  rfl

theorem requireClient_of_not (h : w.broker.connected ≠ true) :
    requireClient w = (.error .notConnected, w) := by
  rw [requireClient, Program.read_bind, Program.when_pos h]
  rfl

theorem postOrder_of {request : OrderRequest} {resp : OrderResponse}
    (hvalid : validateRequest request = .ok ()) (hsigned : out.signed = .ok ())
    (hresponse : out.response = .ok resp) :
    postOrder out request w = (.ok resp, { w with sent := w.sent ++ [request] }) := by
  rw [postOrder, hvalid, hsigned, hresponse]
  rfl

/-- A request that is not answered leaves the broker alone. -/
theorem postOrder_cases (w : World) (out : Outside) (request : OrderRequest) :
    (∃ e sent, postOrder out request w = (.error e, { w with sent := sent })) ∨
      ∃ resp, validateRequest request = .ok () ∧ out.signed = .ok () ∧ out.response = .ok resp := by
  rw [postOrder]
  cases hvalid : validateRequest request with
  | error e => exact .inl ⟨e, w.sent, Program.lift_error_bind e⟩
  | ok u =>
      cases hsigned : out.signed with
      | error e => exact .inl ⟨e, w.sent, rfl⟩
      | ok u =>
          cases hresponse : out.response with
          | error e => exact .inl ⟨e, w.sent ++ [request], rfl⟩
          | ok resp => exact .inr ⟨resp, rfl, rfl, rfl⟩

/-- The exchange accepts the order, which is cached with its client order id. -/
theorem submitOrder_of {orderId : OrderId} {request : OrderRequest} {quantity : Int64}
    (hunblocked : w.broker.reconciliationBlocked = false) (hconnected : w.broker.connected = true)
    (hrequest : toRequest text w.broker.quoteAsset order = .ok request)
    (hvalid : validateRequest request = .ok ()) (hsigned : out.signed = .ok ())
    (hresponse : out.response = .ok ⟨orderId⟩)
    (hquantity : quantityI64 order.quantity = .ok quantity) :
    ∃ entry sent, entry.clientOrderId = order.clientOrderId.map ClientOrderId.asStr ∧
      submitOrder text out order w = (.ok orderId,
        { w with sent := sent }.setCache (w.broker.orderCache.insert orderId entry)) := by
  rw [submitOrder, Program.read_bind, hunblocked, Program.when_neg (by simp), Program.pure_bind,
    Program.bind_of_ok (requireClient_of hconnected), Program.read_bind, hrequest,
    Program.lift_ok_bind, Program.bind_of_ok (postOrder_of hvalid hsigned hresponse), hquantity]
  exact ⟨_, _, rfl, rfl⟩

/-- Where the broker does not accept an order it leaves its cache alone. -/
theorem submitOrder_cases (w : World) (out : Outside) (order : BrokerOrder) :
    (∃ e sent, submitOrder text out order w = (.error e, { w with sent := sent })) ∨
      w.broker.reconciliationBlocked = false ∧ w.broker.connected = true ∧
        (∃ request, toRequest text w.broker.quoteAsset order = .ok request ∧
          validateRequest request = .ok ()) ∧ out.signed = .ok () ∧
        (∃ orderId, out.response = .ok ⟨orderId⟩) ∧
        ∃ quantity, quantityI64 order.quantity = .ok quantity := by
  rw [submitOrder, Program.read_bind]
  cases hblocked : w.broker.reconciliationBlocked with
  | true =>
      rw [Program.when_pos rfl]
      exact .inl ⟨_, w.sent, Program.raise_bind _⟩
  | false =>
      rw [Program.when_neg (by simp), Program.pure_bind]
      by_cases hconnected : w.broker.connected = true
      · rw [Program.bind_of_ok (requireClient_of hconnected), Program.read_bind]
        cases hrequest : toRequest text w.broker.quoteAsset order with
        | error e => exact .inl ⟨e, w.sent, Program.lift_error_bind e⟩
        | ok request =>
            rw [Program.lift_ok_bind]
            rcases postOrder_cases w out request with
              ⟨e, sent, hpost⟩ | ⟨resp, hvalid, hsigned, hresponse⟩
            · exact .inl ⟨e, sent, Program.bind_of_error hpost⟩
            · rw [Program.bind_of_ok (postOrder_of hvalid hsigned hresponse)]
              cases hquantity : quantityI64 order.quantity with
              | error e => exact .inl ⟨e, _, Program.lift_error_bind e⟩
              | ok quantity =>
                  exact .inr ⟨rfl, hconnected, ⟨request, rfl, hvalid⟩, hsigned,
                    ⟨resp.orderId, hresponse⟩, ⟨quantity, rfl⟩⟩
      · exact .inl ⟨_, w.sent, Program.bind_of_error (requireClient_of_not hconnected)⟩

/-- An accepted submission puts its client order id into the cache. -/
theorem submit_of_accepts {orderId : OrderId}
    (h : Accepts text w out order sequenceNumber cid orderId) :
    ∃ entry sent logs, entry.clientOrderId = cid.map ClientOrderId.asStr ∧
      submitOrderWithSequence text out order sequenceNumber w = (.ok orderId,
        { w with sent := sent, auditLogs := logs }.setCache
          (w.broker.orderCache.insert orderId entry)) := by
  obtain ⟨request, hrequest, hvalid⟩ := h.request
  obtain ⟨quantity, hquantity⟩ := h.quantity
  obtain ⟨entry, sent, hentry, hres⟩ :=
    submitOrder_of h.unblocked h.connected hrequest hvalid h.signed h.response hquantity
  obtain ⟨logs, hlogs⟩ := logOrderSubmitted_eq _ cid out order sequenceNumber orderId
  rw [submit_eq_submitOrder h.carries h.notLogged h.notCached, Program.bind_of_ok hres,
    Program.bind_of_ok hlogs]
  exact ⟨entry, sent, logs, hentry, rfl⟩

variable (text w out order sequenceNumber)

/-- One that is not accepted fails and leaves the broker alone. -/
theorem submit_cases :
    (∃ e sent logs, submitOrderWithSequence text out order sequenceNumber w =
        (.error e, { w with sent := sent, auditLogs := logs })) ∨
      ∃ cid orderId, Accepts text w out order sequenceNumber cid orderId := by
  cases hcid : clientOrderIdOf order sequenceNumber out.uuid with
  | error e =>
      refine .inl ⟨e, w.sent, w.auditLogs, ?_⟩
      rw [submitOrderWithSequence, hcid]
      rfl
  | ok cid =>
      by_cases hdup : isLogged out sequenceNumber w = true ∨ isCached cid w = true
      · obtain ⟨logs, hres⟩ := submit_eq_refuse hcid hdup
        exact .inl ⟨_, w.sent, logs, hres⟩
      · rw [not_or, Bool.not_eq_true, Bool.not_eq_true] at hdup
        rw [submit_eq_submitOrder hcid hdup.1 hdup.2]
        rcases submitOrder_cases w out { order with clientOrderId := cid } with
          ⟨e, sent, hres⟩ |
          ⟨hunblocked, hconnected, hrequest, hsigned, ⟨orderId, hresponse⟩, hquantity⟩
        · exact .inl ⟨e, sent, w.auditLogs, Program.bind_of_error hres⟩
        · exact .inr ⟨cid, orderId, hcid, hdup.1, hdup.2, hunblocked, hconnected, hrequest, hsigned,
            hresponse, hquantity⟩

end Submit

/-! ## Refusal -/

/-- A stop order is refused, but not as a duplicate. -/
theorem submitOrder_stop {out : Outside} {order : BrokerOrder} {p : Int64}
    (hstop : order.orderType = .stop p) :
    ∃ e, (∀ s, e ≠ .duplicateOrder s) ∧ submitOrder text out order w = (.error e, w) := by
  rw [submitOrder, Program.read_bind]
  cases w.broker.reconciliationBlocked with
  | true => exact ⟨.order _, nofun, rfl⟩
  | false =>
      rw [Program.when_neg (by simp), Program.pure_bind]
      by_cases hconnected : w.broker.connected = true
      · rw [Program.bind_of_ok (requireClient_of hconnected), Program.read_bind, toRequest, hstop]
        exact ⟨.order _, nofun, rfl⟩
      · exact ⟨.notConnected, nofun, Program.bind_of_error (requireClient_of_not hconnected)⟩

/-- Submissions with a client order id are refused as duplicates as long as an order with it is
cached. -/
theorem refuses_iff : Refuses text w c ↔ Holds w.broker.orderCache c := by
  constructor
  · intro h
    by_contra hnot
    let order : BrokerOrder := ⟨.unknown, .buy, 1, .stop 0, some c⟩
    let out : Outside := ⟨"", 0, true, true, .ok (), .ok ⟨0⟩⟩
    have hcached : isCached (some c) w = false := Bool.eq_false_iff.mpr (mt isCached_some.mp hnot)
    obtain ⟨e, hne, hres⟩ : ∃ e, (∀ s, e ≠ .duplicateOrder s) ∧
        submitOrder text out order w = (.error e, w) := submitOrder_stop rfl
    have hsubmit : submitOrderWithSequence text out order none w = (.error e, w) := by
      rw [submit_eq_submitOrder rfl (isLogged_none out w) hcached]
      exact Program.bind_of_error hres
    have hcall := (h (.submitOrderWithSequence out order none) rfl).1
    rw [Op.call, Program.bind_of_error hsubmit] at hcall
    exact hne _ (Except.error.inj hcall)
  · rintro h (⟨out, order, sequenceNumber⟩ | _ | _ | _ | _ | _) hcarried <;> try cases hcarried
    have hcid : clientOrderIdOf order sequenceNumber out.uuid = .ok (some c) := by
      rw [Op.carried] at hcarried
      split at hcarried
      · next heq => rw [heq, hcarried]
      · cases hcarried
    obtain ⟨logs, hres⟩ : ∃ logs, submitOrderWithSequence text out order sequenceNumber w =
        (.error (.duplicateOrder c.asStr), { w with auditLogs := logs }) :=
      submit_eq_refuse hcid (.inr (isCached_some.mpr h))
    rw [after, Op.call, Program.bind_of_error hres]
    exact ⟨rfl, rfl⟩

/-! ## Steps -/

section Poll

variable {poll : Poll} {info : AccountInfo}

theorem cache_pollAccountInfo_of (h : AccountPoll text w poll info) :
    (pollAccountInfo text poll w).2.broker.orderCache =
      cacheOf text w.broker.quoteAsset poll.ended info := by
  obtain ⟨positions, hpositions⟩ := h.valued
  rw [pollAccountInfo, Program.read_bind, Program.when_pos h.due,
    Program.bind_of_ok (requireClient_of h.connected), h.answered, Program.lift_ok_bind,
    updateStateFromAccountInfo, hpositions]
  rfl

theorem cache_pollAccountInfo_of_not (h : ∀ info, ¬ AccountPoll text w poll info) :
    (pollAccountInfo text poll w).2.broker.orderCache = w.broker.orderCache := by
  rw [pollAccountInfo, Program.read_bind]
  by_cases hdue : shouldPoll poll.begun w.broker.lastAccountPoll = true
  · rw [Program.when_pos hdue]
    by_cases hconnected : w.broker.connected = true
    · rw [Program.bind_of_ok (requireClient_of hconnected)]
      cases hinfo : poll.info with
      | error e => rfl
      | ok info =>
          rw [Program.lift_ok_bind, updateStateFromAccountInfo]
          cases hpositions : positionsOf text info.balances with
          | error e => rfl
          | ok positions =>
              exact absurd ⟨hdue, hconnected, hinfo, positions, hpositions⟩ (h info)
    · rw [Program.bind_of_error (requireClient_of_not hconnected)]
  · rw [Program.when_neg hdue]
    rfl

theorem cache_pollOpenOrders_of (h : OrdersPoll w poll info) :
    (pollOpenOrders text poll w).2.broker.orderCache =
      cacheOf text w.broker.quoteAsset poll.ended info := by
  rw [pollOpenOrders, Program.read_bind, Program.when_pos h.due,
    Program.bind_of_ok (requireClient_of h.connected), h.answered]
  rfl

theorem cache_pollOpenOrders_of_not (h : ∀ info, ¬ OrdersPoll w poll info) :
    (pollOpenOrders text poll w).2.broker.orderCache = w.broker.orderCache := by
  rw [pollOpenOrders, Program.read_bind]
  by_cases hdue : shouldPoll poll.begun w.broker.lastOrdersPoll = true
  · rw [Program.when_pos hdue]
    by_cases hconnected : w.broker.connected = true
    · rw [Program.bind_of_ok (requireClient_of hconnected)]
      cases hinfo : poll.info with
      | error e => rfl
      | ok info => exact absurd ⟨hdue, hconnected, hinfo⟩ (h info)
    · rw [Program.bind_of_error (requireClient_of_not hconnected)]
  · rw [Program.when_neg hdue]
    rfl

end Poll

theorem cache_saveCacheToDisk (path : Path) (o : HashMap.Order OrderId)
    (failure : Option (BrokerError × Option CacheFile)) :
    (saveCacheToDisk path o failure w).2.broker.orderCache = w.broker.orderCache := by
  rcases failure with _ | ⟨e, file⟩ <;> rfl

theorem cache_loadCacheFromDisk (path : Path) :
    (loadCacheFromDisk path w).2.broker.orderCache =
      match OrderCache.loadFromDisk (w.cacheFiles path) with
      | .ok cache => cache
      | .error _ => w.broker.orderCache := by
  rw [loadCacheFromDisk, Program.read_bind]
  cases OrderCache.loadFromDisk (w.cacheFiles path) <;> rfl

section Step

variable {done : List ClientOrderId}

/-- What an operation other than a submission does not submit. -/
theorem accepted_of_carried {op : Op} (h : op.carried = none) : accepted text w op = none := by
  rw [accepted]
  cases (op.call text w).1 with
  | ok u => exact h
  | error e => rfl

/-- A poll that replaces the cache leaves no client order id there. -/
theorem forall_holds_cacheOf (quoteAsset : String) (now : DateTime) (info : AccountInfo) :
    (∀ c ∈ done, Holds (cacheOf text quoteAsset now info) c) ↔ done = [] := by
  constructor
  · intro h
    exact List.eq_nil_iff_forall_not_mem.mpr fun c hc ↦ not_holds_cacheOf quoteAsset now info
      (h c hc)
  · rintro rfl c ⟨⟩

/-- An accepted submission keeps the ids that are cached under another order id, and adds its
own. -/
theorem holds_after_submit_iff {out : Outside} {order : BrokerOrder}
    {sequenceNumber : Option UInt64} (hdone : ∀ c ∈ done, Holds w.broker.orderCache c) :
    (∀ c ∈ done ++ (accepted text w (.submitOrderWithSequence out order sequenceNumber)).toList,
        Holds (after text w (.submitOrderWithSequence out order sequenceNumber)).broker.orderCache
        c) ↔
      Safe text done w (.submitOrderWithSequence out order sequenceNumber) := by
  rcases submit_cases text w out order sequenceNumber with
    ⟨e, sent, logs, hres⟩ | ⟨cid, orderId, haccepts⟩
  · have hcall : Op.call text (.submitOrderWithSequence out order sequenceNumber) w =
        (.error e, { w with sent := sent, auditLogs := logs }) := Program.bind_of_error hres
    rw [accepted, after, hcall, Option.toList_none, List.append_nil]
    refine ⟨fun _ cid orderId haccepts ↦ ?_, fun _ ↦ hdone⟩
    obtain ⟨entry, sent', logs', -, hok⟩ := submit_of_accepts haccepts
    rw [hres] at hok
    cases hok
  · obtain ⟨entry, sent, logs, hentry, hres⟩ := submit_of_accepts haccepts
    have hcall : Op.call text (.submitOrderWithSequence out order sequenceNumber) w =
        (.ok (), { w with sent := sent, auditLogs := logs }.setCache
          (w.broker.orderCache.insert orderId entry)) := Program.bind_of_ok hres
    have hcarried : Op.carried (.submitOrderWithSequence out order sequenceNumber) = cid := by
      rw [Op.carried, haccepts.carries]
    rw [accepted, after, hcall, hcarried]
    constructor
    · intro h cid' orderId' haccepts' c hc
      obtain rfl : orderId = orderId' := by
        have := haccepts.response.symm.trans haccepts'.response
        cases this
        rfl
      obtain ⟨k, o, ho, hcidOf⟩ := h c (List.mem_append_left _ hc)
      change (w.broker.orderCache.insert orderId entry).get? k = some o at ho
      by_cases hk : orderId = k
      · -- The entry just made would hold an id that was cached already.
        subst hk
        rw [HashMap.get?_insert_self] at ho
        cases ho
        rw [hentry] at hcidOf
        obtain ⟨c', rfl, hcc⟩ := Option.map_eq_some_iff.mp hcidOf
        obtain rfl := ClientOrderId.asStr_injective hcc
        have hcached := isCached_some.mpr (hdone c' hc)
        rw [haccepts.notCached] at hcached
        cases hcached
      · exact ⟨k, o, Ne.symm hk, by rwa [HashMap.get?_insert_of_ne _ hk] at ho, hcidOf⟩
    · intro h c hc
      rcases List.mem_append.mp hc with hc | hc
      · obtain ⟨k, o, hk, ho, hcidOf⟩ := h cid orderId haccepts c hc
        exact ⟨k, o, (HashMap.get?_insert_of_ne _ hk.symm _).trans ho, hcidOf⟩
      · obtain rfl : cid = some c := Option.mem_toList.mp hc
        exact ⟨orderId, entry, HashMap.get?_insert_self _ _ _, hentry⟩

/-- An operation keeps all ids in the cache exactly if it is safe. -/
theorem holds_after_iff (op : Op) (hdone : ∀ c ∈ done, Holds w.broker.orderCache c) :
    (∀ c ∈ done ++ (accepted text w op).toList, Holds (after text w op).broker.orderCache c) ↔
      Safe text done w op := by
  cases op with
  | submitOrderWithSequence out order sequenceNumber => exact holds_after_submit_iff hdone
  | pollAccountInfo poll =>
      rw [accepted_of_carried rfl, Option.toList_none, List.append_nil, after, Op.call]
      by_cases h : ∃ info, AccountPoll text w poll info
      · obtain ⟨info, hinfo⟩ := h
        rw [cache_pollAccountInfo_of hinfo, forall_holds_cacheOf]
        exact ⟨fun h _ _ ↦ h, fun h ↦ h info hinfo⟩
      · rw [not_exists] at h
        rw [cache_pollAccountInfo_of_not h]
        exact ⟨fun _ info hinfo ↦ absurd hinfo (h info), fun _ ↦ hdone⟩
  | pollOpenOrders poll =>
      rw [accepted_of_carried rfl, Option.toList_none, List.append_nil, after, Op.call]
      by_cases h : ∃ info, OrdersPoll w poll info
      · obtain ⟨info, hinfo⟩ := h
        rw [cache_pollOpenOrders_of hinfo, forall_holds_cacheOf]
        exact ⟨fun h _ _ ↦ h, fun h ↦ h info hinfo⟩
      · rw [not_exists] at h
        rw [cache_pollOpenOrders_of_not h]
        exact ⟨fun _ info hinfo ↦ absurd hinfo (h info), fun _ ↦ hdone⟩
  | updateCachedOrderStatus orderId status =>
      rw [accepted_of_carried rfl, Option.toList_none, List.append_nil]
      exact ⟨fun _ ↦ trivial, fun _ c hc ↦ (holds_updateStatus orderId status).mpr (hdone c hc)⟩
  | saveCacheToDisk path o failure =>
      rw [accepted_of_carried rfl, Option.toList_none, List.append_nil, after, Op.call,
        cache_saveCacheToDisk]
      exact ⟨fun _ ↦ trivial, fun _ ↦ hdone⟩
  | loadCacheFromDisk path =>
      rw [accepted_of_carried rfl, Option.toList_none, List.append_nil, after, Op.call,
        cache_loadCacheFromDisk, Safe]
      cases OrderCache.loadFromDisk (w.cacheFiles path) with
      | ok loaded => exact ⟨fun h _ hloaded ↦ Except.ok.inj hloaded ▸ h, fun h ↦ h loaded rfl⟩
      | error e => exact ⟨fun _ _ ↦ nofun, fun _ ↦ hdone⟩

end Step

/-! ## Files -/

theorem intoCached_fromCached (orderId : OrderId) (order : CachedOrder) :
    (CachedOrderRecord.fromCached orderId order).intoCached = .ok (orderId, order) := by
  obtain ⟨symbol, quantity, side, status, binanceOrderId, clientOrderId, submittedAt⟩ := order
  rw [CachedOrderRecord.intoCached, CachedOrderRecord.fromCached]
  cases side <;> cases status <;> simp only [Symbol.tryNew_asStr] <;> rfl

/-- A cache that was saved is loaded with the same entries. -/
theorem loadFromDisk_toFile (cache : OrderCache) (o : HashMap.Order OrderId) :
    ∃ loaded, OrderCache.loadFromDisk (some (cache.toFile o)) = .ok loaded ∧
      ∀ k, loaded.get? k = cache.get? k := by
  have hfold : ∀ (l : List (OrderId × CachedOrder)) (m : OrderCache),
      (l.map fun e ↦ CachedOrderRecord.fromCached e.1 e.2).foldlM OrderCache.insertRecord m =
        .ok (l.foldl (fun m e ↦ m.insert e.1 e.2) m) := by
    intro l
    induction l with
    | nil => exact fun m ↦ rfl
    | cons e l ih =>
        intro m
        have hinsert :
          OrderCache.insertRecord m (.fromCached e.1 e.2) = .ok (m.insert e.1 e.2) := by
          rw [OrderCache.insertRecord, intoCached_fromCached]
          rfl
        rw [List.map_cons, List.foldlM_cons, hinsert]
        exact ih _
  exact ⟨_, hfold _ _, HashMap.get?_foldl_insert_iter o cache⟩

/-- Loading what has just been saved is safe. -/
theorem safe_load_after_save {done : List ClientOrderId} {path : Path} (o : HashMap.Order OrderId)
    (hdone : ∀ c ∈ done, Holds w.broker.orderCache c) :
    Safe text done (after text w (.saveCacheToDisk path o none)) (.loadCacheFromDisk path) := by
  have hfile : (after text w (.saveCacheToDisk path o none)).cacheFiles path =
      some (w.broker.orderCache.toFile o) := if_pos rfl
  intro loaded hloaded c hc
  obtain ⟨loaded', hloaded', hget⟩ := loadFromDisk_toFile w.broker.orderCache o
  rw [hfile, hloaded'] at hloaded
  obtain rfl := Except.ok.inj hloaded
  obtain ⟨k, order, horder, hcid⟩ := hdone c hc
  exact ⟨k, order, (hget k).trans horder, hcid⟩

/-! ## Runs -/

/-- The invariant along a run, from what has been submitted before it. -/
theorem holds_run_iff (ops : List Op) (w : World) (done : List ClientOrderId)
    (hdone : ∀ c ∈ done, Holds w.broker.orderCache c) :
    (∀ before, before <+: ops → ∀ c ∈ done ++ submitted text w before,
        Holds (run text w before).broker.orderCache c) ↔ SafeRun text done w ops := by
  induction ops generalizing w done with
  | nil =>
      refine ⟨fun _ ↦ trivial, fun _ before hbefore ↦ ?_⟩
      obtain rfl := List.prefix_nil.mp hbefore
      rwa [submitted, List.append_nil]
  | cons op ops ih =>
      rw [SafeRun]
      constructor
      · intro h
        have hstep := h [op] (List.prefix_append [op] ops)
        rw [submitted, submitted, List.append_nil] at hstep
        refine ⟨(holds_after_iff op hdone).mp hstep, (ih _ _ hstep).mp fun before hbefore ↦ ?_⟩
        have hrest := h (op :: before) ((List.cons_prefix_cons).mpr ⟨rfl, hbefore⟩)
        rwa [submitted, ← List.append_assoc] at hrest
      · rintro ⟨hsafe, hrest⟩ before hbefore
        have hstep := (holds_after_iff op hdone).mpr hsafe
        rcases before with _ | ⟨op', before⟩
        · rwa [submitted, List.append_nil]
        · obtain ⟨rfl, hinit⟩ := List.cons_prefix_cons.mp hbefore
          rw [submitted, ← List.append_assoc]
          exact (ih _ _ hstep).mpr hrest before hinit

/-- Submissions are idempotent over a run exactly if each of its operations is safe. -/
theorem idempotent_iff (w : World) (ops : List Op) :
    Idempotent text w ops ↔ SafeRun text [] w ops := by
  rw [← holds_run_iff ops w [] (by simp)]
  simp only [Idempotent, refuses_iff, List.nil_append]

/-! A poll between two submissions of one order. -/

namespace Repeated

def numbers : FloatText where
  quantity s := .ofInt (s.toInt?.getD 0)
  isPositive free locked := 0 < free.toInt?.getD 0 + locked.toInt?.getD 0
  units free locked := .ok (.ofInt ((free.toInt?.getD 0 + locked.toInt?.getD 0) * 10 ^ 8))
  price p := toString (p.toInt / 100) ++ ".00"

def carriedId : ClientOrderId := ⟨"rebalance-1", by decide, by decide, by decide⟩

def world : World where
  broker := {
    connected := true
    quoteAsset := "USDT"
    orderCache := HashMap.empty
    lastAccountPoll := none
    lastOrdersPoll := none
    positionCache := []
    auditLogPath := none
    reconciliationBlocked := false }
  cacheFiles _ := none
  auditLogs _ := []
  sent := []

/-- An order for one coin, which the exchange takes under `orderId`. -/
def submission (orderId : OrderId) : Op :=
  .submitOrderWithSequence ⟨"", 0, true, true, .ok (), .ok ⟨orderId⟩⟩
    ⟨⟨"BTC", by decide⟩, .buy, 1, .market, some carriedId⟩ none

/-- The exchange has the order, as open. -/
def poll : Op := .pollOpenOrders ⟨0, 0, .ok ⟨[], [⟨"BTCUSDT", 1, "NEW", "BUY", "1"⟩]⟩⟩

end Repeated

/-- After the poll the same order is posted a second time. -/
theorem not_idempotent_poll :
    ¬ Idempotent Repeated.numbers Repeated.world [Repeated.submission 1, Repeated.poll] ∧
      (run Repeated.numbers Repeated.world
        [Repeated.submission 1, Repeated.poll, Repeated.submission 2]).sent.length = 2 := by
  refine ⟨fun h ↦ ?_, by decide +kernel⟩
  have hrefused :=
    (h _ List.prefix_rfl Repeated.carriedId (by decide +kernel) (Repeated.submission 2) rfl).2
  revert hrefused
  decide +kernel

end Nanobook.Binance
