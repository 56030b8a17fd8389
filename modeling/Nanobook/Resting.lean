import Nanobook.Invariant.Exchange
import Nanobook.Replay
import Mathlib.Logic.Function.Basic

/-!
# Orders that only rest

As long as every order is GTC, no stop order was submitted and no order crosses the book, nothing is
ever matched: a submission adds an order with all its quantity, a cancel leaves nothing of one, and
a modification does both.  `remaining` is all that can change of such an exchange.
-/

namespace Nanobook

namespace OrderBook

/-- A limit that crosses the best price of the opposite side. -/
def crosses (b : OrderBook) (side : Side) (price : Price) : Bool :=
  (b.oppositeSide side).bestPrice.any (pricesCross side price)

variable {b : OrderBook}

/-- An order that does not cross the book leaves the match at once. -/
theorem matchOrder_of_not_crosses {incoming : Order}
    (hx : b.crosses incoming.side incoming.price = false) (fuel : Nat) (policy : StpPolicy) :
    b.matchOrderWithPolicy (fuel + 1) incoming policy = some (b.matchStart incoming) := by
  have hbody : matchOrderBody (fuel + 1) policy (b.matchStart incoming) =
      some (.inl (b.matchStart incoming)) := by
    simp only [matchOrderBody]
    split_ifs
    · rfl
    · simp only [crosses] at hx
      cases hbest : (b.oppositeSide incoming.side).bestPrice with
      | none =>
          simp only [matchStart, hbest]
      | some p =>
          rw [hbest, Option.any_some] at hx
          simp only [matchStart, hbest, hx, Bool.false_eq_true, if_false]
  rw [matchOrderWithPolicy, Loop.iterate_succ_inl hbody]
  rfl

end OrderBook

namespace Exchange

/-- What is left of an order; nothing is left of one that is not stored. -/
def remaining (ex : Exchange) (id : OrderId) : Quantity :=
  ((ex.getOrder id).map Order.remainingQuantity).getD 0

/-- There are no stop orders, and every order is GTC and active exactly as long as something is left
of it. -/
structure Plain (ex : Exchange) : Prop where
  stops : ex.stopBook = StopBook.create
  order : ∀ id o, ex.getOrder id = some o →
    id < ex.book.nextOrderId ∧ o.Settled ∧ o.timeInForce = .gtc

theorem plain_create : create.Plain where
  stops := rfl
  order _ _ h := by cases h

theorem remaining_create : create.remaining = fun _ ↦ 0 := rfl

variable {ex : Exchange}

/-- The order table after one order was stored. -/
theorem remaining_of_insert {ex' : Exchange} {id : OrderId} {o : Order}
    (h : ex'.book.orders = ex.book.orders.insert id o) :
    ex'.remaining = Function.update ex.remaining id o.remainingQuantity := by
  ext j
  rw [remaining, getOrder, OrderBook.getOrder, h, OrdMap.get?_insert, Function.update_apply]
  split_ifs
  · rfl
  · rfl

theorem Plain.of_insert (h : ex.Plain) {ex' : Exchange} {id : OrderId} {o : Order}
    (hstops : ex'.stopBook = ex.stopBook) (horders : ex'.book.orders = ex.book.orders.insert id o)
    (hnext : ex.book.nextOrderId ≤ ex'.book.nextOrderId) (hid : id < ex'.book.nextOrderId)
    (hset : o.Settled) (htif : o.timeInForce = .gtc) : ex'.Plain where
  stops := hstops.trans h.stops
  order j x hx := by
    rw [getOrder, OrderBook.getOrder, horders, OrdMap.get?_insert] at hx
    split_ifs at hx with hj
    · cases hx
      exact ⟨hj ▸ hid, hset, htif⟩
    · obtain ⟨hlt, hrest⟩ := h.order j x hx
      exact ⟨hlt.trans_le hnext, hrest⟩

theorem Plain.remaining_nextOrderId (h : ex.Plain) : ex.remaining ex.book.nextOrderId = 0 := by
  rw [remaining]
  cases ho : ex.getOrder ex.book.nextOrderId with
  | none => rfl
  | some o => exact absurd (h.order _ o ho).1 (lt_irrefl _)

/-- A GTC order that was not matched is stored with all its quantity. -/
theorem orders_settledBook_of_unmatched {sub : Submission} (htif : sub.timeInForce = .gtc)
    (b : OrderBook) {o : Order} (hstatus : o.filledQuantity = 0) (hgtc : o.timeInForce = .gtc) :
    ∃ o', (settledBook sub (b.matchStart o)).orders = b.orders.insert o.id o' ∧
      o'.remainingQuantity = o.remainingQuantity ∧ o'.Settled ∧ o'.timeInForce = .gtc := by
  simp only [settledBook, OrderBook.matchStart, Bool.false_eq_true, if_false, htif, if_true]
  split_ifs with hrem
  · refine ⟨{ o with status := .filled }, rfl, rfl, ?_, hgtc⟩
    simp [Order.Settled, Order.isActive, OrderStatus.isActive, hrem]
  · refine ⟨b.rested { o with status := .new }, ?_, rfl, ?_, hgtc⟩
    · rw [OrderBook.orders_addOrder, leftStatus, if_neg (by simp [hstatus])]
    · simp only [Order.Settled, Order.isActive, OrderBook.rested, OrderStatus.isActive, true_iff]
      exact Nat.pos_of_ne_zero hrem

/-- A GTC order that does not cross the book rests with all its quantity. -/
theorem Plain.rests (h : ex.Plain) {side : Side} {price : Price}
    (hx : ex.book.crosses side price = false) (fuel : Nat) (quantity : Quantity) :
    ∃ ex' r, ex.submitLimitInternal (fuel + 1) side price quantity .gtc = some (ex', r) ∧
      r.trades = [] ∧ ex'.Plain ∧
      ex'.remaining = Function.update ex.remaining ex.book.nextOrderId quantity := by
  let sub : Submission := ⟨side, price, quantity, .gtc, none⟩
  let s := (ex.incoming sub).2.matchStart (ex.incoming sub).1
  have hs : (ex.incoming sub).2.matchOrderWithPolicy (fuel + 1) (ex.incoming sub).1 ex.stpPolicy =
      some s := OrderBook.matchOrder_of_not_crosses (by cases side <;> exact hx) fuel _
  have hsub : ex.submitLimitInternal (fuel + 1) side price quantity .gtc =
      some (ex.settle sub s) := by
    rw [submitLimitInternal, submitLimitInternalWithOwner, if_neg (by simp [rejectsFok])]
    exact Option.bind_eq_some_iff.mpr ⟨s, hs, rfl⟩
  have htif : sub.timeInForce = .gtc := rfl
  obtain ⟨o, horders, hrem, hset, hgtc⟩ := orders_settledBook_of_unmatched htif
    (ex.incoming sub).2 (o := (ex.incoming sub).1) rfl rfl
  have hbook : (ex.settle sub s).1.book.orders = ex.book.orders.insert ex.book.nextOrderId o := by
    rw [settle_fst]
    exact horders
  obtain ⟨hstops, -, -, -, -, hnext⟩ := submit_frame hsub
  refine ⟨(ex.settle sub s).1, (ex.settle sub s).2, hsub, (settle_snd ex sub s).1, ?_, ?_⟩
  · exact h.of_insert hstops hbook (hnext ▸ Nat.le_succ _) (hnext ▸ Nat.lt_succ_self _) hset hgtc
  · rw [remaining_of_insert hbook, hrem]
    rfl

theorem Plain.isActive_iff (h : ex.Plain) {id : OrderId} {o : Order}
    (ho : ex.getOrder id = some o) : o.isActive = true ↔ 0 < ex.remaining id := by
  rw [remaining, ho]
  exact (h.order id o ho).2.1

/-- Cancelling leaves nothing of an order. -/
theorem Plain.cancels (h : ex.Plain) (id : OrderId) :
    ({ ex with book := (ex.book.cancelOrder id).1 } : Exchange).Plain ∧
      ({ ex with book := (ex.book.cancelOrder id).1 } : Exchange).remaining =
        Function.update ex.remaining id 0 := by
  by_cases hact : ∃ o, ex.getOrder id = some o ∧ o.isActive = true
  · obtain ⟨o, ho, ha⟩ := hact
    obtain ⟨hlt, -, htif⟩ := h.order id o ho
    have hnext : (ex.book.cancelOrder id).1.nextOrderId = ex.book.nextOrderId := by
      rw [OrderBook.cancelOrder_of_active ho ha, OrderBook.nextOrderId_updateSide]
    let ex' : Exchange := { ex with book := (ex.book.cancelOrder id).1 }
    have horders : ex'.book.orders = ex.book.orders.insert id o.cancel :=
      OrderBook.orders_cancelOrder ho ha
    refine ⟨h.of_insert rfl horders hnext.ge (hlt.trans_le hnext.ge) (Order.settled_cancel o) htif,
      ?_⟩
    exact remaining_of_insert horders
  · have hinactive (o : Order) (ho : ex.book.orders.get? id = some o) : o.isActive = false := by
      simpa using fun ha ↦ hact ⟨o, ho, ha⟩
    rw [OrderBook.cancelOrder_of_inactive hinactive]
    have hzero : ex.remaining id = 0 := by
      cases ho : ex.getOrder id with
      | none => rw [remaining, ho]; rfl
      | some o =>
          exact Nat.eq_zero_of_not_pos ((h.isActive_iff ho).not.mp (by simp [hinactive o ho]))
    exact ⟨h, (Function.update_eq_self_iff.mpr hzero.symm).symm⟩

theorem Plain.cancelInternal_plain (h : ex.Plain) (id : OrderId) :
    (ex.cancelInternal id).1.Plain ∧
      (ex.cancelInternal id).1.remaining = Function.update ex.remaining id 0 := by
  rcases ex.cancelInternal_cases id with ⟨hp, -⟩ | ⟨-, hcancel⟩
  · rw [h.stops] at hp
    cases hp
  · rw [hcancel]
    exact h.cancels id

/-- A replacement that does not cross the book rests with its new quantity, under the next id. -/
theorem Plain.replaces (h : ex.Plain) {id : OrderId} {newPrice : Price}
    {newQuantity : Quantity} (hlive : 0 < ex.remaining id) (hq : 0 < newQuantity)
    (hx : ∀ o, ex.getOrder id = some o → ex.book.crosses o.side newPrice = false) (fuel : Nat) :
    ∃ ex' r, ex.modifyInternal (fuel + 1) id newPrice newQuantity = some (ex', r) ∧
      r.trades = [] ∧ ex'.Plain ∧
      ex'.remaining = Function.update (Function.update ex.remaining id 0) ex.book.nextOrderId
        newQuantity := by
  cases ho : ex.getOrder id with
  | none =>
      rw [remaining, ho] at hlive
      exact absurd hlive (lt_irrefl 0)
  | some o =>
      have ha : o.isActive = true := (h.isActive_iff ho).mpr hlive
      obtain ⟨book, hbook⟩ : ∃ book, ex.book.cancelOrder id = (book, some o.remainingQuantity) :=
        ⟨_, OrderBook.cancelOrder_of_active ho ha⟩
      obtain ⟨hplain, hrem⟩ := h.cancels id
      have hnext : (ex.book.cancelOrder id).1.nextOrderId = ex.book.nextOrderId := by
        rw [OrderBook.cancelOrder_of_active ho ha, OrderBook.nextOrderId_updateSide]
      have hx₁ : (ex.book.cancelOrder id).1.crosses o.side newPrice = false := by
        rw [OrderBook.crosses, OrderBook.oppositeSide,
          OrderBook.side_cancelOrder_of_ne ho ha (by cases o.side <;> decide)]
        exact hx o ho
      rw [hbook] at hplain hrem hnext hx₁
      obtain ⟨ex', r, hsub, htrades, hplain', hrem'⟩ := hplain.rests hx₁ fuel newQuantity
      refine ⟨ex', .succeeded id r.orderId o.remainingQuantity r.trades, ?_, htrades, hplain', ?_⟩
      · rw [getOrder] at ho
        simp only [Exchange.modifyInternal, hq.ne', if_false, ho, ha, if_true, hbook,
          (h.order id o ho).2.2]
        exact Option.bind_eq_some_iff.mpr ⟨(ex', r), hsub, rfl⟩
      · rw [hrem', hrem, hnext]

/-- A modification is refused without a quantity, and of an order that nothing is left of. -/
theorem Plain.refuses (h : ex.Plain) {id : OrderId} {newQuantity : Quantity}
    (hdead : ex.remaining id = 0 ∨ newQuantity = 0) (fuel : Nat) (newPrice : Price) :
    ∃ r, ex.modifyInternal fuel id newPrice newQuantity = some (ex, r) ∧ r.trades = [] := by
  by_cases hq : newQuantity = 0
  · exact ⟨.failure id .invalidQuantity, by rw [modifyInternal, if_pos hq], rfl⟩
  · have hrem := hdead.resolve_right hq
    cases ho : ex.book.getOrder id with
    | none =>
        exact ⟨.failure id .orderNotFound, by simp only [modifyInternal, hq, if_false, ho], rfl⟩
    | some o =>
        have ha : o.isActive = false := by
          have hnot := (h.isActive_iff ho).not.mpr (Nat.not_lt.mpr hrem.le)
          simpa using hnot
        refine ⟨.failure id .orderNotActive, ?_, rfl⟩
        simp only [modifyInternal, hq, if_false, ho, ha, Bool.false_eq_true]

/-! ## Applied events -/

theorem onTrades_of_nil {trades : List Trade} (h : trades = []) (fuel : Nat) :
    ex.onTrades fuel trades = some ex := by
  rw [h]
  rfl

theorem Plain.record (h : ex.Plain) (event : Event) : (ex.record event).Plain := ⟨h.stops, h.order⟩

theorem Plain.apply_submitLimit (h : ex.Plain) {side : Side} {price : Price}
    (hx : ex.book.crosses side price = false) (fuel : Nat) (quantity : Quantity) :
    ∃ ex' r, ex.apply (fuel + 1) (.submitLimit side price quantity .gtc) = some (ex', r) ∧
      ex'.Plain ∧
      ex'.remaining = Function.update ex.remaining ex.book.nextOrderId quantity := by
  obtain ⟨ex', r, hsub, htrades, hplain, hrem⟩ :=
    (h.record (.submitLimit side price quantity .gtc)).rests hx fuel quantity
  exact ⟨ex', ⟨r.trades⟩, Option.bind_eq_some_iff.mpr ⟨(ex', r), hsub,
    Option.bind_eq_some_iff.mpr ⟨ex', onTrades_of_nil htrades _, rfl⟩⟩, hplain, hrem⟩

theorem Plain.apply_cancel (h : ex.Plain) (fuel : Nat) (id : OrderId) :
    ∃ ex' r, ex.apply fuel (.cancel id) = some (ex', r) ∧ ex'.Plain ∧
      ex'.remaining = Function.update ex.remaining id 0 :=
  ⟨((ex.record (.cancel id)).cancelInternal id).1, ⟨[]⟩, rfl,
    (h.record (.cancel id)).cancelInternal_plain id⟩

theorem Plain.apply_modify (h : ex.Plain) {id : OrderId} {newPrice : Price}
    {newQuantity : Quantity} (hlive : 0 < ex.remaining id) (hq : 0 < newQuantity)
    (hx : ∀ o, ex.getOrder id = some o → ex.book.crosses o.side newPrice = false) (fuel : Nat) :
    ∃ ex' r, ex.apply (fuel + 1) (.modify id newPrice newQuantity) = some (ex', r) ∧ ex'.Plain ∧
      ex'.remaining = Function.update (Function.update ex.remaining id 0) ex.book.nextOrderId
        newQuantity := by
  obtain ⟨ex', r, hmod, htrades, hplain, hrem⟩ :=
    (h.record (.modify id newPrice newQuantity)).replaces hlive hq hx fuel
  exact ⟨ex', ⟨r.trades⟩, Option.bind_eq_some_iff.mpr ⟨(ex', r), hmod,
    Option.bind_eq_some_iff.mpr ⟨ex', onTrades_of_nil htrades _, rfl⟩⟩, hplain, hrem⟩

theorem Plain.apply_modify_refused (h : ex.Plain) {id : OrderId} {newQuantity : Quantity}
    (hdead : ex.remaining id = 0 ∨ newQuantity = 0) (fuel : Nat) (newPrice : Price) :
    ∃ ex' r, ex.apply fuel (.modify id newPrice newQuantity) = some (ex', r) ∧ ex'.Plain ∧
      ex'.remaining = ex.remaining := by
  obtain ⟨r, hmod, htrades⟩ :=
    (h.record (.modify id newPrice newQuantity)).refuses hdead fuel newPrice
  let recorded := ex.record (.modify id newPrice newQuantity)
  exact ⟨recorded, ⟨r.trades⟩, Option.bind_eq_some_iff.mpr ⟨(recorded, r), hmod,
    Option.bind_eq_some_iff.mpr ⟨recorded, onTrades_of_nil htrades _, rfl⟩⟩, h.record _, rfl⟩

end Exchange

end Nanobook
