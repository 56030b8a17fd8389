import Nanobook.FillOrKill
import Nanobook.Cancel

/-!
# Active orders are the queued ones

`cancel` and `modify` decide by the status of an order whether there is anything to cancel.  That is
right as long as the active orders are exactly the queued ones.  Three things break it: a
cancellation that misses its slot, a level that goes away early because its total saturated, and an
order that is filled in part and does not rest, which is stored as `PartiallyFilled`.
-/

namespace Nanobook

/-! ## The walk leaves no active order behind -/

/-- The wanted orders of one side are all in a list. -/
def Lists (wanted : Order → Prop) (orders : OrdMap OrderId Order) (s : Side) (os : List Order) :
    Prop :=
  ∀ id o, orders.get? id = some o → wanted o → o.side = s → o ∈ os

/-- Rewriting the first order of the list as one that is not wanted. -/
theorem Lists.insert {wanted : Order → Prop} {orders : OrdMap OrderId Order} {s : Side}
    {o o' : Order} {os : List Order} (hid : ∀ id o, orders.get? id = some o → o.id = id)
    (h : Lists wanted orders s (o :: os)) (ha : ¬ wanted o') :
    Lists wanted (orders.insert o.id o') s os := by
  intro id o₁ ho₁ ha₁ hs₁
  rw [OrdMap.get?_insert] at ho₁
  split_ifs at ho₁ with heq
  · cases ho₁
    exact absurd ha₁ ha
  · rcases List.mem_cons.mp (h id o₁ ho₁ ha₁ hs₁) with rfl | hmem
    · exact absurd (hid id _ ho₁).symm heq
    · exact hmem

theorem ids_insert {orders : OrdMap OrderId Order} {o o' : Order} (ho : o'.id = o.id)
    (hid : ∀ id o, orders.get? id = some o → o.id = id) :
    ∀ id o₁, (orders.insert o.id o').get? id = some o₁ → o₁.id = id := by
  intro id o₁ ho₁
  rw [OrdMap.get?_insert] at ho₁
  split_ifs at ho₁ with heq
  · cases ho₁
    rw [heq, ho]
  · exact hid id o₁ ho₁

/-- What a greedy match leaves in the list is what it leaves active. -/
theorem greedy_lists {wanted : Order → Prop} (hactive : ∀ o, wanted o → o.isActive = true)
    {policy : StpPolicy} {owner : Option OrderOwner} {side s : Side}
    {price : Price} {os : List Order} {left : Quantity} {g : Ledger}
    (hid : ∀ id o, g.orders.get? id = some o → o.id = id) (h : Lists wanted g.orders s os) :
    Lists wanted (g.acts (greedy policy owner side price os left).actions).orders s
      (greedy policy owner side price os left).rest := by
  have hdone : ∀ o : Order, o.isActive = false → ¬ wanted o := by
    intro o ha hw
    rw [hactive o hw] at ha
    cases ha
  induction os generalizing left g with
  | nil => exact h
  | cons o os ih =>
      simp only [greedy]
      split_ifs with hstop hc hi hr
      · exact h
      · exact h
      · exact ih (g := g.act (.cancel o)) (ids_insert rfl hid) (h.insert hid (hdone _ rfl))
      · have ha : (o.fill o.remainingQuantity).isActive = false := by
          simp [Order.fill, Order.isActive, OrderStatus.isActive]
        exact ih (g := g.act (.fill o o.remainingQuantity)) (ids_insert rfl hid)
          (h.insert hid (hdone _ ha))
      · intro id o₁ ho₁ ha₁ hs₁
        have ho₁' : (g.orders.insert o.id (o.fill left)).get? id = some o₁ := ho₁
        rw [OrdMap.get?_insert] at ho₁'
        split_ifs at ho₁' with heq
        · cases ho₁'
          exact List.mem_cons_self
        · rcases List.mem_cons.mp (h id o₁ ho₁' ha₁ hs₁) with rfl | hmem
          · exact absurd (hid id _ ho₁').symm heq
          · exact List.mem_cons_of_mem _ hmem

/-! ## Covered books -/

namespace OrderBook

variable {b b' : OrderBook} {s : Side} {id : OrderId} {o : Order}

/-- Every wanted order is queued at its side and price. -/
def Queues (b : OrderBook) (wanted : Order → Prop) : Prop :=
  ∀ id o, b.orders.get? id = some o → wanted o →
    ∃ l, b.level o.side o.price = some l ∧ id ∈ l.iter

/-- Every active order is queued at its side and price. -/
def Covered (b : OrderBook) : Prop :=
  ∀ id o, b.orders.get? id = some o → o.isActive = true →
    ∃ l, b.level o.side o.price = some l ∧ id ∈ l.iter

section Queues

variable {wanted : Order → Prop}

theorem Queues.of_counters (h : b.Queues wanted) (hside : ∀ s, b'.side s = b.side s)
    (horders : b'.orders = b.orders) : b'.Queues wanted := by
  intro id o ho ha
  rw [horders] at ho
  obtain ⟨l, hl, hid⟩ := h id o ho ha
  exact ⟨l, by rwa [level, hside], hid⟩

/-- An order that does not rest is stored as one that is not wanted. -/
theorem Queues.store (h : b.Queues wanted) (ha : ¬ wanted o) :
    ({ b with orders := b.orders.insert o.id o } : OrderBook).Queues wanted := by
  intro id o₁ ho₁ ha₁
  rw [OrdMap.get?_insert] at ho₁
  split_ifs at ho₁
  · cases ho₁
    exact absurd ha₁ ha
  · obtain ⟨l, hl, hid⟩ := h id o₁ ho₁ ha₁
    exact ⟨l, by rwa [level_mk], hid⟩

theorem Queues.addOrder (h : b.Queues wanted) (hf : b.Fresh o.id) :
    (b.addOrder o).Queues wanted := by
  intro id o₁ ho₁ ha₁
  rw [orders_addOrder, OrdMap.get?_insert] at ho₁
  split_ifs at ho₁ with heq
  · cases ho₁
    refine ⟨b.pushedLevel o, ?_, ?_⟩
    · rw [level_addOrder]
      exact if_pos ⟨rfl, rfl⟩
    · rw [hf.iter_pushedLevel, heq]
      simp
  · obtain ⟨l, hl, hid⟩ := h id o₁ ho₁ ha₁
    rw [level_addOrder]
    split_ifs with hsp
    · refine ⟨_, rfl, ?_⟩
      rw [hf.iter_pushedLevel, ← hsp.1, ← hsp.2, hl]
      exact List.mem_append_left _ hid
    · exact ⟨l, hl, hid⟩

theorem Queues.compact (h : b.Queues wanted) : b.compact.Queues wanted := by
  intro id o ho ha
  obtain ⟨l, hl, hid⟩ := h id o ho ha
  refine ⟨l.compact, ?_, by rwa [Level.iter_compact]⟩
  rw [level, side_compact, PriceLevels.getLevel_compact]
  exact congrArg (Option.map Level.compact) hl

end Queues

theorem Covered.clearHistory (h : b.Covered) : b.clearHistory.1.Covered := by
  intro id o ho ha
  simp only [OrderBook.clearHistory, OrdMap.get?_filter, Option.filter_eq_some_iff] at ho
  obtain ⟨l, hl, hid⟩ := h id o ho.1 ha
  exact ⟨l, by rwa [level, side_clearHistory], hid⟩

/-- With exact totals, a level goes away with its last order only. -/
theorem Covered.cancelOrder (h : b.Covered) (hw : b.WF) (hst : ∀ s, b.Stocked s)
    (hx : ∀ s, b.Exact s) (ht : b.Targets id) : (b.cancelOrder id).1.Covered := by
  by_cases hact : ∃ o, b.orders.get? id = some o ∧ o.isActive = true
  · obtain ⟨o, ho, ha⟩ := hact
    have hid : id ≠ 0 := Nat.pos_iff_ne_zero.mp (hw.stored id o ho).2.1
    intro j o₁ ho₁ ha₁
    rw [orders_cancelOrder ho ha, OrdMap.get?_insert] at ho₁
    split_ifs at ho₁ with hj
    · cases ho₁
      cases ha₁
    · obtain ⟨l, hl, hmem⟩ := h j o₁ ho₁ ha₁
      rw [level_cancelOrder ho ha]
      split_ifs with hsp
      · -- the cancelled order was queued in the same level, and `o₁` keeps its total above zero
        have hl' : b.level o.side o.price = some l := by rw [← hsp.1, ← hsp.2]; exact hl
        obtain ⟨l₀, hl₀, hid₀⟩ := h id o ho ha
        obtain rfl : l₀ = l := Option.some.inj (hl₀.symm.trans hl')
        have hslot := (ht o ho ha l₀ hl₀).resolve_right fun hout ↦ hout.1 hid₀
        have hlevel := (hst o.side).level _ _ hl₀
        obtain ⟨o₂, ho₂, -, -, -, hr⟩ := hlevel.order j hmem
        obtain rfl : o₂ = o₁ := Option.some.inj (ho₂.symm.trans ho₁)
        have hmem' : j ∈ l₀.iter.erase id := (List.mem_erase_of_ne hj).mpr hmem
        have hsum := remainingSum_erase hid₀ ho
        rw [remainingSum_erase hmem' ho₁, ← hx o.side _ _ hl₀] at hsum
        refine ⟨l₀.markTombstone o.positionInLevel o.remainingQuantity, ?_, ?_⟩
        · rw [hl, Option.map_some, Option.filter_some, if_pos]
          rw [Level.markTombstone_of_slot hslot hid]
          simp only [Level.isEmpty, Bool.not_eq_true', decide_eq_false_iff_not]
          lia
        · rw [Level.iter_markTombstone hslot hid hlevel.nodup]
          exact hmem'
      · exact ⟨l, hl, hmem⟩
  · rw [cancelOrder_of_inactive fun o ho ↦ by simpa using fun ha ↦ hact ⟨o, ho, ha⟩]
    exact h

/-! ## Only GTC orders rest -/

def GtcOnly (b : OrderBook) : Prop :=
  ∀ s p l id o, b.level s p = some l → id ∈ l.iter → b.orders.get? id = some o →
    o.timeInForce = .gtc

theorem GtcOnly.shrinks (h : b.GtcOnly) (hs : b.Shrinks b') : b'.GtcOnly := by
  intro s p l' id o' hl' hid ho'
  obtain ⟨l, hl, hll⟩ := hs.level hl'
  obtain ⟨o, ho, hsame, -⟩ := hs.order id o' ho'
  rw [hsame.timeInForce]
  exact h s p l id o hl (hll.iter.subset hid) ho

theorem GtcOnly.of_counters (h : b.GtcOnly) (hside : ∀ s, b'.side s = b.side s)
    (horders : b'.orders = b.orders) : b'.GtcOnly := by
  intro s p l id o hl hid ho
  rw [level, hside] at hl
  rw [horders] at ho
  exact h s p l id o hl hid ho

theorem GtcOnly.store (h : b.GtcOnly) (hf : b.Fresh o.id) :
    ({ b with orders := b.orders.insert o.id o } : OrderBook).GtcOnly := by
  intro s p l id o' hl hid ho'
  rw [level_mk] at hl
  rw [OrdMap.get?_insert] at ho'
  split_ifs at ho' with heq
  · exact absurd (heq ▸ hid) (hf.queued s p l hl)
  · exact h s p l id o' hl hid ho'

theorem GtcOnly.addOrder (h : b.GtcOnly) (hf : b.Fresh o.id) (htif : o.timeInForce = .gtc) :
    (b.addOrder o).GtcOnly := by
  intro s p l id o' hl hid ho'
  rw [orders_addOrder, OrdMap.get?_insert] at ho'
  split_ifs at ho' with heq
  · cases ho'
    exact htif
  · rw [level_addOrder] at hl
    split_ifs at hl with hsp
    · obtain rfl := Option.some.inj hl
      rw [hf.iter_pushedLevel, List.mem_append, List.mem_singleton] at hid
      have hid := hid.resolve_right heq
      cases hl' : b.level o.side o.price with
      | none => simp [hl'] at hid
      | some l =>
          rw [hl'] at hid
          exact h _ _ l id o' hl' hid ho'
    · exact h s p l id o' hl hid ho'

end OrderBook

namespace Exchange

variable {ex ex' : Exchange} {sub : Submission} {fuel : Nat} {r : SubmitResult}

/-- Every elementary transition keeps the book to GTC orders. -/
theorem Atom.gtcOnly {K : Op → Prop} {P : Exchange → Submission → Prop}
    {Q : Exchange → OrderId → Prop}
    (ha : Atom K P Q ex ex') (hw : ex.WF) (h : ex.book.GtcOnly) : ex'.book.GtcOnly := by
  cases ha with
  | lastPrice last => exact h
  | @submit _ _ sub _ _ hs =>
      have hin : (ex.incoming sub).2.GtcOnly := h.of_counters (ex.side_incoming sub) rfl
      rcases submit_cases hs with ⟨-, rfl, -⟩ | ⟨-, s, hm, rfl, -⟩
      · exact hin
      · have hmd := hw.matched hm
        have hbook := hin.shrinks (matchOrderWithPolicy_follows hm).1.book
        rcases settledBook_cases sub s with ⟨status, hb⟩ | ⟨-, -, htif, hb⟩
        · simp only [hb]
          exact hbook.store (o := { s.incoming with status := status }) hmd.fresh
        · simp only [hb]
          exact hbook.addOrder hmd.fresh (hmd.sameOrder.timeInForce.trans htif)
  | cancelOrder _ => exact h.shrinks (ex.book.shrinks_cancelOrder _)
  | stops _ => exact h
  | insertStop _ => exact h.of_counters (fun s ↦ by cases s <;> rfl) rfl
  | compact => exact h.shrinks ex.book.shrinks_compact
  | clearHistory => exact h.shrinks ex.book.shrinks_clearHistory
  | clearTrades => exact h

/-! ## Submissions -/

/-- An order that does not come to rest, because of its time in force or because self-trade
prevention cancels its remainder, is filled completely or not at all. -/
def Whole (ex : Exchange) (sub : Submission) : Prop :=
  sub.timeInForce ≠ .gtc ∨ (ex.walkOf sub).stp = true →
    (ex.walkOf sub).left = 0 ∨ (ex.walkOf sub).left = sub.quantity

/-- The invariant: the book is backed with exact totals, and what is active is queued. -/
structure Lively (ex : Exchange) : Prop where
  backed : ex.Backed
  exact : ∀ t, ex.book.Exact t
  covered : ex.book.Covered
  gtcOnly : ex.book.GtcOnly

theorem lively_create : create.Lively where
  backed := backed_create
  exact t p l hl := by cases t <;> cases hl
  covered id o ho := by cases ho
  gtcOnly s p l id o _ _ ho := by cases ho

/-- A match leaves no wanted order out of the queues, if only active orders are wanted. -/
theorem Backed.queues_match {wanted : Order → Prop} (hactive : ∀ o, wanted o → o.isActive = true)
    (h : ex.Backed) (hx : ∀ t, ex.book.Exact t) (hq : ex.book.Queues wanted) {s : MatchState}
    (hs : (ex.incoming sub).2.matchOrderWithPolicy fuel (ex.incoming sub).1 ex.stpPolicy = some s)
    (hm : Matches ex.stpPolicy (ex.entry sub) s) : s.book.Queues wanted := by
  have hwf := (h.wf.matched hs).wf
  have hst := h.stocked_match hm
  intro id o ho ha
  rcases sub.side.eq_or_eq_opposite o.side with hside | hside
  · -- the own side is as it was
    obtain ⟨o₀, ho₀, hsame, -⟩ := (matchOrderWithPolicy_follows hs).1.book.order id o ho
    have hkept := hm.untouched id o₀ ho₀ (hsame.side.symm.trans hside)
    obtain rfl : o₀ = o := Option.some.inj (hkept.symm.trans ho)
    obtain ⟨l, hl, hid⟩ := hq id o₀ ho₀ ha
    refine ⟨l, ?_, hid⟩
    have hown : s.book.side sub.side = ex.book.side sub.side :=
      hm.own.trans (ex.side_incoming sub sub.side)
    rw [hside] at hl ⊢
    rw [OrderBook.level, hown]
    exact hl
  · have hsound := (h.stocked sub.side.opposite).sound (hx _)
    have hagree : (ex.walkOf sub).Agrees (greedy ex.stpPolicy sub.owner sub.side sub.price
        (flatten (ex.book.resting sub.side.opposite)) sub.quantity) := by
      rw [walkOf_eq]
      exact walk_eq_greedy hsound _
    have hlists : Lists wanted (ex.entry sub).ledger.orders sub.side.opposite
        (flatten (ex.book.resting sub.side.opposite)) := by
      intro j o₁ ho₁ ha₁ hs₁
      obtain ⟨l, hl, hj⟩ := hq j o₁ ho₁ ha₁
      rw [hs₁] at hl
      exact (h.stocked _).mem_flatten hl hj ho₁
    have hids : ∀ j o₁, (ex.entry sub).ledger.orders.get? j = some o₁ → o₁.id = j :=
      fun j o₁ ho₁ ↦ (h.wf.book.stored j o₁ ho₁).1
    have horders : s.book.orders =
        ((ex.entry sub).ledger.acts (ex.walkOf sub).actions).orders := by
      have hl := congrArg Ledger.orders hm.ledger
      split_ifs at hl <;> exact hl
    have hrest : Lists wanted ((ex.entry sub).ledger.acts (greedy ex.stpPolicy sub.owner sub.side
        sub.price (flatten (ex.book.resting sub.side.opposite)) sub.quantity).actions).orders
          sub.side.opposite (greedy ex.stpPolicy sub.owner sub.side sub.price
            (flatten (ex.book.resting sub.side.opposite)) sub.quantity).rest :=
      greedy_lists hactive hids hlists
    rw [← hagree.actions, ← hagree.rest, ← horders] at hrest
    have hmem := hrest id o ho ha hside
    rw [← show s.book.resting sub.side.opposite = (ex.walkOf sub).rest from hm.resting] at hmem
    obtain ⟨l, hl, hid, -⟩ := (hst _).of_mem_flatten hmem
    rw [(hwf.stored id o ho).1] at hid
    exact ⟨l, by rwa [hside], hid⟩

section Match

variable {s : MatchState} (h : ex.Lively)
  (hs : (ex.incoming sub).2.matchOrderWithPolicy fuel (ex.incoming sub).1 ex.stpPolicy = some s)
  (hm : Matches ex.stpPolicy (ex.entry sub) s)

include h hs hm

/-- A match leaves nothing active that is not queued. -/
theorem Lively.covered_match : s.book.Covered :=
  h.backed.queues_match (fun _ ha ↦ ha) h.exact h.covered hs hm

/-- An order that comes to rest is queued, and one that does not is stored as no longer active. -/
theorem Lively.covered_settle (hwhole : ex.Whole sub) : (settledBook sub s).Covered := by
  have hcov := h.covered_match hs hm
  have hmd := h.backed.wf.matched hs
  have hfilled := filledQuantity_add_left hm
  have hidle : (ex.walkOf sub).left = sub.quantity → leftStatus .cancelled s = .cancelled := by
    intro hleft
    rw [leftStatus, if_neg]
    lia
  have hstore : ∀ status : OrderStatus, status.isActive = false →
      ({ s.book with
        orders := s.book.orders.insert s.incoming.id
          { s.incoming with status := status } } : OrderBook).Covered :=
    fun status ha ↦ OrderBook.Queues.store (o := { s.incoming with status := status }) hcov
      (by simpa [Order.isActive] using ha)
  simp only [settledBook]
  split_ifs with hstp hrem htif
  · have hwstp : (ex.walkOf sub).stp = true := hm.stp.symm.trans hstp
    have hne : (ex.walkOf sub).left ≠ 0 := left_ne_zero_of_stp hwstp
    refine hstore _ ?_
    rw [hidle ((hwhole (.inr hwstp)).resolve_left hne)]
    rfl
  · exact hstore .filled rfl
  · exact OrderBook.Queues.addOrder hcov hmd.fresh
  · have hleft := Matches.remainingQuantity_eq hm (by simpa using hstp)
    refine hstore _ ?_
    rw [hidle ((hwhole (.inl htif)).resolve_left fun h0 ↦ hrem (hleft.trans h0))]
    rfl

end Match

theorem Lively.covered_submit (h : ex.Lively) (ht : ex.Sure sub)
    (hwhole : ex.rejectsFok sub = false → ex.Whole sub)
    (hs : ex.submitLimitInternalWithOwner fuel sub = some (ex', r)) : ex'.book.Covered := by
  rcases submit_cases hs with ⟨-, rfl, -⟩ | ⟨hrej, s, hm, rfl, -⟩
  · exact OrderBook.Queues.of_counters h.covered (ex.side_incoming sub) rfl
  · exact h.covered_settle hm (h.backed.isWalk (ht hrej) hm) (hwhole hrej)

/-! ## Runs -/

/-- Every cancellation of an operation hits, every order it adds to a level fits into the level's
total, and none that does not come to rest is filled in part. -/
structure Clean (ex : Exchange) (op : Op) : Prop where
  keepsTotals : ex.KeepsTotals op
  whole : ∀ fuel ex' sub, ex.Calls fuel op ex' sub → ex'.rejectsFok sub = false → ex'.Whole sub

/-- What a clean operation guarantees of its submissions. -/
def CleanCall (ex : Exchange) (sub : Submission) : Prop :=
  (ex.Sure sub ∧ (ex.rejectsFok sub = false → ex.Room sub)) ∧
    (ex.rejectsFok sub = false → ex.Whole sub)

theorem Atom.lively (ha : Atom (fun _ ↦ True) CleanCall (fun ex id ↦ ex.book.Targets id) ex ex')
    (h : ex.Lively) :
    ex'.Lively where
  backed := ha.backed (fun _ _ hp ↦ hp.1.1) (fun _ _ hq ↦ hq) h.backed
  exact := ha.exact (fun _ _ hp ↦ hp.1) (fun _ _ hq ↦ hq) h.backed h.exact
  gtcOnly := ha.gtcOnly h.backed.wf h.gtcOnly
  covered := by
    cases ha with
    | lastPrice last => exact h.covered
    | submit hp hs => exact h.covered_submit hp.1.1 hp.2 hs
    | cancelOrder hq =>
        exact h.covered.cancelOrder h.backed.wf.book h.backed.stocked h.exact hq
    | stops _ => exact h.covered
    | insertStop _ => exact OrderBook.Queues.of_counters h.covered (fun s ↦ by cases s <;> rfl) rfl
    | compact => exact OrderBook.Queues.compact h.covered
    | clearHistory => exact h.covered.clearHistory
    | clearTrades => exact h.covered

theorem Step.lively {op : Op} (hs : ex.Step op ex') (hc : ex.Clean op) (h : ex.Lively) :
    ex'.Lively := by
  obtain ⟨fuel, hs⟩ := hs
  by_cases hop : ∃ policy, op = .setStpPolicy policy
  · obtain ⟨policy, rfl⟩ := hop
    obtain rfl := Option.some.inj hs
    exact ⟨h.backed.of_book rfl rfl, h.exact, h.covered, h.gtcOnly⟩
  · have hlog : (ex.logged op).Lively := by
      obtain ⟨events, hlog⟩ := ex.logged_eq op
      rw [hlog]
      exact ⟨h.backed.of_book rfl rfl, h.exact, h.covered, h.gtcOnly⟩
    have hpath :=
      perform_path (K := fun _ ↦ True) (P := CleanCall) (Q := fun ex id ↦ ex.book.Targets id)
      (fun policy hp ↦ hop ⟨policy, hp⟩) trivial (fun ex' sub hcalls ↦
        ⟨⟨hc.keepsTotals.hits.sure hcalls, hc.keepsTotals.room fuel ex' sub hcalls⟩,
          hc.whole fuel ex' sub hcalls⟩)
      (fun _ hid ↦ hc.keepsTotals.hits.targets_logged hid) hs
    clear hs
    induction hpath with
    | refl => exact hlog
    | tail _ hlast ih => exact hlast.lively ih

/-- Cancelling or modifying an order that is not active is refused and leaves the exchange alone but
for the event. -/
theorem refused_of_inactive (hw : ex.WF) {id : OrderId} {o : Order}
    (ho : ex.book.orders.get? id = some o) (ha : o.isActive = false) :
    ex.cancel id = (ex.record (.cancel id), .failure .orderNotActive) ∧
      ∀ fuel p q, q ≠ 0 → ex.modify fuel id p q =
        some (ex.record (.modify id p q), .failure id .orderNotActive) := by
  have hp : (ex.record (.cancel id)).stopBook.containsPending id = false :=
    hw.containsPending_eq_false ho
  constructor
  · have ho' : (ex.record (.cancel id)).book.getOrder id = some o := ho
    simp only [cancel, cancelInternal, hp, ho', ha]
    rfl
  · intro fuel p q hq
    have ho' : (ex.record (.modify id p q)).book.getOrder id = some o := ho
    simp only [modify, modifyInternal, hq, if_false, ho', ha]
    rfl

/-- After a clean run an order is active exactly if it is queued, once, at its side and price, which
is nowhere else; an order that is not GTC is not active; and an order that is not active can be
neither cancelled nor modified. -/
theorem active_iff_queued_of_run (h : Run Clean create ex) {id : OrderId} {o : Order}
    (ho : ex.book.orders.get? id = some o) :
    (o.isActive = true ↔ ∃ l, ex.book.level o.side o.price = some l ∧ l.iter.count id = 1) ∧
      (∀ s p l, ex.book.level s p = some l → id ∈ l.iter → s = o.side ∧ p = o.price) ∧
      (o.timeInForce ≠ .gtc → o.isActive = false) ∧
      (o.isActive = false → ex.cancel id = (ex.record (.cancel id), .failure .orderNotActive) ∧
        ∀ fuel p q, q ≠ 0 → ex.modify fuel id p q =
          some (ex.record (.modify id p q), .failure id .orderNotActive)) := by
  have hl : ex.Lively := Run.invariant (I := Lively) (fun _ _ _ hc hl hs ↦ hs.lively hc hl) h
    lively_create
  have hwf := hl.backed.wf
  refine ⟨⟨fun ha ↦ ?_, ?_⟩, fun s p l hlv hid ↦ ?_, fun htif ↦ ?_, refused_of_inactive hwf ho⟩
  · obtain ⟨l, hlv, hid⟩ := hl.covered id o ho ha
    exact ⟨l, hlv, List.count_eq_one_of_mem (hwf.book.level _ _ l hlv).2.2 hid⟩
  · rintro ⟨l, hlv, hcount⟩
    have hid : id ∈ l.iter := List.count_pos_iff.mp (by lia)
    obtain ⟨o', ho', -, -, -, hr⟩ := ((hl.backed.stocked _).level _ l hlv).order id hid
    obtain rfl : o' = o := Option.some.inj (ho'.symm.trans ho)
    exact ((hwf.book.queued _ _ l id hlv hid).2 o' ho).2.2.mpr hr
  · obtain ⟨hs, hp, -⟩ := (hwf.book.queued s p l id hlv hid).2 o ho
    exact ⟨hs.symm, hp.symm⟩
  · cases ha : o.isActive with
    | false => rfl
    | true =>
        obtain ⟨l, hlv, hid⟩ := hl.covered id o ho ha
        exact absurd (hl.gtcOnly _ _ l id o hlv hid ho) htif

/-! ### Concrete runs -/

theorem clean_of_no_stops {op : Op} (hcall : ex.directCall op = some (ex.logged op, sub))
    (hstop : ex.newStop op = none) (hstops : ex.stopBook = StopBook.create)
    (hkeeps : ex.KeepsTotals op) (hwhole : ex.Whole sub) : ex.Clean op := by
  refine ⟨hkeeps, fun fuel ex' sub' hcalls _ ↦ ?_⟩
  obtain ⟨rfl, rfl⟩ := calls_of_no_stops hcall hstop hstops hcalls
  obtain ⟨events, hlog⟩ := ex.logged_eq op
  rw [hlog]
  exact hwhole

/-- An IOC buy that fills completely against the first of two sells: it is stored as filled, and the
second sell is the one order that is active. -/
theorem active_iff_queued_of_run_ioc :
    ∃ ex, performAll 5 create [.submitLimit .sell 100 10 .gtc, .submitLimit .sell 100 20 .gtc,
        .submitLimit .buy 100 10 .ioc] = some ex ∧
      (∃ o, ex.book.orders.get? 2 = some o ∧ o.isActive = true ∧
        ∃ l, ex.book.level .sell 100 = some l ∧ l.iter.count 2 = 1) ∧
      ∃ o, ex.book.orders.get? 3 = some o ∧ o.isActive = false ∧
        ex.cancel 3 = (ex.record (.cancel 3), .failure .orderNotActive) := by
  obtain ⟨ex₁, hex₁⟩ : ∃ ex, performAll 5 create [.submitLimit .sell 100 10 .gtc] = some ex :=
    ⟨_, rfl⟩
  obtain ⟨ex₂, hex₂⟩ : ∃ ex, performAll 5 create [.submitLimit .sell 100 10 .gtc,
      .submitLimit .sell 100 20 .gtc] = some ex := ⟨_, rfl⟩
  obtain ⟨ex, hex⟩ : ∃ ex, performAll 5 create [.submitLimit .sell 100 10 .gtc,
      .submitLimit .sell 100 20 .gtc, .submitLimit .buy 100 10 .ioc] = some ex := ⟨_, rfl⟩
  have hsell₁ : create.Clean (.submitLimit .sell 100 10 .gtc) :=
    clean_of_no_stops rfl rfl rfl
      (keepsTotals_of_no_stops rfl rfl rfl rfl (fun _ ↦ onTarget_of_owner_none rfl)
        (fun _ _ _ ↦ by decide))
      (fun _ ↦ .inr rfl)
  have hsell₂ : ex₁.Clean (.submitLimit .sell 100 20 .gtc) :=
    clean_of_no_stops rfl rfl (observe hex₁ stopBook rfl)
      (keepsTotals_of_no_stops rfl rfl (observe hex₁ stopBook rfl) rfl
        (fun _ ↦ onTarget_of_owner_none rfl)
        (room_of_totalAt (observe hex₁ (fun ex ↦ ex.book.totalAt .sell 100) (a := 10) rfl)
          (observe hex₁ (fun ex ↦ (ex.walkOf ⟨.sell, 100, 20, .gtc, none⟩).left) (a := 20) rfl)
          (by decide)))
      (fun _ ↦ .inr (observe hex₁ (fun ex ↦ (ex.walkOf ⟨.sell, 100, 20, .gtc, none⟩).left) rfl))
  have hbuy : ex₂.Clean (.submitLimit .buy 100 10 .ioc) :=
    clean_of_no_stops rfl rfl (observe hex₂ stopBook rfl)
      (keepsTotals_of_no_stops rfl rfl (observe hex₂ stopBook rfl) rfl
        (fun _ ↦ onTarget_of_owner_none rfl) (fun htif ↦ by cases htif))
      (fun _ ↦ .inl (observe hex₂ (fun ex ↦ (ex.walkOf ⟨.buy, 100, 10, .ioc, none⟩).left) rfl))
  have hrun₁ : Run Clean create ex₁ :=
    Run.concat .refl (rfl : performAll 5 create [] = some create) hsell₁ hex₁
  have hrun₂ : Run Clean create ex₂ := Run.concat hrun₁ hex₁ hsell₂ hex₂
  have hrun : Run Clean create ex := Run.concat hrun₂ hex₂ hbuy hex
  have ho₂ := observe hex (fun ex ↦ ex.book.orders.get? 2)
    (a := some ⟨2, .sell, 100, 20, 20, 0, 2, .gtc, .new, none, 1⟩) rfl
  have ho₃ := observe hex (fun ex ↦ ex.book.orders.get? 3)
    (a := some ⟨3, .buy, 100, 10, 0, 10, 3, .ioc, .filled, none, 0⟩) rfl
  exact ⟨ex, hex, ⟨_, ho₂, rfl, (active_iff_queued_of_run hrun ho₂).1.mp rfl⟩,
    ⟨_, ho₃, rfl, ((active_iff_queued_of_run hrun ho₃).2.2.2 rfl).1⟩⟩

/-- An IOC buy of 10 fills 5 and is done, but is stored as `PartiallyFilled`: it is active, queued
nowhere, and a later cancellation of it succeeds. -/
theorem ioc_left_active :
    ∃ ex o, performAll 5 create [.submitLimit .sell 100 5 .gtc, .submitLimit .buy 100 10 .ioc] =
        some ex ∧ Reachable ex ∧ ex.book.orders.get? 2 = some o ∧ o.timeInForce = .ioc ∧
      o.isActive = true ∧ ex.book.level .buy 100 = none ∧ (ex.cancel 2).2 = .succeeded 5 ∧
      ¬ (o.isActive = true ↔ ∃ l, ex.book.level o.side o.price = some l ∧ l.iter.count 2 = 1) := by
  obtain ⟨ex, hex⟩ : ∃ ex, performAll 5 create [.submitLimit .sell 100 5 .gtc,
      .submitLimit .buy 100 10 .ioc] = some ex := ⟨_, rfl⟩
  have ho := observe hex (fun ex ↦ ex.book.orders.get? 2)
    (a := some ⟨2, .buy, 100, 10, 5, 5, 2, .ioc, .partiallyFilled, none, 0⟩) rfl
  have hl := observe hex (fun ex ↦ ex.book.level .buy 100) (a := none) rfl
  have hc := observe hex (fun ex ↦ (ex.cancel 2).2) (a := .succeeded 5) rfl
  refine ⟨ex, _, hex, reachable_of_performAll hex, ho, rfl, rfl, hl, hc, fun hiff ↦ ?_⟩
  obtain ⟨l, hl', -⟩ := hiff.mp rfl
  rw [hl] at hl'
  cases hl'

end Exchange

end Nanobook
