import Nanobook.Market

/-!
# Cancelling in the market

A cancellation takes the orders of an id off every queue and drops the levels nothing is left of.
On a backed book with exact totals, and as long as no slot of another order is overwritten,
`cancel_order` does that to the market (`OrderBook.market_cancelOrder`), and the order it looks up
in its table is the one the market finds in its queues.
-/

namespace Nanobook

namespace RestingLevel

/-- The level without the orders of an id. -/
def without (id : OrderId) (level : RestingLevel) : RestingLevel :=
  let queue := level.queue.filter fun o ↦ o.id ≠ id
  ⟨level.price, remainingSum queue, queue⟩

@[simp] theorem without_price (id : OrderId) (level : RestingLevel) :
    (level.without id).price = level.price := rfl

/-- A level that the id is not queued at, and whose total is right. -/
theorem without_of_notMem {id : OrderId} {level : RestingLevel}
    (hout : ∀ o ∈ level.queue, o.id ≠ id) (htotal : level.total = remainingSum level.queue) :
    level.without id = level := by
  have hqueue : (level.queue.filter fun o ↦ decide (o.id ≠ id)) = level.queue :=
    List.filter_eq_self.mpr fun o ho ↦ decide_eq_true (hout o ho)
  simp only [without, hqueue, ← htotal]

end RestingLevel

/-- A side once the orders of an id have left it. -/
def withdraw (id : OrderId) (levels : List RestingLevel) : List RestingLevel :=
  (levels.map (RestingLevel.without id)).filter fun level ↦ !level.queue.isEmpty

section Sides

variable {s : Side} {id : OrderId} {levels : List RestingLevel}

theorem Sorted.withdraw (h : Sorted s levels) (id : OrderId) : Sorted s (withdraw id levels) :=
  List.Pairwise.filter _ (List.pairwise_map.mpr h)

/-- The level at a price once an order has been withdrawn. -/
theorem Sorted.levelAt_withdraw (h : Sorted s levels) (id : OrderId) (p : Price) :
    levelAt p (Nanobook.withdraw id levels) =
      ((levelAt p levels).map (RestingLevel.without id)).filter fun level ↦
        !level.queue.isEmpty := by
  induction levels with
  | nil => rfl
  | cons head tail ih =>
      obtain ⟨hhead, htail⟩ := List.pairwise_cons.mp h
      rw [Nanobook.withdraw, List.map_cons, List.filter_cons, levelAt_cons]
      by_cases hp : head.price = p
      · -- no other level has this price
        have hnone : levelAt p (Nanobook.withdraw id tail) = none := by
          rw [ih htail, levelAt_eq_none fun level hl heq ↦ (hhead level hl).ne (hp.trans heq.symm)]
          rfl
        rw [if_pos hp, Option.map_some, Option.filter_some]
        split_ifs with hq
        · rw [levelAt_cons, RestingLevel.without_price, if_pos hp]
        · exact hnone
      · rw [if_neg hp, ← ih htail]
        split_ifs with hq
        · rw [levelAt_cons, RestingLevel.without_price, if_neg hp]
          rfl
        · rfl

end Sides

namespace Market

variable (m : Market)

/-- The market once the orders of an id have left it. -/
def cancel (id : OrderId) : Market :=
  { m with levels := fun s ↦ withdraw id (m.levels s) }

/-- The order queued under an id. -/
def order? (id : OrderId) : Option Order :=
  (flatten (m.levels .buy) ++ flatten (m.levels .sell)).find? fun o ↦ o.id = id

theorem levels_cancel (id : OrderId) (s : Side) :
    (m.cancel id).levels s = withdraw id (m.levels s) := rfl

end Market

namespace OrderBook

variable {b : OrderBook} {s : Side} {id : OrderId} {o : Order} {p : Price} {l : Level}

/-- The level a side shows at a price, without slots. -/
def shownAt (orders : OrdMap OrderId Order) (p : Price) (l : Level) : RestingLevel :=
  ⟨p, l.totalQuantity, shownQueue orders l⟩

theorem levelAt_market (hs : (b.side s).side = s) (p : Price) :
    levelAt p (b.market.levels s) = (b.level s p).map (shownAt b.orders p) := by
  rw [levels_market, levelAt_resting hs, get?_shown, Option.map_map]
  rfl

theorem remainingSum_unplaced (os : List Order) :
    remainingSum (os.map Order.unplaced) = remainingSum os := by
  rw [remainingSum, List.map_map]
  rfl

/-- What is queued at a level is listed under the ids of the level. -/
theorem Stocked.id_mem_of_shown (h : b.Stocked s) (hl : b.level s p = some l)
    (ho : o ∈ shownQueue b.orders l) : o.id ∈ l.iter ∧
      ∃ o', b.orders.get? o.id = some o' ∧ o'.unplaced = o := by
  obtain ⟨o', ho', rfl⟩ := List.mem_map.mp ho
  obtain ⟨hid, hget, -⟩ := h.of_mem_queue hl ho'
  exact ⟨hid, o', hget, rfl⟩

/-- An order that is not queued at a level leaves it alone. -/
theorem Stocked.without_shownAt (h : b.Stocked s) (hx : b.Exact s) (hl : b.level s p = some l)
    (hid : id ∉ l.iter) :
    (((some (shownAt b.orders p l)).map (RestingLevel.without id)).filter fun level ↦
      !level.queue.isEmpty) = some (shownAt b.orders p l) := by
  have hne : shownQueue b.orders l ≠ [] := by
    have := h.queue_ne_nil (mem_resting.mpr ⟨p, l, hl, rfl⟩)
    simpa [shownQueue] using this
  have hsame : (shownAt b.orders p l).without id = shownAt b.orders p l := by
    refine RestingLevel.without_of_notMem (fun o ho heq ↦ hid ?_) ?_
    · exact heq ▸ (h.id_mem_of_shown hl ho).1
    · exact (hx p l hl).trans (remainingSum_unplaced _).symm
  rw [Option.map_some, hsame, Option.filter_some, if_pos]
  simpa [shownAt] using hne

/-- The stored orders of all ids but one. -/
theorem ordersOf_filter {orders : OrdMap OrderId Order} {ids : List OrderId}
    (hself : ∀ j ∈ ids, ∀ o, orders.get? j = some o → o.id = j) (id : OrderId) :
    ordersOf orders (ids.filter fun j ↦ j ≠ id) =
      (ordersOf orders ids).filter fun o ↦ o.id ≠ id := by
  induction ids with
  | nil => rfl
  | cons j ids ih =>
      have hrest := ih fun k hk ↦ hself k (List.mem_cons_of_mem _ hk)
      cases ho : orders.get? j with
      | none =>
          have hcons : ordersOf orders (j :: ids) = ordersOf orders ids := by simp [ordersOf, ho]
          rw [hcons, ← hrest, List.filter_cons]
          split_ifs
          · simp [ordersOf, ho]
          · rfl
      | some o =>
          have hid : o.id = j := hself j List.mem_cons_self o ho
          rw [ordersOf_cons ho, List.filter_cons, List.filter_cons, hid]
          split_ifs
          · rw [ordersOf_cons ho, hrest]
          · exact hrest

/-- A level that loses an order loses it from its queue. -/
theorem Stocked.without_of_mem (h : b.Stocked s) (hl : b.level s p = some l) (o' : Order) :
    (shownAt b.orders p l).without id = ⟨p, remainingSum (ordersOf b.orders (l.iter.erase id)),
      (ordersOf (b.orders.insert id o') (l.iter.erase id)).map Order.unplaced⟩ := by
  have hst := h.level p l hl
  have hfilter : (shownQueue b.orders l).filter (fun x ↦ decide (x.id ≠ id)) =
      (ordersOf b.orders (l.iter.erase id)).map Order.unplaced := by
    have hself : ∀ j ∈ l.iter, ∀ o, b.orders.get? j = some o → o.id = j := fun j hj o ho ↦ by
      obtain ⟨o₁, ho₁, hid, -⟩ := hst.order j hj
      rw [ho] at ho₁
      cases ho₁
      exact hid
    have herase : l.iter.erase id = l.iter.filter fun j ↦ decide (j ≠ id) := by
      rw [hst.nodup.erase_eq_filter]
      exact List.filter_congr fun j _ ↦ by rw [bne, decide_not]; rfl
    rw [herase, ordersOf_filter hself, shownQueue, List.filter_map]
    rfl
  have hrest : ordersOf (b.orders.insert id o') (l.iter.erase id) =
      ordersOf b.orders (l.iter.erase id) := ordersOf_insert hst.nodup.not_mem_erase o'
  rw [RestingLevel.without, shownAt]
  dsimp only
  rw [hfilter, hrest, remainingSum_unplaced]

/-- Something is left of a queue of stored orders exactly if it is not empty. -/
theorem remainingSum_ordersOf {orders : OrdMap OrderId Order} {ids : List OrderId}
    (hpos : ∀ j ∈ ids, ∃ o, orders.get? j = some o ∧ 0 < o.remainingQuantity) :
    remainingSum (ordersOf orders ids) = 0 ↔ ordersOf orders ids = [] := by
  cases ids with
  | nil => exact iff_of_true rfl rfl
  | cons j ids =>
      obtain ⟨o, ho, hr⟩ := hpos j List.mem_cons_self
      rw [ordersOf_cons ho, remainingSum_cons]
      exact iff_of_false (by lia) (List.cons_ne_nil _ _)

section Cancel

variable (hw : b.WF) (h : b.Stocked s) (hx : b.Exact s)

include hw h hx

/-- A level once an active order was cancelled that is queued there: it loses that order, and is
dropped with its last one. -/
theorem shownAt_cancelOrder_of_mem (ht : b.Targets id) (ho : b.orders.get? id = some o)
    (ha : o.isActive = true) (hl : b.level s p = some l) (hid : id ∈ l.iter) :
    ((b.cancelOrder id).1.level s p).map (shownAt (b.cancelOrder id).1.orders p) =
      ((some (shownAt b.orders p l)).map (RestingLevel.without id)).filter fun level ↦
        !level.queue.isEmpty := by
  have hst := h.level p l hl
  have hpos : id ≠ 0 := Nat.pos_iff_ne_zero.mp (hw.stored id o ho).2.1
  obtain ⟨hs, hp⟩ : s = o.side ∧ p = o.price := by
    obtain ⟨o', ho', -, hs, hp, -⟩ := hst.order id hid
    rw [ho] at ho'
    cases ho'
    exact ⟨hs.symm, hp.symm⟩
  have hslot : l.orders[o.positionInLevel]? = some id :=
    (ht o ho ha l (hs ▸ hp ▸ hl)).resolve_right fun hout ↦ hout.1 hid
  have hiter := Level.iter_markTombstone hslot hpos hst.nodup o.remainingQuantity
  have htotal : (l.markTombstone o.positionInLevel o.remainingQuantity).totalQuantity =
      remainingSum (ordersOf b.orders (l.iter.erase id)) := by
    rw [Level.markTombstone_of_slot hslot hpos]
    have hsum := remainingSum_erase hid ho
    have hexact := hx p l hl
    dsimp only
    lia
  have hrest : ∀ j ∈ l.iter.erase id, ∃ o', (b.orders.insert id o.cancel).get? j = some o' ∧
      0 < o'.remainingQuantity := fun j hj ↦ by
    obtain ⟨o', ho', -, -, -, hr⟩ := hst.order j (List.mem_of_mem_erase hj)
    refine ⟨o', ?_, hr⟩
    rw [OrdMap.get?_insert, if_neg (ne_of_mem_of_not_mem hj hst.nodup.not_mem_erase)]
    exact ho'
  have hqueue : ordersOf (b.orders.insert id o.cancel) (l.iter.erase id) =
      ordersOf b.orders (l.iter.erase id) := ordersOf_insert hst.nodup.not_mem_erase _
  have hempty : (l.markTombstone o.positionInLevel o.remainingQuantity).isEmpty =
      (ordersOf (b.orders.insert id o.cancel) (l.iter.erase id)).isEmpty := by
    rw [Bool.eq_iff_iff, List.isEmpty_iff, ← remainingSum_ordersOf hrest, hqueue, ← htotal]
    simp [Level.isEmpty]
  rw [level_cancelOrder ho ha, if_pos ⟨hs, hp⟩, hl, Option.map_some, Option.map_some,
    h.without_of_mem hl o.cancel, Option.filter_some, Option.filter_some, hempty,
    orders_cancelOrder ho ha, List.isEmpty_map]
  split_ifs
  · rw [Option.map_some, shownAt, shownQueue, hiter, htotal]
  · rfl

/-- A level that a cancelled order is not queued at shows the same. -/
theorem shownAt_cancelOrder_of_notMem (ht : b.Targets id) (ho : b.orders.get? id = some o)
    (ha : o.isActive = true) (hl : b.level s p = some l) (hid : id ∉ l.iter) :
    ((b.cancelOrder id).1.level s p).map (shownAt (b.cancelOrder id).1.orders p) =
      some (shownAt b.orders p l) := by
  have hlevel : (b.cancelOrder id).1.level s p = some l := by
    rw [level_cancelOrder ho ha]
    split_ifs with hsp
    · obtain ⟨rfl, rfl⟩ := hsp
      have hpos : id ≠ 0 := Nat.pos_iff_ne_zero.mp (hw.stored id o ho).2.1
      have hdead : ∀ j, l.orders[o.positionInLevel]? = some j → j = 0 := by
        refine ((ht o ho ha l hl).resolve_left fun hslot ↦ hid ?_).2
        exact Level.mem_iter.mpr ⟨List.mem_of_getElem? hslot, hpos⟩
      have hst := h.level _ l hl
      have hne : l.totalQuantity ≠ 0 := by
        rw [hx _ l hl, Ne, remainingSum_ordersOf fun j hj ↦ ?_]
        · exact h.queue_ne_nil (mem_resting.mpr ⟨_, l, hl, rfl⟩)
        · obtain ⟨o', ho', -, -, -, hr⟩ := hst.order j hj
          exact ⟨o', ho', hr⟩
      rw [hl, Option.map_some, Level.markTombstone_of_dead hdead, Option.filter_some, if_pos]
      simpa [Level.isEmpty] using hne
    · exact hl
  rw [hlevel, Option.map_some, shownAt, shownAt, shownQueue, shownQueue, orders_cancelOrder ho ha,
    ordersOf_insert hid]

/-- What a side shows at a price after a cancellation. -/
theorem shownAt_cancelOrder (ht : b.Targets id) (p : Price) :
    ((b.cancelOrder id).1.level s p).map (shownAt (b.cancelOrder id).1.orders p) =
      (((b.level s p).map (shownAt b.orders p)).map (RestingLevel.without id)).filter fun level ↦
        !level.queue.isEmpty := by
  by_cases hact : ∃ o, b.orders.get? id = some o ∧ o.isActive = true
  · obtain ⟨o, ho, ha⟩ := hact
    cases hl : b.level s p with
    | none =>
        rw [level_cancelOrder ho ha, hl]
        split_ifs <;> rfl
    | some l =>
        by_cases hid : id ∈ l.iter
        · exact shownAt_cancelOrder_of_mem hw h hx ht ho ha hl hid
        · rw [shownAt_cancelOrder_of_notMem hw h hx ht ho ha hl hid, Option.map_some,
            h.without_shownAt hx hl hid]
  · -- what is queued is active, so the order is queued nowhere
    have hinactive : ∀ o, b.orders.get? id = some o → o.isActive = false := fun o ho ↦ by
      simpa using fun ha ↦ hact ⟨o, ho, ha⟩
    rw [cancelOrder_of_inactive hinactive]
    cases hl : b.level s p with
    | none => rfl
    | some l =>
        have hid : id ∉ l.iter := fun hid ↦ by
          obtain ⟨o, ho, -, -, -, hr⟩ := (h.level p l hl).order id hid
          have ha := (((hw.queued s p l id hl hid).2 o ho).2.2).mpr hr
          rw [hinactive o ho] at ha
          cases ha
        rw [Option.map_some, h.without_shownAt hx hl hid]

end Cancel

theorem nextOrderId_cancelOrder (b : OrderBook) (id : OrderId) :
    (b.cancelOrder id).1.nextOrderId = b.nextOrderId := by
  by_cases hact : ∃ o, b.orders.get? id = some o ∧ o.isActive = true
  · obtain ⟨o, ho, ha⟩ := hact
    rw [cancelOrder_of_active ho ha, nextOrderId_updateSide]
  · rw [cancelOrder_of_inactive fun o ho ↦ by simpa using fun ha ↦ hact ⟨o, ho, ha⟩]

/-- A cancellation that overwrites no slot of another order does to the market what it is for. -/
theorem market_cancelOrder (hw : b.WF) (hst : ∀ s, b.Stocked s) (hx : ∀ s, b.Exact s)
    (ht : b.Targets id) : (b.cancelOrder id).1.market = b.market.cancel id := by
  refine Market.ext (funext fun s ↦ ?_) (nextOrderId_cancelOrder b id) (clock_cancelOrder b id).1
    (clock_cancelOrder b id).2
  have hsorted : Sorted s (b.market.levels s) := sorted_unplaced.mpr (sorted_resting (hst s).side)
  have hst' := (hst s).cancelOrder hw ht
  have hsorted' : Sorted s ((b.cancelOrder id).1.market.levels s) :=
    sorted_unplaced.mpr (sorted_resting hst'.side)
  refine hsorted'.ext (hsorted.withdraw id) fun p ↦ ?_
  rw [Market.levels_cancel, hsorted.levelAt_withdraw, levelAt_market (hst s).side,
    levelAt_market hst'.side, shownAt_cancelOrder hw (hst s) (hx s) ht]

/-! ## Looking an order up -/

/-- The queues of the market are those of the book, without slots. -/
theorem mem_flatten_market : o ∈ flatten (b.market.levels s) ↔
    ∃ o' ∈ flatten (b.resting s), o'.unplaced = o := by
  simp only [flatten, levels_market, List.mem_flatMap, List.mem_map]
  constructor
  · rintro ⟨level, ⟨level', hl, rfl⟩, ho⟩
    obtain ⟨o', ho', rfl⟩ := List.mem_map.mp ho
    exact ⟨o', ⟨level', hl, ho'⟩, rfl⟩
  · rintro ⟨o', ⟨level, hl, ho'⟩, rfl⟩
    exact ⟨level.unplaced, ⟨level, hl, rfl⟩, List.mem_map_of_mem ho'⟩

/-- What the market finds under an id is the order stored there, which is queued and active. -/
theorem stored_of_order? (hw : b.WF) (hst : ∀ s, b.Stocked s) (h : b.market.order? id = some o) :
    ∃ o', b.orders.get? id = some o' ∧ o'.isActive = true ∧ o'.unplaced = o := by
  have hid : o.id = id := by simpa using List.find?_some h
  have hmem : ∃ s, o ∈ flatten (b.market.levels s) := by
    rcases List.mem_append.mp (List.mem_of_find?_eq_some h) with hb | hs
    · exact ⟨.buy, hb⟩
    · exact ⟨.sell, hs⟩
  obtain ⟨s, hs⟩ := hmem
  obtain ⟨o', ho', rfl⟩ := mem_flatten_market.mp hs
  obtain ⟨l, hl, hin, hget, hside, hr⟩ := (hst s).of_mem_flatten ho'
  have ha : o'.isActive = true := (((hw.queued s _ l _ hl hin).2 o' hget).2.2).mpr hr
  exact ⟨o', hid ▸ hget, ha, rfl⟩

/-- An order that is stored and queued is what the market finds. -/
theorem order?_of_queued (hw : b.WF) (hst : ∀ s, b.Stocked s) (ho : b.orders.get? id = some o)
    (hl : b.level s p = some l) (hid : id ∈ l.iter) : b.market.order? id = some o.unplaced := by
  have hself : o.id = id := (hw.stored id o ho).1
  have hflat : o.unplaced ∈ flatten (b.market.levels s) :=
    mem_flatten_market.mpr ⟨o, (hst s).mem_flatten hl hid ho, rfl⟩
  have hin : o.unplaced ∈ flatten (b.market.levels .buy) ++ flatten (b.market.levels .sell) := by
    cases s with
    | buy => exact List.mem_append_left _ hflat
    | sell => exact List.mem_append_right _ hflat
  cases hfind : b.market.order? id with
  | none =>
      have hnot := List.find?_eq_none.mp hfind o.unplaced hin
      exact absurd (decide_eq_true hself) hnot
  | some o' =>
      obtain ⟨o₁, ho₁, -, rfl⟩ := stored_of_order? hw hst hfind
      rw [ho] at ho₁
      cases ho₁
      rfl

end OrderBook

end Nanobook
