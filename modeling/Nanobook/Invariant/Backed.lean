import Nanobook.Refinement
import Nanobook.Invariant.Exchange

/-!
# Books that can be matched against

`OrderBook.Stocked` and `OrderBook.Exact` through every operation on a book.  Cancelling is the one
operation that may break them, and does so when it overwrites the slot of another order, or no slot
at all: `OrderBook.Targets` says that it does not.  Adding an order breaks `Exact` only where the
level's total saturates.
-/

namespace Nanobook

namespace OrderBook

variable {b b' : OrderBook} {s : Side} {id : OrderId} {o : Order}

/-! ## Exact totals -/

/-- The cached total of every level is the sum of the quantities queued there. -/
def Exact (b : OrderBook) (s : Side) : Prop :=
  ∀ p l, b.level s p = some l → l.totalQuantity = remainingSum (ordersOf b.orders l.iter)

theorem mem_resting {level : RestingLevel} : level ∈ b.resting s ↔
    ∃ p l, b.level s p = some l ∧ level = ⟨p, l.totalQuantity, ordersOf b.orders l.iter⟩ := by
  rw [resting, List.mem_map]
  constructor
  · rintro ⟨e, he, rfl⟩
    exact ⟨e.1, e.2, PriceLevels.mem_bestToWorst.mp he, rfl⟩
  · rintro ⟨p, l, hl, rfl⟩
    exact ⟨(p, l), PriceLevels.mem_bestToWorst.mpr hl, rfl⟩

theorem mem_ordersOf {orders : OrdMap OrderId Order} {ids : List OrderId} :
    o ∈ ordersOf orders ids ↔ ∃ id ∈ ids, orders.get? id = some o := by
  simp [ordersOf]

/-- A stored order of a stocked level, found through the id it is queued under. -/
theorem Stocked.of_mem_queue (h : b.Stocked s) {p : Price} {l : Level} (hl : b.level s p = some l)
    (ho : o ∈ ordersOf b.orders l.iter) :
    o.id ∈ l.iter ∧ b.orders.get? o.id = some o ∧ o.side = s ∧ o.price = p ∧
      0 < o.remainingQuantity := by
  obtain ⟨id, hid, hget⟩ := mem_ordersOf.mp ho
  obtain ⟨o', hget', hoid, hs, hp, hr⟩ := (h.level p l hl).order id hid
  rw [hget] at hget'
  cases hget'
  subst hoid
  exact ⟨hid, hget, hs, hp, hr⟩

theorem Stocked.of_mem_flatten (h : b.Stocked s) (ho : o ∈ flatten (b.resting s)) :
    ∃ l, b.level s o.price = some l ∧ o.id ∈ l.iter ∧ b.orders.get? o.id = some o ∧ o.side = s ∧
      0 < o.remainingQuantity := by
  obtain ⟨level, hlevel, ho⟩ := List.mem_flatMap.mp ho
  obtain ⟨p, l, hl, rfl⟩ := mem_resting.mp hlevel
  obtain ⟨hid, hget, hs, rfl, hr⟩ := h.of_mem_queue hl ho
  exact ⟨l, hl, hid, hget, hs, hr⟩

theorem Stocked.mem_flatten (_h : b.Stocked s) {p : Price} {l : Level} (hl : b.level s p = some l)
    (hid : id ∈ l.iter) (ho : b.orders.get? id = some o) : o ∈ flatten (b.resting s) :=
  List.mem_flatMap.mpr ⟨_, mem_resting.mpr ⟨p, l, hl, rfl⟩, mem_ordersOf.mpr ⟨id, hid, ho⟩⟩

/-- A stocked side with exact totals reads as a list of sound levels, and conversely. -/
theorem Stocked.sound (h : b.Stocked s) (hx : b.Exact s) : ∀ level ∈ b.resting s, level.Sound := by
  intro level hlevel
  have hne := h.queue_ne_nil hlevel
  obtain ⟨p, l, hl, rfl⟩ := mem_resting.mp hlevel
  refine ⟨hne, fun o ho ↦ ?_, hx p l hl⟩
  obtain ⟨-, -, -, hp, hr⟩ := h.of_mem_queue hl ho
  exact ⟨hp, hr⟩

theorem exact_of_sound (h : ∀ level ∈ b.resting s, level.Sound) : b.Exact s :=
  fun p l hl ↦ (h _ (mem_resting.mpr ⟨p, l, hl, rfl⟩)).total

/-! ## Sides that are left alone -/

section Untouched

variable (hkept : ∀ id o, b.orders.get? id = some o → o.side = s → b'.orders.get? id = some o)

include hkept

/-- The queues of a side read the same where the orders of that side are stored as before. -/
theorem Stocked.ordersOf_eq (h : b.Stocked s) {p : Price} {l : Level} (hl : b.level s p = some l) :
    ordersOf b'.orders l.iter = ordersOf b.orders l.iter := by
  refine List.filterMap_congr fun id hid ↦ ?_
  obtain ⟨o, ho, -, hs, -⟩ := (h.level p l hl).order id hid
  rw [ho, hkept id o ho hs]

variable (hside : b'.side s = b.side s)

include hside

theorem Stocked.of_untouched (h : b.Stocked s) : b'.Stocked s where
  side := by rw [hside]; exact h.side
  cached := by rw [hside]; exact h.cached
  level p l hl := by
    rw [OrderBook.level, hside] at hl
    have hst := h.level p l hl
    refine ⟨hst.nodup, hst.nonempty, fun id hid ↦ ?_, ?_⟩
    · obtain ⟨o, ho, hoid, hs, hrest⟩ := hst.order id hid
      exact ⟨o, hkept id o ho hs, hoid, hs, hrest⟩
    · rw [h.ordersOf_eq hkept hl]
      exact hst.total

theorem Stocked.exact_of_untouched (h : b.Stocked s) (hx : b.Exact s) : b'.Exact s := by
  intro p l hl
  rw [OrderBook.level, hside] at hl
  rw [h.ordersOf_eq hkept hl]
  exact hx p l hl

end Untouched

/-- Neither property depends on the counters. -/
theorem Stocked.of_counters (h : b.Stocked s) (hside : b'.side s = b.side s)
    (horders : b'.orders = b.orders) : b'.Stocked s :=
  h.of_untouched (fun _ _ ho _ ↦ horders ▸ ho) hside

theorem Exact.of_counters (hx : b.Exact s) (hside : b'.side s = b.side s)
    (horders : b'.orders = b.orders) : b'.Exact s := by
  intro p l hl
  rw [OrderBook.level, hside] at hl
  rw [horders]
  exact hx p l hl

/-- Storing an order under an id that is not queued. -/
theorem Fresh.kept (hf : b.Fresh id) (o' : Order) (j : OrderId) (o : Order)
    (ho : b.orders.get? j = some o) : (b.orders.insert id o').get? j = some o := by
  rw [OrdMap.get?_insert, if_neg]
  · exact ho
  · rintro rfl
    rw [hf.stored] at ho
    cases ho

/-- Compacting levels. -/
theorem exact_of_mapVals {f : Price → Level → Level}
    (hf : ∀ p l, (f p l).iter = l.iter ∧ (f p l).totalQuantity = l.totalQuantity)
    (hside : b'.side s = { b.side s with levels := (b.side s).levels.mapVals f })
    (horders : b'.orders = b.orders) (hx : b.Exact s) : b'.Exact s := by
  intro p l' hl'
  rw [OrderBook.level, hside] at hl'
  obtain ⟨l, hl, rfl⟩ := Option.map_eq_some_iff.mp
    ((OrdMap.get?_mapVals (b.side s).levels f p).symm.trans hl')
  obtain ⟨hiter, htotal⟩ := hf p l
  rw [hiter, htotal, horders]
  exact hx p l hl

theorem side_compact_mapVals (b : OrderBook) (s : Side) : b.compact.side s =
    { b.side s with levels := (b.side s).levels.mapVals fun _ l ↦ l.compact } := by
  rw [side_compact]
  rfl

theorem Stocked.compact (h : b.Stocked s) : b.compact.Stocked s :=
  stocked_of_mapVals (fun _ l ↦ ⟨l.iter_compact, l.compact_totalQuantity⟩)
    (b.side_compact_mapVals s) rfl h

theorem Exact.compact (h : b.Exact s) : b.compact.Exact s :=
  exact_of_mapVals (fun _ l ↦ ⟨l.iter_compact, l.compact_totalQuantity⟩)
    (b.side_compact_mapVals s) rfl h

/-- What is queued is active, so forgetting the orders that are not leaves the queues alone. -/
theorem Stocked.clearHistory_kept (h : b.Stocked s) (hw : b.WF) {p : Price} {l : Level}
    (hl : b.level s p = some l) (hid : id ∈ l.iter) :
    b.clearHistory.1.orders.get? id = b.orders.get? id := by
  obtain ⟨o, ho, -, -, -, hr⟩ := (h.level p l hl).order id hid
  have ha : o.isActive = true := (((hw.queued s p l id hl hid).2 o ho).2.2).mpr hr
  rw [clearHistory, OrdMap.get?_filter, ho, Option.filter_some, if_pos ha]

theorem Stocked.clearHistory_ordersOf (h : b.Stocked s) (hw : b.WF) {p : Price} {l : Level}
    (hl : b.level s p = some l) :
    ordersOf b.clearHistory.1.orders l.iter = ordersOf b.orders l.iter :=
  List.filterMap_congr fun _ hid ↦ h.clearHistory_kept hw hl hid

theorem Stocked.clearHistory (h : b.Stocked s) (hw : b.WF) : b.clearHistory.1.Stocked s where
  side := by rw [side_clearHistory]; exact h.side
  cached := by rw [side_clearHistory]; exact h.cached
  level p l hl := by
    rw [OrderBook.level, side_clearHistory] at hl
    have hst := h.level p l hl
    refine ⟨hst.nodup, hst.nonempty, fun id hid ↦ ?_, ?_⟩
    · rw [h.clearHistory_kept hw hl hid]
      exact hst.order id hid
    · rw [h.clearHistory_ordersOf hw hl]
      exact hst.total

theorem Stocked.exact_clearHistory (h : b.Stocked s) (hw : b.WF) (hx : b.Exact s) :
    b.clearHistory.1.Exact s := by
  intro p l hl
  rw [OrderBook.level, side_clearHistory] at hl
  rw [h.clearHistory_ordersOf hw hl]
  exact hx p l hl

/-! ## Adding an order -/

/-- The total a new order at this place would be added to. -/
def totalAt (b : OrderBook) (s : Side) (p : Price) : Quantity :=
  ((b.level s p).map Level.totalQuantity).getD 0

section Add

variable (hf : b.Fresh o.id)

include hf

theorem Fresh.iter_pushedLevel : (b.pushedLevel o).iter =
    ((b.level o.side o.price).getD (Level.create o.price)).iter ++ [o.id] :=
  Level.iter_pushBack _ (Nat.pos_iff_ne_zero.mp hf.pos) _

/-- The queue an order is added to, with the order at its end. -/
theorem Fresh.ordersOf_pushedLevel : ordersOf (b.addOrder o).orders (b.pushedLevel o).iter =
    ordersOf b.orders ((b.level o.side o.price).getD (Level.create o.price)).iter ++
      [b.rested o] := by
  have hnew : (b.addOrder o).orders.get? o.id = some (b.rested o) := by
    rw [orders_addOrder, OrdMap.get?_insert, if_pos rfl]
  have hold : o.id ∉ ((b.level o.side o.price).getD (Level.create o.price)).iter := by
    cases hl : b.level o.side o.price with
    | none => simp
    | some l => exact hf.queued _ _ l hl
  rw [hf.iter_pushedLevel, ordersOf, List.filterMap_append, ← ordersOf, orders_addOrder,
    ordersOf_insert hold, ← orders_addOrder]
  simp [hnew]

theorem Stocked.addOrder (h : b.Stocked s) (hr : 0 < o.remainingQuantity) :
    (b.addOrder o).Stocked s where
  side := by
    rw [side_addOrder]
    split_ifs
    · rw [PriceLevels.side_insertOrder]; exact h.side
    · exact h.side
  cached := by
    rw [side_addOrder]
    split_ifs
    · exact PriceLevels.cached_insertOrder h.cached _ _ _
    · exact h.cached
  level p l hl := by
    rw [level_addOrder] at hl
    split_ifs at hl with hsp
    · obtain ⟨rfl, rfl⟩ := hsp
      obtain rfl := Option.some.inj hl
      have hiter := hf.iter_pushedLevel
      have hnew : (b.addOrder o).orders.get? o.id = some (b.rested o) := by
        rw [orders_addOrder, OrdMap.get?_insert, if_pos rfl]
      -- the level the order joins, empty or stocked
      have hold : ((b.level o.side o.price).getD (Level.create o.price)).iter.Nodup ∧
          o.id ∉ ((b.level o.side o.price).getD (Level.create o.price)).iter ∧
          (∀ id ∈ ((b.level o.side o.price).getD (Level.create o.price)).iter, ∃ o',
            b.orders.get? id = some o' ∧ o'.id = id ∧ o'.side = o.side ∧ o'.price = o.price ∧
              0 < o'.remainingQuantity) ∧
          ((b.level o.side o.price).getD (Level.create o.price)).totalQuantity ≤
            remainingSum (ordersOf b.orders
              ((b.level o.side o.price).getD (Level.create o.price)).iter) := by
        cases hl' : b.level o.side o.price with
        | none => exact ⟨List.nodup_nil, by simp, by simp, Nat.zero_le _⟩
        | some l =>
            have hst := h.level _ _ hl'
            exact ⟨hst.nodup, hf.queued _ _ l hl', hst.order, hst.total⟩
      obtain ⟨hnd, hnot, horder, htotal⟩ := hold
      refine ⟨?_, by rw [hiter]; simp, fun id hid ↦ ?_, ?_⟩
      · rw [hiter]
        refine List.nodup_append.mpr ⟨hnd, List.nodup_singleton _, fun j hj k hk ↦ ?_⟩
        rw [List.mem_singleton.mp hk]
        exact ne_of_mem_of_not_mem hj hnot
      · rw [hiter, List.mem_append, List.mem_singleton] at hid
        rcases hid with hid | rfl
        · obtain ⟨o', ho', hrest⟩ := horder id hid
          refine ⟨o', ?_, hrest⟩
          rw [orders_addOrder]
          exact hf.kept _ _ _ ho'
        · exact ⟨b.rested o, hnew, rfl, rfl, rfl, hr⟩
      · rw [hf.ordersOf_pushedLevel, remainingSum, List.map_append, List.sum_append]
        exact (saturatingAdd_le _ _).trans (Nat.add_le_add htotal (Nat.le_refl _))
    · have hst := h.level p l hl
      rw [orders_addOrder]
      exact hst.insert_of_notMem (hf.queued s p l hl) _

/-- With an exact total, the queue an order joins has the total and the order left. -/
theorem Exact.remainingSum_pushedLevel (h : b.Exact o.side) :
    remainingSum (ordersOf (b.addOrder o).orders (b.pushedLevel o).iter) =
      b.totalAt o.side o.price + o.remainingQuantity := by
  have hold : b.totalAt o.side o.price = remainingSum (ordersOf b.orders
      ((b.level o.side o.price).getD (Level.create o.price)).iter) := by
    cases hl : b.level o.side o.price with
    | none =>
        rw [totalAt, hl]
        rfl
    | some l =>
        rw [totalAt, hl]
        exact h _ _ hl
  rw [hf.ordersOf_pushedLevel, remainingSum, List.map_append, List.sum_append, hold]
  rfl

/-- Where the total has room for the new order, it stays exact. -/
theorem Exact.addOrder (h : b.Exact s)
    (hroom : b.totalAt o.side o.price + o.remainingQuantity ≤ u64Max) :
    (b.addOrder o).Exact s := by
  intro p l hl
  rw [level_addOrder] at hl
  split_ifs at hl with hsp
  · obtain ⟨rfl, rfl⟩ := hsp
    obtain rfl := Option.some.inj hl
    have hold : ((b.level o.side o.price).getD (Level.create o.price)).totalQuantity =
        b.totalAt o.side o.price := by
      rw [totalAt]
      cases b.level o.side o.price <;> rfl
    rw [Exact.remainingSum_pushedLevel hf h, ← saturatingAdd_eq hroom, ← hold]
    rfl
  · rw [orders_addOrder, ordersOf_insert (hf.queued s p l hl)]
    exact h p l hl

end Add

/-! ## Cancelling an order -/

/-- Cancelling `id` overwrites its own slot, or is without effect on a level it is not queued in. -/
def Targets (b : OrderBook) (id : OrderId) : Prop :=
  ∀ o, b.orders.get? id = some o → o.isActive = true → ∀ l, b.level o.side o.price = some l →
    l.orders[o.positionInLevel]? = some id ∨
      (id ∉ l.iter ∧ ∀ j, l.orders[o.positionInLevel]? = some j → j = 0)

theorem remainingSum_perm {os os' : List Order} (h : os.Perm os') :
    remainingSum os = remainingSum os' :=
  (h.map _).sum_nat

/-- What a queue has left without one of its orders. -/
theorem remainingSum_erase {orders : OrdMap OrderId Order} {ids : List OrderId} (hid : id ∈ ids)
    (ho : orders.get? id = some o) : remainingSum (ordersOf orders ids) =
      o.remainingQuantity + remainingSum (ordersOf orders (ids.erase id)) := by
  rw [← remainingSum_cons, ← ordersOf_cons ho]
  exact remainingSum_perm ((List.perm_cons_erase hid).filterMap orders.get?)

/-- A level after a cancellation: it had nothing to do with the order, or it lost exactly that
order and something is left of its total. -/
theorem Stocked.level_cancelOrder_cases (h : b.Stocked s) (hid : id ≠ 0) (ht : b.Targets id)
    (ho : b.orders.get? id = some o) (ha : o.isActive = true) {p : Price} {l' : Level}
    (hl' : (b.cancelOrder id).1.level s p = some l') :
    ∃ l, b.level s p = some l ∧ ((id ∉ l.iter ∧ l' = l) ∨
      (id ∈ l.iter ∧ l'.iter = l.iter.erase id ∧
        l'.totalQuantity = l.totalQuantity - o.remainingQuantity ∧ l'.totalQuantity ≠ 0)) := by
  rw [level_cancelOrder ho ha] at hl'
  split_ifs at hl' with hsp
  · obtain ⟨rfl, rfl⟩ := hsp
    obtain ⟨hmap, hne⟩ := Option.filter_eq_some_iff.mp hl'
    obtain ⟨l, hl, rfl⟩ := Option.map_eq_some_iff.mp hmap
    refine ⟨l, hl, ?_⟩
    rcases ht o ho ha l hl with hslot | ⟨hout, hdead⟩
    · have hmem : id ∈ l.iter := Level.mem_iter.mpr ⟨List.mem_of_getElem? hslot, hid⟩
      refine .inr ⟨hmem, Level.iter_markTombstone hslot hid (h.level _ l hl).nodup _, ?_, ?_⟩
      · rw [Level.markTombstone_of_slot hslot hid]
      · simpa [Level.isEmpty] using hne
    · exact .inl ⟨hout, Level.markTombstone_of_dead hdead _⟩
  · refine ⟨l', hl', .inl ⟨fun hmem ↦ hsp ?_, rfl⟩⟩
    obtain ⟨o', ho', -, hs, hp, -⟩ := (h.level p l' hl').order id hmem
    rw [ho] at ho'
    cases ho'
    exact ⟨hs.symm, hp.symm⟩

theorem Stocked.cancelOrder (h : b.Stocked s) (hw : b.WF) (ht : b.Targets id) :
    (b.cancelOrder id).1.Stocked s := by
  by_cases hact : ∃ o, b.orders.get? id = some o ∧ o.isActive = true
  · obtain ⟨o, ho, ha⟩ := hact
    have hshr := (b.shrinks_cancelOrder id).side s
    have hid : id ≠ 0 := Nat.pos_iff_ne_zero.mp (hw.stored id o ho).2.1
    refine ⟨hshr.side.trans h.side, hshr.cached h.cached, fun p l' hl' ↦ ?_⟩
    rw [orders_cancelOrder ho ha]
    obtain ⟨l, hl, ⟨hout, rfl⟩ | ⟨hmem, hiter, htotal, hne⟩⟩ :=
      h.level_cancelOrder_cases hid ht ho ha hl'
    · exact (h.level p l' hl).insert_of_notMem hout _
    · have hst := h.level p l hl
      have hsum := remainingSum_erase hmem ho
      have hout : id ∉ l.iter.erase id := hst.nodup.not_mem_erase
      have hle := hst.total
      refine ⟨?_, ?_, fun j hj ↦ ?_, ?_⟩
      · rw [hiter]
        exact hst.nodup.erase id
      · -- what is left of the total is covered by the other orders
        rw [hiter]
        intro hnil
        rw [hnil] at hsum
        simp only [ordersOf, List.filterMap_nil, remainingSum_nil] at hsum hle
        lia
      · rw [hiter] at hj
        rw [OrdMap.get?_insert, if_neg (ne_of_mem_of_not_mem hj hout)]
        exact hst.order j (List.mem_of_mem_erase hj)
      · rw [hiter, ordersOf_insert hout]
        lia
  · rw [cancelOrder_of_inactive fun o ho ↦ by simpa using fun ha ↦ hact ⟨o, ho, ha⟩]
    exact h

theorem Stocked.exact_cancelOrder (h : b.Stocked s) (hw : b.WF) (ht : b.Targets id)
    (hx : b.Exact s) : (b.cancelOrder id).1.Exact s := by
  by_cases hact : ∃ o, b.orders.get? id = some o ∧ o.isActive = true
  · obtain ⟨o, ho, ha⟩ := hact
    have hid : id ≠ 0 := Nat.pos_iff_ne_zero.mp (hw.stored id o ho).2.1
    intro p l' hl'
    rw [orders_cancelOrder ho ha]
    obtain ⟨l, hl, ⟨hout, rfl⟩ | ⟨hmem, hiter, htotal, -⟩⟩ :=
      h.level_cancelOrder_cases hid ht ho ha hl'
    · rw [ordersOf_insert hout]
      exact hx p l' hl
    · rw [htotal, hx p l hl, remainingSum_erase hmem ho, hiter,
        ordersOf_insert (h.level p l hl).nodup.not_mem_erase]
      exact Nat.add_sub_cancel_left _ _
  · rw [cancelOrder_of_inactive fun o ho ↦ by simpa using fun ha ↦ hact ⟨o, ho, ha⟩]
    exact hx

end OrderBook

end Nanobook
