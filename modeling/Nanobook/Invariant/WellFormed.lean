import Nanobook.Invariant.Shrinks

/-!
# Well-formed books

The invariant of every book the exchange can produce, whatever slots were overwritten on the way:
the caches are exact, the sides do not cross, ids come from the counter, and an id that is queued
and stored is stored with the side and price it is queued at.

It says nothing about the totals of the levels or about an active order being queued at all:
these are not invariants of the code (see `Nanobook.Cancel` and `Nanobook.Lifecycle`).
-/

namespace Nanobook

/-- Prices at which no order of `side` at `price` trades. -/
theorem pricesCross_eq_false_iff {side : Side} {price p : Price} :
    pricesCross side price p = false ↔
      match side with
      | .buy => price < p
      | .sell => p < price := by
  cases side <;> simp [pricesCross]

/-- If an order does not cross a price it crosses none that is worse. -/
theorem pricesCross_of_not_better {side : Side} {price p q : Price}
    (h : pricesCross side price p = false) (hb : ¬ PriceLevels.Better side.opposite q p) :
    pricesCross side price q = false := by
  rw [pricesCross_eq_false_iff] at h ⊢
  cases side with
  | buy => exact lt_of_lt_of_le h (not_lt.mp hb)
  | sell => exact lt_of_le_of_lt (not_lt.mp hb) h

namespace OrderBook

structure WF (b : OrderBook) : Prop where
  side : ∀ s, (b.side s).side = s
  cached : ∀ s, (b.side s).Cached
  uncrossed : ∀ p q l l', b.level .buy p = some l → b.level .sell q = some l' → p < q
  level : ∀ s p l, b.level s p = some l → l.price = p ∧ l.Tallied ∧ l.iter.Nodup
  queued : ∀ s p l id, b.level s p = some l → id ∈ l.iter → id < b.nextOrderId ∧
    ∀ o, b.orders.get? id = some o → o.side = s ∧ o.price = p ∧ o.Settled
  stored : ∀ id o, b.orders.get? id = some o → o.id = id ∧ 0 < id ∧ id < b.nextOrderId
  nextOrderId : 0 < b.nextOrderId

theorem wf_create : create.WF where
  side s := by cases s <;> rfl
  cached s := by cases s <;> exact PriceLevels.cached_create _
  uncrossed _ _ _ _ h := by cases h
  level s _ _ h := by cases s <;> cases h
  queued s _ _ _ h := by cases s <;> cases h
  stored _ _ h := by cases h
  nextOrderId := Nat.one_pos

theorem WF.shrinks {b b' : OrderBook} (hw : b.WF) (h : b.Shrinks b') : b'.WF where
  side s := (h.side s).side.trans (hw.side s)
  cached s := (h.side s).cached (hw.cached s)
  uncrossed p q l l' hl hl' := by
    obtain ⟨m, hm, -⟩ := h.level hl
    obtain ⟨m', hm', -⟩ := h.level hl'
    exact hw.uncrossed p q m m' hm hm'
  level s p l hl := by
    obtain ⟨m, hm, hs⟩ := h.level hl
    obtain ⟨hp, ht, hnd⟩ := hw.level s p m hm
    exact ⟨hs.price.trans hp, hs.tallied ht, hnd.sublist hs.iter⟩
  queued s p l id hl hid := by
    obtain ⟨m, hm, hs⟩ := h.level hl
    obtain ⟨hlt, hst⟩ := hw.queued s p m id hm (hs.iter.subset hid)
    refine ⟨h.nextOrderId ▸ hlt, fun o' ho' ↦ ?_⟩
    obtain ⟨o, ho, hso, hset⟩ := h.order id o' ho'
    obtain ⟨hside, hprice, hsettled⟩ := hst o ho
    exact ⟨hso.side.trans hside, hso.price.trans hprice, hset hsettled⟩
  stored id o' ho' := by
    obtain ⟨o, ho, hso, -⟩ := h.order id o' ho'
    obtain ⟨hid, hpos, hlt⟩ := hw.stored id o ho
    exact ⟨hso.id.trans hid, hpos, h.nextOrderId ▸ hlt⟩
  nextOrderId := h.nextOrderId ▸ hw.nextOrderId

/-- Only the order counter may move, and only up. -/
theorem WF.of_counters {b b' : OrderBook} (hw : b.WF) (hside : ∀ s, b'.side s = b.side s)
    (horders : b'.orders = b.orders) (hid : b.nextOrderId ≤ b'.nextOrderId) : b'.WF where
  side s := by rw [hside]; exact hw.side s
  cached s := by rw [hside]; exact hw.cached s
  uncrossed p q l l' hl hl' := by
    simp only [OrderBook.level, hside] at hl hl'
    exact hw.uncrossed p q l l' hl hl'
  level s p l hl := by
    simp only [OrderBook.level, hside] at hl
    exact hw.level s p l hl
  queued s p l id hl hmem := by
    simp only [OrderBook.level, hside] at hl
    rw [horders]
    exact (hw.queued s p l id hl hmem).imp_left fun h ↦ h.trans_le hid
  stored id o ho := by
    rw [horders] at ho
    obtain ⟨h₁, h₂, h₃⟩ := hw.stored id o ho
    exact ⟨h₁, h₂, h₃.trans_le hid⟩
  nextOrderId := hw.nextOrderId.trans_le hid

theorem side_createOrder (b : OrderBook) (side : Side) (price : Price) (q : Quantity)
    (tif : TimeInForce) (s : Side) : (b.createOrder side price q tif).2.side s = b.side s := by
  cases s <;> rfl

theorem WF.createOrder {b : OrderBook} (hw : b.WF) (side : Side) (price : Price) (q : Quantity)
    (tif : TimeInForce) : (b.createOrder side price q tif).2.WF :=
  hw.of_counters (b.side_createOrder side price q tif) rfl (Nat.le_succ _)

/-! ## Ids in flight -/

/-- `id` was handed out but is neither stored nor queued. -/
structure Fresh (b : OrderBook) (id : OrderId) : Prop where
  pos : 0 < id
  lt : id < b.nextOrderId
  stored : b.orders.get? id = none
  queued : ∀ s p l, b.level s p = some l → id ∉ l.iter

theorem Fresh.shrinks {b b' : OrderBook} {id : OrderId} (hf : b.Fresh id) (h : b.Shrinks b') :
    b'.Fresh id where
  pos := hf.pos
  lt := h.nextOrderId ▸ hf.lt
  stored := by
    cases ho : b'.orders.get? id with
    | none => rfl
    | some o' =>
        obtain ⟨o, hbo, -⟩ := h.order id o' ho
        rw [hf.stored] at hbo
        cases hbo
  queued s p l' hl' hmem := by
    obtain ⟨l, hl, hs⟩ := h.level hl'
    exact hf.queued s p l hl (hs.iter.subset hmem)

theorem WF.fresh_createOrder {b : OrderBook} (hw : b.WF) (side : Side) (price : Price)
    (q : Quantity) (tif : TimeInForce) :
    (b.createOrder side price q tif).2.Fresh b.nextOrderId where
  pos := hw.nextOrderId
  lt := Nat.lt_succ_self _
  stored := by
    cases ho : b.orders.get? b.nextOrderId with
    | none => exact ho
    | some o => exact absurd (hw.stored _ o ho).2.2 (lt_irrefl _)
  queued s p l hl hmem := by
    simp only [OrderBook.level, side_createOrder] at hl
    exact absurd (hw.queued s p l _ hl hmem).1 (lt_irrefl _)

/-! ## Storing and resting -/

/-- What is queued is stored as before, once an order with a fresh id is. -/
theorem Fresh.get?_of_insert {b : OrderBook} {fresh id : OrderId} {o x : Order} {s : Side}
    {p : Price} {l : Level} (hf : b.Fresh fresh) (hl : b.level s p = some l) (hmem : id ∈ l.iter)
    (hx : (b.orders.insert fresh o).get? id = some x) : b.orders.get? id = some x := by
  rw [OrdMap.get?_insert] at hx
  split_ifs at hx with hid
  · subst hid
    exact absurd hmem (hf.queued s p l hl)
  · exact hx

theorem WF.stored_insert {b : OrderBook} (hw : b.WF) {o : Order} (hf : b.Fresh o.id)
    {id : OrderId} {x : Order} (hx : (b.orders.insert o.id o).get? id = some x) :
    x.id = id ∧ 0 < id ∧ id < b.nextOrderId := by
  rw [OrdMap.get?_insert] at hx
  split_ifs at hx with hid
  · subst hid
    cases hx
    exact ⟨rfl, hf.pos, hf.lt⟩
  · exact hw.stored id x hx

/-- Storing an order that does not rest. -/
theorem WF.store {b : OrderBook} (hw : b.WF) {o : Order} (hf : b.Fresh o.id) :
    ({ b with orders := b.orders.insert o.id o } : OrderBook).WF where
  side s := by rw [side_mk]; exact hw.side s
  cached s := by rw [side_mk]; exact hw.cached s
  uncrossed := hw.uncrossed
  level s p l hl := by rw [level_mk] at hl; exact hw.level s p l hl
  queued s p l id hl hmem := by
    have hl' : b.level s p = some l := by rwa [level_mk] at hl
    obtain ⟨hlt, hq⟩ := hw.queued s p l id hl' hmem
    exact ⟨hlt, fun x hx ↦ hq x (hf.get?_of_insert hl' hmem hx)⟩
  stored id x hx := hw.stored_insert hf hx
  nextOrderId := hw.nextOrderId

/-- The level an order is pushed onto. -/
def pushedLevel (b : OrderBook) (o : Order) : Level :=
  ((b.level o.side o.price).getD (Level.create o.price)).pushBack o.id o.remainingQuantity

@[simp] theorem nextOrderId_addOrder (b : OrderBook) (o : Order) :
    (b.addOrder o).nextOrderId = b.nextOrderId := by
  simp [addOrder]

theorem side_addOrder (b : OrderBook) (o : Order) (s : Side) :
    (b.addOrder o).side s = if s = o.side
      then ((b.side s).insertOrder o.price o.id o.remainingQuantity).1 else b.side s := by
  have h : (b.addOrder o).side s = (b.updateSide o.side fun _ ↦
      ((b.side o.side).insertOrder o.price o.id o.remainingQuantity).1).side s := by
    cases s <;> rfl
  rw [h, side_updateSide]
  split_ifs with hs
  · rw [hs]
  · rfl

theorem level_addOrder (b : OrderBook) (o : Order) (s : Side) (p : Price) :
    (b.addOrder o).level s p =
      if s = o.side ∧ p = o.price then some (b.pushedLevel o) else b.level s p := by
  rw [level, side_addOrder]
  by_cases hs : s = o.side
  · subst hs
    simp only [if_true, true_and, PriceLevels.getLevel_insertOrder]
    rfl
  · simp only [hs, false_and, if_false]
    rfl

/-- The stored form of a rested order: its index is the length of the queue it joins. -/
def rested (b : OrderBook) (o : Order) : Order :=
  { o with positionInLevel :=
      ((b.level o.side o.price).getD (Level.create o.price)).orders.length }

theorem orders_addOrder (b : OrderBook) (o : Order) :
    (b.addOrder o).orders = b.orders.insert o.id (b.rested o) := by
  simp [addOrder, rested, PriceLevels.insertOrder_snd, level]

theorem mem_iter_pushedLevel {b : OrderBook} {o : Order} (hid : o.id ≠ 0) {id : OrderId} :
    id ∈ (b.pushedLevel o).iter ↔
      (∃ l, b.level o.side o.price = some l ∧ id ∈ l.iter) ∨ id = o.id := by
  rw [pushedLevel, Level.iter_pushBack _ hid, List.mem_append, List.mem_singleton]
  refine or_congr_left ?_
  cases b.level o.side o.price with
  | none => simp
  | some l => simp

/-- A level stays well formed when an order with a fresh id is pushed onto it. -/
theorem WF.pushedLevel {b : OrderBook} (hw : b.WF) {o : Order} (hf : b.Fresh o.id) :
    (b.pushedLevel o).price = o.price ∧ (b.pushedLevel o).Tallied ∧
      (b.pushedLevel o).iter.Nodup := by
  have hid : o.id ≠ 0 := Nat.pos_iff_ne_zero.mp hf.pos
  simp only [OrderBook.pushedLevel]
  cases hlv : b.level o.side o.price with
  | none =>
      refine ⟨rfl, Level.tallied_pushBack (by rfl) hid _, ?_⟩
      rw [Option.getD_none, Level.iter_pushBack _ hid]
      simp
  | some m =>
      obtain ⟨hp, ht, hnd⟩ := hw.level _ _ m hlv
      refine ⟨hp, Level.tallied_pushBack ht hid _, ?_⟩
      rw [Option.getD_some, Level.iter_pushBack _ hid, List.nodup_append]
      refine ⟨hnd, by simp, fun a ha c hc ↦ ?_⟩
      obtain rfl := List.mem_singleton.mp hc
      rintro rfl
      exact hf.queued _ _ m hlv ha

theorem WF.addOrder {b : OrderBook} (hw : b.WF) {o : Order} (hf : b.Fresh o.id) (hst : o.Settled)
    (hx : ∀ p l, b.level o.side.opposite p = some l → pricesCross o.side o.price p = false) :
    (b.addOrder o).WF where
  side s := by
    rw [side_addOrder]
    split_ifs with h
    · rw [PriceLevels.side_insertOrder]; exact hw.side s
    · exact hw.side s
  cached s := by
    rw [side_addOrder]
    split_ifs with h
    · exact PriceLevels.cached_insertOrder (hw.cached s) _ _ _
    · exact hw.cached s
  uncrossed p q l l' hl hl' := by
    rw [level_addOrder] at hl hl'
    cases hs : o.side with
    | buy =>
        rw [if_neg (by simp [hs])] at hl'
        split_ifs at hl with h
        · have := hx q l' (by rw [hs]; exact hl')
          rw [pricesCross_eq_false_iff, hs] at this
          exact h.2 ▸ this
        · exact hw.uncrossed p q l l' hl hl'
    | sell =>
        rw [if_neg (by simp [hs])] at hl
        split_ifs at hl' with h
        · have := hx p l (by rw [hs]; exact hl)
          rw [pricesCross_eq_false_iff, hs] at this
          exact h.2 ▸ this
        · exact hw.uncrossed p q l l' hl hl'
  level s p l hl := by
    rw [level_addOrder] at hl
    split_ifs at hl with h
    · obtain ⟨rfl, rfl⟩ := h
      obtain rfl := Option.some.inj hl
      exact hw.pushedLevel hf
    · exact hw.level s p l hl
  queued s p l id hl hmem := by
    rw [nextOrderId_addOrder, orders_addOrder]
    rw [level_addOrder] at hl
    -- an id queued before is stored as before
    have hqueued {m : Level} (hm : b.level s p = some m) (hmem : id ∈ m.iter) :
        id < b.nextOrderId ∧ ∀ x, (b.orders.insert o.id (b.rested o)).get? id = some x →
          x.side = s ∧ x.price = p ∧ x.Settled := by
      obtain ⟨hlt, hq⟩ := hw.queued s p m id hm hmem
      exact ⟨hlt, fun x hx ↦ hq x (hf.get?_of_insert hm hmem hx)⟩
    split_ifs at hl with h
    · obtain ⟨rfl, rfl⟩ := h
      obtain rfl := Option.some.inj hl
      rcases (mem_iter_pushedLevel (Nat.pos_iff_ne_zero.mp hf.pos)).mp hmem with ⟨m, hm, hin⟩ | rfl
      · exact hqueued hm hin
      · refine ⟨hf.lt, fun x hxo ↦ ?_⟩
        rw [OrdMap.get?_insert, if_pos rfl] at hxo
        obtain rfl := Option.some.inj hxo
        exact ⟨rfl, rfl, hst⟩
    · exact hqueued hl hmem
  stored id x hxo := by
    rw [nextOrderId_addOrder]
    rw [orders_addOrder] at hxo
    exact hw.stored_insert (o := b.rested o) hf hxo
  nextOrderId := by rw [nextOrderId_addOrder]; exact hw.nextOrderId

/-- Where the match stopped, every opposite price is out of the incoming order's reach. -/
theorem WF.not_cross {b : OrderBook} (hw : b.WF) {side : Side} {price : Price}
    (h : ∀ p, (b.oppositeSide side).bestPrice = some p → pricesCross side price p = false)
    (q : Price) (l : Level) (hl : b.level side.opposite q = some l) :
    pricesCross side price q = false := by
  have hc := hw.cached side.opposite
  cases hb : (b.oppositeSide side).bestPrice with
  | none =>
      have := hc.bestPrice_eq_none_iff.mp hb
      have hmem := PriceLevels.mem_bestToWorst.mpr hl
      rw [this] at hmem
      cases hmem
  | some p =>
      refine pricesCross_of_not_better (h p hb) ?_
      have := hc.not_better hb hl
      rwa [hw.side] at this

end OrderBook

end Nanobook
