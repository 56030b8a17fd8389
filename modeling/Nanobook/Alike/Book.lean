import Nanobook.Invariant.Backed

/-!
# Books that differ in their slots

Two books are alike when they differ in nothing but tombstones, recorded slots and orders that are
not active: each level shows the same total and the same queue, the active orders are the same, and
so are the counters.  `compact` and `clearHistory` lead from a book to one that is alike, and an
operation that overwrites no slot but the one it means to keeps books alike.
-/

namespace Nanobook

namespace Order

/-- The order without its recorded slot. -/
def unplaced (o : Order) : Order := { o with positionInLevel := 0 }

variable {o o' : Order}

@[simp] theorem unplaced_id (o : Order) : o.unplaced.id = o.id := rfl

@[simp] theorem unplaced_side (o : Order) : o.unplaced.side = o.side := rfl

@[simp] theorem unplaced_price (o : Order) : o.unplaced.price = o.price := rfl

@[simp] theorem unplaced_remainingQuantity (o : Order) :
    o.unplaced.remainingQuantity = o.remainingQuantity := rfl

@[simp] theorem unplaced_timeInForce (o : Order) : o.unplaced.timeInForce = o.timeInForce := rfl

@[simp] theorem unplaced_owner (o : Order) : o.unplaced.owner = o.owner := rfl

@[simp] theorem unplaced_isActive (o : Order) : o.unplaced.isActive = o.isActive := rfl

@[simp] theorem unplaced_fill (o : Order) (q : Quantity) :
    (o.fill q).unplaced = o.unplaced.fill q := rfl

@[simp] theorem unplaced_cancel (o : Order) : o.cancel.unplaced = o.unplaced.cancel := rfl

theorem of_unplaced_eq (h : o.unplaced = o'.unplaced) :
    o.id = o'.id ∧ o.side = o'.side ∧ o.price = o'.price ∧
      o.remainingQuantity = o'.remainingQuantity := by
  have hid : o.unplaced.id = o'.unplaced.id := congrArg Order.id h
  have hside : o.unplaced.side = o'.unplaced.side := congrArg Order.side h
  have hprice : o.unplaced.price = o'.unplaced.price := congrArg Order.price h
  have hrem : o.unplaced.remainingQuantity = o'.unplaced.remainingQuantity :=
    congrArg Order.remainingQuantity h
  exact ⟨hid, hside, hprice, hrem⟩

end Order

/-- The active order under an id, without its slot. -/
def activeIn (orders : OrdMap OrderId Order) (id : OrderId) : Option Order :=
  ((orders.get? id).filter Order.isActive).map Order.unplaced

theorem activeIn_insert (orders : OrdMap OrderId Order) (id j : OrderId) (o : Order) :
    activeIn (orders.insert id o) j =
      if j = id then (if o.isActive then some o.unplaced else none) else activeIn orders j := by
  rw [activeIn, OrdMap.get?_insert]
  split_ifs with hj ha
  · rw [Option.filter_some, if_pos ha, Option.map_some]
  · rw [Option.filter_some, if_neg ha, Option.map_none]
  · rfl

theorem activeIn_eq_some {orders : OrdMap OrderId Order} {id : OrderId} {o : Order}
    (h : activeIn orders id = some o) :
    ∃ o', orders.get? id = some o' ∧ o'.isActive = true ∧ o'.unplaced = o := by
  obtain ⟨o', ho', rfl⟩ := Option.map_eq_some_iff.mp h
  obtain ⟨hget, ha⟩ := Option.filter_eq_some_iff.mp ho'
  exact ⟨o', hget, ha, rfl⟩

theorem activeIn_of_get? {orders : OrdMap OrderId Order} {id : OrderId} {o : Order}
    (h : orders.get? id = some o) (ha : o.isActive = true) :
    activeIn orders id = some o.unplaced := by
  rw [activeIn, h, Option.filter_some, if_pos ha, Option.map_some]

theorem activeIn_eq_none {orders : OrdMap OrderId Order} {id : OrderId}
    (h : activeIn orders id = none) (o : Order) (ho : orders.get? id = some o) :
    o.isActive = false := by
  cases ha : o.isActive with
  | false => rfl
  | true => rw [activeIn_of_get? ho ha] at h; cases h

/-- The queue of a level, without slots. -/
def shownQueue (orders : OrdMap OrderId Order) (l : Level) : List Order :=
  (ordersOf orders l.iter).map Order.unplaced

/-- What a level shows: its cached total and its queue. -/
def shownLevel (orders : OrdMap OrderId Order) (l : Level) : Quantity × List Order :=
  (l.totalQuantity, shownQueue orders l)

namespace RestingLevel

def unplaced (level : RestingLevel) : RestingLevel :=
  { level with queue := level.queue.map Order.unplaced }

/-- A level as an entry of the map that `shown` reads a side as. -/
def ofEntry (e : Price × Quantity × List Order) : RestingLevel := ⟨e.1, e.2.1, e.2.2⟩

theorem ofEntry_injective : Function.Injective ofEntry := by
  rintro ⟨p, total, queue⟩ ⟨p', total', queue'⟩ h
  cases h
  rfl

end RestingLevel

/-- Entries in the order of their prices, from best to worst. -/
def fromBest {α : Type} : Side → List α → List α
  | .buy, entries => entries.reverse
  | .sell, entries => entries

theorem fromBest_injective {α : Type} (s : Side) : Function.Injective (@fromBest α s) := by
  cases s with
  | buy => exact List.reverse_injective
  | sell => exact Function.injective_id

namespace OrderBook

variable {b b' b'' : OrderBook} {s : Side} {p : Price} {id : OrderId}

/-- What a side shows at each price. -/
def shown (b : OrderBook) (s : Side) : OrdMap Price (Quantity × List Order) :=
  (b.side s).levels.mapVals fun _ l ↦ shownLevel b.orders l

theorem get?_shown (b : OrderBook) (s : Side) (p : Price) :
    (b.shown s).get? p = (b.level s p).map (shownLevel b.orders) :=
  OrdMap.get?_mapVals _ _ _

/-- The resting orders of a side are what it shows, read from best to worst. -/
theorem resting_unplaced (hs : (b.side s).side = s) :
    (b.resting s).map RestingLevel.unplaced =
      fromBest s ((b.shown s).entries.map RestingLevel.ofEntry) := by
  have hmap : ∀ entries : List (Price × Level),
      (entries.map fun e ↦ (⟨e.1, e.2.totalQuantity, ordersOf b.orders e.2.iter⟩ :
        RestingLevel)).map RestingLevel.unplaced =
      (entries.map fun e ↦ (e.1, shownLevel b.orders e.2)).map RestingLevel.ofEntry := by
    intro entries
    rw [List.map_map, List.map_map]
    rfl
  rw [resting, hmap, PriceLevels.bestToWorst, hs]
  cases s with
  | buy => rw [List.map_reverse, List.map_reverse]; rfl
  | sell => rfl

/-- Two sides show the same just if they list the same resting orders. -/
theorem shown_eq_iff (hs : (b.side s).side = s) (hs' : (b'.side s).side = s) :
    b.shown s = b'.shown s ↔
      (b.resting s).map RestingLevel.unplaced = (b'.resting s).map RestingLevel.unplaced := by
  rw [resting_unplaced hs, resting_unplaced hs', OrdMap.ext_iff]
  have hinj := List.map_injective_iff.mpr RestingLevel.ofEntry_injective
  exact ((fromBest_injective s).comp hinj).eq_iff.symm

/-- The books differ in nothing but tombstones, recorded slots and orders that are not active. -/
structure Alike (b b' : OrderBook) : Prop where
  shown : ∀ s, b.shown s = b'.shown s
  active : ∀ id, activeIn b.orders id = activeIn b'.orders id
  nextOrderId : b.nextOrderId = b'.nextOrderId
  nextTradeId : b.nextTradeId = b'.nextTradeId
  nextTimestamp : b.nextTimestamp = b'.nextTimestamp

theorem Alike.refl (b : OrderBook) : b.Alike b :=
  ⟨fun _ ↦ rfl, fun _ ↦ rfl, rfl, rfl, rfl⟩

theorem Alike.trans (h : b.Alike b') (h' : b'.Alike b'') : b.Alike b'' where
  shown s := (h.shown s).trans (h'.shown s)
  active id := (h.active id).trans (h'.active id)
  nextOrderId := h.nextOrderId.trans h'.nextOrderId
  nextTradeId := h.nextTradeId.trans h'.nextTradeId
  nextTimestamp := h.nextTimestamp.trans h'.nextTimestamp

theorem Alike.resting (h : b.Alike b') (hst : b.Stocked s) (hst' : b'.Stocked s) :
    (b.resting s).map RestingLevel.unplaced = (b'.resting s).map RestingLevel.unplaced :=
  (shown_eq_iff hst.side hst'.side).mp (h.shown s)

/-! ## Memory management -/

theorem alike_compact (b : OrderBook) : b.Alike b.compact where
  shown s := by
    refine OrdMap.ext_get? fun p ↦ ?_
    rw [get?_shown, get?_shown, OrderBook.level, OrderBook.level, side_compact,
      PriceLevels.getLevel_compact, Option.map_map]
    refine Option.map_congr fun l _ ↦ ?_
    simp only [Function.comp_apply, shownLevel, shownQueue, Level.compact_totalQuantity,
      Level.iter_compact]
    rfl
  active _ := rfl
  nextOrderId := rfl
  nextTradeId := rfl
  nextTimestamp := rfl

/-- What is queued is active, so forgetting the orders that are not shows nowhere. -/
theorem alike_clearHistory (hw : b.WF) (hst : ∀ s, b.Stocked s) : b.Alike b.clearHistory.1 where
  shown s := by
    refine OrdMap.ext_get? fun p ↦ ?_
    rw [get?_shown, get?_shown, OrderBook.level, OrderBook.level, side_clearHistory]
    refine Option.map_congr fun l hl ↦ ?_
    simp only [shownLevel, shownQueue, (hst s).clearHistory_ordersOf hw hl]
  active id := by
    simp only [activeIn, clearHistory, OrdMap.get?_filter, Option.filter_filter, Bool.and_self]
  nextOrderId := rfl
  nextTradeId := rfl
  nextTimestamp := rfl

/-! ## Adding an order -/

/-- A side that is left alone shows the same, as long as what is queued there is stored as
before. -/
theorem shown_eq_of_side (hside : b'.side s = b.side s)
    (horders : ∀ p l, b.level s p = some l → ordersOf b'.orders l.iter = ordersOf b.orders l.iter) :
    b'.shown s = b.shown s := by
  refine OrdMap.ext_get? fun p ↦ ?_
  rw [get?_shown, get?_shown, OrderBook.level, hside]
  refine Option.map_congr fun l hl ↦ ?_
  simp only [shownLevel, shownQueue, horders p l hl]

/-- Storing an order that is not queued shows nowhere. -/
theorem Fresh.shown_store {o : Order} (hf : b.Fresh o.id) (s : Side) :
    ({ b with orders := b.orders.insert o.id o } : OrderBook).shown s = b.shown s :=
  shown_eq_of_side (side_mk _ _ _ _ _ _) fun p l hl ↦ ordersOf_insert (hf.queued s p l hl) o

/-- What a level shows once an order has joined it. -/
def pushShown (o : Order) (v : Quantity × List Order) : Quantity × List Order :=
  (saturatingAdd v.1 o.remainingQuantity, v.2 ++ [o.unplaced])

theorem Fresh.get?_shown_addOrder {o : Order} (hf : b.Fresh o.id) (s : Side) (p : Price) :
    ((b.addOrder o).shown s).get? p =
      if s = o.side ∧ p = o.price then some (pushShown o (((b.shown s).get? p).getD (0, [])))
      else (b.shown s).get? p := by
  rw [get?_shown, get?_shown, level_addOrder]
  split_ifs with hsp
  · obtain ⟨rfl, rfl⟩ := hsp
    have hold : ((b.level o.side o.price).map (shownLevel b.orders)).getD (0, []) =
        shownLevel b.orders ((b.level o.side o.price).getD (Level.create o.price)) := by
      cases b.level o.side o.price <;> rfl
    rw [Option.map_some, hold, shownLevel, shownQueue, hf.ordersOf_pushedLevel, List.map_append]
    rfl
  · refine Option.map_congr fun l hl ↦ ?_
    rw [shownLevel, shownQueue, orders_addOrder, ordersOf_insert (hf.queued s p l hl)]
    rfl

section Store

variable {o : Order} (h : b.Alike b') (hf : b.Fresh o.id) (hf' : b'.Fresh o.id)

include h hf hf'

/-- Storing one order in both books. -/
theorem Alike.store : Alike { b with orders := b.orders.insert o.id o }
    { b' with orders := b'.orders.insert o.id o } where
  shown s := by rw [hf.shown_store, hf'.shown_store, h.shown]
  active j := by rw [activeIn_insert, activeIn_insert, h.active]
  nextOrderId := h.nextOrderId
  nextTradeId := h.nextTradeId
  nextTimestamp := h.nextTimestamp

/-- One order that comes to rest in both books. -/
theorem Alike.addOrder : Alike (b.addOrder o) (b'.addOrder o) where
  shown s := OrdMap.ext_get? fun p ↦ by
    rw [hf.get?_shown_addOrder, hf'.get?_shown_addOrder, h.shown]
  active j := by
    rw [orders_addOrder, orders_addOrder, activeIn_insert, activeIn_insert, h.active]
    rfl
  nextOrderId := by rw [nextOrderId_addOrder, nextOrderId_addOrder, h.nextOrderId]
  nextTradeId := by simpa [OrderBook.addOrder] using h.nextTradeId
  nextTimestamp := by simpa [OrderBook.addOrder] using h.nextTimestamp

end Store

/-! ## Cancelling an order -/

/-- Taking an id off a queue whose ids are those of the stored orders. -/
theorem ordersOf_erase {orders : OrdMap OrderId Order} {ids : List OrderId} (hnd : ids.Nodup)
    (hids : ∀ j ∈ ids, ∃ o, orders.get? j = some o ∧ o.id = j) (id : OrderId) :
    ordersOf orders (ids.erase id) = (ordersOf orders ids).filter fun o ↦ o.id ≠ id := by
  rw [hnd.erase_eq_filter, ordersOf, ordersOf, List.filterMap_filter, List.filter_filterMap]
  refine List.filterMap_congr fun j hj ↦ ?_
  obtain ⟨o, ho, hoj⟩ := hids j hj
  rw [ho, Option.filter_some, hoj]
  by_cases hne : j = id <;> simp [hne]

theorem Stocked.mem_shownQueue (h : b.Stocked s) {l : Level} (hl : b.level s p = some l)
    (id : OrderId) :
    id ∈ (shownQueue b.orders l).map Order.id ↔ id ∈ l.iter := by
  rw [shownQueue, List.map_map]
  constructor
  · intro hid
    obtain ⟨o, ho, rfl⟩ := List.mem_map.mp hid
    exact (h.of_mem_queue hl ho).1
  · intro hid
    obtain ⟨o, ho, hoid, -⟩ := (h.level p l hl).order id hid
    exact List.mem_map.mpr ⟨o, mem_ordersOf.mpr ⟨id, hid, ho⟩, hoid⟩

/-- What a level shows once an order with `q` remaining has left it, if it was there. -/
def dropShown (id : OrderId) (q : Quantity) (v : Quantity × List Order) : Quantity × List Order :=
  if id ∈ v.2.map Order.id then (v.1 - q, v.2.filter fun o ↦ o.id ≠ id) else v

/-- A cancellation that hits takes the order out of what its level shows, and the level with it if
nothing is left of its total. -/
theorem Stocked.get?_shown_cancelOrder (h : b.Stocked s) (hid : id ≠ 0) (ht : b.Targets id)
    {o : Order} (ho : b.orders.get? id = some o) (ha : o.isActive = true) (p : Price) :
    ((b.cancelOrder id).1.shown s).get? p =
      if s = o.side ∧ p = o.price then
        (((b.shown s).get? p).map (dropShown id o.remainingQuantity)).filter fun v ↦ v.1 ≠ 0
      else (b.shown s).get? p := by
  rw [get?_shown, get?_shown, level_cancelOrder ho ha, orders_cancelOrder ho ha]
  split_ifs with hsp
  · obtain ⟨rfl, rfl⟩ := hsp
    cases hl : b.level o.side o.price with
    | none => rfl
    | some l =>
        have hmem := h.mem_shownQueue hl id
        -- both sides drop the level if the total is used up
        have hshown : ∀ l', l'.totalQuantity =
              (dropShown id o.remainingQuantity (shownLevel b.orders l)).1 →
            shownQueue (b.orders.insert id o.cancel) l' =
              (dropShown id o.remainingQuantity (shownLevel b.orders l)).2 →
            ((some l').filter fun l ↦ !l.isEmpty).map (shownLevel (b.orders.insert id o.cancel)) =
              (some (dropShown id o.remainingQuantity (shownLevel b.orders l))).filter
                fun v ↦ v.1 ≠ 0 := by
          intro l' htotal hqueue
          have hv : shownLevel (b.orders.insert id o.cancel) l' =
              dropShown id o.remainingQuantity (shownLevel b.orders l) := Prod.ext htotal hqueue
          rw [Option.filter_some, Option.filter_some, ← hv]
          by_cases h0 : l'.totalQuantity = 0 <;> simp [Level.isEmpty, shownLevel, h0]
        rw [Option.map_some, Option.map_some, Option.map_some]
        rcases ht o ho ha l hl with hslot | ⟨hout, hdead⟩
        · have hin : id ∈ l.iter := Level.mem_iter.mpr ⟨List.mem_of_getElem? hslot, hid⟩
          have hst := h.level _ l hl
          have hout : id ∉ l.iter.erase id := hst.nodup.not_mem_erase
          have hdrop : dropShown id o.remainingQuantity (shownLevel b.orders l) =
              (l.totalQuantity - o.remainingQuantity,
                (shownQueue b.orders l).filter fun o ↦ o.id ≠ id) := if_pos (hmem.mpr hin)
          refine hshown _ ?_ ?_
          · rw [hdrop, Level.markTombstone_of_slot hslot hid]
          · rw [hdrop, shownQueue, Level.iter_markTombstone hslot hid hst.nodup,
              ordersOf_insert hout,
              ordersOf_erase hst.nodup (fun j hj ↦ (hst.order j hj).imp fun _ hx ↦ ⟨hx.1, hx.2.1⟩),
              shownQueue, List.filter_map]
            rfl
        · have hdrop : dropShown id o.remainingQuantity (shownLevel b.orders l) =
              shownLevel b.orders l := if_neg (hmem.not.mpr hout)
          refine hshown _ ?_ ?_
          · rw [hdrop, Level.markTombstone_of_dead hdead]
            rfl
          · rw [hdrop, Level.markTombstone_of_dead hdead, shownQueue, ordersOf_insert hout]
            rfl
  · refine Option.map_congr fun l hl ↦ ?_
    have hout : id ∉ l.iter := by
      intro hmem
      obtain ⟨o', ho', -, hs, hp, -⟩ := (h.level p l hl).order id hmem
      rw [ho] at ho'
      cases ho'
      exact hsp ⟨hs.symm, hp.symm⟩
    rw [shownLevel, shownQueue, ordersOf_insert hout]
    rfl

/-- Cancelling the same order in both books, where it hits in both. -/
theorem Alike.cancelOrder (h : b.Alike b') (hst : ∀ s, b.Stocked s) (hst' : ∀ s, b'.Stocked s)
    (hid : id ≠ 0) (ht : b.Targets id) (ht' : b'.Targets id) :
    (b.cancelOrder id).1.Alike (b'.cancelOrder id).1 ∧
      (b.cancelOrder id).2 = (b'.cancelOrder id).2 := by
  have hactive := h.active id
  cases hact : activeIn b.orders id with
  | none =>
      rw [hact] at hactive
      rw [cancelOrder_of_inactive (activeIn_eq_none hact),
        cancelOrder_of_inactive (activeIn_eq_none hactive.symm)]
      exact ⟨h, rfl⟩
  | some x =>
      rw [hact] at hactive
      obtain ⟨o, ho, ha, rfl⟩ := activeIn_eq_some hact
      obtain ⟨o', ho', ha', heq⟩ := activeIn_eq_some hactive.symm
      obtain ⟨-, hside, hprice, hrem⟩ := Order.of_unplaced_eq heq
      have hinactive : ∀ x : Order, x.cancel.isActive = false := fun _ ↦ rfl
      obtain ⟨htid, hts⟩ := counters_cancelOrder ho ha
      obtain ⟨htid', hts'⟩ := counters_cancelOrder ho' ha'
      refine ⟨⟨fun s ↦ OrdMap.ext_get? fun p ↦ ?_, fun j ↦ ?_, ?_, ?_, ?_⟩, ?_⟩
      · rw [(hst s).get?_shown_cancelOrder hid ht ho ha,
          (hst' s).get?_shown_cancelOrder hid ht' ho' ha', hside, hprice, hrem, h.shown]
      · rw [orders_cancelOrder ho ha, orders_cancelOrder ho' ha', activeIn_insert, activeIn_insert,
          hinactive, hinactive, h.active]
        rfl
      · rw [(b.shrinks_cancelOrder id).nextOrderId, (b'.shrinks_cancelOrder id).nextOrderId,
          h.nextOrderId]
      · rw [htid, htid', h.nextTradeId]
      · rw [hts, hts', h.nextTimestamp]
      · rw [cancelOrder_of_active ho ha, cancelOrder_of_active ho' ha', hrem]

end OrderBook

end Nanobook
