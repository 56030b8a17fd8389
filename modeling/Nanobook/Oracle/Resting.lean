import Nanobook.Invariant.Stocked
import Nanobook.Oracle.Matching

/-!
# The resting orders of the oracle

The oracle's book read as the lists of levels that `Nanobook.Priority` speaks of: a queue is the ids
of a level whose order is active.  A book is stocked when the quantity of every level is what its
active orders have left.
-/

namespace Nanobook.Oracle

/-! ## Active orders -/

/-- The active orders of a list of ids. -/
def activeOrders (orders : OrdMap OrderId Order) (ids : List OrderId) : List Order :=
  (ordersOf orders ids).filter Order.isActive

section ActiveOrders

variable {orders : OrdMap OrderId Order} {id : OrderId} {ids ids' : List OrderId} {o : Order}

theorem mem_activeOrders : o ∈ activeOrders orders ids ↔
    (∃ id ∈ ids, orders.get? id = some o) ∧ o.isActive = true := by
  simp [activeOrders, ordersOf]

theorem activeOrders_append (ids ids' : List OrderId) : activeOrders orders (ids ++ ids') =
    activeOrders orders ids ++ activeOrders orders ids' := by
  rw [activeOrders, ordersOf, List.filterMap_append, List.filter_append]
  rfl

theorem activeOrders_cons_of_active (h : orders.get? id = some o) (ha : o.isActive = true)
    (ids : List OrderId) : activeOrders orders (id :: ids) = o :: activeOrders orders ids := by
  rw [activeOrders, ordersOf_cons h, List.filter_cons, if_pos ha, activeOrders]

theorem activeOrders_cons_of_inactive (h : ∀ o, orders.get? id = some o → o.isActive = false)
    (ids : List OrderId) : activeOrders orders (id :: ids) = activeOrders orders ids := by
  cases hget : orders.get? id with
  | none => rw [activeOrders, ordersOf, List.filterMap_cons, hget, ← ordersOf, ← activeOrders]
  | some o =>
      rw [activeOrders, ordersOf_cons hget, List.filter_cons, if_neg (by simp [h o hget]),
        activeOrders]

theorem activeOrders_concat_of_inactive (hids : activeOrders orders ids = [])
    (h : ∀ o, orders.get? id = some o → o.isActive = false) :
    activeOrders orders (ids ++ [id]) = [] := by
  rw [activeOrders_append, hids, activeOrders_cons_of_inactive h]
  rfl

/-- Rewriting an order leaves the queues it is not in alone. -/
theorem activeOrders_insert (h : id ∉ ids) (o : Order) :
    activeOrders (orders.insert id o) ids = activeOrders orders ids := by
  rw [activeOrders, ordersOf_insert h, activeOrders]

end ActiveOrders

/-! ## Stocked books -/

/-- A level as its price, its quantity and its active orders. -/
def PriceLevel.resting (orders : OrdMap OrderId Order) (level : PriceLevel) : RestingLevel :=
  ⟨level.price, level.quantity.toNat, activeOrders orders level.orders⟩

/-- The quantity of a level is positive, and what its active orders have left. -/
structure PriceLevel.Stocked (orders : OrdMap OrderId Order) (s : Side) (level : PriceLevel) :
    Prop where
  nodup : level.orders.Nodup
  order : ∀ o ∈ activeOrders orders level.orders, o.side = s ∧ o.price = level.price ∧
    0 < o.remainingQuantity
  quantity : level.quantity = remainingSum (activeOrders orders level.orders)
  pos : 0 < level.quantity
  le : level.quantity ≤ int64Max

section Insert

variable {orders : OrdMap OrderId Order} {s : Side} {level : PriceLevel} {id : OrderId}

/-- Rewriting an order leaves the levels alone that it is not queued at. -/
theorem PriceLevel.resting_insert (h : id ∉ level.orders) (o : Order) :
    level.resting (orders.insert id o) = level.resting orders := by
  rw [PriceLevel.resting, activeOrders_insert h, PriceLevel.resting]

theorem PriceLevel.Stocked.insert (hst : level.Stocked orders s) (h : id ∉ level.orders)
    (o : Order) : level.Stocked (orders.insert id o) s := by
  refine ⟨hst.nodup, ?_, ?_, hst.pos, hst.le⟩
  · rw [activeOrders_insert h]
    exact hst.order
  · rw [activeOrders_insert h]
    exact hst.quantity

end Insert

namespace Book

def resting (b : Book) (s : Side) : List RestingLevel :=
  (b.levels s).map (PriceLevel.resting b.orders)

/-- Every level is stocked, the prices are sorted, and the ids queued are below `next`. -/
structure Stocked (b : Book) (next : OrderId) : Prop where
  level : ∀ s, ∀ level ∈ b.levels s, level.Stocked b.orders s
  sorted : ∀ s, (b.levels s).Pairwise fun l l' ↦ PriceLevels.Better s l.price l'.price
  queued : ∀ s, ∀ level ∈ b.levels s, ∀ id ∈ level.orders, id < next
  stored : ∀ id o, b.orders.get? id = some o → o.id = id

variable {b : Book} {s t : Side} {p : Price} {q : Int} {past ids : List OrderId} {o o' : Order}
  {rest : List PriceLevel} {level : PriceLevel} {n : Quantity} {next : OrderId}

/-- Orders are stored under their ids. -/
theorem Stocked.stored_storeOrder (h : b.Stocked next) (o : Order) (id : OrderId) (x : Order)
    (hx : (b.storeOrder o).orders.get? id = some x) : x.id = id := by
  rw [storeOrder, OrdMap.get?_insert] at hx
  split_ifs at hx with heq
  · rw [heq, ← Option.some.inj hx]
  · exact h.stored id x hx

/-- A stored order that is active is queued on its own side, at its own price. -/
theorem Stocked.of_mem_orders (h : b.Stocked next) (ho : b.orders.get? o.id = some o)
    (ha : o.isActive = true) (hl : level ∈ b.levels s) (hid : o.id ∈ level.orders) :
    o.side = s ∧ o.price = level.price ∧ 0 < o.remainingQuantity :=
  (h.level s level hl).order o (mem_activeOrders.mpr ⟨⟨o.id, hid, ho⟩, ha⟩)

@[simp] theorem levels_storeOrder (b : Book) (o : Order) (s : Side) :
    (b.storeOrder o).levels s = b.levels s := by cases s <;> rfl

@[simp] theorem levels_removeFrom (b : Book) (s t : Side) (p : Price) (q : Int) :
    (b.removeFrom s p q).levels t =
      if t = s then removeQuantity p q (b.levels t) else b.levels t := by
  cases s <;> cases t <;> rfl

@[simp] theorem orders_removeFrom (b : Book) (s : Side) (p : Price) (q : Int) :
    (b.removeFrom s p q).orders = b.orders := by cases s <;> rfl

@[simp] theorem nextOrderId_removeFrom (b : Book) (s : Side) (p : Price) (q : Int) :
    (b.removeFrom s p q).nextOrderId = b.nextOrderId := by cases s <;> rfl

@[simp] theorem nextTradeId_removeFrom (b : Book) (s : Side) (p : Price) (q : Int) :
    (b.removeFrom s p q).nextTradeId = b.nextTradeId := by cases s <;> rfl

@[simp] theorem nextTimestamp_removeFrom (b : Book) (s : Side) (p : Price) (q : Int) :
    (b.removeFrom s p q).nextTimestamp = b.nextTimestamp := by cases s <;> rfl

/-- A level of a stocked book has something in its queue. -/
theorem Stocked.activeOrders_ne_nil (h : b.Stocked next) (hl : level ∈ b.levels s) :
    activeOrders b.orders level.orders ≠ [] := by
  intro hnil
  have hst := h.level s level hl
  have hquantity := hst.quantity
  rw [hnil] at hquantity
  exact absurd hst.pos (by rw [hquantity]; exact lt_irrefl _)

/-- A book is read off its levels and its orders. -/
theorem resting_of_counters {b' : Book} (hlevels : b'.levels s = b.levels s)
    (horders : b'.orders = b.orders) : b'.resting s = b.resting s := by
  rw [resting, hlevels, horders, resting]

theorem Stocked.of_counters {b' : Book} (h : b.Stocked next)
    (hlevels : ∀ s, b'.levels s = b.levels s) (horders : b'.orders = b.orders) :
    b'.Stocked next where
  level s level hl := by
    rw [hlevels] at hl
    rw [horders]
    exact h.level s level hl
  sorted s := by
    rw [hlevels]
    exact h.sorted s
  queued s level hl id hid := by
    rw [hlevels] at hl
    exact h.queued s level hl id hid
  stored := by
    rw [horders]
    exact h.stored

/-! ## The first active order -/

/-- The first active order of the best level; the ids before it are of orders that are not. -/
structure Front (b : Book) (next : OrderId) (s : Side) (p : Price) (q : Int)
    (past : List OrderId) (o : Order) (ids : List OrderId) (rest : List PriceLevel) : Prop where
  stocked : b.Stocked next
  levels : b.levels s = ⟨p, q, past ++ o.id :: ids⟩ :: rest
  past : activeOrders b.orders past = []
  stored : b.orders.get? o.id = some o
  active : o.isActive = true

namespace Front

variable (h : b.Front next s p q past o ids rest)

include h

theorem mem_levels : ⟨p, q, past ++ o.id :: ids⟩ ∈ b.levels s := by
  rw [h.levels]
  exact List.mem_cons_self

theorem first : PriceLevel.Stocked b.orders s ⟨p, q, past ++ o.id :: ids⟩ :=
  h.stocked.level s _ h.mem_levels

theorem order : o.side = s ∧ o.price = p ∧ 0 < o.remainingQuantity :=
  h.stocked.of_mem_orders h.stored h.active h.mem_levels (by simp)

theorem activeOrders_eq :
    activeOrders b.orders (past ++ o.id :: ids) = o :: activeOrders b.orders ids := by
  rw [activeOrders_append, h.past, activeOrders_cons_of_active h.stored h.active, List.nil_append]

theorem resting_eq : b.resting s =
    ⟨p, q.toNat, o :: activeOrders b.orders ids⟩ :: rest.map (PriceLevel.resting b.orders) := by
  rw [resting, h.levels, List.map_cons, PriceLevel.resting, h.activeOrders_eq]

theorem quantity_eq : q = o.remainingQuantity + remainingSum (activeOrders b.orders ids) := by
  have := h.first.quantity
  rw [h.activeOrders_eq, remainingSum_cons] at this
  exact_mod_cast this

theorem notMem : o.id ∉ past ∧ o.id ∉ ids := by
  have hnodup := h.first.nodup
  rw [List.nodup_append] at hnodup
  obtain ⟨-, hids, hdisjoint⟩ := hnodup
  exact ⟨fun hmem ↦ hdisjoint _ hmem _ List.mem_cons_self rfl, (List.nodup_cons.mp hids).1⟩

/-- The order is queued nowhere else. -/
theorem notMem_of_mem_rest (hl : level ∈ rest) : o.id ∉ level.orders := by
  intro hid
  have hmem : level ∈ b.levels s := by
    rw [h.levels]
    exact List.mem_cons_of_mem _ hl
  have hprice := (h.stocked.of_mem_orders h.stored h.active hmem hid).2.1
  have hsorted := h.stocked.sorted s
  rw [h.levels, List.pairwise_cons] at hsorted
  exact (hsorted.1 level hl).ne (h.order.2.1.symm.trans hprice)

theorem notMem_of_ne (ht : t ≠ s) (hl : level ∈ b.levels t) : o.id ∉ level.orders := fun hid ↦
  ht ((h.stocked.of_mem_orders h.stored h.active hl hid).1.symm.trans h.order.1)

/-! ## Taking from the first active order -/

/-- The best level after some of its quantity is taken. -/
theorem levels_take (o' : Order) (hn : n ≤ o.remainingQuantity) :
    ((b.storeOrder o').removeFrom s p n).levels s =
      if q = n then rest else ⟨p, q - n, past ++ o.id :: ids⟩ :: rest := by
  have hquantity := h.quantity_eq
  have hle := h.first.le
  simp only [int64Max] at hle
  have hwrap : wrapI64 (q - n) = q - n := Int.bmod_eq_of_le (by lia) (by lia)
  rw [levels_removeFrom, if_pos rfl, levels_storeOrder, h.levels, removeQuantity, if_pos rfl]
  simp only [hwrap, show q - n ≤ 0 ↔ q = n by lia]

/-- A level of the book after that is the best one, with less quantity, or was there before. -/
theorem mem_levels_take {o' : Order} (hn : n ≤ o.remainingQuantity)
    (hl : level ∈ ((b.storeOrder o').removeFrom s p n).levels t) :
    (t = s ∧ q ≠ n ∧ level = ⟨p, q - n, past ++ o.id :: ids⟩) ∨
      level ∈ b.levels t ∧ o.id ∉ level.orders := by
  by_cases ht : t = s
  · subst ht
    have hkept (hl : level ∈ rest) : level ∈ b.levels t ∧ o.id ∉ level.orders := by
      rw [h.levels]
      exact ⟨List.mem_cons_of_mem _ hl, h.notMem_of_mem_rest hl⟩
    rw [h.levels_take o' hn] at hl
    split_ifs at hl with hq
    · exact .inr (hkept hl)
    · rcases List.mem_cons.mp hl with rfl | hl
      · exact .inl ⟨rfl, hq, rfl⟩
      · exact .inr (hkept hl)
  · rw [levels_removeFrom, if_neg ht, levels_storeOrder] at hl
    exact .inr ⟨hl, h.notMem_of_ne ht hl⟩

/-- What the queue shows once the order has been rewritten. -/
theorem activeOrders_insert_self (o' : Order) :
    activeOrders (b.orders.insert o.id o') (past ++ [o.id]) =
      (if o'.isActive then [o'] else []) ∧
    activeOrders (b.orders.insert o.id o') ids = activeOrders b.orders ids := by
  have hget : (b.orders.insert o.id o').get? o.id = some o' := by
    rw [OrdMap.get?_insert, if_pos rfl]
  constructor
  · rw [activeOrders_append, activeOrders_insert h.notMem.1, h.past, List.nil_append]
    split_ifs with ha
    · rw [activeOrders_cons_of_active hget ha]
      rfl
    · rw [activeOrders_cons_of_inactive]
      · rfl
      · intro x hx
        obtain rfl := Option.some.inj (hget.symm.trans hx)
        simpa using ha
  · exact activeOrders_insert h.notMem.2 o'

variable (hid : o'.id = o.id) (hn : n ≤ o.remainingQuantity)

include hid

theorem resting_take_of_ne (ht : t ≠ s) :
    ((b.storeOrder o').removeFrom s p n).resting t = b.resting t := by
  rw [resting, levels_removeFrom, if_neg ht, levels_storeOrder, orders_removeFrom, storeOrder, hid,
    resting]
  exact List.map_congr_left fun level hl ↦ PriceLevel.resting_insert (h.notMem_of_ne ht hl) o'

include hn

theorem resting_take : ((b.storeOrder o').removeFrom s p n).resting s =
    if q = n then rest.map (PriceLevel.resting b.orders)
    else ⟨p, (q - n).toNat, activeOrders (b.orders.insert o.id o') (past ++ o.id :: ids)⟩ ::
      rest.map (PriceLevel.resting b.orders) := by
  have hrest : rest.map (PriceLevel.resting (b.orders.insert o.id o')) =
      rest.map (PriceLevel.resting b.orders) :=
    List.map_congr_left fun level hl ↦ PriceLevel.resting_insert (h.notMem_of_mem_rest hl) o'
  rw [resting, h.levels_take o' hn, orders_removeFrom, storeOrder, hid]
  split_ifs
  · exact hrest
  · rw [List.map_cons, hrest]
    rfl

/-- Only the best level has to be looked at again. -/
theorem stocked_take
    (hfirst : q ≠ n → PriceLevel.Stocked (b.orders.insert o.id o') s
      ⟨p, q - n, past ++ o.id :: ids⟩) :
    ((b.storeOrder o').removeFrom s p n).Stocked next := by
  have hsorted := h.stocked.sorted s
  rw [h.levels] at hsorted
  constructor
  · intro t level hl
    rw [orders_removeFrom, storeOrder, hid]
    rcases h.mem_levels_take hn hl with ⟨rfl, hq, rfl⟩ | ⟨hl, hout⟩
    · exact hfirst hq
    · exact (h.stocked.level t level hl).insert hout o'
  · intro t
    by_cases ht : t = s
    · subst ht
      rw [h.levels_take o' hn]
      split_ifs
      · exact (List.pairwise_cons.mp hsorted).2
      · exact List.pairwise_cons.mpr (List.pairwise_cons.mp hsorted)
    · rw [levels_removeFrom, if_neg ht, levels_storeOrder]
      exact h.stocked.sorted t
  · intro t level hl id hidmem
    rcases h.mem_levels_take hn hl with ⟨rfl, -, rfl⟩ | ⟨hl, -⟩
    · refine h.stocked.queued t ⟨p, q, past ++ o.id :: ids⟩ ?_ id hidmem
      rw [h.levels]
      exact List.mem_cons_self
    · exact h.stocked.queued t level hl id hidmem
  · intro id x hx
    rw [orders_removeFrom] at hx
    exact h.stocked.stored_storeOrder o' id x hx

end Front

section Drop

variable (h : b.Front next s p q past o ids rest)

include h

/-- The order goes, and the level with it if nothing is queued behind the order. -/
theorem Front.drop (hid : o'.id = o.id) (ha : o'.isActive = false) :
    ((b.storeOrder o').removeFrom s p o.remainingQuantity).Stocked next ∧
      ((b.storeOrder o').removeFrom s p o.remainingQuantity).resting s =
        dropFirst p q.toNat o (activeOrders b.orders ids)
          (rest.map (PriceLevel.resting b.orders)) := by
  obtain ⟨hpast, hids⟩ := h.activeOrders_insert_self o'
  rw [ha] at hpast
  have hqueue : activeOrders (b.orders.insert o.id o') (past ++ o.id :: ids) =
      activeOrders b.orders ids := by
    rw [List.append_cons, activeOrders_append, hpast, hids]
    rfl
  have hquantity := h.quantity_eq
  have hfirst := h.first
  constructor
  · refine h.stocked_take hid le_rfl fun hq ↦ ⟨hfirst.nodup, ?_, ?_, ?_, ?_⟩
    · rw [hqueue]
      intro x hx
      refine hfirst.order x ?_
      rw [h.activeOrders_eq]
      exact List.mem_cons_of_mem _ hx
    · rw [hqueue]
      lia
    · simp only
      lia
    · have := hfirst.le
      simp only at this ⊢
      lia
  · rw [h.resting_take hid le_rfl, hqueue, dropFirst]
    have hzero : q = o.remainingQuantity ↔ q.toNat - o.remainingQuantity = 0 := by lia
    have hsub : (q - o.remainingQuantity).toNat = q.toNat - o.remainingQuantity := by lia
    simp only [hzero, hsub]

/-- The order is filled in part. -/
theorem Front.shrink (hn : n < o.remainingQuantity) :
    ((b.storeOrder (o.fill n)).removeFrom s p n).Stocked next ∧
      ((b.storeOrder (o.fill n)).removeFrom s p n).resting s =
        ⟨p, q.toNat - n, o.fill n :: activeOrders b.orders ids⟩ ::
          rest.map (PriceLevel.resting b.orders) := by
  have hactive : (o.fill n).isActive = true :=
    (o.settled_fill n).mpr (Nat.sub_pos_of_lt hn)
  obtain ⟨hpast, hids⟩ := h.activeOrders_insert_self (o.fill n)
  rw [hactive, if_pos rfl] at hpast
  have hqueue : activeOrders (b.orders.insert o.id (o.fill n)) (past ++ o.id :: ids) =
      o.fill n :: activeOrders b.orders ids := by
    rw [List.append_cons, activeOrders_append, hpast, hids]
    rfl
  have hquantity := h.quantity_eq
  have hfirst := h.first
  obtain ⟨hside, hprice, -⟩ := h.order
  constructor
  · refine h.stocked_take rfl hn.le fun hq ↦ ⟨hfirst.nodup, ?_, ?_, ?_, ?_⟩
    · rw [hqueue]
      intro x hx
      rcases List.mem_cons.mp hx with rfl | hx
      · exact ⟨hside, hprice, Nat.sub_pos_of_lt hn⟩
      · refine hfirst.order x ?_
        rw [h.activeOrders_eq]
        exact List.mem_cons_of_mem _ hx
    · rw [hqueue, remainingSum_cons, Order.fill_remainingQuantity]
      lia
    · simp only
      lia
    · have := hfirst.le
      simp only at this ⊢
      lia
  · have hid : (o.fill n).id = o.id := rfl
    rw [h.resting_take hid hn.le, if_neg (by lia), hqueue]
    simp only [List.cons.injEq, RestingLevel.mk.injEq, true_and, and_true]
    lia

end Drop

end Book

end Nanobook.Oracle
