import Nanobook.Priority
import Nanobook.Invariant.WellFormed

/-!
# Stocked sides

A side is stocked when every level has something to fill: a queue of stored orders of that side and
price with quantity remaining, and a cached total that they cover.  This is what matching needs of
the other side, and what it keeps.  `resting` reads such a side as the list of levels that
`Nanobook.Priority` speaks of.
-/

namespace Nanobook

/-- The stored orders of a list of ids. -/
def ordersOf (orders : OrdMap OrderId Order) (ids : List OrderId) : List Order :=
  ids.filterMap orders.get?

theorem ordersOf_cons {orders : OrdMap OrderId Order} {id : OrderId} {o : Order}
    (h : orders.get? id = some o) (ids : List OrderId) :
    ordersOf orders (id :: ids) = o :: ordersOf orders ids := by
  simp [ordersOf, h]

/-- Rewriting an order leaves the queues it is not in alone. -/
theorem ordersOf_insert {orders : OrdMap OrderId Order} {id : OrderId} {ids : List OrderId}
    (h : id ∉ ids) (o : Order) : ordersOf (orders.insert id o) ids = ordersOf orders ids := by
  refine List.filterMap_congr fun j hj ↦ ?_
  rw [OrdMap.get?_insert, if_neg (ne_of_mem_of_not_mem hj h)]

namespace Level

structure Stocked (orders : OrdMap OrderId Order) (s : Side) (p : Price) (l : Level) : Prop where
  nodup : l.iter.Nodup
  nonempty : l.iter ≠ []
  order : ∀ id ∈ l.iter, ∃ o, orders.get? id = some o ∧ o.id = id ∧ o.side = s ∧ o.price = p ∧
    0 < o.remainingQuantity
  total : l.totalQuantity ≤ remainingSum (ordersOf orders l.iter)

theorem Stocked.insert_of_notMem {orders : OrdMap OrderId Order} {s : Side} {p : Price} {l : Level}
    (h : l.Stocked orders s p) {id : OrderId} (hid : id ∉ l.iter) (o : Order) :
    l.Stocked (orders.insert id o) s p where
  nodup := h.nodup
  nonempty := h.nonempty
  order j hj := by
    rw [OrdMap.get?_insert, if_neg (ne_of_mem_of_not_mem hj hid)]
    exact h.order j hj
  total := by rw [ordersOf_insert hid]; exact h.total

end Level

namespace OrderBook

structure Stocked (b : OrderBook) (s : Side) : Prop where
  side : (b.side s).side = s
  cached : (b.side s).Cached
  level : ∀ p l, b.level s p = some l → l.Stocked b.orders s p

/-- The levels of a side from best to worst, with the orders queued there. -/
def resting (b : OrderBook) (s : Side) : List RestingLevel :=
  (b.side s).bestToWorst.map fun e ↦ ⟨e.1, e.2.totalQuantity, ordersOf b.orders e.2.iter⟩

/-- Levels that keep their live ids and their totals, whatever happens to their slots. -/
theorem stocked_of_mapVals {b b' : OrderBook} {s : Side} {f : Price → Level → Level}
    (hf : ∀ p l, (f p l).iter = l.iter ∧ (f p l).totalQuantity = l.totalQuantity)
    (hside : b'.side s = { b.side s with levels := (b.side s).levels.mapVals f })
    (horders : b'.orders = b.orders) (h : b.Stocked s) : b'.Stocked s where
  side := by rw [hside]; exact h.side
  cached := by rw [hside]; exact PriceLevels.cached_mapVals h.cached f
  level p l' hl' := by
    rw [OrderBook.level, hside] at hl'
    obtain ⟨l, hl, rfl⟩ := Option.map_eq_some_iff.mp
      ((OrdMap.get?_mapVals (b.side s).levels f p).symm.trans hl')
    obtain ⟨hiter, htotal⟩ := hf p l
    have hst := h.level p l hl
    rw [horders]
    exact ⟨hiter ▸ hst.nodup, hiter ▸ hst.nonempty, hiter ▸ hst.order,
      by rw [hiter, htotal]; exact hst.total⟩

theorem resting_of_mapVals {b b' : OrderBook} {s : Side} {f : Price → Level → Level}
    (hf : ∀ p l, (f p l).iter = l.iter ∧ (f p l).totalQuantity = l.totalQuantity)
    (hside : b'.side s = { b.side s with levels := (b.side s).levels.mapVals f })
    (horders : b'.orders = b.orders) : b'.resting s = b.resting s := by
  rw [resting, hside, PriceLevels.bestToWorst_mapVals, horders, List.map_map, resting]
  refine List.map_congr_left fun e _ ↦ ?_
  simp only [Function.comp_apply, (hf e.1 e.2).1, (hf e.1 e.2).2]

/-- The first order of the best level, and where it stands. -/
structure Front (b : OrderBook) (s : Side) (p : Price) (l : Level) (rest : List (Price × Level))
    (o : Order) (ids : List OrderId) : Prop where
  stocked : b.Stocked s
  best : (b.side s).bestToWorst = (p, l) :: rest
  iter : l.iter = o.id :: ids
  stored : b.orders.get? o.id = some o
  orderSide : o.side = s
  price : o.price = p
  remaining : 0 < o.remainingQuantity

variable {b b' : OrderBook} {s : Side} {p : Price} {l : Level} {rest : List (Price × Level)}
  {o : Order} {ids : List OrderId}

theorem Stocked.front (h : b.Stocked s) (hbest : (b.side s).bestToWorst = (p, l) :: rest) :
    ∃ o ids, b.Front s p l rest o ids := by
  have hl := h.level p l (PriceLevels.getLevel_of_bestToWorst hbest)
  obtain ⟨id, ids, hiter⟩ := List.exists_cons_of_ne_nil hl.nonempty
  obtain ⟨o, ho, rfl, hs, hp, hr⟩ := hl.order id (hiter ▸ List.mem_cons_self)
  exact ⟨o, ids, h, hbest, hiter, ho, hs, hp, hr⟩

theorem Stocked.front_of_head (h : b.Stocked s) {level : RestingLevel}
    (hl : level ∈ (b.resting s).head?) :
    ∃ l rest o ids, b.Front s level.price l rest o ids := by
  rw [resting, List.head?_map] at hl
  cases hb : (b.side s).bestToWorst with
  | nil => simp [hb] at hl
  | cons e rest =>
      obtain rfl :
        (⟨e.1, e.2.totalQuantity, ordersOf b.orders e.2.iter⟩ : RestingLevel) = level := by
        simpa [hb] using hl
      obtain ⟨o, ids, hf⟩ := h.front (p := e.1) (l := e.2) hb
      exact ⟨e.2, rest, o, ids, hf⟩

theorem getLevel_eq_none_of_resting (hp : ∀ level ∈ b.resting s, level.price ≠ p) :
    (b.side s).getLevel p = none := by
  cases hl : (b.side s).getLevel p with
  | none => rfl
  | some l =>
      exact absurd rfl (hp _ (List.mem_map.mpr ⟨(p, l), PriceLevels.mem_bestToWorst.mpr hl, rfl⟩))

/-- The best price is that of the first level. -/
theorem Stocked.bestPrice_eq (h : b.Stocked s) :
    (b.side s).bestPrice = (b.resting s).head?.map RestingLevel.price := by
  rw [h.cached, PriceLevels.extremeKey_eq, resting, List.head?_map, Option.map_map]
  rfl

theorem Stocked.queue_ne_nil (h : b.Stocked s) {level : RestingLevel} (hl : level ∈ b.resting s) :
    level.queue ≠ [] := by
  obtain ⟨e, he, rfl⟩ := List.mem_map.mp hl
  have hlv := h.level e.1 e.2 (PriceLevels.mem_bestToWorst.mp he)
  obtain ⟨id, ids, hiter⟩ := List.exists_cons_of_ne_nil hlv.nonempty
  obtain ⟨o, ho, -⟩ := hlv.order id (hiter ▸ List.mem_cons_self)
  rw [hiter, ordersOf_cons ho]
  exact List.cons_ne_nil _ _

namespace Front

theorem level (h : b.Front s p l rest o ids) : l.Stocked b.orders s p :=
  h.stocked.level p l (PriceLevels.getLevel_of_bestToWorst h.best)

theorem notMem_ids (h : b.Front s p l rest o ids) : o.id ∉ ids := by
  have := h.level.nodup
  rw [h.iter] at this
  exact (List.nodup_cons.mp this).1

/-- The first order is queued at its own price only. -/
theorem notMem_rest (h : b.Front s p l rest o ids) {e : Price × Level} (he : e ∈ rest) :
    o.id ∉ e.2.iter := by
  intro hmem
  have hlv := h.stocked.level e.1 e.2 (PriceLevels.mem_bestToWorst.mp
    (h.best ▸ List.mem_cons_of_mem _ he))
  obtain ⟨o', ho', -, -, hp, -⟩ := hlv.order o.id hmem
  rw [h.stored] at ho'
  cases ho'
  exact PriceLevels.ne_of_mem_rest h.best he (hp.symm.trans h.price)

theorem resting_eq (h : b.Front s p l rest o ids) :
    b.resting s = ⟨p, l.totalQuantity, o :: ordersOf b.orders ids⟩ ::
      rest.map fun e ↦ ⟨e.1, e.2.totalQuantity, ordersOf b.orders e.2.iter⟩ := by
  rw [resting, h.best, List.map_cons, h.iter, ordersOf_cons h.stored]

theorem total_le (h : b.Front s p l rest o ids) :
    l.totalQuantity ≤ o.remainingQuantity + remainingSum (ordersOf b.orders ids) := by
  have := h.level.total
  rwa [h.iter, ordersOf_cons h.stored] at this

/-- The levels behind the best one read the same once the first order is rewritten. -/
theorem rest_eq (h : b.Front s p l rest o ids) (o' : Order) :
    (rest.map fun e ↦ (⟨e.1, e.2.totalQuantity,
        ordersOf (b.orders.insert o.id o') e.2.iter⟩ : RestingLevel)) =
      rest.map fun e ↦ ⟨e.1, e.2.totalQuantity, ordersOf b.orders e.2.iter⟩ := by
  refine List.map_congr_left fun e he ↦ ?_
  rw [ordersOf_insert (h.notMem_rest he)]

theorem stocked_rest (h : b.Front s p l rest o ids) (o' : Order) {e : Price × Level}
    (he : e ∈ rest) :
    e.2.Stocked (b.orders.insert o.id o') s e.1 := by
  have hlv := h.stocked.level e.1 e.2 (PriceLevels.mem_bestToWorst.mp
    (h.best ▸ List.mem_cons_of_mem _ he))
  exact hlv.insert_of_notMem (h.notMem_rest he) o'

/-- What the book is once the first order has left its queue: the level goes with it if its total
is used up. -/
theorem drop (h : b.Front s p l rest o ids) {o' : Order} (l' : Level)
    (hside : (b'.side s).side = s) (hcached : (b'.side s).Cached)
    (horders : b'.orders = b.orders.insert o.id o') (hiter : l'.iter = ids)
    (htotal : l'.totalQuantity = l.totalQuantity - o.remainingQuantity)
    (hbest : (b'.side s).bestToWorst = if l'.totalQuantity = 0 then rest else (p, l') :: rest) :
    b'.Stocked s ∧ b'.resting s = dropFirst p l.totalQuantity o (ordersOf b.orders ids)
      (rest.map fun e ↦ ⟨e.1, e.2.totalQuantity, ordersOf b.orders e.2.iter⟩) := by
  have hids : ordersOf b'.orders ids = ordersOf b.orders ids := by
    rw [horders, ordersOf_insert h.notMem_ids]
  constructor
  · refine ⟨hside, hcached, fun q m hm ↦ ?_⟩
    have hmem := PriceLevels.mem_bestToWorst.mpr hm
    rw [hbest] at hmem
    rw [horders]
    split_ifs at hmem with h0
    · exact h.stocked_rest o' hmem
    · rcases List.mem_cons.mp hmem with heq | hmem
      · cases heq
        have hsum := h.total_le
        refine ⟨?_, ?_, fun id hid ↦ ?_, ?_⟩
        · rw [hiter]
          have := h.level.nodup
          rw [h.iter] at this
          exact (List.nodup_cons.mp this).2
        · -- the total left over is covered by the orders behind the first
          rw [hiter]
          rintro rfl
          simp only [ordersOf, List.filterMap_nil, remainingSum_nil] at hsum
          lia
        · rw [hiter] at hid
          rw [OrdMap.get?_insert, if_neg (ne_of_mem_of_not_mem hid h.notMem_ids)]
          exact h.level.order id (h.iter ▸ List.mem_cons_of_mem _ hid)
        · rw [hiter, ← horders, hids]
          lia
      · exact h.stocked_rest o' hmem
  · rw [resting, hbest, dropFirst, ← htotal]
    split_ifs with h0
    · rw [horders]
      exact h.rest_eq o'
    · rw [List.map_cons, hiter, hids, horders, h.rest_eq o']

/-- What the book is once the first order has been filled in part. -/
theorem shrink (h : b.Front s p l rest o ids) {n : Quantity} (hn : n < o.remainingQuantity)
    (l' : Level) (hside : (b'.side s).side = s) (hcached : (b'.side s).Cached)
    (horders : b'.orders = b.orders.insert o.id (o.fill n)) (hiter : l'.iter = l.iter)
    (htotal : l'.totalQuantity = l.totalQuantity - n)
    (hbest : (b'.side s).bestToWorst = (p, l') :: rest) :
    b'.Stocked s ∧ b'.resting s =
      ⟨p, l.totalQuantity - n, o.fill n :: ordersOf b.orders ids⟩ ::
        rest.map fun e ↦ ⟨e.1, e.2.totalQuantity, ordersOf b.orders e.2.iter⟩ := by
  have hstored : b'.orders.get? o.id = some (o.fill n) := by
    rw [horders, OrdMap.get?_insert, if_pos rfl]
  have hqueue : ordersOf b'.orders l'.iter = o.fill n :: ordersOf b.orders ids := by
    rw [hiter, h.iter, ordersOf_cons hstored, horders, ordersOf_insert h.notMem_ids]
  constructor
  · refine ⟨hside, hcached, fun q m hm ↦ ?_⟩
    have hmem := PriceLevels.mem_bestToWorst.mpr hm
    rw [hbest] at hmem
    rcases List.mem_cons.mp hmem with heq | hmem
    · cases heq
      have hsum := h.total_le
      refine ⟨hiter ▸ h.level.nodup, hiter ▸ h.level.nonempty, fun id hid ↦ ?_, ?_⟩
      · rw [hiter, h.iter] at hid
        rcases List.mem_cons.mp hid with rfl | hid
        · exact ⟨o.fill n, hstored, rfl, h.orderSide, h.price, Nat.sub_pos_of_lt hn⟩
        · rw [horders, OrdMap.get?_insert, if_neg (ne_of_mem_of_not_mem hid h.notMem_ids)]
          exact h.level.order id (h.iter ▸ List.mem_cons_of_mem _ hid)
      · rw [hqueue, remainingSum_cons, Order.fill_remainingQuantity]
        lia
    · rw [horders]
      exact h.stocked_rest _ hmem
  · rw [resting, hbest, List.map_cons, hqueue, htotal, horders, h.rest_eq]

end Front

end OrderBook

end Nanobook
