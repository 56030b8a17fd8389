import Nanobook.Invariant.StopBook

/-!
# Stop books that differ in settled orders

Two stop books are alike when they differ in nothing but the records of stop orders that are no
longer pending.  `clearHistory` leads from a well-formed stop book to one that is alike, and every
operation looks at pending orders only.

The records of ids from `n` on are the same altogether: a new stop order is told the status it is
left with, pending or not.
-/

namespace Nanobook

namespace StopBook

/-- The stop books differ in nothing but the records of orders that are not pending, under ids below
`n`. -/
structure Alike (n : OrderId) (sb sb' : StopBook) : Prop where
  rest : ∃ orders, sb' = { sb with orders := orders }
  pending : ∀ id o, sb.Pending id o ↔ sb'.Pending id o
  later : ∀ id, n ≤ id → sb.orders.get? id = sb'.orders.get? id

variable {n : OrderId} {sb sb' sb'' t t' : StopBook} {id : OrderId} {o : StopOrder}
  {acc acc' : StopBook × List StopOrder}

theorem Alike.refl (n : OrderId) (sb : StopBook) : Alike n sb sb :=
  ⟨⟨sb.orders, rfl⟩, fun _ _ ↦ Iff.rfl, fun _ _ ↦ rfl⟩

theorem Alike.trans (h : Alike n sb sb') (h' : Alike n sb' sb'') : Alike n sb sb'' where
  rest := by
    obtain ⟨orders, rfl⟩ := h.rest
    obtain ⟨orders', rfl⟩ := h'.rest
    exact ⟨orders', rfl⟩
  pending id o := (h.pending id o).trans (h'.pending id o)
  later id hid := (h.later id hid).trans (h'.later id hid)

/-- A change that leaves the table alone. -/
theorem Alike.of_orders (h : Alike n sb sb') (ht : ∃ orders, t' = { t with orders := orders })
    (hold : t.orders = sb.orders) (hold' : t'.orders = sb'.orders) : Alike n t t' where
  rest := ht
  pending id o := by simpa only [Pending, hold, hold'] using h.pending id o
  later id hid := by simpa only [hold, hold'] using h.later id hid

/-- One order is written in both tables. -/
theorem Alike.insert_order (h : Alike n sb sb') (id : OrderId) (o : StopOrder)
    (ht : ∃ orders, t' = { t with orders := orders })
    (hnew : t.orders = sb.orders.insert id o) (hnew' : t'.orders = sb'.orders.insert id o) :
    Alike n t t' where
  rest := ht
  pending j x := by rw [pending_insert hnew, pending_insert hnew', h.pending]
  later j hj := by rw [hnew, hnew', OrdMap.get?_insert, OrdMap.get?_insert, h.later j hj]

theorem Alike.stops (h : Alike n sb sb') (s : Side) : sb.stops s = sb'.stops s := by
  obtain ⟨orders, rfl⟩ := h.rest
  exact (stops_mk sb orders _ _ _ s).symm

/-- Both books find the same pending order under an id, or neither finds one. -/
theorem Alike.cases (h : Alike n sb sb') (id : OrderId) :
    (∃ o, sb.Pending id o ∧ sb'.Pending id o) ∨
      ((∀ o, ¬ sb.Pending id o) ∧ ∀ o, ¬ sb'.Pending id o) := by
  by_cases hp : ∃ o, sb.Pending id o
  · obtain ⟨o, ho⟩ := hp
    exact .inl ⟨o, ho, (h.pending id o).mp ho⟩
  · exact .inr ⟨fun o ho ↦ hp ⟨o, ho⟩, fun o ho ↦ hp ⟨o, (h.pending id o).mpr ho⟩⟩

theorem Alike.containsPending (h : Alike n sb sb') (id : OrderId) :
    sb.containsPending id = sb'.containsPending id := by
  rw [Bool.eq_iff_iff, containsPending_iff, containsPending_iff]
  exact exists_congr (h.pending id)

theorem updateStops_mk (sb : StopBook) (orders : OrdMap OrderId StopOrder) (side : Side)
    (f : OrdMap Price (List OrderId) → OrdMap Price (List OrderId)) :
    ({ sb with orders := orders } : StopBook).updateStops side f =
      { sb.updateStops side f with orders := orders } := by
  cases side <;> rfl

theorem Alike.updateStops (h : Alike n sb sb') (side : Side)
    (f : OrdMap Price (List OrderId) → OrdMap Price (List OrderId)) :
    Alike n (sb.updateStops side f) (sb'.updateStops side f) := by
  refine h.of_orders ?_ (orders_updateStops sb side f) (orders_updateStops sb' side f)
  obtain ⟨orders, rfl⟩ := h.rest
  exact ⟨orders, updateStops_mk sb orders side f⟩

/-- The pending orders are what `clearHistory` keeps. -/
theorem alike_clearHistory (hw : sb.WF) (hn : ∀ id, n ≤ id → sb.orders.get? id = none) :
    Alike n sb sb.clearHistory where
  rest := by
    have htrailing : sb.clearHistory.trailingIds = sb.trailingIds := by
      refine List.filter_eq_self.mpr fun id hid ↦ ?_
      obtain ⟨o, ho, -⟩ := (hw.trailing id).mp hid
      obtain ⟨hget, -⟩ := (hw.clearHistory.2 id o).mpr ho
      exact (OrdMap.contains_iff _ _).mpr ⟨o, hget⟩
    refine ⟨sb.clearHistory.orders, ?_⟩
    rw [← htrailing]
    rfl
  pending id o := (hw.clearHistory.2 id o).symm
  later id hid := by
    rw [hn id hid, StopBook.clearHistory, OrdMap.get?_filter, hn id hid]
    rfl

/-! ## Inserting and cancelling -/

theorem Alike.insert (h : Alike n sb sb') (order : StopOrder) :
    Alike n (sb.insert order) (sb'.insert order) := by
  refine h.insert_order order.id order ?_ ?_ ?_
  · obtain ⟨orders, rfl⟩ := h.rest
    refine ⟨orders.insert order.id order, ?_⟩
    simp only [StopBook.insert, updateStops_mk, trailingIds_updateStops]
  · simp only [StopBook.insert, orders_updateStops]
  · simp only [StopBook.insert, orders_updateStops]

theorem Alike.cancel (h : Alike n sb sb') (id : OrderId) :
    Alike n (sb.cancel id) (sb'.cancel id) := by
  rcases h.cases id with ⟨o, ho, ho'⟩ | ⟨hn, hn'⟩
  · rw [cancel_of_pending ho, cancel_of_pending ho']
    refine h.insert_order id { o with status := .cancelled } ?_ rfl rfl
    obtain ⟨orders, rfl⟩ := h.rest
    refine ⟨orders.insert id { o with status := .cancelled }, ?_⟩
    simp only [updateStops_mk]
  · rw [cancel_of_not_pending hn, cancel_of_not_pending hn']
    exact h

/-! ## Triggering -/

theorem triggerId_of_pending (ho : acc.1.Pending id o) : triggerId acc id =
    ({ acc.1 with orders := acc.1.orders.insert id (triggered o) }, acc.2 ++ [triggered o]) := by
  simp only [triggerId, ho.1, ho.2, if_true]
  rfl

theorem triggerId_of_not_pending (h : ∀ o, ¬ acc.1.Pending id o) : triggerId acc id = acc := by
  rw [triggerId]
  cases ho : acc.1.orders.get? id with
  | none => rfl
  | some o => exact if_neg fun hs ↦ h o ⟨ho, hs⟩

/-- The books are alike, and the same orders have been collected from them. -/
def CollectsAlike (n : OrderId) (acc acc' : StopBook × List StopOrder) : Prop :=
  Alike n acc.1 acc'.1 ∧ acc.2 = acc'.2

theorem CollectsAlike.triggerId (h : CollectsAlike n acc acc') (id : OrderId) :
    CollectsAlike n (triggerId acc id) (triggerId acc' id) := by
  obtain ⟨h, heq⟩ := h
  rcases h.cases id with ⟨o, ho, ho'⟩ | ⟨hn, hn'⟩
  · rw [triggerId_of_pending ho, triggerId_of_pending ho']
    refine ⟨h.insert_order id (triggered o) ?_ rfl rfl, by rw [heq]⟩
    obtain ⟨orders, hrest⟩ := h.rest
    exact ⟨acc'.1.orders.insert id (triggered o), by rw [hrest]⟩
  · rw [triggerId_of_not_pending hn, triggerId_of_not_pending hn']
    exact ⟨h, heq⟩

theorem CollectsAlike.triggerKey (h : CollectsAlike n acc acc') (side : Side) (key : Price) :
    CollectsAlike n (triggerKey side acc key) (triggerKey side acc' key) := by
  obtain ⟨h, heq⟩ := h
  simp only [StopBook.triggerKey, h.stops side]
  split
  · exact ⟨h, heq⟩
  · next ids _ =>
      exact List.foldl_rel (r := CollectsAlike n) ⟨h.updateStops side fun m ↦ m.erase key, heq⟩
        fun id _ _ _ hacc ↦ hacc.triggerId id

theorem CollectsAlike.triggerKeys (h : CollectsAlike n acc acc') (side : Side) (keys : List Price) :
    CollectsAlike n (keys.foldl (StopBook.triggerKey side) acc)
      (keys.foldl (StopBook.triggerKey side) acc') :=
  List.foldl_rel h fun key _ _ _ hacc ↦ hacc.triggerKey side key

theorem Alike.triggerBuys (h : Alike n sb sb') (p : Price) :
    CollectsAlike n (sb.triggerBuys p) (sb'.triggerBuys p) := by
  have hstops : sb.buyStops = sb'.buyStops := h.stops .buy
  simp only [StopBook.triggerBuys, hstops]
  have hstart : CollectsAlike n (sb, []) (sb', []) := ⟨h, rfl⟩
  exact hstart.triggerKeys .buy _

theorem CollectsAlike.triggerSells (h : CollectsAlike n acc acc') (p : Price) :
    CollectsAlike n (triggerSells acc p) (triggerSells acc' p) := by
  have hstops : acc.1.sellStops = acc'.1.sellStops := h.1.stops .sell
  simp only [StopBook.triggerSells, hstops]
  exact h.triggerKeys .sell _

theorem Alike.pruneTrailing (h : Alike n sb sb') : Alike n sb.pruneTrailing sb'.pruneTrailing := by
  refine h.of_orders ?_ rfl rfl
  have hcontains : sb.containsPending = sb'.containsPending := funext h.containsPending
  obtain ⟨orders, hrest⟩ := h.rest
  refine ⟨sb'.orders, ?_⟩
  rw [StopBook.pruneTrailing, StopBook.pruneTrailing, hcontains, hrest]

/-- A trade triggers the same stops. -/
theorem Alike.collectTriggered (h : Alike n sb sb') (p : Price) :
    CollectsAlike n (sb.collectTriggered p) (sb'.collectTriggered p) := by
  obtain ⟨hbook, heq⟩ := (h.triggerBuys p).triggerSells p
  simp only [StopBook.collectTriggered, heq]
  refine ⟨?_, rfl⟩
  split_ifs
  · exact hbook
  · exact hbook.pruneTrailing

/-! ## Trailing stops -/

theorem updateTrailingStop_of_not_pending (h : ∀ o, ¬ sb.Pending id o) (p : Price) :
    updateTrailingStop p sb id = sb := by
  rw [updateTrailingStop]
  cases ho : sb.orders.get? id with
  | none => rfl
  | some o =>
      dsimp only
      split
      · next hs _ => exact absurd ⟨ho, hs⟩ (h o)
      · rfl

theorem Alike.recordPrice (h : Alike n sb sb') (p : Price) :
    Alike n (sb.recordPrice p) (sb'.recordPrice p) := by
  refine h.of_orders ?_ rfl rfl
  obtain ⟨orders, rfl⟩ := h.rest
  exact ⟨orders, rfl⟩

theorem Alike.updateTrailingStop (h : Alike n sb sb') (p : Price) (id : OrderId) :
    Alike n (updateTrailingStop p sb id) (updateTrailingStop p sb' id) := by
  rcases h.cases id with ⟨o, ho, ho'⟩ | ⟨hn, hn'⟩
  · obtain ⟨orders, rfl⟩ := h.rest
    have hoffset : ∀ w m, ({ sb with orders := orders } : StopBook).trailingOffset w m =
        sb.trailingOffset w m := fun w m ↦ by cases m <;> rfl
    simp only [StopBook.updateTrailingStop, ho.1, ho.2, ho'.1, hoffset]
    cases hm : o.trailMethod with
    | none => exact h
    | some m =>
        dsimp only
        split_ifs
        · exact h.insert_order _ _ ⟨_, rfl⟩ rfl rfl
        · exact h.insert_order _ _ ⟨_, by rw [updateStops_mk]⟩ (by rw [orders_updateStops])
            (by rw [orders_updateStops])
        · exact h.insert_order _ _ ⟨_, rfl⟩ rfl rfl
  · rw [updateTrailingStop_of_not_pending hn, updateTrailingStop_of_not_pending hn']
    exact h

theorem Alike.updateTrailingStops (h : Alike n sb sb') (p : Price) :
    Alike n (sb.updateTrailingStops p) (sb'.updateTrailingStops p) := by
  have hrec := h.recordPrice p
  have htrailing : (sb.recordPrice p).trailingIds = (sb'.recordPrice p).trailingIds := by
    obtain ⟨orders, rfl⟩ := h.rest
    rfl
  simp only [StopBook.updateTrailingStops, htrailing]
  exact List.foldl_rel hrec fun id _ _ _ hacc ↦ hacc.updateTrailingStop p id

end StopBook

end Nanobook
