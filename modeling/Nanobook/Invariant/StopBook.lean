import Nanobook.Stop

/-!
# Well-formed stop books

A stop order is recorded up to three times: in the table, in the price index of its side, and among
the trailing ids.  `StopBook.Indexed` says that the indices list exactly the pending orders of the
table, each once and where its record says, and `StopBook.WF` adds the trailing ids.  Every
operation keeps them, whatever it moves between the lists.

`Indexed` is kept by each price level that `collect_triggered` takes off an index, while the
trailing ids are only put right at its end.
-/

namespace Nanobook

/-! ## Price indices -/

/-- The ids an index lists at a price. -/
def idsAt (m : OrdMap Price (List OrderId)) (p : Price) : List OrderId := (m.get? p).getD []

/-- No price maps to an empty list, and none lists an id twice. -/
def TidyIndex (m : OrdMap Price (List OrderId)) : Prop :=
  ∀ p ids, m.get? p = some ids → ids ≠ [] ∧ ids.Nodup

section Index

variable {m : OrdMap Price (List OrderId)} {p q : Price} {id j : OrderId}

theorem idsAt_eq_of_get? {ids : List OrderId} (h : m.get? p = some ids) : idsAt m p = ids := by
  rw [idsAt, h]
  rfl

theorem TidyIndex.nodup (h : TidyIndex m) (p : Price) : (idsAt m p).Nodup := by
  rw [idsAt]
  cases hp : m.get? p with
  | none => exact List.nodup_nil
  | some ids => exact (h p ids hp).2

theorem mem_idsAt_pushId :
    j ∈ idsAt (StopBook.pushId m p id) q ↔ j ∈ idsAt m q ∨ (q = p ∧ j = id) := by
  rw [idsAt, StopBook.pushId, OrdMap.get?_insert]
  split_ifs with hq
  · subst hq
    simp [idsAt]
  · simp [idsAt, hq]

theorem mem_idsAt_removeId :
    j ∈ idsAt (StopBook.removeId m p id) q ↔ j ∈ idsAt m q ∧ ¬ (q = p ∧ j = id) := by
  rw [StopBook.removeId]
  cases hp : m.get? p with
  | none =>
      refine ⟨fun h ↦ ⟨h, ?_⟩, And.left⟩
      rintro ⟨rfl, -⟩
      rw [idsAt, hp] at h
      cases h
  | some ids =>
      dsimp only
      by_cases hq : q = p
      · subst hq
        split_ifs with hnil
        · have hout : ∀ k ∈ ids, k = id := by simpa using hnil
          simp only [idsAt, OrdMap.get?_erase, hp, if_true]
          simpa using hout j
        · simp [idsAt, hp]
      · split_ifs <;> simp [idsAt, hq]

theorem mem_idsAt_erase : j ∈ idsAt (m.erase p) q ↔ j ∈ idsAt m q ∧ q ≠ p := by
  rw [idsAt, OrdMap.get?_erase]
  split_ifs with hq <;> simp [idsAt, hq]

theorem TidyIndex.pushId (h : TidyIndex m) (hid : id ∉ idsAt m p) :
    TidyIndex (StopBook.pushId m p id) := by
  intro q ids hq
  rw [StopBook.pushId, OrdMap.get?_insert] at hq
  split_ifs at hq with hqp
  · cases hq
    refine ⟨by simp, List.nodup_append.mpr ⟨h.nodup p, List.nodup_singleton _, ?_⟩⟩
    intro a ha b hb
    rw [List.mem_singleton.mp hb]
    exact ne_of_mem_of_not_mem ha hid
  · exact h q ids hq

theorem TidyIndex.removeId (h : TidyIndex m) (p : Price) (id : OrderId) :
    TidyIndex (StopBook.removeId m p id) := by
  rw [StopBook.removeId]
  cases hp : m.get? p with
  | none => exact h
  | some ids =>
      dsimp only
      split_ifs with hnil
      · intro q js hq
        rw [OrdMap.get?_erase] at hq
        split_ifs at hq
        exact h q js hq
      · intro q js hq
        rw [OrdMap.get?_insert] at hq
        split_ifs at hq
        · cases hq
          exact ⟨hnil, (h p ids hp).2.filter _⟩
        · exact h q js hq

theorem TidyIndex.erase (h : TidyIndex m) (p : Price) : TidyIndex (m.erase p) := by
  intro q ids hq
  rw [OrdMap.get?_erase] at hq
  split_ifs at hq
  exact h q ids hq

end Index

/-! ## The invariants -/

namespace StopBook

/-- The order stored under `id`, if it is pending. -/
def Pending (sb : StopBook) (id : OrderId) (o : StopOrder) : Prop :=
  sb.orders.get? id = some o ∧ o.status = .pending

/-- The indices list the pending orders, each once, under its side and its current stop price. -/
structure Indexed (sb : StopBook) : Prop where
  tidy : ∀ s, TidyIndex (sb.stops s)
  listed : ∀ s p id, id ∈ idsAt (sb.stops s) p ↔ ∃ o, sb.Pending id o ∧ o.side = s ∧ o.stopPrice = p
  stored : ∀ id o, sb.orders.get? id = some o → o.id = id

/-- The trailing ids are the pending trailing orders, each once. -/
structure WF (sb : StopBook) : Prop extends Indexed sb where
  trailingNodup : sb.trailingIds.Nodup
  trailing : ∀ id, id ∈ sb.trailingIds ↔ ∃ o, sb.Pending id o ∧ o.trailMethod.isSome = true

theorem wf_create : create.WF where
  tidy s p ids h := by cases s <;> cases h
  listed s p id := by
    constructor
    · intro h
      cases s <;> cases h
    · rintro ⟨o, ⟨ho, -⟩, -⟩
      cases ho
  stored id o h := by cases h
  trailingNodup := List.nodup_nil
  trailing id := by
    constructor
    · intro h
      cases h
    · rintro ⟨o, ⟨ho, -⟩, -⟩
      cases ho

variable {sb sb' : StopBook} {id : OrderId} {o o' : StopOrder}

theorem Pending.unique (h : sb.Pending id o) (h' : sb.Pending id o') : o = o' :=
  Option.some.inj (h.1.symm.trans h'.1)

theorem containsPending_iff : sb.containsPending id = true ↔ ∃ o, sb.Pending id o := by
  rw [containsPending]
  cases h : sb.orders.get? id with
  | none => simp [Pending, h]
  | some o => simp [Pending, h]

/-- The pending orders after one order was rewritten. -/
theorem pending_insert (h : sb'.orders = sb.orders.insert id o') (j : OrderId) (o : StopOrder) :
    sb'.Pending j o ↔ if j = id then o = o' ∧ o'.status = .pending else sb.Pending j o := by
  rw [Pending, h, OrdMap.get?_insert]
  split_ifs with hj
  · constructor
    · rintro ⟨ho, hs⟩
      cases ho
      exact ⟨rfl, hs⟩
    · rintro ⟨rfl, hs⟩
      exact ⟨rfl, hs⟩
  · rfl

/-- Rewriting the record of one order, with its listings moved along. -/
theorem WF.rewrite (hw : sb.WF) (horders : sb'.orders = sb.orders.insert id o') (hid : o'.id = id)
    (htidy : ∀ s, TidyIndex (sb'.stops s))
    (hself : ∀ s p, id ∈ idsAt (sb'.stops s) p ↔ o'.status = .pending ∧ o'.side = s ∧
        o'.stopPrice = p)
    (hother : ∀ s p j, j ≠ id → (j ∈ idsAt (sb'.stops s) p ↔ j ∈ idsAt (sb.stops s) p))
    (hnodup : sb'.trailingIds.Nodup)
    (htself : id ∈ sb'.trailingIds ↔ o'.status = .pending ∧ o'.trailMethod.isSome = true)
    (htother : ∀ j, j ≠ id → (j ∈ sb'.trailingIds ↔ j ∈ sb.trailingIds)) : sb'.WF where
  tidy := htidy
  listed s p j := by
    by_cases hj : j = id
    · subst hj
      simp only [hself, pending_insert horders, if_true]
      constructor
      · rintro ⟨hp, hs, hq⟩
        exact ⟨o', ⟨rfl, hp⟩, hs, hq⟩
      · rintro ⟨o, ⟨rfl, hp⟩, hs, hq⟩
        exact ⟨hp, hs, hq⟩
    · simp only [hother s p j hj, hw.listed s p j, pending_insert horders, hj, if_false]
  stored j o ho := by
    rw [horders, OrdMap.get?_insert] at ho
    split_ifs at ho with hj
    · cases ho
      rw [hj, hid]
    · exact hw.stored j o ho
  trailingNodup := hnodup
  trailing j := by
    by_cases hj : j = id
    · subst hj
      simp only [htself, pending_insert horders, if_true]
      constructor
      · rintro ⟨hp, ht⟩
        exact ⟨o', ⟨rfl, hp⟩, ht⟩
      · rintro ⟨o, ⟨rfl, hp⟩, ht⟩
        exact ⟨hp, ht⟩
    · simp only [htother j hj, hw.trailing j, pending_insert horders, hj, if_false]

/-- A pending order is listed where its record says and nowhere else. -/
theorem Indexed.listed_self (hw : sb.Indexed) (ho : sb.Pending id o) (s : Side) (p : Price) :
    id ∈ idsAt (sb.stops s) p ↔ o.side = s ∧ o.stopPrice = p := by
  rw [hw.listed]
  constructor
  · rintro ⟨o', ho', hs⟩
    rwa [ho.unique ho']
  · exact fun hs ↦ ⟨o, ho, hs⟩

theorem WF.trailing_self (hw : sb.WF) (ho : sb.Pending id o) :
    id ∈ sb.trailingIds ↔ o.trailMethod.isSome = true := by
  rw [hw.trailing]
  constructor
  · rintro ⟨o', ho', ht⟩
    rwa [ho.unique ho']
  · exact fun ht ↦ ⟨o, ho, ht⟩

/-! ## Inserting and cancelling -/

theorem WF.insert (hw : sb.WF) (hfresh : sb.orders.get? o.id = none) (hp : o.status = .pending) :
    (sb.insert o).WF := by
  have horders : (sb.insert o).orders = sb.orders.insert o.id o := by
    simp only [StopBook.insert, orders_updateStops]
  have hstops : ∀ s, (sb.insert o).stops s =
      if s = o.side then pushId (sb.stops s) o.stopPrice o.id else sb.stops s := fun s ↦
    (stops_mk (sb.updateStops o.side _) _ _ _ _ s).trans (stops_updateStops sb o.side s _)
  have htrailing : (sb.insert o).trailingIds =
      if o.trailMethod.isSome then sb.trailingIds ++ [o.id] else sb.trailingIds := by
    simp only [StopBook.insert, trailingIds_updateStops]
  have hnone : ∀ o', ¬ sb.Pending o.id o' := by
    rintro o' ⟨ho', -⟩
    rw [hfresh] at ho'
    cases ho'
  have hout : ∀ s p, o.id ∉ idsAt (sb.stops s) p := fun s p hmem ↦ by
    obtain ⟨o', ho', -⟩ := (hw.listed s p o.id).mp hmem
    exact hnone o' ho'
  have htout : o.id ∉ sb.trailingIds := fun hmem ↦ by
    obtain ⟨o', ho', -⟩ := (hw.trailing o.id).mp hmem
    exact hnone o' ho'
  refine hw.rewrite horders rfl (fun s ↦ ?_) (fun s p ↦ ?_) (fun s p j hj ↦ ?_) ?_ ?_ fun j hj ↦ ?_
  · rw [hstops]
    split_ifs
    · exact (hw.tidy s).pushId (hout s _)
    · exact hw.tidy s
  · rw [hstops]
    split_ifs with hs
    · rw [mem_idsAt_pushId]
      simp [hout, hp, hs, eq_comm]
    · simp [hout, eq_comm, hs]
  · rw [hstops]
    split_ifs
    · rw [mem_idsAt_pushId]
      simp [hj]
    · rfl
  · rw [htrailing]
    split_ifs
    · refine List.nodup_append.mpr ⟨hw.trailingNodup, List.nodup_singleton _, fun a ha b hb ↦ ?_⟩
      rw [List.mem_singleton.mp hb]
      exact ne_of_mem_of_not_mem ha htout
    · exact hw.trailingNodup
  · rw [htrailing]
    split_ifs with ht <;> simp [hp, ht, htout]
  · rw [htrailing]
    split_ifs <;> simp [hj]

/-- A pending order that is cancelled. -/
theorem cancel_of_pending (ho : sb.Pending id o) : sb.cancel id =
    { sb.updateStops o.side fun m ↦ removeId m o.stopPrice id with
      orders := sb.orders.insert id { o with status := .cancelled }
      trailingIds := sb.trailingIds.filter (· ≠ id) } := by
  simp only [cancel, ho.1, ho.2, if_true, orders_updateStops, trailingIds_updateStops]

theorem cancel_of_not_pending (h : ∀ o, ¬ sb.Pending id o) : sb.cancel id = sb := by
  rw [cancel]
  cases ho : sb.orders.get? id with
  | none => rfl
  | some o => exact if_neg fun hs ↦ h o ⟨ho, hs⟩

theorem WF.cancel (hw : sb.WF) (id : OrderId) : (sb.cancel id).WF := by
  by_cases hp : ∃ o, sb.Pending id o
  · obtain ⟨o, ho⟩ := hp
    have hc := cancel_of_pending ho
    have hstops : ∀ s, (sb.cancel id).stops s =
        if s = o.side then removeId (sb.stops s) o.stopPrice id else sb.stops s := fun s ↦ by
      rw [hc]
      exact (stops_mk (sb.updateStops o.side _) _ _ _ _ s).trans (stops_updateStops sb o.side s _)
    have horders : (sb.cancel id).orders = sb.orders.insert id { o with status := .cancelled } := by
      rw [hc]
    have htrailing : (sb.cancel id).trailingIds = sb.trailingIds.filter (· ≠ id) := by rw [hc]
    refine hw.rewrite horders (hw.stored id o ho.1) (fun s ↦ ?_) (fun s p ↦ ?_)
      (fun s p j hj ↦ ?_) ?_ ?_ fun j hj ↦ ?_
    · rw [hstops]
      split_ifs
      · exact (hw.tidy s).removeId _ _
      · exact hw.tidy s
    · simp only [reduceCtorEq, false_and, iff_false]
      intro hmem
      rw [hstops] at hmem
      split_ifs at hmem with hs
      · obtain ⟨hmem, hnot⟩ := mem_idsAt_removeId.mp hmem
        exact hnot ⟨((hw.listed_self ho s p).mp hmem).2.symm, rfl⟩
      · exact hs ((hw.listed_self ho s p).mp hmem).1.symm
    · rw [hstops]
      split_ifs
      · rw [mem_idsAt_removeId]
        simp [hj]
      · rfl
    · rw [htrailing]
      exact hw.trailingNodup.filter _
    · simp [htrailing]
    · simp [htrailing, hj]
  · rw [cancel_of_not_pending fun o ho ↦ hp ⟨o, ho⟩]
    exact hw

/-! ## Trailing stops -/

/-- `o'` is `o` with its trail moved: the stop price and the watermark may differ, if it trails. -/
structure Retrailed (o o' : StopOrder) : Prop where
  id : o'.id = o.id
  side : o'.side = o.side
  timestamp : o'.timestamp = o.timestamp
  status : o'.status = o.status
  trailMethod : o'.trailMethod = o.trailMethod
  regular : o.trailMethod = none → o' = o

theorem Retrailed.refl (o : StopOrder) : Retrailed o o := ⟨rfl, rfl, rfl, rfl, rfl, fun _ ↦ rfl⟩

theorem Retrailed.trans {o o' o'' : StopOrder} (h : Retrailed o o') (h' : Retrailed o' o'') :
    Retrailed o o'' where
  id := h'.id.trans h.id
  side := h'.side.trans h.side
  timestamp := h'.timestamp.trans h.timestamp
  status := h'.status.trans h.status
  trailMethod := h'.trailMethod.trans h.trailMethod
  regular hr := by
    have hr' := h.trailMethod.trans hr
    rw [h'.regular hr', h.regular hr]

/-- `sb'` has the orders of `sb` with the trails of some of them moved. -/
structure Retrails (sb sb' : StopBook) : Prop where
  order : ∀ id o, sb.orders.get? id = some o → ∃ o', sb'.orders.get? id = some o' ∧ Retrailed o o'
  contains : ∀ id o', sb'.orders.get? id = some o' → ∃ o, sb.orders.get? id = some o

theorem Retrails.refl (sb : StopBook) : Retrails sb sb :=
  ⟨fun _ o ho ↦ ⟨o, ho, .refl o⟩, fun _ o ho ↦ ⟨o, ho⟩⟩

theorem Retrails.trans {sb sb' sb'' : StopBook} (h : Retrails sb sb') (h' : Retrails sb' sb'') :
    Retrails sb sb'' where
  order id o ho := by
    obtain ⟨o', ho', hr⟩ := h.order id o ho
    obtain ⟨o'', ho'', hr'⟩ := h'.order id o' ho'
    exact ⟨o'', ho'', hr.trans hr'⟩
  contains id o'' ho'' := by
    obtain ⟨o', ho'⟩ := h'.contains id o'' ho''
    exact h.contains id o' ho'

theorem retrails_insert (ho : sb.orders.get? id = some o) (hr : Retrailed o o')
    (h : sb'.orders = sb.orders.insert id o') : Retrails sb sb' where
  order j x hx := by
    rw [h, OrdMap.get?_insert]
    split_ifs with hj
    · subst hj
      obtain rfl := Option.some.inj (hx.symm.trans ho)
      exact ⟨o', rfl, hr⟩
    · exact ⟨x, hx, .refl x⟩
  contains j x hx := by
    rw [h, OrdMap.get?_insert] at hx
    split_ifs at hx with hj
    · exact ⟨o, hj ▸ ho⟩
    · exact ⟨x, hx⟩

/-- The book after one trailing stop was looked at: as it was, or with the watermark moved, or with
the stop price moved as well. -/
inductive TrailingUpdate (sb : StopBook) (id : OrderId) : StopBook → Prop
  | same : TrailingUpdate sb id sb
  | watermark {o : StopOrder} {w : Option Price} : sb.Pending id o → o.trailMethod.isSome = true →
      TrailingUpdate sb id { sb with orders := sb.orders.insert id { o with watermark := w } }
  | move {o : StopOrder} {w : Option Price} {newStop : Price} : sb.Pending id o →
      o.trailMethod.isSome = true →
      TrailingUpdate sb id
        { sb.updateStops o.side fun m ↦ pushId (removeId m o.stopPrice id) newStop id with
          orders := sb.orders.insert id { o with stopPrice := newStop, watermark := w } }

theorem updateTrailingStop_cases (p : Price) (sb : StopBook) (id : OrderId) :
    TrailingUpdate sb id (updateTrailingStop p sb id) := by
  simp only [updateTrailingStop]
  split
  · exact .same
  · next o ho =>
      split
      · next hs ht =>
          have hsome : o.trailMethod.isSome = true := by rw [ht]; rfl
          split_ifs
          · exact .watermark ⟨ho, hs⟩ hsome
          · simp only [orders_updateStops]
            exact .move ⟨ho, hs⟩ hsome
          · exact .watermark ⟨ho, hs⟩ hsome
      · exact .same

theorem TrailingUpdate.retrails (h : TrailingUpdate sb id sb') : Retrails sb sb' := by
  cases h with
  | same => exact .refl sb
  | @watermark o w ho ht =>
      have hr : Retrailed o { o with watermark := w } :=
        ⟨rfl, rfl, rfl, rfl, rfl, fun hn ↦ by simp [hn] at ht⟩
      exact retrails_insert ho.1 hr rfl
  | @move o w newStop ho ht =>
      have hr : Retrailed o { o with stopPrice := newStop, watermark := w } :=
        ⟨rfl, rfl, rfl, rfl, rfl, fun hn ↦ by simp [hn] at ht⟩
      exact retrails_insert ho.1 hr rfl

theorem TrailingUpdate.wf (h : TrailingUpdate sb id sb') (hw : sb.WF) : sb'.WF := by
  cases h with
  | same => exact hw
  | @watermark o w ho ht =>
      have hstops : ∀ s, StopBook.stops { sb with
          orders := sb.orders.insert id { o with watermark := w } } s = sb.stops s := fun s ↦
        stops_mk sb _ _ _ _ s
      refine hw.rewrite rfl (hw.stored id o ho.1) (fun s ↦ ?_) (fun s p ↦ ?_) (fun s p j hj ↦ ?_)
        hw.trailingNodup ?_ fun _ _ ↦ Iff.rfl
      · rw [hstops]
        exact hw.tidy s
      · rw [hstops, hw.listed_self ho]
        simp [ho.2]
      · rw [hstops]
      · rw [hw.trailing_self ho]
        simp [ho.2]
  | @move o w newStop ho ht =>
      have hstops : ∀ s, StopBook.stops
          { sb.updateStops o.side fun m ↦ pushId (removeId m o.stopPrice id) newStop id with
            orders := sb.orders.insert id { o with stopPrice := newStop, watermark := w } } s =
          if s = o.side then pushId (removeId (sb.stops s) o.stopPrice id) newStop id
          else sb.stops s := fun s ↦
        (stops_mk (sb.updateStops o.side _) _ _ _ _ s).trans (stops_updateStops sb o.side s _)
      have hgone : ∀ s p, s = o.side → id ∉ idsAt (removeId (sb.stops s) o.stopPrice id) p := by
        intro s p _ hmem
        obtain ⟨hmem, hnot⟩ := mem_idsAt_removeId.mp hmem
        exact hnot ⟨((hw.listed_self ho s p).mp hmem).2.symm, rfl⟩
      refine hw.rewrite rfl (hw.stored id o ho.1) (fun s ↦ ?_) (fun s p ↦ ?_)
        (fun s p j hj ↦ ?_) ?_ ?_
        fun j hj ↦ ?_
      · rw [hstops]
        split_ifs with hs
        · exact ((hw.tidy s).removeId _ _).pushId (hgone s _ hs)
        · exact hw.tidy s
      · rw [hstops]
        split_ifs with hs
        · rw [mem_idsAt_pushId]
          constructor
          · rintro (hmem | ⟨rfl, -⟩)
            · exact absurd hmem (hgone s p hs)
            · exact ⟨ho.2, hs.symm, rfl⟩
          · rintro ⟨-, -, rfl⟩
            exact .inr ⟨rfl, rfl⟩
        · rw [hw.listed_self ho]
          exact ⟨fun h ↦ absurd h.1.symm hs, fun h ↦ absurd h.2.1.symm hs⟩
      · rw [hstops]
        split_ifs
        · rw [mem_idsAt_pushId, mem_idsAt_removeId]
          simp [hj]
        · rfl
      · simp only [trailingIds_updateStops]
        exact hw.trailingNodup
      · simp only [trailingIds_updateStops]
        rw [hw.trailing_self ho]
        simp [ho.2]
      · simp only [trailingIds_updateStops]

theorem updateTrailingStops_spec (hw : sb.WF) (p : Price) :
    (sb.updateTrailingStops p).WF ∧ Retrails sb (sb.updateTrailingStops p) := by
  have hfold : ∀ (ids : List OrderId) {sb : StopBook}, sb.WF →
      (ids.foldl (updateTrailingStop p) sb).WF ∧
        Retrails sb (ids.foldl (updateTrailingStop p) sb) := by
    intro ids
    induction ids with
    | nil => exact fun hw ↦ ⟨hw, .refl _⟩
    | cons id ids ih =>
        intro sb hw
        have hone := updateTrailingStop_cases p sb id
        obtain ⟨hw', hr⟩ := ih (hone.wf hw)
        exact ⟨hw', hone.retrails.trans hr⟩
  have hrec : (sb.recordPrice p).WF := by
    have hstops : ∀ s, (sb.recordPrice p).stops s = sb.stops s := fun s ↦ stops_mk sb _ _ _ _ s
    refine ⟨⟨fun s ↦ ?_, fun s q j ↦ ?_, hw.stored⟩, hw.trailingNodup, hw.trailing⟩
    · rw [hstops]
      exact hw.tidy s
    · rw [hstops]
      exact hw.listed s q j
  have hr : Retrails sb (sb.recordPrice p) :=
    ⟨fun _ o ho ↦ ⟨o, ho, .refl o⟩, fun _ o ho ↦ ⟨o, ho⟩⟩
  obtain ⟨hw', hr'⟩ := hfold (sb.recordPrice p).trailingIds hrec
  exact ⟨hw', hr.trans hr'⟩

/-! ## Triggering -/

/-- A trade at `p` reaches the stop price. -/
def reachedBy (o : StopOrder) (p : Price) : Bool :=
  match o.side with
  | .buy => decide (o.stopPrice ≤ p)
  | .sell => decide (p ≤ o.stopPrice)

/-- The record of an order once it has triggered. -/
def triggered (o : StopOrder) : StopOrder := { o with status := .triggered }

/-- The table with the orders of `ids` triggered. -/
def trigger (orders : OrdMap OrderId StopOrder) (ids : List OrderId) : OrdMap OrderId StopOrder :=
  orders.mapVals fun id o ↦ if id ∈ ids then triggered o else o

theorem trigger_nil (orders : OrdMap OrderId StopOrder) : trigger orders [] = orders :=
  OrdMap.ext_get? fun k ↦ by simp [trigger]

theorem trigger_append (orders : OrdMap OrderId StopOrder) (ids ids' : List OrderId) :
    trigger (trigger orders ids) ids' = trigger orders (ids ++ ids') := by
  refine OrdMap.ext_get? fun k ↦ ?_
  simp only [trigger, OrdMap.get?_mapVals, List.mem_append, Option.map_map]
  congr 1
  funext o
  by_cases h : k ∈ ids <;> by_cases h' : k ∈ ids' <;> simp [h, h', triggered]

/-- What is left pending. -/
theorem pending_of_trigger {ids : List OrderId} (h : sb'.orders = trigger sb.orders ids) :
    sb'.Pending id o ↔ sb.Pending id o ∧ id ∉ ids := by
  rw [Pending, h, trigger, OrdMap.get?_mapVals]
  by_cases hid : id ∈ ids
  · simp only [hid, if_true, not_true_eq_false, and_false, iff_false]
    rintro ⟨hget, hs⟩
    obtain ⟨o', -, rfl⟩ := Option.map_eq_some_iff.mp hget
    cases hs
  · simp [hid, Pending]

theorem foldl_triggerId {ids : List OrderId} (hnd : ids.Nodup) {acc : StopBook × List StopOrder}
    (hp : ∀ id ∈ ids, ∃ o, acc.1.Pending id o) : ids.foldl triggerId acc =
      ({ acc.1 with orders := trigger acc.1.orders ids },
        acc.2 ++ ids.filterMap fun id ↦ (acc.1.orders.get? id).map triggered) := by
  induction ids generalizing acc with
  | nil => simp [trigger_nil]
  | cons id ids ih =>
      obtain ⟨hout, hnd⟩ := List.nodup_cons.mp hnd
      obtain ⟨o, ho, hs⟩ := hp id List.mem_cons_self
      have hone : triggerId acc id =
          ({ acc.1 with orders := trigger acc.1.orders [id] }, acc.2 ++ [triggered o]) := by
        have horders : trigger acc.1.orders [id] = acc.1.orders.insert id (triggered o) := by
          refine OrdMap.ext_get? fun k ↦ ?_
          simp only [trigger, OrdMap.get?_mapVals, OrdMap.get?_insert, List.mem_singleton]
          split_ifs with hk
          · rw [hk, ho]
            rfl
          · cases acc.1.orders.get? k <;> rfl
        rw [horders]
        simp only [triggerId, ho, hs, if_true]
        rfl
      have hkeep : ∀ j ∈ ids, (trigger acc.1.orders [id]).get? j = acc.1.orders.get? j := by
        intro j hj
        have hne : j ≠ id := ne_of_mem_of_not_mem hj hout
        simp [trigger, hne]
      rw [List.foldl_cons, hone, ih hnd]
      · simp only [trigger_append, List.singleton_append, List.filterMap_cons, ho, Option.map_some,
          List.append_assoc]
        rw [List.filterMap_congr fun j hj ↦ by rw [hkeep j hj]]
      · intro j hj
        obtain ⟨o', ho', hs'⟩ := hp j (List.mem_cons_of_mem _ hj)
        exact ⟨o', (hkeep j hj).trans ho', hs'⟩

/-- Taking one price off an index triggers exactly the orders listed there. -/
theorem triggerKey_spec {acc : StopBook × List StopOrder} (hw : acc.1.Indexed) (s : Side)
    (k : Price) :
    (triggerKey s acc k).1.orders = trigger acc.1.orders (idsAt (acc.1.stops s) k) ∧
      (triggerKey s acc k).2 = acc.2 ++ (idsAt (acc.1.stops s) k).filterMap
        (fun id ↦ (acc.1.orders.get? id).map triggered) ∧
      (triggerKey s acc k).1.trailingIds = acc.1.trailingIds ∧
      ∀ t, (triggerKey s acc k).1.stops t =
        if t = s then (acc.1.stops t).erase k else acc.1.stops t := by
  rw [triggerKey]
  cases hk : (acc.1.stops s).get? k with
  | none =>
      have hnil : idsAt (acc.1.stops s) k = [] := by rw [idsAt, hk]; rfl
      rw [hnil]
      refine ⟨(trigger_nil _).symm, (List.append_nil _).symm, rfl, fun t ↦ ?_⟩
      split_ifs with ht
      · refine OrdMap.ext_get? fun q ↦ ?_
        rw [OrdMap.get?_erase]
        split_ifs with hq
        · rw [hq, ht, hk]
        · rfl
      · rfl
  | some ids =>
      have hids : idsAt (acc.1.stops s) k = ids := idsAt_eq_of_get? hk
      have hpend : ∀ id ∈ ids, ∃ o,
          (acc.1.updateStops s fun m ↦ m.erase k).Pending id o := by
        intro id hid
        obtain ⟨o, ho, -⟩ := (hw.listed s k id).mp (hids ▸ hid)
        exact ⟨o, by rw [Pending, orders_updateStops]; exact ho⟩
      dsimp only
      rw [foldl_triggerId ((hw.tidy s k ids hk).2) hpend, hids]
      refine ⟨by rw [orders_updateStops], by rw [orders_updateStops],
        by rw [trailingIds_updateStops], fun t ↦ ?_⟩
      exact (stops_mk (acc.1.updateStops s _) _ _ _ _ t).trans (stops_updateStops acc.1 s t _)

/-- What has been collected so far: a part of the pending orders reached by the trade, each once,
and in the table they are triggered. -/
structure Collected (sb : StopBook) (p : Price) (acc : StopBook × List StopOrder) : Prop where
  indexed : acc.1.Indexed
  orders : acc.1.orders = trigger sb.orders (acc.2.map StopOrder.id)
  nodup : (acc.2.map StopOrder.id).Nodup
  reached : ∀ x ∈ acc.2, ∃ o, sb.Pending x.id o ∧ reachedBy o p = true ∧ x = triggered o
  trailingIds : acc.1.trailingIds = sb.trailingIds

theorem Indexed.triggerKey {acc : StopBook × List StopOrder} (hw : acc.1.Indexed) (s : Side)
    (k : Price) : (triggerKey s acc k).1.Indexed := by
  obtain ⟨horders, -, -, hstops⟩ := triggerKey_spec hw s k
  have hpend : ∀ j o, (StopBook.triggerKey s acc k).1.Pending j o ↔
      acc.1.Pending j o ∧ j ∉ idsAt (acc.1.stops s) k := fun j o ↦ pending_of_trigger horders
  refine ⟨fun t ↦ ?_, fun t q j ↦ ?_, fun j o ho ↦ ?_⟩
  · rw [hstops]
    split_ifs
    · exact (hw.tidy t).erase k
    · exact hw.tidy t
  · have hold := hw.listed t q j
    have hat := hw.listed s k j
    have hmem : j ∈ idsAt ((StopBook.triggerKey s acc k).1.stops t) q ↔
        j ∈ idsAt (acc.1.stops t) q ∧ ¬ (t = s ∧ q = k) := by
      rw [hstops]
      split_ifs with ht
      · rw [mem_idsAt_erase]
        simp [ht]
      · simp [ht]
    rw [hmem, hold]
    constructor
    · rintro ⟨⟨o, ho, hs, hq⟩, hne⟩
      refine ⟨o, (hpend j o).mpr ⟨ho, fun hj ↦ hne ?_⟩, hs, hq⟩
      obtain ⟨o', ho', hs', hq'⟩ := hat.mp hj
      obtain rfl := ho.unique ho'
      exact ⟨hs.symm.trans hs', hq.symm.trans hq'⟩
    · rintro ⟨o, ho, hs, hq⟩
      obtain ⟨ho', hout⟩ := (hpend j o).mp ho
      refine ⟨⟨o, ho', hs, hq⟩, ?_⟩
      rintro ⟨rfl, rfl⟩
      exact hout (hat.mpr ⟨o, ho', hs, hq⟩)
  · rw [horders, trigger, OrdMap.get?_mapVals] at ho
    obtain ⟨o', ho', rfl⟩ := Option.map_eq_some_iff.mp ho
    have hid := hw.stored j o' ho'
    split_ifs
    · exact hid
    · exact hid

/-- The side of an index and the prices on it that a trade at `p` reaches. -/
def Reaches (p : Price) : Side → Price → Prop
  | .buy, k => k ≤ p
  | .sell, k => p ≤ k

theorem reachedBy_iff (o : StopOrder) (p : Price) :
    reachedBy o p = true ↔ Reaches p o.side o.stopPrice := by
  rw [reachedBy]
  cases o.side <;> simp [Reaches]

theorem Collected.refl (hw : sb.Indexed) (p : Price) : Collected sb p (sb, []) :=
  ⟨hw, (trigger_nil _).symm, List.nodup_nil, fun _ h ↦ absurd h List.not_mem_nil, rfl⟩

/-- An order that was not collected is as it was, and one that was is no longer pending. -/
theorem Collected.pending_iff {p : Price} {acc : StopBook × List StopOrder}
    (h : Collected sb p acc) :
    acc.1.Pending id o ↔ sb.Pending id o ∧ id ∉ acc.2.map StopOrder.id :=
  pending_of_trigger h.orders

theorem Collected.triggerKey {p : Price} {acc : StopBook × List StopOrder} (h : Collected sb p acc)
    {s : Side} {k : Price} (hk : Reaches p s k) : Collected sb p (triggerKey s acc k) := by
  obtain ⟨horders, hlist, htrailing, -⟩ := triggerKey_spec h.indexed s k
  have hlisted : ∀ id ∈ idsAt (acc.1.stops s) k, ∃ o, acc.1.Pending id o ∧ o.id = id ∧
      reachedBy o p = true := by
    intro id hid
    obtain ⟨o, ho, rfl, rfl⟩ := (h.indexed.listed s k id).mp hid
    exact ⟨o, ho, h.indexed.stored id o ho.1, (reachedBy_iff o p).mpr hk⟩
  have hids : ((idsAt (acc.1.stops s) k).filterMap
      fun id ↦ (acc.1.orders.get? id).map triggered).map StopOrder.id =
        idsAt (acc.1.stops s) k := by
    rw [List.map_filterMap]
    refine (List.filterMap_congr fun id hid ↦ ?_).trans List.filterMap_some
    obtain ⟨o, ho, hoid, -⟩ := hlisted id hid
    rw [ho.1]
    exact congrArg some hoid
  refine ⟨h.indexed.triggerKey s k, ?_, ?_, fun x hx ↦ ?_, htrailing.trans h.trailingIds⟩
  · rw [horders, hlist, List.map_append, hids, h.orders, trigger_append]
  · rw [hlist, List.map_append, hids]
    refine List.nodup_append.mpr ⟨h.nodup, (h.indexed.tidy s).nodup k, fun a ha b hb heq ↦ ?_⟩
    obtain ⟨o, ho, -⟩ := hlisted b hb
    exact (h.pending_iff.mp ho).2 (heq ▸ ha)
  · rw [hlist] at hx
    rcases List.mem_append.mp hx with hx | hx
    · exact h.reached x hx
    · obtain ⟨id, hid, hx⟩ := List.mem_filterMap.mp hx
      obtain ⟨o, ho, hoid, hr⟩ := hlisted id hid
      rw [ho.1] at hx
      obtain rfl := Option.some.inj hx
      have hpend := (h.pending_iff.mp ho).1
      rw [← hoid] at hpend
      exact ⟨o, hpend, hr, rfl⟩

/-- Taking off several prices. -/
theorem Collected.foldl_triggerKey {p : Price} {acc : StopBook × List StopOrder}
    (h : Collected sb p acc) (s : Side) (keys : List Price) (hk : ∀ k ∈ keys, Reaches p s k) :
    Collected sb p (keys.foldl (StopBook.triggerKey s) acc) ∧
      (∀ t, (keys.foldl (StopBook.triggerKey s) acc).1.stops t =
        if t = s then keys.foldl OrdMap.erase (acc.1.stops t) else acc.1.stops t) := by
  induction keys generalizing acc with
  | nil => exact ⟨h, fun t ↦ (ite_self _).symm⟩
  | cons k keys ih =>
      obtain ⟨-, -, -, hone⟩ := triggerKey_spec h.indexed s k
      obtain ⟨hcol, hstops⟩ := ih (h.triggerKey (hk k List.mem_cons_self))
        fun j hj ↦ hk j (List.mem_cons_of_mem _ hj)
      refine ⟨hcol, fun t ↦ ?_⟩
      rw [List.foldl_cons, hstops, hone]
      split_ifs <;> rfl

theorem get?_foldl_erase {m : OrdMap Price (List OrderId)} (keys : List Price) (q : Price) :
    (keys.foldl OrdMap.erase m).get? q = if q ∈ keys then none else m.get? q := by
  induction keys generalizing m with
  | nil => rfl
  | cons k keys ih =>
      rw [List.foldl_cons, ih, OrdMap.get?_erase]
      by_cases hk : q = k <;> simp [hk]

/-- `collect_triggered` took `xs` off the book: pending orders the trade reached, all of them, each
once. -/
structure Collects (sb : StopBook) (p : Price) (sb' : StopBook) (xs : List StopOrder) : Prop where
  wf : sb'.WF
  orders : sb'.orders = trigger sb.orders (xs.map StopOrder.id)
  nodup : (xs.map StopOrder.id).Nodup
  reached : ∀ x ∈ xs, ∃ o, sb.Pending x.id o ∧ reachedBy o p = true ∧ x = triggered o
  left : ∀ id o, sb'.Pending id o → reachedBy o p = false

/-- The prices of an index that satisfy a condition are the ones `range` walks over. -/
theorem mem_keys_filter {m : OrdMap Price (List OrderId)} {f : Price → Bool} {k : Price} :
    k ∈ (m.entries.map Prod.fst).filter f ↔ (∃ ids, m.get? k = some ids) ∧ f k = true := by
  rw [List.mem_filter, List.mem_map]
  refine and_congr_left fun _ ↦ ?_
  constructor
  · rintro ⟨e, he, rfl⟩
    exact ⟨e.2, m.get?_eq_some_iff.mpr he⟩
  · rintro ⟨ids, hids⟩
    exact ⟨(k, ids), m.get?_eq_some_iff.mp hids, rfl⟩

/-- An order that is still pending when every price reached on its side was taken off its index is
not reached. -/
theorem Indexed.not_reached (hw : sb'.Indexed) {p : Price} (keys : List Price)
    (m : OrdMap Price (List OrderId)) (hstops : sb'.stops o.side = keys.foldl OrdMap.erase m)
    (hkeys : ∀ k ids, m.get? k = some ids → Reaches p o.side k → k ∈ keys)
    (ho : sb'.Pending id o) : reachedBy o p = false := by
  rw [Bool.eq_false_iff]
  intro hr
  have hmem : id ∈ idsAt (sb'.stops o.side) o.stopPrice := (hw.listed _ _ _).mpr ⟨o, ho, rfl, rfl⟩
  rw [hstops, idsAt, get?_foldl_erase] at hmem
  split_ifs at hmem with hin
  · cases hmem
  · cases hm : m.get? o.stopPrice with
    | none =>
        rw [hm] at hmem
        cases hmem
    | some ids => exact hin (hkeys _ ids hm ((reachedBy_iff o p).mp hr))

/-- The walk over both indices. -/
theorem Indexed.triggerSells_spec (hw : sb.Indexed) (p : Price) :
    Collected sb p (triggerSells (sb.triggerBuys p) p) ∧
      ∀ id o, (triggerSells (sb.triggerBuys p) p).1.Pending id o → reachedBy o p = false := by
  have hbuyKeys : ∀ k, k ∈ (sb.buyStops.entries.map Prod.fst).filter (fun k ↦ decide (k ≤ p)) ↔
      (∃ ids, sb.buyStops.get? k = some ids) ∧ k ≤ p := fun k ↦ by
    rw [mem_keys_filter, decide_eq_true_iff]
  obtain ⟨hbuys, hbuyStops⟩ := (Collected.refl hw p).foldl_triggerKey .buy
    ((sb.buyStops.entries.map Prod.fst).filter fun k ↦ decide (k ≤ p))
    fun k hk ↦ ((hbuyKeys k).mp hk).2
  have hmid : (sb.triggerBuys p).1.sellStops = sb.sellStops := hbuyStops .sell
  have hsellKeys : ∀ k, k ∈ (sb.sellStops.entries.map Prod.fst).filter (fun k ↦ decide (p ≤ k)) ↔
      (∃ ids, sb.sellStops.get? k = some ids) ∧ p ≤ k := fun k ↦ by
    rw [mem_keys_filter, decide_eq_true_iff]
  obtain ⟨hsells, hsellStops⟩ := hbuys.foldl_triggerKey .sell
    ((sb.sellStops.entries.map Prod.fst).filter fun k ↦ decide (p ≤ k))
    fun k hk ↦ ((hsellKeys k).mp hk).2
  rw [triggerSells, hmid]
  refine ⟨hsells, fun id o ho ↦ ?_⟩
  cases hside : o.side with
  | buy =>
      refine hsells.indexed.not_reached
        ((sb.buyStops.entries.map Prod.fst).filter fun k ↦ decide (k ≤ p)) sb.buyStops ?_
          (fun k ids hm hr ↦ ?_) ho
      · rw [hside]
        exact (hsellStops .buy).trans (hbuyStops .buy)
      · rw [hside] at hr
        exact (hbuyKeys k).mpr ⟨⟨ids, hm⟩, hr⟩
  | sell =>
      refine hsells.indexed.not_reached
        ((sb.sellStops.entries.map Prod.fst).filter fun k ↦ decide (p ≤ k)) sb.sellStops ?_
          (fun k ids hm hr ↦ ?_) ho
      · rw [hside]
        exact (hsellStops .sell).trans (congrArg (fun m ↦ List.foldl OrdMap.erase m _) hmid)
      · rw [hside] at hr
        exact (hsellKeys k).mpr ⟨⟨ids, hm⟩, hr⟩

theorem WF.collects (hw : sb.WF) (p : Price) :
    Collects sb p (sb.collectTriggered p).1 (sb.collectTriggered p).2 := by
  obtain ⟨hcol, hleft⟩ := hw.triggerSells_spec p
  set acc := triggerSells (sb.triggerBuys p) p with hacc
  set xs := acc.2.insertionSort fun a b ↦ a.timestamp ≤ b.timestamp with hxs
  have hperm : xs.Perm acc.2 := List.perm_insertionSort _ _
  have hids : (xs.map StopOrder.id).Perm (acc.2.map StopOrder.id) := hperm.map _
  have hresult : sb.collectTriggered p = (if xs.isEmpty then acc.1 else acc.1.pruneTrailing, xs) :=
    rfl
  have hkeep : ∀ j, j ∈ xs.map StopOrder.id ↔ j ∈ acc.2.map StopOrder.id := fun j ↦ hids.mem_iff
  have horders : acc.1.orders = trigger sb.orders (xs.map StopOrder.id) := by
    rw [hcol.orders]
    simp only [trigger, hkeep]
  -- of the trailing ids, those of orders that did not trigger
  have htrailing : ∀ j, (∃ o, acc.1.Pending j o ∧ o.trailMethod.isSome = true) ↔
      j ∈ sb.trailingIds ∧ acc.1.containsPending j = true := by
    intro j
    rw [containsPending_iff, hw.trailing]
    constructor
    · rintro ⟨o, ho, ht⟩
      exact ⟨⟨o, (hcol.pending_iff.mp ho).1, ht⟩, o, ho⟩
    · rintro ⟨⟨o, ho, ht⟩, o', ho'⟩
      obtain rfl := ho.unique (hcol.pending_iff.mp ho').1
      exact ⟨o, ho', ht⟩
  rw [hresult]
  dsimp only
  split_ifs with hempty
  · have hnil : acc.2 = [] := by
      rw [List.isEmpty_iff.mp hempty] at hperm
      exact hperm.nil_eq.symm
    refine ⟨⟨hcol.indexed, hcol.trailingIds ▸ hw.trailingNodup, fun j ↦ ?_⟩, horders,
      hids.nodup_iff.mpr hcol.nodup, fun x hx ↦ hcol.reached x (hperm.mem_iff.mp hx), hleft⟩
    rw [htrailing, hcol.trailingIds]
    refine ⟨fun hj ↦ ⟨hj, ?_⟩, And.left⟩
    obtain ⟨o, ho, -⟩ := (hw.trailing j).mp hj
    exact containsPending_iff.mpr ⟨o, hcol.pending_iff.mpr ⟨ho, by simp [hnil]⟩⟩
  · refine ⟨⟨⟨fun s ↦ ?_, fun s q j ↦ ?_, hcol.indexed.stored⟩, ?_, fun j ↦ ?_⟩, horders,
      hids.nodup_iff.mpr hcol.nodup, fun x hx ↦ hcol.reached x (hperm.mem_iff.mp hx), hleft⟩
    · rw [pruneTrailing, stops_mk]
      exact hcol.indexed.tidy s
    · rw [pruneTrailing, stops_mk]
      exact hcol.indexed.listed s q j
    · exact (hcol.trailingIds ▸ hw.trailingNodup).filter _
    · refine Iff.trans ?_ (htrailing j).symm
      simp only [pruneTrailing, List.mem_filter, hcol.trailingIds]

/-! ## Forgetting -/

theorem WF.clearHistory (hw : sb.WF) :
    sb.clearHistory.WF ∧ ∀ id o, sb.clearHistory.Pending id o ↔ sb.Pending id o := by
  have hpend : ∀ id o, sb.clearHistory.Pending id o ↔ sb.Pending id o := by
    intro id o
    simp only [Pending, StopBook.clearHistory, OrdMap.get?_filter, Option.filter_eq_some_iff,
      decide_eq_true_iff]
    tauto
  have hstops : ∀ s, sb.clearHistory.stops s = sb.stops s := fun s ↦ stops_mk sb _ _ _ _ s
  refine ⟨⟨⟨fun s ↦ ?_, fun s p j ↦ ?_, fun j o ho ↦ ?_⟩, hw.trailingNodup.filter _, fun j ↦ ?_⟩,
    hpend⟩
  · rw [hstops]
    exact hw.tidy s
  · rw [hstops, hw.listed]
    simp only [hpend]
  · simp only [StopBook.clearHistory, OrdMap.get?_filter, Option.filter_eq_some_iff] at ho
    exact hw.stored j o ho.1
  · simp only [hpend, ← hw.trailing]
    refine ⟨fun hj ↦ (List.mem_filter.mp hj).1, fun hj ↦ List.mem_filter.mpr ⟨hj, ?_⟩⟩
    obtain ⟨o, ho, -⟩ := (hw.trailing j).mp hj
    rw [OrdMap.contains_iff]
    exact ⟨o, by simp [OrdMap.get?_filter, ho.1, ho.2]⟩

/-! ## Counting -/

/-- The ids of the pending orders. -/
def pendingIds (sb : StopBook) : List OrderId :=
  (sb.orders.entries.filter fun e ↦ e.2.status = .pending).map Prod.fst

theorem mem_pendingIds : id ∈ sb.pendingIds ↔ ∃ o, sb.Pending id o := by
  simp only [pendingIds, List.mem_map, List.mem_filter, decide_eq_true_iff]
  constructor
  · rintro ⟨e, ⟨he, hs⟩, rfl⟩
    exact ⟨e.2, sb.orders.get?_eq_some_iff.mpr he, hs⟩
  · rintro ⟨o, ho, hs⟩
    exact ⟨(id, o), ⟨sb.orders.get?_eq_some_iff.mp ho, hs⟩, rfl⟩

theorem nodup_pendingIds (sb : StopBook) : sb.pendingIds.Nodup := by
  have hlt : sb.pendingIds.Pairwise (· < ·) := List.pairwise_map.mpr (sb.orders.sorted.filter _)
  exact hlt.imp fun h ↦ h.ne

/-- A list of the pending ids without repetitions is as long as `pendingIds`. -/
theorem length_eq_pendingIds {ids : List OrderId} (hnd : ids.Nodup)
    (h : ∀ id, id ∈ ids ↔ ∃ o, sb.Pending id o) : ids.length = sb.pendingIds.length := by
  refine List.Perm.length_eq ((List.perm_ext_iff_of_nodup hnd sb.nodup_pendingIds).mpr fun id ↦ ?_)
  rw [h, mem_pendingIds]

/-- The ids the indices list. -/
def listedIds (sb : StopBook) : List OrderId :=
  sb.buyStops.entries.flatMap Prod.snd ++ sb.sellStops.entries.flatMap Prod.snd

theorem mem_flatMap_entries {m : OrdMap Price (List OrderId)} :
    id ∈ m.entries.flatMap Prod.snd ↔ ∃ p, id ∈ idsAt m p := by
  rw [List.mem_flatMap]
  constructor
  · rintro ⟨e, he, hid⟩
    exact ⟨e.1, by rwa [idsAt_eq_of_get? (m.get?_eq_some_iff.mpr he)]⟩
  · rintro ⟨p, hid⟩
    rw [idsAt] at hid
    cases hp : m.get? p with
    | none =>
        rw [hp] at hid
        cases hid
    | some ids =>
        rw [hp] at hid
        exact ⟨(p, ids), m.get?_eq_some_iff.mp hp, hid⟩

theorem Indexed.mem_listedIds (hw : sb.Indexed) :
    id ∈ sb.listedIds ↔ ∃ o, sb.Pending id o := by
  rw [listedIds, List.mem_append, mem_flatMap_entries, mem_flatMap_entries]
  constructor
  · rintro (⟨p, hid⟩ | ⟨p, hid⟩)
    · obtain ⟨o, ho, -⟩ := (hw.listed .buy p id).mp hid
      exact ⟨o, ho⟩
    · obtain ⟨o, ho, -⟩ := (hw.listed .sell p id).mp hid
      exact ⟨o, ho⟩
  · rintro ⟨o, ho⟩
    have hid := (hw.listed_self ho o.side o.stopPrice).mpr ⟨rfl, rfl⟩
    cases hs : o.side with
    | buy => exact .inl ⟨o.stopPrice, by rwa [hs] at hid⟩
    | sell => exact .inr ⟨o.stopPrice, by rwa [hs] at hid⟩

/-- No id is listed twice. -/
theorem Indexed.nodup_listedIds (hw : sb.Indexed) : sb.listedIds.Nodup := by
  have hside : ∀ s, ((sb.stops s).entries.flatMap Prod.snd).Nodup := by
    intro s
    refine List.nodup_flatMap.mpr ⟨fun e he ↦ ?_, (sb.stops s).sorted.imp_of_mem ?_⟩
    · exact (hw.tidy s e.1 e.2 ((sb.stops s).get?_eq_some_iff.mpr he)).2
    · intro e e' he he' hlt id hid hid'
      rw [← idsAt_eq_of_get? ((sb.stops s).get?_eq_some_iff.mpr he)] at hid
      rw [← idsAt_eq_of_get? ((sb.stops s).get?_eq_some_iff.mpr he')] at hid'
      obtain ⟨o, ho, -, hp⟩ := (hw.listed s e.1 id).mp hid
      obtain ⟨o', ho', -, hp'⟩ := (hw.listed s e'.1 id).mp hid'
      obtain rfl := ho.unique ho'
      exact hlt.ne (hp.symm.trans hp')
  refine List.nodup_append.mpr ⟨hside .buy, hside .sell, fun id hid j hj heq ↦ ?_⟩
  obtain ⟨p, hid⟩ := mem_flatMap_entries.mp hid
  obtain ⟨q, hj⟩ := mem_flatMap_entries.mp hj
  obtain ⟨o, ho, hs, -⟩ := (hw.listed .buy p id).mp hid
  obtain ⟨o', ho', hs', -⟩ := (hw.listed .sell q j).mp hj
  rw [← heq] at ho'
  obtain rfl := ho.unique ho'
  rw [hs] at hs'
  cases hs'

/-- `pending_count` counts the pending orders. -/
theorem Indexed.pendingCount_eq (hw : sb.Indexed) : sb.pendingCount = sb.pendingIds.length := by
  rw [← length_eq_pendingIds hw.nodup_listedIds fun id ↦ hw.mem_listedIds]
  simp only [pendingCount, listedIds, List.length_append, List.length_flatMap]

theorem pendingIds_insert (hfresh : sb.orders.get? o.id = none) (hp : o.status = .pending) :
    (sb.insert o).pendingIds.length = sb.pendingIds.length + 1 := by
  have horders : (sb.insert o).orders = sb.orders.insert o.id o := by
    simp only [StopBook.insert, orders_updateStops]
  have hout : o.id ∉ sb.pendingIds := fun hmem ↦ by
    obtain ⟨o', ho', -⟩ := mem_pendingIds.mp hmem
    rw [hfresh] at ho'
    cases ho'
  rw [← List.length_cons (a := o.id)]
  refine (length_eq_pendingIds (List.nodup_cons.mpr ⟨hout, sb.nodup_pendingIds⟩) fun j ↦ ?_).symm
  simp only [pending_insert horders, List.mem_cons, mem_pendingIds]
  by_cases hj : j = o.id
  · simp [hj, hp]
  · simp [hj]

theorem Retrails.pendingIds (h : Retrails sb sb') :
    sb'.pendingIds.length = sb.pendingIds.length := by
  refine length_eq_pendingIds sb'.nodup_pendingIds fun j ↦ ?_
  rw [mem_pendingIds]
  constructor
  · rintro ⟨o', ho', hs⟩
    obtain ⟨o, ho⟩ := h.contains j o' ho'
    obtain ⟨o'', ho'', hr⟩ := h.order j o ho
    obtain rfl := Option.some.inj (ho''.symm.trans ho')
    exact ⟨o, ho, hr.status.symm.trans hs⟩
  · rintro ⟨o, ho, hs⟩
    obtain ⟨o', ho', hr⟩ := h.order j o ho
    exact ⟨o', ho', hr.status.trans hs⟩

theorem Collects.pending_iff {p : Price} {xs : List StopOrder} (h : Collects sb p sb' xs) :
    sb'.Pending id o ↔ sb.Pending id o ∧ id ∉ xs.map StopOrder.id :=
  pending_of_trigger h.orders

theorem Collects.pendingIds {p : Price} {xs : List StopOrder} (h : Collects sb p sb' xs) :
    sb'.pendingIds.length + xs.length = sb.pendingIds.length := by
  have hcollected : ∀ id ∈ xs.map StopOrder.id, ∃ o, sb.Pending id o := by
    intro id hid
    obtain ⟨x, hx, rfl⟩ := List.mem_map.mp hid
    obtain ⟨o, ho, -⟩ := h.reached x hx
    exact ⟨o, ho⟩
  rw [← List.length_map StopOrder.id, ← List.length_append]
  refine length_eq_pendingIds (List.nodup_append.mpr ⟨sb'.nodup_pendingIds, h.nodup, ?_⟩) fun j ↦ ?_
  · intro id hid j hj heq
    obtain ⟨o, ho⟩ := mem_pendingIds.mp hid
    exact (h.pending_iff.mp ho).2 (heq ▸ hj)
  · rw [List.mem_append, mem_pendingIds]
    constructor
    · rintro (⟨o, ho⟩ | hj)
      · exact ⟨o, (h.pending_iff.mp ho).1⟩
      · exact hcollected j hj
    · rintro ⟨o, ho⟩
      by_cases hj : j ∈ xs.map StopOrder.id
      · exact .inr hj
      · exact .inl ⟨o, h.pending_iff.mpr ⟨ho, hj⟩⟩

end StopBook

end Nanobook
