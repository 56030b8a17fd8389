import Nanobook.Invariant.StopBook

/-!
# Runs of the stop book

The stop book over whole sequences of its operations, with a record of the ids that were inserted,
cancelled and returned as triggered.  An id is never inserted twice, which is what the exchange
guarantees by its counter; without that, `clear_history` would let an id trigger a second time.
-/

namespace Nanobook

namespace StopBook

/-- The operations on a stop book. -/
inductive StopOp where
  | insert (order : StopOrder)
  | cancel (orderId : OrderId)
  | updateTrailingStops (tradePrice : Price)
  | collectTriggered (tradePrice : Price)
  | clearHistory

def perform (sb : StopBook) : StopOp → StopBook
  | .insert order => sb.insert order
  | .cancel orderId => sb.cancel orderId
  | .updateTrailingStops tradePrice => sb.updateTrailingStops tradePrice
  | .collectTriggered tradePrice => (sb.collectTriggered tradePrice).1
  | .clearHistory => sb.clearHistory

/-- The ids inserted, cancelled and returned by `collect_triggered` so far, in order. -/
structure History where
  inserted : List OrderId
  cancelled : List OrderId
  returned : List OrderId

/-- What an operation on `sb` adds to the history.  A cancellation counts if it is accepted, which
it is for a pending order. -/
def History.after (h : History) (sb : StopBook) : StopOp → History
  | .insert order => { h with inserted := h.inserted ++ [order.id] }
  | .cancel orderId =>
      if sb.containsPending orderId then { h with cancelled := h.cancelled ++ [orderId] } else h
  | .updateTrailingStops _ => h
  | .collectTriggered tradePrice =>
      { h with returned := h.returned ++ (sb.collectTriggered tradePrice).2.map StopOrder.id }
  | .clearHistory => h

/-- Orders are inserted pending and under ids that were never used. -/
def Allowed (h : History) : StopOp → Prop
  | .insert order => order.id ∉ h.inserted ∧ order.status = .pending
  | _ => True

/-- The runs from the empty book. -/
inductive StopRun : StopBook → History → Prop
  | start : StopRun create ⟨[], [], []⟩
  | step {sb : StopBook} {h : History} (op : StopOp) : StopRun sb h → Allowed h op →
      StopRun (sb.perform op) (h.after sb op)

/-- Every listing of the two indices: the side, the key and the id. -/
def listings (sb : StopBook) : List (Side × Price × OrderId) :=
  (sb.buyStops.entries.flatMap fun e ↦ e.2.map fun id ↦ (Side.buy, e.1, id)) ++
    sb.sellStops.entries.flatMap fun e ↦ e.2.map fun id ↦ (Side.sell, e.1, id)

variable {sb : StopBook} {h : History} {id : OrderId} {o : StopOrder}

theorem mem_listings {s : Side} {p : Price} :
    (s, p, id) ∈ sb.listings ↔ id ∈ idsAt (sb.stops s) p := by
  have hflat : ∀ (t : Side) (m : OrdMap Price (List OrderId)),
      (s, p, id) ∈ m.entries.flatMap (fun e ↦ e.2.map fun id ↦ (t, e.1, id)) ↔
        s = t ∧ id ∈ idsAt m p := by
    intro t m
    rw [List.mem_flatMap]
    constructor
    · rintro ⟨e, he, hmem⟩
      obtain ⟨j, hj, heq⟩ := List.mem_map.mp hmem
      cases heq
      exact ⟨rfl, by rwa [idsAt_eq_of_get? (m.get?_eq_some_iff.mpr he)]⟩
    · rintro ⟨rfl, hid⟩
      rw [idsAt] at hid
      cases hp : m.get? p with
      | none =>
          rw [hp] at hid
          cases hid
      | some ids =>
          rw [hp] at hid
          exact ⟨(p, ids), m.get?_eq_some_iff.mp hp, List.mem_map.mpr ⟨id, hid, rfl⟩⟩
  rw [listings, List.mem_append, hflat, hflat]
  cases s with
  | buy => simp [stops]
  | sell => simp [stops]

theorem map_listings (sb : StopBook) : sb.listings.map (fun x ↦ x.2.2) = sb.listedIds := by
  simp [listings, listedIds, List.map_flatMap, Function.comp_def]

/-- A pending order is listed once, under its side and its current stop price. -/
theorem Indexed.listings_of_pending (hw : sb.Indexed) (ho : sb.Pending id o) :
    sb.listings.filter (fun x ↦ x.2.2 = id) = [(o.side, o.stopPrice, id)] := by
  have hnd : sb.listings.Nodup := by
    refine List.Nodup.of_map (fun x ↦ x.2.2) ?_
    rw [map_listings]
    exact hw.nodup_listedIds
  refine List.perm_singleton.mp ((List.perm_ext_iff_of_nodup (hnd.filter _)
    (List.nodup_singleton _)).mpr ?_)
  rintro ⟨s, p, j⟩
  rw [List.mem_filter, List.mem_singleton, mem_listings, decide_eq_true_iff]
  constructor
  · rintro ⟨hmem, rfl⟩
    obtain ⟨hs, hp⟩ := (hw.listed_self ho s p).mp hmem
    rw [hs, hp]
  · intro heq
    cases heq
    exact ⟨(hw.listed_self ho _ _).mpr ⟨rfl, rfl⟩, rfl⟩

/-! ## What a run keeps -/

/-- The book is well formed, and the history accounts for its orders: a pending one was neither
cancelled nor returned, and no id was returned twice or both cancelled and returned. -/
structure Accounted (sb : StopBook) (h : History) : Prop where
  wf : sb.WF
  stored : ∀ id o, sb.orders.get? id = some o → id ∈ h.inserted
  settled : ∀ id, id ∈ h.cancelled ∨ id ∈ h.returned → id ∈ h.inserted ∧ ∀ o, ¬ sb.Pending id o
  once : h.returned.Nodup
  disjoint : ∀ id ∈ h.returned, id ∉ h.cancelled

theorem accounted_create : Accounted create ⟨[], [], []⟩ where
  wf := wf_create
  stored _ _ ho := by cases ho
  settled _ hid := by rcases hid with hid | hid <;> cases hid
  once := List.nodup_nil
  disjoint _ hid := by cases hid

theorem Accounted.insert (h' : Accounted sb h) (hfresh : o.id ∉ h.inserted)
    (hp : o.status = .pending) :
    Accounted (sb.insert o) (h.after sb (.insert o)) := by
  have hnone : sb.orders.get? o.id = none := by
    cases hget : sb.orders.get? o.id with
    | none => rfl
    | some o' => exact absurd (h'.stored _ _ hget) hfresh
  have horders : (sb.insert o).orders = sb.orders.insert o.id o := by
    simp only [StopBook.insert, orders_updateStops]
  refine ⟨h'.wf.insert hnone hp, fun j o' ho' ↦ ?_, fun j hj ↦ ?_, h'.once, h'.disjoint⟩
  · rw [horders, OrdMap.get?_insert] at ho'
    split_ifs at ho' with hj
    · exact List.mem_append_right _ (List.mem_singleton.mpr hj)
    · exact List.mem_append_left _ (h'.stored j o' ho')
  · obtain ⟨hin, hnot⟩ := h'.settled j hj
    have hne : j ≠ o.id := ne_of_mem_of_not_mem hin hfresh
    refine ⟨List.mem_append_left _ hin, fun o' ho' ↦ hnot o' ?_⟩
    rwa [pending_insert horders, if_neg hne] at ho'

theorem Accounted.cancel (h' : Accounted sb h) (id : OrderId) :
    Accounted (sb.cancel id) (h.after sb (.cancel id)) := by
  by_cases hp : ∃ o, sb.Pending id o
  · obtain ⟨o, ho⟩ := hp
    have hafter : h.after sb (.cancel id) = { h with cancelled := h.cancelled ++ [id] } :=
      if_pos (containsPending_iff.mpr ⟨o, ho⟩)
    have horders : (sb.cancel id).orders = sb.orders.insert id { o with status := .cancelled } := by
      rw [cancel_of_pending ho]
    have hnot : ∀ o', ¬ (sb.cancel id).Pending id o' := by
      intro o' ho'
      rw [pending_insert horders, if_pos rfl] at ho'
      cases ho'.2
    rw [hafter]
    refine ⟨h'.wf.cancel id, fun j o' ho' ↦ ?_, fun j hj ↦ ?_, h'.once, fun j hj hc ↦ ?_⟩
    · rw [horders, OrdMap.get?_insert] at ho'
      split_ifs at ho' with hj
      · exact hj ▸ h'.stored id o ho.1
      · exact h'.stored j o' ho'
    · by_cases hji : j = id
      · subst hji
        exact ⟨h'.stored j o ho.1, hnot⟩
      · obtain ⟨hin, hold⟩ := h'.settled j (hj.imp_left fun hj ↦
          (List.mem_append.mp hj).resolve_right fun hj ↦ hji (List.mem_singleton.mp hj))
        refine ⟨hin, fun o' ho' ↦ hold o' ?_⟩
        rwa [pending_insert horders, if_neg hji] at ho'
    · rcases List.mem_append.mp hc with hc | hc
      · exact h'.disjoint j hj hc
      · rw [List.mem_singleton.mp hc] at hj
        exact (h'.settled id (.inr hj)).2 o ho
  · have hafter : h.after sb (.cancel id) = h :=
      if_neg fun hc ↦ hp (containsPending_iff.mp hc)
    rw [hafter, cancel_of_not_pending fun o ho ↦ hp ⟨o, ho⟩]
    exact h'

theorem Accounted.updateTrailingStops (h' : Accounted sb h) (p : Price) :
    Accounted (sb.updateTrailingStops p) h := by
  obtain ⟨hw, hr⟩ := updateTrailingStops_spec h'.wf p
  refine ⟨hw, fun j o' ho' ↦ ?_, fun j hj ↦ ?_, h'.once, h'.disjoint⟩
  · obtain ⟨o, ho⟩ := hr.contains j o' ho'
    exact h'.stored j o ho
  · obtain ⟨hin, hnot⟩ := h'.settled j hj
    refine ⟨hin, fun o' ho' ↦ ?_⟩
    obtain ⟨o, ho⟩ := hr.contains j o' ho'.1
    obtain ⟨o'', ho'', hre⟩ := hr.order j o ho
    obtain rfl := Option.some.inj (ho''.symm.trans ho'.1)
    exact hnot o ⟨ho, hre.status.symm.trans ho'.2⟩

theorem Accounted.collectTriggered (h' : Accounted sb h) (p : Price) :
    Accounted (sb.collectTriggered p).1 (h.after sb (.collectTriggered p)) := by
  have hc := h'.wf.collects p
  have hreached : ∀ id ∈ (sb.collectTriggered p).2.map StopOrder.id, ∃ o, sb.Pending id o := by
    intro id hid
    obtain ⟨x, hx, rfl⟩ := List.mem_map.mp hid
    obtain ⟨o, ho, -⟩ := hc.reached x hx
    exact ⟨o, ho⟩
  refine ⟨hc.wf, fun j o' ho' ↦ ?_, fun j hj ↦ ?_, ?_, fun j hj hcan ↦ ?_⟩
  · rw [hc.orders, trigger, OrdMap.get?_mapVals] at ho'
    obtain ⟨o, ho, -⟩ := Option.map_eq_some_iff.mp ho'
    exact h'.stored j o ho
  · by_cases hret : j ∈ (sb.collectTriggered p).2.map StopOrder.id
    · obtain ⟨o, ho⟩ := hreached j hret
      exact ⟨h'.stored j o ho.1, fun o' ho' ↦ (hc.pending_iff.mp ho').2 hret⟩
    · obtain ⟨hin, hnot⟩ := h'.settled j (hj.imp_right fun hj ↦
        (List.mem_append.mp hj).resolve_right hret)
      exact ⟨hin, fun o' ho' ↦ hnot o' (hc.pending_iff.mp ho').1⟩
  · refine List.nodup_append.mpr ⟨h'.once, hc.nodup, fun i hi j hj heq ↦ ?_⟩
    obtain ⟨o, ho⟩ := hreached j hj
    exact (h'.settled i (.inr hi)).2 o (heq ▸ ho)
  · rcases List.mem_append.mp hj with hj | hj
    · exact h'.disjoint j hj hcan
    · obtain ⟨o, ho⟩ := hreached j hj
      exact (h'.settled j (.inl hcan)).2 o ho

theorem Accounted.clearHistory (h' : Accounted sb h) : Accounted sb.clearHistory h := by
  obtain ⟨hw, hpend⟩ := h'.wf.clearHistory
  refine ⟨hw, fun j o ho ↦ ?_, fun j hj ↦ ?_, h'.once, h'.disjoint⟩
  · simp only [StopBook.clearHistory, OrdMap.get?_filter, Option.filter_eq_some_iff] at ho
    exact h'.stored j o ho.1
  · obtain ⟨hin, hnot⟩ := h'.settled j hj
    exact ⟨hin, fun o ho ↦ hnot o ((hpend j o).mp ho)⟩

theorem StopRun.accounted (hrun : StopRun sb h) : Accounted sb h := by
  induction hrun with
  | start => exact accounted_create
  | @step sb h op _ hop ih =>
      cases op with
      | insert order => exact ih.insert hop.1 hop.2
      | cancel id => exact ih.cancel id
      | updateTrailingStops p => exact ih.updateTrailingStops p
      | collectTriggered p => exact ih.collectTriggered p
      | clearHistory => exact ih.clearHistory

/-- After any run, the indices list exactly the pending orders, each once, under its own side and
its current stop price, with no empty price left; the trailing ids are the pending trailing orders;
`pending_count` is their number; and no stop was returned twice, nor one that was cancelled. -/
theorem indices_exact_of_run (hrun : StopRun sb h) :
    (∀ id o, sb.orders.get? id = some o → o.status = .pending →
      sb.listings.filter (fun x ↦ x.2.2 = id) = [(o.side, o.stopPrice, id)]) ∧
    (∀ s p id, (s, p, id) ∈ sb.listings →
      ∃ o, sb.orders.get? id = some o ∧ o.status = .pending) ∧
    (∀ s p ids, (sb.stops s).get? p = some ids → ids ≠ []) ∧
    (sb.trailingIds.Nodup ∧ ∀ id, id ∈ sb.trailingIds ↔
      ∃ o, sb.orders.get? id = some o ∧ o.status = .pending ∧ o.trailMethod.isSome = true) ∧
    sb.pendingCount = (sb.orders.filter fun _ o ↦ o.status = .pending).size ∧
    h.returned.Nodup ∧ ∀ id ∈ h.returned, id ∉ h.cancelled := by
  have hacc := hrun.accounted
  refine ⟨fun id o ho hs ↦ hacc.wf.listings_of_pending ⟨ho, hs⟩, fun s p id hid ↦ ?_,
    fun s p ids hids ↦ (hacc.wf.tidy s p ids hids).1, ⟨hacc.wf.trailingNodup, fun id ↦ ?_⟩, ?_,
    hacc.once, hacc.disjoint⟩
  · obtain ⟨o, ho, -⟩ := (hacc.wf.listed s p id).mp (mem_listings.mp hid)
    exact ⟨o, ho⟩
  · rw [hacc.wf.trailing]
    simp only [Pending, and_assoc]
  · rw [hacc.wf.pendingCount_eq, pendingIds, List.length_map]
    rfl

/-- A buy stop at 105 and a sell stop trailing by 5, which a trade at 110 pulls up to 105 and
triggers the buy; a trade at 104 then triggers the sell. -/
theorem indices_exact_of_run_trailing :
    ∃ sb h, StopRun sb h ∧ h.inserted = [1, 2, 3] ∧ h.returned = [1, 2] ∧ h.cancelled = [] ∧
      sb.pendingCount = 1 ∧ sb.listings.filter (fun x ↦ x.2.2 = 3) = [(.buy, 120, 3)] := by
  obtain ⟨sb, h, hrun, hh, hsb⟩ : ∃ sb h, StopRun sb h ∧
      (h.inserted, h.returned, h.cancelled) = ([1, 2, 3], [1, 2], []) ∧
      ((sb.orders.get? 3).map fun o ↦ (o.status, o.side, o.stopPrice)) =
        some (.pending, .buy, 120) ∧
      (sb.orders.filter fun _ o ↦ o.status = .pending).size = 1 := by
    refine ⟨_, _, .step (.collectTriggered 104) (.step (.updateTrailingStops 104)
      (.step (.collectTriggered 110) (.step (.updateTrailingStops 110)
      (.step (.insert ⟨3, .buy, 120, none, 5, .gtc, 3, .pending, none, none⟩)
      (.step (.insert ⟨2, .sell, 95, none, 5, .gtc, 2, .pending, some (.fixed 5), none⟩)
      (.step (.insert ⟨1, .buy, 105, none, 5, .gtc, 1, .pending, none, none⟩) .start
        ⟨?_, rfl⟩) ⟨?_, rfl⟩) ⟨?_, rfl⟩) trivial) trivial) trivial) trivial, ?_, ?_, ?_⟩
    · decide
    · decide
    · decide
    · rfl
    · rfl
    · rfl
  simp only [Prod.mk.injEq] at hh
  obtain ⟨hsb, hcount⟩ := hsb
  obtain ⟨o, ho, heq⟩ := Option.map_eq_some_iff.mp hsb
  simp only [Prod.mk.injEq] at heq
  have hexact := indices_exact_of_run hrun
  have hlist := hexact.1 3 o ho heq.1
  rw [heq.2.1, heq.2.2] at hlist
  exact ⟨sb, h, hrun, hh.1, hh.2.1, hh.2.2, hexact.2.2.2.2.1.trans hcount, hlist⟩

end StopBook

end Nanobook
