import Nanobook.TrailingStops

/-!
# The pending stops in the order they came

What is left of a stop book without its table, its two indices by stop price and its list of
trailing ids: the pending orders, oldest first, and the prices seen.  Every operation on a well
formed stop book does to this queue what it is for: an order joins at the end or leaves, a trade
trails all of them, and takes those it reaches, in the order they came.
-/

namespace Nanobook

structure StopQueue where
  orders : List StopOrder
  priceChanges : List Int
  lastPrice : Option Price

namespace StopQueue

variable (q : StopQueue)

def empty : StopQueue := ⟨[], [], none⟩

/-- Whether an order is waiting under an id. -/
def holds (id : OrderId) : Bool := q.orders.any fun o ↦ o.id = id

def add (o : StopOrder) : StopQueue := { q with orders := q.orders ++ [o] }

def cancel (id : OrderId) : StopQueue := { q with orders := q.orders.filter fun o ↦ o.id ≠ id }

/-- A stop book that has seen the same prices. -/
def history : StopBook :=
  { StopBook.create with priceChanges := q.priceChanges, lastPrice := q.lastPrice }

/-- A trade at `p` trails every order by itself. -/
def trail (p : Price) : StopQueue where
  orders := q.orders.map ((q.history.recordPrice p).trailed p)
  priceChanges := (q.history.recordPrice p).priceChanges
  lastPrice := some p

/-- The orders a trade at `p` reaches leave the queue, oldest first. -/
def trigger (p : Price) : StopQueue × List StopOrder :=
  ({ q with orders := q.orders.filter fun o ↦ !StopBook.reachedBy o p },
    (q.orders.filter fun o ↦ StopBook.reachedBy o p).map StopBook.triggered)

end StopQueue

namespace StopBook

variable {sb sb' : StopBook} {id : OrderId} {o : StopOrder} {p : Price} {l : List StopOrder}

/-- The queue a stop book stands for. -/
def queue (sb : StopBook) : StopQueue where
  orders := (sb.orders.entries.map Prod.snd).filter fun o ↦ o.status = .pending
  priceChanges := sb.priceChanges
  lastPrice := sb.lastPrice

/-- Every order is stored under its own id. -/
def SelfNamed (sb : StopBook) : Prop := ∀ id o, sb.orders.get? id = some o → o.id = id

theorem mem_queue (hn : sb.SelfNamed) : o ∈ sb.queue.orders ↔ sb.Pending o.id o := by
  rw [queue, List.mem_filter, List.mem_map, decide_eq_true_iff]
  refine and_congr_left fun _ ↦ ⟨?_, fun ho ↦ ⟨(o.id, o), sb.orders.get?_eq_some_iff.mp ho, rfl⟩⟩
  rintro ⟨e, he, rfl⟩
  have hget : sb.orders.get? e.1 = some e.2 := sb.orders.get?_eq_some_iff.mpr he
  rwa [hn e.1 e.2 hget]

/-- The queue is in the order of the ids. -/
theorem sorted_queue (hn : sb.SelfNamed) : sb.queue.orders.Pairwise fun o o' ↦ o.id < o'.id := by
  refine List.Pairwise.filter _ (List.pairwise_map.mpr ?_)
  refine sb.orders.sorted.imp_of_mem fun {e e'} he he' hlt ↦ ?_
  rw [hn e.1 e.2 (sb.orders.get?_eq_some_iff.mpr he),
    hn e'.1 e'.2 (sb.orders.get?_eq_some_iff.mpr he')]
  exact hlt

/-- The queue is the one list of the pending orders in the order of their ids. -/
theorem queue_eq (hn : sb.SelfNamed) (hsorted : l.Pairwise fun o o' ↦ o.id < o'.id)
    (hmem : ∀ o, o ∈ l ↔ sb.Pending o.id o) : sb.queue.orders = l := by
  have hnodup {l : List StopOrder} (h : l.Pairwise fun o o' ↦ o.id < o'.id) : l.Nodup :=
    h.imp fun hlt heq ↦ hlt.ne (congrArg StopOrder.id heq)
  refine ((List.perm_ext_iff_of_nodup (hnodup (sorted_queue hn)) (hnodup hsorted)).mpr
    fun o ↦ ?_).eq_of_pairwise (fun o o' _ _ hlt hgt ↦ absurd hgt hlt.asymm) (sorted_queue hn)
    hsorted
  rw [mem_queue hn, hmem]

theorem holds_queue (hn : sb.SelfNamed) (id : OrderId) :
    sb.queue.holds id = sb.containsPending id := by
  rw [Bool.eq_iff_iff, containsPending_iff, StopQueue.holds, List.any_eq_true]
  constructor
  · rintro ⟨o, ho, hid⟩
    rw [decide_eq_true_iff] at hid
    subst hid
    exact ⟨o, (mem_queue hn).mp ho⟩
  · rintro ⟨o, ho⟩
    have hid : o.id = id := hn id o ho.1
    exact ⟨o, (mem_queue hn).mpr (hid ▸ ho), decide_eq_true hid⟩

/-! ## The prices seen -/

/-- The price history of a stop book. -/
def seen (sb : StopBook) : List Int × Option Price := (sb.priceChanges, sb.lastPrice)

@[simp] theorem seen_updateStops (sb : StopBook) (s : Side)
    (f : OrdMap Price (List OrderId) → OrdMap Price (List OrderId)) :
    (sb.updateStops s f).seen = sb.seen := by cases s <;> rfl

theorem seen_insert (sb : StopBook) (o : StopOrder) : (sb.insert o).seen = sb.seen := by
  rw [StopBook.insert]
  exact seen_updateStops sb o.side _

theorem seen_cancel (sb : StopBook) (id : OrderId) : (sb.cancel id).seen = sb.seen := by
  rw [cancel]
  split
  · rfl
  · next o _ =>
      split_ifs
      · exact seen_updateStops sb o.side _
      · rfl

theorem seen_updateTrailingStop (p : Price) (sb : StopBook) (id : OrderId) :
    (updateTrailingStop p sb id).seen = sb.seen := by
  simp only [updateTrailingStop]
  split
  · rfl
  · next o _ =>
      split
      · split_ifs
        · rfl
        · exact seen_updateStops sb o.side _
        · rfl
      · rfl

theorem seen_updateTrailingStops (sb : StopBook) (p : Price) :
    (sb.updateTrailingStops p).seen = (sb.recordPrice p).seen :=
  List.foldlRecOn (motive := fun sb' ↦ sb'.seen = (sb.recordPrice p).seen)
    (sb.recordPrice p).trailingIds (updateTrailingStop p) rfl
    fun sb' hsb' id _ ↦ (seen_updateTrailingStop p sb' id).trans hsb'

theorem seen_triggerKey (s : Side) (acc : StopBook × List StopOrder) (key : Price) :
    (triggerKey s acc key).1.seen = acc.1.seen := by
  rw [triggerKey]
  split
  · rfl
  · next ids _ =>
      refine List.foldlRecOn (motive := fun acc' ↦ acc'.1.seen = acc.1.seen) ids triggerId
        (b := (acc.1.updateStops s fun m ↦ m.erase key, acc.2)) (seen_updateStops acc.1 s _)
        fun acc' hacc id _ ↦ ?_
      rw [triggerId]
      split
      · exact hacc
      · split_ifs <;> exact hacc

theorem seen_collectTriggered (sb : StopBook) (p : Price) :
    (sb.collectTriggered p).1.seen = sb.seen := by
  have hkeys (s : Side) (keys : List Price) (acc : StopBook × List StopOrder) :
      (keys.foldl (triggerKey s) acc).1.seen = acc.1.seen :=
    List.foldlRecOn (motive := fun acc' ↦ acc'.1.seen = acc.1.seen) keys (triggerKey s) rfl
      fun acc' hacc key _ ↦ (seen_triggerKey s acc' key).trans hacc
  simp only [collectTriggered]
  split_ifs
  · exact (hkeys _ _ _).trans (hkeys _ _ _)
  · exact (hkeys _ _ _).trans (hkeys _ _ _)

/-- A queue is its orders and the prices seen. -/
theorem queue_eq_mk {q : StopQueue} (horders : sb.queue.orders = q.orders)
    (hseen : sb.seen = (q.priceChanges, q.lastPrice)) : sb.queue = q := by
  obtain ⟨hchanges, hlast⟩ := Prod.mk.inj hseen
  obtain ⟨orders, priceChanges, lastPrice⟩ := q
  exact StopQueue.mk.injEq .. ▸ ⟨horders, hchanges, hlast⟩

/-! ## The operations -/

theorem queue_create : create.queue = StopQueue.empty := rfl

/-- A pending order with a new, higher id joins at the end. -/
theorem WF.queue_insert (hw : sb.WF) (hbelow : ∀ x ∈ sb.queue.orders, x.id < o.id)
    (hfresh : sb.orders.get? o.id = none) (hp : o.status = .pending) :
    (sb.insert o).queue = sb.queue.add o := by
  have hw' : (sb.insert o).WF := hw.insert hfresh hp
  have horders : (sb.insert o).orders = sb.orders.insert o.id o := by
    rw [StopBook.insert, orders_updateStops]
  have hlist : (sb.insert o).queue.orders = sb.queue.orders ++ [o] := by
    refine queue_eq hw'.stored (List.pairwise_append.mpr ⟨sorted_queue hw.stored,
      List.pairwise_singleton _ _, fun x hx y hy ↦ ?_⟩) fun x ↦ ?_
    · rw [List.mem_singleton.mp hy]
      exact hbelow x hx
    · rw [List.mem_append, List.mem_singleton, mem_queue hw.stored, pending_insert horders]
      split_ifs with hid
      · have hnot : ¬ sb.Pending x.id x := fun hx ↦ by
          rw [Pending, hid, hfresh] at hx
          cases hx.1
        exact ⟨fun h ↦ ⟨h.resolve_left hnot, hp⟩, fun h ↦ .inr h.1⟩
      · exact or_iff_left fun h ↦ hid (congrArg StopOrder.id h)
  exact queue_eq_mk hlist (seen_insert sb o)

theorem WF.queue_cancel (hw : sb.WF) (id : OrderId) :
    (sb.cancel id).queue = sb.queue.cancel id := by
  have hsorted := (sorted_queue hw.stored).filter fun o ↦ decide (o.id ≠ id)
  by_cases hp : ∃ o, sb.Pending id o
  · obtain ⟨o, ho⟩ := hp
    have horders : (sb.cancel id).orders = sb.orders.insert id { o with status := .cancelled } := by
      rw [cancel_of_pending ho]
    have hlist : (sb.cancel id).queue.orders = sb.queue.orders.filter fun o ↦ o.id ≠ id := by
      refine queue_eq (hw.cancel id).stored hsorted fun x ↦ ?_
      rw [List.mem_filter, decide_eq_true_iff, mem_queue hw.stored, pending_insert horders]
      split_ifs with hid
      · exact iff_of_false (fun h ↦ h.2 hid) fun h ↦ by cases h.2
      · exact and_iff_left hid
    exact queue_eq_mk hlist (seen_cancel sb id)
  · have hlist : sb.queue.orders.filter (fun o ↦ decide (o.id ≠ id)) = sb.queue.orders := by
      refine List.filter_eq_self.mpr fun o ho ↦ decide_eq_true fun hid ↦ ?_
      exact hp ⟨o, hid ▸ (mem_queue hw.stored).mp ho⟩
    rw [cancel_of_not_pending (not_exists.mp hp), StopQueue.cancel, hlist]

theorem WF.queue_updateTrailingStops (hw : sb.WF) (p : Price) :
    (sb.updateTrailingStops p).queue = sb.queue.trail p := by
  have hget := get?_updateTrailingStops hw p
  have hsame : ∀ o, (sb.queue.history.recordPrice p).trailed p o = (sb.recordPrice p).trailed p o :=
    fun o ↦ trailed_congr rfl
  have hid : ∀ o, ((sb.recordPrice p).trailed p o).id = o.id := fun o ↦ by
    rw [trailed]
    split
    · rfl
    · dsimp only
      split_ifs <;> rfl
  have hlist : (sb.updateTrailingStops p).queue.orders =
      sb.queue.orders.map ((sb.recordPrice p).trailed p) := by
    refine queue_eq (updateTrailingStops_spec hw p).1.stored (List.pairwise_map.mpr ?_) fun x ↦ ?_
    · simp only [hid]
      exact sorted_queue hw.stored
    · rw [List.mem_map, Pending, hget, Option.map_eq_some_iff]
      constructor
      · rintro ⟨o, ho, rfl⟩
        have hpend := (mem_queue hw.stored).mp ho
        refine ⟨⟨o, (hid o).symm ▸ hpend.1, if_pos hpend.2⟩, ?_⟩
        rw [status_trailed]
        exact hpend.2
      · rintro ⟨⟨o, ho, heq⟩, hs⟩
        split_ifs at heq with hpend
        · subst heq
          rw [hid] at ho
          exact ⟨o, (mem_queue hw.stored).mpr ⟨ho, hpend⟩, rfl⟩
        · exact absurd (heq ▸ hs) hpend
  exact queue_eq_mk (hlist.trans (List.map_congr_left fun o _ ↦ (hsame o).symm))
    (seen_updateTrailingStops sb p)

/-- `collect_triggered` sorts what it found by timestamp, which is the order of a queue in which
later orders are younger. -/
theorem WF.queue_collectTriggered (hw : sb.WF)
    (haged : sb.queue.orders.Pairwise fun o o' ↦ o.timestamp < o'.timestamp) (p : Price) :
    ((sb.collectTriggered p).1.queue, (sb.collectTriggered p).2) = sb.queue.trigger p := by
  have hcol := hw.collects p
  set xs := (sb.collectTriggered p).2 with hxs
  have hpending : ∀ o, (sb.collectTriggered p).1.Pending o.id o ↔
      sb.Pending o.id o ∧ reachedBy o p = false := fun o ↦ by
    rw [hcol.pending_iff]
    refine and_congr_right fun ho ↦ ⟨fun hnot ↦ ?_, fun hr hin ↦ ?_⟩
    · exact hcol.left o.id o (hcol.pending_iff.mpr ⟨ho, hnot⟩)
    · obtain ⟨x, hx, hid⟩ := List.mem_map.mp hin
      obtain ⟨o', ho', hr', -⟩ := hcol.reached x hx
      rw [hid] at ho'
      rw [ho.unique ho', hr'] at hr
      cases hr
  have hqueue : (sb.collectTriggered p).1.queue =
      { sb.queue with orders := sb.queue.orders.filter fun o ↦ !reachedBy o p } := by
    refine queue_eq_mk (queue_eq hcol.wf.stored ((sorted_queue hw.stored).filter _) fun o ↦ ?_)
      (seen_collectTriggered sb p)
    rw [hpending, List.mem_filter, mem_queue hw.stored, Bool.not_eq_true']
  -- both lists hold the reached orders once, in the order of their timestamps
  have hreached : (sb.queue.orders.filter fun o ↦ reachedBy o p).Pairwise fun o o' ↦
      o.timestamp < o'.timestamp := haged.filter _
  have hmem : ∀ x, x ∈ xs ↔ x ∈ (sb.queue.orders.filter fun o ↦ reachedBy o p).map triggered := by
    intro x
    rw [List.mem_map]
    constructor
    · intro hx
      obtain ⟨o, ho, hr, rfl⟩ := hcol.reached x hx
      exact ⟨o, List.mem_filter.mpr ⟨(mem_queue hw.stored).mpr ho, hr⟩, rfl⟩
    · rintro ⟨o, ho, rfl⟩
      obtain ⟨ho, hr⟩ := List.mem_filter.mp ho
      have hpend := (mem_queue hw.stored).mp ho
      have hin : o.id ∈ xs.map StopOrder.id := by
        by_contra hnot
        have hleft := hcol.left o.id o (hcol.pending_iff.mpr ⟨hpend, hnot⟩)
        rw [hr] at hleft
        cases hleft
      obtain ⟨x, hx, hid⟩ := List.mem_map.mp hin
      obtain ⟨o', ho', -, rfl⟩ := hcol.reached x hx
      rw [hid] at ho'
      rwa [← hpend.unique ho'] at hx
  have hyounger : ((sb.queue.orders.filter fun o ↦ reachedBy o p).map triggered).Pairwise
      fun o o' ↦ o.timestamp < o'.timestamp := List.pairwise_map.mpr hreached
  have hnodup : ((sb.queue.orders.filter fun o ↦ reachedBy o p).map triggered).Nodup :=
    hyounger.imp fun hlt heq ↦ hlt.ne (congrArg StopOrder.timestamp heq)
  have hsorted : xs.Pairwise fun o o' ↦ o.timestamp ≤ o'.timestamp :=
    List.pairwise_insertionSort _ _
  have hperm := (List.perm_ext_iff_of_nodup (List.Nodup.of_map _ hcol.nodup) hnodup).mpr hmem
  refine Prod.ext hqueue (hperm.eq_of_pairwise (fun o o' ho ho' hle hge ↦ ?_) hsorted
    (hyounger.imp fun hlt ↦ hlt.le))
  have hdistinct : (((sb.queue.orders.filter fun o ↦ reachedBy o p).map triggered).map
      StopOrder.timestamp).Nodup := List.pairwise_map.mpr (hyounger.imp fun hlt ↦ hlt.ne)
  exact List.inj_on_of_nodup_map hdistinct ((hmem o).mp ho) ho' (le_antisymm hle hge)

theorem WF.queue_clearHistory (hw : sb.WF) : sb.clearHistory.queue = sb.queue := by
  obtain ⟨hw', hpending⟩ := hw.clearHistory
  have hlist : sb.clearHistory.queue.orders = sb.queue.orders :=
    queue_eq hw'.stored (sorted_queue hw.stored) fun o ↦ by
      rw [mem_queue hw.stored, hpending]
  rw [queue, queue, StopQueue.mk.injEq]
  exact ⟨hlist, rfl, rfl⟩

end StopBook

end Nanobook
