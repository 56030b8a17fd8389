import Nanobook.Invariant.Exchange

/-!
# Cancelling a queued order

`cancel` is meant to take one order out of its queue and leave everything else alone.  It goes to
the index recorded when the order was added, and `front`, `pop_front` and `compact` move the queue
under that index.  Whether a cancellation is exact is decided by three facts about the level: the
recorded slot still holds the order, the cached total covers its remaining quantity, and it does
not drop to zero while others are queued.
-/

namespace Nanobook

namespace Exchange

/-- Cancelling `id`, queued at `l` with remaining quantity `r`, succeeds and removes exactly that
order. -/
structure CancelsExactly (ex : Exchange) (id : OrderId) (s : Side) (p : Price) (l : Level)
    (r : Quantity) : Prop where
  result : (ex.cancel id).2 = .succeeded r
  /-- The level disappears if its total drops to zero, and stays without the order otherwise. -/
  level : match (ex.cancel id).1.book.level s p with
    | none => l.iter.erase id = [] ∧ l.totalQuantity = r
    | some l' => l'.iter = l.iter.erase id ∧ l'.totalQuantity + r = l.totalQuantity ∧
        l'.totalQuantity ≠ 0
  levels : ∀ s' p', ¬ (s' = s ∧ p' = p) → (ex.cancel id).1.book.level s' p' = ex.book.level s' p'
  orders : ∀ j, j ≠ id → (ex.cancel id).1.book.orders.get? j = ex.book.orders.get? j

/-- The level after the slot `i` was overwritten, if anything is left of it. -/
theorem filter_markTombstone (l : Level) (i : Nat) (q : Quantity) :
    (some (l.markTombstone i q)).filter (fun l ↦ !l.isEmpty) =
      if (l.markTombstone i q).totalQuantity = 0 then none else some (l.markTombstone i q) := by
  simp only [Option.filter, Level.isEmpty, Bool.not_eq_true', decide_eq_false_iff_not, ite_not]

/-- An order is the only one of a queue if nothing is left without it. -/
theorem erase_eq_nil_iff {l : List OrderId} {id : OrderId} (hid : id ∈ l) :
    l.erase id = [] ↔ l = [id] := by
  constructor
  · intro h
    have hp := List.perm_cons_erase hid
    rw [h] at hp
    exact List.perm_singleton.mp hp
  · intro h
    simp [h]

/-- A queue without one order is not the queue without another one. -/
theorem eq_of_erase_eq_erase {l : List OrderId} {id j : OrderId} (hid : id ∈ l) (hnd : l.Nodup)
    (h : l.erase j = l.erase id) : j = id := by
  by_contra hj
  have hmem : id ∈ l.erase j := (List.mem_erase_of_ne (Ne.symm hj)).mpr hid
  rw [h, List.Nodup.mem_erase_iff hnd] at hmem
  exact hmem.1 rfl

/-- What overwriting slot `i` must leave for `id` to be the order that was removed. -/
theorem markTombstone_exact_iff {l : Level} {id : OrderId} (hid : id ∈ l.iter) (hnd : l.iter.Nodup)
    (i : Nat) {r : Quantity} (hr : 0 < r) :
    (match (some (l.markTombstone i r)).filter (fun l ↦ !l.isEmpty) with
      | none => l.iter.erase id = [] ∧ l.totalQuantity = r
      | some l' => l'.iter = l.iter.erase id ∧ l'.totalQuantity + r = l.totalQuantity ∧
          l'.totalQuantity ≠ 0) ↔
      l.orders[i]? = some id ∧ r ≤ l.totalQuantity ∧ (l.totalQuantity = r → l.iter = [id]) := by
  have hne : id ≠ 0 := (Level.mem_iter.mp hid).2
  rw [filter_markTombstone]
  by_cases hlive : ∃ j, l.orders[i]? = some j ∧ j ≠ 0
  · obtain ⟨j, hj, hj0⟩ := hlive
    have hiter := Level.iter_markTombstone hj hj0 hnd r
    have htotal : (l.markTombstone i r).totalQuantity = l.totalQuantity - r := by
      rw [Level.markTombstone_of_slot hj hj0]
    have hjmem : j ∈ l.iter := Level.mem_iter.mpr ⟨List.mem_of_getElem? hj, hj0⟩
    rw [htotal, hj]
    split_ifs with h0
    · dsimp only
      rw [erase_eq_nil_iff hid]
      constructor
      · rintro ⟨hone, hr⟩
        rw [hone, List.mem_singleton] at hjmem
        exact ⟨by rw [hjmem], by lia, fun _ ↦ hone⟩
      · rintro ⟨-, hle, hone⟩
        have htr : l.totalQuantity = r := by lia
        exact ⟨hone htr, htr⟩
    · dsimp only
      rw [hiter, htotal]
      constructor
      · rintro ⟨heq, hsum, -⟩
        have hji : j = id := eq_of_erase_eq_erase hid hnd heq
        exact ⟨by rw [hji], by lia, fun h ↦ by lia⟩
      · rintro ⟨hji, hle, -⟩
        rw [Option.some.inj hji]
        exact ⟨rfl, by lia, by lia⟩
  · -- a missing slot or a tombstone: the order stays in the queue
    have hdead : ∀ j, l.orders[i]? = some j → j = 0 := fun j hj ↦ by
      by_contra hj0
      exact hlive ⟨j, hj, hj0⟩
    rw [Level.markTombstone_of_dead hdead]
    constructor
    · split_ifs with h0
      · rintro ⟨-, htr⟩
        lia
      · rintro ⟨heq, -⟩
        rw [heq, List.Nodup.mem_erase_iff hnd] at hid
        exact absurd rfl hid.1
    · rintro ⟨hslot, -⟩
      exact absurd (hdead id hslot) hne

/-- An id stored in the book is not the id of a stop order. -/
theorem WF.containsPending_eq_false {ex : Exchange} (hw : ex.WF) {id : OrderId} {o : Order}
    (ho : ex.book.orders.get? id = some o) : ex.stopBook.containsPending id = false := by
  simp only [StopBook.containsPending]
  cases hs : ex.stopBook.orders.get? id with
  | none => rfl
  | some stop =>
      have := (hw.stops id stop hs).stored
      rw [ho] at this
      cases this

/-- Cancelling an active order of the book succeeds with its remaining quantity. -/
theorem WF.cancel_of_active {ex : Exchange} (hw : ex.WF) {id : OrderId} {o : Order}
    (ho : ex.book.orders.get? id = some o) (ha : o.isActive = true) :
    ex.cancel id = ({ ex.record (.cancel id) with book := (ex.book.cancelOrder id).1 },
      .succeeded o.remainingQuantity) := by
  have hp : (ex.record (.cancel id)).stopBook.containsPending id = false :=
    hw.containsPending_eq_false ho
  have ho' : (ex.record (.cancel id)).book.getOrder id = some o := ho
  simp only [cancel, cancelInternal, hp, ho', ha, if_true]
  rw [show (ex.record (.cancel id)).book = ex.book from rfl,
    OrderBook.cancelOrder_of_active ho ha]

/-- In every reachable exchange, cancelling a queued order is exact precisely when the slot recorded
in the order still holds it and the cached total of its level covers it, with nothing else queued
if the total is used up. -/
theorem cancel_exact_iff {ex : Exchange} (h : Reachable ex) {s : Side} {p : Price} {l : Level}
    {id : OrderId} {o : Order} (hl : ex.book.level s p = some l) (hid : id ∈ l.iter)
    (ho : ex.book.orders.get? id = some o) (hr : 0 < o.remainingQuantity) :
    ex.CancelsExactly id s p l o.remainingQuantity ↔
      l.orders[o.positionInLevel]? = some id ∧ o.remainingQuantity ≤ l.totalQuantity ∧
        (l.totalQuantity = o.remainingQuantity → l.iter = [id]) := by
  have hw := h.wf
  obtain ⟨-, hq⟩ := hw.book.queued s p l id hl hid
  obtain ⟨hside, hprice, hset⟩ := hq o ho
  have ha : o.isActive = true := hset.mpr hr
  have hc := hw.cancel_of_active ho ha
  have hlevel := OrderBook.level_cancelOrder ho ha
  rw [← markTombstone_exact_iff hid (hw.book.level s p l hl).2.2 o.positionInLevel hr]
  have hat : (ex.cancel id).1.book.level s p =
      (some (l.markTombstone o.positionInLevel o.remainingQuantity)).filter
        (fun l ↦ !l.isEmpty) := by
    rw [hc, hlevel, if_pos ⟨hside.symm, hprice.symm⟩, hl]
    rfl
  constructor
  · intro hx
    have := hx.level
    rwa [hat] at this
  · intro hx
    refine ⟨by rw [hc], by rw [hat]; exact hx, fun s' p' hne ↦ ?_, fun j hj ↦ ?_⟩
    · rw [hc, hlevel, if_neg (by rw [hside, hprice]; exact hne)]
    · rw [hc, OrderBook.orders_cancelOrder ho ha, OrdMap.get?_insert, if_neg hj]

/-- Three sells at one price, of which the middle one is cancelled right away. -/
theorem cancel_exact_iff_untouched :
    ∃ ex l, performAll 5 create [.submitLimit .sell 100 10 .gtc, .submitLimit .sell 100 20 .gtc,
        .submitLimit .sell 100 30 .gtc] = some ex ∧
      ex.book.level .sell 100 = some l ∧
      l.iter = [1, 2, 3] ∧ ex.CancelsExactly 2 .sell 100 l 20 := by
  obtain ⟨ex, hex⟩ : ∃ ex, performAll 5 create [.submitLimit .sell 100 10 .gtc,
      .submitLimit .sell 100 20 .gtc, .submitLimit .sell 100 30 .gtc] = some ex := ⟨_, rfl⟩
  have hl := observe hex (fun ex ↦ ex.book.level .sell 100) (a := some ⟨100, [1, 2, 3], 60, 0⟩) rfl
  have ho := observe hex (fun ex ↦ ex.book.orders.get? 2)
    (a := some ⟨2, .sell, 100, 20, 20, 0, 2, .gtc, .new, none, 1⟩) rfl
  refine ⟨ex, _, hex, hl, rfl, (cancel_exact_iff (reachable_of_performAll hex) hl ?_ ho ?_).mpr ?_⟩
  · decide
  · decide
  · decide

/-- After a fill of the first of three sells the second sits in slot `0`, but was recorded in slot
`1`: cancelling it overwrites the third. -/
theorem cancel_overwrites_neighbour :
    ∃ ex l, performAll 5 create [.submitLimit .sell 100 10 .gtc, .submitLimit .sell 100 20 .gtc,
        .submitLimit .sell 100 30 .gtc, .submitLimit .buy 100 10 .gtc] = some ex ∧
      ex.book.level .sell 100 = some l ∧ l.iter = [2, 3] ∧
      (ex.book.orders.get? 2).map Order.remainingQuantity = some 20 ∧
      ((ex.cancel 2).1.book.level .sell 100).map Level.iter = some [2] ∧
      ¬ ex.CancelsExactly 2 .sell 100 l 20 := by
  obtain ⟨ex, hex⟩ : ∃ ex, performAll 5 create [.submitLimit .sell 100 10 .gtc,
      .submitLimit .sell 100 20 .gtc, .submitLimit .sell 100 30 .gtc,
      .submitLimit .buy 100 10 .gtc] = some ex := ⟨_, rfl⟩
  have hl := observe hex (fun ex ↦ ex.book.level .sell 100) (a := some ⟨100, [2, 3], 50, 0⟩) rfl
  have ho := observe hex (fun ex ↦ (ex.book.orders.get? 2).map Order.remainingQuantity)
    (a := some 20) rfl
  have hat := observe hex (fun ex ↦ (ex.cancel 2).1.book.level .sell 100)
    (a := some ⟨100, [2, 0], 30, 1⟩) rfl
  refine ⟨ex, _, hex, hl, rfl, ho, by rw [hat]; rfl, fun h ↦ ?_⟩
  have hlevel := h.level
  rw [hat] at hlevel
  exact absurd hlevel.1 (by decide)

end Exchange

end Nanobook
