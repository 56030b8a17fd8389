import Nanobook.Alike.Book
import Nanobook.Invariant.Submission

/-!
# Submissions to books that are alike

On backed exchanges a submission does what the walk of the resting orders says, and a walk does not
look at slots.  So two exchanges with books that are alike answer a submission in the same way, and
their books stay alike, as long as the cancellations of self-trade prevention hit in both.
-/

namespace Nanobook

def Action.unplaced : Action → Action
  | .fill o q => .fill o.unplaced q
  | .cancel o => .cancel o.unplaced

def Walk.unplaced (w : Walk (List RestingLevel)) : Walk (List RestingLevel) :=
  { w with actions := w.actions.map Action.unplaced, rest := w.rest.map RestingLevel.unplaced }

/-! ## Walks do not look at slots -/

section

variable {policy : StpPolicy} {owner : Option OrderOwner} {side : Side} {price : Price}

theorem walk_of_stop {levels : List RestingLevel} {left : Quantity}
    (h : left = 0 ∨ ∀ level ∈ levels.head?,
      pricesCross side price level.price = false ∨ level.queue = []) :
    walk policy owner side price levels left = ⟨[], left, false, levels⟩ := by
  rcases h with rfl | h
  · exact walk_zero levels
  · cases levels with
    | nil => rfl
    | cons level levels =>
        rcases h level rfl with hx | hq
        · exact walk_of_not_cross levels left hx
        · exact walk_of_queue_nil levels left hq

theorem map_dropFirst (p : Price) (total : Quantity) (o : Order) (queue : List Order)
    (levels : List RestingLevel) :
    (dropFirst p total o queue levels).map RestingLevel.unplaced =
      dropFirst p total o.unplaced (queue.map Order.unplaced)
        (levels.map RestingLevel.unplaced) := by
  by_cases h : total - o.remainingQuantity = 0
  · rw [dropFirst, if_pos h, dropFirst, Order.unplaced_remainingQuantity, if_pos h]
  · rw [dropFirst, if_neg h, dropFirst, Order.unplaced_remainingQuantity, if_neg h]
    rfl

theorem walk_unplaced (levels : List RestingLevel) (left : Quantity) :
    walk policy owner side price (levels.map RestingLevel.unplaced) left =
      (walk policy owner side price levels left).unplaced := by
  refine walk_induct (motive := fun levels left w ↦
    walk policy owner side price (levels.map RestingLevel.unplaced) left = w.unplaced)
    ?_ ?_ ?_ ?_ ?_ levels left
  · intro levels left h
    refine walk_of_stop (h.imp_right fun h level hlevel ↦ ?_)
    rw [List.head?_map] at hlevel
    obtain ⟨level', hlevel', rfl⟩ := Option.map_eq_some_iff.mp hlevel
    exact (h level' hlevel').imp_right fun hq ↦ List.map_eq_nil_iff.mpr hq
  · intro p total o queue levels left hx hl hc hi
    exact walk_stp (o := o.unplaced) total _ _ hx hl hc hi
  · intro p total o queue levels left w hx hl hc hi ih
    rw [map_dropFirst] at ih
    exact (walk_cancel (o := o.unplaced) total _ _ hx hl hc hi).trans
      (congrArg (Walk.cons (.cancel o.unplaced)) ih)
  · intro p total o queue levels left w hx hl hc hr ih
    rw [map_dropFirst] at ih
    exact (walk_fill (o := o.unplaced) total _ _ hx hl hc hr).trans
      (congrArg (Walk.cons (.fill o.unplaced o.remainingQuantity)) ih)
  · intro p total o queue levels left hx hl hc hr
    exact walk_part (o := o.unplaced) total _ _ hx hl hc (not_le.mpr hr)

end

/-! ## The record of a match -/

namespace Ledger

/-- Two records agree on all but the stored orders. -/
structure Agrees (g g' : Ledger) : Prop where
  nextTradeId : g.nextTradeId = g'.nextTradeId
  nextTimestamp : g.nextTimestamp = g'.nextTimestamp
  incoming : g.incoming = g'.incoming
  trades : g.trades = g'.trades

variable {g g' : Ledger}

theorem Agrees.act (h : g.Agrees g') {a a' : Action} (ha : a.unplaced = a'.unplaced) :
    (g.act a).Agrees (g'.act a') := by
  cases a with
  | fill o q =>
      cases a' with
      | cancel o' => cases ha
      | fill o' q' =>
          obtain ⟨ho, rfl⟩ := Action.fill.inj ha
          obtain ⟨hid, -, hprice, -⟩ := Order.of_unplaced_eq ho
          refine ⟨congrArg (· + 1) h.nextTradeId, congrArg (· + 1) h.nextTimestamp,
            congrArg (Order.fill · q) h.incoming, ?_⟩
          simp only [Ledger.act, h.nextTradeId, h.nextTimestamp, h.incoming, h.trades, hid, hprice]
  | cancel o =>
      cases a' with
      | fill o' q' => cases ha
      | cancel o' => exact ⟨h.nextTradeId, h.nextTimestamp, h.incoming, h.trades⟩

theorem Agrees.acts (h : g.Agrees g') {actions actions' : List Action}
    (ha : actions.map Action.unplaced = actions'.map Action.unplaced) :
    (g.acts actions).Agrees (g'.acts actions') := by
  induction actions generalizing g g' actions' with
  | nil =>
      obtain rfl := List.map_eq_nil_iff.mp ha.symm
      exact h
  | cons a actions ih =>
      cases actions' with
      | nil => cases ha
      | cons a' actions' =>
          obtain ⟨hhead, htail⟩ := List.cons.inj ha
          exact ih (h.act hhead) htail

/-- The records differ in nothing but recorded slots and orders that are not active. -/
structure Alike (g g' : Ledger) : Prop where
  active : ∀ id, activeIn g.orders id = activeIn g'.orders id
  nextTradeId : g.nextTradeId = g'.nextTradeId
  nextTimestamp : g.nextTimestamp = g'.nextTimestamp
  incoming : g.incoming = g'.incoming
  trades : g.trades = g'.trades

theorem Alike.agrees (h : g.Alike g') : g.Agrees g' :=
  ⟨h.nextTradeId, h.nextTimestamp, h.incoming, h.trades⟩

/-- An order is written under its id in both. -/
theorem activeIn_insert_of_unplaced_eq {orders orders' : OrdMap OrderId Order} {o o' : Order}
    {id id' j : OrderId} (h : activeIn orders j = activeIn orders' j) (hid : id = id')
    (ho : o.unplaced = o'.unplaced) :
    activeIn (orders.insert id o) j = activeIn (orders'.insert id' o') j := by
  have ha : o.isActive = o'.isActive := by
    rw [← o.unplaced_isActive, ho, o'.unplaced_isActive]
  rw [activeIn_insert, activeIn_insert, h, hid, ha, ho]

theorem Alike.act (h : g.Alike g') {a a' : Action} (ha : a.unplaced = a'.unplaced) :
    (g.act a).Alike (g'.act a') := by
  have hagrees := h.agrees.act ha
  refine ⟨fun j ↦ ?_, hagrees.nextTradeId, hagrees.nextTimestamp, hagrees.incoming,
    hagrees.trades⟩
  cases a with
  | fill o q =>
      cases a' with
      | cancel o' => cases ha
      | fill o' q' =>
          obtain ⟨ho, rfl⟩ := Action.fill.inj ha
          refine activeIn_insert_of_unplaced_eq (h.active j) (Order.of_unplaced_eq ho).1 ?_
          rw [Order.unplaced_fill, Order.unplaced_fill, ho]
  | cancel o =>
      cases a' with
      | fill o' q' => cases ha
      | cancel o' =>
          have ho := Action.cancel.inj ha
          refine activeIn_insert_of_unplaced_eq (h.active j) (Order.of_unplaced_eq ho).1 ?_
          rw [Order.unplaced_cancel, Order.unplaced_cancel, ho]

theorem Alike.acts (h : g.Alike g') {actions actions' : List Action}
    (ha : actions.map Action.unplaced = actions'.map Action.unplaced) :
    (g.acts actions).Alike (g'.acts actions') := by
  induction actions generalizing g g' actions' with
  | nil =>
      obtain rfl := List.map_eq_nil_iff.mp ha.symm
      exact h
  | cons a actions ih =>
      cases actions' with
      | nil => cases ha
      | cons a' actions' =>
          obtain ⟨hhead, htail⟩ := List.cons.inj ha
          exact ih (h.act hhead) htail

theorem Alike.cancelIncoming (h : g.Alike g') : g.cancelIncoming.Alike g'.cancelIncoming where
  active := h.active
  nextTradeId := h.nextTradeId
  nextTimestamp := h.nextTimestamp
  incoming := by simp only [Ledger.cancelIncoming, h.incoming]
  trades := h.trades

end Ledger

/-! ## Submissions -/

namespace OrderBook

variable {b b' : OrderBook}

/-- The quantity on offer is read off what a side shows. -/
theorem quantityAtOrBetter_shown {s : Side} (hs : (b.side s).side = s) (price : Price) :
    (b.side s).quantityAtOrBetter price = sumU64 (((b.shown s).entries.filter fun e ↦
      pricesCross s.opposite price e.1).map fun e ↦ e.2.1) := by
  have hmap : ∀ (f : Price → Bool) (entries : List (Price × Level)),
      (entries.filter fun e ↦ f e.1).map (fun e ↦ e.2.totalQuantity) =
        ((entries.map fun e ↦ (e.1, shownLevel b.orders e.2)).filter fun e ↦ f e.1).map
          fun e ↦ e.2.1 := by
    intro f entries
    rw [List.filter_map, List.map_map]
    rfl
  simp only [PriceLevels.quantityAtOrBetter, hs]
  cases s with
  | buy => exact congrArg sumU64 (hmap (pricesCross .sell price) _)
  | sell => exact congrArg sumU64 (hmap (pricesCross .buy price) _)

theorem Alike.canFullyFill (h : b.Alike b') (hs : ∀ s, (b.side s).side = s)
    (hs' : ∀ s, (b'.side s).side = s) (side : Side) (price : Price) (q : Quantity) :
    b.canFullyFill side price q = b'.canFullyFill side price q := by
  rw [OrderBook.canFullyFill, OrderBook.canFullyFill, availableToFill, availableToFill,
    oppositeSide,
    oppositeSide, quantityAtOrBetter_shown (hs _), quantityAtOrBetter_shown (hs' _), h.shown]

end OrderBook

/-- Two matches whose books are alike and that are the same besides. -/
structure MatchState.Alike (s s' : MatchState) : Prop where
  book : s.book.Alike s'.book
  incoming : s.incoming = s'.incoming
  trades : s.result.trades = s'.result.trades
  stpCancelled : s.result.stpCancelled = s'.result.stpCancelled

namespace Exchange

variable {ex ex' ex₁ ex₁' : Exchange} {sub : Submission} {fuel fuel' : Nat} {r r' : SubmitResult}

theorem shown_incoming (ex : Exchange) (sub : Submission) (s : Side) :
    (ex.incoming sub).2.shown s = ex.book.shown s :=
  OrderBook.shown_eq_of_side (ex.side_incoming sub s) fun _ _ _ ↦ rfl

/-- Both books number the incoming order in the same way. -/
theorem alike_incoming (hb : ex.book.Alike ex'.book) (sub : Submission) :
    (ex.incoming sub).2.Alike (ex'.incoming sub).2 ∧
      (ex.incoming sub).1 = (ex'.incoming sub).1 := by
  refine ⟨⟨fun s ↦ ?_, hb.active, congrArg (· + 1) hb.nextOrderId, hb.nextTradeId,
    congrArg (· + 1) hb.nextTimestamp⟩, ?_⟩
  · rw [shown_incoming, shown_incoming, hb.shown]
  · simp only [Exchange.incoming, OrderBook.createOrder, hb.nextOrderId, hb.nextTimestamp]

section Match

variable (h : ex.Backed) (h' : ex'.Backed) (hb : ex.book.Alike ex'.book)
  (hp : ex.stpPolicy = ex'.stpPolicy)

include h h' hb

theorem Backed.rejectsFok_alike (sub : Submission) : ex.rejectsFok sub = ex'.rejectsFok sub := by
  simp only [rejectsFok, hb.canFullyFill h.wf.book.side h'.wf.book.side]

include hp

theorem Backed.walkOf_alike (sub : Submission) :
    (ex.walkOf sub).unplaced = (ex'.walkOf sub).unplaced := by
  rw [walkOf_eq, walkOf_eq, ← walk_unplaced, ← walk_unplaced, hp,
    hb.resting (h.stocked _) (h'.stocked _)]

/-- A match leaves the books alike and the incoming order, the trades and the verdict of self-trade
prevention the same. -/
theorem Backed.match_alike {s s' : MatchState} (hm : Matches ex.stpPolicy (ex.entry sub) s)
    (hm' : Matches ex'.stpPolicy (ex'.entry sub) s') : s.Alike s' := by
  have hwalk := h.walkOf_alike h' hb hp sub
  have hactions : (ex.walkOf sub).actions.map Action.unplaced =
      (ex'.walkOf sub).actions.map Action.unplaced := congrArg Walk.actions hwalk
  have hstp : (ex.walkOf sub).unplaced.stp = (ex'.walkOf sub).unplaced.stp :=
    congrArg Walk.stp hwalk
  obtain ⟨hbook, hincoming⟩ := alike_incoming hb sub
  have hentry : (ex.entry sub).ledger.Alike (ex'.entry sub).ledger :=
    ⟨hbook.active, hbook.nextTradeId, hbook.nextTimestamp, hincoming, rfl⟩
  have hledger : s.ledger.Alike s'.ledger := by
    have hacts := hentry.acts hactions
    rw [hm.ledger, hm'.ledger, show ((ex.entry sub).walkFrom ex.stpPolicy).stp =
      ((ex'.entry sub).walkFrom ex'.stpPolicy).stp from hstp]
    split_ifs
    · exact hacts.cancelIncoming
    · exact hacts
  refine ⟨⟨fun t ↦ ?_, hledger.active, ?_, hledger.nextTradeId, hledger.nextTimestamp⟩,
    hledger.incoming, hledger.trades, ?_⟩
  · rcases sub.side.eq_or_eq_opposite t with rfl | rfl
    · -- the own side is left alone
      have hown : s.book.shown sub.side = (ex.incoming sub).2.shown sub.side :=
        OrderBook.shown_eq_of_side hm.own fun p l hl ↦
          (h.stocked_incoming sub _).ordersOf_eq hm.untouched hl
      have hown' : s'.book.shown sub.side = (ex'.incoming sub).2.shown sub.side :=
        OrderBook.shown_eq_of_side hm'.own fun p l hl ↦
          (h'.stocked_incoming sub _).ordersOf_eq hm'.untouched hl
      rw [hown, hown', hbook.shown]
    · refine (OrderBook.shown_eq_iff hm.stocked.side hm'.stocked.side).mpr ?_
      have hrest : (ex.walkOf sub).unplaced.rest = (ex'.walkOf sub).unplaced.rest :=
        congrArg Walk.rest hwalk
      exact ((congrArg (List.map RestingLevel.unplaced) hm.resting).trans hrest).trans
        (congrArg (List.map RestingLevel.unplaced) hm'.resting).symm
  · rw [hm.nextOrderId, hm'.nextOrderId]
    exact hbook.nextOrderId
  · rw [hm.stp, hm'.stp]
    exact hstp

end Match

/-- Two matches that are alike are settled in the same way. -/
theorem settle_alike {s s' : MatchState} (hs : s.Alike s') (hf : s.book.Fresh s.incoming.id)
    (hf' : s'.book.Fresh s'.incoming.id) :
    (settledBook sub s).Alike (settledBook sub s') ∧
      (ex.settle sub s).2 = (ex'.settle sub s').2 := by
  have hleft : ∀ idle, leftStatus idle s = leftStatus idle s' := by
    intro idle
    rw [leftStatus, leftStatus, hs.incoming]
  rw [← hs.incoming] at hf'
  refine ⟨?_, ?_⟩
  · simp only [settledBook, ← hs.stpCancelled, ← hs.incoming, ← hleft]
    split_ifs
    · exact hs.book.store (o := { s.incoming with status := leftStatus .cancelled s }) hf hf'
    · exact hs.book.store (o := { s.incoming with status := .filled }) hf hf'
    · exact hs.book.addOrder (o := { s.incoming with status := leftStatus .new s }) hf hf'
    · exact hs.book.store (o := { s.incoming with status := leftStatus .cancelled s }) hf hf'
  · simp only [settle, ← hs.stpCancelled, ← hs.incoming, ← hs.trades]
    split_ifs <;> rfl

/-- What a submission returns, and the book it leaves, when it is not turned away. -/
theorem submit_settle (hrej : ex.rejectsFok sub = false)
    (hs : ex.submitLimitInternalWithOwner fuel sub = some (ex₁, r)) :
    ∃ s, (ex.incoming sub).2.matchOrderWithPolicy fuel (ex.incoming sub).1 ex.stpPolicy = some s ∧
      ex₁.book = settledBook sub s ∧ r = (ex.settle sub s).2 := by
  simp only [submitLimitInternalWithOwner, hrej] at hs
  obtain ⟨s, hm, heq⟩ := Option.bind_eq_some_iff.mp hs
  have hsettle := Option.some.inj heq
  refine ⟨s, hm, ?_, by rw [hsettle]⟩
  have hfst := settle_fst ex sub s
  rw [hsettle] at hfst
  exact congrArg Exchange.book hfst

/-- Backed exchanges with books that are alike answer a submission in the same way, and their books
stay alike. -/
theorem Backed.submit_alike (h : ex.Backed) (h' : ex'.Backed) (hb : ex.book.Alike ex'.book)
    (hp : ex.stpPolicy = ex'.stpPolicy) (ht : ex.Sure sub) (ht' : ex'.Sure sub)
    (hs : ex.submitLimitInternalWithOwner fuel sub = some (ex₁, r))
    (hs' : ex'.submitLimitInternalWithOwner fuel' sub = some (ex₁', r')) :
    ex₁.book.Alike ex₁'.book ∧ r = r' := by
  have hrej := h.rejectsFok_alike h' hb sub
  cases hfok : ex.rejectsFok sub with
  | true =>
      rw [hfok] at hrej
      simp only [submitLimitInternalWithOwner, hfok, ← hrej, if_true] at hs hs'
      cases hs
      cases hs'
      refine ⟨(alike_incoming hb sub).1, ?_⟩
      simp only [OrderBook.createOrder, Order.create, hb.nextOrderId]
  | false =>
      rw [hfok] at hrej
      obtain ⟨s, hm, hbook, rfl⟩ := submit_settle hfok hs
      obtain ⟨s', hm', hbook', rfl⟩ := submit_settle hrej.symm hs'
      have hmatch := h.match_alike h' hb hp (h.isWalk (ht hfok) hm) (h'.isWalk (ht' hrej.symm) hm')
      rw [hbook, hbook']
      exact settle_alike hmatch (h.wf.matched hm).fresh (h'.wf.matched hm').fresh

end Exchange

end Nanobook
