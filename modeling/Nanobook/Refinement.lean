import Nanobook.Invariant.Stocked

/-!
# Matching refines price-time priority

On a stocked side, with every order that self-trade prevention cancels sitting where its index says,
the two nested loops of the matching engine do what `walk` says: they return, with the trades, the
orders, the counters and the other side that the actions of the walk lead to.

One pass of the inner loop is one action (`matchAtPriceBody_acts`); the rest is the invariant and
the variant rule for loops.
-/

namespace Nanobook

/-! ## Actions on the record of a match -/

/-- What a match keeps besides the levels. -/
structure Ledger where
  orders : OrdMap OrderId Order
  nextTradeId : TradeId
  nextTimestamp : Timestamp
  incoming : Order
  trades : List Trade
deriving DecidableEq

namespace Ledger

def act (g : Ledger) : Action → Ledger
  | .fill o q =>
      { orders := g.orders.insert o.id (o.fill q)
        nextTradeId := g.nextTradeId + 1
        nextTimestamp := g.nextTimestamp + 1
        incoming := g.incoming.fill q
        trades := g.trades ++
          [⟨g.nextTradeId, o.price, q, g.incoming.id, o.id, g.incoming.side, g.nextTimestamp⟩] }
  | .cancel o => { g with orders := g.orders.insert o.id o.cancel }

/-- The actions of a walk, in order. -/
def acts (g : Ledger) (actions : List Action) : Ledger := actions.foldl act g

/-- Self-trade prevention cancels what is left of the incoming order. -/
def cancelIncoming (g : Ledger) : Ledger :=
  { g with incoming := g.incoming.stpDecrement g.incoming.remainingQuantity }

end Ledger

namespace MatchState

def ledger (s : MatchState) : Ledger :=
  ⟨s.book.orders, s.book.nextTradeId, s.book.nextTimestamp, s.incoming, s.result.trades⟩

/-- The side the incoming order trades against. -/
def otherSide (s : MatchState) : Side := s.incoming.side.opposite

/-- The walk from the current state of the match. -/
def walkFrom (policy : StpPolicy) (s : MatchState) : Walk (List RestingLevel) :=
  walk policy s.incoming.owner s.incoming.side s.incoming.price (s.book.resting s.otherSide)
    s.incoming.remainingQuantity

/-- `s'` is `s` after the action `a`, which leaves `levels` on the other side. -/
structure Acts (s s' : MatchState) (a : Action) (levels : List RestingLevel) : Prop where
  ledger : s'.ledger = s.ledger.act a
  stocked : s'.book.Stocked s.otherSide
  resting : s'.book.resting s.otherSide = levels
  own : s'.book.side s.incoming.side = s.book.side s.incoming.side
  /-- The orders of the incoming order's own side are left alone. -/
  untouched : ∀ id o, s.book.orders.get? id = some o → o.side = s.incoming.side →
    s'.book.orders.get? id = some o
  nextOrderId : s'.book.nextOrderId = s.book.nextOrderId
  stp : s'.result.stpCancelled = s.result.stpCancelled

theorem Acts.incoming {s s' : MatchState} {a : Action} {levels : List RestingLevel}
    (h : Acts s s' a levels) : s'.incoming = (s.ledger.act a).incoming :=
  congrArg Ledger.incoming h.ledger

section Pass

variable {s : MatchState} {p : Price} {l : Level} {rest : List (Price × Level)} {o : Order}
  {ids : List OrderId}

theorem side_ne_otherSide (s : MatchState) : s.incoming.side ≠ s.otherSide := by
  rw [otherSide]
  cases s.incoming.side <;> decide

/-- Dropping tombstones changes neither the live ids nor the total of the level. -/
theorem skipTombstones_side (s : MatchState) (p : Price) :
    ∃ f : Price → Level → Level,
      (∀ q l, (f q l).iter = l.iter ∧ (f q l).totalQuantity = l.totalQuantity) ∧
      (s.skipTombstones p).book.side s.otherSide =
        { s.book.side s.otherSide with
          levels := (s.book.side s.otherSide).levels.mapVals f } := by
  refine ⟨fun q l ↦ if q = p then l.skipTombstones else l, fun q l ↦ ?_, ?_⟩
  · dsimp only
    split_ifs
    · exact ⟨l.iter_skipTombstones, rfl⟩
    · exact ⟨rfl, rfl⟩
  · rw [skipTombstones, OrderBook.side_updateSide, otherSide, if_pos rfl]
    rfl

theorem skipTombstones_resting (s : MatchState) (p : Price) :
    (s.skipTombstones p).book.resting s.otherSide = s.book.resting s.otherSide := by
  obtain ⟨f, hf, hside⟩ := s.skipTombstones_side p
  exact OrderBook.resting_of_mapVals hf hside (OrderBook.orders_updateSide _ _ _)

theorem skipTombstones_stocked (h : s.book.Stocked s.otherSide) (p : Price) :
    (s.skipTombstones p).book.Stocked s.otherSide := by
  obtain ⟨f, hf, hside⟩ := s.skipTombstones_side p
  exact OrderBook.stocked_of_mapVals hf hside (OrderBook.orders_updateSide _ _ _) h

/-- The first order after `front` dropped the tombstones before it. -/
theorem front_skipTombstones (h : s.book.Front s.otherSide p l rest o ids) :
    (s.skipTombstones p).book.Front s.otherSide p l.skipTombstones rest o ids where
  stocked := skipTombstones_stocked h.stocked p
  best := by
    rw [skipTombstones, OrderBook.side_updateSide, otherSide, if_pos rfl]
    exact PriceLevels.bestToWorst_updateLevel_head h.best _
  iter := by rw [Level.iter_skipTombstones, h.iter]
  stored := by rw [skipTombstones, OrderBook.orders_updateSide]; exact h.stored
  orderSide := h.orderSide
  price := h.price
  remaining := h.remaining

theorem skipTombstones_ledger (s : MatchState) (p : Price) :
    (s.skipTombstones p).ledger = s.ledger := by
  simp only [ledger, skipTombstones, OrderBook.orders_updateSide, OrderBook.nextTradeId_updateSide,
    OrderBook.nextTimestamp_updateSide]

theorem skipTombstones_own (s : MatchState) (p : Price) :
    (s.skipTombstones p).book.side s.incoming.side = s.book.side s.incoming.side := by
  rw [skipTombstones, OrderBook.side_updateSide]
  exact if_neg s.side_ne_otherSide

/-- The transitions below start where `front` left the level, and lead on from there. -/
theorem Acts.of_skipTombstones {s' : MatchState} {a : Action} {levels : List RestingLevel}
    (h : Acts (s.skipTombstones p) s' a levels) : Acts s s' a levels where
  ledger := by rw [h.ledger, skipTombstones_ledger]
  stocked := h.stocked
  resting := h.resting
  own := h.own.trans (s.skipTombstones_own p)
  untouched id o ho hs := by
    refine h.untouched id o ?_ hs
    rw [skipTombstones, OrderBook.orders_updateSide]
    exact ho
  nextOrderId := h.nextOrderId.trans (follows_skipTombstones .off s p).book.nextOrderId
  stp := h.stp

/-- Rewriting an order of the other side leaves those of the own side alone. -/
theorem untouched_of_insert (h : s.book.Front s.otherSide p l rest o ids) {b : OrderBook}
    {o' : Order} (horders : b.orders = s.book.orders.insert o.id o') (id : OrderId) (o₁ : Order)
    (ho₁ : s.book.orders.get? id = some o₁) (hs : o₁.side = s.incoming.side) :
    b.orders.get? id = some o₁ := by
  rw [horders, OrdMap.get?_insert, if_neg]
  · exact ho₁
  · rintro rfl
    rw [h.stored] at ho₁
    cases ho₁
    exact s.side_ne_otherSide (hs.symm.trans h.orderSide)

/-- A resting order at the head of its queue that is cancelled where its index says. -/
theorem acts_cancelResting (h : s.book.Front s.otherSide p l rest o ids)
    {slots : List OrderId} (hslots : l.orders = o.id :: slots) (hpos : o.positionInLevel = 0)
    (ha : o.isActive = true) :
    Acts s (s.cancelResting o.id) (.cancel o)
      (dropFirst p l.totalQuantity o (ordersOf s.book.orders ids)
        (rest.map fun e ↦ ⟨e.1, e.2.totalQuantity, ordersOf s.book.orders e.2.iter⟩)) := by
  have hne : o.id ≠ 0 := (Level.mem_iter.mp (h.iter ▸ List.mem_cons_self : o.id ∈ l.iter)).2
  have hslot : l.orders[0]? = some o.id := by rw [hslots]; rfl
  have hshr := (s.book.shrinks_cancelOrder o.id).side s.otherSide
  have hiter : (l.markTombstone 0 o.remainingQuantity).iter = ids := by
    have hiter := h.iter
    rw [Level.iter, hslots, List.filter_cons_of_pos (by simpa using hne)] at hiter
    rw [Level.markTombstone_of_slot hslot hne, hslots]
    simpa [Level.iter] using (List.cons.inj hiter).2
  have htotal : (l.markTombstone 0 o.remainingQuantity).totalQuantity =
      l.totalQuantity - o.remainingQuantity := by
    rw [Level.markTombstone_of_slot hslot hne]
  have hbest : ((s.book.cancelOrder o.id).1.side s.otherSide).bestToWorst =
      if (l.markTombstone 0 o.remainingQuantity).totalQuantity = 0 then rest
      else (p, l.markTombstone 0 o.remainingQuantity) :: rest := by
    rw [OrderBook.cancelOrder_of_active h.stored ha,
      OrderBook.side_updateSide, if_pos h.orderSide.symm, OrderBook.side_mk, h.price, hpos]
    exact PriceLevels.bestToWorst_removeIfEmpty_head
      (PriceLevels.bestToWorst_updateLevel_head h.best _)
  obtain ⟨hst, hres⟩ :=
    h.drop (l.markTombstone 0 o.remainingQuantity) (hshr.side.trans h.stocked.side)
    (hshr.cached h.stocked.cached) (OrderBook.orders_cancelOrder h.stored ha) hiter htotal hbest
  obtain ⟨htid, hts⟩ := OrderBook.counters_cancelOrder h.stored ha
  refine ⟨?_, hst, hres, ?_, untouched_of_insert h (OrderBook.orders_cancelOrder h.stored ha),
    (s.book.shrinks_cancelOrder o.id).nextOrderId, rfl⟩
  · simp only [ledger, Ledger.act, cancelResting, OrderBook.orders_cancelOrder h.stored ha, htid,
      hts]
  · exact OrderBook.side_cancelOrder_of_ne h.stored ha (h.orderSide ▸ s.side_ne_otherSide)

section Fill

/-- The quantity a resting order is filled by. -/
def fillQuantity (s : MatchState) (o : Order) : Quantity :=
  Nat.min s.incoming.remainingQuantity o.remainingQuantity

/-- `fillResting` in the words of the actions, with what it does to the other side. -/
theorem fillResting_spec (h : s.book.Front s.otherSide p l rest o ids) :
    let s' := s.fillResting p o.id o.remainingQuantity
    s'.ledger = s.ledger.act (.fill o (s.fillQuantity o)) ∧
      s'.book.side s.incoming.side = s.book.side s.incoming.side ∧
      s'.book.nextOrderId = s.book.nextOrderId ∧
      s'.result.stpCancelled = s.result.stpCancelled ∧
      s'.book.side s.otherSide =
        if o.remainingQuantity - s.fillQuantity o = 0 then
          ((s.book.side s.otherSide).updateLevel p fun level ↦
            level.popFront (s.fillQuantity o)).removeIfEmpty p
        else (s.book.side s.otherSide).updateLevel p fun level ↦
          level.decreaseQuantity (s.fillQuantity o) := by
  refine ⟨?_, ?_, ?_, rfl, ?_⟩
  · simp only [ledger, fillResting, Ledger.act, OrderBook.orders_updateSide,
      OrderBook.nextTradeId_updateSide, OrderBook.nextTimestamp_updateSide,
      OrdMap.modify_eq_insert h.stored, h.price]
    rfl
  · simp only [fillResting, OrderBook.side_updateSide, OrderBook.side_mk]
    exact if_neg s.side_ne_otherSide
  · simp only [fillResting, OrderBook.nextOrderId_updateSide]
  · simp only [fillResting, OrderBook.side_updateSide, OrderBook.side_mk, otherSide, if_true]
    rfl

theorem acts_fillResting (h : s.book.Front s.otherSide p l rest o ids)
    (hle : o.remainingQuantity ≤ s.incoming.remainingQuantity) :
    Acts s (s.fillResting p o.id o.remainingQuantity) (.fill o o.remainingQuantity)
      (dropFirst p l.totalQuantity o (ordersOf s.book.orders ids)
        (rest.map fun e ↦ ⟨e.1, e.2.totalQuantity, ordersOf s.book.orders e.2.iter⟩)) := by
  have hq : s.fillQuantity o = o.remainingQuantity := Nat.min_eq_right hle
  obtain ⟨hledger, hown, hid, hstp, hside⟩ := fillResting_spec h
  rw [hq] at hledger
  rw [hq, Nat.sub_self, if_pos rfl] at hside
  have hshr := (PriceLevels.shrinks_updateLevel (s.book.side s.otherSide) p
    fun l ↦ l.shrinks_popFront o.remainingQuantity).trans (PriceLevels.shrinks_removeIfEmpty _ p)
  rw [← hside] at hshr
  obtain ⟨hst, hres⟩ := h.drop (l.popFront o.remainingQuantity)
    (hshr.side.trans h.stocked.side) (hshr.cached h.stocked.cached)
    (congrArg Ledger.orders hledger) (by rw [Level.iter_popFront, h.iter]; rfl)
    (Level.popFront_totalQuantity h.level.nonempty _)
    (by
      rw [hside]
      exact PriceLevels.bestToWorst_removeIfEmpty_head
        (PriceLevels.bestToWorst_updateLevel_head h.best _))
  exact ⟨hledger, hst, hres, hown, untouched_of_insert h (congrArg Ledger.orders hledger), hid,
    hstp⟩

/-- A resting order that has more than the incoming one needs. -/
theorem acts_fillResting_part (h : s.book.Front s.otherSide p l rest o ids)
    (hlt : s.incoming.remainingQuantity < o.remainingQuantity) :
    Acts s (s.fillResting p o.id o.remainingQuantity) (.fill o s.incoming.remainingQuantity)
      (⟨p, l.totalQuantity - s.incoming.remainingQuantity,
          o.fill s.incoming.remainingQuantity :: ordersOf s.book.orders ids⟩ ::
        rest.map fun e ↦ ⟨e.1, e.2.totalQuantity, ordersOf s.book.orders e.2.iter⟩) := by
  have hq : s.fillQuantity o = s.incoming.remainingQuantity := Nat.min_eq_left hlt.le
  obtain ⟨hledger, hown, hid, hstp, hside⟩ := fillResting_spec h
  rw [hq] at hledger
  rw [hq, if_neg (Nat.sub_ne_zero_of_lt hlt)] at hside
  have hshr := PriceLevels.shrinks_updateLevel (s.book.side s.otherSide) p
    fun l ↦ l.shrinks_decreaseQuantity s.incoming.remainingQuantity
  rw [← hside] at hshr
  obtain ⟨hst, hres⟩ := h.shrink hlt (l.decreaseQuantity s.incoming.remainingQuantity)
    (hshr.side.trans h.stocked.side) (hshr.cached h.stocked.cached)
    (congrArg Ledger.orders hledger) rfl rfl
    (by rw [hside]; exact PriceLevels.bestToWorst_updateLevel_head h.best _)
  exact ⟨hledger, hst, hres, hown, untouched_of_insert h (congrArg Ledger.orders hledger), hid,
    hstp⟩

end Fill

end Pass

end MatchState

open MatchState

/-! ## One pass of the inner loop -/

/-- Every resting order that self-trade prevention is going to cancel is active and sits in slot
`0` of its queue by its own record, which is where it is when its turn comes. -/
def Hits (w : Walk (List RestingLevel)) : Prop :=
  ∀ o, .cancel o ∈ w.actions → o.positionInLevel = 0 ∧ o.isActive = true

section InnerPass

variable {policy : StpPolicy} {s : MatchState} {p : Price} {l : Level}
  {rest : List (Price × Level)} {o : Order} {ids : List OrderId}

/-- The other side as the walk sees it from the first order on. -/
theorem walkFrom_eq (h : s.book.Front s.otherSide p l rest o ids) :
    s.walkFrom policy = walk policy s.incoming.owner s.incoming.side s.incoming.price
      (⟨p, l.totalQuantity, o :: ordersOf s.book.orders ids⟩ ::
        rest.map fun e ↦ ⟨e.1, e.2.totalQuantity, ordersOf s.book.orders e.2.iter⟩)
      s.incoming.remainingQuantity := by
  rw [walkFrom, h.resting_eq]

/-- After an action the walk goes on from the levels it leaves. -/
theorem MatchState.Acts.walkFrom_eq {s' : MatchState} {a : Action} {levels : List RestingLevel}
    (h : Acts s s' a levels) :
    s'.walkFrom policy = walk policy s.incoming.owner s.incoming.side s.incoming.price levels
      (s.ledger.act a).incoming.remainingQuantity := by
  have hinc := h.incoming
  have hsame : s'.incoming.owner = s.incoming.owner ∧ s'.incoming.side = s.incoming.side ∧
      s'.incoming.price = s.incoming.price := by
    rw [hinc]
    cases a <;> exact ⟨rfl, rfl, rfl⟩
  rw [walkFrom, otherSide, hsame.1, hsame.2.1, hsame.2.2]
  rw [show s'.book.resting s.incoming.side.opposite = levels from h.resting, hinc]

/-- One pass of the inner loop at the first order of the best level. -/
theorem matchAtPriceBody_front (h : s.book.Front s.otherSide p l rest o ids)
    (hr : s.incoming.remainingQuantity ≠ 0) :
    matchAtPriceBody policy p s =
      if stpConflict policy s.incoming.owner o.owner then
        if cancelsIncoming policy s.incoming.remainingQuantity o.remainingQuantity then
          some (.inl (s.skipTombstones p).cancelIncoming)
        else some (.inr ((s.skipTombstones p).cancelResting o.id))
      else some (.inr ((s.skipTombstones p).fillResting p o.id o.remainingQuantity)) := by
  have hfront :
    ((s.book.oppositeSide s.incoming.side).getLevel p).bind Level.front = some o.id := by
    have hl : (s.book.oppositeSide s.incoming.side).getLevel p = some l :=
      PriceLevels.getLevel_of_bestToWorst h.best
    rw [hl, Option.bind_some, Level.front_eq, h.iter, List.head?_cons]
  have hget : (s.skipTombstones p).book.getOrder o.id = some o := (front_skipTombstones h).stored
  have hinc : (s.skipTombstones p).incoming = s.incoming := rfl
  simp only [matchAtPriceBody, hr, if_false, hfront, hget, hinc]
  cases policy with
  | off => simp [stpConflict]; split <;> simp
  | cancelNewest => rfl
  | cancelOldest => rfl
  | decrementAndCancel => simp [cancelsIncoming]

/-- What one pass of the inner loop does at the best level: it is one action, or self-trade
prevention ends the match. -/
theorem matchAtPriceBody_acts (h : s.book.Front s.otherSide p l rest o ids)
    (hx : pricesCross s.incoming.side s.incoming.price p = true)
    (hr : s.incoming.remainingQuantity ≠ 0) (hits : Hits (s.walkFrom policy)) :
    (matchAtPriceBody policy p s = some (.inl (s.skipTombstones p).cancelIncoming) ∧
        s.walkFrom policy = ⟨[], s.incoming.remainingQuantity, true, s.book.resting s.otherSide⟩) ∨
      ∃ s' a levels, matchAtPriceBody policy p s = some (.inr s') ∧ Acts s s' a levels ∧
        s.walkFrom policy = (s'.walkFrom policy).cons a ∧ AtOrPast p levels ∧
        (s'.incoming.remainingQuantity < s.incoming.remainingQuantity ∧
            queued levels ≤ queued (s.book.resting s.otherSide) ∨
          s'.incoming.remainingQuantity = s.incoming.remainingQuantity ∧
            queued levels < queued (s.book.resting s.otherSide)) := by
  have ht := front_skipTombstones h
  have horders : (s.skipTombstones p).book.orders = s.book.orders :=
    OrderBook.orders_updateSide _ _ _
  have hrest : ∀ level ∈ rest.map fun e ↦ (⟨e.1, e.2.totalQuantity,
      ordersOf (s.skipTombstones p).book.orders e.2.iter⟩ : RestingLevel), level.price ≠ p := by
    intro level hlevel
    obtain ⟨e, he, rfl⟩ := List.mem_map.mp hlevel
    exact PriceLevels.ne_of_mem_rest h.best he
  have hqueued := queued_dropFirst p l.totalQuantity o (ordersOf s.book.orders ids)
    (rest.map fun e ↦ ⟨e.1, e.2.totalQuantity, ordersOf s.book.orders e.2.iter⟩)
  obtain ⟨slots, hslots, -⟩ := Level.skipTombstones_orders h.iter
  have hpos := h.remaining
  rw [matchAtPriceBody_front h hr]
  cases hc : stpConflict policy s.incoming.owner o.owner with
  | true =>
      cases hi : cancelsIncoming policy s.incoming.remainingQuantity o.remainingQuantity with
      | true =>
          refine .inl ⟨rfl, ?_⟩
          rw [walkFrom_eq h, walk_stp _ _ _ hx hr hc hi, h.resting_eq]
      | false =>
          have hw := (walkFrom_eq h).trans (walk_cancel _ _ _ hx hr hc hi)
          obtain ⟨hpos, ha⟩ := hits o (by rw [hw]; exact List.mem_cons_self)
          have hacts := (acts_cancelResting ht hslots hpos ha).of_skipTombstones
          refine .inr ⟨_, _, _, rfl, hacts, ?_, atOrPast_dropFirst hrest _ _ _, .inr ⟨rfl, ?_⟩⟩
          · rw [hw, hacts.walkFrom_eq, horders]
            rfl
          · rw [h.resting_eq, horders]
            exact hqueued
  | false =>
      by_cases hle : o.remainingQuantity ≤ s.incoming.remainingQuantity
      · have hw := (walkFrom_eq h).trans (walk_fill _ _ _ hx hr hc hle)
        have hacts := (acts_fillResting ht hle).of_skipTombstones
        refine .inr ⟨_, _, _, rfl, hacts, ?_, atOrPast_dropFirst hrest _ _ _, .inl ⟨?_, ?_⟩⟩
        · rw [hw, hacts.walkFrom_eq, horders]
          rfl
        · rw [hacts.incoming]
          exact Nat.sub_lt (Nat.pos_of_ne_zero hr) hpos
        · rw [h.resting_eq, horders]
          exact hqueued.le
      · have hw := (walkFrom_eq h).trans (walk_part _ _ _ hx hr hc hle)
        have hacts := (acts_fillResting_part ht (not_le.mp hle)).of_skipTombstones
        refine .inr ⟨_, _, _, rfl, hacts, ?_, .inl ⟨_, rfl, rfl⟩, .inl ⟨?_, ?_⟩⟩
        · rw [hw, hacts.walkFrom_eq, horders]
          simp only [skipTombstones, ledger, Ledger.act, Order.fill_remainingQuantity, Nat.sub_self]
          rw [walk_zero]
          rfl
        · rw [hacts.incoming]
          exact Nat.sub_lt (Nat.pos_of_ne_zero hr) (Nat.pos_of_ne_zero hr)
        · rw [h.resting_eq, horders]
          exact le_rfl

end InnerPass

/-! ## The inner loop -/

/-- `s` is `s₀` after the actions `done`, with the rest of the walk from `s₀` still to come. -/
structure Sim (policy : StpPolicy) (s₀ s : MatchState) (done : List Action) : Prop where
  ledger : s.ledger = s₀.ledger.acts done
  walk : s₀.walkFrom policy = (s.walkFrom policy).append done
  stocked : s.book.Stocked s₀.otherSide
  own : s.book.side s₀.incoming.side = s₀.book.side s₀.incoming.side
  untouched : ∀ id o, s₀.book.orders.get? id = some o → o.side = s₀.incoming.side →
    s.book.orders.get? id = some o
  nextOrderId : s.book.nextOrderId = s₀.book.nextOrderId
  stp : s.result.stpCancelled = false
  incoming : s₀.incoming.SameOrder s.incoming

section Inner

variable {policy : StpPolicy} {s₀ s s' : MatchState} {done : List Action} {p : Price}

theorem Sim.refl (h : s₀.book.Stocked s₀.otherSide) (hstp : s₀.result.stpCancelled = false) :
    Sim policy s₀ s₀ [] :=
  ⟨rfl, rfl, h, rfl, fun _ _ ho _ ↦ ho, rfl, hstp, .refl _⟩

theorem Sim.hits (h : Sim policy s₀ s done) (hits : Hits (s₀.walkFrom policy)) :
    Hits (s.walkFrom policy) := fun o ho ↦ hits o (by
  rw [h.walk]
  exact List.mem_append_right _ ho)

theorem Sim.otherSide (h : Sim policy s₀ s done) : s.otherSide = s₀.otherSide := by
  rw [MatchState.otherSide, MatchState.otherSide, h.incoming.side]

theorem Sim.acts (h : Sim policy s₀ s done) {a : Action} {levels : List RestingLevel}
    (ha : Acts s s' a levels) (hw : s.walkFrom policy = (s'.walkFrom policy).cons a) :
    Sim policy s₀ s' (done ++ [a]) where
  ledger := by rw [ha.ledger, h.ledger, Ledger.acts, Ledger.acts, List.foldl_append]; rfl
  walk := by rw [h.walk, hw, Walk.append_cons]
  stocked := h.otherSide ▸ ha.stocked
  own := by rw [← h.own, ← h.incoming.side]; exact ha.own
  untouched id o ho hs :=
  ha.untouched id o (h.untouched id o ho hs) (by rw [h.incoming.side]; exact hs)
  nextOrderId := ha.nextOrderId.trans h.nextOrderId
  stp := ha.stp.trans h.stp
  incoming := by
    rw [ha.incoming]
    refine h.incoming.trans ?_
    cases a with
    | fill o q => exact Order.sameOrder_fill _ q
    | cancel o => exact .refl _

/-- A level that is gone ends the inner loop without a change. -/
theorem matchAtPriceBody_of_getLevel_none
    (h : (s.book.side s.otherSide).getLevel p = none) :
    matchAtPriceBody policy p s = some (.inl s) := by
  have hskip : s.skipTombstones p = s := by
    have hside : (s.book.side s.otherSide).updateLevel p Level.skipTombstones =
        s.book.side s.otherSide := by
      rw [PriceLevels.updateLevel, OrdMap.modify_of_get?_none h]
    rw [skipTombstones, OrderBook.updateSide_eq_self hside]
  have hfront : ((s.book.oppositeSide s.incoming.side).getLevel p).bind Level.front = none := by
    rw [show (s.book.oppositeSide s.incoming.side).getLevel p = none from h, Option.bind_none]
  simp only [matchAtPriceBody, hfront, hskip]
  split_ifs <;> rfl

/-- One pass of the inner loop while it is at its level or past it. -/
theorem Sim.innerPass (h : Sim policy s₀ s done) (hits : Hits (s₀.walkFrom policy))
    (hx : pricesCross s₀.incoming.side s₀.incoming.price p = true)
    (hp : AtOrPast p (s.book.resting s₀.otherSide)) :
    (matchAtPriceBody policy p s = some (.inl s) ∧ (s.incoming.remainingQuantity = 0 ∨
        ∀ level ∈ s.book.resting s₀.otherSide, level.price ≠ p)) ∨
      (matchAtPriceBody policy p s = some (.inl (s.skipTombstones p).cancelIncoming) ∧
        s.walkFrom policy = ⟨[], s.incoming.remainingQuantity, true, s.book.resting s.otherSide⟩) ∨
      ∃ s' a, matchAtPriceBody policy p s = some (.inr s') ∧ Sim policy s₀ s' (done ++ [a]) ∧
        AtOrPast p (s'.book.resting s₀.otherSide) ∧
        (s'.incoming.remainingQuantity < s.incoming.remainingQuantity ∧
            queued (s'.book.resting s₀.otherSide) ≤ queued (s.book.resting s₀.otherSide) ∨
          s'.incoming.remainingQuantity = s.incoming.remainingQuantity ∧
            queued (s'.book.resting s₀.otherSide) < queued (s.book.resting s₀.otherSide)) := by
  by_cases hr : s.incoming.remainingQuantity = 0
  · exact .inl ⟨by simp only [matchAtPriceBody, hr, if_true], .inl hr⟩
  · have hst := h.stocked
    rw [← h.otherSide] at hst hp ⊢
    rcases hp with ⟨level, hlevel, rfl⟩ | hpast
    · obtain ⟨l, rest, o, ids, hfront⟩ := hst.front_of_head hlevel
      have hx' : pricesCross s.incoming.side s.incoming.price level.price = true := by
        rw [h.incoming.side, h.incoming.price]
        exact hx
      rcases matchAtPriceBody_acts hfront hx' hr (h.hits hits) with
        ⟨hb, hw⟩ | ⟨s', a, levels, hb, ha, hw, hat, hprog⟩
      · exact .inr (.inl ⟨hb, hw⟩)
      · rw [← ha.resting] at hat hprog
        exact .inr (.inr ⟨s', a, hb, h.acts ha hw, hat, hprog⟩)
    · exact .inl
        ⟨matchAtPriceBody_of_getLevel_none (OrderBook.getLevel_eq_none_of_resting hpast),
          .inr hpast⟩

/-- What a match has still to do at most. -/
def MatchState.size (s : MatchState) : Nat :=
  s.incoming.remainingQuantity + queued (s.book.resting s.otherSide)

/-- `r` is the outcome of the walk from `s₀`. -/
structure Matches (policy : StpPolicy) (s₀ r : MatchState) : Prop where
  ledger : r.ledger = if (s₀.walkFrom policy).stp
    then (s₀.ledger.acts (s₀.walkFrom policy).actions).cancelIncoming
    else s₀.ledger.acts (s₀.walkFrom policy).actions
  left : (s₀.ledger.acts (s₀.walkFrom policy).actions).incoming.remainingQuantity =
    (s₀.walkFrom policy).left
  stp : r.result.stpCancelled = (s₀.walkFrom policy).stp
  resting : r.book.resting s₀.otherSide = (s₀.walkFrom policy).rest
  stocked : r.book.Stocked s₀.otherSide
  own : r.book.side s₀.incoming.side = s₀.book.side s₀.incoming.side
  untouched : ∀ id o, s₀.book.orders.get? id = some o → o.side = s₀.incoming.side →
    r.book.orders.get? id = some o
  nextOrderId : r.book.nextOrderId = s₀.book.nextOrderId

/-- Where the walk has nothing more to do, the match is over. -/
theorem Sim.matches (h : Sim policy s₀ s done) (hw : s.walkFrom policy =
    ⟨[], s.incoming.remainingQuantity, false, s.book.resting s.otherSide⟩) : Matches policy s₀
      s := by
  have hw₀ := h.walk
  rw [hw, Walk.append, List.append_nil] at hw₀
  refine ⟨?_, ?_, ?_, ?_, h.stocked, h.own, h.untouched, h.nextOrderId⟩
  · rw [hw₀]; exact h.ledger
  · rw [hw₀]; exact congrArg (fun g ↦ g.incoming.remainingQuantity) h.ledger.symm
  · rw [hw₀]; exact h.stp
  · rw [hw₀, h.otherSide]

/-- Where self-trade prevention cancels the incoming order, the match is over. -/
theorem Sim.matches_stp (h : Sim policy s₀ s done) (hw : s.walkFrom policy =
      ⟨[], s.incoming.remainingQuantity, true, s.book.resting s.otherSide⟩) :
    Matches policy s₀ (s.skipTombstones p).cancelIncoming := by
  have hw₀ := h.walk
  rw [hw, Walk.append, List.append_nil] at hw₀
  have hledger : (s.skipTombstones p).cancelIncoming.ledger = s.ledger.cancelIncoming := by
    rw [← skipTombstones_ledger s p]
    rfl
  refine ⟨?_, ?_, ?_, ?_, ?_, ?_, fun id o ho hs ↦ ?_, ?_⟩
  · rw [hw₀, hledger, h.ledger]; rfl
  · rw [hw₀]; exact congrArg (fun g ↦ g.incoming.remainingQuantity) h.ledger.symm
  · rw [hw₀]; rfl
  · rw [hw₀, ← h.otherSide]; exact skipTombstones_resting s p
  · rw [← h.otherSide]; exact skipTombstones_stocked (h.otherSide ▸ h.stocked) p
  · rw [← h.own, ← h.incoming.side]; exact skipTombstones_own s p
  · have hskip : (s.skipTombstones p).book.orders = s.book.orders :=
      OrderBook.orders_updateSide _ _ _
    have := h.untouched id o ho hs
    rwa [← hskip] at this
  · exact (follows_skipTombstones .off s p).book.nextOrderId.trans h.nextOrderId

/-- The inner loop returns: with the match over, or further on in the walk. -/
theorem Sim.inner (h : Sim policy s₀ s done) (hits : Hits (s₀.walkFrom policy))
    (hx : pricesCross s₀.incoming.side s₀.incoming.price p = true)
    (hat : ∃ level ∈ (s.book.resting s₀.otherSide).head?, level.price = p)
    (hr : s.incoming.remainingQuantity ≠ 0) :
    ∃ fuel r, matchAtPrice fuel policy p s = some r ∧
      ((r.result.stpCancelled = true ∧ Matches policy s₀ r) ∨
        ∃ done', Sim policy s₀ r done' ∧ r.size < s.size) := by
  -- at the head of the loop: the simulation holds, and after the first pass there is less to do
  let I : MatchState → Prop := fun t ↦ (∃ done', Sim policy s₀ t done') ∧
    AtOrPast p (t.book.resting s₀.otherSide) ∧ (t = s ∨ t.size < s.size)
  have hstep : ∀ t, I t → (∃ r, matchAtPriceBody policy p t = some (.inl r) ∧
        ((r.result.stpCancelled = true ∧ Matches policy s₀ r) ∨
          ∃ done', Sim policy s₀ r done' ∧ r.size < s.size)) ∨
      ∃ t', matchAtPriceBody policy p t = some (.inr t') ∧ I t' ∧ t'.size < t.size := by
    rintro t ⟨⟨done', hsim⟩, hpast, hless⟩
    rcases hsim.innerPass hits hx hpast with ⟨hb, hend⟩ | ⟨hb, hw⟩ | ⟨t', a, hb, hsim', hat', hprog⟩
    · refine .inl ⟨t, hb, .inr ⟨done', hsim, hless.resolve_left ?_⟩⟩
      rintro rfl
      rcases hend with h0 | hpast
      · exact hr h0
      · obtain ⟨level, hl, rfl⟩ := hat
        exact hpast level (List.mem_of_mem_head? hl) rfl
    · have hm := hsim.matches_stp (p := p) hw
      exact .inl ⟨_, hb, .inl ⟨rfl, hm⟩⟩
    · have hlt : t'.size < t.size := by
        rw [MatchState.size, MatchState.size, hsim.otherSide, hsim'.otherSide]
        lia
      refine .inr ⟨t', hb, ⟨⟨_, hsim'⟩, hat', .inr ?_⟩, hlt⟩
      rcases hless with rfl | hless
      · exact hlt
      · exact hlt.trans hless
  have hI : I s := ⟨⟨done, h⟩, .inl hat, .inl rfl⟩
  obtain ⟨fuel, r, hret⟩ := Loop.exists_iterate_of_variant (I := I) MatchState.size
    (fun t ht ↦ (hstep t ht).imp_left fun ⟨r, hb, _⟩ ↦ ⟨r, hb⟩) hI
  refine ⟨fuel, r, hret, Loop.iterate_invariant (I := I) (Q := fun r ↦
    (r.result.stpCancelled = true ∧ Matches policy s₀ r) ∨
      ∃ done', Sim policy s₀ r done' ∧ r.size < s.size) ?_ ?_ hI hret⟩
  · intro t t' ht hb
    rcases hstep t ht with ⟨r', hb', -⟩ | ⟨t'', hb', hI', -⟩
    · rw [hb] at hb'; cases hb'
    · rw [hb] at hb'; cases hb'; exact hI'
  · intro t r' ht hb
    rcases hstep t ht with ⟨r'', hb', hres⟩ | ⟨t'', hb', -⟩
    · rw [hb] at hb'; cases hb'; exact hres
    · rw [hb] at hb'; cases hb'

end Inner

/-! ## The outer loop -/

section Outer

variable {policy : StpPolicy} {s₀ s : MatchState} {done : List Action}

/-- One pass of the outer loop: the match is over, or further on in the walk. -/
theorem Sim.outerPass (h : Sim policy s₀ s done) (hits : Hits (s₀.walkFrom policy)) :
    (∃ fuel r, matchOrderBody fuel policy s = some (.inl r) ∧ Matches policy s₀ r) ∨
      ∃ fuel s' done', matchOrderBody fuel policy s = some (.inr s') ∧ Sim policy s₀ s' done' ∧
        s'.size < s.size := by
  have hst := h.stocked
  rw [← h.otherSide] at hst
  have hbest : (s.book.oppositeSide s.incoming.side).bestPrice =
      (s.book.resting s.otherSide).head?.map RestingLevel.price := hst.bestPrice_eq
  by_cases hr : s.incoming.remainingQuantity = 0
  · refine .inl ⟨0, s, by simp only [matchOrderBody, hr, if_true], h.matches ?_⟩
    rw [walkFrom, hr, walk_zero]
  · cases hres : s.book.resting s.otherSide with
    | nil =>
        rw [hres] at hbest
        refine .inl ⟨0, s, by simp only [matchOrderBody, hr, if_false, hbest]; rfl, h.matches ?_⟩
        rw [walkFrom, hres, walk_nil]
    | cons level levels =>
        rw [hres] at hbest
        cases hx : pricesCross s.incoming.side s.incoming.price level.price with
        | false =>
            refine .inl ⟨0, s, ?_, h.matches ?_⟩
            · simp only [matchOrderBody, hr, if_false, hbest, List.head?_cons, Option.map_some, hx]
              rfl
            · rw [walkFrom, hres, walk_of_not_cross _ _ hx]
        | true =>
            have hx₀ : pricesCross s₀.incoming.side s₀.incoming.price level.price = true := by
              rw [← h.incoming.side, ← h.incoming.price]
              exact hx
            have hat : ∃ lv ∈ (s.book.resting s₀.otherSide).head?, lv.price = level.price := by
              rw [← h.otherSide, hres]
              exact ⟨level, rfl, rfl⟩
            obtain ⟨fuel, r, hret, hend⟩ := h.inner hits hx₀ hat hr
            have hbody : matchOrderBody fuel policy s =
                if r.result.stpCancelled then some (.inl r) else some (.inr r) := by
              simp only [matchOrderBody, hr, if_false, hbest, List.head?_cons, Option.map_some, hx,
                if_true, hret]
              rfl
            rcases hend with ⟨hstp, hm⟩ | ⟨done', hsim, hlt⟩
            · exact .inl ⟨fuel, r, by rw [hbody, hstp]; rfl, hm⟩
            · exact .inr ⟨fuel, r, done', by rw [hbody, hsim.stp]; rfl, hsim, hlt⟩

theorem Sim.outer (h : Sim policy s₀ s done) (hits : Hits (s₀.walkFrom policy)) :
    ∃ fuel r, Loop.iterate (matchOrderBody fuel policy) fuel s = some r ∧ Matches policy s₀ r := by
  induction hn : s.size using Nat.strongRecOn generalizing s done with
  | ind n ih =>
      rcases h.outerPass hits with ⟨fuel, r, hb, hm⟩ | ⟨fuel, s', done', hb, hsim, hlt⟩
      · exact ⟨fuel + 1, r, Loop.iterate_succ_inl (matchOrderBody_mono (Nat.le_succ fuel) hb) fuel,
          hm⟩
      · obtain ⟨fuel', r, hret, hm⟩ := ih s'.size (hn ▸ hlt) hsim rfl
        refine ⟨max fuel fuel' + 1, r, ?_, hm⟩
        rw [Loop.iterate_succ_inr (matchOrderBody_mono (by lia) hb)]
        exact Loop.iterate_mono (fun _ _ hx ↦ matchOrderBody_mono (by lia) hx) (by lia) hret

end Outer

/-- On a stocked side, with the orders to be cancelled where they should be, a match returns and is
the walk of the other side. -/
theorem OrderBook.exists_matchOrder {b : OrderBook} {incoming : Order} {policy : StpPolicy}
    (hst : b.Stocked incoming.side.opposite)
    (hits : Hits ((b.matchStart incoming).walkFrom policy)) :
    ∃ fuel r, b.matchOrderWithPolicy fuel incoming policy = some r ∧
      Matches policy (b.matchStart incoming) r := by
  obtain ⟨fuel, r, hret, hm⟩ := (Sim.refl hst rfl).outer hits
  exact ⟨fuel, _, Option.bind_eq_some_iff.mpr ⟨r, hret, rfl⟩,
    hm.ledger, hm.left, hm.stp, hm.resting, hm.stocked, hm.own, hm.untouched,
    hm.nextOrderId⟩

end Nanobook
