import Nanobook.Matching

/-!
# What matching, cancelling and compacting can do to a book

Between two additions a book only loses things: levels disappear, queues lose ids, orders change
their quantities and status but never their identity.  `OrderBook.Shrinks` says this once, for every
primitive that is not an addition, and the invariants of the book are derived from it.

`Shrinks` holds for `cancelOrder` whatever slot it hits, so nothing here depends on the recorded
indices being right.
-/

namespace Nanobook

/-! ## Levels -/

namespace Level

/-- `l'` has the queue of `l` with some ids missing. -/
structure Shrinks (l l' : Level) : Prop where
  price : l'.price = l.price
  iter : l'.iter.Sublist l.iter
  tallied : l.Tallied → l'.Tallied

theorem Shrinks.refl (l : Level) : Shrinks l l := ⟨rfl, .refl _, id⟩

theorem Shrinks.trans {l l' l'' : Level} (h : Shrinks l l') (h' : Shrinks l' l'') :
    Shrinks l l'' :=
  ⟨h'.price.trans h.price, h'.iter.trans h.iter, h'.tallied ∘ h.tallied⟩

theorem shrinks_skipTombstones (l : Level) : Shrinks l l.skipTombstones :=
  ⟨rfl, by rw [iter_skipTombstones], tallied_skipTombstones⟩

theorem shrinks_popFront (l : Level) (q : Quantity) : Shrinks l (l.popFront q) :=
  ⟨popFront_price l q, by rw [iter_popFront]; exact List.tail_sublist _,
    fun h ↦ tallied_popFront h q⟩

theorem shrinks_decreaseQuantity (l : Level) (q : Quantity) : Shrinks l (l.decreaseQuantity q) :=
  ⟨rfl, .refl _, id⟩

theorem shrinks_markTombstone (l : Level) (i : Nat) (q : Quantity) :
    Shrinks l (l.markTombstone i q) :=
  ⟨markTombstone_price l i q, iter_markTombstone_sublist l i q, fun h ↦ tallied_markTombstone h i q⟩

theorem shrinks_compact (l : Level) : Shrinks l l.compact :=
  ⟨compact_price l, by rw [iter_compact], tallied_compact⟩

end Level

/-! ## Sides -/

namespace PriceLevels

/-- Every level of `pl'` is a level of `pl` that lost some ids. -/
structure Shrinks (pl pl' : PriceLevels) : Prop where
  side : pl'.side = pl.side
  cached : pl.Cached → pl'.Cached
  level : ∀ p l', pl'.getLevel p = some l' → ∃ l, pl.getLevel p = some l ∧ l.Shrinks l'

theorem Shrinks.refl (pl : PriceLevels) : Shrinks pl pl :=
  ⟨rfl, id, fun _ l h ↦ ⟨l, h, .refl l⟩⟩

theorem Shrinks.trans {pl pl' pl'' : PriceLevels} (h : Shrinks pl pl') (h' : Shrinks pl' pl'') :
    Shrinks pl pl'' where
  side := h'.side.trans h.side
  cached := h'.cached ∘ h.cached
  level p l'' hl'' := by
    obtain ⟨l', hl', hs'⟩ := h'.level p l'' hl''
    obtain ⟨l, hl, hs⟩ := h.level p l' hl'
    exact ⟨l, hl, hs.trans hs'⟩

theorem shrinks_updateLevel (pl : PriceLevels) (p : Price) {f : Level → Level}
    (hf : ∀ l : Level, l.Shrinks (f l)) : Shrinks pl (pl.updateLevel p f) where
  side := rfl
  cached h := cached_updateLevel h p f
  level q l' hl' := by
    rw [getLevel_updateLevel] at hl'
    split_ifs at hl' with hq
    · obtain ⟨l, hl, rfl⟩ := Option.map_eq_some_iff.mp hl'
      exact ⟨l, hl, hf l⟩
    · exact ⟨l', hl', .refl l'⟩

theorem shrinks_removeIfEmpty (pl : PriceLevels) (p : Price) :
    Shrinks pl (pl.removeIfEmpty p) where
  side := side_removeIfEmpty pl p
  cached h := cached_removeIfEmpty h p
  level q l' hl' := by
    rw [getLevel_removeIfEmpty] at hl'
    split_ifs at hl' with hq
    · exact ⟨l', (Option.filter_eq_some_iff.mp hl').1, .refl l'⟩
    · exact ⟨l', hl', .refl l'⟩

theorem shrinks_markTombstone (pl : PriceLevels) (p : Price) (i : Nat) (q : Quantity) :
    Shrinks pl (pl.markTombstone p i q) :=
  (shrinks_updateLevel pl p fun l ↦ l.shrinks_markTombstone i q).trans (shrinks_removeIfEmpty _ p)

theorem shrinks_compact (pl : PriceLevels) : Shrinks pl pl.compact where
  side := rfl
  cached h := cached_mapVals h _
  level p l' hl' := by
    rw [getLevel_compact] at hl'
    obtain ⟨l, hl, rfl⟩ := Option.map_eq_some_iff.mp hl'
    exact ⟨l, hl, l.shrinks_compact⟩

end PriceLevels

/-! ## Books -/

namespace OrderBook

/-- `b'` is `b` with levels, queued ids, quantities and possibly stored orders gone. -/
structure Shrinks (b b' : OrderBook) : Prop where
  side : ∀ s, (b.side s).Shrinks (b'.side s)
  order : ∀ id o', b'.orders.get? id = some o' →
    ∃ o, b.orders.get? id = some o ∧ o.SameOrder o' ∧ (o.Settled → o'.Settled)
  nextOrderId : b'.nextOrderId = b.nextOrderId

theorem Shrinks.refl (b : OrderBook) : Shrinks b b :=
  ⟨fun _ ↦ .refl _, fun _ o h ↦ ⟨o, h, .refl o, id⟩, rfl⟩

theorem Shrinks.trans {b b' b'' : OrderBook} (h : Shrinks b b') (h' : Shrinks b' b'') :
    Shrinks b b'' where
  side s := (h.side s).trans (h'.side s)
  order id o'' ho'' := by
    obtain ⟨o', ho', hs', hst'⟩ := h'.order id o'' ho''
    obtain ⟨o, ho, hs, hst⟩ := h.order id o' ho'
    exact ⟨o, ho, hs.trans hs', hst' ∘ hst⟩
  nextOrderId := h'.nextOrderId.trans h.nextOrderId

theorem Shrinks.level {b b' : OrderBook} (h : Shrinks b b') {s : Side} {p : Price} {l' : Level}
    (hl : b'.level s p = some l') : ∃ l, b.level s p = some l ∧ l.Shrinks l' :=
  (h.side s).level p l' hl

theorem shrinks_updateSide (b : OrderBook) (s : Side) {f : PriceLevels → PriceLevels}
    (hf : (b.side s).Shrinks (f (b.side s))) : Shrinks b (b.updateSide s f) where
  side t := by
    rw [side_updateSide]
    split_ifs with h
    · subst h; exact hf
    · exact .refl _
  order id o h := by
    rw [orders_updateSide] at h
    exact ⟨o, h, .refl o, fun h ↦ h⟩
  nextOrderId := nextOrderId_updateSide b s f

/-- Rewriting one stored order, and moving the trade and time counters. -/
theorem shrinks_insert_order {b : OrderBook} {id : OrderId} {o o' : Order}
    (h : b.orders.get? id = some o) (hs : o.SameOrder o') (hst : o'.Settled) (t ts : Nat) :
    Shrinks b
    { b with orders := b.orders.insert id o', nextTradeId := t, nextTimestamp := ts } where
  side s := by cases s <;> exact .refl _
  order j x hx := by
    rw [OrdMap.get?_insert] at hx
    split_ifs at hx with hj
    · subst hj; cases hx; exact ⟨o, h, hs, fun _ ↦ hst⟩
    · exact ⟨x, hx, .refl x, fun h ↦ h⟩
  nextOrderId := rfl

theorem shrinks_cancelOrder (b : OrderBook) (id : OrderId) : Shrinks b (b.cancelOrder id).1 := by
  cases ho : b.orders.get? id with
  | none =>
      rw [cancelOrder_of_inactive (by simp [ho])]
      exact .refl b
  | some o =>
      cases ha : o.isActive with
      | false =>
          rw [cancelOrder_of_inactive (by simp [ho, ha])]
          exact .refl b
      | true =>
          rw [cancelOrder_of_active ho ha]
          dsimp only
          exact (shrinks_insert_order ho o.sameOrder_cancel o.settled_cancel b.nextTradeId
            b.nextTimestamp).trans
              (shrinks_updateSide _ _ (PriceLevels.shrinks_markTombstone _ _ _ _))

theorem shrinks_compact (b : OrderBook) : Shrinks b b.compact where
  side s := by rw [side_compact]; exact (b.side s).shrinks_compact
  order id o h := ⟨o, h, .refl o, fun h ↦ h⟩
  nextOrderId := rfl

theorem shrinks_clearHistory (b : OrderBook) : Shrinks b b.clearHistory.1 where
  side s := by rw [side_clearHistory]; exact .refl _
  order id o h := by
    simp only [clearHistory, OrdMap.get?_filter, Option.filter_eq_some_iff] at h
    exact ⟨o, h.1, .refl o, fun h ↦ h⟩
  nextOrderId := rfl

end OrderBook

/-! ## Matching -/

namespace MatchState

/-- `s'` is a later state of the match: the book shrank, the incoming order is the same one with
no more left to fill, and every trade added is one of the incoming order with a stored order that
self-trade prevention let through. -/
structure Follows (policy : StpPolicy) (s s' : MatchState) : Prop where
  book : s.book.Shrinks s'.book
  incoming : s.incoming.SameOrder s'.incoming
  remaining : s'.incoming.remainingQuantity ≤ s.incoming.remainingQuantity
  trades : ∃ ts, s'.result.trades = s.result.trades ++ ts ∧
    ∀ t ∈ ts, t.aggressorOrderId = s.incoming.id ∧
      ∃ o, s.book.orders.get? t.passiveOrderId = some o ∧
        stpConflict policy s.incoming.owner o.owner = false

theorem Follows.refl (policy : StpPolicy) (s : MatchState) : Follows policy s s :=
  ⟨.refl _, .refl _, le_rfl, [], by simp⟩

theorem Follows.trans {policy : StpPolicy} {s s' s'' : MatchState} (h : Follows policy s s')
    (h' : Follows policy s' s'') : Follows policy s s'' where
  book := h.book.trans h'.book
  incoming := h.incoming.trans h'.incoming
  remaining := h'.remaining.trans h.remaining
  trades := by
    obtain ⟨ts, hts, hmem⟩ := h.trades
    obtain ⟨ts', hts', hmem'⟩ := h'.trades
    refine ⟨ts ++ ts', by rw [hts', hts, List.append_assoc], fun t ht ↦ ?_⟩
    rcases List.mem_append.mp ht with ht | ht
    · exact hmem t ht
    · obtain ⟨hid, o', ho', hc⟩ := hmem' t ht
      obtain ⟨o, ho, hso, -⟩ := h.book.order _ _ ho'
      refine ⟨hid.trans h.incoming.id, o, ho, ?_⟩
      rwa [h.incoming.owner, hso.owner] at hc

/-- A step that only shrinks the book. -/
theorem follows_of_shrinks {policy : StpPolicy} (s : MatchState) {b : OrderBook}
    (h : s.book.Shrinks b) : Follows policy s { s with book := b } :=
  ⟨h, .refl _, le_rfl, [], by simp⟩

theorem follows_skipTombstones (policy : StpPolicy) (s : MatchState) (p : Price) :
    Follows policy s (s.skipTombstones p) :=
  s.follows_of_shrinks (OrderBook.shrinks_updateSide _ _
    (PriceLevels.shrinks_updateLevel _ p Level.shrinks_skipTombstones))

theorem follows_cancelIncoming (policy : StpPolicy) (s : MatchState) :
    Follows policy s s.cancelIncoming :=
  ⟨.refl _, s.incoming.sameOrder_stpDecrement _, Nat.sub_le _ _, [], by simp [cancelIncoming]⟩

theorem follows_cancelResting (policy : StpPolicy) (s : MatchState) (id : OrderId) :
    Follows policy s (s.cancelResting id) :=
  s.follows_of_shrinks (s.book.shrinks_cancelOrder id)

theorem follows_fillResting {policy : StpPolicy} (s : MatchState) (p : Price) {id : OrderId}
    {o : Order} (ho : s.book.orders.get? id = some o)
    (hc : stpConflict policy s.incoming.owner o.owner = false) :
    Follows policy s (s.fillResting p id o.remainingQuantity) where
  book := by
    simp only [fillResting, OrdMap.modify_eq_insert ho]
    refine (OrderBook.shrinks_insert_order ho (o.sameOrder_fill _) (o.settled_fill _) _ _).trans
      (OrderBook.shrinks_updateSide _ _ ?_)
    split_ifs
    · exact (PriceLevels.shrinks_updateLevel _ p fun l ↦ l.shrinks_popFront _).trans
        (PriceLevels.shrinks_removeIfEmpty _ p)
    · exact PriceLevels.shrinks_updateLevel _ p fun l ↦ l.shrinks_decreaseQuantity _
  incoming := s.incoming.sameOrder_fill _
  remaining := Nat.sub_le _ _
  trades := by
    refine ⟨_, rfl, fun t ht ↦ ?_⟩
    obtain rfl := List.mem_singleton.mp ht
    exact ⟨rfl, o, ho, hc⟩

end MatchState

open MatchState

/-- One pass of the inner loop, whether it leaves or goes round again. -/
theorem matchAtPriceBody_follows {policy : StpPolicy} {p : Price} {s : MatchState}
    {x : MatchState ⊕ MatchState} (h : matchAtPriceBody policy p s = some x) :
    Follows policy s (Sum.elim id id x) := by
  have hskip := follows_skipTombstones policy s p
  simp only [matchAtPriceBody] at h
  split at h
  · cases h; exact .refl _ _
  · split at h
    · cases h; exact hskip
    · split at h
      · cases h
        exact hskip.trans (follows_of_shrinks _ (OrderBook.shrinks_updateSide _ _
          (PriceLevels.shrinks_updateLevel _ p fun l ↦ l.shrinks_popFront 0)))
      · next o ho =>
          split at h
          · -- a conflict: the incoming or the resting order is cancelled
            split at h
            · cases h; exact hskip
            · cases h; exact hskip.trans (follows_cancelIncoming _ _)
            · cases h; exact hskip.trans (follows_cancelResting _ _ _)
            · split at h
              · cases h; exact hskip.trans (follows_cancelIncoming _ _)
              · cases h; exact hskip.trans (follows_cancelResting _ _ _)
          · next hc =>
              cases h
              exact hskip.trans (follows_fillResting _ p ho (by simpa using hc))

theorem matchAtPrice_follows {policy : StpPolicy} {p : Price} {fuel : Nat} {s s' : MatchState}
    (h : matchAtPrice fuel policy p s = some s') : Follows policy s s' :=
  Loop.iterate_invariant (I := Follows policy s) (Q := Follows policy s)
    (fun _ _ hs hstep ↦ hs.trans (matchAtPriceBody_follows hstep))
    (fun _ _ hs hexit ↦ hs.trans (matchAtPriceBody_follows hexit)) (.refl _ _) h

theorem matchOrderBody_follows {policy : StpPolicy} {fuel : Nat} {s : MatchState}
    {x : MatchState ⊕ MatchState} (h : matchOrderBody fuel policy s = some x) :
    Follows policy s (Sum.elim id id x) := by
  simp only [matchOrderBody] at h
  split at h
  · cases h; exact .refl _ _
  · split at h
    · cases h; exact .refl _ _
    · split at h
      · obtain ⟨s', hs', h⟩ := Option.bind_eq_some_iff.mp h
        split at h <;> cases h <;> exact matchAtPrice_follows hs'
      · cases h; exact .refl _ _

/-- Why the outer loop was left. -/
def MatchState.Done (s : MatchState) : Prop :=
  s.incoming.remainingQuantity = 0 ∨ s.result.stpCancelled = true ∨
    ∀ p, (s.book.oppositeSide s.incoming.side).bestPrice = some p →
      pricesCross s.incoming.side s.incoming.price p = false

theorem matchOrderBody_done {policy : StpPolicy} {fuel : Nat} {s s' : MatchState}
    (h : matchOrderBody fuel policy s = some (.inl s')) : s'.Done := by
  simp only [matchOrderBody] at h
  split at h
  · next hr => cases h; exact .inl hr
  · split at h
    · next hb => cases h; exact .inr (.inr (by simp [hb]))
    · next p hb =>
        split at h
        · obtain ⟨t, -, h⟩ := Option.bind_eq_some_iff.mp h
          split at h
          · next hstp => cases h; exact .inr (.inl hstp)
          · cases h
        · next hx => cases h; exact .inr (.inr (by simpa [hb] using hx))

/-- What a match that returned did. -/
theorem matchOrderWithPolicy_follows {policy : StpPolicy} {fuel : Nat} {b : OrderBook}
    {incoming : Order} {s : MatchState}
    (h : b.matchOrderWithPolicy fuel incoming policy = some s) :
    Follows policy (b.matchStart incoming) s ∧ s.Done := by
  obtain ⟨s', hs', h⟩ := Option.bind_eq_some_iff.mp h
  cases h
  have hfol : Follows policy (b.matchStart incoming) s' ∧ s'.Done :=
    Loop.iterate_invariant (I := Follows policy (b.matchStart incoming))
      (Q := fun t ↦ Follows policy (b.matchStart incoming) t ∧ t.Done)
      (fun _ _ hs hstep ↦ hs.trans (matchOrderBody_follows hstep))
      (fun _ _ hs hexit ↦ ⟨hs.trans (matchOrderBody_follows hexit), matchOrderBody_done hexit⟩)
      (.refl _ _) hs'
  exact ⟨⟨hfol.1.book, hfol.1.incoming, hfol.1.remaining, hfol.1.trades⟩, hfol.2⟩

end Nanobook
