import Mathlib.Logic.Relation
import Nanobook.Invariant.Submission

/-!
# Matches as sequences of passes

On a well-formed book a match is a sequence of passes of four kinds.  Each says which resting order
it met and what is known of it, so that an invariant of a match has to be checked for the four
kinds and not along the loops.
-/

namespace Nanobook

open MatchState

/-- One pass of a match, as far as the orders, the trades and the counters go. -/
inductive Pass (policy : StpPolicy) : MatchState → MatchState → Prop
  /-- The queues lose tombstones and ids of orders that are no longer stored. -/
  | queues {s : MatchState} {b : OrderBook} : s.book.Shrinks b → b.orders = s.book.orders →
      b.nextTradeId = s.book.nextTradeId → b.nextTimestamp = s.book.nextTimestamp →
      Pass policy s { s with book := b }
  | cancelIncoming {s : MatchState} : Pass policy s s.cancelIncoming
  | cancelResting {s : MatchState} {id : OrderId} : Pass policy s (s.cancelResting id)
  /-- A fill against a stored order of the other side that is queued at its own, crossed price. -/
  | fillResting {s : MatchState} {id : OrderId} {o : Order} : s.book.orders.get? id = some o →
      o.side = s.incoming.side.opposite → o.Settled →
      pricesCross s.incoming.side s.incoming.price o.price = true →
      stpConflict policy s.incoming.owner o.owner = false →
      s.incoming.remainingQuantity ≠ 0 →
      Pass policy s (s.fillResting o.price id o.remainingQuantity)

/-- A sequence of passes. -/
abbrev Passes (policy : StpPolicy) : MatchState → MatchState → Prop :=
  Relation.ReflTransGen (Pass policy)

variable {policy : StpPolicy} {s s' : MatchState} {p : Price} {fuel : Nat}

theorem pass_updateLevel (s : MatchState) (side : Side) (p : Price) {f : Level → Level}
    (hf : ∀ l, Level.Shrinks l (f l)) : Pass policy s
      { s with book := s.book.updateSide side fun pl ↦ pl.updateLevel p f } :=
  .queues (OrderBook.shrinks_updateSide _ _ (PriceLevels.shrinks_updateLevel _ p hf))
    (by simp) (by simp) (by simp)

theorem pass_skipTombstones (s : MatchState) (p : Price) : Pass policy s (s.skipTombstones p) :=
  pass_updateLevel s _ p Level.shrinks_skipTombstones

@[simp] theorem orders_skipTombstones (s : MatchState) (p : Price) :
    (s.skipTombstones p).book.orders = s.book.orders :=
  OrderBook.orders_updateSide _ _ _

/-- What `front` finds on the other side of a well-formed book. -/
theorem front_spec (hw : s.book.WF) {id : OrderId} {o : Order}
    (hfront : ((s.book.oppositeSide s.incoming.side).getLevel p).bind Level.front = some id)
    (ho : s.book.orders.get? id = some o) :
    o.side = s.incoming.side.opposite ∧ o.price = p ∧ o.Settled := by
  obtain ⟨l, hl, hid⟩ := Option.bind_eq_some_iff.mp hfront
  rw [Level.front_eq] at hid
  exact (hw.queued _ p l id hl (List.mem_of_mem_head? hid)).2 o ho

/-- One turn of the inner loop at a crossed price. -/
theorem matchAtPriceBody_passes (hw : s.book.WF)
    (hx : pricesCross s.incoming.side s.incoming.price p = true) {x : MatchState ⊕ MatchState}
    (h : matchAtPriceBody policy p s = some x) : Passes policy s (Sum.elim id id x) := by
  have hskip : Passes policy s (s.skipTombstones p) := .single (pass_skipTombstones s p)
  simp only [matchAtPriceBody] at h
  split_ifs at h with hrem
  · cases h; exact .refl
  · split at h
    · cases h; exact hskip
    · next id hfront =>
        split at h
        · cases h
          exact hskip.tail (pass_updateLevel _ _ p fun l ↦ l.shrinks_popFront 0)
        · next o ho =>
            split at h
            · split at h
              · cases h; exact hskip
              · cases h; exact hskip.tail .cancelIncoming
              · cases h; exact hskip.tail .cancelResting
              · split at h
                · cases h; exact hskip.tail .cancelIncoming
                · cases h; exact hskip.tail .cancelResting
            · next hc =>
                cases h
                have ho' : s.book.orders.get? id = some o := by
                  rw [← orders_skipTombstones s p]
                  exact ho
                obtain ⟨hside, rfl, hsettled⟩ := front_spec hw hfront ho'
                exact hskip.tail (.fillResting ho hside hsettled hx (by simpa using hc) hrem)

/-- A match at a crossed price. -/
theorem matchAtPrice_passes (hw : s.book.WF)
    (hx : pricesCross s.incoming.side s.incoming.price p = true)
    (h : matchAtPrice fuel policy p s = some s') : Passes policy s s' := by
  have hturn : ∀ t x, Follows policy s t ∧ Passes policy s t →
      matchAtPriceBody policy p t = some x → Passes policy s (Sum.elim id id x) := by
    rintro t x ⟨hf, hp⟩ hstep
    refine hp.trans (matchAtPriceBody_passes (hw.shrinks hf.book) ?_ hstep)
    rwa [hf.incoming.side, hf.incoming.price]
  exact Loop.iterate_invariant (I := fun t ↦ Follows policy s t ∧ Passes policy s t)
    (Q := fun t ↦ Passes policy s t)
    (fun t t' ht hstep ↦ ⟨ht.1.trans (matchAtPriceBody_follows hstep), hturn t _ ht hstep⟩)
    (fun t t' ht hexit ↦ hturn t _ ht hexit) ⟨.refl _ _, .refl⟩ h

/-- One turn of the outer loop. -/
theorem matchOrderBody_passes (hw : s.book.WF) {x : MatchState ⊕ MatchState}
    (h : matchOrderBody fuel policy s = some x) : Passes policy s (Sum.elim id id x) := by
  simp only [matchOrderBody] at h
  split_ifs at h
  · cases h; exact .refl
  · split at h
    · cases h; exact .refl
    · next best _ =>
        split_ifs at h with hx
        · obtain ⟨t, ht, h⟩ := Option.bind_eq_some_iff.mp h
          have := matchAtPrice_passes hw hx ht
          split_ifs at h <;> cases h <;> exact this
        · cases h; exact .refl

/-- A match is a sequence of passes, up to the remaining quantity that its result reports. -/
theorem OrderBook.matchOrder_passes {b : OrderBook} {incoming : Order} (hw : b.WF)
    (h : b.matchOrderWithPolicy fuel incoming policy = some s') :
    ∃ s, Passes policy (b.matchStart incoming) s ∧ s'.book = s.book ∧ s'.incoming = s.incoming ∧
      s'.result.trades = s.result.trades ∧ s'.result.stpCancelled = s.result.stpCancelled := by
  obtain ⟨s, hs, h⟩ := Option.bind_eq_some_iff.mp h
  cases h
  refine ⟨s, ?_, rfl, rfl, rfl, rfl⟩
  have hturn : ∀ t x, Follows policy (b.matchStart incoming) t ∧
      Passes policy (b.matchStart incoming) t → matchOrderBody fuel policy t = some x →
        Passes policy (b.matchStart incoming) (Sum.elim id id x) :=
    fun t x ht hstep ↦ ht.2.trans (matchOrderBody_passes (hw.shrinks ht.1.book) hstep)
  exact Loop.iterate_invariant (I := fun t ↦ Follows policy (b.matchStart incoming) t ∧
      Passes policy (b.matchStart incoming) t)
    (Q := fun t ↦ Passes policy (b.matchStart incoming) t)
    (fun t t' ht hstep ↦ ⟨ht.1.trans (matchOrderBody_follows hstep), hturn t _ ht hstep⟩)
    (fun t t' ht hexit ↦ hturn t _ ht hexit) ⟨.refl _ _, .refl⟩ hs

/-! ## Stored orders -/

namespace OrderBook

/-- Every stored order of `b` is still stored in `b'`, as the same order. -/
def Keeps (b b' : OrderBook) : Prop :=
  ∀ id o, b.orders.get? id = some o → ∃ o', b'.orders.get? id = some o' ∧ o.SameOrder o'

variable {b b' b'' : OrderBook} {id : OrderId} {o o' : Order}

theorem keeps_of_orders (h : b'.orders = b.orders) : b.Keeps b' :=
  fun _ o ho ↦ ⟨o, h ▸ ho, .refl o⟩

theorem Keeps.refl (b : OrderBook) : b.Keeps b := keeps_of_orders rfl

theorem Keeps.trans (h : b.Keeps b') (h' : b'.Keeps b'') : b.Keeps b'' := fun id o ho ↦ by
  obtain ⟨o', ho', hs⟩ := h id o ho
  obtain ⟨o'', ho'', hs'⟩ := h' id o' ho'
  exact ⟨o'', ho'', hs.trans hs'⟩

/-- Storing an order again, or for the first time. -/
theorem keeps_insert (h : b'.orders = b.orders.insert id o')
    (hsame : ∀ o, b.orders.get? id = some o → o.SameOrder o') : b.Keeps b' := by
  intro j x hx
  rw [h, OrdMap.get?_insert]
  split_ifs with hj
  · subst hj
    exact ⟨o', rfl, hsame x hx⟩
  · exact ⟨x, hx, .refl x⟩

theorem keeps_cancelOrder (b : OrderBook) (id : OrderId) : b.Keeps (b.cancelOrder id).1 := by
  by_cases hact : ∃ o, b.orders.get? id = some o ∧ o.isActive = true
  · obtain ⟨o, ho, ha⟩ := hact
    refine keeps_insert (orders_cancelOrder ho ha) fun x hx ↦ ?_
    obtain rfl : o = x := Option.some.inj (ho.symm.trans hx)
    exact o.sameOrder_cancel
  · rw [cancelOrder_of_inactive fun o ho ↦ by simpa using fun ha ↦ hact ⟨o, ho, ha⟩]
    exact .refl b

end OrderBook

theorem orders_fillResting {id : OrderId} {o : Order} (ho : s.book.orders.get? id = some o)
    (p : Price) (q : Quantity) : (s.fillResting p id q).book.orders =
      s.book.orders.insert id (o.fill (Nat.min s.incoming.remainingQuantity q)) := by
  simp only [MatchState.fillResting, OrderBook.orders_updateSide, OrdMap.modify_eq_insert ho]

theorem Pass.keeps (h : Pass policy s s') : s.book.Keeps s'.book := by
  cases h with
  | queues _ horders _ _ => exact OrderBook.keeps_of_orders horders
  | cancelIncoming => exact .refl _
  | cancelResting => exact OrderBook.keeps_cancelOrder _ _
  | fillResting ho _ _ _ _ _ =>
      refine OrderBook.keeps_insert (orders_fillResting ho _ _) fun x hx ↦ ?_
      obtain rfl := Option.some.inj (ho.symm.trans hx)
      exact Order.sameOrder_fill _ _

theorem Passes.keeps (h : Passes policy s s') : s.book.Keeps s'.book := by
  induction h with
  | refl => exact .refl _
  | tail _ hlast ih => exact ih.trans hlast.keeps

/-- Passes do to the book and the trades what a match does. -/
theorem Pass.follows (h : Pass policy s s') : Follows policy s s' := by
  cases h with
  | queues hb _ _ _ => exact follows_of_shrinks s hb
  | cancelIncoming => exact follows_cancelIncoming policy s
  | cancelResting => exact follows_cancelResting policy s _
  | fillResting ho _ _ _ hc _ => exact follows_fillResting s _ ho hc

theorem Passes.follows (h : Passes policy s s') : Follows policy s s' := by
  induction h with
  | refl => exact .refl _ _
  | tail _ hlast ih => exact ih.trans hlast.follows

namespace Exchange

/-- A submission that is not turned away is a sequence of passes, settled. -/
theorem submit_passes {ex ex' : Exchange} {sub : Submission} {r : SubmitResult} (hw : ex.WF)
    (h : ex.submitLimitInternalWithOwner fuel sub = some (ex', r)) :
    (ex.rejectsFok sub = true ∧ ex' = { ex with book := (ex.incoming sub).2 } ∧
        r = ⟨ex.book.nextOrderId, .cancelled, [], 0, 0, sub.quantity⟩) ∨
      ∃ s, Passes ex.stpPolicy (ex.entry sub) s ∧ (ex', r) = ex.settle sub s := by
  simp only [submitLimitInternalWithOwner] at h
  split_ifs at h with hrej
  · cases h; exact .inl ⟨hrej, rfl, rfl⟩
  · obtain ⟨s', hs', h⟩ := Option.bind_eq_some_iff.mp h
    obtain ⟨s, hp, hb, hi, ht, hstp⟩ := OrderBook.matchOrder_passes (hw.incoming sub) hs'
    refine .inr ⟨s, hp, ?_⟩
    rw [← Option.some.inj h]
    simp only [settle, hb, hi, ht, hstp]

end Exchange

end Nanobook
