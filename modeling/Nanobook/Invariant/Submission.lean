import Nanobook.Invariant.Backed
import Nanobook.Fuel

/-!
# Submissions to a backed exchange

An exchange is backed when it is well formed and both sides of its book are stocked.  There every
submission returns and is the walk of the other side, provided that the orders self-trade prevention
cancels are where their records say; and it leaves the exchange backed.
-/

namespace Nanobook

namespace Exchange

variable {ex ex' : Exchange} {sub : Submission} {fuel : Nat} {r : SubmitResult}

/-- The match a submission starts. -/
def entry (ex : Exchange) (sub : Submission) : MatchState :=
  (ex.incoming sub).2.matchStart (ex.incoming sub).1

/-- What price-time priority makes of a submission. -/
def walkOf (ex : Exchange) (sub : Submission) : Walk (List RestingLevel) :=
  (ex.entry sub).walkFrom ex.stpPolicy

/-- Every resting order that self-trade prevention is going to cancel is recorded in slot `0`, which
is where it is when its turn comes. -/
def OnTarget (ex : Exchange) (sub : Submission) : Prop :=
  ∀ o, .cancel o ∈ (ex.walkOf sub).actions → o.positionInLevel = 0

theorem resting_incoming (ex : Exchange) (sub : Submission) (s : Side) :
    (ex.incoming sub).2.resting s = ex.book.resting s := by
  cases s <;> rfl

theorem walkOf_eq (ex : Exchange) (sub : Submission) : ex.walkOf sub =
    walk ex.stpPolicy sub.owner sub.side sub.price (ex.book.resting sub.side.opposite)
      sub.quantity := by
  rw [walkOf, MatchState.walkFrom, ← ex.resting_incoming sub]
  rfl

/-- An order without an owner cancels nothing. -/
theorem onTarget_of_owner_none (h : sub.owner = none) : ex.OnTarget sub := by
  intro o ho
  rw [walkOf_eq, h] at ho
  have hc := (of_cancel_mem_walk ho).2
  simp [stpConflict] at hc

/-- A well-formed exchange whose book has something to fill in every level. -/
structure Backed (ex : Exchange) : Prop where
  wf : ex.WF
  stocked : ∀ s, ex.book.Stocked s

theorem backed_create : create.Backed :=
  ⟨wf_create, fun s ↦ ⟨by cases s <;> rfl, by cases s <;> exact PriceLevels.cached_create _,
    fun _ _ h ↦ by cases s <;> cases h⟩⟩

namespace Backed

variable (h : ex.Backed)

include h

theorem stocked_incoming (sub : Submission) (s : Side) : (ex.incoming sub).2.Stocked s :=
  (h.stocked s).of_counters (ex.side_incoming sub s) rfl

/-- A resting order of a backed book is active. -/
theorem isActive_of_mem_flatten {s : Side} {o : Order} (ho : o ∈ flatten (ex.book.resting s)) :
    o.isActive = true := by
  obtain ⟨l, hl, hid, hget, -, hr⟩ := (h.stocked s).of_mem_flatten ho
  exact ((h.wf.book.queued s o.price l o.id hl hid).2 o hget).2.2.mpr hr

theorem hits (ht : ex.OnTarget sub) : Hits (ex.walkOf sub) := by
  intro o ho
  refine ⟨ht o ho, ?_⟩
  rw [walkOf_eq] at ho
  exact h.isActive_of_mem_flatten (of_cancel_mem_walk ho).1

theorem exists_match (ht : ex.OnTarget sub) : ∃ fuel s,
    (ex.incoming sub).2.matchOrderWithPolicy fuel (ex.incoming sub).1 ex.stpPolicy = some s ∧
      Matches ex.stpPolicy (ex.entry sub) s :=
  OrderBook.exists_matchOrder (h.stocked_incoming sub _) (h.hits ht)

/-- Whatever a match returns is what the walk says. -/
theorem isWalk (ht : ex.OnTarget sub) {s : MatchState}
    (hm : (ex.incoming sub).2.matchOrderWithPolicy fuel (ex.incoming sub).1 ex.stpPolicy = some s) :
    Matches ex.stpPolicy (ex.entry sub) s := by
  obtain ⟨fuel', s', hm', hs'⟩ := h.exists_match ht
  have h₁ := OrderBook.matchOrderWithPolicy_mono (Nat.le_max_left fuel fuel') hm
  have h₂ := OrderBook.matchOrderWithPolicy_mono (Nat.le_max_right fuel fuel') hm'
  rw [h₁] at h₂
  cases h₂
  exact hs'

section Match

variable {s : MatchState} (hm : Matches ex.stpPolicy (ex.entry sub) s)

include hm

theorem stocked_match (t : Side) : s.book.Stocked t := by
  rcases sub.side.eq_or_eq_opposite t with rfl | rfl
  · exact (h.stocked_incoming sub _).of_untouched hm.untouched hm.own
  · exact hm.stocked

/-- Exact totals stay exact while an order is matched. -/
theorem exact_match (hx : ∀ t, ex.book.Exact t) (t : Side) : s.book.Exact t := by
  have hx' : ∀ t, (ex.incoming sub).2.Exact t := fun t ↦
    (hx t).of_counters (ex.side_incoming sub t) rfl
  rcases sub.side.eq_or_eq_opposite t with rfl | rfl
  · exact (h.stocked_incoming sub _).exact_of_untouched hm.untouched hm.own (hx' _)
  · refine OrderBook.exact_of_sound ?_
    rw [show s.book.resting sub.side.opposite = ((ex.entry sub).walkFrom ex.stpPolicy).rest from
      hm.resting]
    exact (walk_eq_greedy ((h.stocked_incoming sub _).sound (hx' _)) _).sound

end Match

end Backed

/-- What the match leaves of an incoming order that was not cancelled. -/
theorem Matches.remainingQuantity_eq {s : MatchState}
    (hm : Matches ex.stpPolicy (ex.entry sub) s) (hstp : s.result.stpCancelled = false) :
    s.incoming.remainingQuantity = (ex.walkOf sub).left := by
  have hl := hm.ledger
  rw [← hm.stp, hstp] at hl
  rw [walkOf, ← hm.left, show s.incoming = s.ledger.incoming from rfl, hl]
  rfl

/-- Matching leaves the level the order may come to rest at alone. -/
theorem Matches.totalAt_eq {s : MatchState} (hm : Matches ex.stpPolicy (ex.entry sub) s)
    (hmd : Matched ex sub s) : s.book.totalAt s.incoming.side s.incoming.price =
      ex.book.totalAt sub.side sub.price := by
  rw [hmd.sameOrder.side, hmd.sameOrder.price]
  have hown : s.book.side sub.side = ex.book.side sub.side :=
    hm.own.trans (ex.side_incoming sub sub.side)
  exact congrArg (fun pl : PriceLevels ↦
    ((pl.getLevel sub.price).map Level.totalQuantity).getD 0) hown

/-- Storing an order that does not rest changes neither side. -/
theorem stocked_store {b : OrderBook} {o : Order} (hf : b.Fresh o.id) {s : Side}
    (h : b.Stocked s) : ({ b with orders := b.orders.insert o.id o } : OrderBook).Stocked s :=
  h.of_untouched (fun j o' ho' _ ↦ hf.kept o j o' ho') (OrderBook.side_mk _ _ _ _ _ _)

theorem exact_store {b : OrderBook} {o : Order} (hf : b.Fresh o.id) {s : Side}
    (h : b.Stocked s) (hx : b.Exact s) :
    ({ b with orders := b.orders.insert o.id o } : OrderBook).Exact s :=
  h.exact_of_untouched (fun j o' ho' _ ↦ hf.kept o j o' ho') (OrderBook.side_mk _ _ _ _ _ _) hx

/-- A submission is turned away, or the orders it cancels are where they should be. -/
def Sure (ex : Exchange) (sub : Submission) : Prop := ex.rejectsFok sub = false → ex.OnTarget sub

/-- The level a GTC order comes to rest at has room for it in its total. -/
def Room (ex : Exchange) (sub : Submission) : Prop :=
  sub.timeInForce = .gtc → (ex.walkOf sub).stp = false → (ex.walkOf sub).left ≠ 0 →
    ex.book.totalAt sub.side sub.price + (ex.walkOf sub).left ≤ u64Max

namespace Backed

theorem exists_submit (h : ex.Backed) (ht : ex.Sure sub) :
    ∃ fuel x, ex.submitLimitInternalWithOwner fuel sub = some x := by
  cases hrej : ex.rejectsFok sub with
  | true => exact ⟨0, _, by simp only [submitLimitInternalWithOwner, hrej, if_true]; rfl⟩
  | false =>
      obtain ⟨fuel, s, hm, -⟩ := h.exists_match (ht hrej)
      refine ⟨fuel, ex.settle sub s, ?_⟩
      simp only [submitLimitInternalWithOwner, hrej]
      exact Option.bind_eq_some_iff.mpr ⟨s, hm, rfl⟩

theorem submit (h : ex.Backed) (ht : ex.Sure sub)
    (hs : ex.submitLimitInternalWithOwner fuel sub = some (ex', r)) : ex'.Backed := by
  refine ⟨h.wf.submit hs, fun t ↦ ?_⟩
  rcases submit_cases hs with ⟨-, rfl, -⟩ | ⟨hrej, s, hm, rfl, -⟩
  · exact h.stocked_incoming sub t
  · have hst := h.stocked_match (h.isWalk (ht hrej) hm) t
    have hmd := h.wf.matched hm
    rcases settledBook_cases sub s with ⟨status, hb⟩ | ⟨-, hrem, -, hb⟩
    · simp only [hb]
      exact stocked_store (o := { s.incoming with status := status }) hmd.fresh hst
    · simp only [hb]
      exact hst.addOrder hmd.fresh (Nat.pos_of_ne_zero hrem)

theorem exact_submit (h : ex.Backed) (hx : ∀ t, ex.book.Exact t) (ht : ex.Sure sub)
    (hroom : ex.rejectsFok sub = false → ex.Room sub)
    (hs : ex.submitLimitInternalWithOwner fuel sub = some (ex', r)) (t : Side) :
    ex'.book.Exact t := by
  rcases submit_cases hs with ⟨-, rfl, -⟩ | ⟨hrej, s, hm, rfl, -⟩
  · exact (hx t).of_counters (ex.side_incoming sub t) rfl
  · have hmatches := h.isWalk (ht hrej) hm
    have hst := h.stocked_match hmatches t
    have hex := h.exact_match hmatches hx t
    have hmd := h.wf.matched hm
    rcases settledBook_cases sub s with ⟨status, hb⟩ | ⟨hstp, hrem, htif, hb⟩
    · simp only [hb]
      exact exact_store (o := { s.incoming with status := status }) hmd.fresh hst hex
    · simp only [hb]
      refine hex.addOrder hmd.fresh ?_
      have hleft := Matches.remainingQuantity_eq hmatches hstp
      have hlevel := Matches.totalAt_eq hmatches hmd
      have := hroom hrej htif (hmatches.stp ▸ hstp) (hleft ▸ hrem)
      rw [← hleft, ← hlevel] at this
      exact this

end Backed

/-! ## Every transition -/

section Transitions

variable {K : Op → Prop} {P : Exchange → Submission → Prop} {Q : Exchange → OrderId → Prop}

theorem Atom.backed (hP : ∀ ex sub, P ex sub → ex.Sure sub)
    (hQ : ∀ ex id, Q ex id → ex.book.Targets id) (ha : Atom K P Q ex ex') (h : ex.Backed) :
    ex'.Backed := by
  refine ⟨ha.wf h.wf, fun t ↦ ?_⟩
  cases ha with
  | lastPrice last => exact h.stocked t
  | submit hp hs => exact (h.submit (hP _ _ hp) hs).stocked t
  | cancelOrder hq => exact (h.stocked t).cancelOrder h.wf.book (hQ _ _ hq)
  | stops _ => exact h.stocked t
  | insertStop _ => exact (h.stocked t).of_counters (by cases t <;> rfl) rfl
  | compact => exact (h.stocked t).compact
  | clearHistory => exact (h.stocked t).clearHistory h.wf.book
  | clearTrades => exact h.stocked t

theorem Path.backed (hP : ∀ ex sub, P ex sub → ex.Sure sub)
    (hQ : ∀ ex id, Q ex id → ex.book.Targets id) (hp : Path K P Q ex ex') (h : ex.Backed) :
    ex'.Backed := by
  induction hp with
  | refl => exact h
  | tail _ hlast ih => exact hlast.backed hP hQ ih

theorem Atom.exact (hP : ∀ ex sub, P ex sub → ex.Sure sub ∧
      (ex.rejectsFok sub = false → ex.Room sub))
    (hQ : ∀ ex id, Q ex id → ex.book.Targets id) (ha : Atom K P Q ex ex') (h : ex.Backed)
    (hx : ∀ t, ex.book.Exact t) (t : Side) : ex'.book.Exact t := by
  cases ha with
  | lastPrice last => exact hx t
  | submit hp hs => exact h.exact_submit hx (hP _ _ hp).1 (hP _ _ hp).2 hs t
  | cancelOrder hq => exact (h.stocked t).exact_cancelOrder h.wf.book (hQ _ _ hq) (hx t)
  | stops _ => exact hx t
  | insertStop _ => exact (hx t).of_counters (by cases t <;> rfl) rfl
  | compact => exact (hx t).compact
  | clearHistory => exact (h.stocked t).exact_clearHistory h.wf.book (hx t)
  | clearTrades => exact hx t

theorem Path.exact (hP : ∀ ex sub, P ex sub → ex.Sure sub ∧
      (ex.rejectsFok sub = false → ex.Room sub))
    (hQ : ∀ ex id, Q ex id → ex.book.Targets id) (hp : Path K P Q ex ex') (h : ex.Backed)
    (hx : ∀ t, ex.book.Exact t) (t : Side) : ex'.book.Exact t := by
  induction hp generalizing t with
  | refl => exact hx t
  | @tail ex₁ ex₂ hfirst hlast ih =>
      exact hlast.exact hP hQ (Path.backed (fun ex sub hp ↦ (hP ex sub hp).1) hQ hfirst h) ih t

end Transitions

end Exchange

end Nanobook
