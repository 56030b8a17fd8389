import Nanobook.Alike.StopBook
import Nanobook.Alike.Submission
import Nanobook.Snapshot
import Nanobook.Termination

/-!
# Exchanges that are alike

Two backed exchanges are alike when their books and their stop books are, and their trades, last
trade prices and policies are the same.  Each of the internal operations returns the same for both
and leaves them alike, as long as its cancellations hit in both.
-/

namespace Nanobook

namespace Exchange

/-- The exchanges are backed and differ in nothing but tombstones, recorded slots, settled orders
and the event log. -/
structure Alike (n : OrderId) (ex ex' : Exchange) : Prop where
  backed : ex.Backed
  backed' : ex'.Backed
  book : ex.book.Alike ex'.book
  stopBook : StopBook.Alike n ex.stopBook ex'.stopBook
  trades : ex.trades = ex'.trades
  lastTradePrice : ex.lastTradePrice = ex'.lastTradePrice
  stpPolicy : ex.stpPolicy = ex'.stpPolicy
  le_nextOrderId : n ≤ ex.book.nextOrderId

variable {n : OrderId} {ex ex' ex₁ ex₁' ex₂ ex₂' : Exchange} {sub : Submission} {fuel fuel' : Nat}

theorem Backed.alike_self (h : ex.Backed) : Alike ex.book.nextOrderId ex ex where
  backed := h
  backed' := h
  book := .refl _
  stopBook := .refl _ _
  trades := rfl
  lastTradePrice := rfl
  stpPolicy := rfl
  le_nextOrderId := le_rfl

namespace Alike

variable (h : Alike n ex ex')

include h

theorem logged (op : Op) : Alike n (ex.logged op) (ex'.logged op) := by
  have hb := h.backed.logged op
  have hb' := h.backed'.logged op
  obtain ⟨events, hlog⟩ := ex.logged_eq op
  obtain ⟨events', hlog'⟩ := ex'.logged_eq op
  rw [hlog] at hb ⊢
  rw [hlog'] at hb' ⊢
  exact ⟨hb, hb', h.book, h.stopBook, h.trades, h.lastTradePrice, h.stpPolicy, h.le_nextOrderId⟩

/-- Both show the same book. -/
theorem depth (levels : Nat) : ex.depth levels = ex'.depth levels := by
  have hside : ∀ s, snapshotLevels (ex.book.side s) levels =
      snapshotLevels (ex'.book.side s) levels := by
    intro s
    have hunplaced : ∀ os : List RestingLevel, (os.take levels).map RestingLevel.snapshot =
        ((os.map RestingLevel.unplaced).take levels).map RestingLevel.snapshot := by
      intro os
      rw [← List.map_take, List.map_map]
      refine List.map_congr_left fun level _ ↦ ?_
      simp only [Function.comp_apply, RestingLevel.snapshot, RestingLevel.unplaced, List.length_map]
    rw [(h.backed.stocked s).snapshotLevels_eq h.backed.wf.book,
      (h.backed'.stocked s).snapshotLevels_eq h.backed'.wf.book, hunplaced,
      h.book.resting (h.backed.stocked s) (h.backed'.stocked s), ← hunplaced]
  simp only [Exchange.depth, OrderBook.snapshot, h.book.nextOrderId]
  rw [show snapshotLevels ex.book.bids levels = snapshotLevels ex'.book.bids levels from hside .buy,
    show snapshotLevels ex.book.asks levels = snapshotLevels ex'.book.asks levels from hside .sell]

/-! ## Submissions and triggers -/

theorem setLastTradePrice (last : Option Price) :
    Alike n { ex with lastTradePrice := last } { ex' with lastTradePrice := last } :=
  ⟨h.backed.of_book rfl rfl, h.backed'.of_book rfl rfl, h.book, h.stopBook, h.trades, rfl,
    h.stpPolicy, h.le_nextOrderId⟩

theorem submit {r r' : SubmitResult} (ht : ex.Sure sub) (ht' : ex'.Sure sub)
    (hs : ex.submitLimitInternalWithOwner fuel sub = some (ex₁, r))
    (hs' : ex'.submitLimitInternalWithOwner fuel' sub = some (ex₁', r')) :
    Alike n ex₁ ex₁' ∧ r = r' := by
  obtain ⟨hbook, rfl⟩ := h.backed.submit_alike h.backed' h.book h.stpPolicy ht ht' hs hs'
  obtain ⟨hsb, hlast, hpolicy, -, htrades, hid⟩ := submit_frame hs
  obtain ⟨hsb', hlast', hpolicy', -, htrades', -⟩ := submit_frame hs'
  refine ⟨⟨h.backed.submit ht hs, h.backed'.submit ht' hs', hbook, ?_, ?_, ?_, ?_, ?_⟩, rfl⟩
  · rw [hsb, hsb']
    exact h.stopBook
  · rw [htrades, htrades', h.trades]
  · rw [hlast, hlast', h.lastTradePrice]
  · rw [hpolicy, hpolicy', h.stpPolicy]
  · rw [hid]
    exact h.le_nextOrderId.trans (Nat.le_succ _)

/-- The stop books may change each on its own, as long as the results are alike. -/
theorem setStopBook {sb sb' : StopBook} (ht : ex.stopBook.Tame sb) (ht' : ex'.stopBook.Tame sb')
    (hs : StopBook.Alike n sb sb') :
    Alike n { ex with stopBook := sb } { ex' with stopBook := sb' } := by
  have hback : ∀ {ex : Exchange} {sb : StopBook}, ex.Backed → ex.stopBook.Tame sb →
      Backed { ex with stopBook := sb } := fun {ex sb} hb ht ↦
    Atom.backed (K := fun _ ↦ True) (P := fun _ _ ↦ False) (Q := fun _ _ ↦ False)
      (fun _ _ hp ↦ hp.elim) (fun _ _ hq ↦ hq.elim) (.stops ht) hb
  exact ⟨hback h.backed ht, hback h.backed' ht', h.book, hs, h.trades, h.lastTradePrice,
    h.stpPolicy, h.le_nextOrderId⟩

theorem collectTriggered (p : Price) :
    Alike n (ex.collectTriggered p).1 (ex'.collectTriggered p).1 ∧
      (ex.collectTriggered p).2 = (ex'.collectTriggered p).2 := by
  obtain ⟨hstops, heq⟩ := (h.stopBook.updateTrailingStops p).collectTriggered p
  have htame : ∀ sb : StopBook, sb.Tame ((sb.updateTrailingStops p).collectTriggered p).1 :=
    fun sb ↦ (sb.tame_updateTrailingStops p).trans (StopBook.tame_collectTriggered _ p)
  simp only [Exchange.collectTriggered]
  exact ⟨h.setStopBook (htame _) (htame _) hstops, heq⟩

omit h in
/-- The submissions of one round. -/
theorem foldlM_submitTriggered {triggered : List StopOrder}
    {acc acc' acc₁ acc₁' : Exchange × Option Price}
    (h : Alike n acc.1 acc'.1) (hlast : acc.2 = acc'.2)
    (hs : triggered.foldlM (submitTriggered fuel) acc = some acc₁)
    (hs' : triggered.foldlM (submitTriggered fuel') acc' = some acc₁') :
    Alike n acc₁.1 acc₁'.1 ∧ acc₁.2 = acc₁'.2 := by
  induction triggered generalizing acc acc' with
  | nil =>
      cases hs
      cases hs'
      exact ⟨h, hlast⟩
  | cons stop rest ih =>
      obtain ⟨acc₂, hone, hs⟩ := Option.bind_eq_some_iff.mp hs
      obtain ⟨acc₂', hone', hs'⟩ := Option.bind_eq_some_iff.mp hs'
      obtain ⟨⟨ex₁, r⟩, hsub, heq⟩ := Option.bind_eq_some_iff.mp hone
      obtain ⟨⟨ex₁', r'⟩, hsub', heq'⟩ := Option.bind_eq_some_iff.mp hone'
      cases heq
      cases heq'
      have hsure : ∀ ex : Exchange, ex.Sure stop.submission := fun _ _ ↦
        onTarget_of_owner_none (submission_owner stop)
      obtain ⟨hal, rfl⟩ := h.submit (hsure _) (hsure _) hsub hsub'
      exact ih hal (by rw [hlast]) hs hs'

/-- One round of triggers: both cascades stop there, or both go on. -/
theorem triggerRound {x x' : Exchange ⊕ Exchange} (hx : ex.triggerRound fuel = some x)
    (hx' : ex'.triggerRound fuel' = some x') :
    (∃ ex₁ ex₁', x = .inl ex₁ ∧ x' = .inl ex₁' ∧ Alike n ex₁ ex₁') ∨
      ∃ ex₁ ex₁', x = .inr ex₁ ∧ x' = .inr ex₁' ∧ Alike n ex₁ ex₁' := by
  cases hp : ex.lastTradePrice with
  | none =>
      have hp' : ex'.lastTradePrice = none := h.lastTradePrice ▸ hp
      simp only [Exchange.triggerRound, hp, hp'] at hx hx'
      cases hx
      cases hx'
      exact .inl ⟨ex, ex', rfl, rfl, h⟩
  | some p =>
      have hp' : ex'.lastTradePrice = some p := h.lastTradePrice ▸ hp
      obtain ⟨hcol, heq⟩ := h.collectTriggered p
      simp only [Exchange.triggerRound, hp, hp', ← heq] at hx hx'
      split_ifs at hx hx' with hempty
      · cases hx
        cases hx'
        exact .inl ⟨_, _, rfl, rfl, hcol⟩
      · obtain ⟨acc, hfold, hx⟩ := Option.bind_eq_some_iff.mp hx
        obtain ⟨acc', hfold', hx'⟩ := Option.bind_eq_some_iff.mp hx'
        have hrun : Alike n acc.1 acc'.1 ∧ acc.2 = acc'.2 :=
          foldlM_submitTriggered (by exact hcol) (by rfl) hfold hfold'
        obtain ⟨hacc, hlast⟩ := hrun
        rw [← hlast] at hx'
        cases hq : acc.2 with
        | none =>
            simp only [hq] at hx hx'
            cases hx
            cases hx'
            exact .inl ⟨_, _, rfl, rfl, hacc⟩
        | some q =>
            simp only [hq] at hx hx'
            cases hx
            cases hx'
            exact .inr ⟨_, _, rfl, rfl, hacc.setLastTradePrice (some q)⟩

theorem triggerRounds {rounds : Nat} (hs : triggerRounds fuel rounds ex = some ex₁)
    (hs' : triggerRounds fuel' rounds ex' = some ex₁') : Alike n ex₁ ex₁' := by
  induction rounds generalizing ex ex' with
  | zero =>
      cases hs
      cases hs'
      exact h
  | succ rounds ih =>
      obtain ⟨x, hx, hs⟩ := Option.bind_eq_some_iff.mp hs
      obtain ⟨x', hx', hs'⟩ := Option.bind_eq_some_iff.mp hs'
      rcases h.triggerRound hx hx' with ⟨ex₂, ex₂', rfl, rfl, hal⟩ | ⟨ex₂, ex₂', rfl, rfl, hal⟩
      · cases hs
        cases hs'
        exact hal
      · exact ih hal hs hs'

theorem onTrades {trades : List Trade} (hs : ex.onTrades fuel trades = some ex₁)
    (hs' : ex'.onTrades fuel' trades = some ex₁') : Alike n ex₁ ex₁' := by
  simp only [Exchange.onTrades] at hs hs'
  cases ht : trades.getLast? with
  | none =>
      simp only [ht] at hs hs'
      cases hs
      cases hs'
      exact h
  | some last =>
      simp only [ht] at hs hs'
      exact (h.setLastTradePrice (some last.price)).triggerRounds hs hs'

/-! ## Stop orders -/

theorem insertStop (order : StopOrder) (hid : order.id = ex.book.nextOrderId) :
    Alike n (ex.insertStop order) (ex'.insertStop order) := by
  have hback : ∀ {ex : Exchange}, ex.Backed → order.id = ex.book.nextOrderId →
      (ex.insertStop order).Backed := fun hb hid ↦
    Atom.backed (K := fun _ ↦ True) (P := fun _ _ ↦ False) (Q := fun _ _ ↦ False)
      (fun _ _ hp ↦ hp.elim) (fun _ _ hq ↦ hq.elim) (.insertStop hid) hb
  have hshown :
    ∀ (ex : Exchange) (s : Side), (ex.insertStop order).book.shown s = ex.book.shown s :=
    fun ex s ↦ OrderBook.shown_eq_of_side (by cases s <;> rfl) fun _ _ _ ↦ rfl
  refine ⟨hback h.backed hid, hback h.backed' (hid.trans h.book.nextOrderId), ?_,
    h.stopBook.insert order, h.trades, h.lastTradePrice, h.stpPolicy,
    h.le_nextOrderId.trans (Nat.le_succ _)⟩
  refine ⟨fun s ↦ ?_, h.book.active, congrArg (· + 1) h.book.nextOrderId, h.book.nextTradeId,
    congrArg (· + 1) h.book.nextTimestamp⟩
  rw [hshown, hshown, h.book.shown]

theorem insertStopOrder {side : Side} {stopPrice : Price} {limitPrice : Option Price} {q : Quantity}
    {tif : TimeInForce} {trailMethod : Option TrailMethod} {r r' : StopSubmitResult}
    (hs : ex.insertStopOrder fuel side stopPrice limitPrice q tif trailMethod = some (ex₁, r))
    (hs' : ex'.insertStopOrder fuel' side stopPrice limitPrice q tif trailMethod =
        some (ex₁', r')) :
    Alike n ex₁ ex₁' ∧ r = r' := by
  have horder : ex'.nextStop side stopPrice limitPrice q tif trailMethod =
      ex.nextStop side stopPrice limitPrice q tif trailMethod := by
    simp only [nextStop, h.book.nextOrderId, h.book.nextTimestamp]
  have hins := h.insertStop (ex.nextStop side stopPrice limitPrice q tif trailMethod) rfl
  have htrigger : ∀ order, ((ex'.insertStop order).shouldTrigger order) =
      ((ex.insertStop order).shouldTrigger order) := by
    intro order
    simp only [shouldTrigger, Exchange.insertStop, h.lastTradePrice]
  simp only [Exchange.insertStopOrder] at hs hs'
  rw [horder, htrigger] at hs'
  split_ifs at hs hs' with hnow
  · obtain ⟨ex₂, hrounds, heq⟩ := Option.bind_eq_some_iff.mp hs
    obtain ⟨ex₂', hrounds', heq'⟩ := Option.bind_eq_some_iff.mp hs'
    cases heq
    cases heq'
    have hal := hins.triggerRounds hrounds hrounds'
    refine ⟨hal, ?_⟩
    have hget := hal.stopBook.later ex.book.nextOrderId h.le_nextOrderId
    simp only [StopBook.get, nextStop, hget]
  · cases hs
    cases hs'
    exact ⟨hins, rfl⟩

/-! ## Cancelling and modifying -/

theorem stop_cancel (id : OrderId) : Alike n { ex with stopBook := ex.stopBook.cancel id }
    { ex' with stopBook := ex'.stopBook.cancel id } :=
  h.setStopBook (ex.stopBook.tame_cancel id) (ex'.stopBook.tame_cancel id) (h.stopBook.cancel id)

section Rests

variable {id : OrderId} {o : Order} (ho : ex.book.orders.get? id = some o) (ha : o.isActive = true)

include ho ha

/-- An order that rests in one book rests in the other. -/
theorem exists_order :
    ∃ o', ex'.book.orders.get? id = some o' ∧ o'.isActive = true ∧ o'.unplaced = o.unplaced := by
  have hactive := h.book.active id
  rw [activeIn_of_get? ho ha] at hactive
  exact activeIn_eq_some hactive.symm

omit ha in
theorem cancelOrder (ht : ex.book.Targets id) (ht' : ex'.book.Targets id) :
    Alike n { ex with book := (ex.book.cancelOrder id).1 }
      { ex' with book := (ex'.book.cancelOrder id).1 } := by
  have hid : id ≠ 0 := Nat.pos_iff_ne_zero.mp (h.backed.wf.book.stored id o ho).2.1
  have hback : ∀ {ex : Exchange}, ex.Backed → ex.book.Targets id →
      Backed { ex with book := (ex.book.cancelOrder id).1 } := fun {ex} hb ht ↦
    Atom.backed (K := fun _ ↦ True) (P := fun _ _ ↦ False) (Q := fun ex id ↦ ex.book.Targets id)
      (fun _ _ hp ↦ hp.elim) (fun _ _ hq ↦ hq) (.cancelOrder ht) hb
  obtain ⟨hbook, -⟩ := h.book.cancelOrder h.backed.stocked h.backed'.stocked hid ht ht'
  refine ⟨hback h.backed ht, hback h.backed' ht', hbook, h.stopBook, h.trades, h.lastTradePrice,
    h.stpPolicy, ?_⟩
  rw [show (ex.book.cancelOrder id).1.nextOrderId = ex.book.nextOrderId from
    (ex.book.shrinks_cancelOrder id).nextOrderId]
  exact h.le_nextOrderId

omit h in
theorem cancelInternal_of_rests (hp : ex.stopBook.containsPending id = false) :
    ex.cancelInternal id =
      ({ ex with book := (ex.book.cancelOrder id).1 }, .succeeded o.remainingQuantity) := by
  simp only [Exchange.cancelInternal, hp, OrderBook.getOrder, ho, ha, if_true,
    OrderBook.cancelOrder_of_active ho ha]

/-- A cancellation of a resting order. -/
theorem cancelInternal (hp : ex.stopBook.containsPending id = false) (ht : ex.book.Targets id)
    (ht' : ex'.book.Targets id) : Alike n (ex.cancelInternal id).1 (ex'.cancelInternal id).1 ∧
      (ex.cancelInternal id).2 = (ex'.cancelInternal id).2 := by
  obtain ⟨o', ho', ha', heq⟩ := h.exists_order ho ha
  obtain ⟨-, -, -, hrem⟩ := Order.of_unplaced_eq heq
  have hp' : ex'.stopBook.containsPending id = false := h.stopBook.containsPending id ▸ hp
  rw [cancelInternal_of_rests ho ha hp, cancelInternal_of_rests ho' ha' hp', hrem]
  exact ⟨h.cancelOrder ho ht ht', rfl⟩

omit h in
theorem modifyInternal_of_rests {p : Price} {q : Quantity} (hq : q ≠ 0) :
    ex.modifyInternal fuel id p q =
      (({ ex with book := (ex.book.cancelOrder id).1 } : Exchange).submitLimitInternalWithOwner fuel
        ⟨o.side, p, q, o.timeInForce, none⟩).bind fun x ↦
          some (x.1, .succeeded id x.2.orderId o.remainingQuantity x.2.trades) := by
  simp only [Exchange.modifyInternal, hq, if_false, OrderBook.getOrder, ho, ha, if_true,
    OrderBook.cancelOrder_of_active ho ha]
  rfl

/-- A modification of a resting order.  A quantity of zero is refused before anything is
cancelled. -/
theorem modifyInternal {p : Price} {q : Quantity} {r r' : ModifyResult}
    (ht : q ≠ 0 → ex.book.Targets id) (ht' : q ≠ 0 → ex'.book.Targets id)
    (hs : ex.modifyInternal fuel id p q = some (ex₁, r))
    (hs' : ex'.modifyInternal fuel' id p q = some (ex₁', r')) : Alike n ex₁ ex₁' ∧ r = r' := by
  by_cases hq : q = 0
  · simp only [Exchange.modifyInternal, hq, if_true] at hs hs'
    cases hs
    cases hs'
    exact ⟨h, rfl⟩
  · obtain ⟨o', ho', ha', heq⟩ := h.exists_order ho ha
    obtain ⟨-, hside, -, hrem⟩ := Order.of_unplaced_eq heq
    have htif : o'.timeInForce = o.timeInForce := by
      rw [← o'.unplaced_timeInForce, heq, o.unplaced_timeInForce]
    rw [modifyInternal_of_rests ho ha hq] at hs
    rw [modifyInternal_of_rests ho' ha' hq, hside, htif, hrem] at hs'
    obtain ⟨⟨ex₂, y⟩, hsub, heq₁⟩ := Option.bind_eq_some_iff.mp hs
    obtain ⟨⟨ex₂', y'⟩, hsub', heq₁'⟩ := Option.bind_eq_some_iff.mp hs'
    cases heq₁
    cases heq₁'
    have hsure : ∀ ex : Exchange, ex.Sure ⟨o.side, p, q, o.timeInForce, none⟩ := fun _ _ ↦
      onTarget_of_owner_none rfl
    obtain ⟨hal, rfl⟩ := (h.cancelOrder ho (ht hq) (ht' hq)).submit (hsure _) (hsure _) hsub hsub'
    exact ⟨hal, rfl⟩

end Rests

omit h in
theorem cancelInternal_of_pending {id : OrderId} {stop : StopOrder}
    (hp : ex.stopBook.Pending id stop) : ex.cancelInternal id =
      ({ ex with stopBook := ex.stopBook.cancel id }, .succeeded stop.quantity) := by
  have hcontains : ex.stopBook.containsPending id = true :=
    StopBook.containsPending_iff.mpr ⟨stop, hp⟩
  have hget : ex.stopBook.get id = some stop := hp.1
  simp only [Exchange.cancelInternal, hcontains, hget]

/-- A cancellation of a pending stop. -/
theorem cancelInternal_stop {id : OrderId} (hp : ex.stopBook.containsPending id = true) :
    Alike n (ex.cancelInternal id).1 (ex'.cancelInternal id).1 ∧
      (ex.cancelInternal id).2 = (ex'.cancelInternal id).2 := by
  obtain ⟨stop, hstop⟩ := StopBook.containsPending_iff.mp hp
  rw [cancelInternal_of_pending hstop,
    cancelInternal_of_pending ((h.stopBook.pending id stop).mp hstop)]
  exact ⟨h.stop_cancel id, rfl⟩

end Alike

end Exchange

end Nanobook
