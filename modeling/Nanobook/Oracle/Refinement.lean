import Nanobook.Oracle.Resting
import Nanobook.Refinement

/-!
# The matching of the oracle refines price-time priority

On a stocked book the oracle's matching returns and does what `walk` says, as that of the exchange
does.  It needs no assumption on where an order is recorded: an order that is cancelled on the way
is looked up by its id.
-/

namespace Nanobook.Oracle

namespace Book

/-- The walk of the level at `p` is past the ids `past` and about to look at the ids `ids`, unless
there is nothing active among them any more. -/
def Reached (b : Book) (s : Side) (p : Price) (past ids : List OrderId) : Prop :=
  activeOrders b.orders ids = [] ∨
    activeOrders b.orders past = [] ∧ ∃ q rest, b.levels s = ⟨p, q, past ++ ids⟩ :: rest

variable {b : Book} {s : Side} {p : Price} {q : Int} {past ids : List OrderId} {id : OrderId}
  {o : Order} {rest : List PriceLevel} {next : OrderId}

theorem Reached.skip (h : b.Reached s p past (id :: ids))
    (hid : ∀ o, b.orders.get? id = some o → o.isActive = false) :
    b.Reached s p (past ++ [id]) ids := by
  rcases h with hnil | ⟨hpast, q, rest, hlevels⟩
  · left
    rwa [activeOrders_cons_of_inactive hid] at hnil
  · right
    refine ⟨activeOrders_concat_of_inactive hpast hid, q, rest, ?_⟩
    rw [hlevels, List.append_cons]

theorem Reached.front (h : b.Reached s p past (o.id :: ids)) (hst : b.Stocked next)
    (ho : b.orders.get? o.id = some o) (ha : o.isActive = true) :
    ∃ q rest, b.Front next s p q past o ids rest := by
  rcases h with hnil | ⟨hpast, q, rest, hlevels⟩
  · rw [activeOrders_cons_of_active ho ha] at hnil
    cases hnil
  · exact ⟨q, rest, hst, hlevels, hpast, ho, ha⟩

/-- Once the first active order is gone the walk is one id further. -/
theorem Front.reached (h : b.Front next s p q past o ids rest) {o' : Order} (hid : o'.id = o.id)
    (ha : o'.isActive = false) :
    ((b.storeOrder o').removeFrom s p o.remainingQuantity).Reached s p (past ++ [o.id]) ids := by
  obtain ⟨hpast, hids⟩ := h.activeOrders_insert_self o'
  rw [ha] at hpast
  rw [Reached, h.levels_take o' le_rfl, orders_removeFrom, storeOrder, hid]
  by_cases hq : q = o.remainingQuantity
  · left
    have hsum := h.quantity_eq
    have hzero : remainingSum (activeOrders b.orders ids) = 0 := by lia
    rw [remainingSum_eq_zero_iff] at hzero
    · rw [hids, hzero]
    · intro x hx
      refine (h.first.order x ?_).2.2
      rw [h.activeOrders_eq]
      exact List.mem_cons_of_mem _ hx
  · right
    refine ⟨hpast, q - o.remainingQuantity, rest, ?_⟩
    rw [if_neg hq, List.append_cons]

end Book

/-! ## Actions -/

namespace MatchState

def ledger (s : MatchState) : Ledger :=
  ⟨s.book.orders, s.book.nextTradeId, s.book.nextTimestamp, s.incoming, s.result.trades⟩

/-- The side the incoming order trades against. -/
def otherSide (s : MatchState) : Side := s.incoming.side.opposite

/-- The walk from the current state of the match. -/
def walkFrom (policy : StpPolicy) (s : MatchState) : Walk (List RestingLevel) :=
  walk policy s.incoming.owner s.incoming.side s.incoming.price (s.book.resting s.otherSide)
    s.incoming.remainingQuantity

/-- What a match has still to do at most. -/
def size (s : MatchState) : Nat :=
  s.incoming.remainingQuantity + queued (s.book.resting s.otherSide)

/-- `s'` is `s` after the action `a`, which leaves `levels` on the other side. -/
structure Acts (next : OrderId) (s s' : MatchState) (a : Action) (levels : List RestingLevel) :
    Prop where
  ledger : s'.ledger = s.ledger.act a
  stocked : s'.book.Stocked next
  resting : s'.book.resting s.otherSide = levels
  own : s'.book.resting s.incoming.side = s.book.resting s.incoming.side
  nextOrderId : s'.book.nextOrderId = s.book.nextOrderId

variable {policy : StpPolicy} {s s' : MatchState} {p : Price} {q : Int} {past ids : List OrderId}
  {o : Order} {rest : List PriceLevel} {next : OrderId} {a : Action} {levels : List RestingLevel}

theorem Acts.incoming (h : Acts next s s' a levels) : s'.incoming = (s.ledger.act a).incoming :=
  congrArg Ledger.incoming h.ledger

/-- After an action the walk goes on from the levels it leaves. -/
theorem Acts.walkFrom_eq (h : Acts next s s' a levels) :
    s'.walkFrom policy = walk policy s.incoming.owner s.incoming.side s.incoming.price levels
      (s.ledger.act a).incoming.remainingQuantity := by
  have hinc := h.incoming
  have hsame : s'.incoming.owner = s.incoming.owner ∧ s'.incoming.side = s.incoming.side ∧
      s'.incoming.price = s.incoming.price := by
    rw [hinc]
    cases a <;> exact ⟨rfl, rfl, rfl⟩
  rw [walkFrom, otherSide, hsame.1, hsame.2.1, hsame.2.2]
  rw [show s'.book.resting s.incoming.side.opposite = levels from h.resting, hinc]

/-- The other side as the walk sees it from the first active order on. -/
theorem walkFrom_eq (h : s.book.Front next s.otherSide p q past o ids rest) :
    s.walkFrom policy = walk policy s.incoming.owner s.incoming.side s.incoming.price
      (⟨p, q.toNat, o :: activeOrders s.book.orders ids⟩ ::
        rest.map (PriceLevel.resting s.book.orders))
      s.incoming.remainingQuantity := by
  rw [walkFrom, h.resting_eq]

theorem acts_cancelResting (h : s.book.Front next s.otherSide p q past o ids rest) :
    Acts next s (s.cancelResting p o) (.cancel o) (dropFirst p q.toNat o
      (activeOrders s.book.orders ids) (rest.map (PriceLevel.resting s.book.orders))) := by
  have hid : o.cancel.id = o.id := rfl
  obtain ⟨hst, hrest⟩ := h.drop hid rfl
  refine ⟨?_, hst, hrest, ?_, ?_⟩
  · simp only [ledger, cancelResting, Book.orders_removeFrom, Book.nextTradeId_removeFrom,
      Book.nextTimestamp_removeFrom]
    rfl
  · exact h.resting_take_of_ne hid s.incoming.side.ne_opposite
  · exact Book.nextOrderId_removeFrom _ _ _ _

/-- The book a trade is stored in: it has been numbered, and the clock has moved. -/
def tick (b : Book) : Book :=
  { b with nextTradeId := b.nextTradeId + 1, nextTimestamp := b.nextTimestamp + 1 }

theorem levels_tick (b : Book) (t : Side) : (tick b).levels t = b.levels t := by
  cases t <;> rfl

theorem front_tick (h : s.book.Front next s.otherSide p q past o ids rest) :
    (tick s.book).Front next s.otherSide p q past o ids rest :=
  ⟨h.stocked.of_counters (levels_tick s.book) rfl, (levels_tick _ _).trans h.levels, h.past,
    h.stored, h.active⟩

theorem ledger_fillResting (s : MatchState) (p : Price) (o : Order) (hp : o.price = p) :
    (s.fillResting p o).ledger = s.ledger.act
      (.fill o (Nat.min s.incoming.remainingQuantity o.remainingQuantity)) := by
  subst hp
  simp only [ledger, fillResting, Book.orders_removeFrom, Book.nextTradeId_removeFrom,
    Book.nextTimestamp_removeFrom]
  rfl

theorem own_fillResting (h : s.book.Front next s.otherSide p q past o ids rest) :
    (s.fillResting p o).book.resting s.incoming.side = s.book.resting s.incoming.side := by
  have hid (n : Quantity) : (o.fill n).id = o.id := rfl
  exact ((front_tick h).resting_take_of_ne (hid _) s.incoming.side.ne_opposite).trans
    (Book.resting_of_counters (levels_tick _ _) rfl)

theorem isActive_fill_all (o : Order) : (o.fill o.remainingQuantity).isActive = false := by
  simp [Order.fill, Order.isActive, OrderStatus.isActive]

theorem reached_fillResting (h : s.book.Front next s.otherSide p q past o ids rest)
    (hle : o.remainingQuantity ≤ s.incoming.remainingQuantity) :
    (s.fillResting p o).book.Reached s.otherSide p (past ++ [o.id]) ids := by
  have hmin : Nat.min s.incoming.remainingQuantity o.remainingQuantity = o.remainingQuantity :=
    Nat.min_eq_right hle
  have hid : (o.fill o.remainingQuantity).id = o.id := rfl
  simp only [fillResting, hmin]
  exact (front_tick h).reached hid (isActive_fill_all o)

theorem acts_fillResting (h : s.book.Front next s.otherSide p q past o ids rest)
    (hle : o.remainingQuantity ≤ s.incoming.remainingQuantity) :
    Acts next s (s.fillResting p o) (.fill o o.remainingQuantity) (dropFirst p q.toNat o
      (activeOrders s.book.orders ids) (rest.map (PriceLevel.resting s.book.orders))) := by
  have hmin : Nat.min s.incoming.remainingQuantity o.remainingQuantity = o.remainingQuantity :=
    Nat.min_eq_right hle
  have hledger := ledger_fillResting s p o h.order.2.1
  have hown := own_fillResting h
  have hid : (o.fill o.remainingQuantity).id = o.id := rfl
  obtain ⟨hst, hrest⟩ := (front_tick h).drop hid (isActive_fill_all o)
  rw [hmin] at hledger
  refine ⟨hledger, ?_, ?_, hown, Book.nextOrderId_removeFrom _ _ _ _⟩
  · simp only [fillResting, hmin]
    exact hst
  · simp only [fillResting, hmin]
    exact hrest

theorem acts_fillResting_part (h : s.book.Front next s.otherSide p q past o ids rest)
    (hlt : s.incoming.remainingQuantity < o.remainingQuantity) :
    Acts next s (s.fillResting p o) (.fill o s.incoming.remainingQuantity)
      (⟨p, q.toNat - s.incoming.remainingQuantity,
        o.fill s.incoming.remainingQuantity :: activeOrders s.book.orders ids⟩ ::
          rest.map (PriceLevel.resting s.book.orders)) := by
  have hmin : Nat.min s.incoming.remainingQuantity o.remainingQuantity =
      s.incoming.remainingQuantity := Nat.min_eq_left hlt.le
  have hledger := ledger_fillResting s p o h.order.2.1
  have hown := own_fillResting h
  obtain ⟨hst, hrest⟩ := (front_tick h).shrink hlt
  rw [hmin] at hledger
  refine ⟨hledger, ?_, ?_, hown, Book.nextOrderId_removeFrom _ _ _ _⟩
  · simp only [fillResting, hmin]
    exact hst
  · simp only [fillResting, hmin]
    exact hrest

end MatchState

/-! ## The walk of a queue -/

section Queue

variable {policy : StpPolicy} {s s' s₀ : MatchState} {p : Price} {q : Int}
  {past ids : List OrderId} {o : Order} {rest : List PriceLevel} {next : OrderId}
  {done : List Action}

theorem processOrders_of_zero (h : s.incoming.remainingQuantity = 0) (ids : List OrderId) :
    processOrders policy p ids s = s := by
  cases ids with
  | nil => rfl
  | cons id ids => rw [processOrders, if_pos h]

/-- An id whose order is not active is passed over. -/
theorem processOrders_cons_of_inactive {id : OrderId}
    (h : ∀ o, s.book.orders.get? id = some o → o.isActive = false) (ids : List OrderId) :
    processOrders policy p (id :: ids) s = processOrders policy p ids s := by
  by_cases hr : s.incoming.remainingQuantity = 0
  · rw [processOrders_of_zero hr, processOrders_of_zero hr]
  · rw [processOrders, if_neg hr]
    cases hget : s.book.getOrder id with
    | none => rfl
    | some o => simp [h o hget]

theorem processOrders_cons_of_active (ho : s.book.orders.get? o.id = some o)
    (ha : o.isActive = true) (hr : s.incoming.remainingQuantity ≠ 0) (ids : List OrderId) :
    processOrders policy p (o.id :: ids) s =
      if stpConflict policy s.incoming.owner o.owner then
        if cancelsIncoming policy s.incoming.remainingQuantity o.remainingQuantity then
          s.cancelIncoming
        else processOrders policy p ids (s.cancelResting p o)
      else processOrders policy p ids (s.fillResting p o) := by
  have hget : s.book.getOrder o.id = some o := ho
  have hfill : (if (s.fillResting p o).incoming.remainingQuantity > 0 then
      processOrders policy p ids (s.fillResting p o) else s.fillResting p o) =
        processOrders policy p ids (s.fillResting p o) := by
    split_ifs with hpos
    · rfl
    · exact (processOrders_of_zero (Nat.eq_zero_of_not_pos hpos) ids).symm
  simp only [processOrders, if_neg hr, hget, ha, hfill]
  cases policy with
  | off => simp [stpConflict]; split <;> simp
  | cancelNewest => simp [cancelsIncoming]
  | cancelOldest => simp [cancelsIncoming]
  | decrementAndCancel => simp [cancelsIncoming]

/-- What the walk does at the first active order: it is one action, or self-trade prevention ends
the match. -/
theorem processOrders_acts (h : s.book.Front next s.otherSide p q past o ids rest)
    (hx : pricesCross s.incoming.side s.incoming.price p = true)
    (hr : s.incoming.remainingQuantity ≠ 0) :
    (processOrders policy p (o.id :: ids) s = s.cancelIncoming ∧
        s.walkFrom policy = ⟨[], s.incoming.remainingQuantity, true, s.book.resting s.otherSide⟩) ∨
      ∃ s' a levels, processOrders policy p (o.id :: ids) s = processOrders policy p ids s' ∧
        MatchState.Acts next s s' a levels ∧ s.walkFrom policy = (s'.walkFrom policy).cons a ∧
        (s'.incoming.remainingQuantity = 0 ∨
          s'.book.Reached s.otherSide p (past ++ [o.id]) ids) ∧
        s'.incoming.remainingQuantity + queued levels < s.size := by
  have hpos := h.order.2.2
  have hqueued := queued_dropFirst p q.toNat o (activeOrders s.book.orders ids)
    (rest.map (PriceLevel.resting s.book.orders))
  have hsize : s.size = s.incoming.remainingQuantity +
      queued (⟨p, q.toNat, o :: activeOrders s.book.orders ids⟩ ::
        rest.map (PriceLevel.resting s.book.orders)) := by
    rw [MatchState.size, h.resting_eq]
  rw [processOrders_cons_of_active h.stored h.active hr]
  cases hc : stpConflict policy s.incoming.owner o.owner with
  | true =>
      cases hi : cancelsIncoming policy s.incoming.remainingQuantity o.remainingQuantity with
      | true =>
          refine .inl ⟨rfl, ?_⟩
          rw [MatchState.walkFrom_eq h, walk_stp _ _ _ hx hr hc hi, h.resting_eq]
      | false =>
          have hacts := MatchState.acts_cancelResting h
          have hid : o.cancel.id = o.id := rfl
          refine .inr ⟨_, _, _, rfl, hacts, ?_, .inr (h.reached hid rfl), ?_⟩
          · rw [MatchState.walkFrom_eq h, walk_cancel _ _ _ hx hr hc hi, hacts.walkFrom_eq]
            rfl
          · rw [hsize]
            exact Nat.add_lt_add_left hqueued _
  | false =>
      by_cases hle : o.remainingQuantity ≤ s.incoming.remainingQuantity
      · have hacts := MatchState.acts_fillResting h hle
        refine .inr ⟨_, _, _, rfl, hacts, ?_, .inr (MatchState.reached_fillResting h hle), ?_⟩
        · rw [MatchState.walkFrom_eq h, walk_fill _ _ _ hx hr hc hle, hacts.walkFrom_eq]
          rfl
        · rw [hsize, hacts.incoming]
          exact Nat.add_lt_add_of_le_of_lt (Nat.sub_le _ _) hqueued
      · have hlt := not_le.mp hle
        have hacts := MatchState.acts_fillResting_part h hlt
        have hzero : (s.fillResting p o).incoming.remainingQuantity = 0 := by
          rw [hacts.incoming]
          exact Nat.sub_self _
        refine .inr ⟨_, _, _, rfl, hacts, ?_, .inl hzero, ?_⟩
        · rw [MatchState.walkFrom_eq h, walk_part _ _ _ hx hr hc hle, hacts.walkFrom_eq,
            ← hacts.incoming, hzero, walk_zero]
          rfl
        · rw [hzero, hsize]
          simp only [queued_cons, List.length_cons]
          lia

end Queue

/-! ## The loops -/

/-- `s` is `s₀` after the actions `done`, with the rest of the walk from `s₀` still to come. -/
structure Sim (next : OrderId) (policy : StpPolicy) (s₀ s : MatchState) (done : List Action) :
    Prop where
  ledger : s.ledger = s₀.ledger.acts done
  walk : s₀.walkFrom policy = (s.walkFrom policy).append done
  stocked : s.book.Stocked next
  own : s.book.resting s₀.incoming.side = s₀.book.resting s₀.incoming.side
  nextOrderId : s.book.nextOrderId = s₀.book.nextOrderId
  incoming : s₀.incoming.SameOrder s.incoming

/-- `r` is the outcome of the walk from `s₀`. -/
structure Matches (next : OrderId) (policy : StpPolicy) (s₀ r : MatchState) : Prop where
  trades : r.result.trades = (s₀.ledger.acts (s₀.walkFrom policy).actions).trades
  nextTradeId :
    r.book.nextTradeId = (s₀.ledger.acts (s₀.walkFrom policy).actions).nextTradeId
  nextTimestamp :
    r.book.nextTimestamp = (s₀.ledger.acts (s₀.walkFrom policy).actions).nextTimestamp
  remainingQuantity : r.incoming.remainingQuantity =
    if (s₀.walkFrom policy).stp then 0 else (s₀.walkFrom policy).left
  resting : r.book.resting s₀.otherSide = (s₀.walkFrom policy).rest
  stocked : r.book.Stocked next
  own : r.book.resting s₀.incoming.side = s₀.book.resting s₀.incoming.side
  nextOrderId : r.book.nextOrderId = s₀.book.nextOrderId

section Loops

variable {policy : StpPolicy} {s s' s₀ : MatchState} {p : Price} {past ids : List OrderId}
  {done : List Action} {a : Action} {levels : List RestingLevel}

theorem Sim.refl (h : s₀.book.Stocked next) : Sim next policy s₀ s₀ [] :=
  ⟨rfl, rfl, h, rfl, rfl, .refl _⟩

theorem Sim.otherSide (h : Sim next policy s₀ s done) : s.otherSide = s₀.otherSide := by
  rw [MatchState.otherSide, MatchState.otherSide, h.incoming.side]

theorem Sim.acts (h : Sim next policy s₀ s done) (ha : MatchState.Acts next s s' a levels)
    (hw : s.walkFrom policy = (s'.walkFrom policy).cons a) :
    Sim next policy s₀ s' (done ++ [a]) where
  ledger := by rw [ha.ledger, h.ledger, Ledger.acts, Ledger.acts, List.foldl_append]; rfl
  walk := by rw [h.walk, hw, Walk.append_cons]
  stocked := ha.stocked
  own := by rw [← h.own, ← h.incoming.side]; exact ha.own
  nextOrderId := ha.nextOrderId.trans h.nextOrderId
  incoming := by
    rw [ha.incoming]
    refine h.incoming.trans ?_
    cases a with
    | fill o q => exact Order.sameOrder_fill _ q
    | cancel o => exact .refl _

/-- Where the walk has nothing more to do, the match is over. -/
theorem Sim.matches (h : Sim next policy s₀ s done) (hw : s.walkFrom policy =
    ⟨[], s.incoming.remainingQuantity, false, s.book.resting s.otherSide⟩) :
    Matches next policy s₀ s := by
  have hw₀ := h.walk
  rw [hw, Walk.append, List.append_nil] at hw₀
  have hledger := h.ledger
  refine ⟨?_, ?_, ?_, ?_, ?_, h.stocked, h.own, h.nextOrderId⟩
  · rw [hw₀]; exact congrArg Ledger.trades hledger
  · rw [hw₀]; exact congrArg Ledger.nextTradeId hledger
  · rw [hw₀]; exact congrArg Ledger.nextTimestamp hledger
  · rw [hw₀]; rfl
  · rw [hw₀, h.otherSide]

/-- Where self-trade prevention cancels the incoming order, the match is over. -/
theorem Sim.matches_stp (h : Sim next policy s₀ s done) (hw : s.walkFrom policy =
    ⟨[], s.incoming.remainingQuantity, true, s.book.resting s.otherSide⟩) :
    Matches next policy s₀ s.cancelIncoming := by
  have hw₀ := h.walk
  rw [hw, Walk.append, List.append_nil] at hw₀
  have hledger := h.ledger
  refine ⟨?_, ?_, ?_, ?_, ?_, h.stocked, h.own, h.nextOrderId⟩
  · rw [hw₀]; exact congrArg Ledger.trades hledger
  · rw [hw₀]; exact congrArg Ledger.nextTradeId hledger
  · rw [hw₀]; exact congrArg Ledger.nextTimestamp hledger
  · rw [hw₀]; rfl
  · rw [hw₀, ← h.otherSide]; rfl

/-- The walk of a queue leaves the match over, or further on. -/
theorem Sim.processOrders (h : Sim next policy s₀ s done)
    (hx : pricesCross s₀.incoming.side s₀.incoming.price p = true)
    (hreached : s.incoming.remainingQuantity = 0 ∨ s.book.Reached s₀.otherSide p past ids) :
    (Matches next policy s₀ (processOrders policy p ids s) ∧
        (processOrders policy p ids s).incoming.remainingQuantity = 0) ∨
      ∃ done', Sim next policy s₀ (processOrders policy p ids s) done' ∧
        (processOrders policy p ids s).size ≤ s.size ∧
        (s.incoming.remainingQuantity ≠ 0 → activeOrders s.book.orders ids ≠ [] →
          (processOrders policy p ids s).size < s.size) := by
  induction ids generalizing s done past with
  | nil => exact .inr ⟨done, h, le_rfl, fun _ hne ↦ absurd rfl hne⟩
  | cons id ids ih =>
      by_cases hr : s.incoming.remainingQuantity = 0
      · rw [processOrders_of_zero hr]
        exact .inr ⟨done, h, le_rfl, fun hne _ ↦ absurd hr hne⟩
      have hat := hreached.resolve_left hr
      by_cases hactive : ∃ o, s.book.orders.get? id = some o ∧ o.isActive = true
      · obtain ⟨o, ho, ha⟩ := hactive
        obtain rfl := h.stocked.stored id o ho
        obtain ⟨q, rest, hfront⟩ := hat.front h.stocked ho ha
        rw [← h.otherSide] at hfront
        have hx' : pricesCross s.incoming.side s.incoming.price p = true := by
          rw [h.incoming.side, h.incoming.price]
          exact hx
        rcases processOrders_acts hfront hx' hr with
          ⟨heq, hw⟩ | ⟨s', a, levels, heq, hacts, hw, hnext, hlt⟩
        · left
          rw [heq]
          exact ⟨h.matches_stp hw, rfl⟩
        · have hsim := h.acts hacts hw
          have hsize : s'.size < s.size := by
            rwa [MatchState.size, hsim.otherSide, ← h.otherSide, hacts.resting]
          rw [heq]
          rw [h.otherSide] at hnext
          refine (ih hsim hnext).imp_right ?_
          rintro ⟨done', hsim', hle, -⟩
          exact ⟨done', hsim', hle.trans hsize.le, fun _ _ ↦ hle.trans_lt hsize⟩
      · have hskip : ∀ o, s.book.orders.get? id = some o → o.isActive = false := by
          intro o ho
          by_contra hne
          exact hactive ⟨o, ho, by simpa using hne⟩
        rw [processOrders_cons_of_inactive hskip, activeOrders_cons_of_inactive hskip]
        exact ih h (.inr (hat.skip hskip))

/-- One pass of the outer loop: the match is over, or further on in the walk. -/
theorem Sim.outerPass (h : Sim next policy s₀ s done) :
    (matchOrderBody policy s = .inl s ∧ Matches next policy s₀ s) ∨
      ∃ s', matchOrderBody policy s = .inr s' ∧
        ((Matches next policy s₀ s' ∧ s'.incoming.remainingQuantity = 0) ∨
          ∃ done', Sim next policy s₀ s' done' ∧ s'.size < s.size) := by
  by_cases hr : s.incoming.remainingQuantity = 0
  · refine .inl ⟨by rw [matchOrderBody, if_pos hr], h.matches ?_⟩
    rw [MatchState.walkFrom, hr, walk_zero]
  cases hlevels : s.book.levels s.otherSide with
  | nil =>
      have hbest : s.book.bestPrice s.incoming.side.opposite = none := by
        rw [Book.bestPrice, show s.book.levels s.incoming.side.opposite = [] from hlevels]
        rfl
      refine .inl ⟨by rw [matchOrderBody, if_neg hr, hbest], h.matches ?_⟩
      rw [MatchState.walkFrom, Book.resting, hlevels, List.map_nil, walk_nil]
  | cons level rest =>
      have hlevels' : s.book.levels s.incoming.side.opposite = level :: rest := hlevels
      have hbest : s.book.bestPrice s.incoming.side.opposite = some level.price := by
        rw [Book.bestPrice, hlevels']
        rfl
      cases hx : pricesCross s.incoming.side s.incoming.price level.price with
      | false =>
          refine .inl ⟨?_, h.matches ?_⟩
          · rw [matchOrderBody, if_neg hr, hbest]
            simp only [hx]
            rfl
          · rw [MatchState.walkFrom, Book.resting, hlevels, List.map_cons]
            have hno : pricesCross s.incoming.side s.incoming.price
                (level.resting s.book.orders).price = false := hx
            exact walk_of_not_cross _ _ hno
      | true =>
          have hbody : matchOrderBody policy s =
              .inr (Oracle.processOrders policy level.price level.orders s) := by
            rw [matchOrderBody, if_neg hr, hbest]
            simp only [hx, matchAtPrice, hlevels', List.find?_cons, decide_true, if_true]
          refine .inr ⟨_, hbody, ?_⟩
          have hx₀ : pricesCross s₀.incoming.side s₀.incoming.price level.price = true := by
            rw [← h.incoming.side, ← h.incoming.price]
            exact hx
          have hne : activeOrders s.book.orders level.orders ≠ [] :=
            h.stocked.activeOrders_ne_nil
              (show level ∈ s.book.levels s.otherSide by rw [hlevels]; exact List.mem_cons_self)
          have hreached : s.book.Reached s₀.otherSide level.price [] level.orders :=
            .inr ⟨rfl, level.quantity, rest, by rw [← h.otherSide, hlevels]; rfl⟩
          refine (h.processOrders hx₀ (.inr hreached)).imp_right ?_
          rintro ⟨done', hsim, -, hlt⟩
          exact ⟨done', hsim, hlt hr hne⟩

theorem Sim.outer (h : Sim next policy s₀ s done) : ∃ fuel r,
    Loop.iterate (fun s ↦ some (matchOrderBody policy s)) fuel s = some r ∧
      Matches next policy s₀ r := by
  induction hn : s.size using Nat.strongRecOn generalizing s done with
  | ind n ih =>
      rcases h.outerPass with ⟨hb, hm⟩ | ⟨s', hb, hm | ⟨done', hsim, hlt⟩⟩
      · exact ⟨1, s, Loop.iterate_succ_inl (congrArg some hb) 0, hm⟩
      · obtain ⟨hm, hzero⟩ := hm
        have hend : matchOrderBody policy s' = .inl s' := by rw [matchOrderBody, if_pos hzero]
        refine ⟨2, s', ?_, hm⟩
        rw [Loop.iterate_succ_inr (congrArg some hb)]
        exact Loop.iterate_succ_inl (congrArg some hend) 0
      · obtain ⟨fuel, r, hret, hm⟩ := ih s'.size (hn ▸ hlt) hsim rfl
        refine ⟨fuel + 1, r, ?_, hm⟩
        rw [Loop.iterate_succ_inr (congrArg some hb)]
        exact hret

end Loops

/-- On a stocked book a match that is not turned away returns, and is the walk of the other side. -/
theorem Book.Stocked.exists_matchOrder {b : Book} {incoming : Order} (h : b.Stocked next)
    (policy : StpPolicy) (hfok : b.turnsAway incoming = false) :
    ∃ fuel r, b.matchOrder fuel incoming policy = some r ∧
      r.result.remainingQuantity = r.incoming.remainingQuantity ∧
      Matches next policy ⟨b, incoming, ⟨[], incoming.remainingQuantity, false⟩⟩ r := by
  have hsim : Sim next policy ⟨b, incoming, ⟨[], incoming.remainingQuantity, false⟩⟩
      ⟨b, incoming, ⟨[], incoming.remainingQuantity, false⟩⟩ [] := Sim.refl h
  obtain ⟨fuel, r, hret, hm⟩ := hsim.outer
  refine ⟨fuel, { r with result := { r.result with
      remainingQuantity := r.incoming.remainingQuantity } }, ?_, rfl, hm.trades, hm.nextTradeId,
    hm.nextTimestamp, hm.remainingQuantity, hm.resting, hm.stocked, hm.own, hm.nextOrderId⟩
  rw [Book.matchOrder, hfok]
  exact Option.bind_eq_some_iff.mpr ⟨r, hret, rfl⟩

end Nanobook.Oracle
