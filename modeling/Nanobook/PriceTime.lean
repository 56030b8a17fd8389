import Nanobook.Invariant.Backed

/-!
# Matching without self-trade prevention is greedy

Under `StpPolicy::Off`, matching an order against a coherent book takes the resting orders in
price-time order, each at its own price, until the order is used up or the next one does not cross:
`fills` and `residual` say this of a plain list of orders.  The feasibility check for FOK orders
adds up level totals instead, as a `u64` sum, and agrees with the match as long as that sum does not
wrap.
-/

namespace Nanobook

/-! ## The specification -/

section Spec

variable (side : Side) (price : Price)

/-- The resting orders that are taken, and how much of each. -/
def fills : List Order → Quantity → List (Order × Quantity)
  | [], _ => []
  | o :: os, left =>
      if left = 0 ∨ pricesCross side price o.price = false then []
      else (o, Nat.min left o.remainingQuantity) ::
        fills os (left - Nat.min left o.remainingQuantity)

/-- The resting orders that are left. -/
def residual : List Order → Quantity → List Order
  | [], _ => []
  | o :: os, left =>
      if left = 0 ∨ pricesCross side price o.price = false then o :: os
      else if o.remainingQuantity ≤ left then residual os (left - o.remainingQuantity)
      else o.fill left :: os

end Spec

/-- The trades of a list of fills, numbered one after the other. -/
def tradesOf (aggressorId : OrderId) (side : Side) :
    TradeId → Timestamp → List (Order × Quantity) → List Trade
  | _, _, [] => []
  | id, ts, (o, q) :: fs =>
      ⟨id, o.price, q, aggressorId, o.id, side, ts⟩ :: tradesOf aggressorId side (id + 1)
        (ts + 1) fs

/-- The orders once the resting ones were filled. -/
def filledOrders (orders : OrdMap OrderId Order) (fs : List (Order × Quantity)) :
    OrdMap OrderId Order :=
  fs.foldl (fun orders f ↦ orders.insert f.1.id (f.1.fill f.2)) orders

/-! ## The greedy match under `off` -/

section Off

variable {owner : Option OrderOwner} {side : Side} {price : Price}

theorem stpConflict_off (i r : Option OrderOwner) : stpConflict .off i r = false := by
  cases i <;> cases r <;> simp [stpConflict]

theorem fills_zero (os : List Order) : fills side price os 0 = [] := by
  cases os <;> simp [fills]

/-- Without self-trade prevention the greedy match consists of the fills. -/
theorem greedy_off (os : List Order) (left : Quantity) :
    greedy .off owner side price os left =
      ⟨(fills side price os left).map fun f ↦ .fill f.1 f.2,
        left - ((fills side price os left).map Prod.snd).sum, false,
        residual side price os left⟩ := by
  induction os generalizing left with
  | nil => rfl
  | cons o os ih =>
      simp only [greedy, fills, residual, stpConflict_off]
      by_cases hstop : left = 0 ∨ pricesCross side price o.price = false
      · simp [hstop]
      · simp only [hstop, if_false, Bool.false_eq_true]
        by_cases hr : o.remainingQuantity ≤ left
        · have hmin : Nat.min left o.remainingQuantity = o.remainingQuantity := Nat.min_eq_right hr
          simp only [hr, if_true, ih, hmin, List.map_cons, List.sum_cons, Walk.cons, Nat.sub_sub]
        · have hmin : Nat.min left o.remainingQuantity = left := Nat.min_eq_left (not_le.mp hr).le
          simp only [hr, if_false, hmin, Nat.sub_self, fills_zero, List.map_cons, List.map_nil,
            List.sum_cons, List.sum_nil, Nat.add_zero]

/-- What the fills do to the record of a match. -/
theorem acts_fills (g : Ledger) (fs : List (Order × Quantity)) :
    (g.acts (fs.map fun f ↦ .fill f.1 f.2)).orders = filledOrders g.orders fs ∧
      (g.acts (fs.map fun f ↦ .fill f.1 f.2)).trades = g.trades ++
        tradesOf g.incoming.id g.incoming.side g.nextTradeId g.nextTimestamp fs := by
  induction fs generalizing g with
  | nil => exact ⟨rfl, (List.append_nil _).symm⟩
  | cons f fs ih =>
      obtain ⟨horders, htrades⟩ := ih (g.act (.fill f.1 f.2))
      refine ⟨horders, htrades.trans ?_⟩
      rw [Ledger.act, List.append_assoc]
      rfl

/-- The orders that cross come first, as they do in a list sorted by price. -/
def CrossFirst (side : Side) (price : Price) (os : List Order) : Prop :=
  os.Pairwise fun o o' ↦ pricesCross side price o'.price = true →
  pricesCross side price o.price = true

/-- What the orders that cross have left. -/
def crossingSum (side : Side) (price : Price) (os : List Order) : Quantity :=
  remainingSum (os.filter fun o ↦ pricesCross side price o.price)

/-- If the first order does not cross, none does. -/
theorem CrossFirst.filter_eq_nil {o : Order} {os : List Order} (h : CrossFirst side price (o :: os))
    (hx : pricesCross side price o.price = false) :
    (o :: os).filter (fun o ↦ pricesCross side price o.price) = [] := by
  refine List.filter_eq_nil_iff.mpr fun o' ho' hx' ↦ ?_
  rcases List.mem_cons.mp ho' with rfl | ho'
  · rw [hx] at hx'
    cases hx'
  · rw [(List.pairwise_cons.mp h).1 o' ho' hx'] at hx
    cases hx

/-- As much is filled as there is, up to what is asked for. -/
theorem fills_sum {os : List Order} (h : CrossFirst side price os) (left : Quantity) :
    ((fills side price os left).map Prod.snd).sum = Nat.min left (crossingSum side price os) := by
  induction os generalizing left with
  | nil => exact (Nat.min_zero left).symm
  | cons o os ih =>
      have hrest := (List.pairwise_cons.mp h).2
      simp only [fills]
      by_cases hl : left = 0
      · simp [hl, Nat.min]
      cases hx : pricesCross side price o.price with
      | false =>
          rw [crossingSum, h.filter_eq_nil hx]
          simp [Nat.min]
      | true =>
          have hsum : crossingSum side price (o :: os) =
              o.remainingQuantity + crossingSum side price os := by
            rw [crossingSum, List.filter_cons, if_pos hx, remainingSum_cons]
            rfl
          rw [hsum, if_neg (by simp [hl])]
          simp only [List.map_cons, List.sum_cons, ih hrest]
          simp only [Nat.min_def]
          split_ifs <;> lia

end Off

/-! ## Coherent books -/

/-- The queue, tombstones dropped, lists in arrival order stored orders of the level's side and
price with something left, and the total is the exact sum.  A level with nothing in it is removed at
once. -/
structure Level.Coherent (orders : OrdMap OrderId Order) (s : Side) (p : Price) (l : Level) :
    Prop where
  nodup : l.iter.Nodup
  nonempty : l.iter ≠ []
  order : ∀ id ∈ l.iter, ∃ o, orders.get? id = some o ∧ o.id = id ∧ o.side = s ∧ o.price = p ∧
    0 < o.remainingQuantity
  arrival : ((ordersOf orders l.iter).map Order.timestamp).Pairwise (· ≤ ·)
  total : l.totalQuantity = remainingSum (ordersOf orders l.iter)
  bounded : l.totalQuantity ≤ u64Max

instance (orders : OrdMap OrderId Order) (s : Side) (p : Price) (l : Level) :
    Decidable (l.Coherent orders s p) :=
  decidable_of_iff (l.iter.Nodup ∧ l.iter ≠ [] ∧
      (∀ id ∈ l.iter, (orders.get? id).any (fun o ↦ decide (o.id = id ∧ o.side = s ∧ o.price = p ∧
        0 < o.remainingQuantity)) = true) ∧
      ((ordersOf orders l.iter).map Order.timestamp).Pairwise (· ≤ ·) ∧
      l.totalQuantity = remainingSum (ordersOf orders l.iter) ∧ l.totalQuantity ≤ u64Max)
    ⟨fun ⟨h₁, h₂, h₃, h₄, h₅, h₆⟩ ↦ ⟨h₁, h₂, fun id hid ↦ by
        simpa [Option.any_eq_true] using h₃ id hid, h₄, h₅, h₆⟩,
      fun h ↦ ⟨h.nodup, h.nonempty, fun id hid ↦ by
        simpa [Option.any_eq_true] using h.order id hid, h.arrival, h.total, h.bounded⟩⟩

/-- What the walk leaves of a level: less of the total, and the end of the queue. -/
structure RestingLevel.Remains (level level' : RestingLevel) : Prop where
  total : level'.total ≤ level.total
  queue : level'.queue.map Order.timestamp <:+ level.queue.map Order.timestamp

theorem walk_remains {policy : StpPolicy} {owner : Option OrderOwner} {side : Side} {price : Price}
    {levels : List RestingLevel} {left : Quantity} {level' : RestingLevel}
    (h : level' ∈ (walk policy owner side price levels left).rest) :
    ∃ level ∈ levels, level.Remains level' := by
  -- the first order of the first level goes, and the walk goes on
  have hdrop : ∀ p total o queue (levels : List RestingLevel),
      (∃ level ∈ dropFirst p total o queue levels, level.Remains level') →
      ∃ level ∈ (⟨p, total, o :: queue⟩ :: levels : List RestingLevel), level.Remains level' := by
    rintro p total o queue levels ⟨level, hlevel, hrem⟩
    rw [dropFirst] at hlevel
    split_ifs at hlevel
    · exact ⟨level, List.mem_cons_of_mem _ hlevel, hrem⟩
    · rcases List.mem_cons.mp hlevel with rfl | hlevel
      · exact ⟨_, List.mem_cons_self, hrem.total.trans (Nat.sub_le _ _),
          hrem.queue.trans (List.suffix_cons _ _)⟩
      · exact ⟨level, List.mem_cons_of_mem _ hlevel, hrem⟩
  have hself : ∀ levels : List RestingLevel, level' ∈ levels →
      ∃ level ∈ levels, level.Remains level' :=
    fun _ hl ↦ ⟨level', hl, Nat.le_refl _, List.suffix_refl _⟩
  revert h
  refine walk_induct (motive := fun levels _ w ↦ level' ∈ w.rest →
    ∃ level ∈ levels, level.Remains level') ?_ ?_ ?_ ?_ ?_ levels left
  · exact fun levels _ _ ↦ hself levels
  · exact fun _ _ _ _ _ _ _ _ _ _ ↦ hself _
  · exact fun _ _ _ _ _ _ _ _ _ _ _ ih h ↦ hdrop _ _ _ _ _ (ih h)
  · exact fun _ _ _ _ _ _ _ _ _ _ _ ih h ↦ hdrop _ _ _ _ _ (ih h)
  · intro p total o queue levels left _ _ _ _ h
    rcases List.mem_cons.mp h with rfl | h
    · exact ⟨_, List.mem_cons_self, Nat.sub_le _ _, List.suffix_refl _⟩
    · exact ⟨level', List.mem_cons_of_mem _ h, Nat.le_refl _, List.suffix_refl _⟩

namespace OrderBook

structure Coherent (b : OrderBook) : Prop where
  side : ∀ s, (b.side s).side = s
  cached : ∀ s, (b.side s).Cached
  level : ∀ s p l, b.level s p = some l → l.Coherent b.orders s p

variable {b : OrderBook} {s : Side}

/-- Coherence is checked level by level. -/
theorem coherent_of_entries (hside : ∀ s, (b.side s).side = s) (hcached : ∀ s, (b.side s).Cached)
    (h : ∀ s, ∀ e ∈ (b.side s).levels.entries, e.2.Coherent b.orders s e.1) : b.Coherent :=
  ⟨hside, hcached, fun s p l hl ↦ h s (p, l) ((OrdMap.get?_eq_some_iff _).mp hl)⟩

theorem Coherent.stocked (h : b.Coherent) (s : Side) : b.Stocked s where
  side := h.side s
  cached := h.cached s
  level p l hl := by
    have hc := h.level s p l hl
    exact ⟨hc.nodup, hc.nonempty, hc.order, hc.total.le⟩

theorem Coherent.exact (h : b.Coherent) (s : Side) : b.Exact s := fun p l hl ↦
  (h.level s p l hl).total

/-- The quantity in the levels that an order of `side` at `price` crosses, without a bound. -/
def depth (b : OrderBook) (side : Side) (price : Price) : Nat :=
  (((b.resting side.opposite).filter fun level ↦ pricesCross side price level.price).map
    RestingLevel.total).sum

/-- The feasibility check sees the depth modulo `2 ^ 64`. -/
theorem availableToFill_eq {side : Side} (hside : (b.side side.opposite).side = side.opposite)
    (price : Price) : b.availableToFill side price = b.depth side price % 2 ^ 64 := by
  have hperm : (b.oppositeSide side).bestToWorst.Perm (b.oppositeSide side).levels.entries := by
    rw [PriceLevels.bestToWorst]
    cases (b.oppositeSide side).side
    · exact List.reverse_perm _
    · exact .refl _
  have hdepth : b.depth side price = (((b.oppositeSide side).levels.entries.filter
      fun e ↦ pricesCross side price e.1).map fun e ↦ e.2.totalQuantity).sum := by
    rw [depth, resting, List.filter_map, List.map_map]
    exact ((hperm.filter _).map _).sum_nat
  rw [availableToFill, PriceLevels.quantityAtOrBetter, sumU64, hdepth]
  simp only [oppositeSide, hside]
  cases side <;> rfl

/-- The depth is what the crossing orders have left. -/
theorem depth_eq_crossingSum {side : Side} (h : ∀ level ∈ b.resting side.opposite, level.Sound)
    (price : Price) :
    b.depth side price = crossingSum side price (flatten (b.resting side.opposite)) := by
  rw [depth]
  generalize b.resting side.opposite = levels at h ⊢
  induction levels with
  | nil => rfl
  | cons level levels ih =>
      have hlevel := h level List.mem_cons_self
      have hrest := ih fun l hl ↦ h l (List.mem_cons_of_mem _ hl)
      have hfilter : level.queue.filter (fun o ↦ pricesCross side price o.price) =
          if pricesCross side price level.price then level.queue else [] := by
        split_ifs with hx
        · refine List.filter_eq_self.mpr fun o ho ↦ ?_
          rw [(hlevel.order o ho).1, hx]
        · refine List.filter_eq_nil_iff.mpr fun o ho ↦ ?_
          rwa [(hlevel.order o ho).1]
      have hsum : crossingSum side price (flatten (level :: levels)) =
          remainingSum (level.queue.filter fun o ↦ pricesCross side price o.price) +
            crossingSum side price (flatten levels) := by
        simp [crossingSum, remainingSum, List.filter_append]
      rw [hsum, ← hrest, hfilter]
      cases hx : pricesCross side price level.price with
      | true => rw [List.filter_cons, if_pos hx, List.map_cons, List.sum_cons, hlevel.total]; rfl
      | false => rw [List.filter_cons, if_neg (by simp [hx])]; simp

/-- The resting orders of a stocked side are sorted by price. -/
theorem Stocked.crossFirst (side : Side) (h : b.Stocked side.opposite) (price : Price) :
    CrossFirst side price (flatten (b.resting side.opposite)) := by
  have hlevels : (b.resting side.opposite).Pairwise fun level level' ↦
      PriceLevels.Better side.opposite level.price level'.price := by
    rw [resting, List.pairwise_map]
    have := (b.side side.opposite).bestToWorst_pairwise
    rwa [h.side] at this
  have hprice : ∀ level ∈ b.resting side.opposite, ∀ o ∈ level.queue, o.price = level.price := by
    intro level hlevel o ho
    obtain ⟨p, l, hl, rfl⟩ := mem_resting.mp hlevel
    exact (h.of_mem_queue hl ho).2.2.2.1
  rw [CrossFirst, flatten, List.pairwise_flatMap]
  refine ⟨fun level hlevel ↦ ?_,
    hlevels.imp_of_mem fun {level level'} hl hl' hbetter o ho o' ho' hx ↦ ?_⟩
  · refine List.pairwise_iff_forall_sublist.mpr fun {o o'} hsub hx ↦ ?_
    have ho := hprice level hlevel o (hsub.subset List.mem_cons_self)
    have ho' := hprice level hlevel o' (hsub.subset (by simp))
    rwa [ho, ← ho']
  · rw [hprice level hl o ho]
    rw [hprice level' hl' o' ho'] at hx
    cases hno : pricesCross side price level.price with
    | true => rfl
    | false =>
        rw [pricesCross_of_not_better hno hbetter.asymm] at hx
        cases hx

/-! ## The match -/

section Match

variable {incoming : Order}

/-- The resting orders that price-time priority takes for an order, and how much of each. -/
def fillsOf (b : OrderBook) (incoming : Order) : List (Order × Quantity) :=
  fills incoming.side incoming.price (flatten (b.resting incoming.side.opposite))
    incoming.remainingQuantity

/-- `r` is the greedy outcome of matching `incoming` against `b`: the trades, what is filled, the
answer of the feasibility check, and the book that is left. -/
structure MatchesGreedily (b : OrderBook) (incoming : Order) (r : MatchState) : Prop where
  trades : r.result.trades =
    tradesOf incoming.id incoming.side b.nextTradeId b.nextTimestamp (b.fillsOf incoming)
  filled : incoming.remainingQuantity - r.result.remainingQuantity =
    Nat.min incoming.remainingQuantity (b.availableToFill incoming.side incoming.price)
  canFullyFill : b.canFullyFill incoming.side incoming.price incoming.remainingQuantity = true ↔
    r.result.remainingQuantity = 0
  coherent : r.book.Coherent
  residual : flatten (r.book.resting incoming.side.opposite) = residual incoming.side incoming.price
    (flatten (b.resting incoming.side.opposite)) incoming.remainingQuantity
  own : r.book.side incoming.side = b.side incoming.side
  orders : r.book.orders = filledOrders b.orders (b.fillsOf incoming)

theorem walkFrom_off (h : b.Coherent) (incoming : Order) :
    ((b.matchStart incoming).walkFrom .off).Agrees
      ⟨(b.fillsOf incoming).map fun f ↦ .fill f.1 f.2,
        incoming.remainingQuantity - ((b.fillsOf incoming).map Prod.snd).sum, false,
        Nanobook.residual incoming.side incoming.price (flatten (b.resting incoming.side.opposite))
          incoming.remainingQuantity⟩ := by
  have hgreedy : ((b.matchStart incoming).walkFrom .off).Agrees
      (greedy .off incoming.owner incoming.side incoming.price
        (flatten (b.resting incoming.side.opposite)) incoming.remainingQuantity) :=
    walk_eq_greedy ((h.stocked incoming.side.opposite).sound (h.exact _)) _
  rwa [greedy_off] at hgreedy

theorem matchOrderWithPolicy_remainingQuantity {fuel : Nat} {policy : StpPolicy} {r : MatchState}
    (h : b.matchOrderWithPolicy fuel incoming policy = some r) :
    r.result.remainingQuantity = r.incoming.remainingQuantity := by
  obtain ⟨s, -, h⟩ := Option.bind_eq_some_iff.mp h
  cases h
  rfl

theorem Coherent.fillsOf_sum (h : b.Coherent) (incoming : Order) :
    ((b.fillsOf incoming).map Prod.snd).sum =
      Nat.min incoming.remainingQuantity (b.depth incoming.side incoming.price) := by
  rw [fillsOf, fills_sum ((h.stocked _).crossFirst incoming.side incoming.price),
    depth_eq_crossingSum ((h.stocked _).sound (h.exact _))]

/-- The levels of the other side after a match are what the walk leaves of levels that were
there. -/
theorem Coherent.of_matches (h : b.Coherent) {r : MatchState}
    (hm : Matches .off (b.matchStart incoming) r) : r.book.Coherent := by
  have hother : r.book.Stocked incoming.side.opposite := hm.stocked
  have hown : r.book.Stocked incoming.side := (h.stocked _).of_untouched hm.untouched hm.own
  have hst : ∀ s, r.book.Stocked s := fun s ↦ by
    rcases incoming.side.eq_or_eq_opposite s with rfl | rfl
    · exact hown
    · exact hother
  refine ⟨fun s ↦ (hst s).side, fun s ↦ (hst s).cached, fun s p l hl ↦ ?_⟩
  have hlevel := (hst s).level p l hl
  suffices hq : ((ordersOf r.book.orders l.iter).map Order.timestamp).Pairwise (· ≤ ·) ∧
      l.totalQuantity = remainingSum (ordersOf r.book.orders l.iter) ∧ l.totalQuantity ≤ u64Max from
    ⟨hlevel.nodup, hlevel.nonempty, hlevel.order, hq.1, hq.2.1, hq.2.2⟩
  rcases incoming.side.eq_or_eq_opposite s with rfl | rfl
  · rw [OrderBook.level, show r.book.side incoming.side = b.side incoming.side from hm.own] at hl
    have hc := h.level _ p l hl
    rw [(h.stocked _).ordersOf_eq hm.untouched hl]
    exact ⟨hc.arrival, hc.total, hc.bounded⟩
  · have hrest : r.book.resting incoming.side.opposite =
        ((b.matchStart incoming).walkFrom .off).rest := hm.resting
    have hmem := mem_resting.mpr ⟨p, l, hl, rfl⟩
    have hsound := (walkFrom_off h incoming).sound _ (hrest ▸ hmem)
    rw [hrest] at hmem
    obtain ⟨level₀, hlevel₀, hrem⟩ := walk_remains hmem
    obtain ⟨p₀, l₀, hl₀, rfl⟩ := mem_resting.mp hlevel₀
    have hc := h.level _ p₀ l₀ hl₀
    exact ⟨hc.arrival.sublist hrem.queue.sublist, hsound.total, hrem.total.trans hc.bounded⟩

/-- Everything but the answer of the feasibility check holds of every coherent book. -/
theorem Coherent.exists_match (h : b.Coherent) (incoming : Order) : ∃ fuel r,
    b.matchOrder fuel incoming = some r ∧ r.book.Coherent ∧
      r.result.trades =
        tradesOf incoming.id incoming.side b.nextTradeId b.nextTimestamp (b.fillsOf incoming) ∧
      r.result.remainingQuantity = incoming.remainingQuantity -
        Nat.min incoming.remainingQuantity (b.depth incoming.side incoming.price) ∧
      flatten (r.book.resting incoming.side.opposite) =
      Nanobook.residual incoming.side incoming.price
        (flatten (b.resting incoming.side.opposite)) incoming.remainingQuantity ∧
      r.book.side incoming.side = b.side incoming.side ∧
      r.book.orders = filledOrders b.orders (b.fillsOf incoming) := by
  have hw := walkFrom_off h incoming
  have hits : Hits ((b.matchStart incoming).walkFrom .off) := by
    intro o ho
    rw [hw.actions] at ho
    simp at ho
  obtain ⟨fuel, r, hr, hm⟩ := exists_matchOrder (h.stocked _) hits
  have hledger := hm.ledger
  rw [hw.stp, hw.actions] at hledger
  obtain ⟨horders, htrades⟩ := acts_fills (b.matchStart incoming).ledger (b.fillsOf incoming)
  refine ⟨fuel, r, hr, h.of_matches hm, ?_, ?_, ?_, hm.own, ?_⟩
  · exact (congrArg Ledger.trades hledger).trans htrades
  · have hleft := hm.left
    rw [hw.left, hw.actions] at hleft
    rw [matchOrderWithPolicy_remainingQuantity hr, ← h.fillsOf_sum]
    exact (congrArg (fun g ↦ g.incoming.remainingQuantity) hledger).trans hleft
  · exact (congrArg flatten hm.resting).trans hw.rest
  · exact (congrArg Ledger.orders hledger).trans horders

/-- Matching an order against a coherent book is greedy, with the feasibility check in agreement,
exactly if the `u64` sum of that check does not wrap, or wraps to a sum that still covers the
order. -/
theorem matchOrder_greedy_iff (h : b.Coherent) (incoming : Order) :
    (∃ fuel r, b.matchOrder fuel incoming = some r ∧ b.MatchesGreedily incoming r) ↔
      b.depth incoming.side incoming.price < 2 ^ 64 ∨
        incoming.remainingQuantity ≤ b.depth incoming.side incoming.price % 2 ^ 64 := by
  have havail := availableToFill_eq (h.side incoming.side.opposite) incoming.price
  obtain ⟨fuel, r, hr, hcoh, htrades, hleft, hres, hown, horders⟩ := h.exists_match incoming
  constructor
  · rintro ⟨fuel', r', hr', hg⟩
    obtain rfl : r' = r := by
      have h₁ := matchOrderWithPolicy_mono (Nat.le_max_left fuel fuel') hr
      have h₂ := matchOrderWithPolicy_mono (Nat.le_max_right fuel fuel') hr'
      exact Option.some.inj (h₂.symm.trans h₁)
    have hfilled := hg.filled
    rw [hleft, havail] at hfilled
    have hmod := Nat.mod_le (b.depth incoming.side incoming.price) (2 ^ 64)
    simp only [Nat.min_def] at hfilled
    by_contra hno
    rw [not_or, not_lt, not_le] at hno
    have hlt := Nat.mod_lt (b.depth incoming.side incoming.price) (Nat.two_pow_pos 64)
    split_ifs at hfilled <;> lia
  · intro hcond
    have hmod := Nat.mod_le (b.depth incoming.side incoming.price) (2 ^ 64)
    have hmin : Nat.min incoming.remainingQuantity (b.depth incoming.side incoming.price) =
        Nat.min incoming.remainingQuantity (b.depth incoming.side incoming.price % 2 ^ 64) := by
      rcases hcond with hlt | hle
      · rw [Nat.mod_eq_of_lt hlt]
      · exact (Nat.min_eq_left (hle.trans hmod)).trans (Nat.min_eq_left hle).symm
    refine ⟨fuel, r, hr, htrades, ?_, ?_, hcoh, hres, hown, horders⟩
    · rw [hleft, havail, ← hmin]
      exact Nat.sub_sub_self (Nat.min_le_left _ _)
    · rw [canFullyFill, decide_eq_true_eq, havail, hleft, hmin]
      simp only [Nat.min_def]
      split_ifs <;> lia

end Match

/-! ## Two levels of asks -/

/-- Sells of `q` at 100 and at 101. -/
def twoAsks (q : Quantity) : OrderBook :=
  (create.addOrder (.create 1 .sell 100 q 1 .gtc)).addOrder (.create 2 .sell 101 q 2 .gtc)

theorem coherent_twoAsks_ten : (twoAsks 10).Coherent :=
  coherent_of_entries (fun s ↦ by cases s <;> rfl) (fun s ↦ by cases s <;> rfl)
    (fun s ↦ by cases s <;> decide)

theorem coherent_twoAsks_half : (twoAsks (2 ^ 63)).Coherent :=
  coherent_of_entries (fun s ↦ by cases s <;> rfl) (fun s ↦ by cases s <;> rfl)
    (fun s ↦ by cases s <;> decide +kernel)

/-- Both levels are swept, the second in part. -/
theorem matchOrder_greedy_iff_twoAsks :
    ((twoAsks 10).fillsOf (.create 3 .buy 101 15 3 .gtc)).map (fun f ↦ (f.1.id, f.2)) =
        [(1, 10), (2, 5)] ∧
      ∃ fuel r, (twoAsks 10).matchOrder fuel (.create 3 .buy 101 15 3 .gtc) = some r ∧
        (twoAsks 10).MatchesGreedily (.create 3 .buy 101 15 3 .gtc) r :=
  ⟨by decide, (matchOrder_greedy_iff coherent_twoAsks_ten _).mpr (.inl (by decide))⟩

/-- With `2 ^ 63` in each of two levels the check finds nothing to fill against, while a buy of 10
fills completely. -/
theorem availableToFill_wraps :
    (twoAsks (2 ^ 63)).Coherent ∧ (twoAsks (2 ^ 63)).availableToFill .buy 101 = 0 ∧
      (twoAsks (2 ^ 63)).canFullyFill .buy 101 10 = false ∧
      (∃ fuel r, (twoAsks (2 ^ 63)).matchOrder fuel (.create 3 .buy 101 10 3 .gtc) = some r ∧
        r.result.remainingQuantity = 0) ∧
      ¬ ∃ fuel r, (twoAsks (2 ^ 63)).matchOrder fuel (.create 3 .buy 101 10 3 .gtc) = some r ∧
        (twoAsks (2 ^ 63)).MatchesGreedily (.create 3 .buy 101 10 3 .gtc) r := by
  have havail : (twoAsks (2 ^ 63)).availableToFill .buy 101 = 0 := by decide +kernel
  have hcan : (twoAsks (2 ^ 63)).canFullyFill .buy 101 10 = false := by decide +kernel
  obtain ⟨fuel, r, hr, -, -, hleft, -⟩ :=
    coherent_twoAsks_half.exists_match (.create 3 .buy 101 10 3 .gtc)
  have hzero : r.result.remainingQuantity = 0 := by
    rw [hleft]
    decide +kernel
  refine ⟨coherent_twoAsks_half, havail, hcan, ⟨fuel, r, hr, hzero⟩, ?_⟩
  rintro ⟨fuel', r', hr', hg⟩
  have h₁ := matchOrderWithPolicy_mono (Nat.le_max_left fuel fuel') hr
  rw [matchOrderWithPolicy_mono (Nat.le_max_right fuel fuel') hr'] at h₁
  cases h₁
  exact Bool.false_ne_true (hcan.symm.trans (hg.canFullyFill.mpr hzero))

end OrderBook

end Nanobook
