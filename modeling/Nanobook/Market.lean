import Nanobook.Alike.Submission
import Nanobook.FillOrKill

/-!
# The market a book stands for

What is left of a book without slots, tombstones, caches and orders that no longer rest: both sides
as lists of levels, best first, and the counters.  `Market.submit` says what a submission is for: it
is turned away, or the other side is walked, and what is left of the order may join its own side.
On a backed exchange a submission does that, provided that self-trade prevention hits
(`Backed.market_submit`).
-/

namespace Nanobook

/-! ## Sides as lists of levels -/

/-- Levels in the order of their prices, best first. -/
def Sorted (s : Side) (levels : List RestingLevel) : Prop :=
  levels.Pairwise fun l l' ↦ PriceLevels.Better s l.price l'.price

/-- The level at a price. -/
def levelAt (p : Price) (levels : List RestingLevel) : Option RestingLevel :=
  levels.find? fun level ↦ level.price = p

namespace RestingLevel

/-- The level once an order has joined its queue. -/
def push (o : Order) (level : RestingLevel) : RestingLevel :=
  ⟨level.price, level.total + o.remainingQuantity, level.queue ++ [o]⟩

@[simp] theorem push_price (o : Order) (level : RestingLevel) :
    (level.push o).price = level.price := rfl

end RestingLevel

/-- A side once an order has joined it, behind the orders at its price. -/
def join (s : Side) (o : Order) : List RestingLevel → List RestingLevel
  | [] => [.push o ⟨o.price, 0, []⟩]
  | level :: levels =>
      if PriceLevels.Better s o.price level.price then .push o ⟨o.price, 0, []⟩ :: level :: levels
      else if o.price = level.price then level.push o :: levels
      else level :: join s o levels

section Sides

variable {s : Side} {p : Price} {o : Order} {level : RestingLevel}
  {levels levels' : List RestingLevel}

theorem Better.trans {p q r : Price} (h : PriceLevels.Better s p q)
    (h' : PriceLevels.Better s q r) : PriceLevels.Better s p r := by
  cases s with
  | buy => exact lt_trans h' h
  | sell => exact lt_trans h h'

theorem Better.of_not {p q : Price} (h : ¬ PriceLevels.Better s p q) (hne : p ≠ q) :
    PriceLevels.Better s q p := by
  cases s with
  | buy => exact lt_of_le_of_ne (not_lt.mp h) hne
  | sell => exact lt_of_le_of_ne (not_lt.mp h) hne.symm

theorem levelAt_cons (p : Price) (level : RestingLevel) (levels : List RestingLevel) :
    levelAt p (level :: levels) = if level.price = p then some level else levelAt p levels := by
  rw [levelAt, List.find?_cons]
  by_cases h : level.price = p
  · rw [if_pos h, decide_eq_true h]
  · rw [if_neg h, decide_eq_false h, levelAt]

theorem levelAt_eq_none (h : ∀ level ∈ levels, level.price ≠ p) : levelAt p levels = none :=
  List.find?_eq_none.mpr fun level hl ↦ by simpa using h level hl

/-- A sorted side has one level at a price. -/
theorem Sorted.mem_iff (h : Sorted s levels) :
    level ∈ levels ↔ levelAt level.price levels = some level := by
  induction levels with
  | nil => simp [levelAt]
  | cons head tail ih =>
      obtain ⟨hhead, htail⟩ := List.pairwise_cons.mp h
      rw [List.mem_cons, levelAt_cons, ih htail]
      split_ifs with hp
      · constructor
        · rintro (rfl | hl)
          · rfl
          · have hmem := (ih htail).mpr hl
            exact absurd hp (hhead level hmem).ne
        · intro heq
          exact .inl (Option.some.inj heq).symm
      · constructor
        · rintro (rfl | hl)
          · exact absurd rfl hp
          · exact hl
        · exact .inr

/-- A sorted side is read off the levels at each price. -/
theorem Sorted.ext (h : Sorted s levels) (h' : Sorted s levels')
    (hat : ∀ p, levelAt p levels = levelAt p levels') : levels = levels' := by
  have hnodup {levels : List RestingLevel} (h : Sorted s levels) : levels.Nodup :=
    h.imp fun hbetter heq ↦ hbetter.ne (congrArg RestingLevel.price heq)
  refine ((List.perm_ext_iff_of_nodup (hnodup h) (hnodup h')).mpr fun level ↦ ?_).eq_of_pairwise
    (fun l l' _ _ hbetter hworse ↦ absurd hworse hbetter.asymm) h h'
  rw [h.mem_iff, h'.mem_iff, hat]

/-! ## Joining a side -/

theorem Sorted.join (h : Sorted s levels) (o : Order) : Sorted s (join s o levels) := by
  have hprices : ∀ {levels : List RestingLevel}, ∀ level ∈ Nanobook.join s o levels,
      level.price = o.price ∨ ∃ l ∈ levels, level.price = l.price := by
    intro levels
    induction levels with
    | nil =>
        intro level hl
        exact .inl (by rw [List.mem_singleton.mp hl]; rfl)
    | cons head tail ih =>
        intro level hl
        rw [Nanobook.join] at hl
        split_ifs at hl with hb hp
        · rcases List.mem_cons.mp hl with rfl | hl
          · exact .inl rfl
          · exact .inr ⟨level, hl, rfl⟩
        · rcases List.mem_cons.mp hl with rfl | hl
          · exact .inl hp.symm
          · exact .inr ⟨level, List.mem_cons_of_mem _ hl, rfl⟩
        · rcases List.mem_cons.mp hl with rfl | hl
          · exact .inr ⟨level, List.mem_cons_self, rfl⟩
          · exact (ih level hl).imp_right fun ⟨l, hl, hp⟩ ↦ ⟨l, List.mem_cons_of_mem _ hl, hp⟩
  induction levels with
  | nil => exact List.pairwise_singleton _ _
  | cons head tail ih =>
      obtain ⟨hhead, htail⟩ := List.pairwise_cons.mp h
      rw [Nanobook.join]
      split_ifs with hb hp
      · refine List.pairwise_cons.mpr ⟨fun l hl ↦ ?_, h⟩
        rcases List.mem_cons.mp hl with rfl | hl
        · exact hb
        · exact Better.trans hb (hhead l hl)
      · exact List.pairwise_cons.mpr ⟨hhead, htail⟩
      · refine List.pairwise_cons.mpr ⟨fun l hl ↦ ?_, ih htail⟩
        rcases hprices l hl with heq | ⟨l', hl', heq⟩
        · rw [heq]
          exact Better.of_not hb hp
        · rw [heq]
          exact hhead l' hl'

/-- The level at a price once an order has joined the side. -/
theorem Sorted.levelAt_join (h : Sorted s levels) (o : Order) (p : Price) :
    levelAt p (Nanobook.join s o levels) =
      if p = o.price then some (((levelAt p levels).getD ⟨p, 0, []⟩).push o)
      else levelAt p levels := by
  induction levels with
  | nil =>
      rw [Nanobook.join, levelAt_cons, RestingLevel.push_price]
      split_ifs with ho hp hp
      · subst ho
        rfl
      · exact absurd ho.symm hp
      · exact absurd hp.symm ho
      · rfl
  | cons head tail ih =>
      obtain ⟨hhead, htail⟩ := List.pairwise_cons.mp h
      rw [Nanobook.join]
      split_ifs with hb hp hpush hp hp
      · -- every level of the side is worse than the price
        subst hp
        have hnone : levelAt o.price (head :: tail) = none := by
          refine levelAt_eq_none fun level hl ↦ ?_
          rcases List.mem_cons.mp hl with rfl | hl
          · exact hb.ne.symm
          · exact (Better.trans hb (hhead level hl)).ne.symm
        rw [levelAt_cons, RestingLevel.push_price, if_pos rfl, hnone]
        rfl
      · rw [levelAt_cons, RestingLevel.push_price, if_neg (Ne.symm hp)]
      · subst hp
        rw [levelAt_cons, levelAt_cons, RestingLevel.push_price, if_pos hpush.symm,
          if_pos hpush.symm]
        rfl
      · have hne : head.price ≠ p := fun heq ↦ hp (hpush.trans heq).symm
        rw [levelAt_cons, levelAt_cons, RestingLevel.push_price, if_neg hne, if_neg hne]
      · subst hp
        have hne : head.price ≠ o.price := Ne.symm hpush
        rw [levelAt_cons, levelAt_cons, if_neg hne, if_neg hne, ih htail, if_pos rfl]
      · rw [levelAt_cons, levelAt_cons, ih htail, if_neg hp]

/-! ## Sides without slots -/

theorem sorted_unplaced : Sorted s (levels.map RestingLevel.unplaced) ↔ Sorted s levels :=
  List.pairwise_map

theorem push_unplaced (o : Order) (level : RestingLevel) :
    (level.push o).unplaced = level.unplaced.push o.unplaced := by
  simp [RestingLevel.push, RestingLevel.unplaced]

theorem join_unplaced (o : Order) (levels : List RestingLevel) :
    (Nanobook.join s o levels).map RestingLevel.unplaced =
      Nanobook.join s o.unplaced (levels.map RestingLevel.unplaced) := by
  induction levels with
  | nil => rfl
  | cons head tail ih =>
      have hprice : head.unplaced.price = head.price := rfl
      rw [Nanobook.join, List.map_cons, Nanobook.join, hprice, Order.unplaced_price]
      split_ifs
      · rfl
      · rw [List.map_cons, push_unplaced]
      · rw [List.map_cons, ih]

end Sides

/-! ## Submissions -/

/-- Both sides of a book, and its counters. -/
@[ext] structure Market where
  levels : Side → List RestingLevel
  nextOrderId : OrderId
  nextTradeId : TradeId
  nextTimestamp : Timestamp

/-- An order as it comes to rest. -/
def Order.rested (o : Order) : Order :=
  { o with status := if o.filledQuantity > 0 then .partiallyFilled else .new }

namespace Market

variable (m : Market) (policy : StpPolicy) (sub : Submission)

/-- The order a submission becomes. -/
def incoming : Order :=
  { Order.create m.nextOrderId sub.side sub.price sub.quantity m.nextTimestamp sub.timeInForce with
    owner := sub.owner }

/-- The record its match starts from; which orders are stored does not matter. -/
def entry : Ledger := ⟨OrdMap.empty, m.nextTradeId, m.nextTimestamp + 1, m.incoming sub, []⟩

/-- What the levels hold that an order of `side` at `price` crosses. -/
def depth (side : Side) (price : Price) : Quantity :=
  (((m.levels side.opposite).filter fun level ↦ pricesCross side price level.price).map
    RestingLevel.total).sum

/-- What the level at a price holds. -/
def totalAt (side : Side) (price : Price) : Quantity :=
  ((levelAt price (m.levels side)).map RestingLevel.total).getD 0

def turnsAway : Bool :=
  sub.timeInForce = .fok && decide (m.depth sub.side sub.price < sub.quantity)

def walkOf : Walk (List RestingLevel) :=
  walk policy sub.owner sub.side sub.price (m.levels sub.side.opposite) sub.quantity

/-- The record once the match is over. -/
def record : Ledger := (m.entry sub).acts (m.walkOf policy sub).actions

/-- Something is left of a GTC order. -/
def Rests : Prop :=
  sub.timeInForce = .gtc ∧ (m.walkOf policy sub).stp = false ∧ (m.walkOf policy sub).left ≠ 0

instance : Decidable (m.Rests policy sub) :=
  inferInstanceAs (Decidable (sub.timeInForce = .gtc ∧ (m.walkOf policy sub).stp = false ∧
    (m.walkOf policy sub).left ≠ 0))

/-- The market once the other side has been walked. -/
def walked : Market where
  levels s := if s = sub.side then m.levels s else (m.walkOf policy sub).rest
  nextOrderId := m.nextOrderId + 1
  nextTradeId := (m.record policy sub).nextTradeId
  nextTimestamp := (m.record policy sub).nextTimestamp

theorem levels_walked (s : Side) : (m.walked policy sub).levels s =
    if s = sub.side then m.levels s else (m.walkOf policy sub).rest := rfl

theorem totalAt_walked (price : Price) :
    (m.walked policy sub).totalAt sub.side price = m.totalAt sub.side price := by
  rw [totalAt, levels_walked, if_pos rfl, totalAt]

/-- The market once an order has joined its side. -/
def add (o : Order) : Market :=
  { m with levels := fun s ↦ if s = o.side then join s o (m.levels s) else m.levels s }

theorem levels_add (o : Order) (s : Side) : (m.add o).levels s =
    if s = o.side then join s o (m.levels s) else m.levels s := rfl

/-- The market after a match: what is left of a GTC order joins its side. -/
def matched : Market :=
  if m.Rests policy sub then (m.walked policy sub).add (m.record policy sub).incoming.rested
  else m.walked policy sub

/-- The market after a submission, and the trades it makes. -/
def submit : Market × List Trade :=
  if m.turnsAway sub then
    ({ m with nextOrderId := m.nextOrderId + 1, nextTimestamp := m.nextTimestamp + 1 }, [])
  else (m.matched policy sub, (m.record policy sub).trades)

theorem nextOrderId_submit : (m.submit policy sub).1.nextOrderId = m.nextOrderId + 1 := by
  rw [submit, matched]
  split_ifs <;> rfl

/-- An order that nothing was filled of comes to rest as it came in. -/
theorem rested_incoming_record (h : (m.walkOf policy sub).left = sub.quantity) :
    (m.record policy sub).incoming.rested = m.incoming sub := by
  have hfilled : filledBy (m.walkOf policy sub).actions = 0 := by
    have hsum := filledBy_walk policy sub.owner sub.side sub.price (m.levels sub.side.opposite)
      sub.quantity
    rw [← walkOf, h] at hsum
    lia
  have hacts : ∀ (actions : List Action) (g : Ledger), filledBy actions = 0 →
      (g.acts actions).incoming.rested = g.incoming.rested := by
    intro actions
    induction actions with
    | nil => exact fun g _ ↦ rfl
    | cons a actions ih =>
        intro g hzero
        cases a with
        | fill o q =>
            obtain ⟨rfl, hrest⟩ := Nat.add_eq_zero_iff.mp hzero
            exact ih (g.act (.fill o 0)) hrest
        | cancel o => exact ih (g.act (.cancel o)) hzero
  exact hacts _ (m.entry sub) hfilled

end Market

/-! ## The market of the exchange -/

namespace OrderBook

/-- The market the book of the exchange stands for. -/
def market (b : OrderBook) : Market where
  levels s := (b.resting s).map RestingLevel.unplaced
  nextOrderId := b.nextOrderId
  nextTradeId := b.nextTradeId
  nextTimestamp := b.nextTimestamp

variable {b : OrderBook} {s t : Side} {o : Order}

theorem levels_market (b : OrderBook) (s : Side) :
    b.market.levels s = (b.resting s).map RestingLevel.unplaced := rfl

theorem sorted_resting (hs : (b.side s).side = s) : Sorted s (b.resting s) := by
  have hsorted := (b.side s).bestToWorst_pairwise
  rw [hs] at hsorted
  exact List.pairwise_map.mpr hsorted

/-- The level at a price is what the side shows there. -/
theorem levelAt_resting (hs : (b.side s).side = s) (p : Price) :
    levelAt p ((b.resting s).map RestingLevel.unplaced) =
      ((b.shown s).get? p).map fun v ↦ ⟨p, v.1, v.2⟩ := by
  rw [get?_shown]
  cases hl : b.level s p with
  | none =>
      refine levelAt_eq_none fun level hlevel hp ↦ ?_
      obtain ⟨level, hmem, rfl⟩ := List.mem_map.mp hlevel
      obtain ⟨q, l, hq, rfl⟩ := mem_resting.mp hmem
      have hqp : q = p := hp
      rw [hqp, hl] at hq
      cases hq
  | some l =>
      have hsorted := sorted_unplaced.mpr (sorted_resting hs)
      exact hsorted.mem_iff.mp (List.mem_map_of_mem (mem_resting.mpr ⟨p, l, hl, rfl⟩))

theorem totalAt_market (hs : (b.side s).side = s) (p : Price) :
    b.market.totalAt s p = b.totalAt s p := by
  rw [Market.totalAt, OrderBook.totalAt, market, levelAt_resting hs, get?_shown]
  cases b.level s p <;> rfl

/-- An order that is stored and not queued shows in no market. -/
theorem market_store (hf : b.Fresh o.id) (hs : ∀ s, (b.side s).side = s) :
    ({ b with orders := b.orders.insert o.id o } : OrderBook).market = b.market := by
  refine Market.ext (funext fun t ↦ ?_) rfl rfl rfl
  have hs' : (({ b with orders := b.orders.insert o.id o } : OrderBook).side t).side = t :=
    (congrArg PriceLevels.side (side_mk _ _ _ _ _ _)).trans (hs t)
  exact (shown_eq_iff hs' (hs t)).mp (hf.shown_store t)

/-- An order that is added joins its side, if its level has room. -/
theorem market_addOrder (hf : b.Fresh o.id) (hst : ∀ s, b.Stocked s) (hr : 0 < o.remainingQuantity)
    (hroom : b.totalAt o.side o.price + o.remainingQuantity ≤ u64Max) :
    (b.addOrder o).market = b.market.add o.unplaced := by
  refine Market.ext (funext fun s ↦ ?_) (nextOrderId_addOrder _ _)
    (by simp [addOrder, market, Market.add]) (by simp [addOrder, market, Market.add])
  have hs := (hst s).side
  have hs' := ((hst s).addOrder hf hr).side
  have hsorted := sorted_unplaced.mpr (sorted_resting hs)
  rw [levels_market, Market.levels_add, levels_market]
  by_cases hside : s = o.side
  · rw [if_pos (show s = o.unplaced.side from hside)]
    refine (sorted_unplaced.mpr (sorted_resting hs')).ext (hsorted.join _) fun p ↦ ?_
    rw [levelAt_resting hs', hsorted.levelAt_join, levelAt_resting hs, hf.get?_shown_addOrder,
      Order.unplaced_price]
    subst hside
    by_cases hp : p = o.price
    · subst hp
      rw [if_pos ⟨rfl, rfl⟩, if_pos rfl, get?_shown, Option.map_some]
      rw [totalAt] at hroom
      cases hl : b.level o.side o.price with
      | none =>
          rw [hl] at hroom
          exact congrArg (fun total ↦ some (RestingLevel.mk o.price total [o.unplaced]))
            (saturatingAdd_eq hroom)
      | some l =>
          rw [hl] at hroom
          exact congrArg (fun total ↦ some (RestingLevel.mk o.price total _))
            (saturatingAdd_eq hroom)
    · rw [if_neg (fun h ↦ hp h.2), if_neg hp]
  · rw [if_neg (show s ≠ o.unplaced.side from hside)]
    refine (shown_eq_iff hs' hs).mp (OrdMap.ext_get? fun p ↦ ?_)
    rw [hf.get?_shown_addOrder, if_neg fun h ↦ hside h.1]

end OrderBook

namespace Exchange

variable {ex ex' : Exchange} {sub : Submission} {fuel : Nat} {r : SubmitResult}

theorem walkOf_market (ex : Exchange) (sub : Submission) :
    ex.book.market.walkOf ex.stpPolicy sub = (ex.walkOf sub).unplaced := by
  rw [walkOf_eq, ← walk_unplaced]
  rfl

theorem rests_market_iff : ex.book.market.Rests ex.stpPolicy sub ↔
    sub.timeInForce = .gtc ∧ (ex.walkOf sub).stp = false ∧ (ex.walkOf sub).left ≠ 0 := by
  rw [Market.Rests, walkOf_market]
  rfl

theorem depth_market (b : OrderBook) (side : Side) (price : Price) :
    b.market.depth side price = b.depth side price := by
  rw [Market.depth, OrderBook.depth, OrderBook.market, List.filter_map, List.map_map]
  rfl

/-- The feasibility check turns an order away just if the levels hold too little, as long as what
they hold fits. -/
theorem Backed.rejectsFok_eq (h : ex.Backed)
    (hdepth : sub.timeInForce = .fok → ex.book.depth sub.side sub.price < 2 ^ 64) :
    ex.rejectsFok sub = ex.book.market.turnsAway sub := by
  rw [rejectsFok, Market.turnsAway]
  by_cases hfok : sub.timeInForce = .fok
  · rw [depth_market, OrderBook.canFullyFill, OrderBook.availableToFill_eq (h.wf.book.side _),
      Nat.mod_eq_of_lt (hdepth hfok)]
    simp only [hfok, decide_true, Bool.true_and, ge_iff_le]
    exact decide_not.symm.trans (decide_eq_decide.mpr not_le)
  · simp [hfok]

namespace Backed

variable {s : MatchState} (h : ex.Backed) (hm : Matches ex.stpPolicy (ex.entry sub) s)

include hm

/-- The trades and the counters of a match are those of the market, and so is the incoming order if
it was not cancelled. -/
theorem agrees_match :
    s.result.trades = (ex.book.market.record ex.stpPolicy sub).trades ∧
    s.book.nextTradeId = (ex.book.market.record ex.stpPolicy sub).nextTradeId ∧
    s.book.nextTimestamp = (ex.book.market.record ex.stpPolicy sub).nextTimestamp ∧
    (s.result.stpCancelled = false →
      s.incoming = (ex.book.market.record ex.stpPolicy sub).incoming) := by
  have hentry : (ex.entry sub).ledger.Agrees (ex.book.market.entry sub) := ⟨rfl, rfl, rfl, rfl⟩
  have hactions : (ex.walkOf sub).actions.map Action.unplaced =
      ((ex.book.market.walkOf ex.stpPolicy sub).actions).map Action.unplaced := by
    rw [walkOf_market, Walk.unplaced, List.map_map]
    exact List.map_congr_left fun a _ ↦ by cases a <;> rfl
  have hagrees := hentry.acts hactions
  have hledger := hm.ledger
  rw [← hm.stp] at hledger
  rw [Market.record]
  cases hstp : s.result.stpCancelled with
  | true =>
      rw [hstp, if_pos rfl] at hledger
      have htrades := congrArg Ledger.trades hledger
      have hids := congrArg Ledger.nextTradeId hledger
      have hclock := congrArg Ledger.nextTimestamp hledger
      exact ⟨htrades.trans hagrees.trades, hids.trans hagrees.nextTradeId,
        hclock.trans hagrees.nextTimestamp, nofun⟩
  | false =>
      rw [hstp, if_neg (by simp)] at hledger
      have htrades := congrArg Ledger.trades hledger
      have hids := congrArg Ledger.nextTradeId hledger
      have hclock := congrArg Ledger.nextTimestamp hledger
      have hincoming := congrArg Ledger.incoming hledger
      exact ⟨htrades.trans hagrees.trades, hids.trans hagrees.nextTradeId,
        hclock.trans hagrees.nextTimestamp, fun _ ↦ hincoming.trans hagrees.incoming⟩

include h

/-- A match walks the other side of the market and leaves the own side alone. -/
theorem market_match : s.book.market = ex.book.market.walked ex.stpPolicy sub := by
  obtain ⟨-, hids, hclock, -⟩ := agrees_match hm
  refine Market.ext (funext fun t ↦ ?_) hm.nextOrderId hids hclock
  rw [OrderBook.levels_market, Market.levels_walked, walkOf_market]
  rcases sub.side.eq_or_eq_opposite t with rfl | rfl
  · rw [if_pos rfl]
    have hown : s.book.shown sub.side = (ex.incoming sub).2.shown sub.side :=
      OrderBook.shown_eq_of_side hm.own fun p l hl ↦
        (h.stocked_incoming sub _).ordersOf_eq hm.untouched hl
    have hresting := (OrderBook.shown_eq_iff (h.stocked_match hm _).side
      (h.stocked_incoming sub _).side).mp hown
    rwa [resting_incoming] at hresting
  · rw [if_neg sub.side.opposite_ne]
    exact congrArg (List.map RestingLevel.unplaced) hm.resting

end Backed

/-- A GTC order that something is left of is added. -/
theorem settledBook_of_left {s : MatchState} (hgtc : sub.timeInForce = .gtc)
    (hstp : s.result.stpCancelled = false) (hrem : s.incoming.remainingQuantity ≠ 0) :
    settledBook sub s = s.book.addOrder s.incoming.rested := by
  rw [settledBook, hstp, if_neg (by simp), if_neg hrem, if_pos hgtc]
  rfl

section Settle

variable {s : MatchState} (hw : Matches ex.stpPolicy (ex.entry sub) s) (hmd : Matched ex sub s)

include hmd

/-- An order that was just matched is recorded in no slot yet. -/
theorem unplaced_rested : s.incoming.rested.unplaced = s.incoming.rested := by
  have hslot : s.incoming.positionInLevel = 0 := hmd.sameOrder.positionInLevel
  rw [Order.unplaced, Order.rested, ← hslot]

include hw

/-- A match is settled into the market after it. -/
theorem Backed.market_settle (h : ex.Backed) (hroom : ex.Room sub) :
    (settledBook sub s).market = ex.book.market.matched ex.stpPolicy sub := by
  have hst := h.stocked_match hw
  rw [Market.matched, ← h.market_match hw]
  by_cases hrests : ex.book.market.Rests ex.stpPolicy sub
  · obtain ⟨hgtc, hstp, hleft⟩ := rests_market_iff.mp hrests
    have hstp' : s.result.stpCancelled = false := hw.stp.trans hstp
    have hrem := Matches.remainingQuantity_eq hw hstp'
    have hne : s.incoming.remainingQuantity ≠ 0 := hrem ▸ hleft
    have hspace : s.book.totalAt s.incoming.side s.incoming.price +
        s.incoming.remainingQuantity ≤ u64Max := by
      rw [hrem, Matches.totalAt_eq hw hmd]
      exact hroom hgtc hstp hleft
    rw [if_pos hrests, settledBook_of_left hgtc hstp' hne, ← (agrees_match hw).2.2.2 hstp',
      OrderBook.market_addOrder (o := s.incoming.rested) hmd.fresh hst (Nat.pos_of_ne_zero hne)
        hspace, unplaced_rested hmd]
  · -- the order is stored and does not rest
    obtain ⟨status, hb⟩ : ∃ status, settledBook sub s = { s.book with
        orders := s.book.orders.insert s.incoming.id { s.incoming with status := status } } := by
      refine (settledBook_cases sub s).resolve_right ?_
      rintro ⟨hstp, hrem, hgtc, -⟩
      have hleft := Matches.remainingQuantity_eq hw hstp
      exact hrests (rests_market_iff.mpr ⟨hgtc, hw.stp ▸ hstp, hleft ▸ hrem⟩)
    rw [if_neg hrests, hb]
    exact OrderBook.market_store (o := { s.incoming with status := status }) hmd.fresh
      fun t ↦ (hst t).side

end Settle

/-- A submission to a backed exchange does to its market what it is for. -/
theorem Backed.market_submit (h : ex.Backed) (ht : ex.Sure sub)
    (hroom : ex.rejectsFok sub = false → ex.Room sub)
    (hdepth : sub.timeInForce = .fok → ex.book.depth sub.side sub.price < 2 ^ 64)
    (hs : ex.submitLimitInternalWithOwner fuel sub = some (ex', r)) :
    (ex'.book.market, r.trades) = ex.book.market.submit ex.stpPolicy sub := by
  have hrej := h.rejectsFok_eq hdepth
  rw [Market.submit, ← hrej]
  rcases submit_cases hs with ⟨hfok, rfl, rfl⟩ | ⟨hfok, s, hm, rfl, htrades, -⟩
  · rw [if_pos hfok]
    refine Prod.ext (Market.ext (funext fun t ↦ ?_) rfl rfl rfl) rfl
    exact congrArg (List.map RestingLevel.unplaced) (ex.resting_incoming sub t)
  · have hw := h.isWalk (ht hfok) hm
    rw [if_neg (by simp [hfok]), htrades]
    exact Prod.ext (h.market_settle hw (h.wf.matched hm) (hroom hfok)) (agrees_match hw).1

end Exchange

end Nanobook
