import Nanobook.Market
import Nanobook.Oracle.Refinement
import Nanobook.Oracle.Replay

/-!
# The market of the oracle

What a submission does to the market of a stocked book of the oracle, as long as no sum of
quantities overflows and no order comes to rest after it was filled in part: the oracle rests the
order it was given, not what the match left of it.
-/

namespace Nanobook.Oracle

/-- The quantity of a submission is a positive `int64`, and so are the sums it asks for: what the
level holds that it comes to rest at, and what the levels hold that a FOK order crosses. -/
structure Fits (m : Market) (policy : StpPolicy) (sub : Submission) : Prop where
  pos : 0 < sub.quantity
  le : (sub.quantity : Int) ≤ int64Max
  room : m.Rests policy sub →
    (m.totalAt sub.side sub.price + (m.walkOf policy sub).left : Int) ≤ int64Max
  depth : sub.timeInForce = .fok → (m.depth sub.side sub.price : Int) ≤ int64Max

/-- An order that comes to rest was not filled in part. -/
def RestsWhole (m : Market) (policy : StpPolicy) (sub : Submission) : Prop :=
  m.Rests policy sub → (m.walkOf policy sub).left = sub.quantity

namespace Book

/-- The market the book of the oracle stands for. -/
def market (b : Book) : Market where
  levels s := (b.resting s).map RestingLevel.unplaced
  nextOrderId := b.nextOrderId
  nextTradeId := b.nextTradeId
  nextTimestamp := b.nextTimestamp

theorem levels_market (b : Book) (s : Side) :
    b.market.levels s = (b.resting s).map RestingLevel.unplaced := rfl

variable {b b' : Book} {s t : Side} {o : Order} {level : PriceLevel} {next : OrderId}

theorem Stocked.sorted_resting (h : b.Stocked next) (s : Side) : Sorted s (b.resting s) :=
  List.pairwise_map.mpr (h.sorted s)

/-! ## Storing an order -/

/-- An id that is not in use yet is not queued. -/
theorem Stocked.notMem (h : b.Stocked next) {id : OrderId} (hid : next ≤ id) (s : Side) :
    ∀ level ∈ b.levels s, id ∉ level.orders := fun level hl hmem ↦
  absurd (h.queued s level hl id hmem) (not_lt.mpr hid)

/-- Storing an order that is not queued leaves the levels alone. -/
theorem Stocked.storeOrder (h : b.Stocked next)
    (hout : ∀ s, ∀ level ∈ b.levels s, o.id ∉ level.orders) :
    (b.storeOrder o).Stocked next ∧ ∀ s, (b.storeOrder o).resting s = b.resting s := by
  refine ⟨⟨fun s level hl ↦ ?_, fun s ↦ ?_, fun s level hl ↦ ?_, h.stored_storeOrder o⟩,
    fun s ↦ ?_⟩
  · rw [levels_storeOrder] at hl
    exact (h.level s level hl).insert (hout s level hl) o
  · rw [levels_storeOrder]
    exact h.sorted s
  · rw [levels_storeOrder] at hl
    exact h.queued s level hl
  · rw [resting, levels_storeOrder, resting]
    exact List.map_congr_left fun level hl ↦ PriceLevel.resting_insert (hout s level hl) o

/-! ## Adding an order -/

theorem levels_insertInto (b : Book) (s t : Side) (level : PriceLevel) :
    (b.insertInto s level).levels t =
      if t = s then insertLevel (fun p q ↦ decide (PriceLevels.Better s p q)) level (b.levels t)
      else b.levels t := by
  cases s with
  | buy =>
      have hbefore : (fun p q : Price ↦ decide (PriceLevels.Better .buy p q)) =
          fun p q ↦ decide (p > q) :=
        funext fun p ↦ funext fun q ↦ decide_eq_decide.mpr Iff.rfl
      rw [hbefore]
      cases t <;> rfl
  | sell =>
      have hbefore : (fun p q : Price ↦ decide (PriceLevels.Better .sell p q)) =
          fun p q ↦ decide (p < q) :=
        funext fun p ↦ funext fun q ↦ decide_eq_decide.mpr Iff.rfl
      rw [hbefore]
      cases t <;> rfl

theorem orders_insertInto (b : Book) (s : Side) (level : PriceLevel) :
    (b.insertInto s level).orders = b.orders := by cases s <;> rfl

theorem counters_insertInto (b : Book) (s : Side) (level : PriceLevel) :
    (b.insertInto s level).nextOrderId = b.nextOrderId ∧
      (b.insertInto s level).nextTradeId = b.nextTradeId ∧
      (b.insertInto s level).nextTimestamp = b.nextTimestamp := by
  cases s <;> exact ⟨rfl, rfl, rfl⟩

theorem wrapI64_add {q : Int} {n : Nat} (hq : 0 < q) (hle : q + n ≤ int64Max) :
    wrapI64 (q + n) = q + n := by
  simp only [int64Max] at hle
  exact Int.bmod_eq_of_le (by lia) (by lia)

/-- A level that is inserted is a new one, or is merged into the one at its price. -/
theorem mem_insertLevel {before : Price → Price → Bool} {new : PriceLevel}
    {levels : List PriceLevel} (h : level ∈ insertLevel before new levels) :
    level = new ∨ level ∈ levels ∨ ∃ head ∈ levels, new.price = head.price ∧
      level = ⟨head.price, wrapI64 (head.quantity + new.quantity), head.orders ++ new.orders⟩ := by
  induction levels with
  | nil => exact .inl (List.mem_singleton.mp h)
  | cons head tail ih =>
      rw [insertLevel] at h
      split_ifs at h with hb hp
      · rcases List.mem_cons.mp h with rfl | h
        · exact .inl rfl
        · exact .inr (.inl h)
      · rcases List.mem_cons.mp h with rfl | h
        · exact .inr (.inr ⟨head, List.mem_cons_self, hp, rfl⟩)
        · exact .inr (.inl (List.mem_cons_of_mem _ h))
      · rcases List.mem_cons.mp h with rfl | h
        · exact .inr (.inl List.mem_cons_self)
        · rcases ih h with rfl | hl | ⟨l, hl, hp, rfl⟩
          · exact .inl rfl
          · exact .inr (.inl (List.mem_cons_of_mem _ hl))
          · exact .inr (.inr ⟨l, List.mem_cons_of_mem _ hl, hp, rfl⟩)

theorem mem_orders_insertLevel {before : Price → Price → Bool} {new : PriceLevel}
    {levels : List PriceLevel} {id : OrderId} (h : level ∈ insertLevel before new levels)
    (hid : id ∈ level.orders) : id ∈ new.orders ∨ ∃ l ∈ levels, id ∈ l.orders := by
  rcases mem_insertLevel h with rfl | hl | ⟨head, hhead, -, rfl⟩
  · exact .inl hid
  · exact .inr ⟨level, hl, hid⟩
  · rcases List.mem_append.mp hid with hid | hid
    · exact .inr ⟨head, hhead, hid⟩
    · exact .inl hid

section Add

variable {orders : OrdMap OrderId Order} (ho : orders.get? o.id = some o) (ha : o.isActive = true)

include ho ha

theorem activeOrders_singleton : activeOrders orders [o.id] = [o] :=
  activeOrders_cons_of_active ho ha []

/-- Inserting a level of one active order is that order joining the side. -/
theorem map_insertLevel {levels : List PriceLevel} (hpos : ∀ level ∈ levels, 0 < level.quantity)
    (hroom : ∀ level ∈ levels, level.price = o.price →
      level.quantity + o.remainingQuantity ≤ int64Max) :
    (insertLevel (fun p q ↦ decide (PriceLevels.Better s p q))
        ⟨o.price, o.remainingQuantity, [o.id]⟩ levels).map (PriceLevel.resting orders) =
      join s o (levels.map (PriceLevel.resting orders)) := by
  have hone := activeOrders_singleton ho ha
  have hnew : PriceLevel.resting orders ⟨o.price, o.remainingQuantity, [o.id]⟩ =
      RestingLevel.push o ⟨o.price, 0, []⟩ := by
    simp [PriceLevel.resting, RestingLevel.push, hone]
  induction levels with
  | nil => exact congrArg (fun level ↦ [level]) hnew
  | cons head tail ih =>
      have hprice : (head.resting orders).price = head.price := rfl
      rw [List.map_cons, insertLevel, join, hprice]
      by_cases hb : PriceLevels.Better s o.price head.price
      · rw [if_pos (decide_eq_true hb), if_pos hb, List.map_cons, List.map_cons, hnew]
      · rw [if_neg (by simpa using hb), if_neg hb]
        split_ifs with hp
        · rw [List.map_cons]
          have hq := wrapI64_add (hpos head List.mem_cons_self)
            (hroom head List.mem_cons_self hp.symm)
          have hqpos := hpos head List.mem_cons_self
          congr 1
          simp only [PriceLevel.resting, RestingLevel.push, activeOrders_append, hone, hq,
            RestingLevel.mk.injEq, true_and, and_true]
          lia
        · rw [List.map_cons, ih (fun l hl ↦ hpos l (List.mem_cons_of_mem _ hl))
            fun l hl ↦ hroom l (List.mem_cons_of_mem _ hl)]

/-- The level that the order is alone at. -/
theorem stocked_singleton (hr : 0 < o.remainingQuantity)
    (hle : (o.remainingQuantity : Int) ≤ int64Max) :
    PriceLevel.Stocked orders o.side ⟨o.price, o.remainingQuantity, [o.id]⟩ := by
  have hone := activeOrders_singleton ho ha
  refine ⟨List.nodup_singleton _, ?_, ?_, ?_, hle⟩
  · rw [hone]
    rintro x hx
    rw [List.mem_singleton.mp hx]
    exact ⟨rfl, rfl, hr⟩
  · rw [hone]
    simp
  · exact Int.natCast_pos.mpr hr

/-- The level of the order's side that it is merged into. -/
theorem stocked_concat {head : PriceLevel} (h : head.Stocked orders o.side)
    (hout : o.id ∉ head.orders) (hr : 0 < o.remainingQuantity) (hp : o.price = head.price)
    (hroom : head.quantity + o.remainingQuantity ≤ int64Max) :
    PriceLevel.Stocked orders o.side
      ⟨head.price, wrapI64 (head.quantity + o.remainingQuantity), head.orders ++ [o.id]⟩ := by
  have hq := wrapI64_add h.pos hroom
  have hactive : activeOrders orders (head.orders ++ [o.id]) =
      activeOrders orders head.orders ++ [o] := by
    rw [activeOrders_append, activeOrders_singleton ho ha]
  refine ⟨?_, ?_, ?_, ?_, ?_⟩
  · refine List.nodup_append.mpr ⟨h.nodup, List.nodup_singleton _, fun id hid id' hid' ↦ ?_⟩
    rw [List.mem_singleton.mp hid']
    exact ne_of_mem_of_not_mem hid hout
  · rw [hactive]
    intro x hx
    rcases List.mem_append.mp hx with hx | hx
    · exact h.order x hx
    · rw [List.mem_singleton.mp hx]
      exact ⟨rfl, hp, hr⟩
  · have hsum : remainingSum (activeOrders orders head.orders ++ [o]) =
        remainingSum (activeOrders orders head.orders) + o.remainingQuantity := by
      simp [remainingSum]
    rw [hactive, hsum, hq, h.quantity]
    exact (Int.natCast_add _ _).symm
  · have := h.pos
    rw [hq]
    lia
  · rw [hq]
    exact hroom

end Add

/-- An order that was just stored joins its side. -/
theorem Stocked.addOrder (h : b.Stocked o.id) (ho : b.orders.get? o.id = some o)
    (ha : o.isActive = true) (hr : 0 < o.remainingQuantity)
    (hle : (o.remainingQuantity : Int) ≤ int64Max)
    (hroom : ∀ level ∈ b.levels o.side, level.price = o.price →
      level.quantity + o.remainingQuantity ≤ int64Max) :
    (b.addOrder o).Stocked (o.id + 1) ∧ ∀ s, (b.addOrder o).resting s =
      if s = o.side then join s o (b.resting s) else b.resting s := by
  have horders : (b.addOrder o).orders = b.orders := orders_insertInto _ _ _
  have hlevels (s : Side) : (b.addOrder o).levels s = if s = o.side then
      insertLevel (fun p q ↦ decide (PriceLevels.Better o.side p q))
        ⟨o.price, o.remainingQuantity, [o.id]⟩ (b.levels s)
      else b.levels s := levels_insertInto _ _ _ _
  have hresting : ∀ s, (b.addOrder o).resting s =
      if s = o.side then join s o (b.resting s) else b.resting s := by
    intro s
    rw [resting, hlevels, horders]
    split_ifs with hs
    · subst hs
      exact map_insertLevel ho ha (fun level hl ↦ (h.level _ level hl).pos) hroom
    · rfl
  refine ⟨⟨fun s level hl ↦ ?_, fun s ↦ ?_, fun s level hl id hid ↦ ?_, ?_⟩, hresting⟩
  · rw [horders]
    rw [hlevels] at hl
    split_ifs at hl with hs
    · subst hs
      rcases mem_insertLevel hl with rfl | hl | ⟨head, hhead, hp, rfl⟩
      · exact stocked_singleton ho ha hr hle
      · exact h.level _ level hl
      · have hout : o.id ∉ head.orders := fun hid ↦
          absurd (h.queued _ head hhead o.id hid) (lt_irrefl _)
        exact stocked_concat ho ha (h.level _ head hhead) hout hr hp (hroom head hhead hp.symm)
    · exact h.level s level hl
  · have hsorted : Sorted s ((b.addOrder o).resting s) := by
      rw [hresting]
      split_ifs with hs
      · exact (h.sorted_resting s).join o
      · exact h.sorted_resting s
    rw [Sorted, resting, List.pairwise_map] at hsorted
    exact hsorted
  · rw [hlevels] at hl
    split_ifs at hl with hs
    · subst hs
      rcases mem_orders_insertLevel hl hid with hid | ⟨l, hl, hid⟩
      · rw [List.mem_singleton.mp hid]
        exact Nat.lt_succ_self _
      · exact Nat.lt_succ_of_lt (h.queued _ l hl id hid)
    · exact Nat.lt_succ_of_lt (h.queued s level hl id hid)
  · rw [horders]
    exact h.stored

theorem Stocked.mono {next' : OrderId} (h : b.Stocked next) (hle : next ≤ next') :
    b.Stocked next' where
  level := h.level
  sorted := h.sorted
  queued s level hl id hid := (h.queued s level hl id hid).trans_le hle
  stored := h.stored

theorem Stocked.market_storeOrder (h : b.Stocked next)
    (hout : ∀ s, ∀ level ∈ b.levels s, o.id ∉ level.orders) :
    (b.storeOrder o).market = b.market :=
  Market.ext (funext fun s ↦ congrArg (List.map RestingLevel.unplaced) ((h.storeOrder hout).2 s))
    rfl rfl rfl

/-- An order that is stored, and may be cancelled at once. -/
theorem Stocked.market_stored (h : b.Stocked next) (hid : next ≤ o.id)
    (hb' : b' = b.storeOrder o ∨ b' = (b.storeOrder o).storeOrder o.cancel) :
    b'.market = b.market ∧ b'.Stocked next := by
  have hstored := (h.storeOrder (h.notMem hid)).1
  have hmarket := h.market_storeOrder (h.notMem hid)
  rcases hb' with rfl | rfl
  · exact ⟨hmarket, hstored⟩
  · have hout := hstored.notMem (show next ≤ o.cancel.id from hid)
    exact ⟨(hstored.market_storeOrder hout).trans hmarket, (hstored.storeOrder hout).1⟩

/-- The market shows what each level holds. -/
theorem Stocked.totalAt_market (h : b.Stocked next) (hl : level ∈ b.levels s) :
    b.market.totalAt s level.price = level.quantity.toNat := by
  have hsorted := sorted_unplaced.mpr (h.sorted_resting s)
  have hmem : (level.resting b.orders).unplaced ∈ (b.resting s).map RestingLevel.unplaced :=
    List.mem_map_of_mem (List.mem_map_of_mem hl)
  have hat : levelAt level.price (b.market.levels s) = some (level.resting b.orders).unplaced :=
    hsorted.mem_iff.mp hmem
  rw [Market.totalAt, hat]
  rfl

/-- An order that was just stored joins its side of the market, if its level has room. -/
theorem Stocked.market_addOrder (h : b.Stocked o.id) (ho : b.orders.get? o.id = some o)
    (ha : o.isActive = true) (hr : 0 < o.remainingQuantity)
    (hroom : (b.market.totalAt o.side o.price + o.remainingQuantity : Int) ≤ int64Max) :
    (b.addOrder o).market = b.market.add o.unplaced ∧ (b.addOrder o).Stocked (o.id + 1) := by
  have hlevel : ∀ level ∈ b.levels o.side, level.price = o.price →
      level.quantity + o.remainingQuantity ≤ int64Max := by
    intro level hl hp
    have hpos := (h.level _ level hl).pos
    rw [← hp, h.totalAt_market hl] at hroom
    lia
  obtain ⟨hst, hresting⟩ := h.addOrder ho ha hr (by lia) hlevel
  obtain ⟨hids, htrades, hclock⟩ := b.counters_insertInto o.side
    ⟨o.price, o.remainingQuantity, [o.id]⟩
  refine ⟨Market.ext (funext fun s ↦ ?_) hids htrades hclock, hst⟩
  · rw [levels_market, Market.levels_add, hresting, levels_market]
    by_cases hs : s = o.side
    · rw [if_pos hs, if_pos (show s = o.unplaced.side from hs), join_unplaced]
    · rw [if_neg hs, if_neg (show s ≠ o.unplaced.side from hs)]

/-! ## Liquidity -/

/-- What the levels hold that cross a limit, where the sum does not overflow. -/
theorem sumLiquidity_eq {side : Side} {price : Price} {levels : List PriceLevel} (acc : Int)
    (hsorted : levels.Pairwise fun l l' ↦ PriceLevels.Better side.opposite l.price l'.price)
    (hpos : ∀ level ∈ levels, 0 < level.quantity) (hacc : 0 ≤ acc)
    (hle : acc + (((levels.filter fun l ↦ pricesCross side price l.price).map fun l ↦
      l.quantity.toNat).sum : Nat) ≤ int64Max) :
    sumLiquidity side price acc levels =
      acc + (((levels.filter fun l ↦ pricesCross side price l.price).map fun l ↦
        l.quantity.toNat).sum : Nat) := by
  induction levels generalizing acc with
  | nil => simp [sumLiquidity]
  | cons head tail ih =>
      obtain ⟨hhead, htail⟩ := List.pairwise_cons.mp hsorted
      have hq := hpos head List.mem_cons_self
      rw [sumLiquidity]
      cases hx : pricesCross side price head.price with
      | true =>
          rw [List.filter_cons, if_pos hx, List.map_cons, List.sum_cons] at hle ⊢
          have hwrap : wrapI64 (acc + head.quantity) = acc + head.quantity := by
            simp only [int64Max] at hle
            exact Int.bmod_eq_of_le (by lia) (by lia)
          rw [if_pos rfl, hwrap, ih _ htail (fun l hl ↦ hpos l (List.mem_cons_of_mem _ hl))
            (by lia) (by lia)]
          lia
      | false =>
          -- nothing behind the first level that does not cross crosses either
          have hnone : (head :: tail).filter (fun l ↦ pricesCross side price l.price) = [] := by
            refine List.filter_eq_nil_iff.mpr fun l hl ↦ ?_
            rcases List.mem_cons.mp hl with rfl | hl
            · simp [hx]
            · simp [pricesCross_of_not_better hx (hhead l hl).asymm]
          rw [if_neg (by simp), hnone]
          simp

/-! ## Submissions -/

section Submit

variable {policy : StpPolicy} {sub : Submission} {event : CorpusEvent}

theorem resting_newOrder (b : Book) (sub : Submission) (s : Side) :
    (b.newOrder sub).2.resting s = b.resting s :=
  resting_of_counters (by cases s <;> rfl) rfl

theorem Stocked.newOrder (h : b.Stocked next) (sub : Submission) :
    (b.newOrder sub).2.Stocked next :=
  h.of_counters (fun s ↦ by cases s <;> rfl) rfl

/-- The liquidity check turns an order away just if the levels hold too little. -/
theorem Stocked.turnsAway_newOrder (h : b.Stocked next)
    (hdepth : sub.timeInForce = .fok → (b.market.depth sub.side sub.price : Int) ≤ int64Max) :
    (b.newOrder sub).2.turnsAway (b.newOrder sub).1 = b.market.turnsAway sub := by
  have hdepth_eq : b.market.depth sub.side sub.price =
      (((b.levels sub.side.opposite).filter fun l ↦ pricesCross sub.side sub.price l.price).map
        fun l ↦ l.quantity.toNat).sum := by
    rw [Market.depth, levels_market, resting, List.map_map, List.filter_map, List.map_map]
    rfl
  by_cases hfok : sub.timeInForce = .fok
  · have hle := hdepth hfok
    rw [hdepth_eq] at hle
    have hsum := sumLiquidity_eq 0 (h.sorted sub.side.opposite)
      (fun level hl ↦ (h.level _ level hl).pos) le_rfl (by rwa [zero_add])
    rw [zero_add, ← hdepth_eq] at hsum
    have hliquidity : (b.newOrder sub).2.calculateAvailableLiquidity sub.side sub.price =
        b.market.depth sub.side sub.price := by
      rw [← hsum]
      cases sub.side <;> rfl
    have hwant : (b.newOrder sub).1.remainingQuantity = sub.quantity := rfl
    rw [turnsAway, Market.turnsAway, hwant, show (b.newOrder sub).1.side = sub.side from rfl,
      show (b.newOrder sub).1.price = sub.price from rfl, hliquidity]
    exact congrArg (_ && ·) (decide_eq_decide.mpr Nat.cast_lt)
  · have hno : (b.newOrder sub).1.timeInForce ≠ .fok := hfok
    rw [turnsAway, Market.turnsAway, decide_eq_false hno, decide_eq_false hfok]
    rfl

/-- The match a submission starts. -/
def entry (b : Book) (sub : Submission) : MatchState :=
  ⟨(b.newOrder sub).2, (b.newOrder sub).1, ⟨[], sub.quantity, false⟩⟩

theorem walkOf_market (b : Book) (policy : StpPolicy) (sub : Submission) :
    b.market.walkOf policy sub = ((b.entry sub).walkFrom policy).unplaced := by
  rw [Market.walkOf, levels_market, walk_unplaced, MatchState.walkFrom, MatchState.otherSide]
  exact congrArg (fun levels ↦ (walk _ _ _ _ levels _).unplaced)
    (b.resting_newOrder sub sub.side.opposite).symm

theorem agrees_record (b : Book) (policy : StpPolicy) (sub : Submission) :
    ((b.entry sub).ledger.acts ((b.entry sub).walkFrom policy).actions).Agrees
      (b.market.record policy sub) := by
  have hentry : (b.entry sub).ledger.Agrees (b.market.entry sub) := ⟨rfl, rfl, rfl, rfl⟩
  refine hentry.acts ?_
  rw [walkOf_market, Walk.unplaced, List.map_map]
  exact List.map_congr_left fun a _ ↦ by cases a <;> rfl

/-- A match that is not turned away walks the other side of the market. -/
theorem Stocked.exists_match (h : b.Stocked b.nextOrderId)
    (hkept : (b.newOrder sub).2.turnsAway (b.newOrder sub).1 = false) (policy : StpPolicy) :
    ∃ fuel r, (b.newOrder sub).2.matchOrder fuel (b.newOrder sub).1 policy = some r ∧
      r.book.Stocked b.nextOrderId ∧ r.book.market = b.market.walked policy sub ∧
      r.result.trades = (b.market.record policy sub).trades ∧
      (r.result.remainingQuantity = if (b.market.walkOf policy sub).stp then 0
        else (b.market.walkOf policy sub).left) := by
  obtain ⟨fuel, r, hret, hrem, hm⟩ := (h.newOrder sub).exists_matchOrder policy hkept
  replace hm : Matches b.nextOrderId policy (b.entry sub) r := hm
  have hagrees := b.agrees_record policy sub
  refine ⟨fuel, r, hret, hm.stocked, ?_, hm.trades.trans hagrees.trades, ?_⟩
  · refine Market.ext (funext fun t ↦ ?_) hm.nextOrderId (hm.nextTradeId.trans hagrees.nextTradeId)
      (hm.nextTimestamp.trans hagrees.nextTimestamp)
    rw [levels_market, Market.levels_walked, walkOf_market]
    rcases sub.side.eq_or_eq_opposite t with rfl | rfl
    · rw [if_pos rfl, levels_market, ← b.resting_newOrder sub]
      exact congrArg (List.map RestingLevel.unplaced) hm.own
    · rw [if_neg sub.side.opposite_ne]
      exact congrArg (List.map RestingLevel.unplaced) hm.resting
  · rw [hrem, hm.remainingQuantity, walkOf_market]
    rfl

/-- The replay of a submission, once the match has returned: the order as it was numbered is stored,
and it rests if it is GTC and something is left. -/
theorem replayEvent_of_match {fuel : Nat} {r : MatchState}
    (hsub : event.submission = some (sub, policy))
    (hm : (b.newOrder sub).2.matchOrder fuel (b.newOrder sub).1 policy = some r) :
    ∃ b', b.replayEvent fuel event = some (b', r.result.trades) ∧
      let order := (b.newOrder sub).1
      if r.result.remainingQuantity > 0 ∧ sub.timeInForce = .gtc then
        b' = (r.book.storeOrder order).addOrder order
      else b' = r.book.storeOrder order ∨
        b' = (r.book.storeOrder order).storeOrder order.cancel := by
  cases event with
  | submitLimit side price quantity tif owner policy =>
      cases hsub
      simp only [replayEvent, submitLimit]
      rw [hm]
      simp only [Option.bind_some, Option.bind_eq_bind]
      by_cases hrem : r.result.remainingQuantity > 0
      · by_cases htif : tif = .gtc
        · exact ⟨_, by rw [if_pos hrem, if_pos htif], by rw [if_pos ⟨hrem, htif⟩]⟩
        · exact ⟨_, by rw [if_pos hrem, if_neg htif],
            by rw [if_neg fun hboth ↦ htif hboth.2]; exact .inr rfl⟩
      · exact ⟨_, by rw [if_neg hrem], by rw [if_neg fun hboth ↦ hrem hboth.1]; exact .inl rfl⟩
  | submitMarket side quantity owner policy =>
      cases hsub
      refine ⟨_, Option.bind_eq_some_iff.mpr ⟨r, hm, rfl⟩, ?_⟩
      dsimp only
      rw [if_neg (by simp)]
      exact .inl rfl
  | cancel id => cases hsub

/-- A submission that is turned away is numbered and stored, and nothing else. -/
theorem Stocked.exists_turnedAway (h : b.Stocked b.nextOrderId)
    (hsub : event.submission = some (sub, policy))
    (hturns : (b.newOrder sub).2.turnsAway (b.newOrder sub).1 = true) :
    ∃ b', b.replayEvent 0 event = some (b', []) ∧
      b'.market = { b.market with
        nextOrderId := b.nextOrderId + 1, nextTimestamp := b.nextTimestamp + 1 } ∧
      b'.Stocked (b.nextOrderId + 1) := by
  have hid : b.nextOrderId ≤ (b.newOrder sub).1.id := le_rfl
  have hm : (b.newOrder sub).2.matchOrder 0 (b.newOrder sub).1 policy =
      some ⟨(b.newOrder sub).2, (b.newOrder sub).1.cancel, ⟨[], 0, true⟩⟩ := by
    rw [matchOrder, hturns, if_pos rfl]
  obtain ⟨b', hreplay, hb'⟩ := replayEvent_of_match hsub hm
  obtain ⟨hmarket, hst⟩ := (h.newOrder sub).market_stored hid (by simpa using hb')
  have hcounted : (b.newOrder sub).2.market = { b.market with
      nextOrderId := b.nextOrderId + 1, nextTimestamp := b.nextTimestamp + 1 } :=
    Market.ext (funext fun s ↦ congrArg (List.map RestingLevel.unplaced)
      (b.resting_newOrder sub s)) rfl rfl rfl
  exact ⟨b', hreplay, hmarket.trans hcounted, hst.mono (Nat.le_succ _)⟩

/-- A submission that is matched, and rests whole if it rests, does to the market what it is for. -/
theorem Stocked.exists_matched (h : b.Stocked b.nextOrderId)
    (hfits : Fits b.market policy sub) (hwhole : RestsWhole b.market policy sub)
    (hsub : event.submission = some (sub, policy))
    (hkept : (b.newOrder sub).2.turnsAway (b.newOrder sub).1 = false) :
    ∃ fuel b', b.replayEvent fuel event = some (b', (b.market.record policy sub).trades) ∧
      b'.market = b.market.matched policy sub ∧ b'.Stocked (b.nextOrderId + 1) := by
  have hid : b.nextOrderId ≤ (b.newOrder sub).1.id := le_rfl
  obtain ⟨fuel, r, hm, hst, hmarket, htrades, hrem⟩ := h.exists_match hkept policy
  obtain ⟨b', hreplay, hb'⟩ := replayEvent_of_match hsub hm
  rw [htrades] at hreplay
  have hrests : b.market.Rests policy sub ↔
      r.result.remainingQuantity > 0 ∧ sub.timeInForce = .gtc := by
    rw [Market.Rests, hrem]
    cases (b.market.walkOf policy sub).stp <;> simp [Nat.pos_iff_ne_zero, and_comm]
  refine ⟨fuel, b', hreplay, ?_⟩
  rw [Market.matched, ← hmarket]
  by_cases hr : b.market.Rests policy sub
  · -- the order that rests is the one that was numbered
    obtain rfl : b' = _ := (if_pos (hrests.mp hr)).mp hb'
    have hleft := hwhole hr
    have hstored := hst.market_storeOrder (hst.notMem hid)
    have hget : (r.book.storeOrder (b.newOrder sub).1).orders.get? (b.newOrder sub).1.id =
        some (b.newOrder sub).1 := by
      rw [Book.storeOrder, OrdMap.get?_insert, if_pos rfl]
    have hroom := hfits.room hr
    rw [hleft, ← b.market.totalAt_walked policy, ← hmarket, ← hstored] at hroom
    obtain ⟨hadd, hst'⟩ :=
      (hst.storeOrder (hst.notMem hid)).1.market_addOrder hget rfl hfits.pos hroom
    rw [if_pos hr, hadd, hstored, b.market.rested_incoming_record policy sub hleft]
    exact ⟨rfl, hst'⟩
  · have hstored := (if_neg (hrests.not.mp hr)).mp hb'
    obtain ⟨hsame, hst'⟩ := hst.market_stored hid hstored
    rw [if_neg hr]
    exact ⟨hsame, hst'.mono (Nat.le_succ _)⟩

/-- A submission that fits, and rests whole if it rests, does to the market what it is for. -/
theorem Stocked.exists_submit (h : b.Stocked b.nextOrderId)
    (hfits : Fits b.market policy sub) (hwhole : RestsWhole b.market policy sub)
    (hsub : event.submission = some (sub, policy)) :
    ∃ fuel b', b.replayEvent fuel event = some (b', (b.market.submit policy sub).2) ∧
      b'.market = (b.market.submit policy sub).1 ∧ b'.Stocked b'.nextOrderId := by
  have hturns := h.turnsAway_newOrder hfits.depth
  have hnext {b' : Book} (hb' : b'.market = (b.market.submit policy sub).1)
      (hst : b'.Stocked (b.nextOrderId + 1)) : b'.Stocked b'.nextOrderId := by
    have hid : b'.nextOrderId = b.nextOrderId + 1 :=
      (congrArg Market.nextOrderId hb').trans (b.market.nextOrderId_submit policy sub)
    rwa [hid]
  cases hkept : b.market.turnsAway sub with
  | true =>
      obtain ⟨b', hreplay, hmarket, hst⟩ := h.exists_turnedAway hsub (hturns.trans hkept)
      have hsubmit : b.market.submit policy sub = (b'.market, []) := by
        rw [Market.submit, hkept, if_pos rfl, hmarket]
        rfl
      rw [hsubmit] at hnext ⊢
      exact ⟨0, b', hreplay, rfl, hnext rfl hst⟩
  | false =>
      obtain ⟨fuel, b', hreplay, hmarket, hst⟩ :=
        h.exists_matched hfits hwhole hsub (hturns.trans hkept)
      have hsubmit : b.market.submit policy sub =
          (b'.market, (b.market.record policy sub).trades) := by
        rw [Market.submit, hkept, if_neg (by simp), hmarket]
      rw [hsubmit] at hnext ⊢
      exact ⟨fuel, b', hreplay, rfl, hnext rfl hst⟩

end Submit

/-! ## Cancellations -/

/-- Nothing is taken off a level. -/
theorem removeQuantity_zero {levels : List PriceLevel} (p : Price)
    (h : ∀ level ∈ levels, 0 < level.quantity ∧ level.quantity ≤ int64Max) :
    removeQuantity p 0 levels = levels := by
  induction levels with
  | nil => rfl
  | cons head tail ih =>
      obtain ⟨hpos, hle⟩ := h head List.mem_cons_self
      simp only [int64Max] at hle
      have hwrap : wrapI64 (head.quantity - 0) = head.quantity := by
        rw [sub_zero]
        exact Int.bmod_eq_of_le (by lia) (by lia)
      rw [removeQuantity, hwrap, ih fun level hl ↦ h level (List.mem_cons_of_mem _ hl)]
      simp [not_le.mpr hpos]

/-- An order that is not queued has left no trace in the market, and cancelling it leaves none. -/
theorem Stocked.market_cancel (h : b.Stocked next) {id : OrderId}
    (hout : ∀ o, b.orders.get? id = some o → o.isActive = true →
      ∀ s, ∀ level ∈ b.levels s, id ∉ level.orders) :
    (b.cancel id).market = b.market ∧ (b.cancel id).Stocked next := by
  rw [cancel]
  cases ho : b.getOrder id with
  | none => exact ⟨rfl, h⟩
  | some o =>
      dsimp only
      split_ifs with ha
      · have hid : o.cancel.id = id := h.stored id o ho
        have hcancelled : ∀ s, ∀ level ∈ b.levels s, o.cancel.id ∉ level.orders := by
          rw [hid]
          exact hout o ho ha
        have hstored := (h.storeOrder hcancelled).1
        have hlevels (s : Side) : ((b.storeOrder o.cancel).removeOrder o.cancel).levels s =
            (b.storeOrder o.cancel).levels s := by
          rw [removeOrder, levels_removeFrom]
          split_ifs with hs
          · exact removeQuantity_zero _ fun level hl ↦
              ⟨(hstored.level s level hl).pos, (hstored.level s level hl).le⟩
          · rfl
        have horders : ((b.storeOrder o.cancel).removeOrder o.cancel).orders =
            (b.storeOrder o.cancel).orders := orders_removeFrom _ _ _ _
        refine ⟨Eq.trans ?_ (h.market_storeOrder hcancelled), hstored.of_counters hlevels horders⟩
        exact Market.ext (funext fun s ↦ congrArg (List.map RestingLevel.unplaced)
            (resting_of_counters (hlevels s) horders))
          (nextOrderId_removeFrom _ _ _ _) (nextTradeId_removeFrom _ _ _ _)
          (nextTimestamp_removeFrom _ _ _ _)
      · exact ⟨rfl, h⟩

end Book

end Nanobook.Oracle
