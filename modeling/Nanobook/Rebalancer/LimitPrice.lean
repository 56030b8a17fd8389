import Nanobook.Rebalancer.Trades

/-!
# Limits that can be traded

Buys get the middle with the offset added, sells with the offset taken off.  The orders for targets
keep to this.  The orders that close a position do not: the flag for their limit is that of the
position and not of the trade, so they are only right where the offset comes to nothing.
-/

namespace Nanobook.Rebalancer

variable {W : Type} {targetValue : Int64 → W → Int64} {equityCents : Int64}
  {currentPositions : List CurrentPosition} {targets : List (Symbol × W)}
  {prices : List (Symbol × Int64)} {limitOffsetBps : UInt32} {minTradeCents : Int64}

/-- The limit is above the middle for a purchase, and below it for a sale. -/
def Marketable (prices : List (Symbol × Int64)) (limitOffsetBps : UInt32) (o : RebalanceOrder) :
    Prop :=
  ∀ mid, collected prices o.symbol = some mid →
    o.limitPriceCents.toInt =
      match actionToSide o.action with
      | .buy => mid.toInt + limitOffset limitOffsetBps mid
      | .sell => mid.toInt - limitOffset limitOffsetBps mid

/-- An order for a target is given the limit of its side. -/
theorem marketable_of_targetOrder {target : Symbol × W} {o : RebalanceOrder}
    (h : NoOverflow targetValue equityCents currentPositions targets prices limitOffsetBps
      minTradeCents) (ht : target ∈ targets)
    (ho : targetOrder targetValue equityCents currentPositions prices limitOffsetBps minTradeCents
      target = some o) : Marketable prices limitOffsetBps o := by
  obtain ⟨hsymbol, price, hprice, -, d, -, -, -, -, hside, hlimit⟩ := targetOrder_spec h ht ho
  intro mid hmid
  obtain rfl : price = mid := by rwa [hsymbol, hprice, Option.some.injEq] at hmid
  rw [hlimit, hside]
  split_ifs <;> rfl

/-- An order that closes a position is given the limit of the other side. -/
theorem marketable_iff_of_closingOrder {pos : CurrentPosition} {o : RebalanceOrder}
    (h : NoOverflow targetValue equityCents currentPositions targets prices limitOffsetBps
      minTradeCents) (hpos : pos ∈ currentPositions)
    (ho : closingOrder targets prices limitOffsetBps pos = some o) :
    Marketable prices limitOffsetBps o ↔
      ∀ mid, collected prices pos.symbol = some mid → limitOffset limitOffsetBps mid = 0 := by
  obtain ⟨hzero, -, hsymbol, -, hside, price, hprice, hlimit⟩ := closingOrder_spec h hpos ho
  rw [Ne, ← Int64.toInt_inj, Int64.toInt_zero] at hzero
  simp only [Int64.lt_iff_toInt_lt, Int64.toInt_zero] at hlimit
  simp only [Marketable, hsymbol, hprice, Option.some.injEq, forall_eq', hside, hlimit]
  rcases lt_or_gt_of_ne hzero with hshort | hlong
  · rw [if_pos hshort, if_pos (by omega)]
    simp only
    omega
  · rw [if_neg (by omega), if_neg (by omega)]
    simp only
    omega

/-- A position that is closed gives an order. -/
theorem exists_closingOrder (limitOffsetBps : UInt32) {pos : CurrentPosition}
    (hzero : pos.quantity ≠ 0)
    (htarget : collected targets pos.symbol = none) {mid : Int64}
    (hmid : collected prices pos.symbol = some mid) :
    ∃ o, closingOrder targets prices limitOffsetBps pos = some o :=
  ⟨_, closingOrder_eq_some_iff.mpr ⟨hzero, htarget, mid, hmid, rfl⟩⟩

/-- All limits are on the right side, just where none of the positions to be closed has an offset
for its limit. -/
theorem marketable_iff (h : NoOverflow targetValue equityCents currentPositions targets prices
      limitOffsetBps minTradeCents) :
    (∀ o ∈ computeDiff targetValue equityCents currentPositions targets prices limitOffsetBps
        minTradeCents, Marketable prices limitOffsetBps o) ↔
      ∀ pos ∈ currentPositions, pos.quantity ≠ 0 → collected targets pos.symbol = none →
        ∀ mid, collected prices pos.symbol = some mid → limitOffset limitOffsetBps mid = 0 := by
  simp only [computeDiff, List.mem_append, List.mem_filterMap]
  constructor
  · intro hall pos hpos hzero htarget mid hmid
    obtain ⟨o, ho⟩ := exists_closingOrder limitOffsetBps hzero htarget hmid
    exact (marketable_iff_of_closingOrder h hpos ho).mp (hall o (.inl ⟨pos, hpos, ho⟩)) mid hmid
  · rintro hall o (⟨pos, hpos, ho⟩ | ⟨target, ht, ho⟩)
    · obtain ⟨hzero, htarget, -⟩ := closingOrder_spec h hpos ho
      exact (marketable_iff_of_closingOrder h hpos ho).mpr (hall pos hpos hzero htarget)
    · exact marketable_of_targetOrder h ht ho

/-- The second hundred is bought at $200.20. -/
theorem marketable_iff_hundredAapl :
    (computeDiff (fun _ (_ : Unit) ↦ 4000000) 4000000 [hundredAapl] [(⟨"AAPL", by decide⟩, ())]
      aaplPrices 10 0).map RebalanceOrder.limitPriceCents = [20020] ∧
    ∀ o ∈ computeDiff (fun _ (_ : Unit) ↦ 4000000) 4000000 [hundredAapl]
      [(⟨"AAPL", by decide⟩, ())] aaplPrices 10 0, Marketable aaplPrices 10 o := by
  refine ⟨by decide +kernel, (marketable_iff noOverflow_hundredAapl).mpr ?_⟩
  intro pos hpos _ htarget
  obtain rfl := List.mem_singleton.mp hpos
  cases htarget

/-- The shares are sold without a target, with a limit above the middle. -/
theorem not_marketable :
    ¬ ∀ (targetValue : Int64 → Unit → Int64) (equityCents : Int64)
      (currentPositions : List CurrentPosition) (targets : List (Symbol × Unit))
      (prices : List (Symbol × Int64)) (limitOffsetBps : UInt32) (minTradeCents : Int64),
      (∀ entry ∈ prices, 0 < entry.2.toInt) →
      NoOverflow targetValue equityCents currentPositions targets prices limitOffsetBps
        minTradeCents →
      ∀ o ∈ computeDiff targetValue equityCents currentPositions targets prices limitOffsetBps
        minTradeCents, Marketable prices limitOffsetBps o := by
  intro h
  have hfits : NoOverflow (fun _ (_ : Unit) ↦ 0) 4000000 [hundredAapl] [] aaplPrices 10 0 := by
    refine ⟨fun pos hpos _ _ price hprice ↦ ?_, by simp, by simp⟩
    obtain rfl := List.mem_singleton.mp hpos
    obtain rfl := collected_aaplPrices hprice
    exact ⟨by decide +kernel, by decide +kernel, by decide +kernel, by decide +kernel⟩
  have hpos : hundredAapl ∈ [hundredAapl] := List.mem_singleton_self _
  have hzero : hundredAapl.quantity ≠ 0 := by decide
  have htarget : collected ([] : List (Symbol × Unit)) hundredAapl.symbol = none := rfl
  have hprice : collected aaplPrices hundredAapl.symbol = some 20000 := rfl
  obtain ⟨o, ho⟩ := exists_closingOrder 10 hzero htarget hprice
  have hmem : o ∈ computeDiff (fun _ (_ : Unit) ↦ 0) 4000000 [hundredAapl] [] aaplPrices 10 0 :=
    List.mem_append_left _ (List.mem_filterMap.mpr ⟨_, hpos, ho⟩)
  have hmarketable := h _ _ _ _ _ _ _ (by decide) hfits o hmem
  have hoffset := (marketable_iff_of_closingOrder hfits hpos ho).mp hmarketable 20000 hprice
  exact absurd hoffset (by decide +kernel)

end Nanobook.Rebalancer
