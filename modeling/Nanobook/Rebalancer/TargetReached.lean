import Nanobook.Lib.Keyed
import Nanobook.Rebalancer.Trades

/-!
# A plan leads to its targets

Filled in full, the orders of a plan close what has no target and bring each target to within less
than the price of one share, without passing it.  What is left for a second plan are the trades that
were too small for the first.
-/

namespace Nanobook.Rebalancer

/-! ## Shares after a plan -/

/-- The shares of a symbol that orders move. -/
def orderedShares (orders : List RebalanceOrder) (sym : Symbol) : Int :=
  ((orders.filter fun o ↦ o.symbol = sym).map RebalanceOrder.signedShares).sum

/-- The shares of a symbol once all orders are filled. -/
def sharesAfter (currentPositions : List CurrentPosition) (orders : List RebalanceOrder)
    (sym : Symbol) : Int :=
  (held currentPositions sym).toInt + orderedShares orders sym

section SharesAfter

variable {currentPositions : List CurrentPosition} {orders : List RebalanceOrder}
  {o : RebalanceOrder} {sym : Symbol} {pos : CurrentPosition}

theorem sharesAfter_of_mem (currentPositions : List CurrentPosition)
    (hdistinct : (orders.map RebalanceOrder.symbol).Nodup) (ho : o ∈ orders) :
    sharesAfter currentPositions orders o.symbol =
      (held currentPositions o.symbol).toInt + o.signedShares := by
  rw [sharesAfter, orderedShares, Keyed.filter_key_eq hdistinct ho, List.map_singleton,
    List.sum_singleton]

theorem sharesAfter_of_forall_ne (h : ∀ o ∈ orders, o.symbol ≠ sym) :
    sharesAfter currentPositions orders sym = (held currentPositions sym).toInt := by
  have hnone : orders.filter (fun o ↦ o.symbol = sym) = [] :=
    List.filter_eq_nil_iff.mpr fun o ho ↦ by simpa using h o ho
  rw [sharesAfter, orderedShares, hnone, List.map_nil, List.sum_nil, Int.add_zero]

theorem held_of_mem (hdistinct : (currentPositions.map CurrentPosition.symbol).Nodup)
    (hpos : pos ∈ currentPositions) : held currentPositions pos.symbol = pos.quantity := by
  have hpairs : ((currentPositions.map fun p ↦ (p.symbol, p.quantity)).map Prod.fst).Nodup := by
    rwa [List.map_map]
  rw [held, (collected_eq_some_iff hpairs).mpr (List.mem_map.mpr ⟨pos, hpos, rfl⟩),
    Option.getD_some]

theorem held_of_forall_ne (h : ∀ pos ∈ currentPositions, pos.symbol ≠ sym) :
    held currentPositions sym = 0 := by
  have hnone : collected (currentPositions.map fun p ↦ (p.symbol, p.quantity)) sym = none := by
    rw [← Option.isNone_iff_eq_none, collected_isNone_iff, List.map_map]
    intro hmem
    obtain ⟨pos, hpos, rfl⟩ := List.mem_map.mp hmem
    exact h pos hpos rfl
  rw [held, hnone, Option.getD_none]

end SharesAfter

/-- A truncated quotient times its divisor lies between zero and what was divided, and less than the
divisor away from it. -/
theorem tdiv_mul_bounds (x : Int) {p : Int} (hp : 0 < p) :
    |x - x.tdiv p * p| < p ∧
      (0 ≤ x.tdiv p * p ∧ x.tdiv p * p ≤ x ∨ x ≤ x.tdiv p * p ∧ x.tdiv p * p ≤ 0) := by
  have hnonneg (y : Int) (hy : 0 ≤ y) : 0 ≤ y.tdiv p * p ∧ y.tdiv p * p ≤ y ∧
      y < y.tdiv p * p + p := by
    have hmod := Int.tmod_add_tdiv_mul y p
    have hlt := Int.tmod_lt_of_pos y hp
    have hmul := Int.mul_nonneg (Int.tdiv_nonneg hy hp.le) hp.le
    have hrest := Int.tmod_nonneg p hy
    omega
  rw [abs_lt]
  rcases le_total 0 x with hx | hx
  · have h := hnonneg x hx
    omega
  · have h := hnonneg (-x) (by omega)
    rw [Int.neg_tdiv, Int.neg_mul] at h
    omega

section Plan

variable {W : Type} (targetValue : Int64 → W → Int64) (equityCents : Int64)
  (currentPositions : List CurrentPosition) (targets : List (Symbol × W))
  (prices : List (Symbol × Int64)) (limitOffsetBps : UInt32) (minTradeCents : Int64)

/-- The trade for a target would be of no shares, or is below the minimum. -/
def Suppressed (target : Symbol × W) (price : Int64) : Prop :=
  shareDiff targetValue equityCents currentPositions target price = 0 ∨
    |shareDiff targetValue equityCents currentPositions target price| * price.toInt <
      minTradeCents.toInt

/-- A value is less than the price of a share away from the target, between it and the value
before. -/
def Near (price before after target : Int) : Prop :=
  |target - after| < price ∧ (before ≤ after ∧ after ≤ target ∨ target ≤ after ∧ after ≤ before)

/-- What the orders of a plan do to the positions once they are filled, and what a second plan
without a minimum makes of that. -/
structure ReachesTargets : Prop where
  distinct : ((computeDiff targetValue equityCents currentPositions targets prices limitOffsetBps
    minTradeCents).map RebalanceOrder.symbol).Nodup
  untargeted : ∀ sym price, collected prices sym = some price → collected targets sym = none →
    sharesAfter currentPositions (computeDiff targetValue equityCents currentPositions targets
      prices limitOffsetBps minTradeCents) sym = 0
  unpriced : ∀ sym, collected prices sym = none →
    sharesAfter currentPositions (computeDiff targetValue equityCents currentPositions targets
      prices limitOffsetBps minTradeCents) sym = (held currentPositions sym).toInt
  suppressed : ∀ target ∈ targets, ∀ price, collected prices target.1 = some price →
    Suppressed targetValue equityCents currentPositions minTradeCents target price →
      sharesAfter currentPositions (computeDiff targetValue equityCents currentPositions targets
        prices limitOffsetBps minTradeCents) target.1 = (held currentPositions target.1).toInt
  traded : ∀ target ∈ targets, ∀ price, collected prices target.1 = some price →
    ¬ Suppressed targetValue equityCents currentPositions minTradeCents target price →
      Near price.toInt (heldValue currentPositions target.1 price)
        (sharesAfter currentPositions (computeDiff targetValue equityCents currentPositions targets
          prices limitOffsetBps minTradeCents) target.1 * price.toInt)
        (targetValue equityCents target.2).toInt
  again : ∀ positions', (positions'.map CurrentPosition.symbol).Nodup →
    (∀ sym, (held positions' sym).toInt =
      sharesAfter currentPositions (computeDiff targetValue equityCents currentPositions targets
        prices limitOffsetBps minTradeCents) sym) →
    ∀ o, o ∈ computeDiff targetValue equityCents positions' targets prices limitOffsetBps 0 ↔
      o ∈ computeDiff targetValue equityCents currentPositions targets prices limitOffsetBps 0 ∧
        o ∉ computeDiff targetValue equityCents currentPositions targets prices limitOffsetBps
          minTradeCents

variable {targetValue equityCents currentPositions targets prices limitOffsetBps minTradeCents}
  {target : Symbol × W} {price : Int64} {o o' : RebalanceOrder}

theorem mem_computeDiff : o ∈ computeDiff targetValue equityCents currentPositions targets prices
      limitOffsetBps minTradeCents ↔
    (∃ pos ∈ currentPositions, closingOrder targets prices limitOffsetBps pos = some o) ∨
      ∃ target ∈ targets, targetOrder targetValue equityCents currentPositions prices
        limitOffsetBps minTradeCents target = some o := by
  rw [computeDiff, List.mem_append, List.mem_filterMap, List.mem_filterMap]

theorem closingOrder_symbol {pos : CurrentPosition}
    (ho : closingOrder targets prices limitOffsetBps pos = some o) : o.symbol = pos.symbol := by
  obtain ⟨-, -, price, -, rfl⟩ := closingOrder_eq_some_iff.mp ho
  rfl

theorem targetOrder_symbol (ho : targetOrder targetValue equityCents currentPositions prices
      limitOffsetBps minTradeCents target = some o) :
    o.symbol = target.1 ∧ ∃ price, collected prices target.1 = some price := by
  obtain ⟨price, hprice, -, diffQty, -, -, -, rfl⟩ := targetOrder_eq_some_iff.mp ho
  exact ⟨rfl, price, hprice⟩

theorem collected_ne_none (ht : target ∈ targets) : collected targets target.1 ≠ none := fun hnone ↦
  collected_isNone_iff.mp (Option.isNone_iff_eq_none.mpr hnone) (List.mem_map_of_mem ht)

/-- There is at most one order for a symbol. -/
theorem nodup_computeDiff (hpositions : (currentPositions.map CurrentPosition.symbol).Nodup)
    (htargets : (targets.map Prod.fst).Nodup) :
    ((computeDiff targetValue equityCents currentPositions targets prices limitOffsetBps
      minTradeCents).map RebalanceOrder.symbol).Nodup := by
  rw [computeDiff, List.map_append]
  refine List.Nodup.append ?_ ?_ fun sym hclosing hmoving ↦ ?_
  · exact (Keyed.sublist_map_filterMap fun pos _ o ho ↦ closingOrder_symbol ho).nodup hpositions
  · exact (Keyed.sublist_map_filterMap fun target _ o ho ↦ (targetOrder_symbol ho).1).nodup htargets
  · obtain ⟨o, ho, rfl⟩ := List.mem_map.mp hclosing
    obtain ⟨o', ho', heq⟩ := List.mem_map.mp hmoving
    obtain ⟨pos, -, ho⟩ := List.mem_filterMap.mp ho
    obtain ⟨target, ht, ho'⟩ := List.mem_filterMap.mp ho'
    obtain ⟨-, hnone, -⟩ := closingOrder_eq_some_iff.mp ho
    rw [← closingOrder_symbol ho, ← heq, (targetOrder_symbol ho').1] at hnone
    exact collected_ne_none ht hnone

section Exact

variable (h : NoOverflow targetValue equityCents currentPositions targets prices limitOffsetBps
  minTradeCents) (ht : target ∈ targets) (hprice : collected prices target.1 = some price)
  (hpos : 0 < price.toInt)

include h ht hprice hpos

/-- Under any minimum a target is traded unless that is suppressed. -/
theorem exists_targetOrder_iff (minTrade : Int64) :
    (∃ o, targetOrder targetValue equityCents currentPositions prices limitOffsetBps minTrade
      target = some o) ↔
    ¬ Suppressed targetValue equityCents currentPositions minTrade target price := by
  have hd := toInt_diffQty h ht hprice hpos
  have hfits := h.trade target ht price hprice hpos
  simp only [Suppressed, not_or, not_lt, targetOrder_eq_some_iff, hprice, Option.some.injEq,
    exists_eq_left', exists_eq_left]
  generalize (targetValue equityCents target.2 - held currentPositions target.1 * price) / price =
    diffQty at hd
  rw [← hd] at hfits ⊢
  rw [Ne, ← Int64.toInt_inj, Int64.toInt_zero]
  constructor
  · rintro ⟨o, -, hzero, hsmall, -⟩
    obtain ⟨habs, hnotional, -⟩ := hfits hzero
    have hshares := toInt_abs_of_fits habs
    rw [Int64.le_iff_toInt_le, toInt_mul_of_fits (by rwa [hshares]), hshares] at hsmall
    exact ⟨hzero, hsmall⟩
  · rintro ⟨hzero, hsmall⟩
    obtain ⟨habs, hnotional, -⟩ := hfits hzero
    have hshares := toInt_abs_of_fits habs
    refine ⟨_, Int64.lt_iff_toInt_lt.mpr hpos, hzero, ?_, rfl⟩
    rwa [Int64.le_iff_toInt_le, toInt_mul_of_fits (by rwa [hshares]), hshares]

/-- What remains of a target after its trade is no trade. -/
theorem diffQty_after (positions' : List CurrentPosition)
    (hheld : (held positions' target.1).toInt = (held currentPositions target.1).toInt +
      shareDiff targetValue equityCents currentPositions target price) :
    (targetValue equityCents target.2 - held positions' target.1 * price) / price = 0 := by
  obtain ⟨hvalue, hdiff⟩ := h.value target ht price hprice hpos
  obtain ⟨hnear, hside⟩ := tdiv_mul_bounds
    ((targetValue equityCents target.2).toInt - heldValue currentPositions target.1 price) hpos
  have htarget := inI64_toInt (targetValue equityCents target.2)
  have hprice' := inI64_toInt price
  have hafter : (held positions' target.1).toInt * price.toInt =
      heldValue currentPositions target.1 price +
        shareDiff targetValue equityCents currentPositions target price * price.toInt := by
    rw [hheld, Int.add_mul]
    rfl
  rw [shareDiff] at hafter
  generalize ((targetValue equityCents target.2).toInt -
    heldValue currentPositions target.1 price).tdiv price.toInt * price.toInt = moved at *
  rw [abs_lt] at hnear
  have hmul := toInt_mul_of_fits (a := held positions' target.1) (b := price) (by
    rw [hafter]
    simp only [InI64, i64Min, i64Max] at *
    omega)
  have hsub := toInt_sub_of_fits (a := targetValue equityCents target.2)
    (b := held positions' target.1 * price) (by
      rw [hmul, hafter]
      simp only [InI64, i64Min, i64Max] at *
      omega)
  rw [← Int64.toInt_inj, toInt_div_of_pos hpos, hsub, hmul, hafter]
  refine Int.natAbs_eq_zero.mp ?_
  rw [Int.natAbs_tdiv]
  exact Nat.div_eq_of_lt (by omega)

end Exact

/-- An order for the symbol of a target is the one for the target. -/
theorem targetOrder_of_mem (htargets : (targets.map Prod.fst).Nodup) (ht : target ∈ targets)
    (ho : o ∈ computeDiff targetValue equityCents currentPositions targets prices limitOffsetBps
      minTradeCents) (hsymbol : o.symbol = target.1) :
    targetOrder targetValue equityCents currentPositions prices limitOffsetBps minTradeCents
      target = some o := by
  rcases mem_computeDiff.mp ho with ⟨pos, -, ho⟩ | ⟨target', ht', ho⟩
  · obtain ⟨-, hnone, -⟩ := closingOrder_eq_some_iff.mp ho
    rw [← closingOrder_symbol ho, hsymbol] at hnone
    exact absurd hnone (collected_ne_none ht)
  · have heq := List.inj_on_of_nodup_map htargets ht' ht
      ((targetOrder_symbol ho).1.symm.trans hsymbol)
    rwa [heq] at ho

section Distinct

variable (hpositions : (currentPositions.map CurrentPosition.symbol).Nodup)
  (htargets : (targets.map Prod.fst).Nodup)
  (h : NoOverflow targetValue equityCents currentPositions targets prices limitOffsetBps
    minTradeCents)

include hpositions htargets h

theorem sharesAfter_of_targetOrder (ht : target ∈ targets)
    (ho : targetOrder targetValue equityCents currentPositions prices limitOffsetBps minTradeCents
      target = some o) (hprice : collected prices target.1 = some price) :
    sharesAfter currentPositions (computeDiff targetValue equityCents currentPositions targets
      prices limitOffsetBps minTradeCents) target.1 = (held currentPositions target.1).toInt +
        shareDiff targetValue equityCents currentPositions target price := by
  obtain ⟨hsymbol, price', hprice', -, d, hd, -, -, hsigned, -⟩ := targetOrder_spec h ht ho
  obtain rfl : price' = price := Option.some.inj (hprice'.symm.trans hprice)
  have hmem := mem_computeDiff.mpr (.inr ⟨target, ht, ho⟩)
  have hafter := sharesAfter_of_mem currentPositions
    (nodup_computeDiff hpositions htargets) hmem
  rwa [hsymbol, hsigned, hd] at hafter

omit hpositions h in
theorem sharesAfter_of_targetOrder_none (ht : target ∈ targets)
    (ho : targetOrder targetValue equityCents currentPositions prices limitOffsetBps minTradeCents
      target = none) :
    sharesAfter currentPositions (computeDiff targetValue equityCents currentPositions targets
      prices limitOffsetBps minTradeCents) target.1 = (held currentPositions target.1).toInt := by
  refine sharesAfter_of_forall_ne fun o hmem hsymbol ↦ ?_
  rw [targetOrder_of_mem htargets ht hmem hsymbol] at ho
  cases ho

/-- A position without a target is closed where there is a price. -/
theorem sharesAfter_of_untargeted {sym : Symbol} (hprice : collected prices sym = some price)
    (hnone : collected targets sym = none) :
    sharesAfter currentPositions (computeDiff targetValue equityCents currentPositions targets
      prices limitOffsetBps minTradeCents) sym = 0 := by
  have hfrom (o : RebalanceOrder) (ho : o ∈ computeDiff targetValue equityCents currentPositions
      targets prices limitOffsetBps minTradeCents) (hsymbol : o.symbol = sym) :
      ∃ pos ∈ currentPositions, pos.symbol = sym ∧ pos.quantity ≠ 0 := by
    rcases mem_computeDiff.mp ho with ⟨pos, hpos, ho⟩ | ⟨target, ht, ho⟩
    · exact ⟨pos, hpos, (closingOrder_symbol ho).symm.trans hsymbol,
        (closingOrder_eq_some_iff.mp ho).1⟩
    · rw [← hsymbol, (targetOrder_symbol ho).1] at hnone
      exact absurd hnone (collected_ne_none ht)
  by_cases hopen : ∃ pos ∈ currentPositions, pos.symbol = sym ∧ pos.quantity ≠ 0
  · obtain ⟨pos, hpos, rfl, hzero⟩ := hopen
    obtain ⟨o, ho⟩ : ∃ o, closingOrder targets prices limitOffsetBps pos = some o :=
      ⟨_, closingOrder_eq_some_iff.mpr ⟨hzero, hnone, price, hprice, rfl⟩⟩
    have hmem : o ∈ computeDiff targetValue equityCents currentPositions targets prices
        limitOffsetBps minTradeCents := mem_computeDiff.mpr (.inl ⟨pos, hpos, ho⟩)
    obtain ⟨-, -, hsymbol, hsigned, -⟩ := closingOrder_spec h hpos ho
    rw [← hsymbol, sharesAfter_of_mem _ (nodup_computeDiff hpositions htargets) hmem, hsymbol,
      hsigned, held_of_mem hpositions hpos, Int.add_right_neg]
  · rw [sharesAfter_of_forall_ne fun o ho hsymbol ↦ hopen (hfrom o ho hsymbol)]
    by_cases hpos : ∃ pos ∈ currentPositions, pos.symbol = sym
    · obtain ⟨pos, hpos, rfl⟩ := hpos
      rw [held_of_mem hpositions hpos, not_not.mp fun hzero ↦ hopen ⟨pos, hpos, rfl, hzero⟩]
      rfl
    · rw [held_of_forall_ne fun pos hmem hsymbol ↦ hpos ⟨pos, hmem, hsymbol⟩]
      rfl

omit hpositions htargets h in
/-- Without a price there is no order. -/
theorem sharesAfter_of_unpriced {sym : Symbol} (hnone : collected prices sym = none) :
    sharesAfter currentPositions (computeDiff targetValue equityCents currentPositions targets
      prices limitOffsetBps minTradeCents) sym = (held currentPositions sym).toInt := by
  refine sharesAfter_of_forall_ne fun o ho hsymbol ↦ ?_
  rcases mem_computeDiff.mp ho with ⟨pos, -, ho⟩ | ⟨target, -, ho⟩
  · obtain ⟨-, -, price, hprice, -⟩ := closingOrder_eq_some_iff.mp ho
    rw [← closingOrder_symbol ho, hsymbol, hnone] at hprice
    cases hprice
  · obtain ⟨htarget, price, hprice⟩ := targetOrder_symbol ho
    rw [← htarget, hsymbol, hnone] at hprice
    cases hprice

omit hpositions htargets h in
/-- The minimum decides whether there is an order for a target, and not which one. -/
theorem targetOrder_eq_of_some {o' : RebalanceOrder} {minTradeCents' : Int64}
    (ho : targetOrder targetValue equityCents currentPositions prices limitOffsetBps minTradeCents
      target = some o)
    (ho' : targetOrder targetValue equityCents currentPositions prices limitOffsetBps minTradeCents'
      target = some o') : o = o' := by
  obtain ⟨price, hprice, -, diffQty, hdiffQty, -, -, rfl⟩ := targetOrder_eq_some_iff.mp ho
  obtain ⟨price', hprice', -, diffQty', hdiffQty', -, -, rfl⟩ := targetOrder_eq_some_iff.mp ho'
  obtain rfl : price = price' := Option.some.inj (hprice.symm.trans hprice')
  rw [← hdiffQty] at hdiffQty'
  rw [hdiffQty']

/-! ### A second plan -/

section Again

variable {positions' : List CurrentPosition}
  (hheld : ∀ sym, (held positions' sym).toInt = sharesAfter currentPositions
    (computeDiff targetValue equityCents currentPositions targets prices limitOffsetBps
      minTradeCents) sym)

include hheld

/-- Nothing is left to be closed. -/
theorem closingOrder_again (hpositions' : (positions'.map CurrentPosition.symbol).Nodup)
    {pos : CurrentPosition} (hpos : pos ∈ positions') :
    closingOrder targets prices limitOffsetBps pos = none := by
  rw [← Option.not_isSome_iff_eq_none, Option.isSome_iff_exists]
  rintro ⟨o, ho⟩
  obtain ⟨hzero, hnone, price, hprice, -⟩ := closingOrder_eq_some_iff.mp ho
  have hafter := hheld pos.symbol
  rw [held_of_mem hpositions' hpos,
    sharesAfter_of_untargeted hpositions htargets h hprice hnone] at hafter
  exact hzero (Int64.toInt_inj.mp hafter)

/-- A target that was traded is met, and one that was not is as it was. -/
theorem targetOrder_again (hprices : ∀ entry ∈ prices, 0 < entry.2.toInt) (ht : target ∈ targets) :
    targetOrder targetValue equityCents positions' prices limitOffsetBps 0 target = some o ↔
      targetOrder targetValue equityCents currentPositions prices limitOffsetBps 0 target =
          some o ∧
        targetOrder targetValue equityCents currentPositions prices limitOffsetBps minTradeCents
          target = none := by
  cases ho : targetOrder targetValue equityCents currentPositions prices limitOffsetBps
      minTradeCents target with
  | none =>
      have hsame : held positions' target.1 = held currentPositions target.1 :=
        Int64.toInt_inj.mp ((hheld target.1).trans
          (sharesAfter_of_targetOrder_none htargets ht ho))
      simp only [targetOrder_eq_some_iff, hsame, and_true]
  | some o' =>
      refine iff_of_false (fun ho' ↦ ?_) fun hnone ↦ by cases hnone.2
      obtain ⟨price, hprice, -, diffQty, hdiffQty, hzero, -⟩ := targetOrder_eq_some_iff.mp ho'
      refine hzero (hdiffQty.trans (diffQty_after h ht hprice
        (hprices _ (mem_of_collected hprice)) positions' ?_))
      rw [hheld, sharesAfter_of_targetOrder hpositions htargets h ht ho hprice]

/-- A second plan without a minimum makes the trades that were suppressed for their size. -/
theorem mem_computeDiff_again (hprices : ∀ entry ∈ prices, 0 < entry.2.toInt)
    (hpositions' : (positions'.map CurrentPosition.symbol).Nodup) :
    o ∈ computeDiff targetValue equityCents positions' targets prices limitOffsetBps 0 ↔
      o ∈ computeDiff targetValue equityCents currentPositions targets prices limitOffsetBps 0 ∧
        o ∉ computeDiff targetValue equityCents currentPositions targets prices limitOffsetBps
          minTradeCents := by
  constructor
  · intro hmem
    rcases mem_computeDiff.mp hmem with ⟨pos, hpos, ho⟩ | ⟨target, ht, ho⟩
    · rw [closingOrder_again hpositions htargets h hheld hpositions' hpos] at ho
      cases ho
    · obtain ⟨hfirst, hnone⟩ :=
        (targetOrder_again hpositions htargets h hheld hprices ht).mp ho
      refine ⟨mem_computeDiff.mpr (.inr ⟨target, ht, hfirst⟩), fun hmem ↦ ?_⟩
      rw [targetOrder_of_mem htargets ht hmem (targetOrder_symbol hfirst).1] at hnone
      cases hnone
  · rintro ⟨hmem, hnot⟩
    rcases mem_computeDiff.mp hmem with ⟨pos, hpos, ho⟩ | ⟨target, ht, hfirst⟩
    · exact absurd (mem_computeDiff.mpr (.inl ⟨pos, hpos, ho⟩)) hnot
    · refine mem_computeDiff.mpr (.inr ⟨target, ht,
        (targetOrder_again hpositions htargets h hheld hprices ht).mpr ⟨hfirst, ?_⟩⟩)
      by_contra hsome
      obtain ⟨o', ho'⟩ := Option.ne_none_iff_exists'.mp hsome
      obtain rfl := targetOrder_eq_of_some hfirst ho'
      exact hnot (mem_computeDiff.mpr (.inr ⟨target, ht, ho'⟩))

end Again

/-- The orders of a plan reach the targets. -/
theorem reachesTargets (hprices : ∀ entry ∈ prices, 0 < entry.2.toInt) :
    ReachesTargets targetValue equityCents currentPositions targets prices limitOffsetBps
      minTradeCents where
  distinct := nodup_computeDiff hpositions htargets
  untargeted _ _ hprice hnone := sharesAfter_of_untargeted hpositions htargets h hprice hnone
  unpriced _ hnone := sharesAfter_of_unpriced hnone
  suppressed target ht price hprice hsuppressed := by
    have hpos := hprices _ (mem_of_collected hprice)
    refine sharesAfter_of_targetOrder_none htargets ht ?_
    rw [← Option.not_isSome_iff_eq_none, Option.isSome_iff_exists,
      exists_targetOrder_iff h ht hprice hpos, not_not]
    exact hsuppressed
  traded target ht price hprice htraded := by
    have hpos := hprices _ (mem_of_collected hprice)
    obtain ⟨o, ho⟩ := (exists_targetOrder_iff h ht hprice hpos minTradeCents).mpr htraded
    rw [sharesAfter_of_targetOrder hpositions htargets h ht ho hprice, Int.add_mul]
    obtain ⟨hnear, hside⟩ := tdiv_mul_bounds
      ((targetValue equityCents target.2).toInt - heldValue currentPositions target.1 price) hpos
    rw [abs_lt] at hnear
    simp only [Near, shareDiff, abs_lt]
    simp only [heldValue] at *
    omega
  again _ hpositions' hheld _ :=
    mem_computeDiff_again hpositions htargets h hheld hprices hpositions'

end Distinct

end Plan

/-- The position grows to two hundred shares. -/
theorem reachesTargets_hundredAapl :
    sharesAfter [hundredAapl] (computeDiff (fun _ (_ : Unit) ↦ 4000000) 4000000 [hundredAapl]
      [(⟨"AAPL", by decide⟩, ())] aaplPrices 10 0) ⟨"AAPL", by decide⟩ = 200 ∧
    ReachesTargets (fun _ (_ : Unit) ↦ 4000000) 4000000 [hundredAapl]
      [(⟨"AAPL", by decide⟩, ())] aaplPrices 10 0 :=
  ⟨by decide +kernel, reachesTargets (List.nodup_singleton _) (List.nodup_singleton _)
    noOverflow_hundredAapl (by decide)⟩

end Nanobook.Rebalancer
