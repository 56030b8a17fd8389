import Nanobook.Portfolio.Arithmetic
import Nanobook.Rebalancer.Diff

/-!
# The trades of a plan

What an order of a plan says, over the integers: which position or target it comes from, how many
shares it moves to which side, and the limit it is given.  All of it holds as long as none of the
`i64` operations that were carried out overflows.
-/

namespace Nanobook.Rebalancer

/-! ## Arithmetic that does not overflow -/

section Fits

variable {a b : Int64}

theorem inI64_toInt (a : Int64) : InI64 a.toInt := ⟨a.le_toInt, Int.le_sub_one_of_lt a.toInt_lt⟩

theorem toInt_add_of_fits (h : InI64 (a.toInt + b.toInt)) : (a + b).toInt = a.toInt + b.toInt := by
  rw [Int64.toInt_add]
  exact wrapI64_eq h

theorem toInt_sub_of_fits (h : InI64 (a.toInt - b.toInt)) : (a - b).toInt = a.toInt - b.toInt := by
  rw [Int64.toInt_sub]
  exact wrapI64_eq h

theorem toInt_mul_of_fits (h : InI64 (a.toInt * b.toInt)) : (a * b).toInt = a.toInt * b.toInt := by
  rw [Int64.toInt_mul]
  exact wrapI64_eq h

theorem toInt_div_of_pos (hb : 0 < b.toInt) : (a / b).toInt = a.toInt.tdiv b.toInt :=
  Int64.toInt_div_of_ne_right a b fun h ↦ by
    rw [h] at hb
    exact absurd hb (by decide)

theorem toInt_abs_of_fits (h : InI64 |a.toInt|) : a.abs.toInt = |a.toInt| := by
  have hmin : a.toBitVec ≠ BitVec.intMin 64 := fun hmin ↦ by
    have hval : a.toInt = -2 ^ 63 := by
      rw [← Int64.toInt_toBitVec, hmin]
      rfl
    rw [hval] at h
    exact absurd h (by decide)
  have habs : a.abs.toInt = (a.toInt.natAbs : Int) := by
    rw [← Int64.toInt_toBitVec, ← Int64.toInt_toBitVec]
    exact BitVec.toInt_abs_eq_natAbs_of_ne_intMin hmin
  rw [habs, Int.abs_eq_natAbs]

end Fits

/-! ## Sides -/

/-- A trade is classified as one of its side, whatever the position. -/
theorem actionToSide_classifyTrade (currentQty : Int64) {diffQty : Int64} (h : diffQty ≠ 0) :
    actionToSide (classifyTrade currentQty diffQty).1 = if 0 < diffQty then .buy else .sell := by
  rw [Ne, ← Int64.toInt_inj, Int64.toInt_zero] at h
  simp only [classifyTrade, Int64.lt_iff_toInt_lt, Int64.le_iff_toInt_le, ← Int64.toInt_inj,
    Int64.toInt_zero]
  generalize diffQty.toInt = diff at h
  generalize currentQty.toInt = current
  rcases lt_or_gt_of_ne h with hneg | hpos
  · simp only [hneg, hneg.not_gt, and_true, true_and, false_and, and_false, if_false]
    split_ifs <;> first | rfl | omega
  · simp only [hpos, hpos.not_gt, and_true, true_and, false_and, and_false, if_true, if_false]
    split_ifs <;> rfl

/-- The shares of an order with the sign of its side. -/
def RebalanceOrder.signedShares (o : RebalanceOrder) : Int :=
  match actionToSide o.action with
  | .buy => o.shares.toInt
  | .sell => -o.shares.toInt

/-- What an order for the size of `d`, on the side of its sign, moves. -/
theorem signedShares_eq {o : RebalanceOrder} {d : Int} (hshares : o.shares.toInt = |d|)
    (hside : actionToSide o.action = if 0 < d then .buy else .sell) : o.signedShares = d := by
  rw [RebalanceOrder.signedShares, hside]
  rcases lt_or_ge 0 d with hpos | hneg
  · rw [if_pos hpos, hshares]
    exact abs_of_pos hpos
  · rw [if_neg (not_lt.mpr hneg), hshares, abs_of_nonpos hneg]
    exact neg_neg d

/-! ## Limits -/

section Limit

variable (limitOffsetBps : UInt32) (price : Int64) (isSell : Bool)

/-- The offset of a limit from the middle, towards zero. -/
def limitOffset : Int := (price.toInt * limitOffsetBps.toNat).tdiv 10000

/-- A limit is computed without an overflow. -/
def LimitFits : Prop :=
  InI64 (price.toInt * limitOffsetBps.toNat) ∧
    InI64 (if isSell then price.toInt - limitOffset limitOffsetBps price
      else price.toInt + limitOffset limitOffsetBps price)

variable {limitOffsetBps price isSell}

theorem toInt_computeLimitPrice (h : LimitFits limitOffsetBps price isSell) :
    (computeLimitPrice price isSell limitOffsetBps).toInt =
      if isSell then price.toInt - limitOffset limitOffsetBps price
      else price.toInt + limitOffset limitOffsetBps price := by
  obtain ⟨hmul, hsum⟩ := h
  have hbps : (Int64.ofNat limitOffsetBps.toNat).toInt = limitOffsetBps.toNat :=
    Int64.toInt_ofNat_of_lt (limitOffsetBps.toNat_lt.trans (by decide))
  have hoffset : (price * Int64.ofNat limitOffsetBps.toNat / 10000).toInt =
      limitOffset limitOffsetBps price := by
    rw [toInt_div_of_pos (by decide), toInt_mul_of_fits (by rwa [hbps]), hbps]
    rfl
  simp only [computeLimitPrice]
  cases isSell with
  | true => exact (toInt_sub_of_fits (by rw [hoffset]; exact hsum)).trans (by rw [hoffset]; rfl)
  | false => exact (toInt_add_of_fits (by rw [hoffset]; exact hsum)).trans (by rw [hoffset]; rfl)

end Limit

/-! ## Orders -/

section Plan

variable {W : Type} (targetValue : Int64 → W → Int64) (equityCents : Int64)
  (currentPositions : List CurrentPosition) (targets : List (Symbol × W))
  (prices : List (Symbol × Int64)) (limitOffsetBps : UInt32) (minTradeCents : Int64)

/-- The shares that are held of a symbol, none without a position. -/
def held (sym : Symbol) : Int64 :=
  (collected (currentPositions.map fun p ↦ (p.symbol, p.quantity)) sym).getD 0

/-- The value that is held of a symbol. -/
def heldValue (sym : Symbol) (price : Int64) : Int :=
  (held currentPositions sym).toInt * price.toInt

/-- The shares from a position to its target, as many as fit into the difference of the values. -/
def shareDiff (target : Symbol × W) (price : Int64) : Int :=
  ((targetValue equityCents target.2).toInt - heldValue currentPositions target.1 price).tdiv
    price.toInt

/-- No `i64` operation that `compute_diff` carries out overflows. -/
structure NoOverflow : Prop where
  closing : ∀ pos ∈ currentPositions, pos.quantity ≠ 0 → collected targets pos.symbol = none →
    ∀ price, collected prices pos.symbol = some price →
      InI64 |pos.quantity.toInt| ∧ InI64 (|pos.quantity.toInt| * price.toInt) ∧
        LimitFits limitOffsetBps price (pos.quantity < 0)
  value : ∀ target ∈ targets, ∀ price, collected prices target.1 = some price → 0 < price.toInt →
    InI64 (heldValue currentPositions target.1 price) ∧
      InI64 ((targetValue equityCents target.2).toInt -
        heldValue currentPositions target.1 price)
  trade : ∀ target ∈ targets, ∀ price, collected prices target.1 = some price → 0 < price.toInt →
    shareDiff targetValue equityCents currentPositions target price ≠ 0 →
      InI64 |shareDiff targetValue equityCents currentPositions target price| ∧
      InI64 (|shareDiff targetValue equityCents currentPositions target price| * price.toInt) ∧
      (minTradeCents.toInt ≤
          |shareDiff targetValue equityCents currentPositions target price| * price.toInt →
        LimitFits limitOffsetBps price
          (decide (¬ 0 < shareDiff targetValue equityCents currentPositions target price)))

variable {targetValue equityCents currentPositions targets prices limitOffsetBps minTradeCents}
  {pos : CurrentPosition} {target : Symbol × W} {o : RebalanceOrder}

/-- A position is closed where it is one, has no target and has a price. -/
theorem closingOrder_eq_some_iff : closingOrder targets prices limitOffsetBps pos = some o ↔
    pos.quantity ≠ 0 ∧ collected targets pos.symbol = none ∧
      ∃ price, collected prices pos.symbol = some price ∧
        o = { symbol := pos.symbol
              action := if 0 < pos.quantity then .sell else .buyCover
              shares := pos.quantity.abs
              limitPriceCents := computeLimitPrice price (pos.quantity < 0) limitOffsetBps
              description := if 0 < pos.quantity then "close long" else "close short" } := by
  rw [closingOrder]
  by_cases hzero : pos.quantity = 0
  · simp [hzero]
  · cases htarget : collected targets pos.symbol with
    | some w => simp [hzero]
    | none =>
        cases hprice : collected prices pos.symbol with
        | none => simp [hzero]
        | some price => by_cases hlong : 0 < pos.quantity <;> simp [hzero, hlong, eq_comm]

/-- An order that closes a position trades all of it, and takes its limit as if it traded the other
way. -/
theorem closingOrder_spec (h : NoOverflow targetValue equityCents currentPositions targets prices
      limitOffsetBps minTradeCents) (hpos : pos ∈ currentPositions)
    (ho : closingOrder targets prices limitOffsetBps pos = some o) :
    pos.quantity ≠ 0 ∧ collected targets pos.symbol = none ∧ o.symbol = pos.symbol ∧
      o.signedShares = -pos.quantity.toInt ∧
      actionToSide o.action = (if 0 < -pos.quantity.toInt then .buy else .sell) ∧
      ∃ price, collected prices pos.symbol = some price ∧
        o.limitPriceCents.toInt =
          if pos.quantity < 0 then price.toInt - limitOffset limitOffsetBps price
          else price.toInt + limitOffset limitOffsetBps price := by
  obtain ⟨hzero, htarget, price, hprice, rfl⟩ := closingOrder_eq_some_iff.mp ho
  obtain ⟨habs, -, hlimit⟩ := h.closing pos hpos hzero htarget price hprice
  have hside : actionToSide (if 0 < pos.quantity then Action.sell else .buyCover) =
      if 0 < -pos.quantity.toInt then .buy else .sell := by
    have hne : pos.quantity.toInt ≠ 0 := fun heq ↦ hzero (Int64.toInt_inj.mp heq)
    simp only [Int64.lt_iff_toInt_lt, Int64.toInt_zero]
    rcases lt_or_gt_of_ne hne with hshort | hlong
    · rw [if_neg (by omega), if_pos (by omega)]
      rfl
    · rw [if_pos hlong, if_neg (by omega)]
      rfl
  have hshares : pos.quantity.abs.toInt = |-pos.quantity.toInt| := by
    rw [abs_neg]
    exact toInt_abs_of_fits habs
  refine ⟨hzero, htarget, rfl, signedShares_eq hshares hside, hside, price, hprice, ?_⟩
  simpa using toInt_computeLimitPrice hlimit

/-- The difference to a target, as the machine computes it. -/
theorem toInt_diffQty (h : NoOverflow targetValue equityCents currentPositions targets prices
      limitOffsetBps minTradeCents) (ht : target ∈ targets) {price : Int64}
    (hprice : collected prices target.1 = some price) (hpos : 0 < price.toInt) :
    ((targetValue equityCents target.2 - held currentPositions target.1 * price) / price).toInt =
      shareDiff targetValue equityCents currentPositions target price := by
  obtain ⟨hvalue, hdiff⟩ := h.value target ht price hprice hpos
  have hmul := toInt_mul_of_fits hvalue
  rw [toInt_div_of_pos hpos, toInt_sub_of_fits (by rw [hmul]; exact hdiff), hmul]
  rfl

/-- A target is traded where there is a price, unless it is met or the trade is too small. -/
theorem targetOrder_eq_some_iff : targetOrder targetValue equityCents currentPositions prices
      limitOffsetBps minTradeCents target = some o ↔
    ∃ price, collected prices target.1 = some price ∧ 0 < price ∧
      ∃ diffQty, diffQty =
          (targetValue equityCents target.2 - held currentPositions target.1 * price) / price ∧
        diffQty ≠ 0 ∧ minTradeCents ≤ diffQty.abs * price ∧
        o = { symbol := target.1
              action := (classifyTrade (held currentPositions target.1) diffQty).1
              shares := diffQty.abs
              limitPriceCents :=
                computeLimitPrice price (decide (¬ 0 < diffQty)) limitOffsetBps
              description := (classifyTrade (held currentPositions target.1) diffQty).2 } := by
  rw [targetOrder]
  cases hprice : collected prices target.1 with
  | none => simp
  | some price =>
      have hheld : (collected (currentPositions.map fun p ↦ (p.symbol, p.quantity)) target.1).getD 0
          = held currentPositions target.1 := rfl
      simp only [Option.some.injEq, exists_eq_left', exists_eq_left, hheld]
      split_ifs with hneg hzero hsmall
      · simp [Int64.not_lt.mpr hneg]
      · simp [hzero]
      · simp [Int64.not_le.mpr hsmall]
      · simp [Int64.not_le.mp hneg, hzero, Int64.not_lt.mp hsmall, eq_comm]

/-- An order for a target trades the difference to it. -/
theorem targetOrder_spec (h : NoOverflow targetValue equityCents currentPositions targets prices
      limitOffsetBps minTradeCents) (ht : target ∈ targets)
    (ho : targetOrder targetValue equityCents currentPositions prices limitOffsetBps minTradeCents
      target = some o) :
    o.symbol = target.1 ∧ ∃ price, collected prices target.1 = some price ∧ 0 < price.toInt ∧
      ∃ d, d = shareDiff targetValue equityCents currentPositions target price ∧ d ≠ 0 ∧
        minTradeCents.toInt ≤ |d| * price.toInt ∧ o.signedShares = d ∧
        actionToSide o.action = (if 0 < d then .buy else .sell) ∧
        o.limitPriceCents.toInt =
          if 0 < d then price.toInt + limitOffset limitOffsetBps price
          else price.toInt - limitOffset limitOffsetBps price := by
  obtain ⟨price, hprice, hpos, diffQty, hdiffQty, hzero, hsmall, rfl⟩ :=
    targetOrder_eq_some_iff.mp ho
  have hpos : 0 < price.toInt := Int64.lt_iff_toInt_lt.mp hpos
  have hd : diffQty.toInt = shareDiff targetValue equityCents currentPositions target price := by
    rw [hdiffQty]
    exact toInt_diffQty h ht hprice hpos
  have hne : diffQty.toInt ≠ 0 := fun hd0 ↦ hzero (Int64.toInt_inj.mp hd0)
  obtain ⟨habs, hnotional, hlimit⟩ := h.trade target ht price hprice hpos (by rwa [← hd])
  rw [← hd] at habs hnotional hlimit
  have hshares := toInt_abs_of_fits habs
  rw [Int64.le_iff_toInt_le, toInt_mul_of_fits (by rwa [hshares]), hshares] at hsmall
  have hlt : (0 < diffQty) = (0 < diffQty.toInt) := propext Int64.lt_iff_toInt_lt
  have hside := actionToSide_classifyTrade (held currentPositions target.1) hzero
  simp only [hlt] at hside
  refine ⟨rfl, price, hprice, hpos, diffQty.toInt, hd, hne, hsmall, signedShares_eq hshares hside,
    hside, ?_⟩
  simp only [hlt, toInt_computeLimitPrice (hlimit hsmall), decide_eq_true_eq, ite_not]

end Plan

/-! ## A sample -/

/-- 100 shares of AAPL. -/
def hundredAapl : CurrentPosition := ⟨(Symbol.tryNew "AAPL").getD .unknown, 100, 18000⟩

/-- AAPL at $200. -/
def aaplPrices : List (Symbol × Int64) := [((Symbol.tryNew "AAPL").getD .unknown, 20000)]

theorem collected_aaplPrices {price : Int64}
    (h : collected aaplPrices ⟨"AAPL", by decide⟩ = some price) : price = 20000 := by
  rw [show collected aaplPrices ⟨"AAPL", by decide⟩ = some 20000 from rfl] at h
  exact (Option.some.inj h).symm

/-- Twice the shares are wanted, at ten basis points. -/
theorem noOverflow_hundredAapl : NoOverflow (fun _ (_ : Unit) ↦ 4000000) 4000000 [hundredAapl]
    [(⟨"AAPL", by decide⟩, ())] aaplPrices 10 0 where
  closing pos hpos _ htarget := by
    obtain rfl := List.mem_singleton.mp hpos
    cases htarget
  value target ht price hprice _ := by
    obtain rfl := List.mem_singleton.mp ht
    obtain rfl := collected_aaplPrices hprice
    decide +kernel
  trade target ht price hprice _ _ := by
    obtain rfl := List.mem_singleton.mp ht
    obtain rfl := collected_aaplPrices hprice
    refine ⟨by decide +kernel, by decide +kernel, fun _ ↦ ⟨by decide +kernel, by decide +kernel⟩⟩

end Nanobook.Rebalancer
