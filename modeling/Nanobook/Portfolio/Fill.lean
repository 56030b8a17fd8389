import Nanobook.Lib.Bisect
import Nanobook.Portfolio.State

/-!
# Fills

`execute_fill`: a buy is cut down to what the cash pays for, a sale is skipped if its commission
takes the cash below zero, and whatever is left is booked.

The search for the affordable part of a buy computes its middle in `i64`.  Over all of `0, …,
i64::MAX` that overflows, and the search then goes on forever: `executeFill` returns nothing
there.
-/

namespace Nanobook

open Rebalancer (Symbol)

variable {F : Type} [F64 F]

/-- The cash that a buy of `rawAbs` micro-shares takes. -/
def buyCashRequired (rawAbs effectivePrice : Int) (c : CostModel F) : Int :=
  if rawAbs ≤ 0 ∨ effectivePrice ≤ 0 then 0
  else
    let notional := max 0 (min ((rawAbs * effectivePrice).tdiv Shares.scale) i64Max)
    satAdd notional (c.computeCost notional)

/-- The middle of the search, as `i64` computes it. -/
def searchMiddle (lo hi : Int) : Int := wrapI64 (lo + (wrapI64 (wrapI64 (hi - lo) + 1)).tdiv 2)

/-- Whether so many steps fit in the cash. -/
def affordable (cash step effectivePrice : Int) (c : CostModel F) (steps : Int) : Bool :=
  buyCashRequired (satMul steps step) effectivePrice c ≤ cash

/-- Passes after which the search has ended if it ever does. -/
def searchPasses : Nat := 64

/-- `largest_affordable_buy_qty`, by bisection over multiples of the step. -/
def largestAffordableBuyQty (requestedRaw cash step effectivePrice : Int) (c : CostModel F) :
    Option Shares :=
  if requestedRaw ≤ 0 ∨ cash ≤ 0 ∨ step ≤ 0 ∨ effectivePrice ≤ 0 then some 0
  else if buyCashRequired requestedRaw effectivePrice c ≤ cash then some requestedRaw
  else
    (Loop.iterate (Bisect.body searchMiddle (affordable cash step effectivePrice c)) searchPasses
      (0, requestedRaw.tdiv step)).map fun lo ↦ satMul lo step

/-! ## The search -/

section Search

variable {requestedRaw cash step effectivePrice lo hi : Int} {c : CostModel F}

/-- Below `i64::MAX` the middle does not overflow. -/
theorem splits_searchMiddle (hlo : 0 ≤ lo) (hlt : lo < hi) (hhi : hi < i64Max) :
    Bisect.Splits lo hi (searchMiddle lo hi) := by
  have hmiddle : searchMiddle lo hi = lo + (hi - lo + 1) / 2 := by
    have hrange : ∀ x : Int, 0 ≤ x → x ≤ i64Max → wrapI64 x = x := fun x hx hx' ↦
      wrapI64_eq ⟨(by decide : i64Min ≤ 0).trans hx, hx'⟩
    rw [searchMiddle, hrange (hi - lo) (by omega) (by omega),
      hrange (hi - lo + 1) (by omega) (by omega),
      Int.tdiv_eq_ediv_of_nonneg (by omega), hrange _ (by omega) (by omega)]
  rw [hmiddle]
  exact Bisect.splits_middle hlt

/-- A search below `i64::MAX` ends. -/
theorem exists_search (ok : Int → Bool) (hhi : hi < i64Max) :
    ∃ steps, Loop.iterate (Bisect.body searchMiddle ok) searchPasses (0, hi) = some steps :=
  Bisect.exists_iterate_body
  (fun _ _ hl hlt hh ↦ splits_searchMiddle hl hlt (lt_of_le_of_lt hh hhi))
    (by simp only [i64Max] at hhi; omega)

theorem affordable_of_nonpos (hcash : 0 ≤ cash) (hstep : 0 ≤ step) {steps : Int} (h : steps ≤ 0) :
    affordable cash step effectivePrice c steps = true := by
  have hraw : satMul steps step ≤ 0 := by
    have := clampI64_mono (Int.mul_nonpos_of_nonpos_of_nonneg h hstep)
    exact this.trans (by decide)
  rw [affordable, buyCashRequired, if_pos (.inl hraw)]
  exact decide_eq_true hcash

/-- From `i64::MAX` the middle falls below zero, and the search goes down from there without end. -/
theorem search_never_ends {ok : Int → Bool} (hok : ∀ steps, steps ≤ 0 → ok steps = true) (n : Nat) :
    Loop.iterate (Bisect.body searchMiddle ok) n (0, i64Max) = none := by
  refine Loop.iterate_eq_none_of_closed (D := fun b ↦ b.2 = i64Max ∧ i64Min < b.1 ∧ b.1 ≤ 0) ?_ n
    ⟨rfl, by decide, le_rfl⟩
  rintro ⟨lo, hi⟩ ⟨rfl, hlo, hlo'⟩
  have hwidth : wrapI64 (wrapI64 (i64Max - lo) + 1) = -(lo - i64Min) := by
    rcases eq_or_lt_of_le hlo' with rfl | hneg
    · decide
    · have hwrap := wrapI64_of_lt (x := i64Max - lo)
      simp only [i64Max, i64Min] at hwrap hlo hneg ⊢
      rw [hwrap (by omega) (by omega),
        wrapI64_eq ⟨by simp only [i64Min]; omega, by simp only [i64Max]; omega⟩]
      omega
  have hmiddle : i64Min < searchMiddle lo i64Max ∧ searchMiddle lo i64Max ≤ 0 := by
    rw [searchMiddle, hwidth, Int.neg_tdiv, Int.tdiv_eq_ediv_of_nonneg (by omega), wrapI64_eq]
    · simp only [i64Min] at *
      omega
    · simp only [InI64, i64Min, i64Max] at *
      omega
  refine ⟨(searchMiddle lo i64Max, i64Max), ?_, rfl, hmiddle⟩
  simp only [Bisect.body, hok _ hmiddle.2, if_true]
  exact if_pos (lt_of_le_of_lt hlo' (by decide))

/-- What the search returns for a buy that is not affordable: nothing if there is nothing to search,
or else a number of steps within the request. -/
theorem largestAffordableBuyQty_eq_some {qty : Shares} (hpos : 0 < requestedRaw)
    (hmax : requestedRaw ≤ i64Max) (hshort : cash < buyCashRequired requestedRaw effectivePrice c)
    (h : largestAffordableBuyQty requestedRaw cash step effectivePrice c = some qty) :
    ((cash ≤ 0 ∨ step ≤ 0 ∨ effectivePrice ≤ 0) ∧ qty = 0) ∨
      (0 < cash ∧ 0 < step ∧ requestedRaw / step < i64Max ∧ ∃ steps, 0 ≤ steps ∧
        steps * step ≤ requestedRaw ∧
        satMul steps step = steps * step ∧ qty = steps * step ∧
        Loop.iterate (Bisect.body searchMiddle (affordable cash step effectivePrice c)) searchPasses
          (0, requestedRaw / step) = some steps) := by
  rw [largestAffordableBuyQty] at h
  split_ifs at h with hnone hfits
  · cases h
    exact .inl ⟨hnone.resolve_left (not_le.mpr hpos), rfl⟩
  · exact absurd hfits (not_le.mpr hshort)
  · obtain ⟨-, hcash, hstep, -⟩ :
      0 < requestedRaw ∧ 0 < cash ∧ 0 < step ∧ 0 < effectivePrice := by omega
    obtain ⟨steps, hsteps, rfl⟩ := Option.map_eq_some_iff.mp h
    rw [Int.tdiv_eq_ediv_of_nonneg hpos.le] at hsteps
    have hlt : requestedRaw / step < i64Max := by
      refine lt_of_le_of_ne ((Int.ediv_le_self step hpos.le).trans hmax) fun hmax' ↦ ?_
      rw [hmax', search_never_ends fun _ ↦ affordable_of_nonpos hcash.le hstep.le] at hsteps
      cases hsteps
    obtain ⟨hlo, hhi, -⟩ := Bisect.iterate_body
      (fun _ _ hl hl' hh ↦ splits_searchMiddle hl hl' (lt_of_le_of_lt hh hlt))
      (Int.ediv_nonneg hpos.le hstep.le) hsteps
    have hmul : steps * step ≤ requestedRaw :=
      (Int.mul_le_mul_of_nonneg_right hhi hstep.le).trans (Int.ediv_mul_le _ hstep.ne')
    have hraw : satMul steps step = steps * step := clampI64_eq
      ⟨(by decide : i64Min ≤ 0).trans (Int.mul_nonneg hlo hstep.le), hmul.trans hmax⟩
    exact .inr ⟨hcash, hstep, hlt, steps, hlo, hmul, hraw, hraw, hsteps⟩

/-- What is affordable of a buy that is not: less than what was asked for. -/
theorem largestAffordableBuyQty_spec {qty : Shares} (hpos : 0 < requestedRaw)
    (hmax : requestedRaw ≤ i64Max) (hshort : cash < buyCashRequired requestedRaw effectivePrice c)
    (h : largestAffordableBuyQty requestedRaw cash step effectivePrice c = some qty) :
    0 ≤ qty ∧ qty < requestedRaw ∧ (0 < qty → buyCashRequired qty effectivePrice c ≤ cash) := by
  rcases largestAffordableBuyQty_eq_some hpos hmax hshort h with ⟨-, rfl⟩ |
    ⟨-, hstep, hlt, steps, hlo, hmul, hraw, rfl, hsteps⟩
  · exact ⟨le_rfl, hpos, fun h ↦ absurd h (lt_irrefl _)⟩
  · obtain ⟨-, -, hok⟩ := Bisect.iterate_body
      (fun _ _ hl hl' hh ↦ splits_searchMiddle hl hl' (lt_of_le_of_lt hh hlt))
      (Int.ediv_nonneg hpos.le hstep.le) hsteps
    rcases hok with rfl | hok
    · rw [Int.zero_mul]
      exact ⟨le_rfl, hpos, fun h ↦ absurd h (lt_irrefl _)⟩
    · have hfit : buyCashRequired (steps * step) effectivePrice c ≤ cash :=
        hraw ▸ of_decide_eq_true hok
      refine ⟨Int.mul_nonneg hlo hstep.le, lt_of_le_of_ne hmul fun heq ↦ ?_, fun _ ↦ hfit⟩
      rw [heq] at hfit
      exact absurd hfit (not_le.mpr hshort)

/-- The search misses its end for a buy of `i64::MAX` micro-shares in steps of one, and only
there. -/
theorem exists_largestAffordableBuyQty (hmax : requestedRaw ≤ i64Max)
    (h : ¬ (requestedRaw = i64Max ∧ step = 1)) :
    ∃ qty, largestAffordableBuyQty requestedRaw cash step effectivePrice c = some qty := by
  rw [largestAffordableBuyQty]
  split_ifs with hnone
  · exact ⟨_, rfl⟩
  · exact ⟨_, rfl⟩
  · obtain ⟨hpos, -, hstep, -⟩ :
      0 < requestedRaw ∧ 0 < cash ∧ 0 < step ∧ 0 < effectivePrice := by omega
    have hlt : requestedRaw.tdiv step < i64Max := by
      rw [Int.tdiv_eq_ediv_of_nonneg hpos.le]
      by_cases hone : step = 1
      · rw [hone, Int.ediv_one]
        exact lt_of_le_of_ne hmax fun hreq ↦ h ⟨hreq, hone⟩
      · exact lt_of_lt_of_le (Int.ediv_lt_self_of_pos_of_ne_one hpos (by omega)) hmax
    obtain ⟨steps, hsteps⟩ := exists_search (affordable cash step effectivePrice c) hlt
    exact ⟨satMul steps step, by rw [hsteps]; rfl⟩

end Search

namespace Portfolio

variable (p : Portfolio F) (symbol : Symbol) (qty : Shares) (price : Int)

/-- The portfolio with other trim counters. -/
def withTrims (count : Nat) (shortfall : Int) : Portfolio F :=
  { p with trimmedFillCount := count, trimmedShortfallCents := shortfall }

/-- The affordability gate: the quantity that is left of a buy, with the trim counted. -/
def trimBuy (effectivePrice : Int) : Option (Portfolio F × Shares) :=
  if 0 < qty ∧ p.cash < buyCashRequired qty effectivePrice p.costModel then do
    let affordable ←
      largestAffordableBuyQty qty p.cash p.quantityStep effectivePrice p.costModel
    let shortfall := satSub (notionalOf qty effectivePrice) (notionalOf affordable effectivePrice)
    some (p.withTrims (saturatingAdd p.trimmedFillCount 1)
    (satAdd p.trimmedShortfallCents shortfall),
      affordable)
  else some (p, qty)

/-- The cash once a fill has been paid for. -/
def cashAfter (effectivePrice : Int) : Int :=
  satSub p.cash
    (satAdd (notionalCents qty effectivePrice)
        (p.costModel.computeCost (notionalOf qty effectivePrice)))

/-- Book a fill: the position, the cash and, where fills are recorded, the record. -/
def book (effectivePrice : Int) : Portfolio F :=
  let pos := (p.position symbol).getD (Position.new symbol)
  let cash := p.cashAfter qty effectivePrice
  let record (executions : List ExecutionRecord) : ExecutionRecord :=
    { sequence := executions.length
      periodIndex := p.executionPeriodIndex
      kind := p.executionKind
      symbol := symbol
      quantity := qty
      price := effectivePrice
      referencePrice := price
      notional := notionalOf qty effectivePrice
      referenceNotional := notionalOf qty price
      cost := p.costModel.computeCost (notionalOf qty effectivePrice)
      cashDelta := wrapI64 (cash - p.cash)
      cashAfter := cash }
  { p with
    positions := p.positions.insert symbol (pos.applyFill qty effectivePrice)
    cash := cash
    executions := p.executions.map fun executions ↦ executions ++ [record executions] }

def executeFill : Option (Portfolio F) :=
  if qty = 0 then some p
  else do
    let effectivePrice := p.costModel.effectivePrice qty price
    let (p, qty) ← p.trimBuy qty effectivePrice
    if qty = 0 then some p
    else if qty < 0 ∧ p.cashAfter qty effectivePrice < 0 then some p
    else some (p.book symbol qty price effectivePrice)

/-! ## What a fill does -/

/-- How much of a fill is booked. -/
def filledQty : Option Shares := do
  let effectivePrice := p.costModel.effectivePrice qty price
  let (p, qty) ← p.trimBuy qty effectivePrice
  if qty < 0 ∧ p.cashAfter qty effectivePrice < 0 then some 0 else some qty

/-- The cash pays for a buy, or for the commission of a sale. -/
def Fillable : Prop :=
  let effectivePrice := p.costModel.effectivePrice qty price
  (0 < qty → buyCashRequired qty effectivePrice p.costModel ≤ p.cash) ∧
    (qty < 0 → 0 ≤ p.cashAfter qty effectivePrice)

instance : Decidable (p.Fillable qty price) := inferInstanceAs (Decidable ((_ → _) ∧ (_ → _)))

/-- How much of a fill is booked: all of it, or less of a buy, or nothing. -/
structure Fills (filled : Shares) : Prop where
  buy : 0 ≤ qty → 0 ≤ filled ∧ filled ≤ qty
  sell : qty < 0 → filled = qty ∨ filled = 0
  full : filled = qty ↔ p.Fillable qty price
  affordable : 0 < filled →
    buyCashRequired filled (p.costModel.effectivePrice qty price) p.costModel ≤ p.cash
  covered : filled < 0 → 0 ≤ p.cashAfter filled (p.costModel.effectivePrice qty price)

/-- The portfolio once so much has been booked. -/
def booked (filled : Shares) : Portfolio F :=
  if filled = 0 then p else p.book symbol filled price (p.costModel.effectivePrice qty price)

variable {p symbol qty price} {p' : Portfolio F}

/-- The gate lets a quantity pass as it is, or cuts down a buy that the cash does not pay for. -/
theorem trimBuy_cases {effectivePrice : Int} {p₁ : Portfolio F} {filled : Shares} (hqty : InI64 qty)
    (h : p.trimBuy qty effectivePrice = some (p₁, filled)) :
    (∃ count shortfall, p₁ = p.withTrims count shortfall) ∧
      ((filled = qty ∧ (0 < qty → buyCashRequired qty effectivePrice p.costModel ≤ p.cash)) ∨
        (0 ≤ filled ∧ filled < qty ∧ p.cash < buyCashRequired qty effectivePrice p.costModel ∧
          (0 < filled → buyCashRequired filled effectivePrice p.costModel ≤ p.cash))) := by
  rw [trimBuy] at h
  split_ifs at h with hshort
  · obtain ⟨affordable, ha, h⟩ := Option.bind_eq_some_iff.mp h
    cases h
    obtain ⟨hnonneg, hlt, hfits⟩ := largestAffordableBuyQty_spec hshort.1 hqty.2 hshort.2 ha
    exact ⟨⟨_, _, rfl⟩, .inr ⟨hnonneg, hlt, hshort.2, hfits⟩⟩
  · cases h
    exact ⟨⟨p.trimmedFillCount, p.trimmedShortfallCents, rfl⟩,
      .inl ⟨rfl, fun hpos ↦ not_lt.mp fun hcash ↦ hshort ⟨hpos, hcash⟩⟩⟩

theorem fills_zero (hqty : qty ≠ 0) (h : ¬ p.Fillable qty price) : p.Fills qty price 0 where
  buy hpos := ⟨le_rfl, hpos⟩
  sell _ := .inr rfl
  full := ⟨fun heq ↦ absurd heq.symm hqty, fun hfill ↦ absurd hfill h⟩
  affordable h := absurd h (lt_irrefl _)
  covered h := absurd h (lt_irrefl _)

theorem fills_all (h : p.Fillable qty price) : p.Fills qty price qty where
  buy hpos := ⟨hpos, le_rfl⟩
  sell _ := .inl rfl
  full := ⟨fun _ ↦ h, fun _ ↦ rfl⟩
  affordable := h.1
  covered := h.2

/-- All that a fill can do, the trim counters apart, is to book some of its quantity. -/
theorem executeFill_eq_some (hqty : InI64 qty) (h : p.executeFill symbol qty price = some p') :
    ∃ count shortfall filled, p.filledQty qty price = some filled ∧ p.Fills qty price filled ∧
      p' = (p.withTrims count shortfall).booked symbol qty price filled := by
  rw [executeFill] at h
  split_ifs at h with hzero
  · cases h
    subst hzero
    exact ⟨p.trimmedFillCount, p.trimmedShortfallCents, 0, by simp [filledQty, trimBuy],
      fills_all ⟨fun h ↦ absurd h (lt_irrefl _), fun h ↦ absurd h (lt_irrefl _)⟩, rfl⟩
  · obtain ⟨⟨p₁, filled⟩, htrim, h⟩ := Option.bind_eq_some_iff.mp h
    obtain ⟨⟨count, shortfall, rfl⟩, hcut⟩ := trimBuy_cases hqty htrim
    have hfilled : p.filledQty qty price =
        if filled < 0 ∧ p.cashAfter filled (p.costModel.effectivePrice qty price) < 0 then some 0
        else some filled := by
      rw [filledQty, htrim]
      rfl
    simp only at h
    rcases hcut with ⟨rfl, hbuy⟩ | ⟨hnonneg, hlt, hshort, hfits⟩
    · -- a sale goes through as a whole or not at all
      rw [if_neg hzero] at h
      split_ifs at h with hover
      · cases h
        exact ⟨count, shortfall, 0, hfilled.trans (if_pos hover),
          fills_zero hzero fun hfill ↦ absurd (hfill.2 hover.1) (not_le.mpr hover.2), rfl⟩
      · cases h
        exact ⟨count, shortfall, filled, hfilled.trans (if_neg hover),
          fills_all ⟨hbuy, fun hneg ↦ not_lt.mp fun hcash ↦ hover ⟨hneg, hcash⟩⟩,
          (if_neg hzero).symm⟩
    · have hpos : 0 < qty := lt_of_le_of_lt hnonneg hlt
      have hfills : p.Fills qty price filled :=
        { buy := fun _ ↦ ⟨hnonneg, hlt.le⟩
          sell := fun hneg ↦ absurd hpos (not_lt.mpr hneg.le)
          full := ⟨fun heq ↦ absurd heq hlt.ne,
            fun hfill ↦ absurd (hfill.1 hpos) (not_le.mpr hshort)⟩
          affordable := hfits
          covered := fun hneg ↦ absurd hnonneg (not_le.mpr hneg) }
      refine ⟨count, shortfall, filled,
        hfilled.trans (if_neg fun h ↦ absurd hnonneg (not_le.mpr h.1)), hfills, ?_⟩
      by_cases hnone : filled = 0
      · rw [if_pos hnone] at h
        cases h
        exact (if_pos hnone).symm
      · rw [if_neg hnone, if_neg fun h ↦ absurd hnonneg (not_le.mpr h.1)] at h
        cases h
        exact (if_neg hnone).symm

@[inherit_doc executeFill_eq_some] theorem executeFill_cases (hqty : InI64 qty)
    (h : p.executeFill symbol qty price = some p') : ∃ count shortfall filled,
      p.Fills qty price filled ∧
      p' = (p.withTrims count shortfall).booked symbol qty price filled := by
  obtain ⟨count, shortfall, filled, -, hfills, heq⟩ := executeFill_eq_some hqty h
  exact ⟨count, shortfall, filled, hfills, heq⟩

theorem Fills.inI64 {filled : Shares} (h : p.Fills qty price filled) (hqty : InI64 qty) :
    InI64 filled := by
  rcases lt_or_ge qty 0 with hneg | hpos
  · rcases h.sell hneg with rfl | rfl
    · exact hqty
    · decide
  · obtain ⟨hlo, hhi⟩ := h.buy hpos
    exact ⟨(by decide : i64Min ≤ 0).trans hlo, hhi.trans hqty.2⟩

theorem cash_booked (filled : Shares) : (p.booked symbol qty price filled).cash =
    if filled = 0 then p.cash else p.cashAfter filled (p.costModel.effectivePrice qty price) := by
  rw [booked]
  split <;> rfl

/-- At a positive price the estimate for a buy is what it costs. -/
theorem buyCashRequired_eq {effectivePrice : Int} (hqty : 0 < qty) (hprice : 0 < effectivePrice)
    (c : CostModel F) : buyCashRequired qty effectivePrice c =
      satAdd (notionalCents qty effectivePrice)
      (c.computeCost (notionalOf qty effectivePrice)) := by
  have hproduct : 0 ≤ (qty * effectivePrice).tdiv Shares.scale :=
    Int.tdiv_nonneg (Int.mul_nonneg hqty.le hprice.le) (by decide)
  have hnotional : max 0 (min ((qty * effectivePrice).tdiv Shares.scale) i64Max) =
      notionalCents qty effectivePrice := by
    have hmin : 0 ≤ min ((qty * effectivePrice).tdiv Shares.scale) i64Max :=
      le_min hproduct (by decide)
    rw [notionalCents, clampI64, max_eq_right hmin,
      max_eq_right ((by decide : i64Min ≤ 0).trans hmin)]
  rw [buyCashRequired, if_neg (by lia)]
  simp only [hnotional, notionalCents_eq_notionalOf hqty hprice]

/-- A fill moves the position it is for, and no other. -/
theorem quantity_booked {filled : Shares} (hfilled : InI64 filled) (sym : Symbol) :
    (p.booked symbol qty price filled).quantity sym =
      if symbol = sym ∧ filled ≠ 0 then satAdd (p.quantity sym) filled else p.quantity sym := by
  rw [booked]
  by_cases hzero : filled = 0
  · rw [if_pos hzero, if_neg fun h ↦ h.2 hzero]
  · rw [if_neg hzero, quantity, position, book, HashMap.get?_insert]
    by_cases hsym : symbol = sym
    · subst hsym
      rw [if_pos rfl, if_pos ⟨rfl, hzero⟩, Option.map_some, Option.getD_some,
        Position.quantity_applyFill _ _ _ hzero hfilled, quantity]
      cases p.position symbol <;> rfl
    · rw [if_neg hsym, if_neg fun h ↦ hsym h.1]
      rfl

/-- The positions after a fill. -/
theorem quantity_executeFill (hqty : InI64 qty) (h : p.executeFill symbol qty price = some p')
    (sym : Symbol) : ∃ filled, p.Fills qty price filled ∧ p'.quantity sym =
      if symbol = sym then (if filled = 0 then p.quantity sym else satAdd (p.quantity sym) filled)
      else p.quantity sym := by
  obtain ⟨count, shortfall, filled, hfills, rfl⟩ := executeFill_cases hqty h
  refine ⟨filled, hfills, ?_⟩
  rw [quantity_booked (hfills.inI64 hqty)]
  by_cases hsym : symbol = sym
  · by_cases hzero : filled = 0
    · rw [if_neg fun h ↦ h.2 hzero, if_pos hsym, if_pos hzero]
      rfl
    · rw [if_pos ⟨hsym, hzero⟩, if_pos hsym, if_neg hzero]
      rfl
  · rw [if_neg fun h ↦ hsym h.1, if_neg hsym]
    rfl

/-- What a fill leaves alone: all but the cash, the positions, the trim counters and the records. -/
structure Kept (p p' : Portfolio F) : Prop where
  quantityStep : p'.quantityStep = p.quantityStep
  costModel : p'.costModel = p.costModel
  returns : p'.returns = p.returns
  prevEquity : p'.prevEquity = p.prevEquity
  maxTradesPerRebalance : p'.maxTradesPerRebalance = p.maxTradesPerRebalance
  lastRebalanceOrderCount : p'.lastRebalanceOrderCount = p.lastRebalanceOrderCount
  lastRebalanceNotional : p'.lastRebalanceNotional = p.lastRebalanceNotional
  executionPeriodIndex : p'.executionPeriodIndex = p.executionPeriodIndex
  executionKind : p'.executionKind = p.executionKind

omit [F64 F] in
theorem Kept.refl (p : Portfolio F) : p.Kept p := ⟨rfl, rfl, rfl, rfl, rfl, rfl, rfl, rfl, rfl⟩

omit [F64 F] in
theorem Kept.trans {p₁ p₂ p₃ : Portfolio F} (h : p₁.Kept p₂) (h' : p₂.Kept p₃) : p₁.Kept p₃ where
  quantityStep := h'.quantityStep.trans h.quantityStep
  costModel := h'.costModel.trans h.costModel
  returns := h'.returns.trans h.returns
  prevEquity := h'.prevEquity.trans h.prevEquity
  maxTradesPerRebalance := h'.maxTradesPerRebalance.trans h.maxTradesPerRebalance
  lastRebalanceOrderCount := h'.lastRebalanceOrderCount.trans h.lastRebalanceOrderCount
  lastRebalanceNotional := h'.lastRebalanceNotional.trans h.lastRebalanceNotional
  executionPeriodIndex := h'.executionPeriodIndex.trans h.executionPeriodIndex
  executionKind := h'.executionKind.trans h.executionKind

theorem kept_executeFill (hqty : InI64 qty) (h : p.executeFill symbol qty price = some p') :
    p.Kept p' := by
  obtain ⟨count, shortfall, filled, -, rfl⟩ := executeFill_cases hqty h
  rw [booked]
  split
  · exact ⟨rfl, rfl, rfl, rfl, rfl, rfl, rfl, rfl, rfl⟩
  · exact ⟨rfl, rfl, rfl, rfl, rfl, rfl, rfl, rfl, rfl⟩

/-- A fill returns, unless a buy of `i64::MAX` micro-shares is to be cut down in steps of one. -/
theorem exists_executeFill (hqty : InI64 qty) (h : ¬ (qty = i64Max ∧ p.quantityStep = 1)) :
    ∃ p', p.executeFill symbol qty price = some p' := by
  have htrim : ∃ r, p.trimBuy qty (p.costModel.effectivePrice qty price) = some r := by
    rw [trimBuy]
    split_ifs
    · obtain ⟨affordable, ha⟩ : ∃ affordable, largestAffordableBuyQty qty p.cash p.quantityStep
          (p.costModel.effectivePrice qty price) p.costModel = some affordable :=
        exists_largestAffordableBuyQty hqty.2 h
      exact ⟨_, by rw [ha]; rfl⟩
    · exact ⟨_, rfl⟩
  obtain ⟨⟨p₁, filled⟩, ht⟩ := htrim
  rw [executeFill]
  split_ifs with hzero
  · exact ⟨p, rfl⟩
  · simp only [ht, Option.bind_eq_bind, Option.bind_some]
    split_ifs
    · exact ⟨_, rfl⟩
    · exact ⟨_, rfl⟩
    · exact ⟨_, rfl⟩

end Portfolio

end Nanobook
