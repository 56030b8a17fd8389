import Mathlib.Data.List.Infix
import Nanobook.Portfolio.Position

/-!
# Profit and loss

What a list of fills makes of a position, compared with the same fills in unbounded arithmetic.  As
long as nothing saturates the two agree, and in unbounded arithmetic a short position is the mirror
image of a long one.  The cost basis of a long position in whole shares is its purchases less what
the sales took out of it; a sale takes out its shares at the average price, which is rounded down,
and the sale that closes the position lets go of what the rounding left.
-/

namespace Nanobook

namespace Position

/-! ## Fills in unbounded arithmetic -/

/-- The position after the fills, oldest first. -/
def applyFills (pos : Position) (fills : List (Shares × Int)) : Position :=
  fills.foldl (fun pos fill ↦ pos.applyFill fill.1 fill.2) pos

/-- What closing part of a position earns per share. -/
def pnlPerUnit (pos : Position) (price : Int) : Int :=
  if 0 < pos.quantity then price - pos.avgEntryPrice else pos.avgEntryPrice - price

/-- The quantity of the position that a fill against it closes. -/
def closeQty (pos : Position) (qty : Shares) : Shares := min |qty| |pos.quantity|

/-- A fill in the direction of the position. -/
def SameDirection (pos : Position) (qty : Shares) : Prop :=
  (0 ≤ pos.quantity ∧ 0 < qty) ∨ (pos.quantity ≤ 0 ∧ qty < 0)

instance (pos : Position) (qty : Shares) : Decidable (pos.SameDirection qty) :=
  inferInstanceAs (Decidable (_ ∨ _))

/-- A fill where nothing is clamped and nothing wraps. -/
def idealFill (pos : Position) (qty : Shares) (price : Int) : Position :=
  if qty = 0 then pos
  else if pos.quantity = 0 then
    { pos with
      quantity := qty, avgEntryPrice := price
      totalCost := (qty * price).tdiv Shares.scale }
  else if pos.SameDirection qty then
    let totalCost := pos.totalCost + (qty * price).tdiv Shares.scale
    let quantity := pos.quantity + qty
    { pos with totalCost, quantity, avgEntryPrice := (totalCost * Shares.scale).tdiv quantity }
  else
    let realizedPnl := pos.realizedPnl + (pos.closeQty qty * pos.pnlPerUnit price).tdiv Shares.scale
    let net := pos.quantity + qty
    if net = 0 then { pos with realizedPnl, quantity := 0, avgEntryPrice := 0, totalCost := 0 }
    else if (0 < net) ↔ (0 < pos.quantity) then
      let totalCost := pos.totalCost - (pos.closeQty qty * pos.avgEntryPrice).tdiv Shares.scale
      { pos with
        realizedPnl, totalCost, quantity := net
        avgEntryPrice := (totalCost * Shares.scale).tdiv net }
    else
      { pos with
        realizedPnl, quantity := net, avgEntryPrice := price
        totalCost := (net * price).tdiv Shares.scale }

/-- The values that a fill clamps, as they are before it does. -/
def clamped (pos : Position) (qty : Shares) (price : Int) : List Int :=
  let cost := (qty * price).tdiv Shares.scale
  let net := pos.quantity + qty
  if qty = 0 then []
  else if pos.quantity = 0 then [cost]
  else if pos.SameDirection qty then
    [cost, pos.totalCost + cost, net, ((pos.totalCost + cost) * Shares.scale).tdiv net]
  else
    let profit := (pos.closeQty qty * pos.pnlPerUnit price).tdiv Shares.scale
    let closed := (pos.closeQty qty * pos.avgEntryPrice).tdiv Shares.scale
    [|qty|, |pos.quantity|, profit, pos.realizedPnl + profit, net] ++
      if net = 0 then []
      else if (0 < net) ↔ (0 < pos.quantity) then
        [closed, pos.totalCost - closed, ((pos.totalCost - closed) * Shares.scale).tdiv net]
      else [(net * price).tdiv Shares.scale]

/-- No fill of the list saturates. -/
def Unsaturated : Position → List (Shares × Int) → Prop
  | _, [] => True
  | pos, fill :: fills =>
    (∀ x ∈ pos.clamped fill.1 fill.2, InI64 x) ∧ (pos.applyFill fill.1 fill.2).Unsaturated fills

instance : (pos : Position) → (fills : List (Shares × Int)) → Decidable (pos.Unsaturated fills)
  | _, [] => inferInstanceAs (Decidable True)
  | pos, fill :: fills =>
    have := instDecidableUnsaturated (pos.applyFill fill.1 fill.2) fills
    inferInstanceAs (Decidable (_ ∧ _))

/-! ## Where the two agree -/

section Agreement

variable {pos : Position} {qty : Shares} {price : Int}

/-- A fill that clamps nothing is the fill in unbounded arithmetic. -/
theorem applyFill_eq_idealFill (h : ∀ x ∈ pos.clamped qty price, InI64 x)
    (hpnl : InI64 (pos.pnlPerUnit price)) : pos.applyFill qty price = pos.idealFill qty price := by
  have hpnl : (if 0 < pos.quantity then wrapI64 (price - pos.avgEntryPrice)
      else wrapI64 (pos.avgEntryPrice - price)) = pos.pnlPerUnit price := by
    rw [← apply_ite wrapI64]
    exact wrapI64_eq hpnl
  rw [clamped] at h
  rw [applyFill, idealFill]
  by_cases hzero : qty = 0
  · rw [if_pos hzero, if_pos hzero]
  rw [if_neg hzero] at h ⊢
  rw [if_neg hzero]
  by_cases hflat : pos.quantity = 0
  · rw [if_pos hflat] at h ⊢
    rw [if_pos hflat, notionalCents, clampI64_eq (h _ (.head _))]
  rw [if_neg hflat] at h ⊢
  rw [if_neg hflat]
  by_cases hsame : pos.SameDirection qty
  · rw [if_pos hsame] at h ⊢
    simp only [List.forall_mem_cons, List.not_mem_nil, false_implies, implies_true, and_true] at h
    obtain ⟨hcost, htotal, hnet, havg⟩ := h
    have hopen : pos.quantity + qty ≠ 0 := by
      rcases hsame with h | h <;> lia
    rw [if_pos (show (0 ≤ pos.quantity ∧ 0 < qty) ∨ (pos.quantity ≤ 0 ∧ qty < 0) from hsame)]
    simp only [notionalCents, satAdd, avgPrice, clampI64_eq hcost, clampI64_eq htotal,
      clampI64_eq hnet, if_neg hopen, clampI64_eq havg]
  · rw [if_neg hsame] at h ⊢
    simp only [List.cons_append, List.forall_mem_cons] at h
    obtain ⟨hqty, hquantity, hprofit, hrealized, hnet, h⟩ := h
    have hclose : min (satAbs qty) (satAbs pos.quantity) = pos.closeQty qty := by
      rw [satAbs, satAbs, clampI64_eq hqty, clampI64_eq hquantity, closeQty]
    rw [if_neg (show ¬ ((0 ≤ pos.quantity ∧ 0 < qty) ∨ (pos.quantity ≤ 0 ∧ qty < 0)) from hsame)]
    simp only [hpnl, hclose, notionalCents, satAdd, clampI64_eq hprofit, clampI64_eq hrealized,
      clampI64_eq hnet]
    by_cases hclosed : pos.quantity + qty = 0
    · rw [if_pos hclosed, if_pos hclosed]
    rw [if_neg hclosed] at h ⊢
    rw [if_neg hclosed]
    by_cases hside : 0 < pos.quantity + qty ↔ 0 < pos.quantity
    · rw [if_pos hside] at h ⊢
      simp only [List.nil_append, List.forall_mem_cons, List.not_mem_nil, false_implies,
        implies_true, and_true] at h
      obtain ⟨hcost, htotal, havg⟩ := h
      rw [if_pos hside]
      simp only [satSub, avgPrice, clampI64_eq hcost, clampI64_eq htotal, if_neg hclosed,
        clampI64_eq havg]
    · rw [if_neg hside] at h ⊢
      simp only [List.nil_append, List.forall_mem_cons, List.not_mem_nil, false_implies,
        implies_true, and_true] at h
      rw [if_neg hside, clampI64_eq h]

end Agreement

/-! ## The entry price -/

/-- The entry price of a position is one, and what a long position has cost covers it. -/
structure Costed (pos : Position) : Prop where
  avg_nonneg : 0 ≤ pos.avgEntryPrice
  inI64 : InI64 pos.avgEntryPrice
  long : 0 < pos.quantity →
    (pos.quantity * pos.avgEntryPrice).tdiv Shares.scale ≤ pos.totalCost
  short : pos.quantity < 0 → pos.totalCost ≤ 0

section Costed

variable {pos : Position} {qty : Shares} {price : Int}

theorem costed_new (symbol : Rebalancer.Symbol) : (new symbol).Costed where
  avg_nonneg := le_rfl
  inI64 := (by decide : InI64 0)
  long h := absurd h (lt_irrefl _)
  short h := absurd h (lt_irrefl _)

theorem tdiv_scale_nonpos {x : Int} (h : x ≤ 0) : x.tdiv Shares.scale ≤ 0 :=
  (Int.tdiv_le_tdiv (by decide) h).trans_eq (Int.zero_tdiv _)

/-- A position that a fill opens is costed. -/
theorem costed_opened (hprice : 0 ≤ price) (hin : InI64 price) (havg : pos.avgEntryPrice = price)
    (htotal : pos.totalCost = (pos.quantity * price).tdiv Shares.scale) : pos.Costed where
  avg_nonneg := havg ▸ hprice
  inI64 := havg ▸ hin
  long _ := by rw [havg, htotal]
  short h := htotal ▸ tdiv_scale_nonpos (Int.mul_nonpos_of_nonpos_of_nonneg h.le hprice)

/-- An average entry price is rounded down, so its position is costed. -/
theorem costed_averaged (hin : InI64 pos.avgEntryPrice)
    (havg : pos.avgEntryPrice = (pos.totalCost * Shares.scale).tdiv pos.quantity)
    (hlong : 0 ≤ pos.quantity → 0 ≤ pos.totalCost) (hshort : pos.quantity < 0 → pos.totalCost ≤ 0) :
    pos.Costed where
  avg_nonneg := by
    rw [havg]
    rcases lt_or_ge pos.quantity 0 with hneg | hpos
    · exact Int.tdiv_nonneg_of_nonpos_of_nonpos
        (Int.mul_nonpos_of_nonpos_of_nonneg (hshort hneg) (by decide)) hneg.le
    · exact Int.tdiv_nonneg (Int.mul_nonneg (hlong hpos) (by decide)) hpos
  inI64 := hin
  long hpos := by
    have hcost : 0 ≤ pos.totalCost * Shares.scale := Int.mul_nonneg (hlong hpos.le) (by decide)
    have hle : pos.quantity * pos.avgEntryPrice ≤ pos.totalCost * Shares.scale := by
      rw [havg, Int.tdiv_eq_ediv_of_nonneg hcost]
      exact Int.mul_ediv_self_le hpos.ne'
    calc (pos.quantity * pos.avgEntryPrice).tdiv Shares.scale
        ≤ (pos.totalCost * Shares.scale).tdiv Shares.scale := Int.tdiv_le_tdiv (by decide) hle
      _ = pos.totalCost := Int.mul_tdiv_cancel _ (by decide)
  short := hshort

/-- A position costs no less than nothing, on its side. -/
theorem Costed.totalCost_nonneg (h : pos.Costed) (hlong : 0 < pos.quantity) : 0 ≤ pos.totalCost :=
  (Int.tdiv_nonneg (Int.mul_nonneg hlong.le h.avg_nonneg) (by decide)).trans (h.long hlong)

/-- Part of a long position costs at most the whole of it. -/
theorem Costed.closedCost_le (h : pos.Costed) (hlong : 0 < pos.quantity) :
    (pos.closeQty qty * pos.avgEntryPrice).tdiv Shares.scale ≤ pos.totalCost := by
  refine le_trans (Int.tdiv_le_tdiv (by decide) ?_) (h.long hlong)
  refine Int.mul_le_mul_of_nonneg_right ?_ h.avg_nonneg
  exact (min_le_right _ _).trans_eq (abs_of_pos hlong)

theorem Costed.closedCost_nonneg (h : pos.Costed) :
    0 ≤ (pos.closeQty qty * pos.avgEntryPrice).tdiv Shares.scale :=
  Int.tdiv_nonneg (Int.mul_nonneg (le_min (abs_nonneg _) (abs_nonneg _)) h.avg_nonneg) (by decide)

theorem Costed.inI64_pnlPerUnit (h : pos.Costed) (hprice : 0 ≤ price) (hin : InI64 price) :
    InI64 (pos.pnlPerUnit price) := by
  have havg := h.avg_nonneg
  obtain ⟨-, hhi⟩ := h.inI64
  obtain ⟨-, hhi'⟩ := hin
  simp only [InI64, pnlPerUnit, i64Min, i64Max] at *
  split_ifs <;> omega

theorem inI64_avgPrice (cost : Int) (quantity : Shares) : InI64 (avgPrice cost quantity) := by
  rw [avgPrice]
  split
  · decide
  · exact inI64_clampI64 _

theorem inI64_avgEntryPrice_applyFill (h : InI64 pos.avgEntryPrice) (hin : InI64 price) :
    InI64 (pos.applyFill qty price).avgEntryPrice := by
  rw [applyFill]
  by_cases hzero : qty = 0
  · rw [if_pos hzero]
    exact h
  rw [if_neg hzero]
  by_cases hflat : pos.quantity = 0
  · rw [if_pos hflat]
    exact hin
  rw [if_neg hflat]
  by_cases hsame : (0 ≤ pos.quantity ∧ 0 < qty) ∨ (pos.quantity ≤ 0 ∧ qty < 0)
  · rw [if_pos hsame]
    exact inI64_avgPrice _ _
  rw [if_neg hsame]
  by_cases hclosed : satAdd pos.quantity qty = 0
  · simp only [if_pos hclosed]
    decide
  by_cases hside : 0 < satAdd pos.quantity qty ↔ 0 < pos.quantity
  · simp only [if_neg hclosed, if_pos hside]
    exact inI64_avgPrice _ _
  · simp only [if_neg hclosed, if_neg hside]
    exact hin

/-- A fill keeps a position costed. -/
theorem Costed.idealFill (h : pos.Costed) (hprice : 0 ≤ price) (hin : InI64 price)
    (havg : InI64 (pos.idealFill qty price).avgEntryPrice) : (pos.idealFill qty price).Costed := by
  revert havg
  rw [Position.idealFill]
  by_cases hzero : qty = 0
  · rw [if_pos hzero]
    exact fun _ ↦ h
  rw [if_neg hzero]
  by_cases hflat : pos.quantity = 0
  · rw [if_pos hflat]
    exact fun _ ↦ costed_opened hprice hin rfl rfl
  rw [if_neg hflat]
  by_cases hsame : pos.SameDirection qty
  · rw [if_pos hsame]
    refine fun havg ↦ costed_averaged havg rfl ?_ ?_
    · intro hpos
      have hlong : 0 < pos.quantity ∧ 0 < qty := by rcases hsame with h | h <;> lia
      exact Int.add_nonneg (h.totalCost_nonneg hlong.1)
        (Int.tdiv_nonneg (Int.mul_nonneg hlong.2.le hprice) (by decide))
    · intro hneg
      have hshort : pos.quantity < 0 ∧ qty < 0 := by rcases hsame with h | h <;> lia
      have hcost := tdiv_scale_nonpos (Int.mul_nonpos_of_nonpos_of_nonneg hshort.2.le hprice)
      exact Int.add_nonpos (h.short hshort.1) hcost
  rw [if_neg hsame]
  by_cases hclosed : pos.quantity + qty = 0
  · simp only [if_pos hclosed]
    exact fun _ ↦ costed_opened le_rfl (by decide) rfl rfl
  by_cases hside : 0 < pos.quantity + qty ↔ 0 < pos.quantity
  · simp only [if_neg hclosed, if_pos hside]
    refine fun havg ↦ costed_averaged havg rfl ?_ ?_
    · intro hpos
      exact Int.sub_nonneg_of_le (h.closedCost_le (by lia))
    · intro hneg
      have hcost := h.short (by lia)
      have hclose : 0 ≤ (pos.closeQty qty * pos.avgEntryPrice).tdiv Shares.scale :=
        h.closedCost_nonneg
      simp only
      omega
  · simp only [if_neg hclosed, if_neg hside]
    exact fun _ ↦ costed_opened hprice hin rfl rfl

end Costed

/-! ## Longs and shorts -/

section Mirror

/-- The position that has sold what this one has bought. -/
def mirror (pos : Position) : Position :=
  { pos with
    quantity := -pos.quantity, realizedPnl := -pos.realizedPnl, totalCost := -pos.totalCost }

/-- The fill on the other side. -/
def mirrorFill (fill : Shares × Int) : Shares × Int := (-fill.1, fill.2)

/-- A fill against the position that leaves some of it. -/
def Reduces (pos : Position) (qty : Shares) : Prop :=
  (qty < 0 ∧ 0 < pos.quantity + qty) ∨ (0 < qty ∧ pos.quantity + qty < 0)

instance (pos : Position) (qty : Shares) : Decidable (pos.Reduces qty) :=
  inferInstanceAs (Decidable (_ ∨ _))

/-- What a fill takes out of the cost basis, which it subtracts for longs and shorts alike. -/
def closedCost (pos : Position) (qty : Shares) : Int :=
  (pos.closeQty qty * pos.avgEntryPrice).tdiv Shares.scale

variable {pos : Position} {qty : Shares} {price : Int}

@[simp] theorem mirror_new (symbol : Rebalancer.Symbol) : (new symbol).mirror = new symbol := rfl

theorem sameDirection_mirror : pos.mirror.SameDirection (-qty) ↔ pos.SameDirection qty := by
  simp only [SameDirection, mirror]
  lia

@[simp] theorem closeQty_mirror : pos.mirror.closeQty (-qty) = pos.closeQty qty := by
  simp only [closeQty, mirror, abs_neg]

@[simp] theorem closedCost_mirror : pos.mirror.closedCost (-qty) = pos.closedCost qty := by
  rw [closedCost, closeQty_mirror, closedCost]
  rfl

theorem pnlPerUnit_mirror (hopen : pos.quantity ≠ 0) :
    pos.mirror.pnlPerUnit price = -pos.pnlPerUnit price := by
  simp only [pnlPerUnit, mirror]
  split_ifs <;> lia

/-- A fill against the position that neither closes nor flips it reduces it. -/
theorem reduces_iff (hzero : qty ≠ 0) (hopen : pos.quantity ≠ 0) : pos.Reduces qty ↔
    ¬ pos.SameDirection qty ∧ pos.quantity + qty ≠ 0 ∧
    (0 < pos.quantity + qty ↔ 0 < pos.quantity) := by
  simp only [Reduces, SameDirection]
  lia

theorem totalCost_idealFill (h : pos.Reduces qty) :
    (pos.idealFill qty price).totalCost = pos.totalCost - pos.closedCost qty := by
  have hzero : qty ≠ 0 := by rcases h with h | h <;> lia
  have hopen : pos.quantity ≠ 0 := by rcases h with h | h <;> lia
  obtain ⟨hsame, hnet, hside⟩ := (reduces_iff hzero hopen).mp h
  rw [idealFill, if_neg hzero, if_neg hopen, if_neg hsame]
  simp only [if_neg hnet, if_pos hside, closedCost]

theorem reduces_mirror : pos.mirror.Reduces (-qty) ↔ pos.Reduces qty := by
  simp only [Reduces, mirror]
  lia

/-- In unbounded arithmetic a fill that takes no cost out of a position does to its mirror image
what the fill on the other side does. -/
theorem idealFill_mirror (h : pos.Reduces qty → pos.closedCost qty = 0) :
    pos.mirror.idealFill (-qty) price = (pos.idealFill qty price).mirror := by
  have hquantity : pos.mirror.quantity = -pos.quantity := rfl
  have hnet : -pos.quantity + -qty = -(pos.quantity + qty) := by lia
  rw [idealFill, idealFill]
  by_cases hzero : qty = 0
  · rw [if_pos hzero, if_pos (by lia)]
  rw [if_neg hzero, if_neg (by lia), hquantity]
  by_cases hflat : pos.quantity = 0
  · rw [if_pos hflat, if_pos (by lia)]
    simp only [mirror, Int.neg_mul, Int.neg_tdiv]
  rw [if_neg hflat, if_neg (by lia)]
  by_cases hsame : pos.SameDirection qty
  · rw [if_pos hsame, if_pos (sameDirection_mirror.mpr hsame)]
    simp only [mirror, hnet, Int.neg_mul, Int.neg_tdiv, ← Int.neg_add, Int.tdiv_neg, Int.neg_neg]
  rw [if_neg hsame, if_neg fun h ↦ hsame (sameDirection_mirror.mp h)]
  simp only [closeQty_mirror, pnlPerUnit_mirror hflat, hnet]
  by_cases hclosed : pos.quantity + qty = 0
  · rw [if_pos hclosed, if_pos (by lia)]
    simp only [mirror, Int.mul_neg, Int.neg_tdiv, ← Int.neg_add, Int.neg_zero]
  rw [if_neg hclosed, if_neg (by lia)]
  by_cases hside : 0 < pos.quantity + qty ↔ 0 < pos.quantity
  · have hcost : (pos.closeQty qty * pos.avgEntryPrice).tdiv Shares.scale = 0 :=
      h ((reduces_iff hzero hflat).mpr ⟨hsame, hclosed, hside⟩)
    rw [if_pos hside, if_pos (by lia)]
    simp only [mirror, hcost, Int.sub_zero, Int.mul_neg, Int.neg_mul, Int.neg_tdiv, ← Int.neg_add,
      Int.tdiv_neg, Int.neg_neg]
  · rw [if_neg hside, if_neg (by lia)]
    simp only [mirror, Int.mul_neg, Int.neg_mul, Int.neg_tdiv, ← Int.neg_add]

/-- The cost goes in the same direction on both sides. -/
theorem idealFill_mirror_iff (price : Int) : pos.mirror.idealFill (-qty) price =
    (pos.idealFill qty price).mirror ↔
    (pos.Reduces qty → pos.closedCost qty = 0) := by
  constructor
  · intro h hreduces
    have hcost :
      (pos.mirror.idealFill (-qty) price).totalCost = -(pos.idealFill qty price).totalCost :=
      congrArg totalCost h
    have htotal : pos.mirror.totalCost = -pos.totalCost := rfl
    rw [totalCost_idealFill (reduces_mirror.mpr hreduces), totalCost_idealFill hreduces,
      closedCost_mirror, htotal] at hcost
    omega
  · exact idealFill_mirror

end Mirror

/-! ## Runs -/

section Runs

variable {pos : Position} {fill : Shares × Int} {fills : List (Shares × Int)}

@[simp] theorem applyFills_nil : pos.applyFills [] = pos := rfl

@[simp] theorem applyFills_cons :
    pos.applyFills (fill :: fills) = (pos.applyFill fill.1 fill.2).applyFills fills := rfl

/-- Prices that a trade can have. -/
def Priced (fills : List (Shares × Int)) : Prop := ∀ fill ∈ fills, 0 < fill.2 ∧ InI64 fill.2

instance (fills : List (Shares × Int)) : Decidable (Priced fills) :=
  inferInstanceAs (Decidable (∀ fill ∈ fills, _))

/-- A fill of a run that does not saturate is the fill in unbounded arithmetic, and keeps the
position costed. -/
theorem Costed.applyFill {qty : Shares} {price : Int} (h : pos.Costed)
    (hprice : 0 < price ∧ InI64 price) (hclamped : ∀ x ∈ pos.clamped qty price, InI64 x) :
    pos.applyFill qty price = pos.idealFill qty price ∧ (pos.applyFill qty price).Costed := by
  have hideal := applyFill_eq_idealFill hclamped (h.inI64_pnlPerUnit hprice.1.le hprice.2)
  have havg : InI64 (pos.applyFill qty price).avgEntryPrice :=
    inI64_avgEntryPrice_applyFill h.inI64 hprice.2
  rw [hideal] at havg ⊢
  exact ⟨rfl, h.idealFill hprice.1.le hprice.2 havg⟩

/-- No fill takes any cost out of a position that stays open on its side. -/
def Unreduced : Position → List (Shares × Int) → Prop
  | _, [] => True
  | pos, fill :: fills =>
    (pos.Reduces fill.1 → pos.closedCost fill.1 = 0) ∧ (pos.applyFill fill.1 fill.2).Unreduced fills

instance : (pos : Position) → (fills : List (Shares × Int)) → Decidable (pos.Unreduced fills)
  | _, [] => inferInstanceAs (Decidable True)
  | pos, fill :: fills =>
    have := instDecidableUnreduced (pos.applyFill fill.1 fill.2) fills
    inferInstanceAs (Decidable (_ ∧ _))

/-- All along the fills, the fills on the other side make the mirror image of the position. -/
def Mirrored (pos : Position) (fills : List (Shares × Int)) : Prop :=
  ∀ k, pos.mirror.applyFills ((fills.map mirrorFill).take k) =
  (pos.applyFills (fills.take k)).mirror

/-- The run lemma: the two sides stay mirror images as long as no cost is taken out. -/
theorem mirrored_iff_of_costed (hcosted : pos.Costed) (hcosted' : pos.mirror.Costed)
    (hpriced : Priced fills) (h : pos.Unsaturated fills)
    (h' : pos.mirror.Unsaturated (fills.map mirrorFill)) :
    pos.Mirrored fills ↔ pos.Unreduced fills := by
  induction fills generalizing pos with
  | nil => exact ⟨fun _ ↦ trivial, fun _ k ↦ by rw [List.map_nil, List.take_nil]; rfl⟩
  | cons fill fills ih =>
    obtain ⟨hhead, htail⟩ := List.forall_mem_cons.mp hpriced
    obtain ⟨hideal, hnext⟩ := hcosted.applyFill hhead h.1
    obtain ⟨hideal', hnext'⟩ :
      pos.mirror.applyFill (-fill.1) fill.2 = pos.mirror.idealFill (-fill.1) fill.2 ∧
        (pos.mirror.applyFill (-fill.1) fill.2).Costed := hcosted'.applyFill hhead h'.1
    have hstep : pos.mirror.applyFill (-fill.1) fill.2 = (pos.applyFill fill.1 fill.2).mirror ↔
        (pos.Reduces fill.1 → pos.closedCost fill.1 = 0) := by
      rw [hideal, hideal', idealFill_mirror_iff fill.2]
    have hsucc (k : Nat) : pos.mirror.applyFills (((fill :: fills).map mirrorFill).take (k + 1)) =
        (pos.mirror.applyFill (-fill.1) fill.2).applyFills ((fills.map mirrorFill).take k) := rfl
    constructor
    · intro hmirrored
      have heq : pos.mirror.applyFill (-fill.1) fill.2 = (pos.applyFill fill.1 fill.2).mirror :=
        hmirrored 1
      rw [heq] at hnext'
      refine ⟨hstep.mp heq, (ih hnext hnext' htail h.2 ?_).mp fun k ↦ ?_⟩
      · exact heq ▸ h'.2
      · rw [← heq]
        exact hmirrored (k + 1)
    · rintro ⟨hclean, hrest⟩ k
      have heq := hstep.mpr hclean
      rw [heq] at hnext'
      cases k with
      | zero => rfl
      | succ k =>
        rw [hsucc, heq]
        exact (ih hnext hnext' htail h.2 (heq ▸ h'.2)).mpr hrest k

/-- Longs and shorts: in every state that the fills reach, the fills on the other side reach its
mirror image, exactly if no fill takes cost out of a position that stays open.  The source subtracts
that cost from the basis of a short position too, which is negative. -/
theorem mirrored_iff (symbol : Rebalancer.Symbol) (hpriced : Priced fills)
    (h : (new symbol).Unsaturated fills) (h' : (new symbol).Unsaturated (fills.map mirrorFill)) :
    (∀ before, before <+: fills →
      (new symbol).applyFills (before.map mirrorFill) = ((new symbol).applyFills before).mirror) ↔
      (new symbol).Unreduced fills := by
  rw [← mirrored_iff_of_costed (costed_new symbol) (costed_new symbol) hpriced h h']
  constructor
  · intro hmirror k
    rw [← List.map_take]
    exact hmirror _ (List.take_prefix k fills)
  · intro hmirror before hbefore
    rw [List.prefix_iff_eq_take.mp hbefore, List.map_take]
    exact hmirror _

/-- A long position that is turned over, and what is short then, are mirrored. -/
theorem mirrored_iff_turned : Priced [(2000000, 10000), (-3000000, 12000), (1000000, 9000)] ∧
    ∀ before, before <+: [(2000000, 10000), (-3000000, 12000), (1000000, 9000)] →
      (new .unknown).applyFills (before.map mirrorFill) =
        ((new .unknown).applyFills before).mirror :=
  ⟨by decide, (mirrored_iff .unknown (by decide) (by decide) (by decide)).mpr (by decide)⟩

/-- Two shares are sold short and one is bought back: the other is carried at three times its
price. -/
theorem not_mirrored :
    ¬ ∀ (symbol : Rebalancer.Symbol) (fills : List (Shares × Int)), Priced fills →
    (new symbol).Unsaturated fills → (new symbol).Unsaturated (fills.map mirrorFill) →
    (new symbol).applyFills (fills.map mirrorFill) = ((new symbol).applyFills fills).mirror :=
  fun h ↦ absurd
    (h .unknown [(-2000000, 10000), (1000000, 9000)] (by decide) (by decide) (by decide))
    (by decide)

end Runs

/-! ## Cash -/

section Cash

/-- What the fills cost, in whole shares: purchases less sales. -/
def spent (fills : List (Shares × Int)) : Int :=
  (fills.map fun fill ↦ Shares.whole fill.1 * fill.2).sum

/-- What is left of the basis once the whole shares of the position are taken out at their
average. -/
def remainder (pos : Position) : Int := pos.totalCost % Shares.whole pos.quantity

/-- The fill closes the position. -/
def Closes (pos : Position) (qty : Shares) : Prop := pos.quantity ≠ 0 ∧ pos.quantity + qty = 0

instance (pos : Position) (qty : Shares) : Decidable (pos.Closes qty) :=
  inferInstanceAs (Decidable (_ ∧ _))

/-- Every fill that closes the position finds a basis that its whole shares divide. -/
def ClosesEvenly : Position → List (Shares × Int) → Prop
  | _, [] => True
  | pos, fill :: fills =>
    (pos.Closes fill.1 → Shares.whole pos.quantity ∣ pos.totalCost) ∧
      (pos.applyFill fill.1 fill.2).ClosesEvenly fills

/-- The remainders that closing fills let go of. -/
def lost : Position → List (Shares × Int) → Int
  | _, [] => 0
  | pos, fill :: fills =>
    (if pos.Closes fill.1 then pos.remainder else 0) + (pos.applyFill fill.1 fill.2).lost fills

/-- A long or flat position in whole shares, at the average of what it has cost. -/
structure Whole (pos : Position) : Prop where
  nonneg : 0 ≤ pos.quantity
  dvd : Shares.scale ∣ pos.quantity
  flat : pos.quantity = 0 → pos.totalCost = 0
  average : pos.avgEntryPrice = pos.totalCost.tdiv (Shares.whole pos.quantity)

variable {pos : Position} {qty : Shares} {price : Int} {fills : List (Shares × Int)}

theorem whole_new (symbol : Rebalancer.Symbol) : (new symbol).Whole where
  nonneg := le_rfl
  dvd := Int.dvd_zero _
  flat _ := rfl
  average := rfl

theorem scale_mul_whole (h : Shares.scale ∣ qty) : Shares.scale * Shares.whole qty = qty :=
  Int.mul_tdiv_cancel' h

/-- The value of whole shares is exact. -/
theorem mul_tdiv_scale (h : Shares.scale ∣ qty) (price : Int) :
    (qty * price).tdiv Shares.scale = Shares.whole qty * price := by
  conv_lhs => rw [← scale_mul_whole h, Int.mul_assoc, Int.mul_tdiv_cancel_left _ (by decide)]

theorem whole_add {qty' : Shares} (h : Shares.scale ∣ qty) (h' : Shares.scale ∣ qty') :
    Shares.whole (qty + qty') = Shares.whole qty + Shares.whole qty' :=
  by
  obtain ⟨m, rfl⟩ := h
  obtain ⟨n, rfl⟩ := h'
  simp only [Shares.whole, ← Int.mul_add, Int.mul_tdiv_cancel_left _ (by decide : Shares.scale ≠ 0)]

/-- An average of whole shares is the average of its shares. -/
theorem mul_scale_tdiv (h : Shares.scale ∣ qty) (cost : Int) :
    (cost * Shares.scale).tdiv qty = cost.tdiv (Shares.whole qty) := by
  conv_lhs => rw [← scale_mul_whole h, Int.mul_comm cost, Int.mul_tdiv_mul_of_pos _ _ (by decide)]

theorem Whole.totalCost_nonneg (h : pos.Whole) (hcosted : pos.Costed) : 0 ≤ pos.totalCost := by
  rcases h.nonneg.eq_or_lt with hflat | hlong
  · exact (h.flat hflat.symm).ge
  · exact hcosted.totalCost_nonneg hlong

/-- The shares at their average and the remainder make up the basis. -/
theorem Whole.mul_average_add_remainder (h : pos.Whole) (hcost : 0 ≤ pos.totalCost) :
    Shares.whole pos.quantity * pos.avgEntryPrice + pos.remainder = pos.totalCost := by
  rw [h.average, remainder, Int.tdiv_eq_ediv_of_nonneg hcost]
  exact Int.mul_ediv_add_emod _ _

theorem whole_opened (hpos : 0 < qty) (hdvd : Shares.scale ∣ qty) (hquantity : pos.quantity = qty)
    (havg : pos.avgEntryPrice = price) (htotal : pos.totalCost = (qty * price).tdiv Shares.scale) :
    pos.Whole where
  nonneg := hquantity ▸ hpos.le
  dvd := hquantity ▸ hdvd
  flat h := absurd (hquantity ▸ h) hpos.ne'
  average := by
    have hwhole : Shares.whole qty ≠ 0 := fun h ↦ by
      have := scale_mul_whole hdvd
      lia
    rw [havg, htotal, hquantity, mul_tdiv_scale hdvd, Int.mul_tdiv_cancel_left _ hwhole]

theorem whole_averaged (hpos : 0 < qty) (hdvd : Shares.scale ∣ qty) (hquantity : pos.quantity = qty)
    (havg : pos.avgEntryPrice = (pos.totalCost * Shares.scale).tdiv qty) : pos.Whole where
  nonneg := hquantity ▸ hpos.le
  dvd := hquantity ▸ hdvd
  flat h := absurd (hquantity ▸ h) hpos.ne'
  average := by rw [havg, mul_scale_tdiv hdvd, hquantity]

/-- A fill in whole shares that leaves the position long or flat: what it pays or earns goes into
the basis or out of it, into the realized profit, or, as a remainder, nowhere. -/
theorem Whole.idealFill (h : pos.Whole) (hcost : 0 ≤ pos.totalCost) (hdvd : Shares.scale ∣ qty)
    (hnonneg : 0 ≤ (pos.idealFill qty price).quantity) :
    (pos.idealFill qty price).Whole ∧
      (pos.idealFill qty price).realizedPnl + Shares.whole qty * price -
        (pos.idealFill qty price).totalCost =
        pos.realizedPnl - pos.totalCost + if pos.Closes qty then pos.remainder else 0 := by
  have hquantity := h.nonneg
  revert hnonneg
  rw [Position.idealFill]
  by_cases hzero : qty = 0
  · have hopen : ¬ pos.Closes qty := by simp only [Closes]; lia
    have hwhole : Shares.whole qty = 0 := by rw [hzero]; rfl
    rw [if_pos hzero, if_neg hopen, hwhole]
    exact fun _ ↦ ⟨h, by lia⟩
  rw [if_neg hzero]
  by_cases hflat : pos.quantity = 0
  · have hopen : ¬ pos.Closes qty := fun h ↦ h.1 hflat
    rw [if_pos hflat, if_neg hopen, h.flat hflat]
    refine fun hnonneg ↦
      ⟨whole_opened (lt_of_le_of_ne hnonneg (Ne.symm hzero)) hdvd rfl rfl rfl, ?_⟩
    simp only [mul_tdiv_scale hdvd]
    lia
  rw [if_neg hflat]
  have hnetdvd : Shares.scale ∣ pos.quantity + qty := Int.dvd_add h.dvd hdvd
  by_cases hsame : pos.SameDirection qty
  · have hopen : ¬ pos.Closes qty := by simp only [SameDirection, Closes] at *; lia
    rw [if_pos hsame, if_neg hopen]
    refine fun hnonneg ↦ ⟨whole_averaged (lt_of_le_of_ne hnonneg ?_) hnetdvd rfl rfl, ?_⟩
    · simp only [SameDirection] at hsame
      lia
    · simp only [mul_tdiv_scale hdvd]
      lia
  rw [if_neg hsame]
  have hsell : qty < 0 := by simp only [SameDirection] at hsame; lia
  have hclose : pos.closeQty qty = min (-qty) pos.quantity := by
    rw [closeQty, abs_of_neg hsell, abs_of_nonneg hquantity]
  have hlong : 0 < pos.quantity := lt_of_le_of_ne hquantity (Ne.symm hflat)
  -- a sale takes out its shares at the average
  have hsold (hle : 0 ≤ pos.quantity + qty) (p : Int) :
      (pos.closeQty qty * p).tdiv Shares.scale = -(Shares.whole qty * p) := by
    rw [hclose, min_eq_left (by lia), Int.neg_mul, Int.neg_tdiv, mul_tdiv_scale hdvd]
  by_cases hclosed : pos.quantity + qty = 0
  · have hwhole : Shares.whole pos.quantity + Shares.whole qty = 0 := by
      rw [← whole_add h.dvd hdvd, hclosed]
      rfl
    have hsum := h.mul_average_add_remainder hcost
    simp only [if_pos hclosed, if_pos (show pos.Closes qty from ⟨hflat, hclosed⟩)]
    refine fun _ ↦ ⟨⟨le_rfl, Int.dvd_zero _, fun _ ↦ rfl, rfl⟩, ?_⟩
    rw [hsold hclosed.ge, pnlPerUnit, if_pos hlong, Int.mul_sub, eq_neg_of_add_eq_zero_right hwhole,
      Int.neg_mul, Int.neg_mul]
    omega
  have hopen : ¬ pos.Closes qty := fun h ↦ hclosed h.2
  by_cases hside : 0 < pos.quantity + qty ↔ 0 < pos.quantity
  · have hnet := hside.mpr hlong
    simp only [if_neg hclosed, if_pos hside, if_neg hopen]
    refine fun _ ↦ ⟨whole_averaged hnet hnetdvd rfl rfl, ?_⟩
    simp only [hsold hnet.le]
    rw [pnlPerUnit, if_pos hlong, Int.mul_sub]
    omega
  · simp only [if_neg hclosed, if_neg hside]
    exact fun hnonneg ↦ absurd hnonneg (by lia)

theorem Whole.remainder_nonneg (h : pos.Whole) (hclose : pos.Closes qty) : 0 ≤ pos.remainder := by
  refine Int.emod_nonneg _ fun hwhole ↦ hclose.1 ?_
  rw [← scale_mul_whole h.dvd, hwhole, Int.mul_zero]

/-- What the run lemma is about: whole-share fills at prices, none of which saturates, that keep the
position long or flat. -/
structure LongRun (pos : Position) (fills : List (Shares × Int)) : Prop where
  priced : Priced fills
  dvd : ∀ fill ∈ fills, Shares.scale ∣ fill.1
  unsaturated : pos.Unsaturated fills
  nonneg : ∀ before, before <+: fills → 0 ≤ (pos.applyFills before).quantity

/-- The first fill of such a run. -/
theorem LongRun.cons {fill : Shares × Int} (hrun : pos.LongRun (fill :: fills)) (h : pos.Whole)
    (hcosted : pos.Costed) : (pos.applyFill fill.1 fill.2).LongRun fills ∧
      (pos.applyFill fill.1 fill.2).Whole ∧ (pos.applyFill fill.1 fill.2).Costed ∧
      (pos.applyFill fill.1 fill.2).realizedPnl + Shares.whole fill.1 * fill.2 -
          (pos.applyFill fill.1 fill.2).totalCost =
        pos.realizedPnl - pos.totalCost + if pos.Closes fill.1 then pos.remainder else 0 := by
  obtain ⟨hprice, hpriced⟩ := List.forall_mem_cons.mp hrun.priced
  obtain ⟨hdvd, hdvds⟩ := List.forall_mem_cons.mp hrun.dvd
  obtain ⟨hclamped, hunsaturated⟩ := hrun.unsaturated
  obtain ⟨hideal, hcosted'⟩ := hcosted.applyFill hprice hclamped
  have hnonneg : 0 ≤ (pos.applyFill fill.1 fill.2).quantity :=
    hrun.nonneg [fill] (List.prefix_append [fill] fills)
  rw [hideal] at hnonneg
  obtain ⟨hwhole, hcash⟩ := h.idealFill (h.totalCost_nonneg hcosted) hdvd hnonneg
  refine ⟨⟨hpriced, hdvds, hunsaturated, fun before hbefore ↦ ?_⟩, ?_⟩
  · exact hrun.nonneg (fill :: before) (List.cons_prefix_cons.mpr ⟨rfl, hbefore⟩)
  · rw [← hideal] at hwhole hcash
    exact ⟨hwhole, hcosted', hcash⟩

/-- The run lemma: all that the fills have paid is in the basis or has been lost in closing. -/
theorem LongRun.realizedPnl_eq (hrun : pos.LongRun fills) (h : pos.Whole) (hcosted : pos.Costed) :
    (pos.applyFills fills).realizedPnl + spent fills - (pos.applyFills fills).totalCost =
      pos.realizedPnl - pos.totalCost + pos.lost fills ∧ (pos.applyFills fills).Whole := by
  induction fills generalizing pos with
  | nil => exact ⟨by simp only [applyFills_nil, spent, lost, List.map_nil, List.sum_nil]; omega, h⟩
  | cons fill fills ih =>
    obtain ⟨hrest, hwhole, hcosted', hcash⟩ := hrun.cons h hcosted
    obtain ⟨hih, hend⟩ := ih hrest hwhole hcosted'
    refine ⟨?_, hend⟩
    simp only [applyFills_cons, spent, lost, List.map_cons, List.sum_cons] at hih ⊢
    omega

/-- Nothing is lost exactly if every closing fill finds a basis that its shares divide. -/
theorem LongRun.lost_eq_zero_iff (hrun : pos.LongRun fills) (h : pos.Whole) (hcosted : pos.Costed) :
    0 ≤ pos.lost fills ∧ (pos.lost fills = 0 ↔ pos.ClosesEvenly fills) := by
  induction fills generalizing pos with
  | nil => exact ⟨le_rfl, fun _ ↦ trivial, fun _ ↦ rfl⟩
  | cons fill fills ih =>
    obtain ⟨hrest, hwhole, hcosted', -⟩ := hrun.cons h hcosted
    obtain ⟨hnonneg, hiff⟩ := ih hrest hwhole hcosted'
    rw [lost, ClosesEvenly, ← hiff]
    by_cases hclose : pos.Closes fill.1
    · have hrem := h.remainder_nonneg hclose
      rw [if_pos hclose, Int.dvd_iff_emod_eq_zero, ← remainder]
      refine ⟨by omega, ?_, ?_⟩
      · exact fun hzero ↦ ⟨fun _ ↦ by omega, by omega⟩
      · exact fun ⟨hzero, hlost⟩ ↦ by rw [hzero hclose, hlost, Int.add_zero]
    · rw [if_neg hclose, Int.zero_add]
      exact ⟨hnonneg, fun hlost ↦ ⟨fun h ↦ absurd h hclose, hlost⟩, fun h ↦ h.2⟩

/-- Cash: a position in whole shares that has been long or flat and ends flat has realized what its
sales brought less what its purchases cost, exactly if every fill that closed it found a basis that
its shares divide. -/
theorem realizedPnl_eq_iff (symbol : Rebalancer.Symbol) (hpriced : Priced fills)
    (hdvd : ∀ fill ∈ fills, Shares.scale ∣ fill.1) (h : (new symbol).Unsaturated fills)
    (hlong : ∀ before, before <+: fills → 0 ≤ ((new symbol).applyFills before).quantity)
    (hflat : ((new symbol).applyFills fills).quantity = 0) :
    ((new symbol).applyFills fills).realizedPnl = -spent fills ↔
    (new symbol).ClosesEvenly fills := by
  have hrun : (new symbol).LongRun fills := ⟨hpriced, hdvd, h, hlong⟩
  have hwhole := whole_new symbol
  have hcosted := costed_new symbol
  obtain ⟨hcash, hend⟩ := hrun.realizedPnl_eq hwhole hcosted
  have hstart : (new symbol).realizedPnl = 0 ∧ (new symbol).totalCost = 0 := ⟨rfl, rfl⟩
  rw [hend.flat hflat, hstart.1, hstart.2] at hcash
  rw [← (hrun.lost_eq_zero_iff hwhole hcosted).2]
  omega

/-- Two shares, one of them sold before the other: what they cost together is even. -/
theorem realizedPnl_eq_even :
    ((new .unknown).applyFills
      [(1000000, 1000), (1000000, 1002), (-1000000, 1100), (-1000000, 990)]).realizedPnl =
      -spent [(1000000, 1000), (1000000, 1002), (-1000000, 1100), (-1000000, 990)] :=
  (realizedPnl_eq_iff .unknown (by decide) (by decide) (by decide)
    (fun before h ↦ (by decide : ∀ before ∈ List.inits
        [(1000000, 1000), (1000000, 1002), (-1000000, 1100), (-1000000, 990)],
      0 ≤ ((new .unknown).applyFills before).quantity) before ((List.mem_inits _ _).mpr h))
    (by decide)).mpr ⟨by decide, by decide, by decide, by decide, trivial⟩

/-- Two shares at 10.00 and 10.01 are sold at 11.00 each: the realized profit is 2.00, the cash
1.99. -/
theorem not_realizedPnl_eq : ¬ ∀ (symbol : Rebalancer.Symbol) (fills : List (Shares × Int)),
    Priced fills → (∀ fill ∈ fills, Shares.scale ∣ fill.1) → (new symbol).Unsaturated fills →
    (∀ before, before <+: fills → 0 ≤ ((new symbol).applyFills before).quantity) →
    ((new symbol).applyFills fills).quantity = 0 →
    ((new symbol).applyFills fills).realizedPnl = -spent fills := by
  intro h
  have hlong : ∀ before ∈ List.inits [(1000000, 1000), (1000000, 1001), (-2000000, 1100)],
      0 ≤ ((new .unknown).applyFills before).quantity := by decide
  have heq :=
    h .unknown [(1000000, 1000), (1000000, 1001), (-2000000, 1100)] (by decide) (by decide)
    (by decide) (fun before hbefore ↦ hlong before ((List.mem_inits _ _).mpr hbefore)) (by decide)
  exact absurd heq (by decide)

end Cash

end Position

end Nanobook
