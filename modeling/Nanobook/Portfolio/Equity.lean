import Mathlib.Tactic.Ring
import Nanobook.Portfolio.OrderBounds

/-!
# Equity

A trade without costs moves value between cash and a position.  Both are truncated to cents, each by
itself, so that a fill may gain or lose a cent; where shares are whole nothing is truncated.  The
price of a fill goes through a float even if there are no costs, and whatever a price loses on that
way the equity loses.
-/

namespace Nanobook

open Rebalancer (Symbol collected)

variable {F : Type} [F64 F]

/-! ## Values -/

/-- The value of a quantity at a price per share, whatever its size. -/
def valueOf (qty : Shares) (price : Int) : Int := (qty * price).tdiv Shares.scale

theorem notionalCents_eq (qty : Shares) (price : Int) :
    notionalCents qty price = clampI64 (valueOf qty price) := rfl

@[simp] theorem valueOf_zero (price : Int) : valueOf 0 price = 0 := by
  rw [valueOf, Int.zero_mul, Int.zero_tdiv]

/-- The value of a sum is within a cent of the sum of the values. -/
theorem abs_valueOf_add (qty qty' : Shares) (price : Int) :
    |valueOf (qty + qty') price - valueOf qty price - valueOf qty' price| ≤ 1 := by
  have hcases (x : Int) :
    (0 ≤ x ∧ x.tdiv 1000000 = x / 1000000) ∨ (x < 0 ∧ x.tdiv 1000000 = -(-x / 1000000)) := by
    rcases lt_or_ge x 0 with hneg | hpos
    · right
      refine ⟨hneg, ?_⟩
      rw [← Int.tdiv_eq_ediv_of_nonneg (Int.neg_nonneg.mpr hneg.le), Int.neg_tdiv, Int.neg_neg]
    · exact .inl ⟨hpos, Int.tdiv_eq_ediv_of_nonneg hpos⟩
  have hsum : (qty + qty') * price = qty * price + qty' * price := Int.add_mul qty qty' price
  have hscale : Shares.scale = 1000000 := rfl
  rw [valueOf, valueOf, valueOf, hsum, hscale, abs_le]
  generalize qty * price = x
  generalize qty' * price = y
  -- what is cut off has the sign of what it is cut off from
  rcases hcases x with ⟨hx, heq⟩ | ⟨hx, heq⟩ <;> rcases hcases y with ⟨hy, heq'⟩ | ⟨hy, heq'⟩ <;>
    rcases hcases (x + y) with ⟨hxy, heq''⟩ | ⟨hxy, heq''⟩ <;> rw [heq, heq', heq''] <;>
      constructor <;> omega

/-- Whole shares are worth a whole number of cents. -/
theorem valueOf_of_dvd {qty : Shares} (h : Shares.scale ∣ qty) (price : Int) :
    valueOf qty price = qty / Shares.scale * price := by
  obtain ⟨k, rfl⟩ := h
  rw [valueOf, Int.mul_assoc, Int.mul_tdiv_cancel_left _ (by decide),
    Int.mul_ediv_cancel_left _ (by decide)]

theorem valueOf_add_of_dvd {qty qty' : Shares} (h : Shares.scale ∣ qty) (h' : Shares.scale ∣ qty')
    (price : Int) :
    valueOf (qty + qty') price = valueOf qty price + valueOf qty' price := by
  rw [valueOf_of_dvd h, valueOf_of_dvd h', valueOf_of_dvd (Int.dvd_add h h'),
    Int.add_ediv_of_dvd_left h, Int.add_mul]

/-! ## No costs -/

/-- `CostModel::zero`. -/
def CostModel.zero : CostModel F := ⟨F64.ofInt 0, F64.ofInt 0, 0⟩

/-- A price that has been a float. -/
def roundTrip (F : Type) [F64 F] (price : Int) : Int := F64.toI64 (F64.round (F64.ofInt price : F))

/-- The arithmetic of floats with zero and one. -/
structure F64.Unital (F : Type) [F64 F] : Prop where
  mul_one : ∀ n, InI64 n → (F64.ofInt n : F) * F64.ofInt 1 = F64.ofInt n
  one_add : ∀ sign : Int, (sign = 1 ∨ sign = -1) →
    (F64.ofInt 1 : F) + F64.ofInt sign * F64.ofInt 0 / F64.ofInt 10000 = F64.ofInt 1
  mul_zero :
  ∀ n, InI64 n → F64.toI64 (F64.round (F64.ofInt n * F64.ofInt 0 / F64.ofInt 10000 : F)) = 0
  round_nonneg : ∀ n, 0 ≤ n → 0 ≤ F64.toI64 (F64.round (F64.ofInt n : F))
  lt_irrefl : F64.lt (F64.ofInt 0 : F) (F64.ofInt 0) = false

namespace CostModel

theorem computeCost_zero (hf : F64.Unital F) {notional : Int} (hnotional : InI64 |notional|) :
    (zero : CostModel F).computeCost notional = 0 := by
  rw [computeCost, zero]
  simp only [hf.mul_zero _ hnotional, max_self]

theorem effectivePrice_zero (hf : F64.Unital F) (qty : Shares) {price : Int}
    (hprice : InI64 price) :
    (zero : CostModel F).effectivePrice qty price = roundTrip F price := by
  rw [effectivePrice, zero, roundTrip]
  dsimp only
  split_ifs
  · rw [hf.one_add 1 (.inl rfl), hf.mul_one _ hprice]
  · rw [hf.one_add (-1) (.inr rfl), hf.mul_one _ hprice]

theorem computeCost_zero_notionalOf (hf : F64.Unital F) (qty : Shares) (price : Int) :
    (zero : CostModel F).computeCost (notionalOf qty price) = 0 := by
  have hnonneg := notionalOf_nonneg qty price
  refine computeCost_zero hf ?_
  rw [abs_of_nonneg hnonneg]
  exact ⟨(by decide : i64Min ≤ 0).trans hnonneg, min_le_right _ _⟩

end CostModel

/-! ## One fill -/

/-- What is affordable of a buy that is not is a multiple of the step. -/
theorem dvd_largestAffordableBuyQty {requestedRaw cash step effectivePrice : Int} {c : CostModel F}
    {qty : Shares} (hpos : 0 < requestedRaw) (hmax : requestedRaw ≤ i64Max)
    (hshort : cash < buyCashRequired requestedRaw effectivePrice c)
    (h : largestAffordableBuyQty requestedRaw cash step effectivePrice c = some qty) :
    step ∣ qty := by
  rcases largestAffordableBuyQty_eq_some hpos hmax hshort
    h with ⟨-, rfl⟩ | ⟨-, -, -, steps, -, -, -, rfl, -⟩
  · exact Int.dvd_zero _
  · exact Int.dvd_mul_left _ _

namespace Portfolio

/-- The equity, in a sum that does not saturate. -/
def exactEquity (p : Portfolio F) (prices : PriceMap) : Int :=
  p.cash + (p.positions.entries.map fun e ↦ valueOf e.2.quantity ((prices e.1).getD 0)).sum

end Portfolio

namespace Fill

/-- Nothing saturates when the fill is booked. -/
structure Exact (f : Fill F) : Prop where
  value : InI64 (valueOf f.booked f.effectivePrice)
  cash : InI64 (f.found.cash - valueOf f.booked f.effectivePrice)
  quantity : InI64 (f.found.quantity f.symbol + f.booked)

variable {f : Fill F} {p : Portfolio F} {prices : PriceMap}

/-- A fill without costs exchanges the value of what it books. -/
theorem exactEquity_result (hf : F64.Unital F) (hcost : f.found.costModel = .zero)
    (hqty : InI64 f.qty)
    (hexact : f.Exact) (h : f.result = some p) : p.exactEquity prices = f.found.exactEquity prices +
      (valueOf (f.found.quantity f.symbol + f.booked) ((prices f.symbol).getD 0) -
        valueOf (f.found.quantity f.symbol) ((prices f.symbol).getD 0) - valueOf f.booked
        f.effectivePrice) := by
  obtain ⟨hfills, count, shortfall, rfl⟩ := fills_booked hqty h
  by_cases hzero : f.booked = 0
  · rw [Portfolio.booked, if_pos hzero, hzero, Int.add_zero, valueOf_zero, Int.sub_self,
      Int.sub_zero, Int.add_zero]
    rfl
  · have hin := hfills.inI64 hqty
    have hcash : f.found.cashAfter f.booked f.effectivePrice =
        f.found.cash - valueOf f.booked f.effectivePrice := by
      rw [Portfolio.cashAfter, hcost, CostModel.computeCost_zero_notionalOf hf, notionalCents_eq,
        clampI64_eq hexact.value, satAdd, Int.add_zero, clampI64_eq hexact.value, satSub,
        clampI64_eq hexact.cash]
    have hold :
      ((f.found.position f.symbol).getD (Position.new f.symbol)).quantity =
        f.found.quantity f.symbol := by
      rw [Portfolio.quantity]
      cases f.found.position f.symbol <;> rfl
    have hvalue : ((f.found.position f.symbol).map fun pos ↦
        valueOf pos.quantity ((prices f.symbol).getD 0)).getD 0 =
          valueOf (f.found.quantity f.symbol) ((prices f.symbol).getD 0) := by
      rw [Portfolio.quantity]
      cases f.found.position f.symbol with
      | none => exact (valueOf_zero _).symm
      | some pos => rfl
    have hsum := HashMap.sum_map_insert (fun sym pos ↦ valueOf pos.quantity ((prices sym).getD 0))
      f.found.positions f.symbol
      (((f.found.position f.symbol).getD (Position.new f.symbol)).applyFill f.booked
        f.effectivePrice)
    rw [Position.quantity_applyFill _ _ _ hzero hin, hold, satAdd,
      clampI64_eq hexact.quantity] at hsum
    rw [Portfolio.booked, if_neg hzero]
    change f.found.cashAfter f.booked f.effectivePrice + _ = _
    rw [hcash]
    change _ + ((f.found.positions.insert f.symbol _).entries.map _).sum = _
    refine (congrArg (_ + ·) hsum).trans ?_
    change _ + (_ + (_ - ((f.found.position f.symbol).map _).getD 0)) = _
    rw [hvalue, Portfolio.exactEquity]
    ring

/-- At its own price the fill changes the equity by a cent at most, and not at all if the shares are
whole. -/
theorem abs_exactEquity_result (hf : F64.Unital F) (hcost : f.found.costModel = .zero)
    (hqty : InI64 f.qty) (hexact : f.Exact) (hprice : f.effectivePrice = (prices f.symbol).getD 0)
    (h : f.result = some p) :
    |p.exactEquity prices - f.found.exactEquity prices| ≤ (if f.booked = 0 then 0 else 1) ∧
      (Shares.scale ∣ f.found.quantity f.symbol → Shares.scale ∣ f.booked →
        p.exactEquity prices = f.found.exactEquity prices) := by
  have hresult : p.exactEquity prices = _ := exactEquity_result hf hcost hqty hexact h
  rw [hprice] at hresult
  refine ⟨?_, fun hwhole hwhole' ↦ ?_⟩
  · rw [hresult, add_sub_cancel_left]
    split_ifs with hzero
    · rw [hzero, Int.add_zero, valueOf_zero, Int.sub_self, Int.sub_zero, abs_zero]
    · exact abs_valueOf_add _ _ _
  · rw [hresult, valueOf_add_of_dvd hwhole hwhole']
    ring

theorem quantity_result (hqty : InI64 f.qty) (hexact : f.Exact) (h : f.result = some p)
    (sym : Symbol) :
    p.quantity sym =
      if f.symbol = sym then f.found.quantity sym + f.booked else f.found.quantity sym := by
  obtain ⟨hfills, count, shortfall, rfl⟩ := fills_booked hqty h
  rw [Portfolio.quantity_booked (hfills.inI64 hqty)]
  by_cases hsym : f.symbol = sym
  · subst hsym
    by_cases hzero : f.booked = 0
    · rw [if_neg fun h ↦ h.2 hzero, if_pos rfl, hzero, Int.add_zero]
      rfl
    · rw [if_pos ⟨rfl, hzero⟩, if_pos rfl, satAdd]
      exact clampI64_eq hexact.quantity
  · rw [if_neg fun h ↦ hsym h.1, if_neg hsym]
    rfl

/-- What is booked of whole shares in steps of whole shares is whole. -/
theorem scale_dvd_booked (hqty : InI64 f.qty) (hzero : f.qty ≠ 0)
    (hstep : Shares.scale ∣ f.found.quantityStep)
    (hwhole : Shares.scale ∣ f.qty) (h : f.result = some p) : Shares.scale ∣ f.booked := by
  rcases booked_cases hqty hzero h with ⟨-, heq⟩ | ⟨-, -, heq⟩ | ⟨hfull, hpos, hpart⟩
  · rwa [heq]
  · rw [heq]
    exact Int.dvd_zero _
  · have hshort : f.found.cash < buyCashRequired f.qty f.effectivePrice f.found.costModel :=
      not_le.mp fun hfits ↦ hfull ⟨fun _ ↦ hfits, fun hneg ↦ absurd hneg (not_lt.mpr hpos.le)⟩
    exact hstep.trans (dvd_largestAffordableBuyQty hpos hqty.2 hshort hpart)

end Fill

/-! ## All fills -/

namespace Portfolio

variable {p p' : Portfolio F} {prices : PriceMap} {orders : List (PlannedOrder F)}

/-- Every position is of whole shares. -/
def Whole (p : Portfolio F) : Prop := ∀ sym, Shares.scale ∣ p.quantity sym

omit [F64 F] in
theorem whole_of_entries (h : ∀ e ∈ p.positions.entries, Shares.scale ∣ e.2.quantity) :
    p.Whole := by
  intro sym
  rw [quantity]
  cases hpos : p.position sym with
  | none => exact Int.dvd_zero _
  | some pos => exact h (sym, pos) (HashMap.mem_entries.mpr hpos)

/-- Fills at their own prices, without costs, change the equity by a cent each at most. -/
theorem abs_exactEquity_run (hf : F64.Unital F) (hcost : p.costModel = .zero)
    (hqty : ∀ o ∈ orders, InI64 o.qty)
    (hfills : ∀ f ∈ p.fillsOf orders, f.Exact ∧ f.effectivePrice = (prices f.symbol).getD 0)
    (h : orders.foldlM executeOrder p = some p') :
    |p'.exactEquity prices - p.exactEquity prices| ≤ (executed (p.fillsOf orders)).length := by
  induction orders generalizing p with
  | nil =>
    cases h
    rw [Int.sub_self, abs_zero]
    exact Int.natCast_nonneg _
  | cons o orders ih =>
    obtain ⟨p₁, hp₁, hrest⟩ := Option.bind_eq_some_iff.mp h
    obtain ⟨ho, horders⟩ := List.forall_mem_cons.mp hqty
    rw [fillsOf, hp₁] at hfills ⊢
    obtain ⟨⟨hexact, hprice⟩, hfills⟩ := List.forall_mem_cons.mp hfills
    have hcost₁ := (kept_executeFill ho hp₁).costModel.trans hcost
    have hstep := (Fill.abs_exactEquity_result hf hcost ho hexact hprice hp₁).1
    have hrun := ih hcost₁ horders hfills hrest
    have htriangle :=
      abs_sub_le (p'.exactEquity prices) (p₁.exactEquity prices) (p.exactEquity prices)
    refine htriangle.trans ?_
    rw [executed, List.filter_cons]
    split_ifs at hstep with hzero
    · rw [if_neg (by simp [hzero])]
      exact (Int.add_le_add hrun hstep).trans (Int.add_zero _).le
    · rw [if_pos (by simp [hzero]), List.length_cons, Nat.cast_add, Nat.cast_one]
      exact Int.add_le_add hrun hstep

/-- Fills of whole shares at their own prices, without costs, do not change the equity, and leave
whole shares. -/
theorem exactEquity_run (hf : F64.Unital F) (hcost : p.costModel = .zero)
    (hqty : ∀ o ∈ orders, InI64 o.qty)
    (hfills : ∀ f ∈ p.fillsOf orders, f.Exact ∧ f.effectivePrice = (prices f.symbol).getD 0 ∧
      (f.found.Whole → Shares.scale ∣ f.booked)) (hwhole : p.Whole)
    (h : orders.foldlM executeOrder p = some p') :
    p'.exactEquity prices = p.exactEquity prices ∧ p'.Whole := by
  induction orders generalizing p with
  | nil =>
    cases h
    exact ⟨rfl, hwhole⟩
  | cons o orders ih =>
    obtain ⟨p₁, hp₁, hrest⟩ := Option.bind_eq_some_iff.mp h
    obtain ⟨ho, horders⟩ := List.forall_mem_cons.mp hqty
    rw [fillsOf, hp₁] at hfills
    obtain ⟨⟨hexact, hprice, hbooked⟩, hfills⟩ := List.forall_mem_cons.mp hfills
    have hcost₁ := (kept_executeFill ho hp₁).costModel.trans hcost
    have hdvd := hbooked hwhole
    have hwhole₁ : p₁.Whole := by
      intro sym
      have hsame := Fill.quantity_result ho hexact hp₁ sym
      rw [hsame]
      split_ifs
      · exact Int.dvd_add (hwhole sym) hdvd
      · exact hwhole sym
    obtain ⟨hequity, hwhole'⟩ := ih hcost₁ horders hfills hwhole₁ hrest
    exact ⟨hequity.trans
      ((Fill.abs_exactEquity_result hf hcost ho hexact hprice hp₁).2 (hwhole _) hdvd), hwhole'⟩

end Portfolio

end Nanobook
