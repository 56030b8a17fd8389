import Mathlib.Order.Bounds.Basic
import Nanobook.Portfolio.Fill

/-!
# What a buy can afford

The search of `largest_affordable_buy_qty` is exact: of a buy that the cash does not pay for it
finds the largest multiple of the step that the cash does pay for.  Nothing is assumed of a cost but
that it is not negative and does not fall as the value rises.  The one exception is a search over
all of `0, …, i64::MAX`, which does not end.
-/

namespace Nanobook

variable {F : Type} [F64 F]

/-- Costs that are not negative and do not fall as the value rises. -/
structure CostModel.Monotone (c : CostModel F) : Prop where
  nonneg : ∀ notional, 0 ≤ notional → notional ≤ i64Max → 0 ≤ c.computeCost notional
  mono : ∀ notional notional', 0 ≤ notional → notional ≤ notional' → notional' ≤ i64Max →
    c.computeCost notional ≤ c.computeCost notional'

/-- The quantity is the request, if the cash pays for it, or else the largest multiple of the step
within the request that the cash pays for, and it is zero only if the cash pays for no positive
multiple. -/
structure LargestAffordable (requestedRaw cash step effectivePrice : Int) (c : CostModel F)
    (qty : Shares) : Prop where
  whole : buyCashRequired requestedRaw effectivePrice c ≤ cash → qty = requestedRaw
  greatest : cash < buyCashRequired requestedRaw effectivePrice c →
    IsGreatest {raw | step ∣ raw ∧ raw ≤ requestedRaw ∧ buyCashRequired raw effectivePrice c ≤ cash}
    qty
  zero : qty = 0 → ∀ raw, 0 < raw → step ∣ raw → cash < buyCashRequired raw effectivePrice c

section Affordable

variable {requestedRaw cash step effectivePrice : Int} {c : CostModel F}

theorem buyCashRequired_of_pos {raw : Int} (hraw : 0 < raw) (hprice : 0 < effectivePrice) :
    buyCashRequired raw effectivePrice c =
      satAdd (min ((raw * effectivePrice).tdiv Shares.scale) i64Max)
        (c.computeCost (min ((raw * effectivePrice).tdiv Shares.scale) i64Max)) := by
  have hnotional : 0 ≤ min ((raw * effectivePrice).tdiv Shares.scale) i64Max :=
    le_min (Int.tdiv_nonneg (Int.mul_nonneg hraw.le hprice.le) (by decide)) (by decide)
  rw [buyCashRequired, if_neg (by omega)]
  simp only [max_eq_right hnotional]

/-- A larger buy takes no less cash. -/
theorem buyCashRequired_mono (hc : c.Monotone) (hprice : 0 < effectivePrice) {raw raw' : Int}
    (h : raw ≤ raw') :
    buyCashRequired raw effectivePrice c ≤ buyCashRequired raw' effectivePrice c := by
  have hnonneg (x : Int) (hx : 0 < x) : 0 ≤ min ((x * effectivePrice).tdiv Shares.scale) i64Max :=
    le_min (Int.tdiv_nonneg (Int.mul_nonneg hx.le hprice.le) (by decide)) (by decide)
  rcases lt_or_ge 0 raw' with hpos' | hneg'
  · rw [buyCashRequired_of_pos hpos' hprice]
    have hcost' := hc.nonneg _ (hnonneg raw' hpos') (min_le_right _ _)
    rcases lt_or_ge 0 raw with hpos | hneg
    · rw [buyCashRequired_of_pos hpos hprice]
      have hnotional : min ((raw * effectivePrice).tdiv Shares.scale) i64Max ≤
          min ((raw' * effectivePrice).tdiv Shares.scale) i64Max :=
        min_le_min_right _
        (Int.tdiv_le_tdiv (by decide) (Int.mul_le_mul_of_nonneg_right h hprice.le))
      have hcost := hc.mono _ _ (hnonneg raw hpos) hnotional (min_le_right _ _)
      exact clampI64_mono (Int.add_le_add hnotional hcost)
    · rw [buyCashRequired, if_pos (.inl hneg), satAdd, clampI64_nonneg_iff]
      exact Int.add_nonneg (hnonneg raw' hpos') hcost'
  · rw [buyCashRequired, if_pos (.inl (h.trans hneg')), buyCashRequired, if_pos (.inl hneg')]

/-- Where the search begins below `i64::MAX`, it finds the last number of steps that the cash pays
for. -/
theorem search_greatest {hi steps : Int} (hc : c.Monotone) (hprice : 0 < effectivePrice)
    (hcash : 0 < cash)
    (hstep : 0 < step) (hhi : 0 ≤ hi) (hlt : hi < i64Max) (hmul : hi * step ≤ i64Max)
    (h : Loop.iterate (Bisect.body searchMiddle (affordable cash step effectivePrice c))
      searchPasses
      (0, hi) = some steps) :
    0 ≤ steps ∧ steps ≤ hi ∧ buyCashRequired (steps * step) effectivePrice c ≤ cash ∧
      ∀ k, steps < k → k ≤ hi → cash < buyCashRequired (k * step) effectivePrice c := by
  have hsplit : ∀ l h, 0 ≤ l → l < h → h ≤ hi → Bisect.Splits l h (searchMiddle l h) :=
    fun _ _ hl hl' hh ↦ splits_searchMiddle hl hl' (lt_of_le_of_lt hh hlt)
  -- within the search the product of the steps does not saturate
  have hok (k : Int) (hk : 0 ≤ k) (hkhi : k ≤ hi) : affordable cash step effectivePrice c k = true ↔
      buyCashRequired (k * step) effectivePrice c ≤ cash := by
    have hraw : satMul k step = k * step := clampI64_eq
      ⟨(by decide : i64Min ≤ 0).trans (Int.mul_nonneg hk hstep.le),
        (Int.mul_le_mul_of_nonneg_right hkhi hstep.le).trans hmul⟩
    rw [affordable, hraw, decide_eq_true_iff]
  have hmono : ∀ i j, 0 ≤ i → i ≤ j → j ≤ hi → affordable cash step effectivePrice c j = true →
      affordable cash step effectivePrice c i = true := by
    intro i j hi0 hij hjhi hj
    rw [hok j (hi0.trans hij) hjhi] at hj
    exact (hok i hi0 (hij.trans hjhi)).mpr
      ((buyCashRequired_mono hc hprice (Int.mul_le_mul_of_nonneg_right hij hstep.le)).trans hj)
  obtain ⟨hlo, hle, hfound⟩ := Bisect.iterate_body hsplit hhi h
  refine ⟨hlo, hle, ?_, fun k hk hkhi ↦ ?_⟩
  · rcases hfound with rfl | hfound
    · rw [Int.zero_mul, buyCashRequired, if_pos (.inl le_rfl)]
      exact hcash.le
    · exact (hok _ hlo hle).mp hfound
  · have hfail := Bisect.iterate_body_last hsplit hmono hhi h k hk hkhi
    exact not_le.mp fun hfits ↦
      absurd ((hok k (hlo.trans hk.le) hkhi).mpr hfits) (Bool.eq_false_iff.mp hfail)

/-- The search is exact, whenever it ends. -/
theorem largestAffordable_of_eq_some (hc : c.Monotone) (hpos : 0 < requestedRaw)
    (hmax : requestedRaw ≤ i64Max) (hcash : 0 < cash) (hstep : 0 < step)
    (hprice : 0 < effectivePrice) {qty : Shares}
    (h : largestAffordableBuyQty requestedRaw cash step effectivePrice c = some qty) :
    LargestAffordable requestedRaw cash step effectivePrice c qty := by
  rcases le_or_gt (buyCashRequired requestedRaw effectivePrice c) cash with hfits | hshort
  · rw [largestAffordableBuyQty, if_neg (by omega), if_pos hfits] at h
    cases h
    exact
      { whole := fun _ ↦ rfl
        greatest := fun hshort ↦ absurd hfits (not_le.mpr hshort)
        zero := fun hzero ↦ absurd hzero hpos.ne' }
  rcases largestAffordableBuyQty_eq_some hpos hmax hshort h with ⟨hnone, -⟩ |
    ⟨-, -, hlt, steps, -, hmul, -, rfl, hsteps⟩
  · omega
  · obtain ⟨hlo, hhi, hok, hlast⟩ :=
      search_greatest hc hprice hcash hstep (Int.ediv_nonneg hpos.le hstep.le) hlt
      ((Int.ediv_mul_le _ hstep.ne').trans hmax) hsteps
    have hupper (raw : Int) (hdvd : step ∣ raw) (hraw : raw ≤ requestedRaw)
        (hfits : buyCashRequired raw effectivePrice c ≤ cash) : raw ≤ steps * step := by
      obtain ⟨k, rfl⟩ := hdvd
      rw [Int.mul_comm] at hraw hfits ⊢
      refine Int.mul_le_mul_of_nonneg_right (not_lt.mp fun hk ↦ ?_) hstep.le
      have hkhi : k ≤ requestedRaw / step := (Int.le_ediv_iff_mul_le hstep).mpr hraw
      exact absurd hfits (not_le.mpr (hlast k hk hkhi))
    refine ⟨fun hall ↦ absurd hall (not_le.mpr hshort), fun _ ↦
      ⟨⟨Int.dvd_mul_left _ _, hmul, hok⟩, ?_⟩, ?_⟩
    · rintro raw ⟨hdvd, hraw, hfits⟩
      exact hupper raw hdvd hraw hfits
    · intro hzero raw hrawpos hdvd
      refine not_le.mp fun hfit ↦ ?_
      rcases le_or_gt raw requestedRaw with hin | hout
      · exact absurd hrawpos (not_lt.mpr ((hupper raw hdvd hin hfit).trans hzero.le))
      · exact absurd ((buyCashRequired_mono hc hprice hout.le).trans hfit) (not_le.mpr hshort)

/-- The search is exact, and returns, except for a buy of `i64::MAX` micro-shares in steps of one
that the cash does not pay for, where it goes on forever. -/
theorem largestAffordableBuyQty_exact_iff (hc : c.Monotone) (hpos : 0 < requestedRaw)
    (hmax : requestedRaw ≤ i64Max) (hcash : 0 < cash) (hstep : 0 < step)
    (hprice : 0 < effectivePrice) :
    (∃ qty, largestAffordableBuyQty requestedRaw cash step effectivePrice c = some qty ∧
      LargestAffordable requestedRaw cash step effectivePrice c qty) ↔
      ¬ (requestedRaw = i64Max ∧ step = 1 ∧ cash < buyCashRequired requestedRaw effectivePrice c) :=
      by
  constructor
  · rintro ⟨qty, hqty, -⟩ ⟨rfl, rfl, hshort⟩
    rw [largestAffordableBuyQty, if_neg (by omega), if_neg (not_le.mpr hshort), Int.tdiv_one,
      search_never_ends fun _ ↦ affordable_of_nonpos hcash.le (by decide)] at hqty
    cases hqty
  · intro hends
    obtain ⟨qty, hqty⟩ : ∃ qty,
        largestAffordableBuyQty requestedRaw cash step effectivePrice c = some qty := by
      by_cases hover : requestedRaw = i64Max ∧ step = 1
      · have hfits : buyCashRequired requestedRaw effectivePrice c ≤ cash :=
          not_lt.mp fun hshort ↦ hends ⟨hover.1, hover.2, hshort⟩
        exact ⟨requestedRaw, by rw [largestAffordableBuyQty, if_neg (by omega), if_pos hfits]⟩
      · exact exists_largestAffordableBuyQty hmax hover
    exact ⟨qty, hqty, largestAffordable_of_eq_some hc hpos hmax hcash hstep hprice hqty⟩

end Affordable

/-! ## Flat costs -/

/-- The same commission for every trade, and no slippage. -/
def flatCost (commission : Int) : CostModel (Option Rat) := ⟨F64.ofInt 0, F64.ofInt 0, commission⟩

theorem computeCost_flatCost {commission : Int} (h : 0 ≤ commission) (notional : Int) :
    (flatCost commission).computeCost notional = commission := by
  have hproduct : (F64.ofInt |notional| * F64.ofInt 0 : Option Rat) = F64.ofInt 0 :=
    congrArg some (Rat.mul_zero _)
  have hrate :
    F64.toI64 (F64.round (F64.ofInt 0 / F64.ofInt 10000 : Option Rat)) = 0 := by decide +kernel
  rw [CostModel.computeCost, flatCost, hproduct, hrate, max_eq_right h]

theorem monotone_flatCost {commission : Int} (h : 0 ≤ commission) :
    (flatCost commission).Monotone where
  nonneg notional _ _ := h.trans_eq (computeCost_flatCost h notional).symm
  mono notional notional' _ _ _ := by rw [computeCost_flatCost h, computeCost_flatCost h]

/-- Ten dollars pay for nine whole shares at a dollar, with a commission of a dollar. -/
theorem largestAffordableBuyQty_exact_nine :
    ∃ qty, largestAffordableBuyQty 100000000 1000 1000000 100 (flatCost 100) = some qty ∧
      LargestAffordable 100000000 1000 1000000 100 (flatCost 100) qty :=
  (largestAffordableBuyQty_exact_iff (monotone_flatCost (by decide)) (by decide) (by decide)
    (by decide) (by decide) (by decide)).mpr fun h ↦ absurd h.2.1 (by decide)

/-- A buy of `i64::MAX` micro-shares at a dollar, in steps of one, is never cut down to the cash. -/
theorem not_largestAffordableBuyQty_exact :
    ¬ ∀ (requestedRaw cash step effectivePrice : Int) (c : CostModel (Option Rat)), c.Monotone →
      0 < requestedRaw → requestedRaw ≤ i64Max → 0 < cash → 0 < step → 0 < effectivePrice →
      ∃ qty, largestAffordableBuyQty requestedRaw cash step effectivePrice c = some qty ∧
        LargestAffordable requestedRaw cash step effectivePrice c qty := by
  intro h
  obtain ⟨qty, hqty, -⟩ :=
    h i64Max 100 1 100 (flatCost 0) (monotone_flatCost le_rfl) (by decide) le_rfl
    (by decide) (by decide) (by decide)
  have hshort : ¬ buyCashRequired i64Max 100 (flatCost 0) ≤ 100 := by
    rw [buyCashRequired, if_neg (by decide)]
    simp only [computeCost_flatCost le_rfl]
    decide
  rw [largestAffordableBuyQty, if_neg (by decide), if_neg hshort, Int.tdiv_one,
    search_never_ends fun _ ↦ affordable_of_nonpos (by decide) (by decide)] at hqty
  cases hqty

end Nanobook
