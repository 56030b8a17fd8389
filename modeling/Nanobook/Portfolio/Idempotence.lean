import Nanobook.Portfolio.Conservation
import Nanobook.Portfolio.OrderIndependence

/-!
# Rebalancing twice

Without costs a rebalance that is executed as planned leaves nothing to do: the equity is what it
was, the positions without a target are gone, and what is left of every difference is less than a
step is worth.
-/

namespace Nanobook

open Rebalancer (Symbol collected collected_isNone_iff)

variable {F : Type} [F64 F]

/-! ## Rounding to steps -/

/-- In steps of whole shares a difference is rounded to multiples of what a step is worth. -/
theorem sizeQty_eq (diff : Int) {price k : Int} (hprice : 0 < price) (hk : 0 < k) :
    sizeQty diff price (Shares.scale * k) =
    clampI64 (diff.tdiv (price * k) * (Shares.scale * k)) := by
  have hscale : (0 : Int) < Shares.scale := by decide
  have hround : wholeSteps |diff| price (Shares.scale * k) =
      |diff| / (price * k) * (Shares.scale * k) := by
    rw [wholeSteps, Multiples.floor, abs_of_pos hprice, Int.ediv_ediv_of_nonneg hprice.le,
      Int.mul_left_comm price, Int.mul_comm |diff|, Int.mul_ediv_mul_of_pos _ _ hscale]
  rw [sizeQty_eq_clampI64 hprice (Int.mul_pos hscale hk), sizeQtySigned_eq hprice, hround]
  split_ifs with hneg
  · rw [abs_of_neg hneg, ← Int.neg_mul, ← Int.tdiv_eq_ediv_of_nonneg (by omega), Int.neg_tdiv,
      Int.neg_neg]
  · rw [abs_of_nonneg (not_lt.mp hneg), Int.tdiv_eq_ediv_of_nonneg (not_lt.mp hneg)]

/-- What is left of a difference that has been rounded to whole steps is on the same side of zero,
and is less than a step. -/
theorem sizeQty_residual {diff price step residual : Int} (hprice : 0 < price)
    (hstep : Shares.scale ∣ step) (hlimit : ¬ AtLimit (sizeQty diff price step))
    (hresidual : residual = diff - valueOf (sizeQty diff price step) price) :
    Shares.scale ∣ sizeQty diff price step ∧ sizeQty residual price step = 0 ∧
      ((0 ≤ residual ∧ residual ≤ diff) ∨ (diff ≤ residual ∧ residual ≤ 0)) := by
  obtain ⟨k, rfl⟩ := hstep
  rcases le_or_gt k 0 with hk | hk
  · have hnone (diff : Int) : sizeQty diff price (Shares.scale * k) = 0 :=
      if_pos (.inr (.inr (Int.mul_nonpos_of_nonneg_of_nonpos (by decide) hk)))
    rw [hnone, valueOf_zero, Int.sub_zero] at hresidual
    rw [hnone, hnone, hresidual]
    exact ⟨Int.dvd_zero _, rfl, by omega⟩
  · have hworth : 0 < price * k := Int.mul_pos hprice hk
    have hqty :
      sizeQty diff price (Shares.scale * k) = diff.tdiv (price * k) * (Shares.scale * k) := by
      rw [sizeQty_eq diff hprice hk] at hlimit ⊢
      exact (clampI64_eq_or _).resolve_right hlimit
    have hdvd : Shares.scale ∣ diff.tdiv (price * k) * (Shares.scale * k) :=
      Int.dvd_mul_of_dvd_right (Int.dvd_mul_right _ _)
    have hrest : residual = diff.tmod (price * k) := by
      rw [hresidual, hqty, valueOf_of_dvd hdvd, Int.mul_left_comm,
        Int.mul_ediv_cancel_left _ (by decide), Int.tmod_def]
      ring
    have habs : residual.natAbs = diff.natAbs % (price * k).natAbs := by rw [hrest, Int.natAbs_tmod]
    have hless : residual.natAbs < (price * k).natAbs :=
      habs ▸ Nat.mod_lt _ (Int.natAbs_pos.mpr hworth.ne')
    refine ⟨hqty ▸ hdvd, ?_, ?_⟩
    · have hnone : residual.tdiv (price * k) = 0 := by
        rw [← Int.natAbs_eq_zero, Int.natAbs_tdiv]
        exact Nat.div_eq_of_lt hless
      rw [sizeQty_eq _ hprice hk, hnone, Int.zero_mul]
      rfl
    · have hle : residual.natAbs ≤ diff.natAbs := habs ▸ Nat.mod_le _ _
      rcases le_total 0 diff with hpos | hneg
      · have hnonneg : 0 ≤ residual := hrest ▸ Int.tmod_nonneg _ hpos
        omega
      · have hnonpos : residual ≤ 0 := by
          have := Int.tmod_nonneg (price * k) (Int.neg_nonneg.mpr hneg)
          rw [Int.neg_tmod] at this
          omega
        omega

/-! ## Runs that fill every order -/

namespace Fill

variable {f : Fill F} {p : Portfolio F}

/-- A fill counts a trim exactly if the cash does not pay for it. -/
theorem trimmedFillCount_result (hzero : f.qty ≠ 0) (h : f.result = some p) : p.trimmedFillCount =
    if 0 < f.qty ∧ f.found.cash < buyCashRequired f.qty f.effectivePrice f.found.costModel then
      saturatingAdd f.found.trimmedFillCount 1
    else f.found.trimmedFillCount := by
  rw [result, Portfolio.executeFill, if_neg hzero] at h
  obtain ⟨⟨p₁, filled⟩, htrim, h⟩ := Option.bind_eq_some_iff.mp h
  have hcount : p.trimmedFillCount = p₁.trimmedFillCount := by
    simp only at h
    split_ifs at h
    · cases h
      rfl
    · cases h
      rfl
    · cases h
      rfl
  rw [hcount, effectivePrice]
  rw [Portfolio.trimBuy] at htrim
  split_ifs at htrim ⊢ with hshort
  · obtain ⟨affordable, -, heq⟩ := Option.bind_eq_some_iff.mp htrim
    cases heq
    rfl
  · cases htrim
    rfl

theorem trimmedFillCount_result_le (hzero : f.qty ≠ 0) (hmax : f.found.trimmedFillCount ≤ u64Max)
    (h : f.result = some p) :
    f.found.trimmedFillCount ≤ p.trimmedFillCount ∧ p.trimmedFillCount ≤ u64Max := by
  rw [trimmedFillCount_result hzero h]
  split_ifs
  · exact ⟨Nat.le_min.mpr ⟨Nat.le_succ _, hmax⟩, Nat.min_le_right _ _⟩
  · exact ⟨le_rfl, hmax⟩

/-- Without costs and with money in the account, all that is not trimmed is filled. -/
theorem booked_of_untrimmed (hunital : F64.Unital F) (hcost : f.found.costModel = .zero)
    (hcash : 0 ≤ f.found.cash)
    (hqty : InI64 f.qty) (hzero : f.qty ≠ 0) (hprice : 0 < f.effectivePrice)
    (hmax : f.found.trimmedFillCount < u64Max) (h : f.result = some p)
    (hcount : p.trimmedFillCount = f.found.trimmedFillCount) : f.booked = f.qty := by
  have hfits :
    ¬ (0 < f.qty ∧ f.found.cash < buyCashRequired f.qty f.effectivePrice f.found.costModel) := by
    intro hshort
    rw [trimmedFillCount_result hzero h, if_pos hshort, saturatingAdd_eq hmax] at hcount
    omega
  refine (fills_booked hqty h).1.full.mpr
    ⟨fun hpos ↦ not_lt.mp fun hlt ↦ hfits ⟨hpos, hlt⟩, fun hneg ↦ ?_⟩
  -- a sale only brings money in
  have hvalue : notionalCents f.qty f.effectivePrice ≤ 0 := by
    have hproduct : valueOf f.qty f.effectivePrice ≤ 0 := by
      rw [valueOf, ← Int.neg_nonneg, ← Int.neg_tdiv, ← Int.neg_mul]
      exact Int.tdiv_nonneg (Int.mul_nonneg (Int.neg_nonneg.mpr hneg.le) hprice.le) (by decide)
    exact (clampI64_mono hproduct).trans (by decide)
  change 0 ≤ satSub _ (satAdd (notionalCents f.qty f.effectivePrice) _)
  rw [hcost, CostModel.computeCost_zero_notionalOf hunital, satSub_nonneg_iff, satAdd, Int.add_zero]
  exact ((clampI64_mono hvalue).trans (by decide)).trans hcash

end Fill

namespace Portfolio

variable {p p' : Portfolio F} {orders : List (PlannedOrder F)}

/-- Trims are only ever counted up. -/
theorem trimmedFillCount_run_le (hqty : ∀ o ∈ orders, InI64 o.qty ∧ o.qty ≠ 0)
    (hmax : p.trimmedFillCount ≤ u64Max)
    (h : orders.foldlM executeOrder p = some p') : p.trimmedFillCount ≤ p'.trimmedFillCount := by
  induction orders generalizing p with
  | nil =>
    cases h
    exact le_rfl
  | cons o orders ih =>
    obtain ⟨p₁, hp₁, hrest⟩ := Option.bind_eq_some_iff.mp h
    obtain ⟨ho, horders⟩ := List.forall_mem_cons.mp hqty
    have hfirst :=
      Fill.trimmedFillCount_result_le (f := ⟨p, o.symbol, o.qty, o.price⟩) ho.2 hmax hp₁
    exact hfirst.1.trans (ih horders hfirst.2 hrest)

/-- Where no trim is counted every order is filled. -/
theorem booked_run (hunital : F64.Unital F) (hcost : p.costModel = .zero) (hcash : 0 ≤ p.cash)
    (hqty : ∀ o ∈ orders, InI64 o.qty ∧ o.qty ≠ 0)
    (hprice : ∀ f ∈ p.fillsOf orders, 0 < f.effectivePrice)
    (hmax : p.trimmedFillCount < u64Max) (h : orders.foldlM executeOrder p = some p')
    (hcount : p'.trimmedFillCount = p.trimmedFillCount) :
    ∀ f ∈ p.fillsOf orders, f.booked = f.qty := by
  induction orders generalizing p with
  | nil => exact fun f hf ↦ absurd hf List.not_mem_nil
  | cons o orders ih =>
    obtain ⟨p₁, hp₁, hrest⟩ := Option.bind_eq_some_iff.mp h
    obtain ⟨ho, horders⟩ := List.forall_mem_cons.mp hqty
    rw [fillsOf, hp₁] at hprice ⊢
    obtain ⟨hfirstPrice, hprices⟩ := List.forall_mem_cons.mp hprice
    have hpaid := (Fill.cash_nonneg_iff (f := ⟨p, o.symbol, o.qty, o.price⟩) ho.1 hp₁ hcash).mpr
      fun _ hnone ↦ absurd hfirstPrice (not_lt.mpr hnone)
    have hfirst :=
      Fill.trimmedFillCount_result_le (f := ⟨p, o.symbol, o.qty, o.price⟩) ho.2 hmax.le hp₁
    have hlast := trimmedFillCount_run_le horders hfirst.2 hrest
    have hsame : p₁.trimmedFillCount = p.trimmedFillCount :=
      le_antisymm (hlast.trans hcount.le) hfirst.1
    have hcost₁ := (kept_executeFill ho.1 hp₁).costModel.trans hcost
    refine List.forall_mem_cons.mpr
      ⟨?_, ih hcost₁ hpaid horders hprices (hsame ▸ hmax) hrest (hcount.trans hsame.symm)⟩
    exact Fill.booked_of_untrimmed (f := ⟨p, o.symbol, o.qty, o.price⟩) hunital hcost hcash ho.1
      ho.2 hfirstPrice hmax
      hp₁ hsame

/-- Where every order is filled and no two are for the same symbol, the positions move by the
orders. -/
theorem quantity_run (hqty : ∀ o ∈ orders, InI64 o.qty)
    (hdistinct : (orders.map PlannedOrder.symbol).Nodup)
    (hfills : ∀ f ∈ p.fillsOf orders, f.Exact ∧ f.booked = f.qty)
    (h : orders.foldlM executeOrder p = some p') :
    (∀ o ∈ orders, p'.quantity o.symbol = p.quantity o.symbol + o.qty) ∧
      ∀ sym, sym ∉ orders.map PlannedOrder.symbol → p'.quantity sym = p.quantity sym := by
  induction orders generalizing p with
  | nil =>
    cases h
    exact ⟨fun o ho ↦ absurd ho List.not_mem_nil, fun _ _ ↦ rfl⟩
  | cons o orders ih =>
    obtain ⟨p₁, hp₁, hrest⟩ := Option.bind_eq_some_iff.mp h
    obtain ⟨ho, horders⟩ := List.forall_mem_cons.mp hqty
    obtain ⟨hout, hdistinct⟩ := List.nodup_cons.mp hdistinct
    rw [fillsOf, hp₁] at hfills
    obtain ⟨⟨hexact, hbooked⟩, hfills⟩ := List.forall_mem_cons.mp hfills
    obtain ⟨hmoved, hkept⟩ := ih horders hdistinct hfills hrest
    have hfirst (sym : Symbol) := Fill.quantity_result ho hexact hp₁ sym
    rw [hbooked] at hfirst
    constructor
    · refine List.forall_mem_cons.mpr ⟨?_, fun o' ho' ↦ ?_⟩
      · rw [hkept _ hout, hfirst]
        exact if_pos rfl
      · have hother : o.symbol ≠ o'.symbol := fun heq ↦ hout (heq ▸ List.mem_map_of_mem ho')
        rw [hmoved o' ho', hfirst]
        exact congrArg (· + o'.qty) (if_neg hother)
    · intro sym hsym
      rw [List.map_cons, List.mem_cons, not_or] at hsym
      rw [hkept sym hsym.2, hfirst]
      exact if_neg fun heq ↦ hsym.1 heq.symm

/-! ## The plan -/

/-- The settings by which orders are planned. -/
structure SameSettings (p p' : Portfolio F) : Prop where
  quantityStep : p'.quantityStep = p.quantityStep
  minOrderValue : p'.minOrderValue = p.minOrderValue
  maxOrderValue : p'.maxOrderValue = p.maxOrderValue
  noTradeBandBps : p'.noTradeBandBps = p.noTradeBandBps

theorem sameSettings_run (hqty : ∀ o ∈ orders, InI64 o.qty)
    (h : orders.foldlM executeOrder p = some p') :
    p.SameSettings p' := by
  refine foldlM_executeOrder_invariant (I := p.SameSettings) hqty
    (fun p₁ p₂ symbol qty price hq hsame hfill ↦ ?_)
    ⟨rfl, rfl, rfl, rfl⟩ h
  obtain ⟨count, shortfall, filled, -, rfl⟩ := executeFill_cases hq hfill
  rw [booked]
  split_ifs
  · exact ⟨hsame.quantityStep, hsame.minOrderValue, hsame.maxOrderValue, hsame.noTradeBandBps⟩
  · exact ⟨hsame.quantityStep, hsame.minOrderValue, hsame.maxOrderValue, hsame.noTradeBandBps⟩

omit [F64 F] in
/-- Without a bound on the value of an order, it is dropped or left as it is. -/
theorem eq_of_boundOrder (hmax : p.maxOrderValue ≤ 0) {o o' : PlannedOrder F}
    (h : p.boundOrder o = some o') :
    o' = o := by
  rcases (boundOrder_eq_some h).2 with ⟨heq, -⟩ | ⟨hpos, -⟩
  · exact heq
  · exact absurd hpos (not_lt.mpr hmax)

section

variable {prices : PriceMap} {equity : Int} {sym : Symbol} {target : Symbol × F}
  {o : PlannedOrder F}

omit [F64 F] in
theorem SameSettings.boundOrder (h : p.SameSettings p') : p'.boundOrder o = p.boundOrder o := by
  rw [Portfolio.boundOrder, h.maxOrderValue, h.minOrderValue, h.quantityStep]
  rfl

theorem SameSettings.withinBand (h : p.SameSettings p') : p'.withinBand = p.withinBand := by
  funext driftBps
  rw [Portfolio.withinBand, h.noTradeBandBps]
  rfl

/-- What is planned of a position without a target depends on how much of it there is. -/
theorem closeOrder_eq : p.closeOrder prices equity sym = (prices sym).bind fun price ↦
    if p.quantity sym = 0 then none
    else if p.withinBand (driftBpsOf (notionalCents (p.quantity sym) price) equity) then none
    else p.boundOrder ⟨sym, satNeg (p.quantity sym), price,
      driftBpsOf (notionalCents (p.quantity sym) price) equity⟩ := by
  rw [closeOrder, quantity]
  cases prices sym with
  | none => rfl
  | some price =>
    cases p.position sym with
    | none => rfl
    | some pos =>
      simp only [Position.isFlat, Position.marketValue, decide_eq_true_eq, Option.map_some,
        Option.getD_some]
      rfl

@[inherit_doc closeOrder_eq] theorem targetOrder_eq : p.targetOrder prices equity target =
    (prices target.1).bind fun price ↦
      if price ≤ 0 then none
      else
        let diffValue :=
          satSub (F64.toI64 (F64.ofInt equity * target.2))
          (notionalCents (p.quantity target.1) price)
        let driftBps := driftBpsOf diffValue equity
        if p.withinBand driftBps then none
        else
          let diffQty := sizeQty diffValue price p.quantityStep
          if diffQty = 0 then none else p.boundOrder ⟨target.1, diffQty, price, driftBps⟩ := by
  have hvalue (price : Int) : ((p.position target.1).map fun pos ↦ pos.marketValue price).getD 0 =
      notionalCents (p.quantity target.1) price := by
    rw [quantity]
    cases p.position target.1 with
    | none => exact (congrArg clampI64 (valueOf_zero price)).symm
    | some pos => rfl
  rw [targetOrder]
  simp only [hvalue]
  rfl

theorem closeOrder_congr (hset : p.SameSettings p') (hquantity : p'.quantity sym = p.quantity sym) :
    p'.closeOrder prices equity sym = p.closeOrder prices equity sym := by
  simp only [closeOrder_eq, hquantity, hset.withinBand, hset.boundOrder]

theorem targetOrder_congr (hset : p.SameSettings p')
    (hquantity : p'.quantity target.1 = p.quantity target.1) :
    p'.targetOrder prices equity target = p.targetOrder prices equity target := by
  simp only [targetOrder_eq, hquantity, hset.withinBand, hset.boundOrder, hset.quantityStep]

theorem closeOrder_of_flat (h : p.quantity sym = 0) : p.closeOrder prices equity sym = none := by
  rw [closeOrder_eq]
  cases prices sym with
  | none => rfl
  | some price => exact if_pos h

/-- A position is closed as a whole. -/
theorem qty_of_closeOrder (hmax : p.maxOrderValue ≤ 0)
    (h : p.closeOrder prices equity sym = some o) :
    o.symbol = sym ∧ o.qty = satNeg (p.quantity sym) := by
  rw [closeOrder_eq] at h
  obtain ⟨price, -, h⟩ := Option.bind_eq_some_iff.mp h
  split_ifs at h
  rw [eq_of_boundOrder hmax h]
  exact ⟨rfl, rfl⟩

/-- A position is moved by the difference in steps. -/
theorem qty_of_targetOrder (hmax : p.maxOrderValue ≤ 0)
    (h : p.targetOrder prices equity target = some o) :
    ∃ price, prices target.1 = some price ∧ 0 < price ∧ o.symbol = target.1 ∧
      o.qty = sizeQty (satSub (F64.toI64 (F64.ofInt equity * target.2))
        (notionalCents (p.quantity target.1) price)) price p.quantityStep := by
  rw [targetOrder_eq] at h
  obtain ⟨price, hprice, h⟩ := Option.bind_eq_some_iff.mp h
  simp only at h
  split_ifs at h with hpos
  rw [eq_of_boundOrder hmax h]
  exact ⟨price, hprice, not_le.mp hpos, rfl, rfl⟩

theorem targetOrder_of_settled {price : Int} (hprice : prices target.1 = some price)
    (h : sizeQty
        (satSub (F64.toI64 (F64.ofInt equity * target.2))
          (notionalCents (p.quantity target.1) price))
      price p.quantityStep = 0) : p.targetOrder prices equity target = none := by
  rw [targetOrder_eq, hprice, Option.bind_some]
  simp only [h, if_true, ite_self]

end

/-! ## The plan after a call -/

section

variable {prices : PriceMap} {equity : Int} {targets : List (Symbol × F)}
  {order order' : HashMap.Order Symbol}

/-- The plan is made of the positions without a target and of the targets. -/
theorem mem_planned_iff {o : PlannedOrder F} : o ∈ p.planned prices equity order targets ↔
    ((collected targets o.symbol).isNone = true ∧ p.closeOrder prices equity o.symbol = some o) ∨
      ∃ target ∈ targets, target.1 = o.symbol ∧ p.targetOrder prices equity target = some o := by
  rw [planned, List.mem_append, List.mem_filterMap, List.mem_filterMap]
  refine or_congr ⟨?_, ?_⟩ ⟨?_, ?_⟩
  · rintro ⟨sym, hsym, h⟩
    have hnone := (List.mem_filter.mp hsym).2
    obtain ⟨hsymbol, -⟩ : o.symbol = sym ∧ p.Bounded o ∧ p.Stepped targets o :=
      closeOrder_spec hnone h
    exact ⟨hsymbol ▸ hnone, hsymbol ▸ h⟩
  · rintro ⟨hnone, h⟩
    have hkey : o.symbol ∈ p.positions.keys := by
      by_contra hout
      obtain ⟨price, pos, -, hpos, -⟩ := closeOrder_eq_some h
      rw [position, HashMap.get?_eq_none_iff.mpr hout] at hpos
      cases hpos
    exact ⟨o.symbol, List.mem_filter.mpr ⟨(order.perm _).mem_iff.mpr hkey, hnone⟩, h⟩
  · rintro ⟨target, hmem, h⟩
    obtain ⟨hsymbol, -⟩ : o.symbol = target.1 ∧ p.Bounded o ∧ p.Stepped targets o :=
      targetOrder_spec h
    exact ⟨target, hmem, hsymbol.symm, h⟩
  · rintro ⟨target, hmem, -, h⟩
    exact ⟨target, hmem, h⟩

/-- What a call does to the positions if it fills every order of its plan: each moves by its
order. -/
structure Carried (p p' : Portfolio F) (orders : List (PlannedOrder F)) : Prop where
  settings : p.SameSettings p'
  moved : ∀ o ∈ orders, p'.quantity o.symbol = p.quantity o.symbol + o.qty ∧ ¬ AtLimit o.qty
  kept : ∀ sym, sym ∉ orders.map PlannedOrder.symbol → p'.quantity sym = p.quantity sym

/-- The positions without a target have been closed. -/
theorem closeOrder_again (hmax : p.maxOrderValue ≤ 0)
    (h : p.Carried p' (p.planned prices equity order targets)) {sym : Symbol}
    (hsym : (collected targets sym).isNone = true) : p'.closeOrder prices equity sym = none := by
  by_cases hmem : sym ∈ (p.planned prices equity order targets).map PlannedOrder.symbol
  · obtain ⟨o, ho, rfl⟩ := List.mem_map.mp hmem
    obtain ⟨hquantity, hlimit⟩ := h.moved o ho
    refine closeOrder_of_flat ?_
    rcases mem_planned_iff.mp ho with ⟨-, hclose⟩ | ⟨target, htarget, hsymbol, -⟩
    · have hqty := (qty_of_closeOrder hmax hclose).2
      rw [hqty] at hquantity hlimit
      have hexact : satNeg (p.quantity o.symbol) = -p.quantity o.symbol :=
        (clampI64_eq_or _).resolve_right hlimit
      rw [hquantity, hexact]
      exact Int.add_right_neg _
    · exact absurd (hsymbol ▸ List.mem_map_of_mem htarget) (collected_isNone_iff.mp hsym)
  · rw [closeOrder_congr h.settings (h.kept sym hmem)]
    cases hclose : p.closeOrder prices equity sym with
    | none => rfl
    | some o =>
      obtain ⟨hsymbol, -⟩ := qty_of_closeOrder hmax hclose
      have ho : o ∈ p.planned prices equity order targets :=
        mem_planned_iff.mpr (.inl ⟨hsymbol ▸ hsym, hsymbol ▸ hclose⟩)
      exact absurd (List.mem_map.mpr ⟨o, ho, hsymbol⟩) hmem

/-- The value of the position and what it is short of its target fit. -/
structure Measured (p : Portfolio F) (prices : PriceMap) (equity : Int) (target : Symbol × F) :
    Prop where
  value : ∀ price, prices target.1 = some price → InI64 (valueOf (p.quantity target.1) price)
  difference : ∀ price, prices target.1 = some price →
    InI64 (F64.toI64 (F64.ofInt equity * target.2) - valueOf (p.quantity target.1) price)

/-- The targets have been reached, up to less than a step. -/
theorem targetOrder_again (hdistinct : (targets.map Prod.fst).Nodup) (hmax : p.maxOrderValue ≤ 0)
    (hwhole : p.Whole) (hstep : Shares.scale ∣ p.quantityStep)
    (h : p.Carried p' (p.planned prices equity order targets)) {target : Symbol × F}
    (htarget : target ∈ targets)
    (hfits : p.Measured prices equity target) : p'.targetOrder prices equity target = none := by
  by_cases hmem : target.1 ∈ (p.planned prices equity order targets).map PlannedOrder.symbol
  · obtain ⟨o, ho, hsymbol⟩ := List.mem_map.mp hmem
    obtain ⟨hquantity, hlimit⟩ := h.moved o ho
    have hplanned : p.targetOrder prices equity target = some o := by
      rcases mem_planned_iff.mp ho with ⟨hnone, -⟩ | ⟨target', htarget', hsymbol', hplanned⟩
      · exact absurd (hsymbol ▸ List.mem_map_of_mem htarget) (collected_isNone_iff.mp hnone)
      · have hsame : target' = target :=
          List.inj_on_of_nodup_map hdistinct htarget' htarget (hsymbol'.trans hsymbol)
        exact hsame ▸ hplanned
    obtain ⟨price, hprice, hpos, -, hqty⟩ := qty_of_targetOrder hmax hplanned
    have hvalue := hfits.value price hprice
    have hdifference := hfits.difference price hprice
    rw [notionalCents_eq, clampI64_eq hvalue, satSub, clampI64_eq hdifference] at hqty
    rw [hqty] at hlimit
    obtain ⟨hdvd, hsettled, hbetween⟩ := sizeQty_residual hpos hstep hlimit rfl
    have htargetValue : InI64 (F64.toI64 (F64.ofInt equity * target.2)) := inI64_clampI64 _
    have hafter : valueOf (p'.quantity target.1) price = valueOf (p.quantity target.1) price +
        valueOf o.qty price := by
      rw [← hsymbol, hquantity, hqty]
      exact valueOf_add_of_dvd (hwhole _) hdvd _
    refine targetOrder_of_settled hprice ?_
    rw [notionalCents_eq, hafter, hqty, h.settings.quantityStep]
    generalize F64.toI64 (F64.ofInt equity * target.2) = goal at *
    generalize valueOf (p.quantity target.1) price = value at *
    generalize valueOf (sizeQty (goal - value) price p.quantityStep) price = worth at *
    have hreached : InI64 (value + worth) ∧ InI64 (goal - (value + worth)) := by
      simp only [InI64, i64Min, i64Max] at *
      omega
    rw [clampI64_eq hreached.1, satSub, clampI64_eq hreached.2, ← Int.sub_sub]
    exact hsettled
  · rw [targetOrder_congr h.settings (h.kept _ hmem)]
    cases hplanned : p.targetOrder prices equity target with
    | none => rfl
    | some o =>
      obtain ⟨-, -, -, hsymbol, -⟩ := qty_of_targetOrder hmax hplanned
      have ho : o ∈ p.planned prices equity order targets :=
        mem_planned_iff.mpr (.inr ⟨target, htarget, hsymbol.symm, hplanned⟩)
      exact absurd (List.mem_map.mpr ⟨o, ho, hsymbol⟩) hmem

end

/-! ## The call again -/

section

variable {prices : PriceMap} {targets : List (Symbol × F)} {order order' : HashMap.Order Symbol}

/-- The settings under which a rebalance is executed as planned, in whole shares: no costs, and no
caps on the trades or on values. -/
structure Plain (p : Portfolio F) : Prop where
  costModel : p.costModel = .zero
  quantityStep : Shares.scale ∣ p.quantityStep
  maxTradesPerRebalance : p.maxTradesPerRebalance = none
  maxRebalanceNotional : p.maxRebalanceNotional ≤ 0
  maxOrderValue : p.maxOrderValue ≤ 0

/-- Nothing saturates in a call and in planning it, nor does the counter of trims. -/
structure Fits (p p' : Portfolio F) (prices : PriceMap) (order order' : HashMap.Order Symbol)
    (targets : List (Symbol × F)) : Prop extends Unclamped p p' prices order order' targets where
  targets : ∀ target ∈ targets, p.Measured prices (p.totalEquity order prices) target
  trims : p.trimmedFillCount < u64Max

theorem rebalanceOrders_of_plain (h : p.Plain) : p.rebalanceOrders prices order targets =
    if p.totalEquity order prices ≤ 0 then []
    else p.planned prices (p.totalEquity order prices) order targets := by
  have hcap : ¬ p.Capped := by
    rw [Capped, h.maxTradesPerRebalance]
    exact not_or.mpr ⟨Bool.false_ne_true, not_lt.mpr h.maxRebalanceNotional⟩
  simp only [rebalanceOrders, admitted_of_uncapped hcap]

/-- A call that trims no buy carries out its plan. -/
theorem carried_rebalance (hunital : F64.Unital F) (hplain : p.Plain) (hcash : 0 ≤ p.cash)
    (hwhole : p.Whole)
    (hprices : ∀ sym px, prices sym = some px → 0 < px ∧ InI64 px ∧ roundTrip F px = px)
    (hdistinct : (targets.map Prod.fst).Nodup) (hfits : p.Fits p' prices order order' targets)
    (h : p.rebalanceSimple prices order targets = some p')
    (htrims : p'.trimmedFillCount = p.trimmedFillCount) :
    p.Carried p' (p.rebalanceOrders prices order targets) := by
  have hqty : ∀ o ∈ p.rebalanceOrders prices order targets, InI64 o.qty ∧ o.qty ≠ 0 :=
    fun o ho ↦ ⟨inI64_rebalanceOrders ho, rebalanceOrders_ne_zero ho⟩
  have hin := fun o ho ↦ (hqty o ho).1
  have hissued (f : Fill F) (hf : f ∈ p.rebalanceFills prices order targets) : p.Issued prices f :=
    issued_rebalanceFills h hf
  have hprice : ∀ f ∈ p.rebalanceFills prices order targets, 0 < f.effectivePrice := by
    intro f hf
    rw [(hissued f hf).effectivePrice_eq hunital hplain.costModel fun sym px h ↦
      (hprices sym px h).2]
    exact (hprices _ _ (hissued f hf).price).1
  have hbooked : ∀ f ∈ p.rebalanceFills prices order targets, f.booked = f.qty :=
    booked_run hunital hplain.costModel hcash hqty hprice hfits.trims h htrims
  have hsymbols : ((p.rebalanceOrders prices order targets).map PlannedOrder.symbol).Nodup := by
    rw [rebalanceOrders_of_plain hplain]
    split_ifs
    · exact List.nodup_nil
    · exact nodup_symbols hdistinct
  obtain ⟨hmoved, hkept⟩ :=
    quantity_run hin hsymbols (fun f hf ↦ ⟨hfits.fills f hf, hbooked f hf⟩) h
  refine ⟨?_, fun o ho ↦ ⟨hmoved o ho, fun hlimit ↦ ?_⟩, hkept⟩
  · obtain ⟨hstep, hmin, hmax, hband⟩ := sameSettings_run hin h
    exact ⟨hstep, hmin, hmax, hband⟩
  · -- a quantity at the end of `i64` is not of whole shares
    obtain ⟨-, hmap⟩ := returned_fillsOf hqty h
    obtain ⟨f, hf, heq⟩ : ∃ f ∈ p.rebalanceFills prices order targets,
        (f.symbol, f.qty, f.price) = (o.symbol, o.qty, o.price) :=
      List.mem_map.mp (hmap ▸ List.mem_map_of_mem ho)
    have hoqty : f.qty = o.qty := congrArg (·.2.1) heq
    obtain ⟨-, -, p₁, hp₁⟩ := (returned_fillsOf hqty h).1 f hf
    have hdvd := (hissued f hf).scale_dvd_booked (hfits.orders f hf) hwhole hplain.quantityStep hp₁
    rw [hbooked f hf, hoqty] at hdvd
    rcases hlimit with heq | heq
    · rw [heq] at hdvd
      exact absurd hdvd (by decide)
    · rw [heq] at hdvd
      exact absurd hdvd (by decide)

/-- A rebalance without costs and caps that trims no buy leaves nothing to do for a second one, if
the account is not overdrawn, unless there is no equity either. -/
theorem rebalanceFills_again (hunital : F64.Unital F) (hplain : p.Plain) (hwhole : p.Whole)
    (hprices : ∀ sym px, prices sym = some px → 0 < px ∧ InI64 px ∧ roundTrip F px = px)
    (hdistinct : (targets.map Prod.fst).Nodup) (hcash : 0 ≤ p.cash ∨ p.totalEquity order prices ≤ 0)
    (hfits : p.Fits p' prices order order' targets)
    (h : p.rebalanceSimple prices order targets = some p')
    (htrims : p'.trimmedFillCount = p.trimmedFillCount) : p'.rebalanceFills prices order' targets =
    [] := by
  have hequity : p'.totalEquity order' prices = p.totalEquity order prices :=
    (conserves_of_roundTrip hunital (fun sym px h ↦ (hprices sym px h).2) p p' order order' targets
      hplain.costModel h
      hfits.toUnclamped).2 hwhole hplain.quantityStep
  have horders : p'.rebalanceOrders prices order' targets = [] := by
    simp only [rebalanceOrders, hequity]
    split_ifs with hnone
    · rfl
    · have hcarried :=
        carried_rebalance hunital hplain (hcash.resolve_right hnone) hwhole hprices hdistinct hfits
        h
        htrims
      rw [rebalanceOrders_of_plain hplain, if_neg hnone] at hcarried
      have hplanned : p'.planned prices (p.totalEquity order prices) order' targets = [] := by
        rw [planned, List.append_eq_nil_iff, List.filterMap_eq_nil_iff, List.filterMap_eq_nil_iff]
        constructor
        · exact fun sym hsym ↦ closeOrder_again hplain.maxOrderValue hcarried
            (List.mem_filter.mp hsym).2
        · exact fun target htarget ↦ targetOrder_again hdistinct hplain.maxOrderValue hwhole
            hplain.quantityStep
            hcarried htarget (hfits.targets target htarget)
      rw [hplanned, admitted]
      split_ifs
      · rfl
      · rfl
  simp only [rebalanceFills, horders]
  rfl

/-- Ten dollars, of which three shares at three dollars leave one. -/
theorem rebalanceFills_again_tenDollars :
    ∃ p', (tenDollars 0).rebalanceSimple (fun _ ↦ some 300) .insertion
    [(aapl, F64.ofInt 1)] = some p' ∧
      p'.rebalanceFills (fun _ ↦ some 300) .insertion [(aapl, F64.ofInt 1)] = [] := by
  have hrun :
    ((tenDollars 0).rebalanceSimple (fun _ ↦ some 300) .insertion [(aapl, F64.ofInt 1)]).map
      (fun p ↦
      (p.totalEquity .insertion (fun _ ↦ some 300), p.exactEquity (fun _ ↦ some 300),
        p.trimmedFillCount)) =
        some (1000, 1000, 0) := by decide +kernel
  obtain ⟨p', hp', heq⟩ := Option.map_eq_some_iff.mp hrun
  obtain ⟨htotal, hequity, hcount⟩ : p'.totalEquity .insertion (fun _ ↦ some 300) = 1000 ∧
      p'.exactEquity (fun _ ↦ some 300) = 1000 ∧ p'.trimmedFillCount = 0 := by
    simpa using heq
  have hfits :
    (tenDollars 0).Fits p' (fun _ ↦ some 300) .insertion .insertion [(aapl, F64.ofInt 1)] :=
    { before := by decide +kernel
      after := htotal.trans hequity.symm
      fills := by decide +kernel
      orders := by decide +kernel
      targets :=
        List.forall_mem_singleton.mpr
        ⟨fun _ h ↦ by cases h; decide +kernel, fun _ h ↦ by cases h; decide +kernel⟩
      trims := by decide }
  refine ⟨p', hp', rebalanceFills_again unital_exact ⟨rfl, Int.dvd_refl _, rfl, le_rfl, le_rfl⟩
    (whole_of_entries fun _ h ↦ absurd h List.not_mem_nil) (fun _ _ h ↦ ?_) (List.nodup_singleton _)
      (.inl (by decide))
    hfits hp' hcount⟩
  cases h
  decide +kernel

/-! ## Calls that are not settled -/

/-- A second call executes something, though the first one has trimmed no buy. -/
structure Unsettled (p : Portfolio F) (prices : PriceMap) (targets : List (Symbol × F)) : Prop where
  plain : p.Plain
  noTradeBandBps : F64.lt (F64.ofInt 0) p.noTradeBandBps = false
  whole : p.Whole
  positive : ∀ sym px, prices sym = some px → 0 < px ∧ InI64 px
  distinct : (targets.map Prod.fst).Nodup
  again : ∃ p', p.rebalanceSimple prices .insertion targets = some p' ∧
    p'.trimmedFillCount =
    p.trimmedFillCount ∧ executed (p'.rebalanceFills prices .insertion targets) ≠ []

theorem again_of_length (h : (p.rebalanceSimple prices .insertion targets).map (fun p' ↦
    (p'.trimmedFillCount, (executed (p'.rebalanceFills prices .insertion targets)).length)) =
      some (p.trimmedFillCount, 1)) : ∃ p', p.rebalanceSimple prices .insertion targets = some p' ∧
    p'.trimmedFillCount =
    p.trimmedFillCount ∧ executed (p'.rebalanceFills prices .insertion targets) ≠ [] := by
  obtain ⟨p', hp', heq⟩ := Option.map_eq_some_iff.mp h
  obtain ⟨hcount, hlength⟩ := Prod.mk.injEq _ _ _ _ ▸ heq
  refine ⟨p', hp', hcount, fun hnone ↦ ?_⟩
  rw [hnone] at hlength
  cases hlength

/-- One share of a symbol. -/
def share (sym : Symbol) : Position := { Position.new sym with quantity := Shares.scale }

/-- Overdrawn, with two shares. -/
def overdrawn : Portfolio (Option Rat) :=
  { new (-150) .zero with
    positions := (HashMap.empty.insert aapl (share aapl)).insert msft (share msft) }

/-- Two cents, and a share. -/
def shareAndCents : Portfolio Float.Model :=
  { new 2 .zero with positions := HashMap.empty.insert aapl (share aapl) }

/-- The quantity that would reach the target does not fit, and what is bought instead falls short of
it. -/
theorem unsettled_clamped :
    (new (10 ^ 13) .zero : Portfolio (Option Rat)).Unsettled (fun _ ↦ some 1)
      [(aapl, F64.ofInt 1)] where
  plain := ⟨rfl, Int.dvd_refl _, rfl, le_rfl, le_rfl⟩
  noTradeBandBps := by decide +kernel
  whole := whole_of_entries fun _ h ↦ absurd h List.not_mem_nil
  positive _ _ h := by
    cases h
    decide
  distinct := List.nodup_singleton _
  again := again_of_length (by decide +kernel)

/-- The first sale does not make up for what is overdrawn, and is put off until the second has. -/
theorem unsettled_overdrawn :
    overdrawn.Unsettled (fun sym ↦ some (if sym = aapl then 100 else 200)) [] where
  plain := ⟨rfl, Int.dvd_refl _, rfl, le_rfl, le_rfl⟩
  noTradeBandBps := by decide +kernel
  whole := whole_of_entries (by decide)
  positive sym px h := by
    cases h
    split_ifs
    · decide
    · decide
  distinct := List.nodup_nil
  again := again_of_length (by decide +kernel)

/-- A share is sold for a cent more than it was worth, which is what half of the equity was short of
a price. -/
theorem unsettled_float :
    shareAndCents.Unsettled
    (fun sym ↦ some (if sym = aapl then 9007199254740995 else 4503599627370499))
      [(msft, F64.ofInt 1 / F64.ofInt 2)] where
  plain := ⟨rfl, Int.dvd_refl _, rfl, le_rfl, le_rfl⟩
  noTradeBandBps := by decide +kernel
  whole := whole_of_entries (by decide)
  positive sym px h := by
    cases h
    split_ifs
    · decide
    · decide
  distinct := List.nodup_singleton _
  again := again_of_length (by decide +kernel)

theorem not_settled :
    (new (10 ^ 13) .zero : Portfolio (Option Rat)).Unsettled (fun _ ↦ some 1)
    [(aapl, F64.ofInt 1)] ∧
    overdrawn.Unsettled (fun sym ↦ some (if sym = aapl then 100 else 200)) [] ∧
    shareAndCents.Unsettled
    (fun sym ↦ some (if sym = aapl then 9007199254740995 else 4503599627370499))
      [(msft, F64.ofInt 1 / F64.ofInt 2)] :=
  ⟨unsettled_clamped, unsettled_overdrawn, unsettled_float⟩

end

end Portfolio

end Nanobook
