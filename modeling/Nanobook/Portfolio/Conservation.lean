import Nanobook.Portfolio.Binary64
import Nanobook.Portfolio.Equity

/-!
# Conservation of equity

A rebalance without costs changes the equity by a cent at most for each fill that it executes, and
not at all if the shares are whole, as long as every price survives being a float.
-/

namespace Nanobook

open Rebalancer (Symbol collected)

variable {F : Type} [F64 F]

namespace Portfolio

variable {p p' : Portfolio F} {prices : PriceMap} {order : HashMap.Order Symbol}
  {targets : List (Symbol × F)}
  {o : PlannedOrder F}

/-! ## The fills of a call -/

/-- What the fills of a call have from it. -/
structure Issued (p : Portfolio F) (prices : PriceMap) (f : Fill F) : Prop where
  qty : InI64 f.qty
  nonzero : f.qty ≠ 0
  costModel : f.found.costModel = p.costModel
  quantityStep : f.found.quantityStep = p.quantityStep
  price : prices f.symbol = some f.price
  stepped : p.quantityStep ∣ f.qty ∨ AtLimit f.qty ∨ p.quantity f.symbol + f.qty = 0

theorem issued_rebalanceFills (h : p.rebalanceSimple prices order targets = some p') {f : Fill F}
    (hf : f ∈ p.rebalanceFills prices order targets) : p.Issued prices f := by
  have hqty : ∀ o ∈ p.rebalanceOrders prices order targets, InI64 o.qty ∧ o.qty ≠ 0 :=
    fun o ho ↦ ⟨inI64_rebalanceOrders ho, rebalanceOrders_ne_zero ho⟩
  obtain ⟨hreturned, hmap⟩ := returned_fillsOf hqty h
  obtain ⟨hin, hzero, -⟩ := hreturned f hf
  obtain ⟨hkept, -⟩ := fillsOf_found hqty apart_rebalanceOrders h hf
  have hmem : (f.symbol, f.qty, f.price) ∈ (p.rebalanceOrders prices order targets).map
      fun o ↦ (o.symbol, o.qty, o.price) := hmap ▸ List.mem_map_of_mem hf
  obtain ⟨o, ho, heq⟩ := List.mem_map.mp hmem
  obtain ⟨hsymbol, hoqty, hprice⟩ : o.symbol = f.symbol ∧ o.qty = f.qty ∧ o.price = f.price := by
    simpa using heq
  have hgiven := (rebalanceOrders_valid ho).2.2
  obtain ⟨-, hstepped⟩ := rebalanceOrders_spec ho
  rw [Stepped, hsymbol, hoqty] at hstepped
  rw [hsymbol, hprice] at hgiven
  exact
    { qty := hin
      nonzero := hzero
      costModel := hkept.costModel
      quantityStep := hkept.quantityStep
      price := hgiven
      stepped := hstepped.imp_right (Or.imp_right And.left) }

/-! ## Calls in which nothing saturates -/

/-- Nothing saturates in a call: neither the equity before and after it, nor a fill.  A quantity at
the end of `i64` is there without being clamped. -/
structure Unclamped (p p' : Portfolio F) (prices : PriceMap) (order order' : HashMap.Order Symbol)
    (targets : List (Symbol × F)) : Prop where
  before : p.totalEquity order prices = p.exactEquity prices
  after : p'.totalEquity order' prices = p'.exactEquity prices
  fills : ∀ f ∈ p.rebalanceFills prices order targets, f.Exact
  orders : ∀ f ∈ p.rebalanceFills prices order targets, AtLimit f.qty →
    p.quantityStep ∣ f.qty ∨ p.quantity f.symbol + f.qty = 0

variable {order' : HashMap.Order Symbol}

omit [F64 F] in
/-- The equity with one position. -/
theorem totalEquity_of_single {sym : Symbol} {pos : Position}
    (h : p.positions.entries = [(sym, pos)])
    (hvalue : InI64 (valueOf pos.quantity ((prices sym).getD 0)))
    (hequity : InI64 (p.exactEquity prices)) :
    p.totalEquity order prices = p.exactEquity prices := by
  have hiter : p.positions.iter order = [(sym, pos)] := by
    have hperm : (p.positions.iter order).Perm [(sym, pos)] := h ▸ HashMap.perm_iter
    exact List.perm_singleton.mp hperm
  rw [exactEquity, h, List.map_cons, List.map_nil, List.sum_cons, List.sum_nil,
    Int.add_zero] at hequity ⊢
  rw [totalEquity, hiter, List.foldl_cons, List.foldl_nil, Position.marketValue, notionalCents_eq,
    clampI64_eq hvalue, satAdd, satAdd, Int.zero_add, clampI64_eq hvalue, clampI64_eq hequity]

/-! ## The equity after a call -/

/-- Rebalances at these prices, without costs and where nothing saturates, conserve the equity. -/
def Conserves (F : Type) [F64 F] (prices : PriceMap) : Prop :=
  ∀ (p p' : Portfolio F) (order order' : HashMap.Order Symbol) (targets : List (Symbol × F)),
    p.costModel = .zero → p.rebalanceSimple prices order targets = some p' →
    p.Unclamped p' prices order order' targets →
      |p'.totalEquity order' prices - p.totalEquity order prices| ≤
          (executed (p.rebalanceFills prices order targets)).length ∧
        (p.Whole → Shares.scale ∣ p.quantityStep →
          p'.totalEquity order' prices = p.totalEquity order prices)

/-- Whole shares are sold and bought in whole shares. -/
theorem Issued.scale_dvd_booked {f : Fill F} (hissued : p.Issued prices f)
    (hlimit : AtLimit f.qty → p.quantityStep ∣ f.qty ∨ p.quantity f.symbol + f.qty = 0)
    (hwhole : p.Whole) (hstep : Shares.scale ∣ p.quantityStep) {p₁ : Portfolio F}
    (h : f.result = some p₁) :
    Shares.scale ∣ f.booked := by
  have hclose (hclosed : p.quantity f.symbol + f.qty = 0) : Shares.scale ∣ f.qty :=
    (Int.dvd_add_right (hwhole f.symbol)).mp (hclosed ▸ Int.dvd_zero _)
  refine Fill.scale_dvd_booked hissued.qty hissued.nonzero (hissued.quantityStep ▸ hstep) ?_ h
  rcases hissued.stepped with hdvd | hend | hclosed
  · exact hstep.trans hdvd
  · rcases hlimit hend with hdvd | hclosed
    · exact hstep.trans hdvd
    · exact hclose hclosed
  · exact hclose hclosed

/-- Without costs and where the prices survive being floats, fills are made at the prices given. -/
theorem Issued.effectivePrice_eq (hunital : F64.Unital F) (hcost : p.costModel = .zero)
    (hprices : ∀ sym px, prices sym = some px → InI64 px ∧ roundTrip F px = px) {f : Fill F}
    (hissued : p.Issued prices f) : f.effectivePrice = f.price := by
  obtain ⟨hin, hround⟩ := hprices _ _ hissued.price
  rw [Fill.effectivePrice, hissued.costModel, hcost, CostModel.effectivePrice_zero hunital _ hin,
    hround]

theorem conserves_of_roundTrip (hunital : F64.Unital F)
    (hprices : ∀ sym px, prices sym = some px → InI64 px ∧ roundTrip F px = px) :
    Conserves F prices := by
  intro p p' order order' targets hcost h hsat
  have hqty : ∀ o ∈ p.rebalanceOrders prices order targets, InI64 o.qty ∧ o.qty ≠ 0 :=
    fun o ho ↦ ⟨inI64_rebalanceOrders ho, rebalanceOrders_ne_zero ho⟩
  have hreturned := (returned_fillsOf hqty h).1
  have hprice (f : Fill F) (hf : f ∈ p.rebalanceFills prices order targets) :
      f.effectivePrice = (prices f.symbol).getD 0 := by
    have hissued := issued_rebalanceFills h hf
    rw [hissued.effectivePrice_eq hunital hcost hprices, hissued.price, Option.getD_some]
  rw [hsat.before, hsat.after]
  constructor
  · exact abs_exactEquity_run hunital hcost (fun o ho ↦ (hqty o ho).1)
      (fun f hf ↦ ⟨hsat.fills f hf, hprice f hf⟩) h
  · intro hwhole hstep
    refine (exactEquity_run (p := p.countOrders (p.rebalanceOrders prices order targets)) hunital
      hcost
      (fun o ho ↦ (hqty o ho).1) (fun f hf ↦ ?_) hwhole h).1
    obtain ⟨-, -, p₁, hp₁⟩ := hreturned f hf
    exact ⟨hsat.fills f hf, hprice f hf, fun _ ↦
      (issued_rebalanceFills h hf).scale_dvd_booked (hsat.orders f hf) hwhole hstep hp₁⟩

/-! ## One share -/

/-- One share and no cash. -/
def oneShare (F : Type) [F64 F] (sym : Symbol) : Portfolio F :=
  { new 0 .zero with
    positions := HashMap.empty.insert sym { Position.new sym with quantity := Shares.scale } }

/-- The order that sells it. -/
def sellShare (F : Type) [F64 F] (sym : Symbol) (price : Int) : PlannedOrder F :=
  ⟨sym, -Shares.scale, price, driftBpsOf (notionalCents Shares.scale price) price⟩

@[inherit_doc sellShare] def shareFill (F : Type) [F64 F] (sym : Symbol) (price : Int) : Fill F :=
  ⟨(oneShare F sym).countOrders [sellShare F sym price], sym, -Shares.scale, price⟩

theorem valueOf_scale (price : Int) : valueOf Shares.scale price = price := by
  rw [valueOf_of_dvd (Int.dvd_refl _), Int.ediv_self (by decide), Int.one_mul]

theorem valueOf_neg_scale (price : Int) : valueOf (-Shares.scale) price = -price := by
  rw [valueOf, Int.neg_mul, Int.neg_tdiv]
  exact congrArg _ (valueOf_scale price)

omit [F64 F] in
theorem boundOrder_of_unbounded (hmax : p.maxOrderValue ≤ 0) (hmin : p.minOrderValue ≤ 0) :
    p.boundOrder o = some o := by
  simp only [boundOrder, hmax, hmin, not_lt.mpr, false_and, if_false]

section

variable {sym : Symbol} {px : Int}

theorem exactEquity_oneShare (hprice : prices sym = some px) :
    (oneShare F sym).exactEquity prices = px := by
  change 0 + (valueOf Shares.scale ((prices sym).getD 0) + 0) = px
  rw [hprice, Option.getD_some, valueOf_scale, Int.add_zero, Int.zero_add]

theorem totalEquity_oneShare (hprice : prices sym = some px) (hin : InI64 px) :
    (oneShare F sym).totalEquity order prices = px := by
  have hequity := exactEquity_oneShare (F := F) hprice
  refine (totalEquity_of_single rfl ?_ (hequity.symm ▸ hin)).trans hequity
  rw [hprice]
  exact (valueOf_scale px).symm ▸ hin

theorem whole_oneShare : (oneShare F sym).Whole :=
  whole_of_entries (List.forall_mem_singleton.mpr (Int.dvd_refl _))

theorem rebalanceOrders_oneShare (hunital : F64.Unital F) (hprice : prices sym = some px)
    (hpos : 0 < px) (hmax : px ≤ i64Max) :
    (oneShare F sym).rebalanceOrders prices .insertion [] = [sellShare F sym px] := by
  have hin : InI64 px := ⟨(by decide : i64Min ≤ 0).trans hpos.le, hmax⟩
  have hband :
    (oneShare F sym).withinBand (driftBpsOf (notionalCents Shares.scale px) px) = false := by
    rw [withinBand]
    exact (congrArg (· && _) hunital.lt_irrefl).trans (Bool.false_and _)
  have hclose : (oneShare F sym).closeOrder prices px sym = some (sellShare F sym px) := by
    have hposition :
      (oneShare F sym).position sym = some { Position.new sym with quantity := Shares.scale } :=
      HashMap.get?_insert_self _ _ _
    rw [closeOrder, hprice, hposition]
    change (if decide (Shares.scale = 0) = true then none else if _ then none else _) = _
    rw [if_neg (by decide), Position.marketValue, if_neg (by rw [hband]; decide)]
    exact boundOrder_of_unbounded le_rfl le_rfl
  have hplanned : (oneShare F sym).planned prices px .insertion [] = [sellShare F sym px] := by
    change List.filterMap _ [sym] ++ [] = _
    rw [List.filterMap_cons_some hclose, List.filterMap_nil, List.append_nil]
  simp only [rebalanceOrders]
  rw [totalEquity_oneShare hprice hin, if_neg (not_le.mpr hpos), hplanned, admitted]
  exact if_neg (not_or.mpr ⟨Bool.false_ne_true, lt_irrefl 0⟩)

theorem rebalance_oneShare (hunital : F64.Unital F) (hprice : prices sym = some px) (hpos : 0 < px)
    (hmax : px ≤ i64Max) (h : (oneShare F sym).rebalanceSimple prices .insertion [] = some p') :
    (oneShare F sym).rebalanceFills prices .insertion [] = [shareFill F sym px] ∧
      (shareFill F sym px).result = some p' := by
  have horders := rebalanceOrders_oneShare hunital hprice hpos hmax
  constructor
  · simp only [rebalanceFills, horders, fillsOf]
    exact congrArg (_ :: ·) (by split <;> rfl)
  · simp only [rebalanceSimple, horders, List.foldlM_cons, List.foldlM_nil] at h
    rw [bind_pure] at h
    exact h

theorem quantity_shareFill :
    (shareFill F sym px).found.quantity (shareFill F sym px).symbol = Shares.scale :=
  congrArg (fun pos ↦ (Option.map Position.quantity pos).getD 0) (HashMap.get?_insert_self _ _ _)

/-- The share is sold for what its price comes to as a float. -/
theorem booked_shareFill (hunital : F64.Unital F) (hpos : 0 < px) (hmax : px ≤ i64Max)
    (h : (shareFill F sym px).result = some p') :
    (shareFill F sym px).effectivePrice = roundTrip F px ∧
      (shareFill F sym px).booked = -Shares.scale ∧ (shareFill F sym px).Exact := by
  have hin : InI64 px := ⟨(by decide : i64Min ≤ 0).trans hpos.le, hmax⟩
  have hnonneg : 0 ≤ roundTrip F px := hunital.round_nonneg px hpos.le
  have hround : InI64 (roundTrip F px) := inI64_clampI64 _
  have hneg : InI64 (-roundTrip F px) := by
    simp only [InI64, i64Min, i64Max] at hround ⊢
    omega
  have hprice : (shareFill F sym px).effectivePrice = roundTrip F px :=
    CostModel.effectivePrice_zero hunital _ hin
  have hcash :
    (shareFill F sym px).found.cashAfter (-Shares.scale) (roundTrip F px) = roundTrip F px := by
    rw [cashAfter]
    change satSub 0 (satAdd _ (CostModel.zero.computeCost _)) = _
    rw [CostModel.computeCost_zero_notionalOf hunital, notionalCents_eq, valueOf_neg_scale,
      clampI64_eq hneg, satAdd,
      Int.add_zero, clampI64_eq hneg, satSub, Int.zero_sub, Int.neg_neg, clampI64_eq hround]
  have hbooked : (shareFill F sym px).booked = -Shares.scale := by
    have hfills := (Fill.fills_booked (by decide : InI64 (-Shares.scale)) h).1
    refine hfills.full.mpr ⟨fun hbuy ↦ absurd hbuy (by decide : ¬ 0 < -Shares.scale), fun _ ↦ ?_⟩
    exact hnonneg.trans (hcash.symm.trans (congrArg _ hprice.symm)).le
  refine ⟨hprice, hbooked, ?_, ?_, ?_⟩
  · rw [hbooked, hprice, valueOf_neg_scale]
    exact hneg
  · rw [hbooked, hprice, valueOf_neg_scale]
    change InI64 (0 - -roundTrip F px)
    rw [Int.zero_sub, Int.neg_neg]
    exact hround
  · rw [hbooked, quantity_shareFill]
    decide

/-- The equity comes to what the share is sold for. -/
theorem roundTrip_of_conserves (hunital : F64.Unital F) (h : Conserves F prices)
    (hprice : prices sym = some px) (hpos : 0 < px) (hmax : px ≤ i64Max) : roundTrip F px = px := by
  have hin : InI64 px := ⟨(by decide : i64Min ≤ 0).trans hpos.le, hmax⟩
  have hqty : InI64 (shareFill F sym px).qty := (by decide : InI64 (-Shares.scale))
  obtain ⟨p', hp'⟩ : ∃ p', (oneShare F sym).rebalanceSimple prices .insertion [] = some p' :=
    exists_rebalanceSimple (show Shares.scale ≠ 1 by decide)
  obtain ⟨hfills, hresult⟩ := rebalance_oneShare hunital hprice hpos hmax hp'
  obtain ⟨hsold, hbooked, hexact⟩ := booked_shareFill hunital hpos hmax hresult
  have hround : InI64 (roundTrip F px) := inI64_clampI64 _
  have hequity : p'.exactEquity prices = roundTrip F px := by
    have hstart : (shareFill F sym px).found.exactEquity prices = px :=
      exactEquity_oneShare (F := F) hprice
    have hpx : (prices (shareFill F sym px).symbol).getD 0 = px := congrArg (·.getD 0) hprice
    have hchange : p'.exactEquity prices = _ :=
      Fill.exactEquity_result hunital rfl hqty hexact hresult
    rw [hstart, hpx, hsold, hbooked, quantity_shareFill, Int.add_right_neg, valueOf_zero,
      valueOf_scale, valueOf_neg_scale] at hchange
    rw [hchange]
    ring
  obtain ⟨pos, hentries⟩ : ∃ pos, p'.positions.entries = [(sym, pos)] := by
    obtain ⟨-, count, shortfall, rfl⟩ := Fill.fills_booked hqty hresult
    rw [hbooked, booked, if_neg (by decide : ¬ -Shares.scale = 0)]
    exact ⟨_, if_pos rfl⟩
  have hflat : pos.quantity = 0 := by
    have hquantity : p'.quantity sym = pos.quantity := by
      rw [quantity, position, HashMap.mem_entries.mp (hentries ▸ List.mem_singleton.mpr rfl)]
      rfl
    have hmoved := Fill.quantity_result hqty hexact hresult sym
    rw [hbooked] at hmoved
    exact hquantity.symm.trans (hmoved.trans ((if_pos rfl).trans
      ((congrArg (· + -Shares.scale) quantity_shareFill).trans (Int.add_right_neg _))))
  have hafter : p'.totalEquity .insertion prices = p'.exactEquity prices := by
    refine totalEquity_of_single hentries ?_ (hequity ▸ hround)
    rw [hflat, valueOf_zero]
    decide
  have hclear : (oneShare F sym).Unclamped p' prices .insertion .insertion [] :=
    { before := (totalEquity_oneShare hprice hin).trans (exactEquity_oneShare hprice).symm
      after := hafter
      fills := by
        rw [hfills]
        exact List.forall_mem_singleton.mpr hexact
      orders := by
        rw [hfills]
        refine List.forall_mem_singleton.mpr fun hlimit ↦ absurd hlimit ?_
        exact (by decide : ¬ AtLimit (-Shares.scale)) }
  have hsame := (h _ _ _ _ _ rfl hp' hclear).2 whole_oneShare (Int.dvd_refl _)
  rw [hafter, hequity, totalEquity_oneShare hprice hin] at hsame
  exact hsame

end

/-! ## The condition -/

theorem unital_exact : F64.Unital (Option Rat) where
  mul_one n _ := congrArg some (Rat.mul_one (Rat.ofInt n))
  one_add := by
    rintro sign (rfl | rfl)
    · decide +kernel
    · decide +kernel
  mul_zero n _ := by
    have hzero : (F64.ofInt n : Option Rat) * F64.ofInt 0 = some (Rat.ofInt 0) :=
      congrArg some (Rat.mul_zero (Rat.ofInt n))
    rw [hzero]
    decide +kernel
  round_nonneg n hn := by
    have hround : F64.round (F64.ofInt n : Option Rat) = some (Rat.ofInt ((2 * n + 1) / 2)) :=
      congrArg some (if_pos hn)
    rw [hround]
    change 0 ≤ clampI64 (Int.tdiv ((2 * n + 1) / 2) 1)
    rw [clampI64_nonneg_iff, Int.tdiv_one]
    omega
  lt_irrefl := by decide +kernel

instance (f : Fill F) : Decidable f.Exact :=
  decidable_of_iff (InI64 (valueOf f.booked f.effectivePrice) ∧
      InI64 (f.found.cash - valueOf f.booked f.effectivePrice) ∧
      InI64 (f.found.quantity f.symbol + f.booked))
    ⟨fun h ↦ ⟨h.1, h.2.1, h.2.2⟩, fun h ↦ ⟨h.value, h.cash, h.quantity⟩⟩

end Portfolio

end Nanobook
