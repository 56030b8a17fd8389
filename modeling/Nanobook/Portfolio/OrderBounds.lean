import Nanobook.Lib.Keyed
import Nanobook.Portfolio.Executed

/-!
# Bounds on orders

Every order of a rebalance keeps to the bounds on its value, and is for a multiple of the quantity
step or closes its position, short of the ends of `i64`.  What is executed of it keeps to the upper
bound, but a buy that is cut down to the cash may come to less than the lower one.
-/

namespace Nanobook

open Rebalancer (Symbol collected collected_isNone_iff)

/-! ## Multiples of the step -/

/-- The end of the range at which a quantity saturates. -/
def AtLimit (qty : Shares) : Prop := qty = i64Max ∨ qty = i64Min

instance (qty : Shares) : Decidable (AtLimit qty) := inferInstanceAs (Decidable (_ ∨ _))

theorem clampI64_eq_or (x : Int) : clampI64 x = x ∨ AtLimit (clampI64 x) := by
  simp only [AtLimit, clampI64, i64Min, i64Max]
  lia

theorem dvd_sizeQty_or (diffValue price step : Int) :
    step ∣ sizeQty diffValue price step ∨ AtLimit (sizeQty diffValue price step) := by
  rw [sizeQty]
  split
  · exact .inl (Int.dvd_zero step)
  · rcases clampI64_eq_or (((diffValue.natAbs * Shares.scale).tdiv price).tdiv step * step *
      (if diffValue < 0 then -1 else 1)) with heq | hlimit
    · left
      simp only [heq]
      exact Int.dvd_mul_of_dvd_left (Int.dvd_mul_left _ _)
    · exact .inr hlimit

/-- What is worth too much is cut down to a multiple of the step. -/
theorem dvd_truncateQtyToMaxValue {qty : Shares} {price step maxValue : Int} (hqty : InI64 qty)
    (hlarge : maxValue < notionalOf qty price) :
    step ∣ truncateQtyToMaxValue qty price step maxValue := by
  by_cases hnone : maxValue ≤ 0 ∨ price = 0 ∨ step ≤ 0
  · rw [truncateQtyToMaxValue, if_pos hnone]
    exact Int.dvd_zero step
  · obtain ⟨hvalue, hprice, hstep⟩ : 0 < maxValue ∧ price ≠ 0 ∧ 0 < step := by omega
    exact (isLargestSize_truncateQtyToMaxValue hqty hvalue hstep hlarge).1.dvd

/-! ## Orders -/

namespace Portfolio

variable {F : Type} {p : Portfolio F} {o o' : PlannedOrder F}

/-- An order within the bounds on its value. -/
structure Bounded (p : Portfolio F) (o : PlannedOrder F) : Prop where
  max : 0 < p.maxOrderValue → notionalOf o.qty o.price ≤ p.maxOrderValue
  min : 0 < p.minOrderValue → p.minOrderValue ≤ notionalOf o.qty o.price

theorem bounded_boundOrder (h : p.boundOrder o = some o') : p.Bounded o' := by
  obtain ⟨hmin, hmax⟩ := boundOrder_eq_some h
  refine ⟨?_, hmin⟩
  rcases hmax with ⟨rfl, hle⟩ | ⟨hpos, -, -, rfl⟩
  · exact hle
  · exact fun _ ↦ notionalOf_truncateQtyToMaxValue_le _ _ _ hpos.le

/-- The bounds leave a quantity as it is or cut it down to a multiple of the step. -/
theorem boundOrder_qty_or (hqty : InI64 o.qty) (h : p.boundOrder o = some o') :
    o'.qty = o.qty ∨ p.quantityStep ∣ o'.qty := by
  rcases (boundOrder_eq_some h).2 with ⟨rfl, -⟩ | ⟨-, hlarge, -, rfl⟩
  · exact .inl rfl
  · exact .inr (dvd_truncateQtyToMaxValue hqty hlarge)

/-- An order for a multiple of the step, or at the end of `i64`, or one that closes a position that
is not among the targets. -/
def Stepped (p : Portfolio F) (targets : List (Symbol × F)) (o : PlannedOrder F) : Prop :=
  p.quantityStep ∣ o.qty ∨ AtLimit o.qty ∨
    (p.quantity o.symbol + o.qty = 0 ∧ (collected targets o.symbol).isNone = true)

variable [F64 F] {prices : PriceMap} {equity : Int} {order : HashMap.Order Symbol}
  {targets : List (Symbol × F)}

theorem closeOrder_spec {sym : Symbol} (hsym : (collected targets sym).isNone = true)
    (h : p.closeOrder prices equity sym = some o) :
    o.symbol = sym ∧ p.Bounded o ∧ p.Stepped targets o := by
  obtain ⟨price, pos, -, hpos, -, h⟩ := closeOrder_eq_some h
  obtain ⟨hsymbol, -⟩ := boundOrder_same h
  have hquantity : p.quantity sym = pos.quantity := by rw [quantity, hpos]; rfl
  refine ⟨hsymbol, bounded_boundOrder h, ?_⟩
  rcases boundOrder_qty_or (inI64_clampI64 _) h with hqty | hdvd
  · rcases clampI64_eq_or (-pos.quantity) with heq | hlimit
    · refine .inr (.inr ⟨?_, hsymbol ▸ hsym⟩)
      rw [hsymbol, hqty, hquantity]
      simp only [satNeg, heq]
      exact Int.add_right_neg _
    · exact .inr (.inl (hqty ▸ hlimit))
  · exact .inl hdvd

theorem targetOrder_spec {target : Symbol × F} (h : p.targetOrder prices equity target = some o) :
    o.symbol = target.1 ∧ p.Bounded o ∧ p.Stepped targets o := by
  obtain ⟨price, diffValue, -, -, -, h⟩ := targetOrder_eq_some h
  refine ⟨(boundOrder_same h).1, bounded_boundOrder h, ?_⟩
  rcases boundOrder_qty_or (inI64_sizeQty _ _ _) h with hqty | hdvd
  · rw [Stepped, hqty]
    exact (dvd_sizeQty_or _ _ _).imp_right .inl
  · exact .inl hdvd

/-- What every planned order satisfies. -/
theorem planned_spec (h : o ∈ p.planned prices equity order targets) :
    p.Bounded o ∧ p.Stepped targets o := by
  rw [planned, List.mem_append, List.mem_filterMap, List.mem_filterMap] at h
  rcases h with ⟨sym, hsym, h⟩ | ⟨target, -, h⟩
  · exact (closeOrder_spec (List.mem_filter.mp hsym).2 h).2
  · exact (targetOrder_spec h).2

omit [F64 F] in
/-- The symbols of the orders that the caps admit are among those planned, in their order. -/
theorem admitFrom_sublist (l : List (PlannedOrder F)) (count : Nat) (running : Int) :
    ((p.admitFrom count running l).map PlannedOrder.symbol).Sublist
      (l.map PlannedOrder.symbol) := by
  induction l generalizing count running with
  | nil => exact List.Sublist.refl _
  | cons a l ih =>
      simp only [admitFrom]
      split_ifs
      · exact List.nil_sublist _
      · exact List.nil_sublist _
      · exact List.nil_sublist _
      · exact (List.nil_sublist _).cons_cons _
      · exact List.nil_sublist _
      · exact (ih _ _).cons_cons _

theorem rebalanceOrders_spec (h : o ∈ p.rebalanceOrders prices order targets) :
    p.Bounded o ∧ p.Stepped targets o := by
  obtain ⟨a, ha, rfl | ⟨⟨remaining, hpos, hlarge, rfl⟩, -, hmin⟩⟩ := mem_rebalanceOrders h
  · exact planned_spec ha
  · -- the caps cut down to a multiple of the step
    have hcut := notionalOf_truncateQtyToMaxValue_le a.qty a.price p.quantityStep hpos.le
    refine ⟨⟨fun hmax ↦ ?_, fun hpos ↦ hmin.resolve_left (not_le.mpr hpos)⟩, .inl ?_⟩
    · exact hcut.trans (hlarge.le.trans ((planned_spec ha).1.max hmax))
    · exact dvd_truncateQtyToMaxValue (planned_valid ha).1 hlarge

/-- Symbols of which those that are not among the targets come once. -/
def Apart (targets : List (Symbol × F)) (symbols : List Symbol) : Prop :=
  symbols.Pairwise fun a b ↦ (collected targets a).isNone = true → a ≠ b

theorem apart_planned :
    Apart targets ((p.planned prices equity order targets).map PlannedOrder.symbol) := by
  rw [planned, List.map_append, Apart, List.pairwise_append]
  have hnodup : (order.arrange p.positions.keys).Nodup :=
    (order.perm _).nodup_iff.mpr p.positions.nodup
  have hclose :
    (((order.arrange p.positions.keys).filter fun sym ↦ (collected targets sym).isNone).filterMap
      (p.closeOrder prices equity)).map PlannedOrder.symbol |>.Nodup := by
    have hkeys := hnodup.filter fun sym ↦ (collected targets sym).isNone
    rw [← List.map_id (List.filter _ _)] at hkeys
    refine (Keyed.sublist_map_filterMap fun sym hsym o ho ↦ ?_).nodup hkeys
    exact (closeOrder_spec (List.mem_filter.mp hsym).2 ho).1
  have htarget (sym : Symbol) (h : sym ∈ (targets.filterMap (p.targetOrder prices equity)).map
      PlannedOrder.symbol) : ¬ (collected targets sym).isNone = true := by
    obtain ⟨o, ho, rfl⟩ := List.mem_map.mp h
    obtain ⟨target, hmem, hplanned⟩ := List.mem_filterMap.mp ho
    obtain ⟨hsymbol, -⟩ : o.symbol = target.1 ∧ p.Bounded o ∧ p.Stepped targets o :=
      targetOrder_spec hplanned
    rw [collected_isNone_iff, hsymbol]
    exact fun hnot ↦ hnot (List.mem_map_of_mem hmem)
  refine ⟨?_, ?_, ?_⟩
  · exact hclose.imp fun {a b} (hne : a ≠ b) (_ : (collected targets a).isNone = true) ↦ hne
  · exact List.pairwise_of_forall_mem_list fun a ha _ _ hnone ↦ absurd hnone (htarget a ha)
  · rintro a - b hb hnone rfl
    exact htarget a hb hnone

theorem apart_rebalanceOrders :
    Apart targets ((p.rebalanceOrders prices order targets).map PlannedOrder.symbol) := by
  simp only [rebalanceOrders, admitted]
  split_ifs
  · exact List.Pairwise.nil
  · refine List.Pairwise.sublist (admitFrom_sublist _ _ _) ?_
    have hsymm {a b : Symbol} (h : (collected targets a).isNone = true → a ≠ b) :
        (collected targets b).isNone = true → b ≠ a := fun hnone heq ↦ h (heq ▸ hnone) heq.symm
    exact (((List.perm_insertionSort precedes _).map _).pairwise_iff hsymm).mpr apart_planned
  · exact apart_planned

/-! ## What is executed of an order -/

variable {p' : Portfolio F} {orders : List (PlannedOrder F)}

/-- What the fills of a call find: the portfolio before it, but for the cash, the positions and the
trims, and the position of a symbol that no earlier order is for. -/
theorem fillsOf_found (hqty : ∀ o ∈ orders, InI64 o.qty ∧ o.qty ≠ 0)
    (hsymbols : Apart targets (orders.map PlannedOrder.symbol))
    (h : orders.foldlM executeOrder p = some p') {f : Fill F} (hf : f ∈ p.fillsOf orders) :
    p.Kept f.found ∧ ((collected targets f.symbol).isNone = true →
      f.found.quantity f.symbol = p.quantity f.symbol) := by
  induction orders generalizing p with
  | nil => cases hf
  | cons o orders ih =>
    obtain ⟨p₁, hp₁, hrest⟩ := Option.bind_eq_some_iff.mp h
    obtain ⟨ho, horders⟩ := List.forall_mem_cons.mp hqty
    obtain ⟨hfirst, hsymbols⟩ := List.pairwise_cons.mp hsymbols
    rw [fillsOf, hp₁] at hf
    rcases List.mem_cons.mp hf with rfl | hf
    · exact ⟨Kept.refl p, fun _ ↦ rfl⟩
    · obtain ⟨hkept, hquantity⟩ := ih horders hsymbols hrest hf
      refine ⟨(kept_executeFill ho.1 hp₁).trans hkept, fun hnone ↦ (hquantity hnone).trans ?_⟩
      obtain ⟨-, hmap⟩ := returned_fillsOf horders hrest
      have hmem : f.symbol ∈ orders.map PlannedOrder.symbol := by
        have hmem : (f.symbol, f.qty, f.price) ∈ orders.map fun o ↦ (o.symbol, o.qty, o.price) :=
          hmap ▸ List.mem_map_of_mem hf
        obtain ⟨o', ho', heq⟩ := List.mem_map.mp hmem
        exact List.mem_map.mpr ⟨o', ho', congrArg Prod.fst heq⟩
      have hother : o.symbol ≠ f.symbol := fun heq ↦ hfirst _ hmem (heq ▸ hnone) heq
      obtain ⟨filled, -, hmoved⟩ := quantity_executeFill ho.1 hp₁ f.symbol
      rw [hmoved, if_neg hother]

/-- What is executed keeps to the bounds of the portfolio. -/
structure Within (p : Portfolio F) (f : Fill F) : Prop where
  max : 0 < p.maxOrderValue → f.value ≤ p.maxOrderValue
  min : 0 < p.minOrderValue → p.minOrderValue ≤ f.value
  step : p.quantityStep ∣ f.booked ∨ f.found.quantity f.symbol + f.booked = 0

instance (p : Portfolio F) (f : Fill F) : Decidable (p.Within f) :=
  decidable_of_iff ((0 < p.maxOrderValue → f.value ≤ p.maxOrderValue) ∧
      (0 < p.minOrderValue → p.minOrderValue ≤ f.value) ∧
      (p.quantityStep ∣ f.booked ∨ f.found.quantity f.symbol + f.booked = 0))
    ⟨fun h ↦ ⟨h.1, h.2.1, h.2.2⟩, fun h ↦ ⟨h.max, h.min, h.step⟩⟩

/-- The condition: a quantity at the end of `i64` that is filled fits all the same, and of a buy
that the cash does not pay for it pays for nothing, or for a multiple of the step that reaches the
minimum. -/
structure Payable (p : Portfolio F) (f : Fill F) : Prop where
  limit : f.found.Fillable f.qty f.price → AtLimit f.qty →
    p.quantityStep ∣ f.qty ∨ f.found.quantity f.symbol + f.qty = 0
  small : 0 < p.minOrderValue → 0 < f.qty →
    f.found.cash < buyCashRequired f.qty f.effectivePrice p.costModel →
    f.found.cash ≤ 0 ∨ f.found.cash < buyCashRequired p.quantityStep f.effectivePrice p.costModel ∨
      ∃ raw, 0 < raw ∧ p.quantityStep ∣ raw ∧ raw ≤ f.qty ∧
        buyCashRequired raw f.effectivePrice p.costModel ≤ f.found.cash ∧
        p.minOrderValue ≤ notionalOf raw f.price

/-- What the cash affords of a buy is nothing, or what the search is exact about. -/
theorem affordable_cases {f : Fill F}
    (hsame : f.found.quantityStep = p.quantityStep ∧ f.found.costModel = p.costModel)
    (hc : p.costModel.Monotone)
    (hstep : 0 < p.quantityStep) (hqty : InI64 f.qty) (hpos : 0 < f.qty)
    (hshort : f.found.cash < buyCashRequired f.qty f.effectivePrice p.costModel) {filled : Shares}
    (h : f.affordable = some filled) :
    (f.found.cash ≤ 0 ∧ filled = 0) ∨ (0 < f.found.cash ∧ 0 < f.effectivePrice ∧
      LargestAffordable f.qty f.found.cash p.quantityStep f.effectivePrice p.costModel filled) := by
  rw [Fill.affordable, hsame.1, hsame.2] at h
  rcases le_or_gt f.found.cash 0 with hcash | hcash
  · rw [largestAffordableBuyQty, if_pos (.inr (.inl hcash))] at h
    exact .inl ⟨hcash, (Option.some_inj.mp h).symm⟩
  · have hprice : 0 < f.effectivePrice := by
      by_contra hprice
      rw [buyCashRequired, if_pos (.inr (not_lt.mp hprice))] at hshort
      exact absurd hshort (not_lt.mpr hcash.le)
    exact .inr ⟨hcash, hprice, largestAffordable_of_eq_some hc hpos hqty.2 hcash hstep hprice h⟩

/-- A buy that is cut down keeps to the bounds exactly if the order is payable. -/
theorem within_iff_of_short {f : Fill F}
    (hsame : f.found.quantityStep = p.quantityStep ∧ f.found.costModel = p.costModel)
    (hc : p.costModel.Monotone) (hstep : 0 < p.quantityStep) (hqty : InI64 f.qty)
    (h : f.result = some p') (hmax : 0 < p.maxOrderValue → f.value ≤ p.maxOrderValue)
    (hfull : ¬ f.found.Fillable f.qty f.price) (hpos : 0 < f.qty)
    (hpart : f.affordable = some f.booked) : (f.booked ≠ 0 → p.Within f) ↔ p.Payable f := by
  have hshort : f.found.cash < buyCashRequired f.qty f.effectivePrice p.costModel := by
    rw [← hsame.2]
    exact not_le.mp fun hfits ↦ hfull ⟨fun _ ↦ hfits, fun hneg ↦ absurd hneg (not_lt.mpr hpos.le)⟩
  have hnonneg : 0 ≤ f.booked := ((Fill.fills_booked hqty h).1.buy hpos.le).1
  rcases affordable_cases hsame hc hstep hqty hpos hshort hpart with ⟨hcash, hbooked⟩ |
    ⟨hcash, hprice, hexact⟩
  · exact iff_of_true (fun h ↦ absurd hbooked h) ⟨fun h ↦ absurd h hfull, fun _ _ _ ↦ .inl hcash⟩
  obtain ⟨⟨hdvd, hle, hfits⟩, hgreatest⟩ := hexact.greatest hshort
  constructor
  · refine fun hwithin ↦ ⟨fun h ↦ absurd h hfull, fun hmin _ _ ↦ .inr ?_⟩
    by_cases hbooked : f.booked = 0
    · exact .inl (hexact.zero hbooked _ hstep (Int.dvd_refl _))
    · exact .inr ⟨f.booked, lt_of_le_of_ne hnonneg (Ne.symm hbooked), hdvd, hle, hfits,
        (hwithin hbooked).min hmin⟩
  · intro hpayable hbooked
    refine ⟨hmax, fun hmin ↦ ?_, .inl hdvd⟩
    rcases hpayable.small hmin hpos
      hshort with hspent | hnone | ⟨raw, hraw, hrawdvd, hrawle, hrawfits, hreach⟩
    · exact absurd hcash (not_lt.mpr hspent)
    · -- a step costs no more than what is filled
      have hone : p.quantityStep ≤ f.booked :=
        Int.le_of_dvd (lt_of_le_of_ne hnonneg (Ne.symm hbooked)) hdvd
      exact absurd ((buyCashRequired_mono hc hprice hone).trans hfits) (not_le.mpr hnone)
    · have hlast : raw ≤ f.booked := hgreatest ⟨hrawdvd, hrawle, hrawfits⟩
      exact hreach.trans (notionalOf_mono (by lia) f.price)

/-- What is executed of a bounded order keeps to the bounds exactly if the order is payable. -/
theorem within_iff {f : Fill F} {o : PlannedOrder F}
    (hsame : f.found.quantityStep = p.quantityStep ∧ f.found.costModel = p.costModel)
    (hc : p.costModel.Monotone)
    (hstep : 0 < p.quantityStep) (hqty : InI64 f.qty) (hzero : f.qty ≠ 0) (h : f.result = some p')
    (ho : (f.symbol, f.qty, f.price) = (o.symbol, o.qty, o.price)) (hbounded : p.Bounded o)
    (hstepped : p.Stepped targets o)
    (hquantity : (collected targets f.symbol).isNone = true →
      f.found.quantity f.symbol = p.quantity f.symbol) :
    (f.booked ≠ 0 → p.Within f) ↔ p.Payable f := by
  obtain ⟨hsymbol, hoqty, hprice⟩ : f.symbol = o.symbol ∧ f.qty = o.qty ∧ f.price = o.price := by
    simpa using ho
  have hasked : f.asked = notionalOf o.qty o.price := by rw [Fill.asked, hoqty, hprice]
  have hvalue : f.value ≤ f.asked := Fill.value_le_asked hqty h
  have hmax (hmax : 0 < p.maxOrderValue) : f.value ≤ p.maxOrderValue :=
    hvalue.trans (hasked ▸ hbounded.max hmax)
  rcases Fill.booked_cases hqty hzero
    h with ⟨hfull, hbooked⟩ | ⟨hfull, hneg, hbooked⟩ | ⟨hfull, hpos, hpart⟩
  · -- the whole order is filled
    have hwhole : f.value = f.asked := by rw [Fill.value, hbooked, Fill.asked]
    constructor
    · intro hwithin
      refine ⟨fun _ _ ↦ hbooked ▸ (hwithin (hbooked ▸ hzero)).step, fun _ hpos hshort ↦ ?_⟩
      rw [← hsame.2] at hshort
      exact absurd (hfull.1 hpos) (not_le.mpr hshort)
    · intro hpayable _
      refine ⟨hmax, fun hmin ↦ hwhole ▸ hasked ▸ hbounded.min hmin, ?_⟩
      rw [hbooked]
      rcases hstepped with hdvd | hlimit | ⟨hclose, hnone⟩
      · exact .inl (hoqty ▸ hdvd)
      · exact hpayable.limit hfull (hoqty ▸ hlimit)
      · rw [hquantity (hsymbol ▸ hnone), hsymbol, hoqty]
        exact .inr hclose
  · -- a sale is skipped
    exact iff_of_true (fun h ↦ absurd hbooked h)
      ⟨fun h ↦ absurd h hfull, fun _ hpos ↦ absurd hpos (not_lt.mpr hneg.le)⟩
  · exact within_iff_of_short hsame hc hstep hqty h hmax hfull hpos hpart

/-- Every fill that a rebalance executes keeps to the bounds, exactly if every order is payable when
its turn comes. -/
theorem within_rebalance_iff (hc : p.costModel.Monotone) (hstep : 0 < p.quantityStep)
    (h : p.rebalanceSimple prices order targets = some p') :
    (∀ f ∈ executed (p.rebalanceFills prices order targets), p.Within f) ↔
      ∀ f ∈ p.rebalanceFills prices order targets, p.Payable f := by
  have hqty : ∀ o ∈ p.rebalanceOrders prices order targets, InI64 o.qty ∧ o.qty ≠ 0 :=
    fun o ho ↦ ⟨inI64_rebalanceOrders ho, rebalanceOrders_ne_zero ho⟩
  obtain ⟨hreturned, hmap⟩ := returned_fillsOf hqty h
  have hiff :
    ∀ f ∈ p.rebalanceFills prices order targets, (f.booked ≠ 0 → p.Within f) ↔ p.Payable f := by
    intro f hf
    obtain ⟨hin, hzero, p₁, hp₁⟩ := hreturned f hf
    obtain ⟨hkept, hquantity⟩ := fillsOf_found hqty apart_rebalanceOrders h hf
    have hmem : (f.symbol, f.qty, f.price) ∈ (p.rebalanceOrders prices order targets).map
        fun o ↦ (o.symbol, o.qty, o.price) := hmap ▸ List.mem_map_of_mem hf
    obtain ⟨o, ho, heq⟩ := List.mem_map.mp hmem
    obtain ⟨hbounded, hstepped⟩ := rebalanceOrders_spec ho
    exact within_iff ⟨hkept.quantityStep, hkept.costModel⟩ hc hstep hin hzero hp₁ heq.symm hbounded
      hstepped hquantity
  simp only [executed, List.mem_filter, decide_eq_true_eq, and_imp]
  exact forall₂_congr hiff

/-- Ten dollars, and orders of at least so much and at most twenty dollars; a commission of one
dollar leaves nine shares at a dollar of a buy of ten. -/
def tenDollarsAbove (minOrderValue : Int) : Portfolio (Option Rat) :=
  ((tenDollars 100).setMinOrderValue minOrderValue).setMaxOrderValue 2000

/-- Nine shares are enough for a minimum of eight dollars. -/
theorem payable_eightDollars :
    ∃ p', (tenDollarsAbove 800).rebalanceSimple (collected [(aapl, 100)]) .insertion
    [(aapl, F64.ofInt 1)] =
    some p' ∧ ∀ f ∈ (tenDollarsAbove 800).rebalanceFills (collected [(aapl, 100)]) .insertion
      [(aapl, F64.ofInt 1)], (tenDollarsAbove 800).Payable f := by
  obtain ⟨p', hp'⟩ :
    ∃ p', (tenDollarsAbove 800).rebalanceSimple (collected [(aapl, 100)]) .insertion
      [(aapl, F64.ofInt 1)] = some p' := exists_rebalanceSimple (by decide)
  exact ⟨p', hp',
    (within_rebalance_iff (monotone_flatCost (by decide)) (by decide) hp').mp (by decide +kernel)⟩

/-- Nine shares are executed for a minimum of nine dollars and a half. -/
theorem not_within_rebalance : ¬ ∀ (p p' : Portfolio (Option Rat)) (prices : PriceMap)
    (order : HashMap.Order Symbol) (targets : List (Symbol × Option Rat)),
    p.costModel.Monotone → 0 < p.quantityStep → 0 < p.minOrderValue → 0 < p.maxOrderValue →
    p.rebalanceSimple prices order targets = some p' →
    ∀ f ∈ executed (p.rebalanceFills prices order targets), p.Within f := by
  intro h
  obtain ⟨p', hp'⟩ :
    ∃ p', (tenDollarsAbove 950).rebalanceSimple (collected [(aapl, 100)]) .insertion
      [(aapl, F64.ofInt 1)] = some p' := exists_rebalanceSimple (by decide)
  have hwithin :=
    h (tenDollarsAbove 950) p' _ _ _ (monotone_flatCost (by decide)) (by decide) (by decide)
    (by decide) hp'
  exact absurd hwithin (by decide +kernel)

end Portfolio

end Nanobook
