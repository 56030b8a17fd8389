import Nanobook.Lib.Arrangement
import Nanobook.Portfolio.OrderBounds

/-!
# Rebalancing in another order

The positions to close come in the order in which the hash map yields them, and the targets in the
order in which they are given.  With a cap on the trades or on their value the plan is sorted before
it is executed. Without one every order finds the cash that those before it have left, so the
outcome does not depend on the order exactly if no order affects what is filled of another.
-/

namespace Nanobook

open Rebalancer (Symbol collected collected_isNone_iff)
open Arrangement

variable {F : Type} [F64 F]

namespace Portfolio

/-! ## One order -/

/-- The same cash and the same positions. -/
structure SameHoldings (p p' : Portfolio F) : Prop where
  cash : p'.cash = p.cash
  position : ∀ sym, p'.position sym = p.position sym

/-- Portfolios that fill orders alike. -/
structure Alike (p p' : Portfolio F) : Prop extends SameHoldings p p' where
  quantityStep : p'.quantityStep = p.quantityStep
  costModel : p'.costModel = p.costModel

section

variable (p : Portfolio F)

/-- What a balance of cash lets the portfolio fill of an order. -/
def grant (cash : Int) (o : PlannedOrder F) : Shares :=
  (({ p with cash } : Portfolio F).filledQty o.qty o.price).getD 0

/-- The cash once so much of an order has been paid for. -/
def pay (cash : Int) (o : PlannedOrder F) (filled : Shares) : Int :=
  if filled = 0 then cash
  else ({ p with cash } : Portfolio F).cashAfter filled (p.costModel.effectivePrice o.qty o.price)

/-- The position in the symbol of an order once so much of it has been filled. -/
def filledPosition (o : PlannedOrder F) (filled : Shares) : Option Position :=
  if filled = 0 then p.position o.symbol
  else some (((p.position o.symbol).getD (Position.new o.symbol)).applyFill filled
    (p.costModel.effectivePrice o.qty o.price))

end

/-- So much of a quantity, or none of it, or something in between. -/
def Part (qty filled : Shares) : Prop := (0 ≤ filled ∧ filled ≤ qty) ∨ (qty ≤ filled ∧ filled ≤ 0)

variable {p p' p₁ p₂ : Portfolio F} {o : PlannedOrder F} {orders : List (PlannedOrder F)}

omit [F64 F] in
theorem Alike.refl (p : Portfolio F) : p.Alike p := ⟨⟨rfl, fun _ ↦ rfl⟩, rfl, rfl⟩

theorem grant_congr (hstep : p'.quantityStep = p.quantityStep)
    (hcost : p'.costModel = p.costModel) :
    p'.grant = p.grant := by
  funext cash o
  simp only [grant, filledQty, trimBuy, hcost, hstep]
  split_ifs with hshort
  · cases largestAffordableBuyQty o.qty cash p.quantityStep
      (p.costModel.effectivePrice o.qty o.price)
      p.costModel with
    | none => rfl
    | some filled =>
      simp only [Option.bind_eq_bind, Option.bind_some, cashAfter, withTrims]
      split_ifs <;> rfl
  · simp only [Option.bind_eq_bind, Option.bind_some, cashAfter]
    split_ifs <;> rfl

theorem pay_congr (hcost : p'.costModel = p.costModel) : p'.pay = p.pay := by
  funext cash o filled
  simp only [pay, cashAfter, hcost]

theorem filledPosition_congr (hcost : p'.costModel = p.costModel)
    (hposition : p'.position o.symbol = p.position o.symbol) :
    p'.filledPosition o = p.filledPosition o := by
  funext filled
  simp only [filledPosition, hcost, hposition]

/-- What the execution of one order does. -/
theorem executeOrder_eq_some (hqty : InI64 o.qty) (h : p.executeOrder o = some p') :
    Part o.qty (p.grant p.cash o) ∧ p'.cash = p.pay p.cash o (p.grant p.cash o) ∧
      p'.position o.symbol = p.filledPosition o (p.grant p.cash o) ∧
      ∀ sym, sym ≠ o.symbol → p'.position sym = p.position sym := by
  obtain ⟨count, shortfall, filled, hfilled, hfills, rfl⟩ := executeFill_eq_some hqty h
  have hgrant : p.grant p.cash o = filled := by
    have hself : ({ p with cash := p.cash } : Portfolio F) = p := rfl
    rw [Portfolio.grant, hself, hfilled]
    rfl
  have hpart : Part o.qty filled := by
    rcases lt_or_ge o.qty 0 with hneg | hpos
    · rcases hfills.sell hneg with rfl | rfl
      · exact .inr ⟨le_rfl, hneg.le⟩
      · exact .inr ⟨hneg.le, le_rfl⟩
    · exact .inl (hfills.buy hpos)
  rw [hgrant]
  refine ⟨hpart, ?_, ?_, fun sym hsym ↦ ?_⟩
  · rw [cash_booked, Portfolio.pay]
    rfl
  · rw [booked, Portfolio.filledPosition]
    split_ifs
    · rfl
    · exact HashMap.get?_insert_self _ _ _
  · rw [booked]
    split_ifs
    · rfl
    · exact HashMap.get?_insert_of_ne _ hsym.symm _

/-! ## All orders -/

/-- The execution of orders for different symbols serves them out of the cash. -/
theorem holdings_of_run (hlike : p.Alike p₁) (hqty : ∀ o ∈ orders, InI64 o.qty)
    (hsymbols : (orders.map PlannedOrder.symbol).Nodup)
    (h : orders.foldlM executeOrder p₁ = some p') :
    p'.cash = left p.grant p.pay p.cash orders ∧
      (∀ o q, (o, q) ∈ serve p.grant p.pay p.cash orders →
        Part o.qty q ∧ p'.position o.symbol = p.filledPosition o q) ∧
      ∀ sym, sym ∉ orders.map PlannedOrder.symbol → p'.position sym = p.position sym := by
  induction orders generalizing p p₁ with
  | nil =>
    cases h
    exact ⟨hlike.cash, fun _ _ hmem ↦ absurd hmem List.not_mem_nil, fun sym _ ↦ hlike.position sym⟩
  | cons o orders ih =>
    obtain ⟨p₂, hp₂, hrest⟩ := Option.bind_eq_some_iff.mp h
    obtain ⟨ho, horders⟩ := List.forall_mem_cons.mp hqty
    obtain ⟨hother, hsymbols⟩ := List.nodup_cons.mp hsymbols
    obtain ⟨hpart, hcash, hposition, hothers⟩ := executeOrder_eq_some ho hp₂
    have hgrant := grant_congr hlike.quantityStep hlike.costModel
    rw [hgrant, pay_congr hlike.costModel, hlike.cash] at hcash
    rw [hgrant, filledPosition_congr hlike.costModel (hlike.position _), hlike.cash] at hposition
    rw [hgrant, hlike.cash] at hpart
    -- the first order leaves `p₂`, which fills the others as `p` would
    have hkept := kept_executeFill ho hp₂
    have hstep₂ := hkept.quantityStep.trans hlike.quantityStep
    have hcost₂ := hkept.costModel.trans hlike.costModel
    obtain ⟨hleft, hserved, hrestPosition⟩ := ih (Alike.refl p₂) horders hsymbols hrest
    rw [grant_congr hstep₂ hcost₂, pay_congr hcost₂, hcash] at hleft hserved
    have hmoved (sym : Symbol) (hsym : sym ≠ o.symbol) : p₂.position sym = p.position sym :=
      (hothers sym hsym).trans (hlike.position sym)
    refine ⟨hleft, fun o' q hmem ↦ ?_, fun sym hsym ↦ ?_⟩
    · rcases List.mem_cons.mp hmem with heq | hmem
      · cases heq
        exact ⟨hpart, (hrestPosition _ hother).trans hposition⟩
      · obtain ⟨hpart', hposition'⟩ := hserved o' q hmem
        have hmem' : o'.symbol ∈ orders.map PlannedOrder.symbol := by
          have hserve : ∀ cash, (serve p.grant p.pay cash orders).map Prod.fst = orders :=
            fun cash ↦ map_fst_serve cash orders
          refine List.mem_map_of_mem ?_
          rw [← hserve]
          exact List.mem_map_of_mem hmem
        have hne : o'.symbol ≠ o.symbol := fun heq ↦ hother (heq ▸ hmem')
        rw [hposition', filledPosition_congr hcost₂ (hmoved _ hne)]
        exact ⟨hpart', rfl⟩
    · rw [List.map_cons, List.mem_cons, not_or] at hsym
      exact (hrestPosition sym hsym.2).trans (hmoved sym hsym.1)

/-- Portfolios that fill orders alike fill a list of them alike. -/
theorem Alike.run (hlike : p₁.Alike p₂) (hqty : ∀ o ∈ orders, InI64 o.qty) {p₁' p₂' : Portfolio F}
    (h₁ : orders.foldlM executeOrder p₁ = some p₁')
    (h₂ : orders.foldlM executeOrder p₂ = some p₂') :
    p₁'.Alike p₂' := by
  induction orders generalizing p₁ p₂ with
  | nil =>
    cases h₁
    cases h₂
    exact hlike
  | cons o orders ih =>
    obtain ⟨q₁, hq₁, h₁⟩ := Option.bind_eq_some_iff.mp h₁
    obtain ⟨q₂, hq₂, h₂⟩ := Option.bind_eq_some_iff.mp h₂
    obtain ⟨ho, horders⟩ := List.forall_mem_cons.mp hqty
    refine ih ?_ horders h₁ h₂
    obtain ⟨-, hcash₁, hposition₁, hothers₁⟩ := executeOrder_eq_some ho hq₁
    obtain ⟨-, hcash₂, hposition₂, hothers₂⟩ := executeOrder_eq_some ho hq₂
    have hkept₁ := kept_executeFill ho hq₁
    have hkept₂ := kept_executeFill ho hq₂
    have hgrant := grant_congr hlike.quantityStep hlike.costModel
    refine ⟨⟨?_, fun sym ↦ ?_⟩, ?_, ?_⟩
    · rw [hcash₁, hcash₂, hgrant, pay_congr hlike.costModel, hlike.cash]
    · by_cases hsym : sym = o.symbol
      · rw [hsym, hposition₁, hposition₂, hgrant,
          filledPosition_congr hlike.costModel (hlike.position _), hlike.cash]
      · rw [hothers₁ sym hsym, hothers₂ sym hsym, hlike.position]
    · rw [hkept₁.quantityStep, hkept₂.quantityStep, hlike.quantityStep]
    · rw [hkept₁.costModel, hkept₂.costModel, hlike.costModel]

/-- Orders can be filled one after the other if none of them sends the search past its end. -/
theorem exists_run (hqty : ∀ o ∈ orders, InI64 o.qty)
    (hends : ∀ o ∈ orders, ¬ (o.qty = i64Max ∧ p.quantityStep = 1)) :
    ∃ p', orders.foldlM executeOrder p = some p' := by
  induction orders generalizing p with
  | nil => exact ⟨p, rfl⟩
  | cons o orders ih =>
    obtain ⟨ho, horders⟩ := List.forall_mem_cons.mp hqty
    obtain ⟨hend, hends⟩ := List.forall_mem_cons.mp hends
    obtain ⟨p₁, hp₁⟩ : ∃ p₁, p.executeOrder o = some p₁ := exists_executeFill ho hend
    obtain ⟨p', hp'⟩ := ih (p := p₁) horders fun o' ho' ↦ by
      rw [(kept_executeFill ho hp₁).quantityStep]
      exact hends o' ho'
    exact ⟨p', by rw [List.foldlM_cons, hp₁]; exact hp'⟩

/-- The quantity of an order fits, and so does what is held with it. -/
structure Roomy (p : Portfolio F) (o : PlannedOrder F) : Prop where
  qty : InI64 o.qty
  held : InI64 (p.quantity o.symbol)
  sum : InI64 (p.quantity o.symbol + o.qty)

/-- Different parts of an order lead to different positions. -/
theorem filledPosition_inj (hroom : p.Roomy o) {q q' : Shares} (hq : Part o.qty q)
    (hq' : Part o.qty q') (h : p.filledPosition o q = p.filledPosition o q') : q = q' := by
  have hquantity {q : Shares} (hq : Part o.qty q) :
      ((p.filledPosition o q).map Position.quantity).getD 0 = p.quantity o.symbol + q := by
    obtain ⟨hqty, hheld, hsum⟩ := hroom
    rw [filledPosition]
    by_cases hzero : q = 0
    · rw [if_pos hzero, hzero]
      exact (Int.add_zero _).symm
    · have hin : InI64 q := by
        rw [Part] at hq
        rw [InI64] at hqty ⊢
        simp only [i64Min, i64Max] at hqty ⊢
        lia
      have hall : InI64 (p.quantity o.symbol + q) := by
        rw [Part] at hq
        rw [InI64] at hheld hsum ⊢
        lia
      have hold :
        ((p.position o.symbol).getD (Position.new o.symbol)).quantity = p.quantity o.symbol := by
        rw [quantity]
        cases p.position o.symbol <;> rfl
      rw [if_neg hzero, Option.map_some, Option.getD_some,
        Position.quantity_applyFill _ _ _ hzero hin, hold, satAdd, clampI64_eq hall]
  have heq := hquantity hq
  rw [h, hquantity hq'] at heq
  lia

/-- If the positions do not depend on the order of execution, no order affects another. -/
theorem unaffected_of_positions (hroom : ∀ o ∈ orders, p.Roomy o)
    (hsymbols : (orders.map PlannedOrder.symbol).Nodup) (final : Symbol → Option Position)
    (h : ∀ arranged : List (PlannedOrder F), arranged.Perm orders → ∃ p₀ p', p.Alike p₀ ∧
      arranged.foldlM executeOrder p₀ = some p' ∧
      ∀ o ∈ orders, p'.position o.symbol = final o.symbol) :
    Unaffected p.grant p.pay p.cash orders := by
  have hserved (arranged : List (PlannedOrder F)) (hperm : arranged.Perm orders)
    (o : PlannedOrder F)
      (q : Shares) (hmem : (o, q) ∈ serve p.grant p.pay p.cash arranged) (ho : o ∈ orders) :
      Part o.qty q ∧ final o.symbol = p.filledPosition o q := by
    obtain ⟨p₀, p', hlike, hrun, hfinal⟩ := h arranged hperm
    obtain ⟨-, hrunPosition, -⟩ := holdings_of_run hlike
      (fun o ho ↦ (hroom o (hperm.mem_iff.mp ho)).qty) ((hperm.map _).nodup_iff.mpr hsymbols) hrun
    obtain ⟨hpart, hposition⟩ := hrunPosition o q hmem
    exact ⟨hpart, (hfinal o ho).symm.trans hposition⟩
  refine unaffected_iff.mpr fun arranged hperm o q hmem ↦ ?_
  have ho : o ∈ orders := by
    have hfst : o ∈ (serve p.grant p.pay p.cash arranged).map Prod.fst := List.mem_map_of_mem hmem
    rw [map_fst_serve] at hfst
    exact hperm.mem_iff.mp hfst
  obtain ⟨hpart, hfinal⟩ := hserved arranged hperm o q hmem ho
  -- the order comes first in another arrangement
  obtain ⟨before, after, horders⟩ := List.append_of_mem ho
  obtain ⟨hpart', hfinal'⟩ := hserved (o :: (before ++ after)) (horders ▸ List.perm_middle.symm) o
    (p.grant p.cash o) List.mem_cons_self ho
  exact filledPosition_inj (hroom o ho) hpart hpart' (hfinal.symm.trans hfinal')

/-- Orders that do not affect each other lead to the same portfolio in every arrangement that leaves
the same cash. -/
theorem alike_of_unaffected (hqty : ∀ o ∈ orders, InI64 o.qty)
    (hsymbols : (orders.map PlannedOrder.symbol).Nodup)
    (hun : Unaffected p.grant p.pay p.cash orders)
    (h₁ : p.Alike p₁) (h₂ : p.Alike p₂) {l₁ l₂ : List (PlannedOrder F)} (hl₁ : l₁.Perm orders)
    (hl₂ : l₂.Perm orders)
    (hsettle : settle p.grant p.pay p.cash l₁ = settle p.grant p.pay p.cash l₂)
    {p₁' p₂' : Portfolio F} (hrun₁ : l₁.foldlM executeOrder p₁ = some p₁')
    (hrun₂ : l₂.foldlM executeOrder p₂ = some p₂') : p₁'.Alike p₂' := by
  have hrun {p₀ p' : Portfolio F} {l : List (PlannedOrder F)} (hlike : p.Alike p₀)
    (hl : l.Perm orders)
      (hrun : l.foldlM executeOrder p₀ = some p') : p'.cash = settle p.grant p.pay p.cash l ∧
      (∀ o ∈ orders, p'.position o.symbol = p.filledPosition o (p.grant p.cash o)) ∧
      (∀ sym, sym ∉ orders.map PlannedOrder.symbol → p'.position sym = p.position sym) ∧
      p'.quantityStep = p.quantityStep ∧ p'.costModel = p.costModel := by
    have hqty' : ∀ o ∈ l, InI64 o.qty := fun o ho ↦ hqty o (hl.mem_iff.mp ho)
    obtain ⟨hcash, hserved, hothers⟩ :=
      holdings_of_run hlike hqty' ((hl.map _).nodup_iff.mpr hsymbols) hrun
    obtain ⟨hserve, hleft⟩ := hun.serve_eq hl.subperm
    have hkept := kept_foldlM_executeOrder hqty' hrun
    refine ⟨hcash.trans hleft, fun o ho ↦ (hserved o _ ?_).2, fun sym hsym ↦ hothers sym ?_,
      hkept.quantityStep.trans hlike.quantityStep, hkept.costModel.trans hlike.costModel⟩
    · rw [hserve]
      exact List.mem_map_of_mem (hl.mem_iff.mpr ho)
    · rwa [(hl.map PlannedOrder.symbol).mem_iff]
  obtain ⟨hcash₁, hposition₁, hothers₁, hstep₁, hcost₁⟩ := hrun h₁ hl₁ hrun₁
  obtain ⟨hcash₂, hposition₂, hothers₂, hstep₂, hcost₂⟩ := hrun h₂ hl₂ hrun₂
  refine ⟨⟨hcash₂.trans (hsettle.symm.trans hcash₁.symm), fun sym ↦ ?_⟩, hstep₂.trans hstep₁.symm,
    hcost₂.trans hcost₁.symm⟩
  by_cases hsym : sym ∈ orders.map PlannedOrder.symbol
  · obtain ⟨o, ho, rfl⟩ := List.mem_map.mp hsym
    exact (hposition₂ o ho).trans (hposition₁ o ho).symm
  · exact (hothers₂ sym hsym).trans (hothers₁ sym hsym).symm

/-! ## The plan -/

section

variable (p : Portfolio F) (prices : PriceMap) (equity : Int) (targets : List (Symbol × F))

/-- The orders that close the positions without a target. -/
def closing (order : HashMap.Order Symbol) : List (PlannedOrder F) :=
  ((order.arrange p.positions.keys).filter fun sym ↦ (collected targets sym).isNone).filterMap
    (p.closeOrder prices equity)

/-- The orders that move positions to their targets. -/
def moving : List (PlannedOrder F) := targets.filterMap (p.targetOrder prices equity)

/-- A cap is set, so that the plan is sorted. -/
def Capped : Prop := p.maxTradesPerRebalance.isSome = true ∨ 0 < p.maxRebalanceNotional

end

variable {prices : PriceMap} {equity : Int} {targets targets' : List (Symbol × F)}
  {order order' : HashMap.Order Symbol}

omit [F64 F] in
theorem collected_isNone_perm (h : targets'.Perm targets) (sym : Symbol) :
    (collected targets' sym).isNone = (collected targets sym).isNone := by
  rw [Bool.eq_iff_iff, collected_isNone_iff, collected_isNone_iff, (h.map Prod.fst).mem_iff]

/-- The positions to close do not depend on how the targets are arranged. -/
theorem closing_perm (h : targets'.Perm targets) :
    (p.closing prices equity targets' order').Perm (p.closing prices equity targets order) := by
  simp only [closing, collected_isNone_perm h]
  exact (((order'.perm _).trans (order.perm _).symm).filter _).filterMap _

theorem moving_perm (h : targets'.Perm targets) :
    (p.moving prices equity targets').Perm (p.moving prices equity targets) := h.filterMap _

/-- The hash map may yield the positions to close in any order. -/
theorem exists_closing_eq {arranged : List (PlannedOrder F)}
    (h : arranged.Perm (p.closing prices equity targets order)) :
    ∃ order', p.closing prices equity targets order' = arranged := by
  rw [closing, List.filterMap_filter] at h
  obtain ⟨keys, hkeys, heq⟩ := exists_perm_filterMap h
  have hperm : keys.Perm p.positions.keys := hkeys.trans (order.perm _)
  refine ⟨.of hperm, ?_⟩
  have harrange : (HashMap.Order.of hperm).arrange p.positions.keys = keys := if_pos rfl
  rw [closing, List.filterMap_filter, harrange]
  exact heq

/-- The targets may be given in any order. -/
theorem exists_moving_eq {arranged : List (PlannedOrder F)}
    (h : arranged.Perm (p.moving prices equity targets)) :
    ∃ targets' : List (Symbol × F), targets'.Perm targets ∧
    p.moving prices equity targets' = arranged :=
  exists_perm_filterMap h

/-- With one target for a symbol no two orders are for the same one. -/
theorem nodup_symbols (hdistinct : (targets.map Prod.fst).Nodup) :
    ((p.closing prices equity targets order ++ p.moving prices equity targets).map
      PlannedOrder.symbol).Nodup := by
  have hkeys := ((order.perm p.positions.keys).nodup_iff.mpr p.positions.nodup).filter
    fun sym ↦ (collected targets sym).isNone
  rw [← List.map_id (List.filter _ _)] at hkeys
  have hclosing : ((p.closing prices equity targets order).map PlannedOrder.symbol).Sublist
      (((order.arrange p.positions.keys).filter fun sym ↦ (collected targets sym).isNone).map id) :=
    Keyed.sublist_map_filterMap fun sym hsym o ho ↦
      (closeOrder_spec (List.mem_filter.mp hsym).2 ho).1
  have hmoving :
    ((p.moving prices equity targets).map PlannedOrder.symbol).Sublist (targets.map Prod.fst) :=
    Keyed.sublist_map_filterMap fun target _ o ho ↦ by
      obtain ⟨hsymbol, -⟩ : o.symbol = target.1 ∧ p.Bounded o ∧ p.Stepped targets o :=
        targetOrder_spec ho
      exact hsymbol
  rw [List.map_append, List.nodup_append]
  refine ⟨hclosing.nodup hkeys, hmoving.nodup hdistinct, fun sym hsym sym' hsym' heq ↦ ?_⟩
  -- a symbol that is closed has no target
  have hclosed := hclosing.subset hsym
  rw [List.map_id, List.mem_filter, collected_isNone_iff] at hclosed
  exact hclosed.2 (heq ▸ hmoving.subset hsym')

/-! ## With a cap -/

/-- Drifts compare as numbers do. -/
structure ComparesDrifts (F : Type) [F64 F] : Prop where
  asymm : ∀ v w e, InI64 v → InI64 w → InI64 e → 0 < e →
    F64.lt (driftBpsOf v e : F) (driftBpsOf w e) =
    true → F64.lt (driftBpsOf w e : F) (driftBpsOf v e) = false
  trans : ∀ u v w e, InI64 u → InI64 v → InI64 w → InI64 e → 0 < e →
    F64.lt (driftBpsOf u e : F) (driftBpsOf v e) =
    false → F64.lt (driftBpsOf v e : F) (driftBpsOf w e) = false →
      F64.lt (driftBpsOf u e : F) (driftBpsOf w e) = false

/-- The drift of a planned order is that of a value. -/
theorem exists_driftBpsOf (h : o ∈ p.planned prices equity order targets) :
    ∃ v, InI64 v ∧ o.driftBps = driftBpsOf v equity := by
  obtain ⟨draft, hbound, -, -, -, v, hv, hdrift⟩ := exists_draft h
  exact ⟨v, hv, (boundOrder_same hbound).2.2.trans hdrift⟩

section Precedes

variable {a b c : PlannedOrder F}

/-- Of two orders one comes first. -/
theorem precedes_total (a b : PlannedOrder F) : precedes a b ∨ precedes b a := by
  simp only [precedes]
  rcases Bool.eq_false_or_eq_true (F64.lt a.driftBps b.driftBps) with hab | hab
  · exact .inr (.inl hab)
  rcases Bool.eq_false_or_eq_true (F64.lt b.driftBps a.driftBps) with hba | hba
  · exact .inl (.inl hba)
  by_cases hsym : b.symbol.asStr < a.symbol.asStr
  · exact .inr (.inr ⟨by simp [hba], String.lt_asymm hsym⟩)
  · exact .inl (.inr ⟨by simp [hab], hsym⟩)

variable (hdrift : ComparesDrifts F) (hrange : InI64 equity) (hpos : 0 < equity)

include hdrift hrange hpos

theorem precedes_trans (ha : a ∈ p.planned prices equity order targets)
    (hb : b ∈ p.planned prices equity order targets)
    (hc : c ∈ p.planned prices equity order targets) (hab : precedes a b) (hbc : precedes b c) :
    precedes a c := by
  obtain ⟨u, hu, hau⟩ := exists_driftBpsOf ha
  obtain ⟨v, hv, hbv⟩ := exists_driftBpsOf hb
  obtain ⟨w, hw, hcw⟩ := exists_driftBpsOf hc
  simp only [precedes, hau, hbv, hcw, Bool.not_eq_true] at hab hbc ⊢
  rcases hab with hvu | ⟨huv, hab⟩
  · -- the drift of `b` is below that of `a`, and that of `c` is no higher
    have hvw : F64.lt (driftBpsOf v equity : F) (driftBpsOf w equity) = false := by
      rcases hbc with hwv | ⟨hvw, -⟩
      · exact hdrift.asymm w v equity hw hv hrange hpos hwv
      · exact hvw
    refine .inl (Bool.not_eq_false _ |>.mp fun hwu ↦ ?_)
    rw [hdrift.trans v w u equity hv hw hu hrange hpos hvw hwu] at hvu
    cases hvu
  · rcases hbc with hwv | ⟨hvw, hbc⟩
    · refine .inl (Bool.not_eq_false _ |>.mp fun hwu ↦ ?_)
      rw [hdrift.trans w u v equity hw hu hv hrange hpos hwu huv] at hwv
      cases hwv
    · exact .inr ⟨hdrift.trans u v w equity hu hv hw hrange hpos huv hvw, String.le_trans hab hbc⟩

/-- Orders that come before each other are for one symbol. -/
theorem symbol_eq_of_precedes (ha : a ∈ p.planned prices equity order targets)
    (hb : b ∈ p.planned prices equity order targets) (hab : precedes a b) (hba : precedes b a) :
    a.symbol = b.symbol := by
  obtain ⟨u, hu, hau⟩ := exists_driftBpsOf ha
  obtain ⟨v, hv, hbv⟩ := exists_driftBpsOf hb
  simp only [precedes, hau, hbv, Bool.not_eq_true] at hab hba
  have hle : a.symbol.asStr ≤ b.symbol.asStr ∧ b.symbol.asStr ≤ a.symbol.asStr := by
    rcases hab with hvu | ⟨huv, hab⟩
    · have huv := hdrift.asymm v u equity hv hu hrange hpos hvu
      rcases hba with huv' | ⟨hvu', -⟩
      · rw [huv] at huv'
        cases huv'
      · rw [hvu] at hvu'
        cases hvu'
    · rcases hba with huv' | ⟨-, hba⟩
      · rw [huv] at huv'
        cases huv'
      · exact ⟨hab, hba⟩
  exact Symbol.asStr_injective (String.le_antisymm hle.1 hle.2)

end Precedes

/-- A plan that is sorted does not show how it was arranged. -/
theorem insertionSort_planned (hdrift : ComparesDrifts F) (hdistinct : (targets.map Prod.fst).Nodup)
    (hrange : InI64 equity) (hpos : 0 < equity) (h : targets'.Perm targets) :
    (p.planned prices equity order' targets').insertionSort precedes =
      (p.planned prices equity order targets).insertionSort precedes := by
  have hperm :
    (p.planned prices equity order targets).Perm (p.planned prices equity order' targets') :=
    ((closing_perm h).append (moving_perm h)).symm
  refine (insertionSort_eq_of_perm hperm ?_ ?_ ?_).symm
  · exact fun a _ b _ ↦ precedes_total a b
  · exact fun a ha b hb c hc ↦ precedes_trans hdrift hrange hpos ha hb hc
  · exact fun a ha b hb hab hba ↦ List.inj_on_of_nodup_map (nodup_symbols hdistinct) ha hb
      (symbol_eq_of_precedes hdrift hrange hpos ha hb hab hba)

/-! ## The outcome -/

section

variable (p : Portfolio F) (prices : PriceMap) (targets : List (Symbol × F))

/-- However the targets are arranged and the positions yielded, the cash and the positions are the
same. -/
def OrderIndependent : Prop :=
    ∀ (order order' : HashMap.Order Symbol) (targets' : List (Symbol × F)),
  targets'.Perm targets →
    Option.Rel SameHoldings (p.rebalanceSimple prices order targets)
    (p.rebalanceSimple prices order' targets')

/-- The positions to close and the targets, as they come. -/
def closings : List (PlannedOrder F) :=
  p.closing prices (p.totalEquity .insertion prices) targets .insertion

@[inherit_doc closings] def movings : List (PlannedOrder F) :=
  p.moving prices (p.totalEquity .insertion prices) targets

/-- The cash once the positions have been closed, each as if it were the first. -/
def cashToMove : Int := settle p.grant p.pay p.cash (p.closings prices targets)

/-- Nothing saturates: the cash does not depend on the order in which the same amounts are paid, and
the quantities fit.  The search for what is affordable ends. -/
structure Unsaturated : Prop where
  closings : ∀ l : List (PlannedOrder F), l.Perm (p.closings prices targets) →
    settle p.grant p.pay p.cash l = p.cashToMove prices targets
  movings : ∀ l : List (PlannedOrder F), l.Perm (p.movings prices targets) →
    settle p.grant p.pay (p.cashToMove prices targets) l =
      settle p.grant p.pay (p.cashToMove prices targets) (p.movings prices targets)
  room : ∀ o ∈ p.closings prices targets ++ p.movings prices targets, p.Roomy o
  ends : ∀ o ∈ p.closings prices targets ++ p.movings prices targets,
    ¬ (o.qty = i64Max ∧ p.quantityStep = 1)

end

theorem admitted_of_capped (h : p.Capped) (orders : List (PlannedOrder F)) :
    p.admitted orders = p.admitFrom 0 0 (orders.insertionSort precedes) := if_pos h

theorem admitted_of_uncapped (h : ¬ p.Capped) (orders : List (PlannedOrder F)) :
    p.admitted orders = orders := if_neg h

theorem rebalanceSimple_of_uncapped (hcap : ¬ p.Capped) (hpos : 0 < p.totalEquity order prices) :
    p.rebalanceSimple prices order targets =
      (p.closing prices (p.totalEquity order prices) targets order ++
        p.moving prices (p.totalEquity order prices) targets).foldlM executeOrder
      (p.countOrders (p.closing prices (p.totalEquity order prices) targets order ++
        p.moving prices (p.totalEquity order prices) targets)) := by
  have horders : p.rebalanceOrders prices order targets =
      p.closing prices (p.totalEquity order prices) targets order ++
        p.moving prices (p.totalEquity order prices) targets := by
    simp only [rebalanceOrders]
    rw [if_neg (not_le.mpr hpos), admitted_of_uncapped hcap]
    rfl
  rw [rebalanceSimple, horders]

omit [F64 F] in
theorem alike_countOrders (orders : List (PlannedOrder F)) : p.Alike (p.countOrders orders) :=
  ⟨⟨rfl, fun _ ↦ rfl⟩, rfl, rfl⟩

omit [F64 F] in
theorem SameHoldings.rel_self (r : Option (Portfolio F)) : Option.Rel SameHoldings r r := by
  cases r with
  | none => exact .none
  | some p => exact .some ⟨rfl, fun _ ↦ rfl⟩

/-- Where the plan is sorted or empty, it is the same in every order. -/
theorem orderIndependent_of_capped (hdrift : ComparesDrifts F)
    (hdistinct : (targets.map Prod.fst).Nodup)
    (hequity : ∀ order, p.totalEquity order prices = p.totalEquity .insertion prices)
    (h : p.totalEquity .insertion prices ≤ 0 ∨ p.Capped) : p.OrderIndependent prices targets := by
  intro order order' targets' hperm
  have horders :
    p.rebalanceOrders prices order' targets' = p.rebalanceOrders prices order targets := by
    simp only [rebalanceOrders, hequity]
    split_ifs with hpos
    · rfl
    · have hcap : p.Capped := h.resolve_left hpos
      have hrange : InI64 (p.totalEquity .insertion prices) := inI64_clampI64 _
      have hsorted :
          (p.planned prices (p.totalEquity .insertion prices) order' targets').insertionSort
            precedes =
            (p.planned prices (p.totalEquity .insertion prices) order targets).insertionSort
              precedes :=
        insertionSort_planned hdrift hdistinct hrange (not_le.mp hpos) hperm
      rw [admitted_of_capped hcap, admitted_of_capped hcap, hsorted]
  rw [rebalanceSimple, rebalanceSimple, horders]
  exact SameHoldings.rel_self _

theorem nodup_closings_movings (hdistinct : (targets.map Prod.fst).Nodup) :
    ((p.closings prices targets).map PlannedOrder.symbol).Nodup ∧
    ((p.movings prices targets).map PlannedOrder.symbol).Nodup ∧
    ∀ sym ∈ (p.closings prices targets).map PlannedOrder.symbol,
      sym ∉ (p.movings prices targets).map PlannedOrder.symbol := by
  have hnodup :
    ((p.closings prices targets ++ p.movings prices targets).map PlannedOrder.symbol).Nodup :=
    nodup_symbols hdistinct
  rw [List.map_append, List.nodup_append] at hnodup
  exact ⟨hnodup.1, hnodup.2.1, fun sym hsym hsym' ↦ hnodup.2.2 sym hsym sym hsym' rfl⟩

/-- The portfolio between closing and moving, and what it fills. -/
theorem exists_closed (hdistinct : (targets.map Prod.fst).Nodup)
    (hsat : p.Unsaturated prices targets) :
    ∃ q, (p.closings prices targets).foldlM executeOrder p = some q ∧
    q.grant = p.grant ∧ q.pay = p.pay ∧ (∀ o ∈ p.movings prices targets, q.Roomy o) ∧
      (Unaffected p.grant p.pay p.cash (p.closings prices targets) →
        q.cash = p.cashToMove prices targets) := by
  obtain ⟨hnodup, -, hother⟩ := nodup_closings_movings hdistinct
  have hqty : ∀ o ∈ p.closings prices targets, InI64 o.qty :=
    fun o ho ↦ (hsat.room o (List.mem_append_left _ ho)).qty
  obtain ⟨q, hq⟩ := exists_run hqty fun o ho ↦ hsat.ends o (List.mem_append_left _ ho)
  have hkept := kept_foldlM_executeOrder hqty hq
  obtain ⟨hcash, -, hothers⟩ := holdings_of_run (Alike.refl p) hqty hnodup hq
  refine ⟨q, hq, grant_congr hkept.quantityStep hkept.costModel, pay_congr hkept.costModel,
    fun o ho ↦ ?_, fun hun ↦ hcash.trans (hun.serve_eq (List.Subperm.refl _)).2⟩
  obtain ⟨hin, hheld, hsum⟩ := hsat.room o (List.mem_append_right _ ho)
  have hsame : q.quantity o.symbol = p.quantity o.symbol := by
    rw [quantity, quantity, hothers o.symbol fun hsym ↦ hother _ hsym (List.mem_map_of_mem ho)]
  exact ⟨hin, hsame ▸ hheld, hsame ▸ hsum⟩

section Uncapped

variable (hcap : ¬ p.Capped) (hpos : 0 < p.totalEquity .insertion prices)
  (hequity : ∀ order, p.totalEquity order prices = p.totalEquity .insertion prices)
  (hdistinct : (targets.map Prod.fst).Nodup) (hsat : p.Unsaturated prices targets)

include hcap hpos hequity hsat

/-- Without a cap a rebalance closes positions first and then moves others, in the order in which
they come. -/
theorem exists_rebalance (order : HashMap.Order Symbol) (h : targets'.Perm targets) :
    ∃ closed moved : List (PlannedOrder F), ∃ p₀ p₁ p' : Portfolio F,
      closed = p.closing prices (p.totalEquity .insertion prices) targets' order ∧
      moved = p.moving prices (p.totalEquity .insertion prices) targets' ∧
      closed.Perm (p.closings prices targets) ∧ moved.Perm (p.movings prices targets) ∧ p.Alike p₀ ∧
      closed.foldlM executeOrder p₀ = some p₁ ∧ moved.foldlM executeOrder p₁ = some p' ∧
      p.rebalanceSimple prices order targets' = some p' := by
  have hclosed : (p.closing prices (p.totalEquity .insertion prices) targets' order).Perm
      (p.closings prices targets) := closing_perm h
  have hmoved : (p.moving prices (p.totalEquity .insertion prices) targets').Perm
      (p.movings prices targets) := moving_perm h
  have hall := hclosed.append hmoved
  obtain ⟨p', hp'⟩ :=
    exists_run (p := p.countOrders (p.closing prices (p.totalEquity .insertion prices) targets'
      order ++ p.moving prices (p.totalEquity .insertion prices) targets'))
    (fun o ho ↦ (hsat.room o (hall.mem_iff.mp ho)).qty) fun o ho ↦ hsat.ends o (hall.mem_iff.mp ho)
  have hrebalance : p.rebalanceSimple prices order targets' = _ :=
    rebalanceSimple_of_uncapped hcap (hequity order ▸ hpos)
  rw [hequity, hp'] at hrebalance
  rw [List.foldlM_append] at hp'
  obtain ⟨p₁, hp₁, hrest⟩ := Option.bind_eq_some_iff.mp hp'
  exact ⟨_, _, _, p₁, p', rfl, rfl, hclosed, hmoved, alike_countOrders _, hp₁, hrest, hrebalance⟩

include hdistinct

theorem orderIndependent_of_unaffected
    (hclosings : Unaffected p.grant p.pay p.cash (p.closings prices targets))
    (hmovings : Unaffected p.grant p.pay (p.cashToMove prices targets) (p.movings prices targets)) :
    p.OrderIndependent prices targets := by
  intro order order' targets' hperm
  obtain ⟨hnodup, hnodup', -⟩ := nodup_closings_movings hdistinct
  obtain ⟨q, hq, hgrant, hpay, hroom, hcash⟩ := exists_closed hdistinct hsat
  have hqty : ∀ o ∈ p.closings prices targets, InI64 o.qty :=
    fun o ho ↦ (hsat.room o (List.mem_append_left _ ho)).qty
  obtain ⟨closed₁, moved₁, p₀, p₁, p', -, -, hclosed₁, hmoved₁, hlike₁, hrun₁, hmove₁, hp'⟩ :=
    exists_rebalance hcap hpos hequity hsat order (List.Perm.refl targets)
  obtain ⟨closed₂, moved₂, p₀', p₂, p'', -, -, hclosed₂, hmoved₂, hlike₂, hrun₂, hmove₂, hp''⟩ :=
    exists_rebalance hcap hpos hequity hsat order' hperm
  have hq₁ : q.Alike p₁ :=
    alike_of_unaffected hqty hnodup hclosings (Alike.refl p) hlike₁ (List.Perm.refl _)
    hclosed₁ (hsat.closings closed₁ hclosed₁).symm hq hrun₁
  have hq₂ : q.Alike p₂ :=
    alike_of_unaffected hqty hnodup hclosings (Alike.refl p) hlike₂ (List.Perm.refl _)
    hclosed₂ (hsat.closings closed₂ hclosed₂).symm hq hrun₂
  have hun : Unaffected q.grant q.pay q.cash (p.movings prices targets) := by
    rw [hgrant, hpay, hcash hclosings]
    exact hmovings
  have hsettle : settle q.grant q.pay q.cash moved₁ = settle q.grant q.pay q.cash moved₂ := by
    rw [hgrant, hpay, hcash hclosings, hsat.movings moved₁ hmoved₁, hsat.movings moved₂ hmoved₂]
  rw [hp', hp'']
  exact .some
    (alike_of_unaffected (fun o ho ↦ (hroom o ho).qty) hnodup' hun hq₁ hq₂ hmoved₁ hmoved₂ hsettle
    hmove₁ hmove₂).toSameHoldings

theorem unaffected_of_orderIndependent (h : p.OrderIndependent prices targets) :
    Unaffected p.grant p.pay p.cash (p.closings prices targets) ∧
      Unaffected p.grant p.pay (p.cashToMove prices targets) (p.movings prices targets) := by
  obtain ⟨hnodup, hnodup', hother⟩ := nodup_closings_movings hdistinct
  obtain ⟨q, hq, hgrant, hpay, hroom, hcash⟩ := exists_closed hdistinct hsat
  obtain ⟨-, -, -, -, p', -, -, -, -, -, -, -, hp'⟩ :=
    exists_rebalance hcap hpos hequity hsat .insertion (List.Perm.refl targets)
  -- whatever the arrangement, the positions at the end are those of `p'`
  have hfinal {order : HashMap.Order Symbol} {targets' : List (Symbol × F)} {p'' : Portfolio F}
      (hperm : targets'.Perm targets) (hp'' : p.rebalanceSimple prices order targets' = some p'')
        (sym : Symbol) :
      p''.position sym = p'.position sym := by
    have hrel := h .insertion order targets' hperm
    rw [hp', hp''] at hrel
    cases hrel with
    | some hsame => exact hsame.position sym
  have hclosings : Unaffected p.grant p.pay p.cash (p.closings prices targets) := by
    refine unaffected_of_positions (fun o ho ↦ hsat.room o (List.mem_append_left _ ho)) hnodup
      p'.position
      fun arranged harranged ↦ ?_
    obtain ⟨order, horder⟩ := exists_closing_eq harranged
    obtain ⟨closed, moved, p₀, p₁, p'', rfl, -, hclosed, hmoved, hlike, hrun, hmove, hp''⟩ :=
      exists_rebalance hcap hpos hequity hsat order (List.Perm.refl targets)
    refine ⟨p₀, p₁, hlike, horder ▸ hrun, fun o ho ↦ ?_⟩
    obtain ⟨-, -, hothers⟩ := holdings_of_run (Alike.refl p₁) (fun o ho ↦
      (hroom o (hmoved.mem_iff.mp ho)).qty) ((hmoved.map _).nodup_iff.mpr hnodup') hmove
    have hsym : o.symbol ∉ moved.map PlannedOrder.symbol := by
      rw [(hmoved.map _).mem_iff]
      exact hother _ (List.mem_map_of_mem ho)
    exact (hothers _ hsym).symm.trans (hfinal (List.Perm.refl targets) hp'' _)
  refine ⟨hclosings, ?_⟩
  have hmovings : Unaffected q.grant q.pay q.cash (p.movings prices targets) := by
    refine unaffected_of_positions hroom hnodup' p'.position fun arranged harranged ↦ ?_
    obtain ⟨targets', hperm, htargets⟩ := exists_moving_eq harranged
    obtain ⟨closed, moved, p₀, p₁, p'', hclosed, rfl, -, -, hlike, hrun, hmove, hp''⟩ :=
      exists_rebalance hcap hpos hequity hsat .insertion hperm
    have hsame : closed = p.closings prices targets := by
      rw [hclosed, closings, closing, closing]
      simp only [collected_isNone_perm hperm]
    have hqty : ∀ o ∈ p.closings prices targets, InI64 o.qty :=
      fun o ho ↦ (hsat.room o (List.mem_append_left _ ho)).qty
    exact ⟨p₁, p'', hlike.run hqty hq (hsame ▸ hrun), htargets ▸ hmove,
      fun o _ ↦ hfinal hperm hp'' _⟩
  rwa [hgrant, hpay, hcash hclosings] at hmovings

end Uncapped

/-- Exact numbers compare as numbers do. -/
theorem comparesDrifts_exact : ComparesDrifts (Option Rat) := by
  have hsome (v e : Int) (he : 0 < e) : ∃ r : Rat, (driftBpsOf v e : Option Rat) = some r := by
    have hden : (Rat.ofInt e).num ≠ 0 := he.ne'
    exact ⟨_, by
      change ((if (Rat.ofInt e).num = 0 then none
        else some (Rat.div (Rat.ofInt v.natAbs) (Rat.ofInt e))).bind
        fun a ↦ (some (Rat.ofInt 10000)).map (Rat.mul a)) = some _
      rw [if_neg hden]
      rfl⟩
  constructor
  · intro v w e _ _ _ he hlt
    obtain ⟨a, ha⟩ := hsome v e he
    obtain ⟨b, hb⟩ := hsome w e he
    rw [ha, hb] at hlt ⊢
    have hab : a < b := hlt
    exact Bool.eq_false_iff.mpr fun hba ↦ lt_asymm hab hba
  · intro u v w e _ _ _ _ he huv hvw
    obtain ⟨a, ha⟩ := hsome u e he
    obtain ⟨b, hb⟩ := hsome v e he
    obtain ⟨c, hc⟩ := hsome w e he
    rw [ha, hb] at huv
    rw [hb, hc] at hvw
    rw [ha, hc]
    have hba : b ≤ a := not_lt.mp (Bool.eq_false_iff.mp huv)
    have hcb : c ≤ b := not_lt.mp (Bool.eq_false_iff.mp hvw)
    exact Bool.eq_false_iff.mpr fun hac ↦ not_lt.mpr (hcb.trans hba) hac

/-- Short five and long ten shares at a price of 1.00, with no cash. -/
def longShort : Option (Portfolio (Option Rat)) :=
  (new 500 (flatCost 0)).rebalanceSimple (fun _ ↦ some 100) .insertion
    [(aapl, F64.ofInt (-1)), (msft, F64.ofInt 2)]

end Portfolio

end Nanobook
