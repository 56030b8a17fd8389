import Mathlib.Data.List.Sort
import Nanobook.Portfolio.Fill

/-!
# Rebalancing at given prices

`rebalance_simple` and `close_position_at`.  A rebalance plans its orders first, the closing ones in
the order in which the positions are yielded and then those of the targets, cuts the plan down to
the caps, and only then fills what is left.
-/

namespace Nanobook

open Rebalancer (Symbol collected)

variable {F : Type} [F64 F]

open F64

/-- A candidate order, before the caps are applied. -/
structure PlannedOrder (F : Type) where
  symbol : Symbol
  qty : Shares
  price : Int
  driftBps : F

/-- The largest multiple of the step whose value fits, with the sign of `qty`. -/
def truncateQtyToMaxValue (qty : Shares) (price step maxValue : Int) : Shares :=
  if maxValue ≤ 0 ∨ price = 0 ∨ step ≤ 0 then 0
  else
    let rawAbsCap := (maxValue * Shares.scale).tdiv price.natAbs
    let snapped := max 0 (min (rawAbsCap.tdiv step * step) i64Max)
    if qty < 0 then -snapped else snapped

def driftBpsOf (value equity : Int) : F := ofInt value.natAbs / ofInt equity * ofInt 10000

/-- The quantity a difference of value buys or sells, in multiples of the step. -/
def sizeQty (diffValue price step : Int) : Shares :=
  if diffValue = 0 ∨ price ≤ 0 ∨ step ≤ 0 then 0
  else
    let sign : Int := if diffValue < 0 then -1 else 1
    let rawMicro := (diffValue.natAbs * Shares.scale).tdiv price
    let snapped := rawMicro.tdiv step * step
    clampI64 (snapped * sign)

namespace Portfolio

variable (p : Portfolio F)

/-! ## Planning -/

/-- Apply the bounds on the value of a single order. -/
def boundOrder (order : PlannedOrder F) : Option (PlannedOrder F) :=
  let notional := notionalOf order.qty order.price
  let large : Prop := 0 < p.maxOrderValue ∧ p.maxOrderValue < notional
  let qty :=
    if large then truncateQtyToMaxValue order.qty order.price p.quantityStep p.maxOrderValue
    else order.qty
  if large ∧ qty = 0 then none
  else if 0 < p.minOrderValue ∧ notionalOf qty order.price < p.minOrderValue then none
  else some { order with qty }

/-- The drift is within the band, so that nothing is to be done about it. -/
def withinBand (driftBps : F) : Bool :=
    lt (ofInt 0) p.noTradeBandBps && le driftBps p.noTradeBandBps

variable (prices : PriceMap) (equity : Int)

/-- Close a position that is not among the targets, at whatever price there is. -/
def closeOrder (sym : Symbol) : Option (PlannedOrder F) := do
  let price ← prices sym
  let pos ← p.position sym
  if pos.isFlat then none
  else
    let driftBps := driftBpsOf (pos.marketValue price) equity
    if p.withinBand driftBps then none
    else p.boundOrder ⟨sym, satNeg pos.quantity, price, driftBps⟩

/-- Move a position to the weight of its target. -/
def targetOrder (target : Symbol × F) : Option (PlannedOrder F) := do
  let price ← prices target.1
  if price ≤ 0 then none
  else
    let currentValue := ((p.position target.1).map fun pos ↦ pos.marketValue price).getD 0
    let targetValue := toI64 (ofInt equity * target.2)
    let diffValue := satSub targetValue currentValue
    let driftBps := driftBpsOf diffValue equity
    if p.withinBand driftBps then none
    else
      let diffQty := sizeQty diffValue price p.quantityStep
      if diffQty = 0 then none else p.boundOrder ⟨target.1, diffQty, price, driftBps⟩

def planned (order : HashMap.Order Symbol) (targets : List (Symbol × F)) : List (PlannedOrder F) :=
  let toClose := (order.arrange p.positions.keys).filter fun sym ↦ (collected targets sym).isNone
  toClose.filterMap (p.closeOrder prices equity) ++ targets.filterMap (p.targetOrder prices equity)

/-! ## Caps -/

/-- The larger drift first, and of equal drifts the smaller symbol. -/
def precedes (a b : PlannedOrder F) : Prop :=
  lt b.driftBps a.driftBps ∨ (¬ lt a.driftBps b.driftBps ∧ ¬ b.symbol.asStr < a.symbol.asStr)

instance (a b : PlannedOrder F) : Decidable (precedes a b) :=
  inferInstanceAs (Decidable (_ ∨ (_ ∧ _)))

/-- Admit orders while there are trades and value left; the last one may be cut down. -/
def admitFrom (count : Nat) (runningNotional : Int) : List (PlannedOrder F) → List (PlannedOrder F)
  | [] => []
  | order :: rest =>
      if p.maxTradesPerRebalance.getD u64Max ≤ count then []
      else
        let notional := notionalOf order.qty order.price
        let remaining := wrapI64 (p.maxRebalanceNotional - runningNotional)
        if 0 < p.maxRebalanceNotional ∧ remaining ≤ 0 then []
        else if 0 < p.maxRebalanceNotional ∧ remaining < notional then
          let qty := truncateQtyToMaxValue order.qty order.price p.quantityStep remaining
          if qty = 0 then []
          else if p.minOrderValue ≤ 0 ∨ p.minOrderValue ≤ notionalOf qty order.price then
            [{ order with qty }]
          else []
        else order :: admitFrom (count + 1) (wrapI64 (runningNotional + notional)) rest

/-- The orders of the plan that the caps admit. -/
def admitted (orders : List (PlannedOrder F)) : List (PlannedOrder F) :=
  if p.maxTradesPerRebalance.isSome ∨ 0 < p.maxRebalanceNotional then
    p.admitFrom 0 0 (orders.insertionSort precedes)
  else orders

/-! ## Execution -/

def executeOrder (order : PlannedOrder F) : Option (Portfolio F) :=
  p.executeFill order.symbol order.qty order.price

/-- The orders of a rebalance. -/
def rebalanceOrders (order : HashMap.Order Symbol) (targets : List (Symbol × F)) :
    List (PlannedOrder F) :=
  let equity := p.totalEquity order prices
  if equity ≤ 0 then [] else p.admitted (p.planned prices equity order targets)

/-- The portfolio with the orders of a rebalance counted, before any of them is executed. -/
def countOrders (orders : List (PlannedOrder F)) : Portfolio F :=
  { p with
    lastRebalanceOrderCount := orders.length
    lastRebalanceNotional :=
      orders.foldl (fun acc order ↦ satAdd acc (notionalOf order.qty order.price)) 0 }

/-- `rebalance_simple_from_price_map`. -/
def rebalanceSimple (order : HashMap.Order Symbol) (targets : List (Symbol × F)) :
    Option (Portfolio F) :=
  let orders := p.rebalanceOrders prices order targets
  orders.foldlM executeOrder (p.countOrders orders)

/-- `close_position_at`, which also says whether there was anything to close. -/
def closePositionAt (symbol : Symbol) (price : Int) : Option (Portfolio F × Bool) :=
  if price ≤ 0 then some (p, false)
  else
    match p.position symbol with
    | none => some (p, false)
    | some pos =>
        if pos.isFlat then some (p, false)
        else (p.executeFill symbol (satNeg pos.quantity) price).map fun p ↦ (p, true)

/-! ## Where the orders come from -/

theorem inI64_truncateQtyToMaxValue (qty : Shares) (price step maxValue : Int) :
    InI64 (truncateQtyToMaxValue qty price step maxValue) := by
  simp only [truncateQtyToMaxValue, InI64, i64Min, i64Max]
  split_ifs <;> omega

theorem inI64_sizeQty (diffValue price step : Int) : InI64 (sizeQty diffValue price step) := by
  rw [sizeQty]
  split
  · decide
  · exact inI64_clampI64 _

variable {p : Portfolio F} {prices : PriceMap} {equity : Int} {o o' : PlannedOrder F}
  {order : HashMap.Order Symbol} {targets : List (Symbol × F)}

section

omit [F64 F]

/-- The bounds drop an order, leave it as it is or cut it down, but not to nothing. -/
theorem boundOrder_eq_some (h : p.boundOrder o = some o') :
    (0 < p.minOrderValue → p.minOrderValue ≤ notionalOf o'.qty o'.price) ∧
      ((o' = o ∧ (0 < p.maxOrderValue → notionalOf o.qty o.price ≤ p.maxOrderValue)) ∨
        (0 < p.maxOrderValue ∧ p.maxOrderValue < notionalOf o.qty o.price ∧ o'.qty ≠ 0 ∧
          o' = { o with qty := truncateQtyToMaxValue o.qty o.price p.quantityStep p.maxOrderValue
          })) := by
  simp only [boundOrder] at h
  split_ifs at h with hlarge hnone hsmall hnone hsmall
  · cases h
    exact ⟨fun hmin ↦ not_lt.mp fun hlt ↦ hsmall ⟨hmin, hlt⟩,
      .inr ⟨hlarge.1, hlarge.2, fun hzero ↦ hnone ⟨hlarge, hzero⟩, rfl⟩⟩
  · cases h
    exact ⟨fun hmin ↦ not_lt.mp fun hlt ↦ hsmall ⟨hmin, hlt⟩,
      .inl ⟨rfl, fun hmax ↦ not_lt.mp fun hlt ↦ hlarge ⟨hmax, hlt⟩⟩⟩

/-- The bounds change nothing of an order but its quantity. -/
theorem boundOrder_same (h : p.boundOrder o = some o') :
    o'.symbol = o.symbol ∧ o'.price = o.price ∧ o'.driftBps = o.driftBps := by
  rcases (boundOrder_eq_some h).2 with ⟨rfl, -⟩ | ⟨-, -, -, rfl⟩
  · exact ⟨rfl, rfl, rfl⟩
  · exact ⟨rfl, rfl, rfl⟩

/-- An order that the caps have cut down to the value that remains, but not to nothing. -/
structure CutDown (p : Portfolio F) (o o' : PlannedOrder F) : Prop where
  remaining : ∃ remaining, 0 < remaining ∧ remaining < notionalOf o.qty o.price ∧
    o' = { o with qty := truncateQtyToMaxValue o.qty o.price p.quantityStep remaining }
  nonzero : o'.qty ≠ 0
  min : p.minOrderValue ≤ 0 ∨ p.minOrderValue ≤ notionalOf o'.qty o'.price

/-- The caps admit orders as they are, or cut down. -/
theorem mem_admitFrom {l : List (PlannedOrder F)} {count : Nat} {running : Int}
    (h : o ∈ p.admitFrom count running l) :
    o ∈ l ∨ ∃ a ∈ l, p.CutDown a o := by
  induction l generalizing count running with
  | nil => cases h
  | cons a l ih =>
    simp only [admitFrom] at h
    split_ifs at h with hfull hspent hlarge hzero hmin
    · cases h
    · cases h
    · cases h
    · rw [List.mem_singleton] at h
      subst h
      have hremaining := not_le.mp fun hle ↦ hspent ⟨hlarge.1, hle⟩
      exact .inr ⟨a, List.mem_cons_self, ⟨_, hremaining, hlarge.2, rfl⟩, hzero, hmin⟩
    · cases h
    · rcases List.mem_cons.mp h with rfl | h
      · exact .inl List.mem_cons_self
      · rcases ih h with hmem | ⟨b, hmem, hcut⟩
        · exact .inl (List.mem_cons_of_mem a hmem)
        · exact .inr ⟨b, List.mem_cons_of_mem a hmem, hcut⟩

end

/-- The orders of a rebalance are those planned, as they are or cut down. -/
theorem mem_rebalanceOrders (h : o ∈ p.rebalanceOrders prices order targets) :
    ∃ a ∈ p.planned prices (p.totalEquity order prices) order targets, o = a ∨ p.CutDown a o := by
  simp only [rebalanceOrders, admitted] at h
  split_ifs at h
  · cases h
  · have hperm :=
      List.perm_insertionSort precedes (p.planned prices (p.totalEquity order prices) order targets)
    rcases mem_admitFrom h with hmem | ⟨a, hmem, hcut⟩
    · exact ⟨o, hperm.mem_iff.mp hmem, .inl rfl⟩
    · exact ⟨a, hperm.mem_iff.mp hmem, .inr hcut⟩
  · exact ⟨o, h, .inl rfl⟩

/-- An order that closes a position is for all of it. -/
theorem closeOrder_eq_some {sym : Symbol} (h : p.closeOrder prices equity sym = some o) :
    ∃ price pos, prices sym = some price ∧ p.position sym = some pos ∧ pos.quantity ≠ 0 ∧
      p.boundOrder ⟨sym, satNeg pos.quantity, price, driftBpsOf (pos.marketValue price) equity⟩ =
      some o := by
  obtain ⟨price, hprice, h⟩ := Option.bind_eq_some_iff.mp h
  obtain ⟨pos, hpos, h⟩ := Option.bind_eq_some_iff.mp h
  simp only at h
  split_ifs at h with hflat
  exact ⟨price, pos, hprice, hpos, fun hzero ↦ hflat (decide_eq_true hzero), h⟩

/-- An order that moves a position is for the difference in value, in steps. -/
theorem targetOrder_eq_some {target : Symbol × F}
    (h : p.targetOrder prices equity target = some o) :
    ∃ price diffValue, prices target.1 =
    some price ∧ InI64 diffValue ∧ sizeQty diffValue price p.quantityStep ≠ 0 ∧
      p.boundOrder
      ⟨target.1, sizeQty diffValue price p.quantityStep, price, driftBpsOf diffValue equity⟩ =
        some o := by
  obtain ⟨price, hprice, h⟩ := Option.bind_eq_some_iff.mp h
  simp only at h
  split_ifs at h with _ _ hzero
  exact ⟨price, _, hprice, inI64_clampI64 _, hzero, h⟩

/-- What the orders of a plan are before they are bounded: for something, in range, at the price
that is given, and with the drift of a value. -/
theorem exists_draft (h : o ∈ p.planned prices equity order targets) : ∃ draft : PlannedOrder F,
    p.boundOrder draft = some o ∧ InI64 draft.qty ∧ draft.qty ≠ 0 ∧
    prices draft.symbol = some draft.price ∧
      ∃ v, InI64 v ∧ draft.driftBps = driftBpsOf v equity := by
  rw [planned, List.mem_append, List.mem_filterMap, List.mem_filterMap] at h
  rcases h with ⟨sym, -, h⟩ | ⟨target, -, h⟩
  · obtain ⟨price, pos, hprice, -, hopen, h⟩ := closeOrder_eq_some h
    refine ⟨_, h, inI64_clampI64 _, fun hzero ↦ hopen ?_, hprice, _, inI64_clampI64 _, rfl⟩
    simp only [satNeg, clampI64, i64Min, i64Max] at hzero
    lia
  · obtain ⟨price, diffValue, hprice, hin, hzero, h⟩ := targetOrder_eq_some h
    exact ⟨_, h, inI64_sizeQty _ _ _, hzero, hprice, _, hin, rfl⟩

/-- The orders of a plan are in range, for something and at the prices that are given. -/
theorem planned_valid (h : o ∈ p.planned prices equity order targets) :
    InI64 o.qty ∧ o.qty ≠ 0 ∧ prices o.symbol = some o.price := by
  obtain ⟨draft, hbound, hin, hzero, hprice, -⟩ := exists_draft h
  rcases (boundOrder_eq_some hbound).2 with ⟨rfl, -⟩ | ⟨-, -, hnone, rfl⟩
  · exact ⟨hin, hzero, hprice⟩
  · exact ⟨inI64_truncateQtyToMaxValue _ _ _ _, hnone, hprice⟩

@[inherit_doc planned_valid] theorem rebalanceOrders_valid
    (h : o ∈ p.rebalanceOrders prices order targets) :
    InI64 o.qty ∧ o.qty ≠ 0 ∧ prices o.symbol = some o.price := by
  obtain ⟨a, ha, rfl | ⟨⟨remaining, -, -, rfl⟩, hzero, -⟩⟩ := mem_rebalanceOrders h
  · exact planned_valid ha
  · exact ⟨inI64_truncateQtyToMaxValue _ _ _ _, hzero, (planned_valid ha).2.2⟩

theorem inI64_rebalanceOrders (h : o ∈ p.rebalanceOrders prices order targets) : InI64 o.qty :=
  (rebalanceOrders_valid h).1

theorem rebalanceOrders_ne_zero (h : o ∈ p.rebalanceOrders prices order targets) : o.qty ≠ 0 :=
  (rebalanceOrders_valid h).2.1

/-! ## Runs of fills -/

/-- What every fill of an order in range preserves, the orders of a list preserve. -/
theorem foldlM_executeOrder_invariant {I : Portfolio F → Prop} {orders : List (PlannedOrder F)}
    {p p' : Portfolio F} (hqty : ∀ o ∈ orders, InI64 o.qty)
    (hfill : ∀ p p' symbol qty price, InI64 qty → I p →
        p.executeFill symbol qty price = some p' → I p')
    (hp : I p) (h : orders.foldlM executeOrder p = some p') : I p' :=
  Loop.foldlM_invariant (fun _ o ho _ hI hf ↦ hfill _ _ _ _ _ (hqty o ho) hI hf) hp h

theorem kept_foldlM_executeOrder {orders : List (PlannedOrder F)} {p p' : Portfolio F}
    (hqty : ∀ o ∈ orders, InI64 o.qty) (h : orders.foldlM executeOrder p = some p') : p.Kept p' :=
  foldlM_executeOrder_invariant hqty (fun _ _ _ _ _ hq hk hf ↦ hk.trans (kept_executeFill hq hf))
    (Kept.refl p) h

/-- Orders can be filled one after the other if the step is not a single micro-share. -/
theorem exists_foldlM_executeOrder {orders : List (PlannedOrder F)} {p : Portfolio F}
    (hqty : ∀ o ∈ orders, InI64 o.qty) (hstep : p.quantityStep ≠ 1) :
    ∃ p', orders.foldlM executeOrder p = some p' := by
  obtain ⟨-, p', hp', -⟩ := Loop.exists_foldlM (f := fun _ ↦ executeOrder)
    (I := fun p : Portfolio F ↦ p.quantityStep ≠ 1) (fun _ _ _ _ _ _ h ↦ h) orders
    (fun p o ho hp ↦ by
      obtain ⟨p', hp'⟩ : ∃ p', p.executeFill o.symbol o.qty o.price = some p' :=
        exists_executeFill (hqty o ho) fun h ↦ hp h.2
      exact ⟨0, p', hp', fun h ↦ hp ((kept_executeFill (hqty o ho) hp').quantityStep.symm.trans h)⟩)
        hstep
  exact ⟨p', hp'⟩

theorem kept_rebalanceSimple {order : HashMap.Order Symbol} {targets : List (Symbol × F)}
    {p' : Portfolio F} (h : p.rebalanceSimple prices order targets = some p') :
    (p.countOrders (p.rebalanceOrders prices order targets)).Kept p' :=
  kept_foldlM_executeOrder (fun _ ho ↦ inI64_rebalanceOrders ho) h

theorem exists_rebalanceSimple {order : HashMap.Order Symbol} {targets : List (Symbol × F)}
    (hstep : p.quantityStep ≠ 1) : ∃ p', p.rebalanceSimple prices order targets = some p' :=
  exists_foldlM_executeOrder (fun _ ho ↦ inI64_rebalanceOrders ho) hstep

/-! ## Closing a position -/

/-- Closing is the fill that takes back the whole position, if there is one and a price for it. -/
theorem closePositionAt_cases {symbol : Symbol} {price : Int} {r : Portfolio F × Bool}
    (h : p.closePositionAt symbol price = some r) :
    r = (p, false) ∨
    (0 < price ∧ p.quantity symbol ≠ 0 ∧ r.2 = true ∧
      p.executeFill symbol (satNeg (p.quantity symbol)) price = some r.1) := by
  rw [closePositionAt] at h
  split at h
  · exact .inl (Option.some_inj.mp h).symm
  · next hprice =>
      split at h
      · exact .inl (Option.some_inj.mp h).symm
      · next pos hpos =>
          have hq : p.quantity symbol = pos.quantity := by rw [quantity, hpos]; rfl
          split at h
          · exact .inl (Option.some_inj.mp h).symm
          · next hflat =>
              obtain ⟨p', hp', rfl⟩ := Option.map_eq_some_iff.mp h
              refine .inr ⟨not_le.mp hprice, ?_, rfl, by rw [hq]; exact hp'⟩
              rw [hq]
              simpa [Position.isFlat] using hflat

/-- An open position is closed by a fill, which may be cut down. -/
theorem closePositionAt_of_open {symbol : Symbol} {price : Int} (hprice : 0 < price)
    (hopen : p.quantity symbol ≠ 0) : p.closePositionAt symbol price =
      (p.executeFill symbol (satNeg (p.quantity symbol)) price).map fun p ↦ (p, true) := by
  rw [closePositionAt, if_neg (not_le.mpr hprice)]
  cases hpos : p.position symbol with
  | none => exact absurd (by rw [quantity, hpos]; rfl) hopen
  | some pos =>
      have hq : p.quantity symbol = pos.quantity := by rw [quantity, hpos]; rfl
      have hflat : ¬ pos.isFlat = true := fun hflat ↦ hopen (hq.trans (of_decide_eq_true hflat))
      simp only [if_neg hflat, hq]

theorem exists_closePositionAt {symbol : Symbol} {price : Int} (hstep : p.quantityStep ≠ 1) :
    ∃ r, p.closePositionAt symbol price = some r := by
  rw [closePositionAt]
  split
  · exact ⟨_, rfl⟩
  · split
    · exact ⟨_, rfl⟩
    · next pos _ =>
        split
        · exact ⟨_, rfl⟩
        · obtain ⟨p', hp'⟩ : ∃ p', p.executeFill symbol (satNeg pos.quantity) price = some p' :=
            exists_executeFill (inI64_clampI64 _) fun h ↦ hstep h.2
          exact ⟨(p', true), by rw [hp']; rfl⟩

end Portfolio

end Nanobook
