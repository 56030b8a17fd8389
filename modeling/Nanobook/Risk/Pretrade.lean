import Mathlib.Algebra.BigOperators.Group.Finset.Basic
import Nanobook.Rebalancer.TargetReached
import Nanobook.Risk.Engine

/-!
# Risk checks before a rebalance

`risk.rs` of the rebalancer hands its orders to the risk engine, and an order for no shares for each
position that is not traded, so that the batch knows a price for it.
-/

namespace Nanobook.Rebalancer.Pretrade

open Risk (BatchOrder RiskEngine RiskF64)

/-! ## The adapter -/

structure RiskConfig (F : Type) where
  maxPositionPct : F
  maxLeverage : F
  minTradeUsd : F
  maxTradeUsd : F
  allowShort : Bool
  maxShortPct : F

section Adapter

variable {F : Type} [RiskF64 F]

/-- The limits on values in cents are disabled. -/
def adaptConfig (config : RiskConfig F) : Risk.RiskConfig F :=
  { Risk.RiskConfig.default with
    maxPositionPct := config.maxPositionPct
    maxLeverage := config.maxLeverage
    minTradeUsd := config.minTradeUsd
    maxTradeUsd := config.maxTradeUsd
    allowShort := config.allowShort
    maxShortPct := config.maxShortPct
    maxOrderValueCents := 0
    maxBatchValueCents := 0 }

def validationFailure (detail : String) : Risk.RiskReport := ⟨[⟨"Order validation", .fail, detail⟩]⟩

/-- An order as the engine takes it.  `debug` is the text of `{:?}`. -/
def toBatchOrder (debug : RebalanceOrder → String) (order : RebalanceOrder) :
    Except String BatchOrder :=
  if order.shares < 0 then .error ("invalid share quantity for " ++ debug order)
  else .ok {
    symbol := order.symbol
    side := actionToSide order.action
    quantity := order.shares.toUInt64
    priceCents := order.limitPriceCents }

/-- The positions that are not traded, each as an order for no shares at the price of its symbol. -/
def seeds (iterated : List (Symbol × Int64)) (orders : List RebalanceOrder)
    (prices : List (Symbol × Int64)) : List BatchOrder :=
  (iterated.filter fun e ↦ e.2 ≠ 0).filterMap fun e ↦
    if orders.any fun o ↦ o.symbol = e.1 then none
    else some {
      symbol := e.1
      side := if (0 : Int64) ≤ e.2 then .buy else .sell
      quantity := 0
      priceCents := (collected prices e.1).getD 0 }

/-- `iteration` is the order in which hash maps yield their keys. -/
def checkRisk (debug : RebalanceOrder → String) (iteration : HashMap.Order Symbol)
    (orders : List RebalanceOrder) (equityCents : Int64) (targets : List (Symbol × F))
    (prices : List (Symbol × Int64)) (currentQty : HashMap Symbol Int64) (config : RiskConfig F) :
    Risk.RiskReport :=
  match RiskEngine.new (adaptConfig config) with
  | .error e => validationFailure ("invalid RiskConfig: " ++ e)
  | .ok engine =>
      match orders.mapM (toBatchOrder debug) with
      | .error e => validationFailure e
      | .ok brokerOrders =>
          let iterated := currentQty.iter iteration
          Risk.checkBatch iteration engine.config (brokerOrders ++ seeds iterated orders prices)
            ⟨equityCents, equityCents, equityCents, 0⟩ iterated targets

end Adapter

/-! ## Exposure -/

section Exposure

variable (currentQty : HashMap Symbol Int64) (orders : List RebalanceOrder)
  (prices : List (Symbol × Int64))

def heldQty (symbol : Symbol) : Int := ((currentQty.get? symbol).map Int64.toInt).getD 0

/-- The position in a symbol after the orders. -/
def qtyAfter (symbol : Symbol) : Int := heldQty currentQty symbol + orderedShares orders symbol

/-- The limit of the order for a symbol, else its last quote, else nothing. -/
def priceOf (symbol : Symbol) : Int :=
  match orders.find? fun o ↦ o.symbol = symbol with
  | some o => o.limitPriceCents.toInt
  | none => ((collected prices symbol).map Int64.toInt).getD 0

/-- The symbols that are held or ordered. -/
def heldOrOrdered : Finset Symbol := (currentQty.keys ++ orders.map RebalanceOrder.symbol).toFinset

def exposureOf (symbol : Symbol) : Int :=
  |qtyAfter currentQty orders symbol| * |priceOf orders prices symbol|

def grossExposure : Int :=
  ∑ symbol ∈ heldOrOrdered currentQty orders, exposureOf currentQty orders prices symbol

def shortExposure : Int :=
  ∑ symbol ∈ heldOrOrdered currentQty orders with qtyAfter currentQty orders symbol < 0,
    exposureOf currentQty orders prices symbol

/-- Something is sold, or held short and not traded, and a position is short afterwards. -/
def SellsShort : Prop :=
  ((∃ o ∈ orders, actionToSide o.action = .sell) ∨
      ∃ symbol ∈ currentQty.keys, heldQty currentQty symbol < 0 ∧
        ∀ o ∈ orders, o.symbol ≠ symbol) ∧
    ∃ symbol ∈ heldOrOrdered currentQty orders, qtyAfter currentQty orders symbol < 0

instance : Decidable (SellsShort currentQty orders) := inferInstanceAs (Decidable (_ ∧ _))

/-- The orders are such as the engine takes, and nothing leaves the range of `i64`. -/
structure Accepted {F : Type} [RiskF64 F] (config : RiskConfig F) : Prop where
  config : (adaptConfig config).validate = .ok ()
  shares : ∀ o ∈ orders, 0 ≤ o.shares.toInt
  quantities : ∀ symbol, InI64 (qtyAfter currentQty orders symbol)
  gross : grossExposure currentQty orders prices ≤ i64Max

end Exposure

/-! ## The batch -/

/-- What an order becomes that the engine takes. -/
def toBatch (o : RebalanceOrder) : BatchOrder :=
  ⟨o.symbol, actionToSide o.action, o.shares.toUInt64, o.limitPriceCents⟩

def seedOf (prices : List (Symbol × Int64)) (e : Symbol × Int64) : BatchOrder :=
  ⟨e.1, if (0 : Int64) ≤ e.2 then .buy else .sell, 0, (collected prices e.1).getD 0⟩

/-- The orders and seeds of a rebalance. -/
def batchOf (iteration : HashMap.Order Symbol) (orders : List RebalanceOrder)
    (prices : List (Symbol × Int64)) (currentQty : HashMap Symbol Int64) : List BatchOrder :=
  orders.map toBatch ++ seeds (currentQty.iter iteration) orders prices

/-- What an order of a batch adds to a position. -/
def signedQtyOf (o : BatchOrder) : Int :=
  satMul (match o.side with
    | .buy => 1
    | .sell => -1) o.qtyI64

section Batch

variable {iteration : HashMap.Order Symbol} {orders : List RebalanceOrder}
  {prices : List (Symbol × Int64)} {currentQty : HashMap Symbol Int64} {symbol : Symbol}
  {o : RebalanceOrder}

theorem mapM_toBatchOrder (debug : RebalanceOrder → String)
    (h : ∀ o ∈ orders, 0 ≤ o.shares.toInt) :
    orders.mapM (toBatchOrder debug) = .ok (orders.map toBatch) := by
  induction orders with
  | nil => rfl
  | cons o orders ih =>
      have ho : ¬ o.shares < 0 := by
        rw [Int64.lt_iff_toInt_lt, Int64.toInt_zero]
        exact not_lt.mpr (h o List.mem_cons_self)
      rw [List.mapM_cons, toBatchOrder, if_neg ho, ih fun p hp ↦ h p (List.mem_cons_of_mem o hp)]
      rfl

theorem signedQtyOf_toBatch (h : 0 ≤ o.shares.toInt) :
    signedQtyOf (toBatch o) = o.signedShares := by
  have hqty : (toBatch o).qtyI64 = o.shares.toInt := by
    have hle : (0 : Int64) ≤ o.shares := by rwa [Int64.le_iff_toInt_le, Int64.toInt_zero]
    have hfits := inI64_toInt o.shares
    simp only [BatchOrder.qtyI64, toBatch, Int64.toNat_toUInt64_of_le hle,
      InI64, i64Max] at *
    rw [← Int64.toNat_toInt, Int.toNat_of_nonneg h]
    omega
  have hfits := inI64_toInt o.shares
  rw [signedQtyOf, RebalanceOrder.signedShares, hqty]
  simp only [toBatch]
  cases actionToSide o.action with
  | buy => exact (congrArg clampI64 (Int.one_mul _)).trans (clampI64_eq hfits)
  | sell =>
      have hneg : InI64 (-o.shares.toInt) := by
        simp only [InI64, i64Min, i64Max] at *
        omega
      exact (congrArg clampI64 (Int.neg_one_mul _)).trans (clampI64_eq hneg)

theorem signedQtyOf_seedOf (e : Symbol × Int64) : signedQtyOf (seedOf prices e) = 0 := by
  rw [signedQtyOf]
  split <;> rfl

theorem mem_seeds {b : BatchOrder} : b ∈ seeds (currentQty.iter iteration) orders prices ↔
    ∃ e : Symbol × Int64, currentQty.get? e.1 = some e.2 ∧ e.2 ≠ 0 ∧
      (∀ o ∈ orders, o.symbol ≠ e.1) ∧ b = seedOf prices e := by
  rw [seeds, List.mem_filterMap]
  refine exists_congr fun e ↦ ?_
  rw [List.mem_filter, HashMap.mem_iter, decide_eq_true_eq, and_assoc]
  refine and_congr_right fun _ ↦ and_congr_right fun _ ↦ ?_
  by_cases hany : (orders.any fun o ↦ o.symbol = e.1) = true
  · have hex := List.any_eq_true.mp hany
    rw [if_pos hany]
    refine iff_of_false nofun fun h ↦ ?_
    obtain ⟨o, ho, hsymbol⟩ := hex
    exact h.1 o ho (of_decide_eq_true hsymbol)
  · have hall : ∀ o ∈ orders, o.symbol ≠ e.1 := fun o ho heq ↦
      hany (List.any_eq_true.mpr ⟨o, ho, decide_eq_true heq⟩)
    rw [if_neg hany, Option.some_inj, and_iff_right hall, eq_comm]
    rfl

/-- Each symbol comes once in a batch. -/
theorem nodup_batchOf (hdistinct : (orders.map RebalanceOrder.symbol).Nodup) :
    ((batchOf iteration orders prices currentQty).map BatchOrder.symbol).Nodup := by
  have hseeds :
      ((seeds (currentQty.iter iteration) orders prices).map BatchOrder.symbol).Nodup := by
    refine List.Nodup.sublist ?_ (HashMap.nodup_iter (o := iteration) (m := currentQty))
    refine (Keyed.sublist_map_filterMap fun e _ b hb ↦ ?_).trans (List.filter_sublist.map Prod.fst)
    split at hb
    · cases hb
    · obtain rfl := Option.some.inj hb
      rfl
  rw [batchOf, List.map_append, List.map_map]
  refine List.Nodup.append hdistinct hseeds ?_
  rintro s hordered hseed
  obtain ⟨o, ho, rfl⟩ := List.mem_map.mp hordered
  obtain ⟨b, hb, hsymbol⟩ := List.mem_map.mp hseed
  obtain ⟨e, -, -, hnone, rfl⟩ := mem_seeds.mp hb
  exact hnone o ho hsymbol.symm

/-- A batch has an order for each symbol that is ordered or held. -/
theorem mem_symbols_batchOf : symbol ∈ (batchOf iteration orders prices currentQty).map
      BatchOrder.symbol ↔ (∃ o ∈ orders, o.symbol = symbol) ∨ heldQty currentQty symbol ≠ 0 := by
  rw [batchOf, List.map_append, List.mem_append, List.map_map]
  constructor
  · rintro (hordered | hseed)
    · obtain ⟨o, ho, rfl⟩ := List.mem_map.mp hordered
      exact .inl ⟨o, ho, rfl⟩
    · obtain ⟨b, hb, rfl⟩ := List.mem_map.mp hseed
      obtain ⟨e, he, hne, -, rfl⟩ := mem_seeds.mp hb
      refine .inr ?_
      have hheld : heldQty currentQty (seedOf prices e).symbol = e.2.toInt := by
        rw [heldQty]
        exact congrArg (fun q ↦ (q.map Int64.toInt).getD 0) he
      rw [hheld]
      exact fun hzero ↦ hne (Int64.toInt_inj.mp hzero)
  · intro h
    by_cases hordered : ∃ o ∈ orders, o.symbol = symbol
    · obtain ⟨o, ho, rfl⟩ := hordered
      exact .inl (List.mem_map.mpr ⟨o, ho, rfl⟩)
    · have hheld := h.resolve_left hordered
      cases hget : currentQty.get? symbol with
      | none =>
          rw [heldQty, hget] at hheld
          exact absurd rfl hheld
      | some q =>
          rw [heldQty, hget] at hheld
          have hne : q ≠ 0 := fun hzero ↦ hheld (by rw [hzero]; rfl)
          refine .inr (List.mem_map.mpr ⟨seedOf prices (symbol, q), ?_, rfl⟩)
          exact mem_seeds.mpr ⟨(symbol, q), hget, hne, fun o ho heq ↦ hordered ⟨o, ho, heq⟩, rfl⟩

theorem get?_held (iteration : HashMap.Order Symbol) (currentQty : HashMap Symbol Int64)
    (symbol : Symbol) :
    ((currentQty.iter iteration).foldl (fun m p ↦ m.insert p.1 p.2.toInt) HashMap.empty).get?
      symbol = (currentQty.get? symbol).map Int64.toInt :=
  HashMap.get?_foldl_insert_perm (List.Perm.refl _) Int64.toInt symbol

theorem mem_heldOrOrdered : symbol ∈ heldOrOrdered currentQty orders ↔
    (∃ o ∈ orders, o.symbol = symbol) ∨ (currentQty.get? symbol).isSome = true := by
  rw [heldOrOrdered, List.mem_toFinset, List.mem_append, List.mem_map, or_comm,
    HashMap.isSome_get?_iff]

/-- An ordered symbol is traded at the limit of its order. -/
theorem priceOf_of_mem (hdistinct : (orders.map RebalanceOrder.symbol).Nodup) (ho : o ∈ orders) :
    priceOf orders prices o.symbol = o.limitPriceCents.toInt := by
  rw [priceOf, ← List.head?_filter, Keyed.filter_key_eq hdistinct ho]
  rfl

theorem priceOf_of_forall_ne (hnone : ∀ o ∈ orders, o.symbol ≠ symbol) :
    priceOf orders prices symbol = ((collected prices symbol).map Int64.toInt).getD 0 := by
  have hfind : (orders.find? fun o ↦ o.symbol = symbol) = none :=
    List.find?_eq_none.mpr fun o ho heq ↦ hnone o ho (of_decide_eq_true heq)
  rw [priceOf, hfind]

theorem qtyAfter_of_mem (currentQty : HashMap Symbol Int64)
    (hdistinct : (orders.map RebalanceOrder.symbol).Nodup) (ho : o ∈ orders) :
    qtyAfter currentQty orders o.symbol = heldQty currentQty o.symbol + o.signedShares := by
  rw [qtyAfter, orderedShares, Keyed.filter_key_eq hdistinct ho, List.map_singleton,
    List.sum_singleton]

theorem qtyAfter_of_forall_ne (hnone : ∀ o ∈ orders, o.symbol ≠ symbol) :
    qtyAfter currentQty orders symbol = heldQty currentQty symbol := by
  have hfilter : orders.filter (fun o ↦ o.symbol = symbol) = [] :=
    List.filter_eq_nil_iff.mpr fun o ho ↦ by simpa using hnone o ho
  rw [qtyAfter, orderedShares, hfilter, List.map_nil, List.sum_nil, Int.add_zero]

/-- An order of a batch makes a position what it is after the orders. -/
theorem add_signedQtyOf_of_mem (hdistinct : (orders.map RebalanceOrder.symbol).Nodup)
    (hshares : ∀ o ∈ orders, 0 ≤ o.shares.toInt) {b : BatchOrder}
    (hb : b ∈ batchOf iteration orders prices currentQty) :
    heldQty currentQty b.symbol + signedQtyOf b = qtyAfter currentQty orders b.symbol ∧
      b.symbol ∈ heldOrOrdered currentQty orders := by
  rcases List.mem_append.mp hb with hb | hb
  · obtain ⟨o, ho, rfl⟩ := List.mem_map.mp hb
    rw [signedQtyOf_toBatch (hshares o ho)]
    exact ⟨(qtyAfter_of_mem currentQty hdistinct ho).symm,
      mem_heldOrOrdered.mpr (.inl ⟨o, ho, rfl⟩)⟩
  · obtain ⟨e, he, -, hnone, rfl⟩ := mem_seeds.mp hb
    rw [signedQtyOf_seedOf, Int.add_zero]
    exact ⟨(qtyAfter_of_forall_ne hnone).symm, mem_heldOrOrdered.mpr (.inr (by
      rw [seedOf, he]
      rfl))⟩

/-- The positions that the engine computes are those after the orders. -/
theorem get?_postQty (iteration : HashMap.Order Symbol) (prices : List (Symbol × Int64))
    (hdistinct : (orders.map RebalanceOrder.symbol).Nodup)
    (hshares : ∀ o ∈ orders, 0 ≤ o.shares.toInt)
    (hfits : ∀ symbol, InI64 (qtyAfter currentQty orders symbol)) (symbol : Symbol) :
    (Risk.postQty (batchOf iteration orders prices currentQty) (currentQty.iter iteration)).get?
        symbol =
      if symbol ∈ heldOrOrdered currentQty orders then some (qtyAfter currentQty orders symbol)
      else none := by
  by_cases hin : symbol ∈ (batchOf iteration orders prices currentQty).map BatchOrder.symbol
  · obtain ⟨b, hb, rfl⟩ := List.mem_map.mp hin
    refine (HashMap.get?_foldl_update_of_mem (f := fun cur o ↦
      wrapI64 (cur.getD 0 + signedQtyOf o)) (nodup_batchOf hdistinct) hb _).trans ?_
    obtain ⟨hafter, hmem⟩ := add_signedQtyOf_of_mem hdistinct hshares hb
    rw [get?_held, if_pos hmem, ← hafter]
    refine congrArg some (wrapI64_eq ?_)
    rw [← heldQty, hafter]
    exact hfits b.symbol
  · refine (HashMap.get?_foldl_update_of_notMem
      (f := fun cur o ↦ wrapI64 (cur.getD 0 + signedQtyOf o)) hin _).trans ?_
    rw [get?_held]
    rw [mem_symbols_batchOf, not_or] at hin
    have hnone : ∀ o ∈ orders, o.symbol ≠ symbol := fun o ho heq ↦ hin.1 ⟨o, ho, heq⟩
    have hmem : symbol ∈ heldOrOrdered currentQty orders ↔
        (currentQty.get? symbol).isSome = true :=
      mem_heldOrOrdered.trans (or_iff_right hin.1)
    rw [qtyAfter_of_forall_ne hnone, heldQty]
    cases hget : currentQty.get? symbol with
    | none => exact (if_neg (by rw [hmem, hget]; exact Bool.false_ne_true)).symm
    | some q => exact (if_pos (by rw [hmem, hget]; rfl)).symm

/-- The last price of a symbol in a batch is the one that counts. -/
theorem get?_priceMap (iteration : HashMap.Order Symbol)
    (hdistinct : (orders.map RebalanceOrder.symbol).Nodup)
    (hin : symbol ∈ (batchOf iteration orders prices currentQty).map BatchOrder.symbol) :
    ((batchOf iteration orders prices currentQty).foldl
      (fun m o ↦ m.insert o.symbol o.priceCents.toInt) HashMap.empty).get? symbol =
      some (priceOf orders prices symbol) := by
  obtain ⟨b, hb, rfl⟩ := List.mem_map.mp hin
  refine (HashMap.get?_foldl_update_of_mem
    (f := fun _ o ↦ o.priceCents.toInt) (nodup_batchOf hdistinct) hb _).trans (congrArg some ?_)
  rcases List.mem_append.mp hb with hb | hb
  · obtain ⟨o, ho, rfl⟩ := List.mem_map.mp hb
    exact (priceOf_of_mem hdistinct ho).symm
  · obtain ⟨e, -, -, hnone, rfl⟩ := mem_seeds.mp hb
    refine Eq.trans ?_ (priceOf_of_forall_ne hnone).symm
    simp only [seedOf]
    cases collected prices e.1 <;> rfl

end Batch

end Nanobook.Rebalancer.Pretrade
