import Mathlib.Algebra.Order.BigOperators.Group.Finset
import Nanobook.Risk.Agreement
import Nanobook.Risk.Pretrade

/-!
# Exposures are exact

The exposures that the engine compares with the equity are sums over all symbols that are held or
ordered, so that neither the iteration of a hash map nor the order of a list changes a verdict.
Only of two quotes of one symbol the last one counts.
-/

namespace Nanobook.Rebalancer.Pretrade

open Risk (BatchOrder RiskEngine RiskF64)

/-! ## Sums -/

section Batch

variable {iteration : HashMap.Order Symbol} {orders : List RebalanceOrder}
  {prices : List (Symbol × Int64)} {currentQty : HashMap Symbol Int64} {symbol : Symbol}
  {o : RebalanceOrder}

/-- A value that fits is not clamped on the way. -/
theorem satMul_satAbs {q p : Int} (h : |q| * |p| ≤ i64Max) :
    satMul (satAbs q) (satAbs p) = |q| * |p| := by
  rcases eq_or_ne q 0 with rfl | hq
  · rw [abs_zero, Int.zero_mul]
    exact congrArg clampI64 (Int.zero_mul _)
  rcases eq_or_ne p 0 with rfl | hp
  · rw [abs_zero, Int.mul_zero]
    exact congrArg clampI64 (Int.mul_zero _)
  have hqpos : 1 ≤ |q| := Int.one_le_abs hq
  have hppos : 1 ≤ |p| := Int.one_le_abs hp
  have hmin : i64Min ≤ 0 := by decide
  have hqle : |q| ≤ |q| * |p| := le_mul_of_one_le_right (abs_nonneg q) hppos
  have hple : |p| ≤ |q| * |p| := le_mul_of_one_le_left (abs_nonneg p) hqpos
  have hqabs : satAbs q = |q| := clampI64_eq ⟨by omega, hqle.trans h⟩
  have hpabs : satAbs p = |p| := clampI64_eq ⟨by omega, hple.trans h⟩
  rw [satMul, hqabs, hpabs]
  exact clampI64_eq ⟨by omega, h⟩

theorem exposureOf_le (hmem : symbol ∈ heldOrOrdered currentQty orders) :
    exposureOf currentQty orders prices symbol ≤ grossExposure currentQty orders prices :=
  Finset.single_le_sum (fun _ _ ↦ mul_nonneg (abs_nonneg _) (abs_nonneg _)) hmem

/-- The value of a position, as the engine computes it. -/
def valueIn (batch : List BatchOrder) (symbol : Symbol) (qty : Int) : Int :=
  let priceMap : HashMap Symbol Int :=
    batch.foldl (fun m o ↦ m.insert o.symbol o.priceCents.toInt) .empty
  satMul (satAbs qty) (satAbs ((priceMap.get? symbol).getD 0))

theorem valueIn_eq (iteration : HashMap.Order Symbol)
    (hdistinct : (orders.map RebalanceOrder.symbol).Nodup)
    (hgross : grossExposure currentQty orders prices ≤ i64Max)
    (hmem : symbol ∈ heldOrOrdered currentQty orders) :
    valueIn (batchOf iteration orders prices currentQty) symbol
        (qtyAfter currentQty orders symbol) =
      exposureOf currentQty orders prices symbol := by
  by_cases hin : symbol ∈ (batchOf iteration orders prices currentQty).map BatchOrder.symbol
  · rw [valueIn, get?_priceMap iteration hdistinct hin]
    exact satMul_satAbs ((exposureOf_le hmem).trans hgross)
  · rw [mem_symbols_batchOf, not_or, not_not] at hin
    have hzero : qtyAfter currentQty orders symbol = 0 :=
      (qtyAfter_of_forall_ne fun o ho heq ↦ hin.1 ⟨o, ho, heq⟩).trans hin.2
    rw [exposureOf, hzero, abs_zero, Int.zero_mul]
    exact congrArg clampI64 (Int.zero_mul _)

/-- The exposure of a kind of positions, where nothing is clamped. -/
theorem exposure_eq (iteration : HashMap.Order Symbol)
    (hdistinct : (orders.map RebalanceOrder.symbol).Nodup)
    (hshares : ∀ o ∈ orders, 0 ≤ o.shares.toInt)
    (hfits : ∀ symbol, InI64 (qtyAfter currentQty orders symbol))
    (hgross : grossExposure currentQty orders prices ≤ i64Max) (keep : Int → Bool) :
    Risk.exposure iteration (batchOf iteration orders prices currentQty)
        (currentQty.iter iteration) keep =
      ∑ symbol ∈ heldOrOrdered currentQty orders with
        keep (qtyAfter currentQty orders symbol) = true,
        exposureOf currentQty orders prices symbol := by
  let batch := batchOf iteration orders prices currentQty
  let post := Risk.postQty batch (currentQty.iter iteration)
  have hget : ∀ k, post.get? k = _ := get?_postQty iteration prices hdistinct hshares hfits
  have hkeys (k : Symbol) : k ∈ heldOrOrdered currentQty orders ↔ (post.get? k).isSome := by
    rw [hget]
    split_ifs with hk
    · exact iff_of_true hk rfl
    · exact iff_of_false hk Bool.false_ne_true
  have hvalue (k : Symbol) (a : Int) (hk : post.get? k = some a) :
      valueIn batch k a = exposureOf currentQty orders prices k ∧
        a = qtyAfter currentQty orders k := by
    rw [hget] at hk
    split_ifs at hk with hmem
    obtain rfl := Option.some.inj hk
    exact ⟨valueIn_eq iteration hdistinct hgross hmem, rfl⟩
  have hnonneg : ∀ e ∈ (post.iter iteration).filter fun e ↦ keep e.2,
      0 ≤ valueIn batch e.1 e.2 := by
    intro e he
    rw [(hvalue e.1 e.2 (HashMap.mem_iter.mp (List.mem_filter.mp he).1)).1]
    exact mul_nonneg (abs_nonneg _) (abs_nonneg _)
  have hsum : (((post.iter iteration).filter fun e ↦ keep e.2).map fun e ↦
      valueIn batch e.1 e.2).sum = ∑ symbol ∈ heldOrOrdered currentQty orders with
        keep (qtyAfter currentQty orders symbol) = true,
        exposureOf currentQty orders prices symbol := by
    refine HashMap.sum_filter_iter hkeys fun k a hk ↦ ?_
    obtain ⟨hexposure, rfl⟩ := hvalue k a hk
    exact ⟨Iff.rfl, hexposure⟩
  have hle : _ ≤ grossExposure currentQty orders prices :=
    Finset.sum_le_sum_of_subset_of_nonneg (Finset.filter_subset
      (fun symbol ↦ keep (qtyAfter currentQty orders symbol) = true) _) fun _ _ _ ↦
        mul_nonneg (abs_nonneg _) (abs_nonneg _)
  have hfold : Risk.exposure iteration batch (currentQty.iter iteration) keep =
      (((post.iter iteration).filter fun e ↦ keep e.2).map fun e ↦
        valueIn batch e.1 e.2).foldl satAdd 0 := rfl
  rw [hfold, List.foldl_map, foldl_satAdd_of_nonneg hnonneg le_rfl, hsum, Int.zero_add]
  rw [hsum, Int.zero_add]
  exact hle.trans hgross

theorem hasShorts_iff (iteration : HashMap.Order Symbol) (prices : List (Symbol × Int64))
    (hdistinct : (orders.map RebalanceOrder.symbol).Nodup)
    (hshares : ∀ o ∈ orders, 0 ≤ o.shares.toInt)
    (hfits : ∀ symbol, InI64 (qtyAfter currentQty orders symbol)) :
    Risk.hasShorts iteration (batchOf iteration orders prices currentQty)
      (currentQty.iter iteration) = true ↔ SellsShort currentQty orders := by
  have hget := get?_postQty iteration prices hdistinct hshares hfits
  rw [Risk.hasShorts, Bool.and_eq_true, List.any_eq_true, List.any_eq_true]
  refine and_congr ?_ ?_
  · simp only [batchOf, List.mem_append, List.mem_map, decide_eq_true_eq]
    constructor
    · rintro ⟨b, ⟨o, ho, rfl⟩ | hb, hside⟩
      · exact .inl ⟨o, ho, hside⟩
      · obtain ⟨e, he, -, hnone, rfl⟩ := mem_seeds.mp hb
        have hneg : ¬ (0 : Int64) ≤ e.2 := fun hpos ↦ by
          rw [seedOf, if_pos hpos] at hside
          cases hside
        have hheld : heldQty currentQty e.1 = e.2.toInt := by rw [heldQty, he]; rfl
        rw [Int64.le_iff_toInt_le, Int64.toInt_zero, not_le] at hneg
        refine .inr ⟨e.1, HashMap.isSome_get?_iff.mp (by rw [he]; rfl), ?_, hnone⟩
        rwa [hheld]
    · rintro (⟨o, ho, hside⟩ | ⟨symbol, hmem, hneg, hnone⟩)
      · exact ⟨toBatch o, .inl ⟨o, ho, rfl⟩, hside⟩
      · obtain ⟨q, hq⟩ := Option.isSome_iff_exists.mp (HashMap.isSome_get?_iff.mpr hmem)
        have hheld : heldQty currentQty symbol = q.toInt := by rw [heldQty, hq]; rfl
        rw [hheld] at hneg
        have hnot : ¬ (0 : Int64) ≤ q := by
          rwa [Int64.le_iff_toInt_le, Int64.toInt_zero, not_le]
        have hne : q ≠ 0 := fun hzero ↦ by
          rw [hzero] at hneg
          exact absurd hneg (by decide)
        exact ⟨seedOf prices (symbol, q), .inr (mem_seeds.mpr ⟨(symbol, q), hq, hne, hnone, rfl⟩),
          if_neg hnot⟩
  · constructor
    · rintro ⟨⟨symbol, a⟩, hmem, hneg⟩
      have hpost := (hget symbol).symm.trans (HashMap.mem_iter.mp hmem)
      split_ifs at hpost with hin
      obtain rfl := Option.some.inj hpost
      exact ⟨symbol, hin, of_decide_eq_true hneg⟩
    · rintro ⟨symbol, hin, hneg⟩
      exact ⟨(symbol, _), HashMap.mem_iter.mpr ((hget symbol).trans (if_pos hin)),
        decide_eq_true hneg⟩

end Batch

/-! ## The verdicts -/

section Verdicts

variable {F : Type} [RiskF64 F]

/-- The checks of leverage and of short positions. -/
def verdicts (report : Risk.RiskReport) : List Risk.RiskCheck :=
  report.checks.filter fun c ↦ c.name ∈ ["Leverage", "Short selling", "Short exposure"]

/-- A check of another name is no verdict. -/
theorem verdicts_eq_nil {checks : List Risk.RiskCheck} {name : String}
    (hname : ∀ c ∈ checks, c.name = name)
    (hout : name ∉ ["Leverage", "Short selling", "Short exposure"]) : verdicts ⟨checks⟩ = [] := by
  refine List.filter_eq_nil_iff.mpr fun c hc ↦ ?_
  rwa [hname c hc, decide_eq_true_eq]

/-- What the engine says to an exposure. -/
def verdictsOn (config : Risk.RiskConfig F) (equity gross short : Int) (sellsShort : Prop)
    [Decidable sellsShort] : List Risk.RiskCheck :=
  [Risk.leverageCheck config gross equity,
    if sellsShort ∧ config.allowShort = false then Risk.shortSellingCheck
    else Risk.shortExposureCheck config short equity]

theorem verdicts_checkBatch (iteration : HashMap.Order Symbol) (config : Risk.RiskConfig F)
    (orders : List BatchOrder) (account : Risk.Account)
    (currentPositions : List (Symbol × Int64)) (targets : List (Symbol × F)) :
    verdicts (Risk.checkBatch iteration config orders account currentPositions targets) =
      verdictsOn config account.equityCents.toInt
        (Risk.exposure iteration orders currentPositions fun _ ↦ true)
        (Risk.exposure iteration orders currentPositions fun qty ↦ qty < 0)
        (Risk.hasShorts iteration orders currentPositions = true) := by
  have hvalue : verdicts ⟨orders.filterMap (Risk.maxOrderValueCheck config)⟩ = [] := by
    refine verdicts_eq_nil (fun c hc ↦ ?_) (by decide : "Max order value" ∉ _)
    obtain ⟨o, -, ho⟩ := List.mem_filterMap.mp hc
    rw [Risk.maxOrderValueCheck] at ho
    split_ifs at ho
    cases ho
    rfl
  have hbatch : verdicts ⟨(Risk.maxBatchValueCheck config orders).toList⟩ = [] := by
    refine verdicts_eq_nil (fun c hc ↦ ?_) (by decide : "Max batch value" ∉ _)
    rw [Risk.maxBatchValueCheck, Option.mem_toList] at hc
    split_ifs at hc
    cases hc
    rfl
  have hsize : verdicts ⟨orders.filterMap (Risk.maxTradeSizeCheck config)⟩ = [] := by
    refine verdicts_eq_nil (fun c hc ↦ ?_) (by decide : "Max trade size" ∉ _)
    obtain ⟨o, -, ho⟩ := List.mem_filterMap.mp hc
    rw [Risk.maxTradeSizeCheck] at ho
    split_ifs at ho
    cases ho
    rfl
  have happend (l l' : List Risk.RiskCheck) : verdicts ⟨l ++ l'⟩ = verdicts ⟨l⟩ ++ verdicts ⟨l'⟩ :=
    List.filter_append ..
  rw [Risk.checkBatch, happend, happend, happend, happend, hvalue, hbatch, hsize, List.append_nil,
    List.append_nil, List.append_nil, verdictsOn]
  split_ifs with hshort
  · rfl
  · rfl

/-- Nothing else is said of a symbol that is quoted at one price. -/
def Consistent (prices : List (Symbol × Int64)) : Prop :=
  ∀ e ∈ prices, ∀ e' ∈ prices, e.1 = e'.1 → e.2 = e'.2

section Rearranged

variable {orders orders' : List RebalanceOrder} {prices prices' : List (Symbol × Int64)}
  {currentQty : HashMap Symbol Int64} {symbol : Symbol}

theorem collected_perm (hprices : prices'.Perm prices) (hconsistent : Consistent prices)
    (symbol : Symbol) : collected prices' symbol = collected prices symbol := by
  cases hget : collected prices symbol with
  | none =>
      rw [← Option.isNone_iff_eq_none, collected_isNone_iff] at hget ⊢
      rwa [(hprices.map Prod.fst).mem_iff]
  | some p =>
      have hmem := mem_of_collected hget
      have hin : symbol ∈ prices'.map Prod.fst :=
        (hprices.map Prod.fst).mem_iff.mpr (List.mem_map_of_mem hmem)
      cases hget' : collected prices' symbol with
      | none => exact absurd hin (collected_isNone_iff.mp (Option.isNone_iff_eq_none.mpr hget'))
      | some p' =>
          have hmem' := hprices.mem_iff.mp (mem_of_collected hget')
          exact congrArg some (hconsistent _ hmem' _ hmem rfl)

theorem qtyAfter_perm (horders : orders'.Perm orders) :
    qtyAfter currentQty orders' = qtyAfter currentQty orders := by
  funext symbol
  rw [qtyAfter, qtyAfter, orderedShares, orderedShares, ((horders.filter _).map _).sum_eq]

theorem heldOrOrdered_perm (horders : orders'.Perm orders) :
    heldOrOrdered currentQty orders' = heldOrOrdered currentQty orders :=
  List.toFinset_eq_of_perm _ _ ((List.Perm.refl _).append (horders.map _))

theorem priceOf_perm (hdistinct : (orders.map RebalanceOrder.symbol).Nodup)
    (horders : orders'.Perm orders)
    (hprices : ∀ symbol, collected prices' symbol = collected prices symbol) :
    priceOf orders' prices' = priceOf orders prices := by
  funext symbol
  have hdistinct' : (orders'.map RebalanceOrder.symbol).Nodup :=
    (horders.map _).nodup_iff.mpr hdistinct
  by_cases hordered : ∃ o ∈ orders, o.symbol = symbol
  · obtain ⟨o, ho, rfl⟩ := hordered
    rw [priceOf_of_mem hdistinct ho, priceOf_of_mem hdistinct' (horders.mem_iff.mpr ho)]
  · have hnone : ∀ o ∈ orders, o.symbol ≠ symbol := fun o ho heq ↦ hordered ⟨o, ho, heq⟩
    have hnone' : ∀ o ∈ orders', o.symbol ≠ symbol := fun o ho ↦ hnone o (horders.mem_iff.mp ho)
    rw [priceOf_of_forall_ne hnone, priceOf_of_forall_ne hnone', hprices]

theorem sellsShort_perm (horders : orders'.Perm orders) :
    SellsShort currentQty orders' ↔ SellsShort currentQty orders := by
  simp only [SellsShort, qtyAfter_perm horders, heldOrOrdered_perm horders, horders.mem_iff]

theorem grossExposure_perm (hdistinct : (orders.map RebalanceOrder.symbol).Nodup)
    (horders : orders'.Perm orders)
    (hprices : ∀ symbol, collected prices' symbol = collected prices symbol) :
    grossExposure currentQty orders' prices' = grossExposure currentQty orders prices := by
  simp only [grossExposure, exposureOf, qtyAfter_perm horders, heldOrOrdered_perm horders,
    priceOf_perm hdistinct horders hprices]

theorem shortExposure_perm (hdistinct : (orders.map RebalanceOrder.symbol).Nodup)
    (horders : orders'.Perm orders)
    (hprices : ∀ symbol, collected prices' symbol = collected prices symbol) :
    shortExposure currentQty orders' prices' = shortExposure currentQty orders prices := by
  simp only [shortExposure, exposureOf, qtyAfter_perm horders, heldOrOrdered_perm horders,
    priceOf_perm hdistinct horders hprices]

end Rearranged

variable {orders orders' : List RebalanceOrder} {prices prices' : List (Symbol × Int64)}
  {currentQty : HashMap Symbol Int64} {config : RiskConfig F}

/-- Orders that are accepted are checked by their exact exposures. -/
theorem verdicts_checkRisk_eq (debug : RebalanceOrder → String) (iteration : HashMap.Order Symbol)
    (equityCents : Int64) (targets : List (Symbol × F))
    (hdistinct : (orders.map RebalanceOrder.symbol).Nodup)
    (h : Accepted currentQty orders prices config) :
    verdicts (checkRisk debug iteration orders equityCents targets prices currentQty config) =
      verdictsOn (adaptConfig config) equityCents.toInt (grossExposure currentQty orders prices)
        (shortExposure currentQty orders prices) (SellsShort currentQty orders) := by
  have hengine : RiskEngine.new (adaptConfig config) = .ok ⟨adaptConfig config, h.config⟩ := by
    rw [RiskEngine.new]
    split
    · rfl
    · next e he =>
        rw [h.config] at he
        cases he
  have hgross : Risk.exposure iteration (batchOf iteration orders prices currentQty)
      (currentQty.iter iteration) (fun _ ↦ true) = grossExposure currentQty orders prices := by
    rw [exposure_eq iteration hdistinct h.shares h.quantities h.gross, grossExposure]
    exact Finset.sum_congr (Finset.filter_true_of_mem fun _ _ ↦ rfl) fun _ _ ↦ rfl
  have hshort : Risk.exposure iteration (batchOf iteration orders prices currentQty)
      (currentQty.iter iteration) (fun qty ↦ qty < 0) =
        shortExposure currentQty orders prices := by
    rw [exposure_eq iteration hdistinct h.shares h.quantities h.gross, shortExposure]
    exact Finset.sum_congr (Finset.filter_congr fun _ _ ↦ decide_eq_true_iff) fun _ _ ↦ rfl
  rw [checkRisk, hengine]
  simp only [mapM_toBatchOrder debug h.shares]
  rw [verdicts_checkBatch, ← batchOf, hgross, hshort, verdictsOn, verdictsOn]
  simp only [hasShorts_iff iteration prices hdistinct h.shares h.quantities]

theorem Accepted.perm (h : Accepted currentQty orders prices config)
    (hdistinct : (orders.map RebalanceOrder.symbol).Nodup) (horders : orders'.Perm orders)
    (hprices : ∀ symbol, collected prices' symbol = collected prices symbol) :
    Accepted currentQty orders' prices' config where
  config := h.config
  shares o ho := h.shares o (horders.mem_iff.mp ho)
  quantities := by
    rw [qtyAfter_perm horders]
    exact h.quantities
  gross := by
    rw [grossExposure_perm hdistinct horders hprices]
    exact h.gross

/-- The verdicts come from the exact exposures, and do not depend on any order in which things
come, as long as no symbol has two quotes that differ. -/
theorem verdicts_checkRisk (debug : RebalanceOrder → String) (iteration : HashMap.Order Symbol)
    (equityCents : Int64) (targets : List (Symbol × F))
    (hdistinct : (orders.map RebalanceOrder.symbol).Nodup)
    (h : Accepted currentQty orders prices config) :
    verdicts (checkRisk debug iteration orders equityCents targets prices currentQty config) =
      verdictsOn (adaptConfig config) equityCents.toInt (grossExposure currentQty orders prices)
        (shortExposure currentQty orders prices) (SellsShort currentQty orders) ∧
    ∀ iteration' orders' prices', orders'.Perm orders → prices'.Perm prices →
      (prices' ≠ prices → Consistent prices) →
      verdicts (checkRisk debug iteration' orders' equityCents targets prices' currentQty config) =
        verdicts (checkRisk debug iteration orders equityCents targets prices currentQty
          config) := by
  refine ⟨verdicts_checkRisk_eq debug iteration equityCents targets hdistinct h, ?_⟩
  intro iteration' orders' prices' horders hprices hconsistent
  have hquotes (symbol : Symbol) : collected prices' symbol = collected prices symbol := by
    by_cases hsame : prices' = prices
    · rw [hsame]
    · exact collected_perm hprices (hconsistent hsame) symbol
  have hdistinct' : (orders'.map RebalanceOrder.symbol).Nodup :=
    (horders.map _).nodup_iff.mpr hdistinct
  rw [verdicts_checkRisk_eq debug iteration equityCents targets hdistinct h,
    verdicts_checkRisk_eq debug iteration' equityCents targets hdistinct'
      (h.perm hdistinct horders hquotes), grossExposure_perm hdistinct horders hquotes,
    shortExposure_perm hdistinct horders hquotes, verdictsOn, verdictsOn]
  simp only [sellsShort_perm horders]

end Verdicts

/-! ## Two quotes of one symbol -/

/-- The defaults of the rebalancer. -/
def RiskConfig.default {F : Type} [RiskF64 F] : RiskConfig F where
  maxPositionPct := F64.ofInt 1 / F64.ofInt 4
  maxLeverage := F64.ofInt 3 / F64.ofInt 2
  minTradeUsd := F64.ofInt 100
  maxTradeUsd := F64.ofInt 100000
  allowShort := true
  maxShortPct := F64.ofInt 3 / F64.ofInt 10

/-- A hundred shares of one symbol. -/
def hundredHeld : HashMap Symbol Int64 := HashMap.empty.insert .unknown 100

theorem inI64_heldQty (currentQty : HashMap Symbol Int64) (symbol : Symbol) :
    InI64 (heldQty currentQty symbol) := by
  rw [heldQty]
  cases currentQty.get? symbol with
  | none => decide
  | some q => exact inI64_toInt q

theorem accepted_hundredHeld {prices : List (Symbol × Int64)}
    (hgross : grossExposure hundredHeld [] prices ≤ i64Max) :
    Accepted hundredHeld [] prices (RiskConfig.default (F := Option Rat)) where
  config := by decide +kernel
  shares := List.forall_mem_nil _
  quantities symbol := by
    rw [qtyAfter_of_forall_ne (List.forall_mem_nil _)]
    exact inI64_heldQty hundredHeld symbol
  gross := hgross

/-- The exposure of a position that is not traded, at its quote. -/
theorem verdicts_hundredHeld :
    verdicts (checkRisk (fun _ ↦ "") .insertion [] 20000 [] [(.unknown, 100)] hundredHeld
        (RiskConfig.default (F := Option Rat))) =
      verdictsOn (adaptConfig (RiskConfig.default (F := Option Rat))) 20000 10000 0 False :=
  (@verdicts_checkRisk (Option Rat) _ [] [(.unknown, 100)] hundredHeld .default (fun _ ↦ "")
    .insertion 20000 [] List.nodup_nil (accepted_hundredHeld (by decide +kernel))).1.trans
      (by decide +kernel)

/-- Of two quotes of one symbol the last counts, so that their order makes a difference. -/
theorem verdicts_depend_on_quotes :
    let quotes : List (Symbol × Int64) := [(.unknown, 100), (.unknown, 200)]
    Accepted hundredHeld [] quotes (RiskConfig.default (F := Option Rat)) ∧
      (verdicts (checkRisk (fun _ ↦ "") .insertion [] 10000 [] quotes hundredHeld
          (RiskConfig.default (F := Option Rat)))).map Risk.RiskCheck.status ≠
        (verdicts (checkRisk (fun _ ↦ "") .insertion [] 10000 [] quotes.reverse hundredHeld
          (RiskConfig.default (F := Option Rat)))).map Risk.RiskCheck.status :=
  ⟨accepted_hundredHeld (by decide +kernel), by decide +kernel⟩

end Nanobook.Rebalancer.Pretrade
