import Nanobook.Lib.Steps
import Nanobook.Risk.Engine

/-!
# One order and a batch of one

The check of a single order casts, multiplies and adds where that of a batch saturates, and takes
the price with its sign.  The two agree as long as the value and the position after the order do not
leave the range of `i64`.
-/

namespace Nanobook.Risk

open Rebalancer (Symbol BrokerSide)

/-- A check of a name failed. -/
def RiskReport.Fails (report : RiskReport) (name : String) : Prop :=
  ∃ c ∈ report.checks, c.name = name ∧ c.status = .fail

instance (report : RiskReport) (name : String) : Decidable (report.Fails name) :=
  inferInstanceAs (Decidable (∃ c ∈ report.checks, _))

theorem failIf_eq_fail_iff {c : Prop} [Decidable c] : failIf c = .fail ↔ c := by
  rw [failIf]
  split_ifs with h <;> simp [h]

theorem fails_append {l l' : List RiskCheck} {name : String} :
    RiskReport.Fails ⟨l ++ l'⟩ name ↔ RiskReport.Fails ⟨l⟩ name ∨ RiskReport.Fails ⟨l'⟩ name := by
  simp only [RiskReport.Fails, List.mem_append, or_and_right, exists_or]

theorem fails_cons {c : RiskCheck} {l : List RiskCheck} {name : String} :
    RiskReport.Fails ⟨c :: l⟩ name ↔
      (c.name = name ∧ c.status = .fail) ∨ RiskReport.Fails ⟨l⟩ name := by
  simp only [RiskReport.Fails, List.mem_cons, or_and_right, exists_or, exists_eq_left]

theorem not_fails_nil {name : String} : ¬ RiskReport.Fails ⟨[]⟩ name := by
  simp [RiskReport.Fails]

/-- Checks of other names. -/
theorem not_fails_of_name {l : List RiskCheck} {name : String} (h : ∀ c ∈ l, c.name ≠ name) :
    ¬ RiskReport.Fails ⟨l⟩ name := fun ⟨c, hc, hname, _⟩ ↦ h c hc hname

/-! ## Values -/

/-- Below a bound, it makes no difference to a product that its factors are cut at the bound. -/
theorem lt_min_mul_min_iff {q p limit bound : Int} (hq : 0 ≤ q) (hp : 0 ≤ p) (hlo : 0 ≤ limit)
    (hhi : limit < bound) : limit < min q bound * min p bound ↔ limit < q * p := by
  have hbound : 0 ≤ bound := hlo.trans hhi.le
  constructor
  · intro h
    exact h.trans_le (Int.mul_le_mul (min_le_left _ _) (min_le_left _ _) (le_min hp hbound) hq)
  · intro h
    have hpos : 0 < q * p := hlo.trans_lt h
    have hq1 : 1 ≤ q := pos_of_mul_pos_left hpos hp
    have hp1 : 1 ≤ p := pos_of_mul_pos_right hpos hq
    rcases le_or_gt q bound with hqb | hqb
    · rcases le_or_gt p bound with hpb | hpb
      · rwa [min_eq_left hqb, min_eq_left hpb]
      · rw [min_eq_right hpb.le]
        exact hhi.trans_le (le_mul_of_one_le_left hbound (le_min hq1 (by omega)))
    · rw [min_eq_right hqb.le]
      exact hhi.trans_le (le_mul_of_one_le_right hbound (le_min hp1 (by omega)))

/-- What a batch takes for the value of an order is above a limit in range where the value is. -/
theorem lt_notional_iff (o : BatchOrder) {limit : Int} (hlo : 0 ≤ limit) (hhi : limit < i64Max) :
    limit < o.notional ↔ limit < o.quantity.toNat * |o.priceCents.toInt| := by
  have hq : (0 : Int) ≤ o.quantity.toNat := Int.natCast_nonneg _
  have hp := abs_nonneg o.priceCents.toInt
  have habs : satAbs o.priceCents.toInt = min |o.priceCents.toInt| i64Max := by
    rw [satAbs]
    generalize |o.priceCents.toInt| = p at *
    simp only [clampI64, i64Min, i64Max]
    omega
  rw [BatchOrder.notional, BatchOrder.qtyI64, habs, satMul, ← lt_min_mul_min_iff hq hp hlo hhi]
  have hcut : 0 ≤ min (o.quantity.toNat : Int) i64Max * min |o.priceCents.toInt| i64Max :=
    Int.mul_nonneg (le_min hq (by decide)) (le_min hp (by decide))
  generalize min (o.quantity.toNat : Int) i64Max * min |o.priceCents.toInt| i64Max = x at *
  simp only [clampI64, i64Min, i64Max] at *
  omega

theorem notional_le (o : BatchOrder) : o.notional ≤ i64Max := (inI64_clampI64 _).2

/-- A wrapped value is above a bound where its remainder is, and in the lower half. -/
theorem lt_wrapI64_iff (x : Int) {limit : Int} (hlo : 0 ≤ limit) :
    limit < wrapI64 x ↔ limit < x % 2 ^ 64 ∧ x % 2 ^ 64 < 2 ^ 63 := by
  simp only [wrapI64, Int.bmod_def]
  split <;> omega

/-- What a single order takes for its value is not above a limit in range unless that is. -/
theorem lt_mul_abs_of_lt_wrapI64 {q p limit : Int} (hq : 0 ≤ q) (hhi : limit ≤ i64Max)
    (h : limit < wrapI64 (q * p)) : limit < q * |p| := by
  by_contra hle
  have habs : |q * p| ≤ limit := by
    rw [abs_mul, abs_of_nonneg hq]
    exact not_lt.mp hle
  have hrange := abs_le.mp habs
  rw [wrapI64_eq ⟨by simp only [i64Min, i64Max] at *; omega, hrange.2.trans hhi⟩] at h
  exact absurd hrange.2 (not_le.mpr h)

/-! ## Positions -/

section Positions

variable {currentPositions : List (Symbol × Int64)} {symbol : Symbol} {side : BrokerSide}
  {quantity : UInt64} {priceCents : Int64}

/-- A batch finds the same position as a single order. -/
theorem get?_positions (hdistinct : (currentPositions.map Prod.fst).Nodup) :
    ((currentPositions.foldl (fun m p ↦ m.insert p.1 p.2.toInt) HashMap.empty).get? symbol).getD 0 =
      currentQty currentPositions symbol := by
  rw [currentQty]
  cases hfind : currentPositions.find? fun p ↦ p.1 = symbol with
  | none =>
      have hout : symbol ∉ currentPositions.map Prod.fst := by
        intro hmem
        obtain ⟨p, hp, rfl⟩ := List.mem_map.mp hmem
        simpa using List.find?_eq_none.mp hfind p hp
      exact congrArg (Option.getD · 0)
        (HashMap.get?_foldl_update_of_notMem (f := fun _ p ↦ p.2.toInt) hout HashMap.empty)
  | some p =>
      obtain rfl : p.1 = symbol := by simpa using List.find?_some hfind
      have hmem : p ∈ currentPositions := List.mem_of_find?_eq_some hfind
      exact congrArg (Option.getD · 0)
        (HashMap.get?_foldl_update_of_mem (f := fun _ p ↦ p.2.toInt) hdistinct hmem HashMap.empty)

theorem currentQty_nonneg (h : ∀ p ∈ currentPositions, p.1 = symbol → 0 ≤ p.2.toInt) :
    0 ≤ currentQty currentPositions symbol := by
  rw [currentQty]
  cases hfind : currentPositions.find? fun p ↦ p.1 = symbol with
  | none => exact le_rfl
  | some p =>
      exact h p (List.mem_of_find?_eq_some hfind) (by simpa using List.find?_some hfind)

theorem inI64_currentQty (currentPositions : List (Symbol × Int64)) (symbol : Symbol) :
    InI64 (currentQty currentPositions symbol) := by
  rw [currentQty]
  cases currentPositions.find? fun p ↦ p.1 = symbol with
  | none => decide
  | some p => exact ⟨p.2.le_toInt, Int.le_sub_one_of_lt p.2.toInt_lt⟩

/-- The position after a sale, in a batch. -/
theorem hasShorts_iff (order : HashMap.Order Symbol) {o : BatchOrder}
    (hdistinct : (currentPositions.map Prod.fst).Nodup)
    (hothers : ∀ p ∈ currentPositions, p.1 ≠ o.symbol → 0 ≤ p.2.toInt) :
    hasShorts order [o] currentPositions = true ↔
      o.side = .sell ∧ wrapI64 (currentQty currentPositions o.symbol - o.qtyI64) < 0 := by
  have hneg : satMul (-1) o.qtyI64 = -o.qtyI64 := by
    have hq : (0 : Int) ≤ o.quantity.toNat := Int.natCast_nonneg _
    rw [satMul, BatchOrder.qtyI64]
    simp only [clampI64, i64Min, i64Max]
    omega
  rw [hasShorts, Bool.and_eq_true, List.any_cons, List.any_nil, Bool.or_false, decide_eq_true_eq]
  refine and_congr_right fun hside ↦ ?_
  have hget (k : Symbol) : (postQty [o] currentPositions).get? k =
      if o.symbol = k then some (wrapI64 (currentQty currentPositions o.symbol - o.qtyI64))
      else (currentPositions.foldl (fun m p ↦ m.insert p.1 p.2.toInt) HashMap.empty).get? k := by
    rewrite [postQty, List.foldl_cons, List.foldl_nil, HashMap.get?_insert,
      get?_positions hdistinct, hside, Int.sub_eq_add_neg, ← hneg]
    rfl
  rw [List.any_eq_true]
  constructor
  · rintro ⟨⟨k, a⟩, hmem, ha⟩
    have ha : a < 0 := of_decide_eq_true ha
    have hk := (hget k).symm.trans (HashMap.mem_iter.mp hmem)
    split_ifs at hk with hsymbol
    · rwa [Option.some.inj hk]
    · have hqty : Option.getD _ 0 = currentQty currentPositions k := get?_positions hdistinct
      rw [hk, Option.getD_some] at hqty
      have hnonneg : 0 ≤ currentQty currentPositions k := currentQty_nonneg fun p hp hsym ↦
        hothers p hp (hsym ▸ Ne.symm hsymbol)
      omega
  · intro hshort
    refine ⟨(o.symbol, _), HashMap.mem_iter.mpr ((hget o.symbol).trans (if_pos rfl)), ?_⟩
    exact decide_eq_true hshort

/-- The position after a sale, for a single order. -/
theorem wrapI64_sub_eq (cur q : Int) :
    wrapI64 (cur + wrapI64 (-wrapI64 q)) = wrapI64 (cur - q) := by
  rw [wrapI64_neg_wrapI64, wrapI64, wrapI64, Int.add_bmod_bmod, Int.sub_eq_add_neg, wrapI64]

/-- A sale of a quantity beyond `i64::MAX`, for a single order. -/
theorem wrapI64_sub_neg_iff {cur q : Int} (hcur : InI64 cur) (hlo : i64Max < q) (hhi : q < 2 ^ 64) :
    wrapI64 (cur - q) < 0 ↔ q - 2 ^ 63 ≤ cur ∨ cur + 2 ^ 64 < q := by
  obtain ⟨hmin, hmax⟩ := hcur
  simp only [i64Min, i64Max] at hmin hmax hlo
  simp only [wrapI64, Int.bmod_def]
  split <;> omega

/-- A sale of a quantity beyond `i64::MAX`, in a batch. -/
theorem wrapI64_sub_i64Max_neg_iff {cur : Int} (hcur : InI64 cur) :
    wrapI64 (cur - i64Max) < 0 ↔ -1 ≤ cur ∧ cur < i64Max := by
  obtain ⟨hmin, hmax⟩ := hcur
  simp only [i64Min, i64Max] at hmin hmax
  simp only [wrapI64, Int.bmod_def, i64Max]
  split <;> omega

end Positions

/-! ## Reports -/

section Reports

variable {F : Type} [RiskF64 F] {config : RiskConfig F} {order : HashMap.Order Symbol}
  {symbol : Symbol} {side : BrokerSide} {quantity : UInt64} {priceCents : Int64}
  {account : Account} {currentPositions : List (Symbol × Int64)} {targetWeights : List (Symbol × F)}
  {o : BatchOrder}

theorem checkOrder_fails_orderValue_iff :
    (checkOrder config symbol side quantity priceCents account currentPositions).Fails
        "Max order value" ↔
      0 < config.maxOrderValueCents.toInt ∧
        config.maxOrderValueCents.toInt < wrapI64 (quantity.toNat * priceCents.toInt) := by
  simp only [RiskReport.Fails, checkOrder, shortSellingCheck, wrapI64_mul_wrapI64]
  split_ifs <;> simp [failIf_eq_fail_iff]

theorem checkOrder_fails_shortSelling_iff :
    (checkOrder config symbol side quantity priceCents account currentPositions).Fails
        "Short selling" ↔
      side = .sell ∧ wrapI64 (currentQty currentPositions symbol - quantity.toNat) < 0 ∧
        config.allowShort = false := by
  simp only [RiskReport.Fails, checkOrder, shortSellingCheck]
  cases side with
  | buy => simp
  | sell =>
      simp only [true_and, wrapI64_sub_eq]
      by_cases hshort : wrapI64 (currentQty currentPositions symbol - quantity.toNat) < 0 ∧
          config.allowShort = false
      · simp [hshort]
      · simp [iff_false_intro hshort]

/-- The only checks of a batch of one that can have these names. -/
theorem checkBatch_fails_iff {name : String}
    (hname : name = "Max order value" ∨ name = "Short selling") :
    (checkBatch order config [o] account currentPositions targetWeights).Fails name ↔
      (name = "Short selling" ∧ hasShorts order [o] currentPositions = true ∧
        config.allowShort = false) ∨
      RiskReport.Fails ⟨(maxOrderValueCheck config o).toList⟩ name := by
  have hshort (short equity : Int) : RiskReport.Fails
      ⟨[if hasShorts order [o] currentPositions ∧ config.allowShort = false then shortSellingCheck
        else shortExposureCheck config short equity]⟩ name ↔
      name = "Short selling" ∧ hasShorts order [o] currentPositions = true ∧
        config.allowShort = false := by
    rw [fails_cons, or_iff_left not_fails_nil]
    split_ifs with h
    · simp [shortSellingCheck, h, eq_comm]
    · rcases hname with rfl | rfl <;> simp [shortExposureCheck, h]
  have hbatch : ¬ RiskReport.Fails ⟨(maxBatchValueCheck config [o]).toList⟩ name := by
    refine not_fails_of_name fun c hc ↦ ?_
    rw [maxBatchValueCheck, Option.mem_toList] at hc
    split_ifs at hc
    rcases hname with rfl | rfl <;> cases hc <;> simp
  have hsize : ¬ RiskReport.Fails ⟨(maxTradeSizeCheck config o).toList⟩ name := by
    refine not_fails_of_name fun c hc ↦ ?_
    rw [maxTradeSizeCheck, Option.mem_toList] at hc
    split_ifs at hc
    rcases hname with rfl | rfl <;> cases hc <;> simp
  have hfirst (gross equity : Int) : ¬ RiskReport.Fails
      ⟨[maxPositionCheck config targetWeights, leverageCheck config gross equity]⟩ name := by
    refine not_fails_of_name fun c hc ↦ ?_
    rcases hname with rfl | rfl <;>
      simp only [List.mem_cons, List.not_mem_nil, or_false] at hc <;>
      rcases hc with rfl | rfl <;> simp [maxPositionCheck, leverageCheck]
  have hlast (count : RiskCheck) (hcount : count.name = "Order count") : ¬ RiskReport.Fails
      ⟨[count, weightAllocationCheck order targetWeights]⟩ name := by
    refine not_fails_of_name fun c hc ↦ ?_
    rcases hname with rfl | rfl <;>
      simp only [List.mem_cons, List.not_mem_nil, or_false] at hc <;>
      rcases hc with rfl | rfl <;> simp [hcount, weightAllocationCheck]
  have hone (f : BatchOrder → Option RiskCheck) : [o].filterMap f = (f o).toList := by
    cases h : f o <;> simp [h]
  have hthree (a b c : RiskCheck) : [a, b, c] = [a, b] ++ [c] := rfl
  simp only [checkBatch, hthree, fails_append, hone, hbatch, hsize, hfirst, hlast, hshort, or_false,
    false_or]

theorem checkBatch_fails_orderValue_iff :
    (checkBatch order config [o] account currentPositions targetWeights).Fails
        "Max order value" ↔
      0 < config.maxOrderValueCents.toInt ∧ config.maxOrderValueCents.toInt < o.notional := by
  rw [checkBatch_fails_iff (.inl rfl), or_iff_right (by simp), maxOrderValueCheck]
  split_ifs with h
  · simp [RiskReport.Fails, h]
  · simp [RiskReport.Fails, h]

theorem checkBatch_fails_shortSelling_iff :
    (checkBatch order config [o] account currentPositions targetWeights).Fails "Short selling" ↔
      hasShorts order [o] currentPositions = true ∧ config.allowShort = false := by
  have hvalue : ¬ RiskReport.Fails ⟨(maxOrderValueCheck config o).toList⟩ "Short selling" := by
    rw [maxOrderValueCheck]
    split_ifs <;> simp [RiskReport.Fails]
  rw [checkBatch_fails_iff (.inr rfl), or_iff_left hvalue, and_iff_right rfl]

end Reports

/-! ## Agreement -/

theorem rejectIf_eq_ok {c : Prop} [Decidable c] {message : String} {u : Unit}
    (h : rejectIf c message = .ok u) : ¬ c := by
  intro hc
  rw [rejectIf, if_pos hc] at h
  cases h

/-- The configuration was checked when the engine was made. -/
theorem RiskEngine.maxOrderValue_nonneg {F : Type} [RiskF64 F] (engine : RiskEngine F) :
    0 ≤ engine.config.maxOrderValueCents.toInt := by
  have h := engine.valid
  simp only [RiskConfig.validate, Steps.bind_eq_ok] at h
  obtain ⟨_, -, _, -, _, -, _, -, _, -, _, hvalue, -⟩ := h
  have hnonneg := rejectIf_eq_ok hvalue
  rw [Int64.lt_iff_toInt_lt, Int64.toInt_zero] at hnonneg
  omega

section Agreement

variable {F : Type} [RiskF64 F] (config : RiskConfig F) (order : HashMap.Order Symbol)
  (symbol : Symbol) (side : BrokerSide) (quantity : UInt64) (priceCents : Int64)
  (account : Account) (currentPositions : List (Symbol × Int64))
  (targetWeights : List (Symbol × F))

/-- The checks of a single order and of a batch of it alone come to the same. -/
structure Agrees : Prop where
  orderValue :
    (checkOrder config symbol side quantity priceCents account currentPositions).Fails
        "Max order value" ↔
      (checkBatch order config [⟨symbol, side, quantity, priceCents⟩] account currentPositions
        targetWeights).Fails "Max order value"
  shortSelling : (∀ p ∈ currentPositions, p.1 ≠ symbol → 0 ≤ p.2.toInt) →
    ((checkOrder config symbol side quantity priceCents account currentPositions).Fails
        "Short selling" ↔
      (checkBatch order config [⟨symbol, side, quantity, priceCents⟩] account currentPositions
        targetWeights).Fails "Short selling")
  exact : config.maxOrderValueCents.toInt < i64Max →
    ((checkOrder config symbol side quantity priceCents account currentPositions).Fails
        "Max order value" ↔
      0 < config.maxOrderValueCents.toInt ∧
        config.maxOrderValueCents.toInt < quantity.toNat * |priceCents.toInt|) ∧
    ((checkBatch order config [⟨symbol, side, quantity, priceCents⟩] account currentPositions
        targetWeights).Fails "Max order value" ↔
      0 < config.maxOrderValueCents.toInt ∧
        config.maxOrderValueCents.toInt < quantity.toNat * |priceCents.toInt|)

/-- A limit, what the two take for the value, and the value. -/
theorem values_agree_iff {limit single batch value : Int} (hlo : 0 ≤ limit) (hhi : limit ≤ i64Max)
    (hsingle : single ≤ i64Max) (hbatch : batch ≤ i64Max)
    (hexact : limit < i64Max → (limit < batch ↔ limit < value))
    (himp : limit < single → limit < value) :
    ((0 < limit ∧ limit < single ↔ 0 < limit ∧ limit < batch) ∧
      (limit < i64Max → (0 < limit ∧ limit < single ↔ 0 < limit ∧ limit < value) ∧
        (0 < limit ∧ limit < batch ↔ 0 < limit ∧ limit < value))) ↔
      limit = 0 ∨ limit = i64Max ∨ value ≤ limit ∨ limit < single := by
  omega

/-- Whether a sale makes a short position, with and without cutting its quantity at the range. -/
theorem sales_agree_iff {cur q : Int} (hcur : InI64 cur) (hhi : q < 2 ^ 64) :
    (wrapI64 (cur - q) < 0 ↔ wrapI64 (cur - min q i64Max) < 0) ↔
      q ≤ i64Max ∨ ((q - 2 ^ 63 ≤ cur ∨ cur + 2 ^ 64 < q) ↔ -1 ≤ cur ∧ cur < i64Max) := by
  rcases le_or_gt q i64Max with hle | hlt
  · rw [min_eq_left hle]
    exact iff_of_true Iff.rfl (.inl hle)
  · rw [min_eq_right hlt.le, wrapI64_sub_neg_iff hcur hlt hhi, wrapI64_sub_i64Max_neg_iff hcur,
      or_iff_right (not_le.mpr hlt)]

/-- They agree where the value is not above the limit, or is above it again after it wrapped, and a
quantity beyond `i64::MAX` is not sold, or makes a short position either way. -/
theorem agrees_iff (engine : RiskEngine F) (hdistinct : (currentPositions.map Prod.fst).Nodup) :
    Agrees engine.config order symbol side quantity priceCents account currentPositions
        targetWeights ↔
      (engine.config.maxOrderValueCents.toInt = 0 ∨
        engine.config.maxOrderValueCents.toInt = i64Max ∨
        quantity.toNat * |priceCents.toInt| ≤ engine.config.maxOrderValueCents.toInt ∨
        (engine.config.maxOrderValueCents.toInt < quantity.toNat * priceCents.toInt % 2 ^ 64 ∧
          quantity.toNat * priceCents.toInt % 2 ^ 64 < 2 ^ 63)) ∧
      ((∀ p ∈ currentPositions, p.1 ≠ symbol → 0 ≤ p.2.toInt) →
        side = .buy ∨ engine.config.allowShort = true ∨ quantity.toNat ≤ i64Max ∨
          ((quantity.toNat - 2 ^ 63 ≤ currentQty currentPositions symbol ∨
              currentQty currentPositions symbol + 2 ^ 64 < quantity.toNat) ↔
            -1 ≤ currentQty currentPositions symbol ∧
              currentQty currentPositions symbol < i64Max)) := by
  have hq : (0 : Int) ≤ quantity.toNat := Int.natCast_nonneg _
  have hmax := engine.maxOrderValue_nonneg
  have hmaxle : engine.config.maxOrderValueCents.toInt ≤ i64Max :=
    Int.le_sub_one_of_lt engine.config.maxOrderValueCents.toInt_lt
  have hvalues := values_agree_iff hmax hmaxle (inI64_wrapI64 _).2
    (notional_le ⟨symbol, side, quantity, priceCents⟩)
    (lt_notional_iff ⟨symbol, side, quantity, priceCents⟩ hmax)
    (lt_mul_abs_of_lt_wrapI64 hq hmaxle)
  have hsales := sales_agree_iff (inI64_currentQty currentPositions symbol)
    (Int.ofNat_lt.mpr quantity.toNat_lt)
  rw [← lt_wrapI64_iff _ hmax, ← hvalues]
  have hshorts (hothers : ∀ p ∈ currentPositions, p.1 ≠ symbol → 0 ≤ p.2.toInt) :
      ((checkOrder engine.config symbol side quantity priceCents account currentPositions).Fails
          "Short selling" ↔
        (checkBatch order engine.config [⟨symbol, side, quantity, priceCents⟩] account
          currentPositions targetWeights).Fails "Short selling") ↔
      side = .buy ∨ engine.config.allowShort = true ∨ quantity.toNat ≤ i64Max ∨
        ((quantity.toNat - 2 ^ 63 ≤ currentQty currentPositions symbol ∨
            currentQty currentPositions symbol + 2 ^ 64 < quantity.toNat) ↔
          -1 ≤ currentQty currentPositions symbol ∧
            currentQty currentPositions symbol < i64Max) := by
    rw [← hsales, checkOrder_fails_shortSelling_iff, checkBatch_fails_shortSelling_iff,
      hasShorts_iff order hdistinct hothers]
    simp only [BatchOrder.qtyI64]
    cases side <;> cases engine.config.allowShort <;> simp
  constructor
  · rintro ⟨hvalue, hshort, hexact⟩
    rw [checkOrder_fails_orderValue_iff, checkBatch_fails_orderValue_iff] at hvalue
    rw [checkOrder_fails_orderValue_iff, checkBatch_fails_orderValue_iff] at hexact
    exact ⟨⟨hvalue, hexact⟩, fun hothers ↦ (hshorts hothers).mp (hshort hothers)⟩
  · rintro ⟨⟨hvalue, hexact⟩, hshort⟩
    refine ⟨?_, fun hothers ↦ (hshorts hothers).mpr (hshort hothers), ?_⟩
    · rwa [checkOrder_fails_orderValue_iff, checkBatch_fails_orderValue_iff]
    · rwa [checkOrder_fails_orderValue_iff, checkBatch_fails_orderValue_iff]

end Agreement

/-! ## Samples -/

/-- The decimal text of a number, halves rounded up. -/
def decimalText (n : Nat) (a : Rat) : String :=
  let scaled := (2 * a.num.natAbs * 10 ^ n + a.den) / (2 * a.den)
  let digits := (toString scaled).toList
  let padded := List.replicate (n + 1 - digits.length) '0' ++ digits
  (if a.num < 0 then "-" else "") ++ String.ofList (padded.take (padded.length - n)) ++
    if n = 0 then "" else "." ++ String.ofList (padded.drop (padded.length - n))

/-- Exact numbers. -/
instance : RiskF64 (Option Rat) where
  abs := Option.map fun a ↦ |a|
  infinity := none
  negZero := some 0
  display x := (x.map (decimalText 2)).getD "NaN"
  fixed n x := (x.map (decimalText n)).getD "NaN"

/-- The default limits. -/
def defaultEngine : RiskEngine (Option Rat) := ⟨.default, by decide +kernel⟩

def aapl : Symbol := (Symbol.tryNew "AAPL").getD .unknown

def sampleAccount : Account := ⟨10000000, 10000000, 10000000, 0⟩

/-- A thousand shares at $150 are above the limit of $100,000. -/
theorem agrees_iff_thousandAapl :
    (checkOrder defaultEngine.config aapl .buy 1000 15000 sampleAccount []).Fails
      "Max order value" ∧
    Agrees defaultEngine.config .insertion aapl .buy 1000 15000 sampleAccount [] [] :=
  ⟨by decide +kernel, (agrees_iff .insertion aapl .buy 1000 15000 sampleAccount [] []
    defaultEngine List.nodup_nil).mpr
      ⟨.inr (.inr (.inr ⟨by decide +kernel, by decide +kernel⟩)), fun _ ↦ .inl rfl⟩⟩

/-- More shares than an `i64` can count are too few for the limit. -/
theorem not_agrees :
    ¬ ∀ (engine : RiskEngine (Option Rat)) (order : HashMap.Order Symbol) (symbol : Symbol)
      (side : BrokerSide) (quantity : UInt64) (priceCents : Int64) (account : Account)
      (currentPositions : List (Symbol × Int64)) (targetWeights : List (Symbol × Option Rat)),
      (currentPositions.map Prod.fst).Nodup →
      Agrees engine.config order symbol side quantity priceCents account currentPositions
        targetWeights := by
  intro h
  have hvalue := (h defaultEngine .insertion aapl .buy 9223372036854775809 1 sampleAccount [] []
    List.nodup_nil).orderValue
  revert hvalue
  decide +kernel

end Nanobook.Risk
