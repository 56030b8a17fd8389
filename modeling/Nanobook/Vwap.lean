import Nanobook.Lib.WeightedMean
import Nanobook.Portfolio.Arithmetic

/-!
# The volume-weighted average price

`Trade::vwap` divides the sum of the notionals by the sum of the quantities.  The notionals and
their sum are checked, but the quantities are added up without a check and then cast to `i64`, so
the divisor may be off by a multiple of `2 ^ 64`.
-/

namespace Nanobook

/-- `price × quantity` does not fit into an `i64`. -/
structure NotionalOverflow where
  price : Price
  quantity : Quantity
deriving DecidableEq, Repr

/-- `checked_notional`: a quantity past `i64::MAX` is an overflow whatever the price. -/
def checkedNotional (price : Price) (quantity : Quantity) : Except NotionalOverflow Int :=
  if i64Max < quantity then .error ⟨price, quantity⟩
  else if InI64 (price * quantity) then .ok (price * quantity)
  else .error ⟨price, quantity⟩

namespace Trade

def notional (trade : Trade) : Except NotionalOverflow Int :=
  checkedNotional trade.price trade.quantity

/-- The running sum with one more notional, as long as both fit. -/
def addNotional (totalNotional : Int) (trade : Trade) : Option Int := do
  let n ← trade.notional.toOption
  if InI64 (totalNotional + n) then some (totalNotional + n) else none

/-- `none` where the division panics: a quotient of `i64::MIN` and `-1` does not fit. -/
def vwap (trades : List Trade) : Option (Option Price) :=
  if trades.isEmpty then some none
  else
    let totalQty := sumU64 (trades.map quantity)
    if totalQty = 0 then some none
    else
      match trades.foldlM addNotional 0 with
      | none => some none
      | some totalNotional =>
          let divisor := wrapI64 totalQty
          if totalNotional = i64Min ∧ divisor = -1 then none
          else some (some (totalNotional.tdiv divisor))

/-! ## Exact sums -/

/-- The price and the quantity are an `i64` and a `u64`. -/
def InRange (trade : Trade) : Prop := InI64 trade.price ∧ trade.quantity ≤ u64Max

def totalQuantity (trades : List Trade) : Int :=
  WeightedMean.totalWeight trades fun t ↦ (t.quantity : Int)

def totalNotional (trades : List Trade) : Int :=
  WeightedMean.weightedSum trades (fun t ↦ (t.quantity : Int)) price

/-- Each notional fits, and so does each sum of the first of them. -/
def NotionalsFit (trades : List Trade) : Prop :=
  (∀ t ∈ trades, (t.quantity : Int) ≤ i64Max ∧ InI64 (t.price * t.quantity)) ∧
    ∀ k ≤ trades.length, InI64 (totalNotional (trades.take k))

variable {trades : List Trade}

theorem totalNotional_cons (t : Trade) (trades : List Trade) :
    totalNotional (t :: trades) = t.price * t.quantity + totalNotional trades := by
  simp only [totalNotional, WeightedMean.weightedSum, List.map_cons, List.sum_cons]

theorem notional_eq_ok_iff {t : Trade} {n : Int} : t.notional = .ok n ↔
    ((t.quantity : Int) ≤ i64Max ∧ InI64 (t.price * t.quantity)) ∧ n = t.price * t.quantity := by
  simp only [notional, checkedNotional]
  split_ifs with hlarge hfit
  · simp [hlarge]
  · simp [not_lt.mp hlarge, hfit, eq_comm]
  · simp [hfit]

theorem addNotional_eq_some_iff {acc n : Int} {t : Trade} : addNotional acc t = some n ↔
    ((t.quantity : Int) ≤ i64Max ∧ InI64 (t.price * t.quantity)) ∧
      InI64 (acc + t.price * t.quantity) ∧ n = acc + t.price * t.quantity := by
  cases h : t.notional with
  | error e =>
      have hfit : ¬ ((t.quantity : Int) ≤ i64Max ∧ InI64 (t.price * t.quantity)) := fun hfit ↦ by
        rw [notional_eq_ok_iff.mpr ⟨hfit, rfl⟩] at h
        cases h
      simp [addNotional, h, Except.toOption, hfit]
  | ok m =>
      obtain ⟨hfit, rfl⟩ := notional_eq_ok_iff.mp h
      simp [addNotional, h, Except.toOption, hfit, eq_comm]

/-- The checked sum is the exact one, and it is there just where everything on the way fits. -/
theorem foldlM_addNotional {acc n : Int} (hacc : InI64 acc) :
    trades.foldlM addNotional acc = some n ↔
      ((∀ t ∈ trades, (t.quantity : Int) ≤ i64Max ∧ InI64 (t.price * t.quantity)) ∧
        ∀ k ≤ trades.length, InI64 (acc + totalNotional (trades.take k))) ∧
      n = acc + totalNotional trades := by
  induction trades generalizing acc with
  | nil => simp [totalNotional, WeightedMean.weightedSum, hacc, eq_comm]
  | cons t trades ih =>
      have hsum (k : Nat) : acc + totalNotional ((t :: trades).take (k + 1)) =
          acc + t.price * t.quantity + totalNotional (trades.take k) := by
        rw [List.take_succ_cons, totalNotional_cons, Int.add_assoc]
      rw [List.foldlM_cons, Option.bind_eq_bind, Option.bind_eq_some_iff, totalNotional_cons,
        ← Int.add_assoc, List.forall_mem_cons]
      constructor
      · rintro ⟨m, hm, hrest⟩
        obtain ⟨hfit, hin, rfl⟩ := addNotional_eq_some_iff.mp hm
        obtain ⟨⟨hall, hrunning⟩, rfl⟩ := (ih hin).mp hrest
        refine ⟨⟨⟨hfit, hall⟩, fun k hk ↦ ?_⟩, rfl⟩
        cases k with
        | zero => simpa [totalNotional, WeightedMean.weightedSum] using hacc
        | succ k =>
            rw [hsum]
            exact hrunning k (Nat.le_of_succ_le_succ hk)
      · rintro ⟨⟨⟨hfit, hall⟩, hrunning⟩, rfl⟩
        have hstep (k : Nat) (hk : k ≤ trades.length) :
            InI64 (acc + t.price * t.quantity + totalNotional (trades.take k)) := by
          rw [← hsum]
          exact hrunning (k + 1) (Nat.succ_le_succ hk)
        have hin : InI64 (acc + t.price * t.quantity) := by
          simpa [totalNotional, WeightedMean.weightedSum] using hstep 0 (Nat.zero_le _)
        exact ⟨_, addNotional_eq_some_iff.mpr ⟨hfit, hin, rfl⟩, (ih hin).mpr ⟨⟨hall, hstep⟩, rfl⟩⟩

theorem sumU64_eq (trades : List Trade) :
    (sumU64 (trades.map quantity) : Int) = totalQuantity trades % 2 ^ 64 := by
  have hcast : totalQuantity trades = ((trades.map quantity).sum : Nat) := by
    induction trades with
    | nil => rfl
    | cons t trades ih =>
        simp only [totalQuantity, WeightedMean.totalWeight, List.map_cons, List.sum_cons] at ih ⊢
        rw [ih, Nat.cast_add]
  rw [hcast, sumU64, Int.natCast_emod]
  rfl

/-- What a price that is returned is, and when one is. -/
theorem vwap_eq_some_iff {p : Price} : vwap trades = some (some p) ↔
    ¬ (2 : Int) ^ 64 ∣ totalQuantity trades ∧ NotionalsFit trades ∧
      ¬ (totalNotional trades = i64Min ∧ wrapI64 (totalQuantity trades) = -1) ∧
      p = (totalNotional trades).tdiv (wrapI64 (totalQuantity trades)) := by
  have hfold (n : Int) : trades.foldlM addNotional 0 = some n ↔
      NotionalsFit trades ∧ n = totalNotional trades := by
    rw [foldlM_addNotional (by decide)]
    simp only [Int.zero_add, NotionalsFit]
  have hwrap : wrapI64 (sumU64 (trades.map quantity)) = wrapI64 (totalQuantity trades) := by
    rw [sumU64_eq, wrapI64, wrapI64]
    exact Int.emod_bmod ..
  have hzero : sumU64 (trades.map quantity) = 0 ↔ (2 : Int) ^ 64 ∣ totalQuantity trades := by
    rw [Int.dvd_iff_emod_eq_zero, ← sumU64_eq, Int.natCast_eq_zero]
  simp only [vwap, hwrap]
  split_ifs with hempty hsum
  · have hnil : trades = [] := List.isEmpty_iff.mp hempty
    subst hnil
    exact iff_of_false (by simp) fun h ↦ h.1 (dvd_zero _)
  · exact iff_of_false (by simp) fun h ↦ h.1 (hzero.mp hsum)
  · rw [hzero] at hsum
    cases hn : trades.foldlM addNotional 0 with
    | none =>
        refine iff_of_false (by simp) fun h ↦ ?_
        rw [(hfold _).mpr ⟨h.2.1, rfl⟩] at hn
        cases hn
    | some n =>
        obtain ⟨hfit, rfl⟩ := (hfold n).mp hn
        by_cases hpanic : totalNotional trades = i64Min ∧ wrapI64 (totalQuantity trades) = -1
        · exact iff_of_false (by simp [hpanic]) fun h ↦ h.2.2.1 hpanic
        · simp only [if_neg hpanic, Option.some.injEq]
          exact ⟨fun h ↦ ⟨hsum, hfit, hpanic, h.symm⟩, fun h ↦ h.2.2.2.symm⟩

/-! ## Between the prices -/

/-- The smallest and the largest price of a trade with a positive quantity. -/
def Between (trades : List Trade) (p : Price) : Prop :=
  (∃ t ∈ trades, 0 < t.quantity ∧ t.price ≤ p) ∧ ∃ t ∈ trades, 0 < t.quantity ∧ p ≤ t.price

/-- The quantities do not fit together into an `i64`, and with their sum off by a multiple of
`2 ^ 64` the notional is still within one unit of the prices. -/
def BetweenByChance (trades : List Trade) : Prop :=
  let divisor := wrapI64 (totalQuantity trades)
  (∃ t ∈ trades, 0 < t.quantity ∧
      (t.price - 1) * |divisor| < totalNotional trades * divisor.sign) ∧
    ∃ t ∈ trades, 0 < t.quantity ∧
      totalNotional trades * divisor.sign < (t.price + 1) * |divisor|

variable {p : Price}

theorem quantity_nonneg (trades : List Trade) : ∀ t ∈ trades, 0 ≤ (t.quantity : Int) := fun t _ ↦
  Int.natCast_nonneg t.quantity

/-- A quotient by the exact sum of the quantities is between the prices. -/
theorem between_of_fits (hpos : 0 < totalQuantity trades) :
    Between trades ((totalNotional trades).tdiv (totalQuantity trades)) := by
  obtain ⟨t, ht, hqty, hle⟩ :=
    WeightedMean.exists_mul_le price (quantity_nonneg trades) hpos
  obtain ⟨t', ht', hqty', hle'⟩ :=
    WeightedMean.exists_le_mul price (quantity_nonneg trades) hpos
  exact ⟨⟨t, ht, Int.natCast_pos.mp hqty, WeightedMean.le_tdiv_of_mul_le hpos hle⟩,
    ⟨t', ht', Int.natCast_pos.mp hqty', WeightedMean.tdiv_le_of_le_mul hpos hle'⟩⟩

theorem tdiv_eq_tdiv_abs (x d : Int) : x.tdiv d = (x * d.sign).tdiv |d| := by
  rcases lt_trichotomy d 0 with hneg | rfl | hpos
  · rw [Int.sign_eq_neg_one_of_neg hneg, abs_of_neg hneg, Int.mul_neg, Int.mul_one,
      Int.neg_tdiv_neg]
  · simp
  · rw [Int.sign_eq_one_of_pos hpos, abs_of_pos hpos, Int.mul_one]

/-- Past `i64::MAX` a notional that fits leaves no trade whose price is not negative out of one
direction or the other. -/
theorem between_iff_byChance (hlarge : i64Max < totalQuantity trades)
    (hfit : InI64 (totalNotional trades)) (hdivisor : wrapI64 (totalQuantity trades) ≠ 0) :
    Between trades ((totalNotional trades).tdiv (wrapI64 (totalQuantity trades))) ↔
      BetweenByChance trades := by
  have hpos : 0 < totalQuantity trades := lt_trans (by decide) hlarge
  have habs : 0 < |wrapI64 (totalQuantity trades)| := abs_pos.mpr hdivisor
  obtain ⟨t, ht, hqty, hle⟩ :=
    WeightedMean.exists_mul_le price (quantity_nonneg trades) hpos
  obtain ⟨t', ht', hqty', hle'⟩ :=
    WeightedMean.exists_le_mul price (quantity_nonneg trades) hpos
  change t.price * totalQuantity trades ≤ totalNotional trades at hle
  change totalNotional trades ≤ t'.price * totalQuantity trades at hle'
  have hprice : t.price ≤ 0 := by
    by_contra hprice
    have hone : totalQuantity trades ≤ t.price * totalQuantity trades :=
      le_mul_of_one_le_left hpos.le (Int.add_one_le_of_lt (not_le.mp hprice))
    exact absurd (hone.trans (hle.trans hfit.2)) (not_le.mpr hlarge)
  -- the one price that cannot be negative is the largest, unless the sums are both at their limits
  have hprice' : 0 ≤ t'.price ∨
      0 ≤ totalNotional trades * (wrapI64 (totalQuantity trades)).sign := by
    rcases le_or_gt 0 t'.price with hnonneg | hneg
    · exact .inl hnonneg
    · have hone : t'.price * totalQuantity trades ≤ -1 * totalQuantity trades :=
        mul_le_mul_of_nonneg_right (Int.le_sub_one_of_lt hneg) hpos.le
      have hle : totalNotional trades ≤ -1 * totalQuantity trades := hle'.trans hone
      have hlow := hfit.1
      simp only [i64Min, i64Max] at hlow hlarge
      have hqty : totalQuantity trades = 2 ^ 63 := by omega
      have hsum : totalNotional trades = -2 ^ 63 := by omega
      rw [hqty, hsum]
      exact .inr (by decide)
  rw [Between, tdiv_eq_tdiv_abs]
  exact and_congr
    (WeightedMean.exists_le_tdiv_iff ⟨t, ht, Int.natCast_pos.mp hqty, .inl hprice⟩ habs)
    (WeightedMean.exists_tdiv_le_iff ⟨t', ht', Int.natCast_pos.mp hqty', hprice'⟩ habs)

/-- A price that is returned is between the prices of the trades that count, just where the
quantities fit together into an `i64`, or no price is returned, or by chance. -/
theorem vwap_between_iff (trades : List Trade) :
    (∀ p, vwap trades = some (some p) → Between trades p) ↔
      totalQuantity trades ≤ i64Max ∨ (2 : Int) ^ 64 ∣ totalQuantity trades ∨
        ¬ NotionalsFit trades ∨
        (totalNotional trades = i64Min ∧ wrapI64 (totalQuantity trades) = -1) ∨
        BetweenByChance trades := by
  have hnonneg : 0 ≤ totalQuantity trades :=
    WeightedMean.totalWeight_nonneg (quantity_nonneg trades)
  have hfits (hsmall : totalQuantity trades ≤ i64Max) :
      wrapI64 (totalQuantity trades) = totalQuantity trades :=
    wrapI64_eq ⟨(by decide : i64Min ≤ 0).trans hnonneg, hsmall⟩
  have hdivisor (hdvd : ¬ (2 : Int) ^ 64 ∣ totalQuantity trades) :
      wrapI64 (totalQuantity trades) ≠ 0 := fun hzero ↦
    hdvd (Int.dvd_of_bmod_eq_zero hzero)
  have hrunning (hfit : NotionalsFit trades) : InI64 (totalNotional trades) := by
    have hall := hfit.2 trades.length le_rfl
    rwa [List.take_length] at hall
  constructor
  · intro h
    by_contra hcontra
    simp only [not_or, not_not, not_le] at hcontra
    obtain ⟨hlarge, hdvd, hfit, hpanic, hchance⟩ := hcontra
    refine hchance ((between_iff_byChance hlarge (hrunning hfit) (hdivisor hdvd)).mp (h _ ?_))
    exact vwap_eq_some_iff.mpr ⟨hdvd, hfit, hpanic, rfl⟩
  · intro h p hp
    obtain ⟨hdvd, hfit, hpanic, rfl⟩ := vwap_eq_some_iff.mp hp
    rcases le_or_gt (totalQuantity trades) i64Max with hsmall | hlarge
    · rw [hfits hsmall]
      refine between_of_fits (lt_of_le_of_ne hnonneg fun hzero ↦ hdvd ?_)
      rw [← hzero]
      exact dvd_zero _
    · have hchance : BetweenByChance trades := by
        rcases h with hsmall | hdvd' | hfit' | hpanic' | hchance
        · exact absurd hsmall (not_le.mpr hlarge)
        · exact absurd hdvd' hdvd
        · exact absurd hfit hfit'
        · exact absurd hpanic' hpanic
        · exact hchance
      exact (between_iff_byChance hlarge (hrunning hfit) (hdivisor hdvd)).mpr hchance

/-- A trade of all the shares there can be for nothing, and one of half as many at a price of 2: the
total is negative as an `i64`, and the average of prices that are not is `-1`. -/
def halfForNothing : List Trade :=
  [⟨1, 0, 2 ^ 63 - 1, 2, 1, .buy, 3⟩, ⟨2, 2, 2 ^ 62 - 1, 4, 3, .buy, 5⟩]

theorem not_vwap_between :
    ¬ ∀ trades : List Trade, (∀ t ∈ trades, t.InRange) →
      ∀ p, vwap trades = some (some p) → Between trades p := by
  intro h
  have hrange : ∀ t ∈ halfForNothing, t.InRange := by
    simp only [halfForNothing, InRange, List.forall_mem_cons, List.not_mem_nil, false_implies,
      implies_true, and_true]
    decide
  obtain ⟨⟨t, ht, -, hle⟩, -⟩ := h halfForNothing hrange (-1) (by decide)
  simp only [halfForNothing, List.mem_cons, List.not_mem_nil, or_false] at ht
  rcases ht with rfl | rfl
  · exact absurd hle (by decide)
  · exact absurd hle (by decide)

end Trade

end Nanobook
