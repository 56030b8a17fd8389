import Mathlib.Data.Rat.Floor
import Mathlib.Tactic.Linarith
import Mathlib.Tactic.NormNum
import Nanobook.Types

/-!
# Data of the rebalancer

The records of `diff.rs`, the amounts of `broker/types.rs` and the JSON values the audit log is made
of.

Amounts are logged in dollars, as floating point numbers.  These are rationals here, and the only
thing known of the division that makes them is that it is right to less than half a cent.
-/

namespace Nanobook.Rebalancer

/-! ## JSON -/

/-- `serde_json::Value`, with integers and floating point numbers kept apart. -/
inductive Json where
  | null
  | bool (b : Bool)
  | int (n : Int)
  | float (x : ℚ)
  | str (s : String)
  | arr (xs : List Json)
  | obj (fields : List (String × Json))

namespace Json

def get (j : Json) (key : String) : Option Json :=
  match j with
  | obj fields => fields.lookup key
  | _ => none

def asStr : Json → Option String
  | str s => some s
  | _ => none

def asBool : Json → Option Bool
  | bool b => some b
  | _ => none

def asArray : Json → Option (List Json)
  | arr xs => some xs
  | _ => none

/-- Integers only: a number with a fraction or an exponent is not one. -/
def asI64 : Json → Option Int64
  | int n => if -2 ^ 63 ≤ n ∧ n < 2 ^ 63 then some (Int64.ofInt n) else none
  | _ => none

/-- Any number. -/
def asF64 : Json → Option ℚ
  | int n => some n
  | float x => some x
  | _ => none

/-- What `json!` makes of an `i64`. -/
def i64 (n : Int64) : Json := int n.toInt

@[simp] theorem asI64_i64 (n : Int64) : (i64 n).asI64 = some n := by
  simp only [i64, asI64]
  rw [if_pos ⟨n.le_toInt, n.toInt_lt⟩, Int64.ofInt_toInt]

@[simp] theorem asI64_toInt (ibkrId : Int32) :
    (int ibkrId.toInt).asI64 = some ibkrId.toInt64 := by
  have hlo := ibkrId.le_toInt
  have hhi := ibkrId.toInt_lt
  rw [asI64, if_pos (by omega), Int64.ofInt_int32ToInt]

@[simp] theorem asStr_str (s : String) : (str s).asStr = some s := rfl
@[simp] theorem asF64_float (x : ℚ) : (float x).asF64 = some x := rfl
@[simp] theorem asArray_arr (xs : List Json) : (arr xs).asArray = some xs := rfl

end Json

/-! ## Amounts -/

/-- Round to the nearest integer, halves away from zero: `f64::round`. -/
def roundHalfAway (x : ℚ) : Int := if 0 ≤ x then ⌊x + 1 / 2⌋ else ⌈x - 1 / 2⌉

theorem roundHalfAway_eq {x : ℚ} {n : Int} (h : |x - n| < 1 / 2) : roundHalfAway x = n := by
  rw [abs_lt] at h
  simp only [roundHalfAway]
  split_ifs
  · rw [Int.floor_eq_iff]
    constructor <;> linarith
  · rw [Int.ceil_eq_iff]
    constructor <;> linarith

/-- Forget the fraction. -/
def truncate (x : ℚ) : Int := if 0 ≤ x then ⌊x⌋ else ⌈x⌉

theorem truncate_le {x : ℚ} (h : 0 ≤ x) : (truncate x : ℚ) ≤ x := by
  rw [truncate, if_pos h]
  exact Int.floor_le x

theorem le_truncate {x : ℚ} (h : x < 0) : x ≤ truncate x := by
  rw [truncate, if_neg (not_le.mpr h)]
  exact Int.le_ceil x

theorem truncate_eq_zero {x : ℚ} (hlo : -1 < x) (hhi : x < 1) : truncate x = 0 := by
  simp only [truncate]
  split_ifs with h
  · exact Int.floor_eq_zero_iff.mpr ⟨h, hhi⟩
  · rw [Int.ceil_eq_iff]
    constructor
    · simpa using hlo
    · simpa using (not_le.mp h).le

/-- `x as i64`: forget the fraction and saturate. -/
def castI64 (x : ℚ) : Int64 := Int64.ofInt (max (-2 ^ 63) (min (truncate x) (2 ^ 63 - 1)))

theorem toInt_castI64 (x : ℚ) :
    (castI64 x).toInt = max (-2 ^ 63) (min (truncate x) (2 ^ 63 - 1)) := by
  rw [castI64, Int64.toInt_ofInt, Int.bmod_eq_of_le] <;> simp only [Int64.size] <;> omega

/-- `f64_to_fixed_checked`: round to a multiple of `1 / scale` that fits. -/
def f64ToFixedChecked (value scale : ℚ) : Option Int64 :=
  let rounded := roundHalfAway (value * scale)
  if -2 ^ 63 ≤ rounded ∧ rounded < 2 ^ 63 then some (Int64.ofInt rounded) else none

def f64CentsChecked (value : ℚ) : Option Int64 := f64ToFixedChecked value 100

/-- The division `cents as f64 / 100.0`. -/
structure CentDivision where
  dollars : Int64 → ℚ
  close : ∀ cents, |100 * dollars cents - cents.toInt| < 1 / 2

namespace CentDivision

/-- Division without any error. -/
def exact : CentDivision where
  dollars cents := cents.toInt / 100
  close cents := by
    rw [mul_div_cancel₀ _ (by norm_num), sub_self, abs_zero]
    norm_num

variable (div : CentDivision)

@[simp] theorem f64CentsChecked_dollars (cents : Int64) :
    f64CentsChecked (div.dollars cents) = some cents := by
  have hround : roundHalfAway (div.dollars cents * 100) = cents.toInt := by
    refine roundHalfAway_eq ?_
    rw [mul_comm]
    exact div.close cents
  simp only [f64CentsChecked, f64ToFixedChecked, hround]
  rw [if_pos ⟨cents.le_toInt, cents.toInt_lt⟩, Int64.ofInt_toInt]

/-- Dollars cast to an integer are not cents, unless there are none. -/
theorem castI64_dollars (cents : Int64) : castI64 (div.dollars cents) = cents ↔ cents = 0 := by
  obtain ⟨hlo, hhi⟩ := abs_lt.mp (div.close cents)
  have hmin := cents.le_toInt
  have hmax := cents.toInt_lt
  rw [← Int64.toInt_inj, toInt_castI64, ← @Int64.toInt_inj _ 0, Int64.toInt_zero]
  rcases lt_trichotomy cents.toInt 0 with hneg | hzero | hpos
  · -- a negative amount of cents is less than the dollars
    have hle : (cents.toInt : ℚ) ≤ -1 := by exact_mod_cast Int.le_sub_one_of_lt hneg
    have hd : div.dollars cents < 0 := by linarith
    have hgt : cents.toInt < truncate (div.dollars cents) := by
      have := le_truncate hd
      have : (cents.toInt : ℚ) < truncate (div.dollars cents) := by linarith
      exact_mod_cast this
    omega
  · rw [hzero, Int.cast_zero, sub_zero] at hlo hhi
    have : truncate (div.dollars cents) = 0 := truncate_eq_zero (by linarith) (by linarith)
    omega
  · have hge : (1 : ℚ) ≤ cents.toInt := by exact_mod_cast hpos
    have hd : 0 ≤ div.dollars cents := by linarith
    have hlt : truncate (div.dollars cents) < cents.toInt := by
      have := truncate_le hd
      have : (truncate (div.dollars cents) : ℚ) < cents.toInt := by linarith
      exact_mod_cast this
    omega

end CentDivision

/-! ## Orders and positions -/

/-- A symbol of at most eight bytes. -/
structure Symbol where
  asStr : String
  short : asStr.utf8ByteSize ≤ 8
deriving DecidableEq

namespace Symbol

/-- `Symbol::try_new`. -/
def tryNew (s : String) : Option Symbol := if h : s.utf8ByteSize ≤ 8 then some ⟨s, h⟩ else none

@[simp] theorem tryNew_asStr (sym : Symbol) : tryNew sym.asStr = some sym := dif_pos sym.short

theorem asStr_injective {sym sym' : Symbol} (h : sym.asStr = sym'.asStr) : sym = sym' := by
  cases sym; cases sym'; cases h; rfl

/-- What recovery calls an order whose symbol it cannot read. -/
def unknown : Symbol := ⟨"UNKNOWN", by decide⟩

end Symbol

/-- Trade direction. -/
inductive Action where
  | buy
  | sell
  | sellShort
  | buyCover
deriving DecidableEq, Repr

/-- The text of an action, in the plan and in the log. -/
def Action.toText : Action → String
  | buy => "BUY"
  | sell => "SELL"
  | sellShort => "SELL SHORT"
  | buyCover => "BUY COVER"

inductive BrokerSide where
  | buy
  | sell
deriving DecidableEq, Repr

def actionToSide : Action → BrokerSide
  | .buy | .buyCover => .buy
  | .sell | .sellShort => .sell

structure RebalanceOrder where
  symbol : Symbol
  action : Action
  shares : Int64
  limitPriceCents : Int64
  description : String

structure CurrentPosition where
  symbol : Symbol
  quantity : Int64
  avgCostCents : Int64
deriving DecidableEq

end Nanobook.Rebalancer
