import Mathlib.Algebra.Order.BigOperators.Group.List
import Mathlib.Algebra.Order.Group.Unbundled.Int
import Mathlib.Data.Rat.Floor
import Nanobook.Types

/-!
# Money and share arithmetic

The integer arithmetic of `portfolio/mod.rs` and `portfolio/position.rs`.  Cash, prices and values
are cents, quantities are micro-shares, and all of them are `i64` in the source: they are `Int`
here, the saturating operations clamp to the range of `i64`, and products of a quantity and a price
are formed in `i128`, where they are exact.

Weights, rates and drifts are `f64`.  Nothing below depends on how these are rounded, so the
operations on them are those of a class, and what is proved holds of each of its instances.
-/

namespace Nanobook

/-! ## Saturating arithmetic -/

def i64Max : Int := 2 ^ 63 - 1

def i64Min : Int := -2 ^ 63

/-- `clamp(i64::MIN, i64::MAX)`. -/
def clampI64 (x : Int) : Int := max i64Min (min x i64Max)

/-- The value fits into an `i64`. -/
def InI64 (x : Int) : Prop := i64Min ≤ x ∧ x ≤ i64Max

instance (x : Int) : Decidable (InI64 x) := inferInstanceAs (Decidable (_ ∧ _))

theorem inI64_clampI64 (x : Int) : InI64 (clampI64 x) := by
  simp only [InI64, clampI64, i64Min, i64Max]
  omega

theorem clampI64_eq_iff {x : Int} : clampI64 x = x ↔ InI64 x := by
  simp only [InI64, clampI64, i64Min, i64Max]
  omega

theorem clampI64_eq {x : Int} (h : InI64 x) : clampI64 x = x := clampI64_eq_iff.mpr h

theorem clampI64_nonneg_iff {x : Int} : 0 ≤ clampI64 x ↔ 0 ≤ x := by
  simp only [clampI64, i64Min, i64Max]
  omega

theorem clampI64_le {x : Int} (h : 0 ≤ x) : clampI64 x ≤ x := by
  simp only [clampI64, i64Min, i64Max]
  omega

theorem clampI64_mono {x y : Int} (h : x ≤ y) : clampI64 x ≤ clampI64 y := by
  simp only [clampI64, i64Min, i64Max]
  omega

theorem wrapI64_eq {x : Int} (h : InI64 x) : wrapI64 x = x := by
  obtain ⟨hlo, hhi⟩ := h
  simp only [i64Min, i64Max] at hlo hhi
  exact Int.bmod_eq_of_le (by omega) (by omega)

theorem inI64_wrapI64 (x : Int) : InI64 (wrapI64 x) := by
  have hlo := @Int.le_bmod x (2 ^ 64) (by decide)
  have hhi := @Int.bmod_lt x (2 ^ 64) (by decide)
  simp only [InI64, wrapI64, i64Min, i64Max]
  omega

theorem wrapI64_mul_wrapI64 (x y : Int) : wrapI64 (wrapI64 x * y) = wrapI64 (x * y) := by
  rw [wrapI64, wrapI64, Int.bmod_mul_bmod, wrapI64]

theorem wrapI64_neg_wrapI64 (x : Int) : wrapI64 (-wrapI64 x) = wrapI64 (-x) := by
  rw [wrapI64, wrapI64, Int.bmod_neg_bmod, wrapI64]

/-- Wrapping moves a value towards zero or past it. -/
theorem wrapI64_le {x : Int} (h : 0 ≤ x) : wrapI64 x ≤ x := by
  simp only [wrapI64, Int.bmod_def]
  split <;> omega

@[inherit_doc wrapI64_le] theorem le_wrapI64 {x : Int} (h : x ≤ 0) : x ≤ wrapI64 x := by
  simp only [wrapI64, Int.bmod_def]
  split <;> omega

/-- Past `i64::MAX` the value comes back from the other end. -/
theorem wrapI64_of_lt {x : Int} (hlo : i64Max < x) (hhi : x ≤ i64Max + 2 ^ 64) :
    wrapI64 x = x - 2 ^ 64 := by
  simp only [i64Max] at hlo hhi
  simp only [wrapI64, Int.bmod_def]
  split <;> omega

/-- `i64::saturating_add`. -/
def satAdd (x y : Int) : Int := clampI64 (x + y)

/-- Adding nothing changes nothing that is in range. -/
theorem satAdd_zero_or {x y : Int} (h : InI64 x) :
    (if y = 0 then x else satAdd x y) = satAdd x y := by
  split
  · next hy => rw [hy, satAdd, Int.add_zero, clampI64_eq h]
  · rfl

/-- A saturating sum of values that are not negative is the sum, up to `i64::MAX`. -/
theorem foldl_satAdd_eq_min {A : Type} {f : A → Int} {l : List A} {acc : Int}
    (hf : ∀ a ∈ l, 0 ≤ f a) (hacc : 0 ≤ acc) (hmax : acc ≤ i64Max) :
    l.foldl (fun acc a ↦ satAdd acc (f a)) acc = min (acc + (l.map f).sum) i64Max := by
  induction l generalizing acc with
  | nil => rw [List.map_nil, List.sum_nil, Int.add_zero, min_eq_left hmax, List.foldl_nil]
  | cons a l ih =>
      have hrest : 0 ≤ (l.map f).sum :=
        List.sum_nonneg fun x hx ↦ by
          obtain ⟨b, hb, rfl⟩ := List.mem_map.mp hx
          exact hf b (List.mem_cons_of_mem a hb)
      have ha := hf a List.mem_cons_self
      have hfirst : satAdd acc (f a) = min (acc + f a) i64Max := by
        simp only [satAdd, clampI64, i64Min, i64Max] at *
        omega
      rw [List.foldl_cons, ih (fun b hb ↦ hf b (List.mem_cons_of_mem a hb)) (by omega) (by omega),
        hfirst, List.map_cons, List.sum_cons]
      omega

/-- A saturating sum that stays in range is the sum. -/
theorem foldl_satAdd_of_nonneg {A : Type} {f : A → Int} {l : List A} {acc : Int}
    (hf : ∀ a ∈ l, 0 ≤ f a) (hacc : 0 ≤ acc) (h : acc + (l.map f).sum ≤ i64Max) :
    l.foldl (fun acc a ↦ satAdd acc (f a)) acc = acc + (l.map f).sum := by
  have hsum : 0 ≤ (l.map f).sum :=
    List.sum_nonneg fun x hx ↦ by
      obtain ⟨a, ha, rfl⟩ := List.mem_map.mp hx
      exact hf a ha
  rw [foldl_satAdd_eq_min hf hacc (by omega), min_eq_left h]

/-- `i64::saturating_sub`. -/
def satSub (x y : Int) : Int := clampI64 (x - y)

/-- `i64::saturating_neg`. -/
def satNeg (x : Int) : Int := clampI64 (-x)

/-- `i64::saturating_abs`. -/
def satAbs (x : Int) : Int := clampI64 |x|

/-- `i64::saturating_mul`. -/
def satMul (x y : Int) : Int := clampI64 (x * y)

theorem satSub_nonneg_iff {x y : Int} : 0 ≤ satSub x y ↔ y ≤ x := by
  rw [satSub, clampI64_nonneg_iff, Int.sub_nonneg]

/-! ## Floating point numbers -/

/-- The operations on `f64` that the portfolio uses. -/
class F64 (F : Type) extends Add F, Sub F, Mul F, Div F where
  /-- `n as f64`. -/
  ofInt : Int → F
  round : F → F
  /-- The integer part, which a cast to `i64` then clamps. -/
  trunc : F → Int
  lt : F → F → Bool
  le : F → F → Bool
  isFinite : F → Bool
  nan : F

namespace F64

variable {F : Type} [F64 F]

/-- `x as i64`. -/
def toI64 (x : F) : Int := clampI64 (trunc x)

/-- Exact numbers, with one that is none. -/
instance exact : F64 (Option Rat) where
  add x y := x.bind fun a ↦ y.map (Rat.add a)
  sub x y := x.bind fun a ↦ y.map (Rat.sub a)
  mul x y := x.bind fun a ↦ y.map (Rat.mul a)
  div x y := x.bind fun a ↦ y.bind fun b ↦ if b.num = 0 then none else some (Rat.div a b)
  ofInt n := some (Rat.ofInt n)
  round := Option.map fun a ↦
    if 0 ≤ a.num then Rat.ofInt ((2 * a.num + a.den) / (2 * a.den))
    else Rat.ofInt (-((-2 * a.num + a.den) / (2 * a.den)))
  trunc x := (x.map fun a ↦ Int.tdiv a.num a.den).getD 0
  lt x y := (x.bind fun a ↦ y.map fun b ↦ Rat.blt a b).getD false
  le x y := (x.bind fun a ↦ y.map fun b ↦ !Rat.blt b a).getD false
  isFinite := Option.isSome
  nan := none

end F64

/-! ## Shares -/

/-- A signed number of micro-shares. -/
abbrev Shares := Int

namespace Shares

/-- Micro-shares per whole share. -/
def scale : Int := 1000000

def fromWhole (n : Int) : Shares := wrapI64 (n * scale)

theorem inI64_fromWhole (n : Int) : InI64 (fromWhole n) := inI64_wrapI64 _

/-- Whole shares, rounded towards zero. -/
def whole (qty : Shares) : Int := qty.tdiv scale

end Shares

/-! ## Values of quantities -/

/-- The signed value of a quantity at a price per share. -/
def notionalCents (qty : Shares) (price : Int) : Int := clampI64 ((qty * price).tdiv Shares.scale)

/-- The absolute value of a quantity at a price per share. -/
def notionalOf (qty : Shares) (price : Int) : Int :=
  min ((qty.natAbs * price.natAbs / Shares.scale.natAbs : Nat) : Int) i64Max

theorem notionalOf_nonneg (qty : Shares) (price : Int) : 0 ≤ notionalOf qty price :=
  le_min (Int.natCast_nonneg _) (by decide)

theorem notionalOf_neg (qty : Shares) (price : Int) :
    notionalOf (-qty) price = notionalOf qty price := by
  rw [notionalOf, Int.natAbs_neg, notionalOf]

/-- More of the same costs no less. -/
theorem notionalOf_mono {qty qty' : Shares} (h : qty.natAbs ≤ qty'.natAbs) (price : Int) :
    notionalOf qty price ≤ notionalOf qty' price := by
  have hdiv : qty.natAbs * price.natAbs / Shares.scale.natAbs ≤
      qty'.natAbs * price.natAbs / Shares.scale.natAbs :=
    Nat.div_le_div_right (Nat.mul_le_mul_right _ h)
  exact min_le_min_right _ (Int.ofNat_le.mpr hdiv)

/-- For a positive quantity and price the two values are one. -/
theorem notionalCents_eq_notionalOf {qty : Shares} {price : Int} (hqty : 0 < qty)
    (hprice : 0 < price) :
    notionalCents qty price = notionalOf qty price := by
  obtain ⟨m, rfl⟩ := Int.eq_ofNat_of_zero_le hqty.le
  obtain ⟨n, rfl⟩ := Int.eq_ofNat_of_zero_le hprice.le
  have hdiv : ((m : Int) * n).tdiv Shares.scale = ((m * n / Shares.scale.natAbs : Nat) : Int) := rfl
  rw [notionalCents, notionalOf, hdiv, Int.natAbs_natCast, Int.natAbs_natCast, clampI64]
  exact max_eq_right (le_min ((by decide : i64Min ≤ 0).trans (Int.natCast_nonneg _)) (by decide))

end Nanobook
