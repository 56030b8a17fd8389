import Mathlib.Algebra.Order.Ring.Abs
import Mathlib.Algebra.Order.Ring.Int
import Mathlib.Order.Bounds.Basic

/-!
# Multiples of a step

Rounding down to a multiple of a step, in one division or after another one, and the multiple of the
greatest magnitude on one side of zero.
-/

namespace Nanobook.Multiples

/-! ## Rounding down -/

/-- The last multiple of the step up to `n`. -/
def floor (step n : Int) : Int := n / step * step

variable {step rate n : Int}

theorem dvd_floor (step n : Int) : step ∣ floor step n := Int.dvd_mul_left _ _

theorem floor_le (hstep : 0 < step) : floor step n ≤ n := Int.ediv_mul_le n hstep.ne'

theorem floor_nonneg (hstep : 0 < step) (hn : 0 ≤ n) : 0 ≤ floor step n :=
  Int.mul_nonneg (Int.ediv_nonneg hn hstep.le) hstep.le

theorem isGreatest_floor (hstep : 0 < step) (n : Int) :
    IsGreatest {m | step ∣ m ∧ m ≤ n} (floor step n) := by
  constructor
  · exact ⟨dvd_floor step n, floor_le hstep⟩
  · rintro _ ⟨⟨k, rfl⟩, hle⟩
    rw [Int.mul_comm] at hle ⊢
    exact Int.mul_le_mul_of_nonneg_right ((Int.le_ediv_iff_mul_le hstep).mpr hle) hstep.le

/-- A division before the rounding costs nothing: the multiples are bounded by what they come to
at the rate. -/
theorem isGreatest_floor_ediv (hstep : 0 < step) (hrate : 0 < rate) (n : Int) :
    IsGreatest {m | step ∣ m ∧ m * rate ≤ n} (floor step (n / rate)) := by
  have hset : {m | step ∣ m ∧ m * rate ≤ n} = {m | step ∣ m ∧ m ≤ n / rate} := by
    ext m
    exact and_congr_right fun _ ↦ (Int.le_ediv_iff_mul_le hrate).symm
  rw [hset]
  exact isGreatest_floor hstep (n / rate)

/-- Divisions that truncate round down what is not negative. -/
theorem tdiv_tdiv_mul (hn : 0 ≤ n) (hrate : 0 ≤ rate) :
    (n.tdiv rate).tdiv step * step = floor step (n / rate) := by
  rw [Int.tdiv_eq_ediv_of_nonneg hn, Int.tdiv_eq_ediv_of_nonneg (Int.ediv_nonneg hn hrate), floor]

/-! ## The greatest magnitude on a side -/

/-- Of the sign of `side`, or zero. -/
structure OnSide (side m : Int) : Prop where
  nonneg : 0 ≤ side → 0 ≤ m
  nonpos : side ≤ 0 → m ≤ 0

/-- Among the multiples of the step on a side that fit, the one of the greatest magnitude. -/
structure IsLargest (side step : Int) (p : Int → Prop) (m : Int) : Prop where
  dvd : step ∣ m
  onSide : OnSide side m
  fits : p m
  greatest : ∀ r, step ∣ r → OnSide side r → p r → |r| ≤ |m|

variable {side m r : Int} {p : Int → Prop}

/-- A magnitude, with the sign of a side. -/
theorem OnSide.ite_neg (hm : 0 ≤ m) (hzero : side = 0 → m = 0) :
    OnSide side (if side < 0 then -m else m) := by
  constructor <;> intro h <;> split_ifs <;> omega

theorem OnSide.eq_of_abs_eq (hm : OnSide side m) (hr : OnSide side r) (h : |m| = |r|) : m = r := by
  obtain ⟨hm, hm'⟩ := hm
  obtain ⟨hr, hr'⟩ := hr
  rw [Int.abs_eq_natAbs, Int.abs_eq_natAbs] at h
  omega

theorem IsLargest.eq_iff (h : IsLargest side step p m) : IsLargest side step p r ↔ r = m := by
  constructor
  · intro hr
    exact hr.onSide.eq_of_abs_eq h.onSide
      (le_antisymm (h.greatest r hr.dvd hr.onSide hr.fits) (hr.greatest m h.dvd h.onSide h.fits))
  · rintro rfl
    exact h

/-- Where only the magnitude decides what fits, the greatest magnitude that fits is enough. -/
theorem IsLargest.of_abs {q : Int → Prop} (habs : ∀ r, p r ↔ q |r|)
    (h : IsGreatest {r | step ∣ r ∧ q r} |m|) (hside : OnSide side m) :
    IsLargest side step p m := by
  obtain ⟨⟨hdvd, hm⟩, hle⟩ := h
  refine ⟨(dvd_abs step m).mp hdvd, hside, (habs m).mpr hm, ?_⟩
  intro r hr _ hfits
  exact hle ⟨(dvd_abs step r).mpr hr, (habs r).mp hfits⟩

end Nanobook.Multiples
