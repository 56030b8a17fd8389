import Mathlib
import Nanobook.Portfolio.Binary64

/-!
# Numbers of the optimizers

What `optimize.rs` asks of `f64` beside the operations of the portfolio, and how its numbers are
ordered: apart from NaN, `<` compares keys of a linear order (`Compares`).  Binary floating point
numbers have such keys (`compares_key`), made of the sign, the exponent and the mantissa.
-/

namespace Nanobook

/-- The operations on `f64` that the optimizers use beside those of the portfolio. -/
class F64Ext (F : Type) extends F64 F where
  infinity : F
  sqrt : F → F

namespace Optimize

open F64 F64Ext

/-- `matrix[i][j]`, for indices within the matrix. -/
def entry {F : Type} [F64 F] (matrix : List (List F)) (i j : Nat) : F :=
  (matrix.getD i []).getD j nan

/-- `f64::max`, which passes over NaN. -/
def maxNum {F : Type} [F64 F] (x y : F) : F := if lt x y || !le x x then y else x

/-- `f64::clamp`. -/
def clamp {F : Type} [F64 F] (x lo hi : F) : F :=
  if lt x lo then lo else if lt hi x then hi else x

/-- A finite number, or the infinite one that a scan for the least starts from. -/
def Proper {F : Type} [F64Ext F] (x : F) : Prop := isFinite x = true ∨ x = infinity

/-- Apart from NaN, numbers compare as their keys, and the infinite one is above the finite ones. -/
structure Compares {F K : Type} [F64Ext F] [LinearOrder K] (key : F → K) : Prop where
  lt_iff : ∀ x y : F, Proper x → Proper y → (lt x y = true ↔ key x < key y)
  infinity_not_finite : isFinite (infinity : F) = false
  lt_infinity : ∀ x : F, isFinite x = true → lt x infinity = true

theorem Compares.key_lt_infinity {F K : Type} [F64Ext F] [LinearOrder K] {key : F → K}
    (hkey : Compares key) {x : F} (hx : isFinite x = true) : key x < key infinity :=
  (hkey.lt_iff x infinity (.inl hx) (.inr rfl)).mp (hkey.lt_infinity x hx)

end Optimize

/-! ## Binary floating point numbers -/

namespace Binary64

open Float.Model

/-- The order of unpacked numbers: by sign, and by exponent and mantissa away from zero. -/
def rank : UnpackedFloat → ℤ ×ₗ ℤ ×ₗ ℤ
  | .infinity .negative => toLex (-2, toLex (0, 0))
  | .finite .negative m e _ => toLex (-1, toLex (-e, -m))
  | .finite .positive m e _ => toLex (1, toLex (e, m))
  | .infinity .positive => toLex (2, toLex (0, 0))
  | _ => toLex (0, toLex (0, 0))

/-- The key of a number. -/
def key (x : Float.Model) : ℤ ×ₗ ℤ ×ₗ ℤ := rank x.unpack

theorem lt_iff_rank {x y : UnpackedFloat} (hx : x ≠ .notANumber) (hy : y ≠ .notANumber) :
    x.lt y = true ↔ rank x < rank y := by
  rcases x with ((_ | _) | _ | _ | ⟨(_ | _), m, e, hm⟩) <;>
    rcases y with ((_ | _) | _ | _ | ⟨(_ | _), m', e', hm'⟩) <;>
    simp [UnpackedFloat.lt, UnpackedFloat.compare, rank, Prod.Lex.toLex_lt_toLex,
      Ordering.then_eq_lt, Ordering.then_eq_gt, Std.compare_eq_lt, Std.compare_eq_gt] at hx hy ⊢
  case infinity.negative.infinity.positive => rfl

theorem rank_of_isFinite {x : UnpackedFloat} (hx : x.isFinite = true) :
    x ≠ .notANumber ∧ rank x < toLex (2, toLex (0, 0)) := by
  rcases x with ((_ | _) | _ | _ | ⟨(_ | _), m, e, hm⟩) <;>
    simp [UnpackedFloat.isFinite, rank, Prod.Lex.toLex_lt_toLex] at hx ⊢

instance : F64Ext Float.Model where
  infinity := .ofInt 1 / .ofInt 0
  sqrt := Float.Model.sqrt

theorem infinity_not_finite : F64.isFinite (F64Ext.infinity : Float.Model) = false := by
  decide +kernel

theorem infinity_ne_nan : (F64Ext.infinity : Float.Model).unpack ≠ .notANumber := by
  intro hnan
  have hnot : (F64Ext.infinity : Float.Model).unpack.isNaN = false := by decide +kernel
  rw [hnan] at hnot
  cases hnot

theorem key_infinity : key (F64Ext.infinity : Float.Model) = toLex (2, toLex (0, 0)) := by
  decide +kernel

theorem lt_iff_key {x y : Float.Model} (hx : x.unpack ≠ .notANumber)
    (hy : y.unpack ≠ .notANumber) : F64.lt x y = true ↔ key x < key y := by
  have hlt : F64.lt x y = x.unpack.lt y.unpack := Bool.decide_coe _
  rw [hlt]
  exact lt_iff_rank hx hy

theorem compares_key : Optimize.Compares key where
  lt_iff x y hx hy := by
    have hnumber : ∀ z : Float.Model, Optimize.Proper z → z.unpack ≠ .notANumber := by
      rintro z (hz | rfl)
      · exact (rank_of_isFinite hz).1
      · exact infinity_ne_nan
    exact lt_iff_key (hnumber x hx) (hnumber y hy)
  infinity_not_finite := infinity_not_finite
  lt_infinity x hx := by
    obtain ⟨hnumber, hlow⟩ := rank_of_isFinite (x := x.unpack) hx
    exact (lt_iff_key hnumber infinity_ne_nan).mpr (key_infinity ▸ hlow)

end Binary64

end Nanobook
