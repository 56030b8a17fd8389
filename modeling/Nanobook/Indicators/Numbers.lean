import Nanobook.Optimize.Numbers

/-!
# Numbers of the indicators

What `indicators.rs` asks of `f64` beside the operations of the optimizers.  A sum of the standard
library starts from the negative zero; a loop that adds to `0.0` starts from the other one.  The two
part only as long as nothing but negative zeros is added (`Zeros`).
-/

namespace Nanobook

class F64Sign (F : Type) extends F64Ext F where
  neg : F → F
  abs : F → F

namespace Indicators

open F64 F64Ext F64Sign

section Operations

variable {F : Type} [F64Sign F]

def negZero : F := neg (ofInt 0)

/-- `f64::is_nan`. -/
def isNaN (x : F) : Bool := !le x x

/-- `x == y`. -/
def eq (x y : F) : Bool := le x y && le y x

/-- `l[i]`, for an index within the list. -/
abbrev get (l : List F) (i : Nat) : F := l.getD i nan

/-- `iter().sum::<f64>()`. -/
def sum (l : List F) : F := l.foldl (· + ·) negZero

/-- Anything but the negative zero: added to a zero, it hides the sign of the zero. -/
def HidesSign (x : F) : Prop := ofInt 0 + x = negZero + x

end Operations

/-- The zeros. -/
structure Zeros (F : Type) [F64Sign F] : Prop where
  add (x : F) : HidesSign x ∨ ofInt 0 + x = ofInt 0 ∧ negZero + x = negZero

section Zeros

variable {F : Type} [F64Sign F]

/-- Once something else is added, it does not matter which zero a sum began with. -/
theorem Zeros.sum_eq (hF : Zeros F) {l : List F} (h : ∃ x ∈ l, HidesSign x) :
    l.foldl (· + ·) (ofInt 0) = sum l := by
  rw [sum]
  induction l with
  | nil =>
      obtain ⟨x, hx, -⟩ := h
      exact absurd hx List.not_mem_nil
  | cons y l ih =>
      rw [List.foldl_cons, List.foldl_cons]
      rcases hF.add y with hy | ⟨hpos, hneg⟩
      · rw [hy]
      · by_cases hy : HidesSign y
        · rw [hy]
        · rw [hpos, hneg]
          obtain ⟨x, hx, hsign⟩ := h
          rcases List.mem_cons.mp hx with rfl | hx
          · exact absurd hsign hy
          · exact ih ⟨x, hx, hsign⟩

end Zeros

end Indicators

/-! ## Binary floating point numbers -/

namespace Binary64

open Float.Model Indicators

instance : F64Sign Float.Model where
  neg := Float.Model.neg
  abs := Float.Model.abs

theorem unpack_zero : (F64.ofInt 0 : Float.Model).unpack = .zero .positive := rfl

theorem unpack_negZero : (negZero : Float.Model).unpack = .zero .negative := rfl

theorem zeros : Zeros Float.Model where
  add x := by
    have hpos : (F64.ofInt 0 : Float.Model) + x =
        pack (UnpackedFloat.add Format.binary64 (.zero .positive) x.unpack) := by
      rw [← unpack_zero]
      rfl
    have hneg : (negZero : Float.Model) + x =
        pack (UnpackedFloat.add Format.binary64 (.zero .negative) x.unpack) := by
      rw [← unpack_negZero]
      rfl
    rw [HidesSign, hpos, hneg]
    cases x.unpack with
    | infinity s => exact .inl rfl
    | notANumber => exact .inl rfl
    | finite s m e hm => exact .inl rfl
    | zero s =>
        cases s with
        | positive => exact .inl rfl
        | negative => exact .inr ⟨by decide +kernel, by decide +kernel⟩

end Binary64

end Nanobook
