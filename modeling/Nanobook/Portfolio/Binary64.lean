import Nanobook.Portfolio.Arithmetic

/-!
# Binary floating point numbers

`f64` itself, by the model of binary floating point numbers that the language comes with.
-/

namespace Nanobook

namespace Binary64

open Float.Model

/-- One half. -/
def half : Float.Model := .ofInt 1 / .ofInt 2

/-- The integer part, and zero for a number that is none. -/
def trunc (x : Float.Model) : Int := x.unpack.toInt i64Min i64Max

/-- `f64::round`, half away from zero. -/
def round (x : Float.Model) : Float.Model :=
  if !x.isFinite then x
  else
    let whole := trunc x
    let fraction := x - .ofInt whole
    if half ≤ fraction then .ofInt (whole + 1)
    else if fraction ≤ -half then .ofInt (whole - 1)
    else .ofInt whole

end Binary64

namespace F64

instance binary64 : F64 Float.Model where
  ofInt := Float.Model.ofInt
  round := Binary64.round
  trunc := Binary64.trunc
  lt x y := decide (x < y)
  le x y := decide (x ≤ y)
  isFinite := Float.Model.isFinite
  nan := Float.Model.ofInt 0 / Float.Model.ofInt 0

end F64

/-- From 2⁵³ on not every integer is a floating point number: halfway between two, it becomes the
even one. -/
example : (F64.toI64 (F64.round (F64.ofInt 9007199254740993 : Float.Model)),
    F64.toI64 (F64.round (F64.ofInt 9007199254740995 : Float.Model))) =
    (9007199254740992, 9007199254740996) := by
  decide +kernel

end Nanobook
