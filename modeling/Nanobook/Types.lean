import Mathlib.Algebra.Order.Ring.Int
import Mathlib.Algebra.BigOperators.Group.List.Basic

/-!
# Core types

The scalar types of `types.rs`, with the enumerations of `side.rs`, `tif.rs` and the trade record
of `trade.rs`.

Prices are `i64` and quantities `u64` in the source.  Here they are `Int` and `Nat`, and every
place where the source relies on the width says so: additions to a level's total saturate at
`u64Max`, plain `u64` sums wrap modulo `2 ^ 64` and `i64` arithmetic wraps through `wrapI64`, as a
release build does.  Order ids, trade ids and timestamps are counters that only ever go up by
one, and are kept as unbounded naturals.
-/

namespace Nanobook

/-- Price in smallest units. -/
abbrev Price := Int

namespace Price

def max : Price := 2 ^ 63 - 1

def min : Price := -2 ^ 63

end Price

abbrev Quantity := Nat

abbrev Timestamp := Nat

/-- Order ids are assigned from 1; `0` marks a tombstone in a level's queue. -/
abbrev OrderId := Nat

abbrev TradeId := Nat

/-- The party that submitted an order, compared for equality only. -/
abbrev OrderOwner := Nat

/-! ## Fixed-width arithmetic -/

def u64Max : Nat := 2 ^ 64 - 1

/-- `u64::saturating_add`; `u64::saturating_sub` is subtraction on `Nat`. -/
def saturatingAdd (a b : Nat) : Nat := Nat.min (a + b) u64Max

/-- The value of an `i64` computation that wraps. -/
def wrapI64 (x : Int) : Int := Int.bmod x (2 ^ 64)

/-- `Iterator::sum` over `u64` values. -/
def sumU64 (xs : List Nat) : Nat := xs.sum % 2 ^ 64

theorem saturatingAdd_le (a b : Nat) : saturatingAdd a b ≤ a + b := Nat.min_le_left _ _

theorem saturatingAdd_eq {a b : Nat} (h : a + b ≤ u64Max) : saturatingAdd a b = a + b :=
  Nat.min_eq_left h

/-! ## Enumerations -/

inductive Side where
  | buy
  | sell
deriving DecidableEq, Repr

namespace Side

def opposite : Side → Side
  | buy => sell
  | sell => buy

@[simp] theorem opposite_opposite (s : Side) : s.opposite.opposite = s := by cases s <;> rfl

@[simp] theorem opposite_ne (s : Side) : s.opposite ≠ s := by cases s <;> decide

@[simp] theorem ne_opposite (s : Side) : s ≠ s.opposite := by cases s <;> decide

theorem eq_or_eq_opposite (s t : Side) : t = s ∨ t = s.opposite := by
  cases s <;> cases t <;> decide

/-- The limit a market order is submitted with. -/
def marketPrice : Side → Price
  | buy => Price.max
  | sell => Price.min

end Side

inductive TimeInForce where
  | gtc
  | ioc
  | fok
deriving DecidableEq, Repr

/-- A completed trade between an incoming (aggressor) and a resting (passive) order. -/
structure Trade where
  id : TradeId
  price : Price
  quantity : Quantity
  aggressorOrderId : OrderId
  passiveOrderId : OrderId
  aggressorSide : Side
  timestamp : Timestamp
deriving DecidableEq, Repr

end Nanobook
