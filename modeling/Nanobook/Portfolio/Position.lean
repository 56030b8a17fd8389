import Nanobook.Portfolio.Arithmetic
import Nanobook.Rebalancer.Diff

/-!
# Positions and costs

`portfolio/position.rs` and `portfolio/cost_model.rs`.
-/

namespace Nanobook

open Rebalancer (Symbol collected)

/-! ## Cost model -/

structure CostModel (F : Type) where
  commissionBps : F
  slippageBps : F
  minCommission : Int

namespace CostModel

variable {F : Type} [F64 F]

open F64

/-- The commission for a trade of the given absolute value. -/
def computeCost (c : CostModel F) (notional : Int) : Int :=
  max (toI64 (round (ofInt |notional| * c.commissionBps / ofInt 10000))) c.minCommission

/-- The price of a fill once slippage has moved it against the trade, rounded to cents. -/
def effectivePrice (c : CostModel F) (qty : Shares) (price : Int) : Int :=
  let sign : F := if 0 < qty then ofInt 1 else ofInt (-1)
  let slippageFactor := ofInt 1 + sign * c.slippageBps / ofInt 10000
  toI64 (round (ofInt price * slippageFactor))

end CostModel

/-! ## Positions -/

structure Position where
  symbol : Symbol
  quantity : Shares
  avgEntryPrice : Int
  realizedPnl : Int
  totalCost : Int
deriving DecidableEq

def avgPrice (totalCostCents : Int) (quantity : Shares) : Int :=
  if quantity = 0 then 0 else clampI64 ((totalCostCents * Shares.scale).tdiv quantity)

namespace Position

def new (symbol : Symbol) : Position := ⟨symbol, 0, 0, 0, 0⟩

def isFlat (pos : Position) : Bool := pos.quantity = 0

def marketValue (pos : Position) (price : Int) : Int := notionalCents pos.quantity price

/-- Apply a fill: open, add to, reduce, close or flip the position. -/
def applyFill (pos : Position) (qty : Shares) (price : Int) : Position :=
  if qty = 0 then pos
  else if pos.quantity = 0 then
    { pos with quantity := qty, avgEntryPrice := price, totalCost := notionalCents qty price }
  else if (0 ≤ pos.quantity ∧ 0 < qty) ∨ (pos.quantity ≤ 0 ∧ qty < 0) then
    let totalCost := satAdd pos.totalCost (notionalCents qty price)
    let quantity := satAdd pos.quantity qty
    { pos with totalCost, quantity, avgEntryPrice := avgPrice totalCost quantity }
  else
    let closeQty := min (satAbs qty) (satAbs pos.quantity)
    let pnlPerUnit :=
      if 0 < pos.quantity then wrapI64 (price - pos.avgEntryPrice)
      else wrapI64 (pos.avgEntryPrice - price)
    let realizedPnl := satAdd pos.realizedPnl (notionalCents closeQty pnlPerUnit)
    let net := satAdd pos.quantity qty
    if net = 0 then { pos with realizedPnl, quantity := 0, avgEntryPrice := 0, totalCost := 0 }
    else if (0 < net) ↔ (0 < pos.quantity) then
      let totalCost := satSub pos.totalCost (notionalCents closeQty pos.avgEntryPrice)
      { pos with realizedPnl, totalCost, quantity := net, avgEntryPrice := avgPrice totalCost net }
    else
      { pos with
        realizedPnl, quantity := net, avgEntryPrice := price, totalCost := notionalCents net price }

variable (pos : Position) (qty : Shares) (price : Int)

@[simp] theorem quantity_new (symbol : Symbol) : (new symbol).quantity = 0 := rfl

@[simp] theorem symbol_applyFill : (pos.applyFill qty price).symbol = pos.symbol := by
  simp only [applyFill, apply_ite symbol, ite_self]

/-- Whatever a fill does to the entry price, it adds its quantity. -/
theorem quantity_applyFill (hzero : qty ≠ 0) (hqty : InI64 qty) :
    (pos.applyFill qty price).quantity = satAdd pos.quantity qty := by
  rw [applyFill, if_neg hzero]
  by_cases hflat : pos.quantity = 0
  · rw [if_pos hflat, satAdd, hflat, Int.zero_add, clampI64_eq hqty]
  · rw [if_neg hflat]
    by_cases hsame : (0 ≤ pos.quantity ∧ 0 < qty) ∨ (pos.quantity ≤ 0 ∧ qty < 0)
    · rw [if_pos hsame]
    · rw [if_neg hsame]
      by_cases hnet : satAdd pos.quantity qty = 0
      · simp only [hnet, ite_true]
      · simp only [hnet, ite_false]
        split <;> rfl

end Position

end Nanobook
