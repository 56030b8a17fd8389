import Nanobook.Lib.HashMap
import Nanobook.Portfolio.Position

/-!
# The portfolio

The state of `portfolio/mod.rs` and what is read off it.  The positions are an `FxHashMap` from
which nothing is ever removed; the order in which it yields them is a parameter of every function
that goes through them.
-/

namespace Nanobook

open Rebalancer (Symbol collected)

/-- Why a fill was executed. -/
inductive ExecutionKind where
  | rebalance
  | stopExit
deriving DecidableEq, Repr

/-- An actual fill, in engine execution order. -/
structure ExecutionRecord where
  sequence : Nat
  periodIndex : Nat
  kind : ExecutionKind
  symbol : Symbol
  quantity : Shares
  price : Int
  referencePrice : Int
  notional : Int
  referenceNotional : Int
  cost : Int
  cashDelta : Int
  cashAfter : Int
deriving DecidableEq

/-- Two symbols to run examples with. -/
def aapl : Symbol := (Symbol.tryNew "AAPL").getD .unknown

@[inherit_doc aapl] def msft : Symbol := (Symbol.tryNew "MSFT").getD .unknown

/-- Prices by symbol, the last of a symbol counting. -/
abbrev PriceMap := Symbol → Option Int

structure Portfolio (F : Type) where
  cash : Int
  positions : HashMap Symbol Position
  costModel : CostModel F
  returns : List F
  equityCurve : List Int
  prevEquity : Int
  quantityStep : Int
  minOrderValue : Int
  maxOrderValue : Int
  noTradeBandBps : F
  maxTradesPerRebalance : Option Nat
  maxRebalanceNotional : Int
  lastRebalanceOrderCount : Nat
  lastRebalanceNotional : Int
  trimmedFillCount : Nat
  trimmedShortfallCents : Int
  executions : Option (List ExecutionRecord)
  executionPeriodIndex : Nat
  executionKind : ExecutionKind

namespace Portfolio

variable {F : Type} [F64 F]

open F64

def new (initialCash : Int) (costModel : CostModel F) : Portfolio F where
  cash := initialCash
  positions := .empty
  costModel := costModel
  returns := []
  equityCurve := [initialCash]
  prevEquity := initialCash
  quantityStep := Shares.scale
  minOrderValue := 0
  maxOrderValue := 0
  noTradeBandBps := ofInt 0
  maxTradesPerRebalance := none
  maxRebalanceNotional := 0
  lastRebalanceOrderCount := 0
  lastRebalanceNotional := 0
  trimmedFillCount := 0
  trimmedShortfallCents := 0
  executions := none
  executionPeriodIndex := 0
  executionKind := .rebalance

/-! ## Settings -/

section Settings

omit [F64 F]

variable (p : Portfolio F)

def enableExecutionRecording : Portfolio F := { p with executions := some [] }

def setExecutionContext (periodIndex : Nat) (kind : ExecutionKind) : Portfolio F :=
  { p with executionPeriodIndex := periodIndex, executionKind := kind }

def setQuantityStep (step : Int) : Portfolio F := { p with quantityStep := step }

def setMinOrderValue (value : Int) : Portfolio F := { p with minOrderValue := value }

def setMaxOrderValue (value : Int) : Portfolio F := { p with maxOrderValue := value }

def setNoTradeBandBps (bps : F) : Portfolio F := { p with noTradeBandBps := bps }

def setMaxTradesPerRebalance (cap : Option Nat) : Portfolio F :=
  { p with maxTradesPerRebalance := cap }

def setMaxRebalanceNotional (value : Int) : Portfolio F := { p with maxRebalanceNotional := value }

end Settings

/-! ## Queries -/

section Queries

omit [F64 F]

variable (p : Portfolio F)

def position (sym : Symbol) : Option Position := p.positions.get? sym

/-- The quantity held of a symbol. -/
def quantity (sym : Symbol) : Shares := ((p.position sym).map Position.quantity).getD 0

variable (order : HashMap.Order Symbol) (prices : PriceMap)

/-- `total_equity_from_price_map`: a position without a price counts for nothing. -/
def totalEquity : Int :=
  satAdd p.cash <| (p.positions.iter order).foldl
    (fun acc e ↦ satAdd acc (e.2.marketValue ((prices e.1).getD 0))) 0

/-- `unpriced_in_map`: the first open position without a positive price. -/
def unpricedHolding : Option Symbol :=
  (p.positions.iter order).findSome? fun e ↦
    if e.2.isFlat then none
    else
      match prices e.1 with
      | some px => if 0 < px then none else some e.1
      | none => some e.1

end Queries

variable (p : Portfolio F) (order : HashMap.Order Symbol) (prices : PriceMap)

/-- `current_weights_from_price_map`, which the caller gives the equity. -/
def currentWeights (equity : Int) : List (Symbol × F) :=
  if equity = 0 then []
  else
    ((p.positions.iter order).filter fun e ↦ ¬ e.2.isFlat).map fun e ↦
      (e.1, ofInt (e.2.marketValue ((prices e.1).getD 0)) / ofInt equity)

/-- `record_return_from_price_map`. -/
def recordReturn : Portfolio F :=
  let equity := p.totalEquity order prices
  let returns :=
    if 0 < p.prevEquity then
      p.returns ++ [ofInt (satSub equity p.prevEquity) / ofInt p.prevEquity]
    else if p.returns ≠ [] then p.returns ++ [ofInt 0]
    else p.returns
  { p with returns, equityCurve := p.equityCurve ++ [equity], prevEquity := equity }

section Lemmas

omit [F64 F]

variable {p : Portfolio F} {order : HashMap.Order Symbol} {prices : PriceMap} {sym : Symbol}

/-- The holding found is open and has no positive price. -/
theorem unpricedHolding_eq_some (h : p.unpricedHolding order prices = some sym) :
    (∃ pos, p.position sym = some pos ∧ pos.isFlat = false) ∧ ∀ px, prices sym = some px →
      px ≤ 0 := by
  obtain ⟨⟨k, pos⟩, he, hf⟩ := List.exists_of_findSome?_eq_some h
  simp only at hf
  split at hf
  · cases hf
  · next hflat =>
      have hopen : ∃ pos, p.position k = some pos ∧ pos.isFlat = false :=
        ⟨pos, HashMap.mem_iter.mp he, by simpa using hflat⟩
      split at hf
      · next px hpx =>
          split at hf
          · cases hf
          · next hpos =>
              cases hf
              refine ⟨hopen, fun px' hpx' ↦ ?_⟩
              rw [hpx] at hpx'
              cases hpx'
              exact not_lt.mp hpos
      · next hpx =>
          cases hf
          refine ⟨hopen, fun px' hpx' ↦ ?_⟩
          rw [hpx] at hpx'
          cases hpx'

/-- Without one, every open position has a positive price. -/
theorem unpricedHolding_eq_none_iff : p.unpricedHolding order prices = none ↔
    ∀ sym pos, p.position sym = some pos → pos.isFlat = false → ∃ px, prices sym = some px ∧
    0 < px := by
  rw [unpricedHolding, List.findSome?_eq_none_iff]
  constructor
  · intro h sym pos hpos hflat
    have he := h (sym, pos) (HashMap.mem_iter.mpr hpos)
    simp only [hflat, Bool.false_eq_true, if_false] at he
    split at he
    · next px hpx =>
        split at he
        · next hp => exact ⟨px, hpx, hp⟩
        · cases he
    · cases he
  · rintro h ⟨sym, pos⟩ he
    cases hflat : pos.isFlat with
    | true => simp
    | false =>
        obtain ⟨px, hpx, hp⟩ := h sym pos (HashMap.mem_iter.mp he) hflat
        simp [hpx, hp]

end Lemmas

end Portfolio

end Nanobook
