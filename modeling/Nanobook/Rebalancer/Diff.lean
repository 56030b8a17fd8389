import Mathlib.Data.List.Nodup
import Nanobook.Rebalancer.Types

/-!
# The plan of a run

`diff.rs`: the orders that lead from the current positions to the target weights.  The value a
weight asks for is a floating point product and is taken as given.
-/

namespace Nanobook.Rebalancer

/-- Live quote from the broker, with its timestamp as it is logged. -/
structure Quote where
  symbol : Symbol
  bidCents : Int64
  askCents : Int64
  lastCents : Int64
  timestamp : String
deriving DecidableEq

/-- The middle of bid and ask where both are there, else the one that is, else the last price. -/
def quoteMidCents (quote : Quote) : Int64 :=
  if 0 < quote.bidCents ∧ 0 < quote.askCents then
    quote.bidCents + (quote.askCents - quote.bidCents) / 2
  else if 0 < quote.bidCents then quote.bidCents
  else if 0 < quote.askCents then quote.askCents
  else quote.lastCents

def quoteMidPrices (quotes : List Quote) : List (Symbol × Int64) :=
  quotes.map fun quote ↦ (quote.symbol, quoteMidCents quote)

/-- What a map that is collected from pairs holds for a key: the last pair counts. -/
def collected {A : Type} (pairs : List (Symbol × A)) (sym : Symbol) : Option A :=
  (pairs.filter fun pair ↦ pair.1 = sym).getLast?.map Prod.snd

/-- A collected map holds the symbols of its pairs. -/
theorem collected_isNone_iff {A : Type} {pairs : List (Symbol × A)} {sym : Symbol} :
    (collected pairs sym).isNone = true ↔ sym ∉ pairs.map Prod.fst := by
  rw [collected, Option.isNone_iff_eq_none, Option.map_eq_none_iff, List.getLast?_eq_none_iff,
    List.filter_eq_nil_iff, List.mem_map]
  constructor
  · rintro h ⟨pair, hmem, rfl⟩
    exact h pair hmem (decide_eq_true rfl)
  · intro h pair hmem hsym
    exact h ⟨pair, hmem, of_decide_eq_true hsym⟩

theorem mem_of_collected {A : Type} {pairs : List (Symbol × A)} {sym : Symbol} {a : A}
    (h : collected pairs sym = some a) : (sym, a) ∈ pairs := by
  obtain ⟨pair, hlast, rfl⟩ := Option.map_eq_some_iff.mp h
  obtain ⟨hmem, hsym⟩ := List.mem_filter.mp (List.mem_of_getLast? hlast)
  rw [← of_decide_eq_true hsym]
  exact hmem

/-- Without duplicates each pair counts. -/
theorem collected_eq_some_iff {A : Type} {pairs : List (Symbol × A)}
    (hdistinct : (pairs.map Prod.fst).Nodup) {sym : Symbol} {a : A} :
    collected pairs sym = some a ↔ (sym, a) ∈ pairs := by
  refine ⟨mem_of_collected, fun hmem ↦ ?_⟩
  obtain ⟨b, hb⟩ : ∃ b, collected pairs sym = some b := by
    rw [← Option.ne_none_iff_exists', Ne, ← Option.isNone_iff_eq_none, collected_isNone_iff,
      not_not]
    exact List.mem_map_of_mem hmem
  have hpair := List.inj_on_of_nodup_map hdistinct (mem_of_collected hb) hmem rfl
  rw [hb, (Prod.mk.inj hpair).2]

/-- Buys get the middle with the offset added, sells with the offset taken off. -/
def computeLimitPrice (midCents : Int64) (isSell : Bool) (offsetBps : UInt32) : Int64 :=
  let offset := midCents * Int64.ofNat offsetBps.toNat / 10000
  if isSell then midCents - offset else midCents + offset

/-- Classify a trade by the current position and the change. -/
def classifyTrade (currentQty diffQty : Int64) : Action × String :=
  if currentQty = 0 ∧ 0 < diffQty then (.buy, "open")
  else if currentQty = 0 ∧ diffQty < 0 then (.sellShort, "open short")
  else if 0 < currentQty ∧ 0 < diffQty then (.buy, "increase")
  else if 0 < currentQty ∧ diffQty < 0 ∧ diffQty.abs ≤ currentQty then (.sell, "decrease")
  else if 0 < currentQty ∧ diffQty < 0 ∧ currentQty < diffQty.abs then (.sell, "flip to short")
  else if currentQty < 0 ∧ 0 < diffQty ∧ diffQty ≤ currentQty.abs then (.buyCover, "decrease short")
  else if currentQty < 0 ∧ 0 < diffQty ∧ currentQty.abs < diffQty then (.buyCover, "flip to long")
  else if currentQty < 0 ∧ diffQty < 0 then (.sellShort, "increase short")
  else (.buy, "rebalance")

section ComputeDiff

variable {W : Type} (targetValue : Int64 → W → Int64) (equityCents : Int64)
  (currentPositions : List CurrentPosition) (targets : List (Symbol × W))
  (prices : List (Symbol × Int64)) (limitOffsetBps : UInt32) (minTradeCents : Int64)

/-- Close a position that is not among the targets. -/
def closingOrder (pos : CurrentPosition) : Option RebalanceOrder :=
  if pos.quantity = 0 then none
  else if (collected targets pos.symbol).isSome then none
  else
    (collected prices pos.symbol).map fun price ↦
      let (action, description) :=
        if 0 < pos.quantity then (.sell, "close long") else (.buyCover, "close short")
      { symbol := pos.symbol
        action := action
        shares := pos.quantity.abs
        limitPriceCents := computeLimitPrice price (pos.quantity < 0) limitOffsetBps
        description := description }

/-- Move to the weight of a target, unless there is no price or the trade is too small. -/
def targetOrder (target : Symbol × W) : Option RebalanceOrder :=
  match collected prices target.1 with
  | none => none
  | some price =>
      if price ≤ 0 then none
      else
        let currentQty :=
          (collected (currentPositions.map fun p ↦ (p.symbol, p.quantity)) target.1).getD 0
        let diffQty := (targetValue equityCents target.2 - currentQty * price) / price
        if diffQty = 0 then none
        else if diffQty.abs * price < minTradeCents then none
        else
          let (action, description) := classifyTrade currentQty diffQty
          some
            { symbol := target.1
              action := action
              shares := diffQty.abs
              limitPriceCents := computeLimitPrice price (decide (¬ 0 < diffQty)) limitOffsetBps
              description := description }

/-- Positions without a target are closed first. -/
def computeDiff : List RebalanceOrder :=
  currentPositions.filterMap (closingOrder targets prices limitOffsetBps) ++
    targets.filterMap
      (targetOrder targetValue equityCents currentPositions prices limitOffsetBps minTradeCents)

end ComputeDiff

end Nanobook.Rebalancer
