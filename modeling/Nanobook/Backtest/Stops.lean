import Nanobook.Portfolio.Rebalance

/-!
# Stops

The stop simulation of `backtest_bridge.rs`.  After the rebalance of a period the tracker of every
open position is brought up to its close, and a position whose close has reached the stop level is
closed there.
-/

namespace Nanobook

open Rebalancer (Symbol)

variable {F : Type} [F64 F]

open F64

structure BacktestStopConfig (F : Type) where
  fixedStopPct : Option F
  trailingStopPct : Option F
  atrMultiple : Option F
  atrPeriod : Nat

def sanitizePct (v : Option F) : Option F :=
  v.filter fun x ↦ isFinite x && lt (ofInt 0) x && lt x (ofInt 1)

def sanitizePositive (v : Option F) : Option F := v.filter fun x ↦ isFinite x && lt (ofInt 0) x

/-- The usable part of a configuration, if there is any. -/
def BacktestStopConfig.sanitized (cfg : BacktestStopConfig F) : Option (BacktestStopConfig F) :=
  let fixed := sanitizePct cfg.fixedStopPct
  let trailing := sanitizePct cfg.trailingStopPct
  let atrMultiple := sanitizePositive cfg.atrMultiple
  if fixed.isNone ∧ trailing.isNone ∧ atrMultiple.isNone then none
  else some ⟨fixed, trailing, atrMultiple, max cfg.atrPeriod 1⟩

/-- Trigger reason. -/
inductive StopReason where
  | fixed
  | trailing
  | atr
deriving DecidableEq, Repr

structure BacktestStopEvent where
  periodIndex : Nat
  symbol : Symbol
  triggerPrice : Int
  exitPrice : Int
  reason : StopReason
deriving DecidableEq

/-! ## Trackers -/

/-- The side is 1 for a long position and -1 for a short one. -/
structure StopTracker where
  side : Int
  entryPrice : Int
  referencePrice : Int
  lastPrice : Int
  absChanges : List Int
deriving DecidableEq

namespace StopTracker

def new (entryPrice side : Int) : StopTracker := ⟨side, entryPrice, entryPrice, entryPrice, []⟩

def update (tracker : StopTracker) (price : Int) (atrPeriod : Nat) : StopTracker :=
  if price ≤ 0 then tracker
  else
    let delta := wrapI64 |wrapI64 (price - tracker.lastPrice)|
    let absChanges := tracker.absChanges ++ [delta]
    { tracker with
      absChanges := absChanges.drop (absChanges.length - max atrPeriod 1 * 6)
      lastPrice := price
      referencePrice :=
        if 0 < tracker.side then max tracker.referencePrice price else min tracker.referencePrice
          price }

/-- The mean of the latest changes. -/
def atr (tracker : StopTracker) (atrPeriod : Nat) : Option F :=
  if tracker.absChanges = [] then none
  else
    let k := min (max atrPeriod 1) tracker.absChanges.length
    let tail := tracker.absChanges.drop (tracker.absChanges.length - k)
    some ((tail.map ofInt).foldl (· + ·) (ofInt 0) / ofInt k)

end StopTracker

/-- Of equal levels, `max_by_key` takes the last one. -/
def maxLevel : List (Int × StopReason) → Option (Int × StopReason)
  | [] => none
  | c :: cs => some (cs.foldl (fun best c ↦ if best.1 ≤ c.1 then c else best) c)

/-- Of equal levels, `min_by_key` takes the first one. -/
def minLevel : List (Int × StopReason) → Option (Int × StopReason)
  | [] => none
  | c :: cs => some (cs.foldl (fun best c ↦ if c.1 < best.1 then c else best) c)

/-- The level that is reached first, of those that are configured. -/
def effectiveStopLevel (cfg : BacktestStopConfig F) (tracker : StopTracker) :
    Option (Int × StopReason) :=
  let level (x : F) : Int := max (toI64 (round x)) 1
  let away (price : Int) (p : F) : Int :=
    if 0 < tracker.side then level (ofInt price * (ofInt 1 - p))
    else level (ofInt price * (ofInt 1 + p))
  let fixed := cfg.fixedStopPct.map fun p ↦ (away tracker.entryPrice p, StopReason.fixed)
  let trailing :=
    cfg.trailingStopPct.map fun p ↦ (away tracker.referencePrice p, StopReason.trailing)
  let atr := cfg.atrMultiple.bind fun mult ↦ (tracker.atr cfg.atrPeriod).map fun atr ↦
    (if 0 < tracker.side then level (ofInt tracker.referencePrice - mult * atr)
      else level (ofInt tracker.referencePrice + mult * atr), StopReason.atr)
  let candidates := fixed.toList ++ trailing.toList ++ atr.toList
  if 0 < tracker.side then maxLevel candidates else minLevel candidates

/-! ## The stop step -/

/-- What the stop step of a period works on. -/
structure StopState (F : Type) where
  portfolio : Portfolio F
  trackers : Symbol → Option StopTracker
  events : List BacktestStopEvent

/-- An open position with a positive close. -/
structure OpenPosition where
  symbol : Symbol
  qty : Shares
  price : Int

omit [F64 F] in
/-- The positions that can be stopped out. -/
def Portfolio.openPositions (p : Portfolio F) (order : HashMap.Order Symbol) (prices : PriceMap) :
    List OpenPosition :=
  (p.positions.iter order).filterMap fun e ↦
    if e.2.isFlat then none
    else (prices e.1).bind fun px ↦ if px ≤ 0 then none else some ⟨e.1, e.2.quantity, px⟩

variable (cfg : BacktestStopConfig F) (periodIndex : Nat)

/-- The tracker of an open position at its close: a new one if there is none for its side. -/
def trackerAt (trackers : Symbol → Option StopTracker) (pos : OpenPosition) : StopTracker :=
  let side : Int := if 0 ≤ pos.qty then 1 else -1
  match trackers pos.symbol with
  | none => .new pos.price side
  | some tracker =>
      if tracker.side ≠ side then .new pos.price side else tracker.update pos.price cfg.atrPeriod

/-- The level the close has reached, if it has. -/
def breach (tracker : StopTracker) (price : Int) : Option (Int × StopReason) :=
  (effectiveStopLevel cfg tracker).filter fun stop ↦
    if 0 < tracker.side then price ≤ stop.1 else stop.1 ≤ price

/-- Update the tracker of a position, and close the position if its stop is reached. -/
def stopPosition (st : StopState F) (pos : OpenPosition) : Option (StopState F) :=
  let tracker := trackerAt cfg st.trackers pos
  let trackers := Function.update st.trackers pos.symbol (some tracker)
  match breach cfg tracker pos.price with
  | none => some { st with trackers }
  | some (stopLevel, reason) => do
      let p := st.portfolio.setExecutionContext periodIndex .stopExit
      let (p, closed) ← p.closePositionAt pos.symbol pos.price
      if closed then
        some
          { portfolio := p
            trackers := Function.update trackers pos.symbol none
            events := st.events ++ [⟨periodIndex, pos.symbol, stopLevel, pos.price, reason⟩] }
      else some { st with portfolio := p, trackers }

/-- `apply_stop_cfg`. -/
def applyStopCfg (order : HashMap.Order Symbol) (prices : PriceMap) (st : StopState F) :
    Option (StopState F) :=
  let openPositions := st.portfolio.openPositions order prices
  let trackers sym := if sym ∈ openPositions.map OpenPosition.symbol then st.trackers sym else none
  openPositions.foldlM (stopPosition cfg periodIndex) { st with trackers }

end Nanobook
