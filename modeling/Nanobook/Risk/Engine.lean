import Nanobook.Lib.HashMap
import Nanobook.Portfolio.Arithmetic
import Nanobook.Rebalancer.Types

/-!
# The risk engine

`RiskConfig::validate`, `RiskEngine::check_order` and `check_batch`.  Plain operations on `i64`
wrap, as they do without overflow checks.
-/

namespace Nanobook.Risk

open Rebalancer (Symbol BrokerSide)

/-- What the checks and their texts need of `f64` besides. -/
class RiskF64 (F : Type) extends F64 F where
  abs : F → F
  infinity : F
  /-- `-0.0`, from which a sum starts. -/
  negZero : F
  /-- The text of `{}`. -/
  display : F → String
  /-- The text of `{:.n}`. -/
  fixed : Nat → F → String

open RiskF64 (infinity negZero display fixed)

/-! ## Configuration -/

structure RiskConfig (F : Type) where
  maxPositionPct : F
  maxOrderValueCents : Int64
  maxBatchValueCents : Int64
  maxLeverage : F
  maxDrawdownPct : F
  allowShort : Bool
  maxShortPct : F
  minTradeUsd : F
  maxTradeUsd : F

section Config

variable {F : Type} [RiskF64 F]

/-- Return an error under a condition. -/
def rejectIf (c : Prop) [Decidable c] (message : String) : Except String Unit :=
  if c then .error message else .ok ()

def RiskConfig.validate (config : RiskConfig F) : Except String Unit := do
  let zero : F := F64.ofInt 0
  let one : F := F64.ofInt 1
  rejectIf (!F64.isFinite config.maxPositionPct || F64.le config.maxPositionPct zero ||
      F64.lt one config.maxPositionPct)
    ("max_position_pct must be in (0, 1], got " ++ display config.maxPositionPct)
  rejectIf (!F64.isFinite config.maxLeverage || F64.lt config.maxLeverage one)
    ("max_leverage must be >= 1.0 and finite, got " ++ display config.maxLeverage)
  rejectIf (!F64.isFinite config.maxDrawdownPct || F64.lt config.maxDrawdownPct zero ||
      F64.lt one config.maxDrawdownPct)
    ("max_drawdown_pct must be in [0, 1], got " ++ display config.maxDrawdownPct)
  rejectIf (!F64.isFinite config.maxShortPct || F64.lt config.maxShortPct zero)
    ("max_short_pct must be >= 0 and finite, got " ++ display config.maxShortPct)
  rejectIf (!F64.isFinite config.minTradeUsd || F64.lt config.minTradeUsd zero)
    ("min_trade_usd must be >= 0 and finite, got " ++ display config.minTradeUsd)
  rejectIf (config.maxOrderValueCents < 0)
    ("max_order_value_cents must be >= 0, got " ++ toString config.maxOrderValueCents)
  rejectIf (config.maxBatchValueCents < 0)
    ("max_batch_value_cents must be >= 0, got " ++ toString config.maxBatchValueCents)
  rejectIf (!F64.isFinite config.maxTradeUsd || F64.lt config.maxTradeUsd zero)
    ("max_trade_usd must be >= 0 and finite, got " ++ display config.maxTradeUsd)

/-- `RiskConfig::default`. -/
def RiskConfig.default : RiskConfig F where
  maxPositionPct := F64.ofInt 1 / F64.ofInt 4
  maxOrderValueCents := 10000000
  maxBatchValueCents := 100000000
  maxLeverage := F64.ofInt 3 / F64.ofInt 2
  maxDrawdownPct := F64.ofInt 1 / F64.ofInt 5
  allowShort := true
  maxShortPct := F64.ofInt 3 / F64.ofInt 10
  minTradeUsd := F64.ofInt 100
  maxTradeUsd := F64.ofInt 100000

end Config

/-! ## Reports -/

inductive RiskStatus where
  | pass
  | warn
  | fail
deriving DecidableEq, Repr

structure RiskCheck where
  name : String
  status : RiskStatus
  detail : String
deriving DecidableEq, Repr

structure RiskReport where
  checks : List RiskCheck
deriving DecidableEq, Repr

structure Account where
  equityCents : Int64
  buyingPowerCents : Int64
  cashCents : Int64
  grossPositionValueCents : Int64

/-- An order of a batch. -/
structure BatchOrder where
  symbol : Symbol
  side : BrokerSide
  quantity : UInt64
  priceCents : Int64

def cmpSymbol (status : RiskStatus) : String := if status = .pass then "<=" else ">"

/-- The status of a check that fails under a condition. -/
def failIf (c : Prop) [Decidable c] : RiskStatus := if c then .fail else .pass

/-- The status of a check that warns under a condition. -/
def warnIf (c : Prop) [Decidable c] : RiskStatus := if c then .warn else .pass

section Checks

variable {F : Type} [RiskF64 F]

/-- Cents as a number of dollars. -/
def dollars (cents : Int) : F := F64.ofInt cents / F64.ofInt 100

def percent (x : F) : F := x * F64.ofInt 100

/-- `(max_trade_usd * 100.0) as i64`. -/
def maxTradeCents (config : RiskConfig F) : Int := F64.toI64 (percent config.maxTradeUsd)

def shortSellingCheck : RiskCheck := ⟨"Short selling", .fail, "short selling not allowed"⟩

/-! ## A single order -/

/-- What is held of a symbol, by the first entry for it. -/
def currentQty (currentPositions : List (Symbol × Int64)) (symbol : Symbol) : Int :=
  ((currentPositions.find? fun p ↦ p.1 = symbol).map fun p ↦ p.2.toInt).getD 0

def checkOrder (config : RiskConfig F) (symbol : Symbol) (side : BrokerSide) (quantity : UInt64)
    (priceCents : Int64) (account : Account) (currentPositions : List (Symbol × Int64)) :
    RiskReport :=
  let equity := account.equityCents.toInt
  let quantity := wrapI64 quantity.toNat
  let notional := wrapI64 (quantity * priceCents.toInt)
  let maxOrder := config.maxOrderValueCents.toInt
  let orderStatus := failIf (0 < maxOrder ∧ maxOrder < notional)
  let delta := match side with
    | .buy => quantity
    | .sell => wrapI64 (-quantity)
  let postQty := wrapI64 (currentQty currentPositions symbol + delta)
  let postValue := wrapI64 (wrapI64 |postQty| * priceCents.toInt)
  let postPct : F := if 0 < equity then F64.ofInt postValue / F64.ofInt equity else F64.ofInt 0
  let posStatus := failIf (F64.lt config.maxPositionPct postPct = true)
  let orderSizeStatus := warnIf (maxTradeCents config < notional)
  ⟨[⟨"Max order value", orderStatus, "$" ++ fixed 0 (dollars notional : F) ++ " " ++
        cmpSymbol orderStatus ++ " $" ++ fixed 0 (dollars maxOrder : F) ++
        " max_order_value_cents"⟩,
    ⟨"Max position", posStatus, fixed 1 (percent postPct) ++ "% (" ++ symbol.asStr ++ ") " ++
        cmpSymbol posStatus ++ " " ++ fixed 1 (percent config.maxPositionPct) ++ "% limit"⟩,
    ⟨"Order size", orderSizeStatus, "$" ++ fixed 2 (dollars notional : F) ++ " " ++
        cmpSymbol orderSizeStatus ++ " $" ++ fixed 2 config.maxTradeUsd ++ " max"⟩] ++
    if side = .sell ∧ postQty < 0 ∧ config.allowShort = false then [shortSellingCheck] else []⟩

/-! ## A batch -/

/-- Ratio to the equity, infinite where there is none. -/
def ratioOrInf (numerator equity : Int) : F :=
  if 0 < equity then F64.ofInt numerator / F64.ofInt equity else infinity

/-- `i64::try_from(qty).unwrap_or(i64::MAX)`. -/
def BatchOrder.qtyI64 (o : BatchOrder) : Int := min o.quantity.toNat i64Max

def BatchOrder.notional (o : BatchOrder) : Int := satMul o.qtyI64 (satAbs o.priceCents.toInt)

/-- The positions after the orders. -/
def postQty (orders : List BatchOrder) (currentPositions : List (Symbol × Int64)) :
    HashMap Symbol Int :=
  orders.foldl (fun m o ↦
    let sign := match o.side with
      | .buy => 1
      | .sell => -1
    m.insert o.symbol (wrapI64 ((m.get? o.symbol).getD 0 + satMul sign o.qtyI64)))
    (currentPositions.foldl (fun m p ↦ m.insert p.1 p.2.toInt) .empty)

/-- The value of the positions of a kind, at the last price given for each. -/
def exposure (order : HashMap.Order Symbol) (orders : List BatchOrder)
    (currentPositions : List (Symbol × Int64)) (keep : Int → Bool) : Int :=
  let priceMap : HashMap Symbol Int :=
    orders.foldl (fun m o ↦ m.insert o.symbol o.priceCents.toInt) .empty
  ((((postQty orders currentPositions).iter order).filter fun e ↦ keep e.2).map fun e ↦
    satMul (satAbs e.2) (satAbs ((priceMap.get? e.1).getD 0))).foldl satAdd 0

/-- The largest weight and its symbol. -/
def worstWeight (targetWeights : List (Symbol × F)) : F × Symbol :=
  targetWeights.foldl (fun worst e ↦
    let absW := RiskF64.abs e.2
    if F64.lt worst.1 absW then (absW, e.1) else worst) (F64.ofInt 0, ⟨"?", by decide⟩)

def maxPositionCheck (config : RiskConfig F) (targetWeights : List (Symbol × F)) : RiskCheck :=
  let worst := worstWeight targetWeights
  let status := failIf (F64.lt config.maxPositionPct worst.1 = true)
  ⟨"Max position", status, fixed 1 (percent worst.1) ++ "% (" ++ worst.2.asStr ++ ") " ++
    cmpSymbol status ++ " " ++ fixed 1 (percent config.maxPositionPct) ++ "% limit"⟩

def leverageCheck (config : RiskConfig F) (grossExposure equity : Int) : RiskCheck :=
  let leverage : F := ratioOrInf grossExposure equity
  let status := failIf (F64.lt config.maxLeverage leverage = true)
  ⟨"Leverage", status, fixed 2 leverage ++ "x " ++ cmpSymbol status ++ " " ++
    fixed 2 config.maxLeverage ++ "x limit"⟩

/-- Whether something is sold and a position is short afterwards. -/
def hasShorts (order : HashMap.Order Symbol) (orders : List BatchOrder)
    (currentPositions : List (Symbol × Int64)) : Bool :=
  (orders.any fun o ↦ o.side = .sell) &&
    ((postQty orders currentPositions).iter order).any fun e ↦ e.2 < 0

def shortExposureCheck (config : RiskConfig F) (shortExposure equity : Int) : RiskCheck :=
  let shortPct : F := ratioOrInf shortExposure equity
  let status := failIf (F64.lt config.maxShortPct shortPct = true)
  ⟨"Short exposure", status, fixed 1 (percent shortPct) ++ "% " ++ cmpSymbol status ++ " " ++
    fixed 1 (percent config.maxShortPct) ++ "% limit"⟩

/-- An order above the limit for its value. -/
def maxOrderValueCheck (config : RiskConfig F) (o : BatchOrder) : Option RiskCheck :=
  let maxOrder := config.maxOrderValueCents.toInt
  if 0 < maxOrder ∧ maxOrder < o.notional then
    some ⟨"Max order value", .fail, o.symbol.asStr ++ ": $" ++ fixed 0 (dollars o.notional : F) ++
      " > $" ++ fixed 0 (dollars maxOrder : F) ++ " max_order_value_cents"⟩
  else none

def maxBatchValueCheck (config : RiskConfig F) (orders : List BatchOrder) : Option RiskCheck :=
  let batchValue := (orders.map BatchOrder.notional).foldl satAdd 0
  let maxBatch := config.maxBatchValueCents.toInt
  if 0 < maxBatch ∧ maxBatch < batchValue then
    some ⟨"Max batch value", .fail, "$" ++ fixed 0 (dollars batchValue : F) ++ " > $" ++
      fixed 0 (dollars maxBatch : F) ++ " max_batch_value_cents"⟩
  else none

def maxTradeSizeCheck (config : RiskConfig F) (o : BatchOrder) : Option RiskCheck :=
  if maxTradeCents config < o.notional then
    some ⟨"Max trade size", .warn, o.symbol.asStr ++ ": $" ++ fixed 0 (dollars o.notional : F) ++
      " > $" ++ fixed 0 config.maxTradeUsd ++ " max_trade_usd"⟩
  else none

def weightAllocationCheck (order : HashMap.Order Symbol) (targetWeights : List (Symbol × F)) :
    RiskCheck :=
  let targetMap : HashMap Symbol F := targetWeights.foldl (fun m e ↦ m.insert e.1 e.2) .empty
  let weights := (targetMap.iter order).map Prod.snd
  let zero := F64.ofInt 0
  let longSum := (weights.filter fun w ↦ F64.lt zero w).foldl (· + ·) negZero
  let shortSum := ((weights.filter fun w ↦ F64.lt w zero).map RiskF64.abs).foldl (· + ·) negZero
  ⟨"Weight allocation", .pass, fixed 1 (percent longSum) ++ "% long, " ++
    fixed 1 (percent shortSum) ++ "% short, " ++
    fixed 1 (percent (F64.ofInt 1 - longSum)) ++ "% cash"⟩

def checkBatch (order : HashMap.Order Symbol) (config : RiskConfig F) (orders : List BatchOrder)
    (account : Account) (currentPositions : List (Symbol × Int64))
    (targetWeights : List (Symbol × F)) : RiskReport :=
  let equity := account.equityCents.toInt
  let shorts :=
    if hasShorts order orders currentPositions ∧ config.allowShort = false then shortSellingCheck
    else shortExposureCheck config (exposure order orders currentPositions fun qty ↦ qty < 0) equity
  ⟨[maxPositionCheck config targetWeights,
    leverageCheck config (exposure order orders currentPositions fun _ ↦ true) equity, shorts] ++
    orders.filterMap (maxOrderValueCheck config) ++ (maxBatchValueCheck config orders).toList ++
    orders.filterMap (maxTradeSizeCheck config) ++
    [⟨"Order count", .pass, toString orders.length ++ " orders"⟩,
      weightAllocationCheck order targetWeights]⟩

end Checks

/-! ## The engine -/

/-- An engine has a valid configuration. -/
structure RiskEngine (F : Type) [RiskF64 F] where
  config : RiskConfig F
  valid : config.validate = .ok ()

/-- `RiskEngine::new`. -/
def RiskEngine.new {F : Type} [RiskF64 F] (config : RiskConfig F) : Except String (RiskEngine F) :=
  match h : config.validate with
  | .ok () => .ok ⟨config, h⟩
  | .error e => .error e

end Nanobook.Risk
