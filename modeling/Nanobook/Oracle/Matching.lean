import Nanobook.Lib.Loop
import Nanobook.Oracle.Book

/-!
# The matching of the oracle

`matching.ml`: as long as the best level of the other side crosses, its queue is walked from the
front, past the ids whose order is gone or not active.  The walk of a queue always ends; the loop
around it need not, and is run through `Loop.iterate`.
-/

namespace Nanobook.Oracle

/-- The book, the incoming order and the result, as the loops update them. -/
structure MatchState where
  book : Book
  incoming : Order
  result : MatchResult
deriving DecidableEq

/-- What the levels of a list that cross hold, up to the first one that does not. -/
def sumLiquidity (incomingSide : Side) (incomingPrice : Price) : Int → List PriceLevel → Int
  | acc, [] => acc
  | acc, level :: rest =>
      if pricesCross incomingSide incomingPrice level.price then
        sumLiquidity incomingSide incomingPrice (wrapI64 (acc + level.quantity)) rest
      else acc

def Book.calculateAvailableLiquidity (book : Book) (incomingSide : Side) (incomingPrice : Price) :
    Int :=
  sumLiquidity incomingSide incomingPrice 0 (book.levels incomingSide.opposite)

namespace MatchState

/-- Cancel the incoming order and leave the resting one. -/
def cancelIncoming (s : MatchState) : MatchState :=
  { s with incoming := s.incoming.cancel, result := { s.result with stpCancelled := true } }

/-- Cancel a resting order, and take what it had left off its level. -/
def cancelResting (s : MatchState) (price : Price) (resting : Order) : MatchState :=
  { s with
    book := (s.book.storeOrder resting.cancel).removeFrom s.incoming.side.opposite price
      resting.remainingQuantity }

/-- Trade with a resting order.  The level loses the quantity whether or not the order is filled. -/
def fillResting (s : MatchState) (price : Price) (resting : Order) : MatchState :=
  let qty := Nat.min s.incoming.remainingQuantity resting.remainingQuantity
  let trade : Trade :=
    { id := s.book.nextTradeId
      price := price
      quantity := qty
      aggressorOrderId := s.incoming.id
      passiveOrderId := resting.id
      aggressorSide := s.incoming.side
      timestamp := s.book.nextTimestamp }
  let book : Book :=
    { s.book with
      nextTradeId := s.book.nextTradeId + 1, nextTimestamp := s.book.nextTimestamp + 1 }
  { book := (book.storeOrder (resting.fill qty)).removeFrom s.incoming.side.opposite price qty
    incoming := s.incoming.fill qty
    result := { s.result with trades := s.result.trades ++ [trade] } }

end MatchState

/-- The orders of one level, first in first out. -/
def processOrders (policy : StpPolicy) (price : Price) : List OrderId → MatchState → MatchState
  | [], s => s
  | orderId :: rest, s =>
      if s.incoming.remainingQuantity = 0 then s
      else
        match s.book.getOrder orderId with
        | none => processOrders policy price rest s
        | some resting =>
            if !resting.isActive then processOrders policy price rest s
            else if stpConflict policy s.incoming.owner resting.owner then
              match policy with
              | .off => s
              | .cancelNewest => s.cancelIncoming
              | .cancelOldest => processOrders policy price rest (s.cancelResting price resting)
              | .decrementAndCancel =>
                  if s.incoming.remainingQuantity < resting.remainingQuantity then s.cancelIncoming
                  else processOrders policy price rest (s.cancelResting price resting)
            else
              let s := s.fillResting price resting
              if s.incoming.remainingQuantity > 0 then processOrders policy price rest s else s

def matchAtPrice (policy : StpPolicy) (price : Price) (s : MatchState) : MatchState :=
  match (s.book.levels s.incoming.side.opposite).find? fun level ↦ level.price = price with
  | none => s
  | some level => processOrders policy price level.orders s

/-- One pass of the loop of `match_order`. -/
def matchOrderBody (policy : StpPolicy) (s : MatchState) : MatchState ⊕ MatchState :=
  if s.incoming.remainingQuantity = 0 then .inl s
  else
    match s.book.bestPrice s.incoming.side.opposite with
    | none => .inl s
    | some restingPrice =>
        if pricesCross s.incoming.side s.incoming.price restingPrice then
          .inr (matchAtPrice policy restingPrice s)
        else .inl s

namespace Book

/-- A FOK order that the levels do not cover. -/
def turnsAway (book : Book) (incoming : Order) : Bool :=
  incoming.timeInForce = .fok && decide (book.calculateAvailableLiquidity incoming.side
    incoming.price < incoming.remainingQuantity)

def matchOrder (book : Book) (fuel : Nat) (incoming : Order) (policy : StpPolicy) :
    Option MatchState :=
  if book.turnsAway incoming then some ⟨book, incoming.cancel, ⟨[], 0, true⟩⟩
  else do
    let s ← Loop.iterate (fun s ↦ some (matchOrderBody policy s)) fuel
      ⟨book, incoming, ⟨[], incoming.remainingQuantity, false⟩⟩
    some { s with result := { s.result with remainingQuantity := s.incoming.remainingQuantity } }

end Book

end Nanobook.Oracle
