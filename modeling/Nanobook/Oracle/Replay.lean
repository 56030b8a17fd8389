import Nanobook.Corpus
import Nanobook.Oracle.Matching

/-!
# The replay of the oracle

`replay.ml`: the events of a corpus against the oracle's book.  Two things are unlike the exchange.
The order that is stored after a match, and comes to rest, is the one that went into it; and an
order that is cancelled has nothing left by the time its quantity is taken off its level.
-/

namespace Nanobook.Oracle

namespace Book

/-- The next order, with the next timestamp. -/
def newOrder (book : Book) (sub : Submission) : Order × Book :=
  ({ Order.create book.nextOrderId sub.side sub.price sub.quantity book.nextTimestamp
      sub.timeInForce with owner := sub.owner },
    { book with nextOrderId := book.nextOrderId + 1, nextTimestamp := book.nextTimestamp + 1 })

/-- `add_order_to_book`. -/
def addOrder (book : Book) (order : Order) : Book :=
  book.insertInto order.side ⟨order.price, order.remainingQuantity, [order.id]⟩

/-- `remove_order_from_book`. -/
def removeOrder (book : Book) (order : Order) : Book :=
  book.removeFrom order.side order.price order.remainingQuantity

/-- A limit order is matched, stored, and rests or is cancelled. -/
def submitLimit (book : Book) (fuel : Nat) (sub : Submission) (policy : StpPolicy) :
    Option (Book × List Trade) := do
  let (order, book) := book.newOrder sub
  let s ← book.matchOrder fuel order policy
  let book := s.book.storeOrder order
  if s.result.remainingQuantity > 0 then
    if sub.timeInForce = .gtc then some (book.addOrder order, s.result.trades)
    else some (book.storeOrder order.cancel, s.result.trades)
  else some (book, s.result.trades)

/-- A market order is matched as an IOC order at the worst price, and stored. -/
def submitMarket (book : Book) (fuel : Nat) (sub : Submission) (policy : StpPolicy) :
    Option (Book × List Trade) := do
  let (order, book) := book.newOrder sub
  let s ← book.matchOrder fuel order policy
  some (s.book.storeOrder order, s.result.trades)

def cancel (book : Book) (orderId : OrderId) : Book :=
  match book.getOrder orderId with
  | none => book
  | some order =>
      if order.isActive then (book.storeOrder order.cancel).removeOrder order.cancel
      else book

/-- One event, and the trades it makes. -/
def replayEvent (book : Book) (fuel : Nat) : CorpusEvent → Option (Book × List Trade)
  | .submitLimit side price quantity tif owner policy =>
      book.submitLimit fuel ⟨side, price, quantity, tif, owner⟩ policy
  | .submitMarket side quantity owner policy =>
      book.submitMarket fuel ⟨side, side.marketPrice, quantity, .ioc, owner⟩ policy
  | .cancel orderId => some (book.cancel orderId, [])

end Book

/-- The loop of `replay_events`, which collects the trades. -/
def replayStep (fuel : Nat) (acc : Book × List Trade) (event : CorpusEvent) :
    Option (Book × List Trade) := do
  let (book, trades) ← acc.1.replayEvent fuel event
  some (book, acc.2 ++ trades)

/-- `replay_events`. -/
def replayEvents (fuel : Nat) (events : List CorpusEvent) : Option (List Trade) :=
  (events.foldlM (replayStep fuel) (Book.create, [])).map Prod.snd

end Nanobook.Oracle
