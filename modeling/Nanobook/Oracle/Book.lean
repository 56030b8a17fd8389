import Nanobook.Matching

/-!
# The book of the oracle

`book.ml` of the OCaml oracle.  A side is a list of price levels, best price first; a level has a
quantity and the queue of the ids added there.  Ids stay in the queue: a level goes as a whole, when
its quantity is used up.

Sides, orders with their status, trades and policies are in `side.ml`, `order.ml` and `matching.ml`
what they are in the Rust program, field by field, and so are `Order.create`, `Order.fill` and
`Order.cancel`; they are not defined again.  The `int64` quantity of a level is an integer on which
addition and subtraction wrap.
-/

namespace Nanobook.Oracle

structure PriceLevel where
  price : Price
  quantity : Int
  /-- The ids in order of arrival. -/
  orders : List OrderId
deriving DecidableEq, Repr

structure Book where
  /-- Descending: the best bid comes first. -/
  bids : List PriceLevel
  /-- Ascending: the best ask comes first. -/
  asks : List PriceLevel
  orders : OrdMap OrderId Order
  nextOrderId : OrderId
  nextTradeId : TradeId
  nextTimestamp : Timestamp
deriving DecidableEq

/-- `Int64.max_int`. -/
def int64Max : Int := 2 ^ 63 - 1

/-- Insert a level into a side whose prices are in the order of `before`, or merge it into the level
that is there. -/
def insertLevel (before : Price → Price → Bool) (level : PriceLevel) :
    List PriceLevel → List PriceLevel
  | [] => [level]
  | head :: tail =>
      if before level.price head.price then level :: head :: tail
      else if level.price = head.price then
        { head with
          quantity := wrapI64 (head.quantity + level.quantity)
          orders := head.orders ++ level.orders } :: tail
      else head :: insertLevel before level tail

def insertBid (bids : List PriceLevel) (level : PriceLevel) : List PriceLevel :=
  insertLevel (fun p q ↦ decide (p > q)) level bids

def insertAsk (asks : List PriceLevel) (level : PriceLevel) : List PriceLevel :=
  insertLevel (fun p q ↦ decide (p < q)) level asks

/-- Take a quantity off the level at a price, and the level with it when nothing is left. -/
def removeQuantity (price : Price) (qtyToRemove : Int) : List PriceLevel → List PriceLevel
  | [] => []
  | head :: tail =>
      if head.price = price then
        let newQty := wrapI64 (head.quantity - qtyToRemove)
        if newQty ≤ 0 then tail else { head with quantity := newQty } :: tail
      else head :: removeQuantity price qtyToRemove tail

def removeBid (bids : List PriceLevel) (price : Price) (qtyToRemove : Int) : List PriceLevel :=
  removeQuantity price qtyToRemove bids

def removeAsk (asks : List PriceLevel) (price : Price) (qtyToRemove : Int) : List PriceLevel :=
  removeQuantity price qtyToRemove asks

namespace Book

def create : Book where
  bids := []
  asks := []
  orders := OrdMap.empty
  nextOrderId := 1
  nextTradeId := 1
  nextTimestamp := 1

def levels (book : Book) : Side → List PriceLevel
  | .buy => book.bids
  | .sell => book.asks

def getOrder (book : Book) (id : OrderId) : Option Order := book.orders.get? id

def storeOrder (book : Book) (order : Order) : Book :=
  { book with orders := book.orders.insert order.id order }

/-- Insert a level on a side. -/
def insertInto (book : Book) (side : Side) (level : PriceLevel) : Book :=
  match side with
  | .buy => { book with bids := insertBid book.bids level }
  | .sell => { book with asks := insertAsk book.asks level }

/-- Take a quantity off a level of a side. -/
def removeFrom (book : Book) (side : Side) (price : Price) (quantity : Int) : Book :=
  match side with
  | .buy => { book with bids := removeBid book.bids price quantity }
  | .sell => { book with asks := removeAsk book.asks price quantity }

/-- The price of the first level of a side: `best_bid` and `best_ask`. -/
def bestPrice (book : Book) (side : Side) : Option Price :=
  (book.levels side).head?.map PriceLevel.price

end Book

end Nanobook.Oracle
