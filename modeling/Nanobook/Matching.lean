import Nanobook.Lib.Loop
import Nanobook.Book

/-!
# The matching engine

`matching.rs`: two nested loops.  The outer one takes the opposite side's cached best price while
it crosses; the inner one fills the incoming order against the queue at that price, front first,
and applies self-trade prevention to each resting order it meets.

Neither loop is bounded in the source, so both are run through `Loop.iterate` and `none` stands
for a match that does not return.
-/

namespace Nanobook

/-- Self-trade prevention policy. -/
inductive StpPolicy where
  | off
  | cancelNewest
  | cancelOldest
  | decrementAndCancel
deriving DecidableEq, Repr

structure MatchResult where
  trades : List Trade
  remainingQuantity : Quantity
  /-- Self-trade prevention cancelled what was left of the incoming order. -/
  stpCancelled : Bool
deriving DecidableEq, Repr

/-- The variables of the matching loops. -/
structure MatchState where
  book : OrderBook
  incoming : Order
  result : MatchResult
deriving DecidableEq

/-- Whether an incoming order's limit crosses a resting price. -/
def pricesCross (incomingSide : Side) (incomingPrice restingPrice : Price) : Bool :=
  match incomingSide with
  | .buy => decide (incomingPrice ≥ restingPrice)
  | .sell => decide (incomingPrice ≤ restingPrice)

/-- Both owners are set and equal, and the policy is not `off`. -/
def stpConflict (policy : StpPolicy) (incomingOwner restingOwner : Option OrderOwner) : Bool :=
  match incomingOwner, restingOwner with
  | some i, some r => i == r && policy != .off
  | _, _ => false

namespace MatchState

/-- Cancel what is left of the incoming order and leave the resting one. -/
def cancelIncoming (s : MatchState) : MatchState :=
  { s with
    incoming := s.incoming.stpDecrement s.incoming.remainingQuantity
    result := { s.result with stpCancelled := true } }

def cancelResting (s : MatchState) (restingId : OrderId) : MatchState :=
  { s with book := (s.book.cancelOrder restingId).1 }

/-- The fill section of the inner loop. -/
def fillResting (s : MatchState) (price : Price) (restingId : OrderId)
    (restingRemaining : Quantity) : MatchState :=
  let fillQty := Nat.min s.incoming.remainingQuantity restingRemaining
  let trade : Trade :=
    { id := s.book.nextTradeId
      price := price
      quantity := fillQty
      aggressorOrderId := s.incoming.id
      passiveOrderId := restingId
      aggressorSide := s.incoming.side
      timestamp := s.book.nextTimestamp }
  let book : OrderBook :=
    { s.book with
      nextTradeId := s.book.nextTradeId + 1
      nextTimestamp := s.book.nextTimestamp + 1
      orders := s.book.orders.modify restingId fun o ↦ o.fill fillQty }
  let restingFullyFilled := restingRemaining - fillQty = 0
  { book := book.updateSide s.incoming.side.opposite fun opposite ↦
      if restingFullyFilled then
        (opposite.updateLevel price fun level ↦ level.popFront fillQty).removeIfEmpty price
      else opposite.updateLevel price fun level ↦ level.decreaseQuantity fillQty
    incoming := s.incoming.fill fillQty
    result := { s.result with trades := s.result.trades ++ [trade] } }

/-- The book after `front` was called on the opposite level at `price`. -/
def skipTombstones (s : MatchState) (price : Price) : MatchState :=
  { s with
    book := s.book.updateSide s.incoming.side.opposite fun opposite ↦
      opposite.updateLevel price Level.skipTombstones }

end MatchState

/-- One pass of the loop of `match_at_price`. -/
def matchAtPriceBody (policy : StpPolicy) (price : Price) (s : MatchState) :
    Option (MatchState ⊕ MatchState) :=
  if s.incoming.remainingQuantity = 0 then some (.inl s)
  else
    let front := ((s.book.oppositeSide s.incoming.side).getLevel price).bind Level.front
    let s := s.skipTombstones price
    match front with
    | none => some (.inl s)
    | some restingId =>
        match s.book.getOrder restingId with
        | none =>
            -- an orphaned id: popped without touching the level's total
            some (.inr { s with
              book := s.book.updateSide s.incoming.side.opposite fun opposite ↦
                opposite.updateLevel price fun level ↦ level.popFront 0 })
        | some resting =>
            if stpConflict policy s.incoming.owner resting.owner then
              match policy with
              | .off => some (.inl s)  -- unreachable: there is no conflict under `off`
              | .cancelNewest => some (.inl s.cancelIncoming)
              | .cancelOldest => some (.inr (s.cancelResting restingId))
              | .decrementAndCancel =>
                  if s.incoming.remainingQuantity < resting.remainingQuantity then
                    some (.inl s.cancelIncoming)
                  else some (.inr (s.cancelResting restingId))
            else some (.inr (s.fillResting price restingId resting.remainingQuantity))

def matchAtPrice (fuel : Nat) (policy : StpPolicy) (price : Price) (s : MatchState) :
    Option MatchState :=
  Loop.iterate (matchAtPriceBody policy price) fuel s

/-- One pass of the loop of `match_order_with_policy`. -/
def matchOrderBody (fuel : Nat) (policy : StpPolicy) (s : MatchState) :
    Option (MatchState ⊕ MatchState) :=
  if s.incoming.remainingQuantity = 0 then some (.inl s)
  else
    match (s.book.oppositeSide s.incoming.side).bestPrice with
    | none => some (.inl s)
    | some bestPrice =>
        if pricesCross s.incoming.side s.incoming.price bestPrice then do
          let s ← matchAtPrice fuel policy bestPrice s
          if s.result.stpCancelled then some (.inl s) else some (.inr s)
        else some (.inl s)

namespace OrderBook

/-- The variables on entry to the outer loop. -/
def matchStart (b : OrderBook) (incoming : Order) : MatchState :=
  ⟨b, incoming, ⟨[], incoming.remainingQuantity, false⟩⟩

/-- Match an incoming order: the book, the incoming order and the result afterwards. -/
def matchOrderWithPolicy (b : OrderBook) (fuel : Nat) (incoming : Order) (policy : StpPolicy) :
    Option MatchState := do
  let s ← Loop.iterate (matchOrderBody fuel policy) fuel (b.matchStart incoming)
  some { s with result := { s.result with remainingQuantity := s.incoming.remainingQuantity } }

/-- `match_order`. -/
def matchOrder (b : OrderBook) (fuel : Nat) (incoming : Order) : Option MatchState :=
  b.matchOrderWithPolicy fuel incoming .off

def availableToFill (b : OrderBook) (side : Side) (price : Price) : Quantity :=
  (b.oppositeSide side).quantityAtOrBetter price

def canFullyFill (b : OrderBook) (side : Side) (price : Price) (quantity : Quantity) : Bool :=
  decide (b.availableToFill side price ≥ quantity)

end OrderBook

/-! ## More passes -/

/-- A match that returns within some number of passes returns the same within any larger number. -/
theorem matchAtPrice_mono {fuel fuel' : Nat} (h : fuel ≤ fuel') {policy : StpPolicy} {p : Price}
    {s t : MatchState} (hs : matchAtPrice fuel policy p s = some t) :
    matchAtPrice fuel' policy p s = some t :=
  Loop.iterate_mono (fun _ _ h ↦ h) h hs

theorem matchOrderBody_mono {fuel fuel' : Nat} (h : fuel ≤ fuel') {policy : StpPolicy}
    {s : MatchState} {x : MatchState ⊕ MatchState} (hs : matchOrderBody fuel policy s = some x) :
    matchOrderBody fuel' policy s = some x := by
  simp only [matchOrderBody] at hs ⊢
  split_ifs at hs ⊢ with hr
  · exact hs
  · split at hs
    · exact hs
    · split_ifs at hs ⊢
      · obtain ⟨t, ht, hs⟩ := Option.bind_eq_some_iff.mp hs
        exact Option.bind_eq_some_iff.mpr ⟨t, matchAtPrice_mono h ht, hs⟩
      · exact hs

theorem OrderBook.matchOrderWithPolicy_mono {fuel fuel' : Nat} (h : fuel ≤ fuel') {b : OrderBook}
    {incoming : Order} {policy : StpPolicy} {s : MatchState}
    (hs : b.matchOrderWithPolicy fuel incoming policy = some s) :
    b.matchOrderWithPolicy fuel' incoming policy = some s := by
  obtain ⟨t, ht, hs⟩ := Option.bind_eq_some_iff.mp hs
  exact Option.bind_eq_some_iff.mpr
    ⟨t, Loop.iterate_mono (fun _ _ hx ↦ matchOrderBody_mono h hx) h ht, hs⟩

end Nanobook
