import Nanobook.Run

/-!
# Replaying a corpus

`corpus-replay.rs`: the events of a golden corpus are submitted to an exchange one after another,
and the trades it has recorded at the end are the result.  A market order with an owner goes in as
an IOC order at the worst price.  `Nanobook.Corpus.Reader` reads the events.
-/

namespace Nanobook

/-- An event of a corpus, with a policy of its own for each submission. -/
inductive CorpusEvent where
  | submitLimit (side : Side) (price : Price) (quantity : Quantity) (tif : TimeInForce)
      (owner : Option OrderOwner) (stpPolicy : StpPolicy)
  | submitMarket (side : Side) (quantity : Quantity) (owner : Option OrderOwner)
      (stpPolicy : StpPolicy)
  | cancel (orderId : OrderId)
deriving DecidableEq, Repr

namespace CorpusEvent

/-- The operation an event is replayed by. -/
def op : CorpusEvent → Op
  | .submitLimit side price quantity tif (some owner) _ =>
      .submitLimitWithOwner side price quantity tif owner
  | .submitLimit side price quantity tif none _ => .submitLimit side price quantity tif
  | .submitMarket side quantity (some owner) _ =>
      .submitLimitWithOwner side side.marketPrice quantity .ioc owner
  | .submitMarket side quantity none _ => .submitMarket side quantity
  | .cancel orderId => .cancel orderId

/-- The exchange the operation is performed on, with the policy of the event set. -/
def prepare (ex : Exchange) : CorpusEvent → Exchange
  | .submitLimit _ _ _ _ _ policy | .submitMarket _ _ _ policy => ex.setStpPolicy policy
  | .cancel _ => ex

/-- The submission an event makes, and the policy it makes it under. -/
def submission : CorpusEvent → Option (Submission × StpPolicy)
  | .submitLimit side price quantity tif owner policy =>
      some (⟨side, price, quantity, tif, owner⟩, policy)
  | .submitMarket side quantity owner policy =>
      some (⟨side, side.marketPrice, quantity, .ioc, owner⟩, policy)
  | .cancel _ => none

end CorpusEvent

namespace Exchange

/-- One event of a corpus. -/
def replayEvent (fuel : Nat) (ex : Exchange) (event : CorpusEvent) : Option Exchange :=
  (event.prepare ex).perform fuel event.op

/-- `replay_events`: the trades of a corpus. -/
def replayCorpus (fuel : Nat) (events : List CorpusEvent) : Option (List Trade) :=
  (events.foldlM (replayEvent fuel) create).map Exchange.trades

end Exchange

end Nanobook
