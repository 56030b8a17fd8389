import Nanobook.Corpus
import Nanobook.Rebalancer.Types
import Nanobook.Text

/-!
# Reading a corpus

The field readers of `corpus-replay.rs`, `parse_event_line` and the loop of `replay_file`, on the
lines of a file.  How a text becomes a JSON value is left to `fromStr`, which stands for
`serde_json`.
-/

namespace Nanobook

open Rebalancer (Json)

namespace Rebalancer.Json

def asU64 : Json → Option UInt64
  | int n => if 0 ≤ n ∧ n < 2 ^ 64 then some (UInt64.ofNat n.toNat) else none
  | _ => none

def isNull : Json → Bool
  | null => true
  | _ => false

end Rebalancer.Json

/-! ## Numbers -/

def digit (c : Char) : Nat := c.toNat - '0'.toNat

/-- `i64::from_str`: an optional sign and decimal digits, within range. -/
def parseI64 (s : String) : Option Int64 :=
  let (negative, digits) : Bool × List Char := match s.toList with
    | '-' :: cs => (true, cs)
    | '+' :: cs => (false, cs)
    | cs => (false, cs)
  if digits.isEmpty || !digits.all Char.isDigit then none
  else
    let magnitude : Int := ofDigits 10 (digits.map digit)
    let value := if negative then -magnitude else magnitude
    if -2 ^ 63 ≤ value ∧ value < 2 ^ 63 then some (Int64.ofInt value) else none

/-! ## Fields -/

def stpPolicyFromCorpusStr : String → Option StpPolicy
  | "Off" => some .off
  | "CancelNewest" => some .cancelNewest
  | "CancelOldest" => some .cancelOldest
  | "DecrementAndCancel" => some .decrementAndCancel
  | _ => none

def parseSide : String → Option Side
  | "BUY" => some .buy
  | "SELL" => some .sell
  | _ => none

def parseTif : String → Option TimeInForce
  | "GTC" => some .gtc
  | "IOC" => some .ioc
  | "FOK" => some .fok
  | _ => none

def jsonStringField (obj : Json) (key : String) : Option String := (obj.get key).bind Json.asStr

/-- A number, or a string that reads as one. -/
def jsonI64Field (obj : Json) (key : String) : Option Int64 := do
  let v ← obj.get key
  v.asI64.or (v.asStr.bind parseI64)

/-- A number; a negative one wraps. -/
def jsonU64Field (obj : Json) (key : String) : Option UInt64 := do
  let v ← obj.get key
  v.asU64.or (v.asI64.map Int64.toUInt64)

/-- A missing owner and `null` are no owner; a number is cut to 32 bits. -/
def jsonOwnerField (obj : Json) : Option (Option OrderOwner) :=
  match obj.get "owner" with
  | none => some none
  | some v =>
      if v.isNull then some none
      else (v.asU64.or (v.asI64.map Int64.toUInt64)).map fun n ↦ some n.toUInt32.toNat

def jsonStpField (obj : Json) : Option StpPolicy :=
  match obj.get "stp_policy" with
  | none => some .off
  | some v => v.asStr.bind stpPolicyFromCorpusStr

/-! ## Events -/

/-- `Option::ok_or`. -/
def okOr {α : Type} (x : Option α) (error : String) : Except String α :=
  match x with
  | some a => .ok a
  | none => .error error

/-- What `parse_event_line` makes of a JSON value. -/
def parseEvent (obj : Json) : Except String CorpusEvent := do
  let eventType ← okOr (jsonStringField obj "type") "missing type"
  match eventType with
  | "SubmitLimit" =>
      let side ← okOr ((jsonStringField obj "side").bind parseSide) "invalid side"
      let price ← okOr (jsonI64Field obj "price") "invalid price"
      let quantity ← okOr (jsonU64Field obj "quantity") "invalid quantity"
      let timeInForce ← okOr ((jsonStringField obj "time_in_force").bind parseTif)
        "invalid time_in_force"
      let owner ← okOr (jsonOwnerField obj) "invalid owner"
      let stpPolicy ← okOr (jsonStpField obj) "invalid stp_policy"
      .ok (.submitLimit side price.toInt quantity.toNat timeInForce owner stpPolicy)
  | "SubmitMarket" =>
      let side ← okOr ((jsonStringField obj "side").bind parseSide) "invalid side"
      let quantity ← okOr (jsonU64Field obj "quantity") "invalid quantity"
      let owner ← okOr (jsonOwnerField obj) "invalid owner"
      let stpPolicy ← okOr (jsonStpField obj) "invalid stp_policy"
      .ok (.submitMarket side quantity.toNat owner stpPolicy)
  | "Cancel" =>
      let orderId ← okOr (jsonU64Field obj "order_id") "invalid order_id"
      .ok (.cancel orderId.toNat)
  | _ => .error ("unknown event type: " ++ eventType)

section Reader

variable (fromStr : String → Except String Json)

def parseEventLine (line : String) : Except String CorpusEvent :=
  let line := trim line
  if line = "" then .error "empty line"
  else
    match fromStr line with
    | .error e => .error ("invalid json: " ++ e)
    | .ok obj => parseEvent obj

/-- The loop of `replay_file`: blank lines are skipped, the first bad line rejects the file. -/
def readEvents : List String → Except String (List CorpusEvent)
  | [] => .ok []
  | line :: lines =>
      if trim line = "" then readEvents lines
      else do
        let event ← parseEventLine fromStr line
        let events ← readEvents lines
        .ok (event :: events)

/-- `replay_file`: the trades of a file. -/
def replayFile (fuel : Nat) (lines : List String) : Except String (Option (List Trade)) := do
  let events ← readEvents fromStr lines
  .ok (Exchange.replayCorpus fuel events)

end Reader

end Nanobook
