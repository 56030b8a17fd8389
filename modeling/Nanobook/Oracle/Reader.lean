import Nanobook.Corpus.Reader

/-!
# The oracle's reader

`json.ml`: the coercions of a JSON value, `json_to_event`, and the loop of `parse_jsonl_file` on the
lines of a file.  A coercion that fails raises an exception.

How a text becomes a JSON value and what becomes of a floating point number out of range are left to
`fromString` and `intOfFloat`, which stand for `Yojson.Basic.from_string` and `int_of_float`.
-/

namespace Nanobook.Oracle

open Rebalancer (Json)

/-- The exceptions the reader may raise. -/
inductive Exn where
  | notFound
  | invalidArg (message : String)
  | failure (message : String)
  | jsonError (message : String)
deriving DecidableEq, Repr

/-- An event of `replay.ml`. -/
inductive Event where
  | submitLimit (side : Side) (price quantity : Int64) (timeInForce : TimeInForce)
      (owner : Option Int) (stpPolicy : StpPolicy)
  | submitMarket (side : Side) (quantity : Int64) (owner : Option Int) (stpPolicy : StpPolicy)
  | cancel (orderId : Int64)
deriving DecidableEq

/-! ## Numbers in strings -/

/-- `parse_digit`. -/
def parseDigit (c : Char) : Option Nat :=
  if '0' ≤ c ∧ c ≤ '9' then some (c.toNat - '0'.toNat)
  else if 'A' ≤ c ∧ c ≤ 'F' then some (c.toNat - 'A'.toNat + 10)
  else if 'a' ≤ c ∧ c ≤ 'f' then some (c.toNat - 'a'.toNat + 10)
  else none

/-- Whether there is a minus sign, and what follows the sign. -/
def parseSign : List Char → Bool × List Char
  | '-' :: cs => (true, cs)
  | '+' :: cs => (false, cs)
  | cs => (false, cs)

/-- The base, whether the number is signed, and what follows the prefix. -/
def parseBase : List Char → Nat × Bool × List Char
  | '0' :: c :: cs =>
      if c = 'x' ∨ c = 'X' then (16, false, cs)
      else if c = 'o' ∨ c = 'O' then (8, false, cs)
      else if c = 'b' ∨ c = 'B' then (2, false, cs)
      else if c = 'u' ∨ c = 'U' then (10, false, cs)
      else (10, true, '0' :: c :: cs)
  | cs => (10, true, cs)

/-- A digit, and digits and underscores behind it. -/
def parseDigits (base : Nat) : List Char → Option (List Nat)
  | [] => none
  | c :: cs => (c :: cs.filter (· ≠ '_')).mapM fun c ↦ (parseDigit c).filter (· < base)

/-- `of_string` of the integers of a width.  A number with a prefix may use the sign bit. -/
def ofString (bits : Nat) (s : String) : Option Int := do
  let (negative, cs) := parseSign s.toList
  let (base, signed, cs) := parseBase cs
  let digits ← parseDigits base cs
  let magnitude := ofDigits base digits
  let fits :=
    if !signed then decide (magnitude < 2 ^ bits)
    else if negative then decide (magnitude ≤ 2 ^ (bits - 1))
    else decide (magnitude < 2 ^ (bits - 1))
  if fits then some (Int.bmod (if negative then -magnitude else magnitude) (2 ^ bits)) else none

/-- `int_of_string`. -/
def intOfString (s : String) : Except Exn Int :=
  match ofString 63 s with
  | some n => .ok n
  | none => .error (.failure "int_of_string")

/-- `Int64.of_string`. -/
def int64OfString (s : String) : Except Exn Int64 :=
  match ofString 64 s with
  | some n => .ok (Int64.ofInt n)
  | none => .error (.failure "Int64.of_string")

/-! ## Coercions -/

/-- `List.assoc`. -/
def assoc (key : String) (fields : List (String × Json)) : Except Exn Json :=
  match fields.lookup key with
  | some v => .ok v
  | none => .error .notFound

/-- `try ... with Not_found -> default`. -/
def tryNotFound {α : Type} (x : Except Exn α) (default : α) : Except Exn α :=
  match x with
  | .error .notFound => .ok default
  | x => x

def jsonToIntOption : Json → Except Exn (Option Int)
  | .null => .ok none
  | .int i => .ok (some i)
  | .str s => do
      let i ← intOfString s
      .ok (some i)
  | _ => .error (.invalidArg "invalid int option")

def jsonToSide : Json → Except Exn Side
  | .str "BUY" => .ok .buy
  | .str "SELL" => .ok .sell
  | _ => .error (.invalidArg "invalid side")

def jsonToTif : Json → Except Exn TimeInForce
  | .str "GTC" => .ok .gtc
  | .str "IOC" => .ok .ioc
  | .str "FOK" => .ok .fok
  | _ => .error (.invalidArg "invalid time_in_force")

def jsonToStp : Json → Except Exn StpPolicy
  | .str "Off" => .ok .off
  | .str "CancelNewest" => .ok .cancelNewest
  | .str "CancelOldest" => .ok .cancelOldest
  | .str "DecrementAndCancel" => .ok .decrementAndCancel
  | _ => .error (.invalidArg "invalid stp_policy")

section Reader

variable (intOfFloat : ℚ → Int)

def jsonToInt64 : Json → Except Exn Int64
  | .int i => .ok (Int64.ofInt i)
  | .str s => int64OfString s
  | .float f => .ok (Int64.ofInt (intOfFloat f))
  | _ => .error (.invalidArg "invalid int64")

/-! ## Events -/

def jsonToEvent : Json → Except Exn Event
  | .obj fields => do
      let eventType ← assoc "type" fields
      match eventType with
      | .str "SubmitLimit" =>
          let side ← jsonToSide (← assoc "side" fields)
          let price ← jsonToInt64 intOfFloat (← assoc "price" fields)
          let quantity ← jsonToInt64 intOfFloat (← assoc "quantity" fields)
          let timeInForce ← jsonToTif (← assoc "time_in_force" fields)
          let owner ← tryNotFound (do jsonToIntOption (← assoc "owner" fields)) none
          let stpPolicy ← tryNotFound (do jsonToStp (← assoc "stp_policy" fields)) .off
          .ok (.submitLimit side price quantity timeInForce owner stpPolicy)
      | .str "SubmitMarket" =>
          let side ← jsonToSide (← assoc "side" fields)
          let quantity ← jsonToInt64 intOfFloat (← assoc "quantity" fields)
          let owner ← tryNotFound (do jsonToIntOption (← assoc "owner" fields)) none
          let stpPolicy ← tryNotFound (do jsonToStp (← assoc "stp_policy" fields)) .off
          .ok (.submitMarket side quantity owner stpPolicy)
      | .str "Cancel" =>
          let orderId ← jsonToInt64 intOfFloat (← assoc "order_id" fields)
          .ok (.cancel orderId)
      | _ => .error (.invalidArg "invalid event type")
  | _ => .error (.invalidArg "invalid event format")

variable (fromString : String → Except Exn Json)

/-- Whatever is raised, there is no event. -/
def parseJsonlLine (line : String) : Option Event :=
  (do jsonToEvent intOfFloat (← fromString line)).toOption

/-- The white space of `String.trim`. -/
def isSpace (c : Char) : Bool :=
  c = ' ' || c.toNat = 12 || c = '\n' || c = '\r' || c = '\t'

/-- The loop `read_lines`: blank lines are skipped, and so are lines without an event. -/
def readLines : List String → List Event
  | [] => []
  | line :: lines =>
      if trimBy isSpace line = "" then readLines lines
      else
        match parseJsonlLine intOfFloat fromString line with
        | some event => event :: readLines lines
        | none => readLines lines

/-- Nothing is raised on the way. -/
def parseJsonlFile (lines : List String) : Except Exn (List Event) :=
  .ok (readLines intOfFloat fromString lines)

end Reader

end Nanobook.Oracle
