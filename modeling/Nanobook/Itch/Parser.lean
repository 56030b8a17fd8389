import Nanobook.Lib.HashMap
import Nanobook.Lib.Program
import Nanobook.Text
import Nanobook.Types

/-!
# The ITCH parser

`ItchParser::next_message` over the bytes that are left to be read.  An index or a range outside a
slice ends a call with a panic, apart from the errors that it returns.
-/

namespace Nanobook.Itch

/-! ## Errors and slices -/

inductive ErrorKind where
  | invalidData
  | unexpectedEof
deriving DecidableEq, Repr

/-- `io::Error`. -/
structure Error where
  kind : ErrorKind
  message : String
deriving DecidableEq, Repr

/-- What ends a call other than its result. -/
inductive Halt where
  | error (e : Error)
  | panic
deriving DecidableEq, Repr

def invalidData (message : String) : Halt := .error ⟨.invalidData, message⟩

/-- What `read_exact` says about too few bytes. -/
def failedToFill : Halt := .error ⟨.unexpectedEof, "failed to fill whole buffer"⟩

def shortPayload (field : String) : Halt := invalidData ("ITCH short payload reading " ++ field)

/-- `slice[start..stop]`. -/
def slice (bytes : List UInt8) (start stop : Nat) : Except Halt (List UInt8) :=
  if start ≤ stop ∧ stop ≤ bytes.length then .ok ((bytes.take stop).drop start) else .error .panic

/-- `slice[i]`. -/
def index (bytes : List UInt8) (i : Nat) : Except Halt UInt8 :=
  match bytes[i]? with
  | some b => .ok b
  | none => .error .panic

/-! ## Numbers -/

/-- The value of big-endian bytes. -/
def fromBeBytes (bytes : List UInt8) : Nat := ofDigits 256 (bytes.map UInt8.toNat)

/-- The value of the first `width` bytes. -/
def readBe (width : Nat) (bytes : List UInt8) (field : String) : Except Halt Nat :=
  if width ≤ bytes.length then .ok (fromBeBytes (bytes.take width)) else .error (shortPayload field)

def readU16Be (bytes : List UInt8) (field : String) : Except Halt UInt16 :=
  (readBe 2 bytes field).map UInt16.ofNat

def readU32Be (bytes : List UInt8) (field : String) : Except Halt UInt32 :=
  (readBe 4 bytes field).map UInt32.ofNat

def readU64Be (bytes : List UInt8) (field : String) : Except Halt UInt64 :=
  (readBe 8 bytes field).map UInt64.ofNat

def readU48Be (bytes : List UInt8) (field : String) : Except Halt UInt64 :=
  (readBe 6 bytes field).map UInt64.ofNat

/-! ## Messages -/

inductive ItchMessage where
  | addOrder (timestamp orderRef : UInt64) (side : Side) (shares : UInt32) (stock : String)
      (price : UInt32)
  | orderExecuted (timestamp orderRef : UInt64) (shares : UInt32) (matchNumber : UInt64)
  | orderExecutedWithPrice (timestamp orderRef : UInt64) (shares : UInt32) (matchNumber : UInt64)
      (printable : Bool) (price : UInt32)
  | orderCancel (timestamp orderRef : UInt64) (shares : UInt32)
  | orderDelete (timestamp orderRef : UInt64)
  | orderReplace (timestamp oldOrderRef newOrderRef : UInt64) (shares price : UInt32)
  | trade (timestamp : UInt64) (side : Side) (shares : UInt32) (stock : String) (price : UInt32)
      (matchNumber : UInt64)
  | stockDirectory (stock : String) (locate : UInt16)
  | other (msgType : Char)
deriving DecidableEq, Repr

/-- Minimum payload sizes, without the byte of the type. -/
def minPayload (msgType : Char) : Nat :=
  match msgType with
  | 'A' | 'F' => 35
  | 'E' => 30
  | 'C' => 35
  | 'X' => 22
  | 'D' => 18
  | 'U' => 34
  | 'P' => 43
  | 'R' => 10
  | _ => 0

def parseSide (b : UInt8) : Side := if b = 'B'.toUInt8 then .buy else .sell

def parseStock (bytes : List UInt8) : String := trim (fromUtf8Lossy bytes)

/-- The fields of a payload, at the offsets of its type. -/
def parsePayload (msgType : Char) (payload : List UInt8) : Except Halt ItchMessage :=
  match msgType with
  | 'A' | 'F' => do
      let timestamp ← readU48Be (← slice payload 4 10) "A/F.timestamp"
      let orderRef ← readU64Be (← slice payload 10 18) "A/F.order_ref"
      let side := parseSide (← index payload 18)
      let shares ← readU32Be (← slice payload 19 23) "A/F.shares"
      let stock := parseStock (← slice payload 23 31)
      let price ← readU32Be (← slice payload 31 35) "A/F.price"
      return .addOrder timestamp orderRef side shares stock price
  | 'E' => do
      let timestamp ← readU48Be (← slice payload 4 10) "E.timestamp"
      let orderRef ← readU64Be (← slice payload 10 18) "E.order_ref"
      let shares ← readU32Be (← slice payload 18 22) "E.shares"
      let matchNumber ← readU64Be (← slice payload 22 30) "E.match_number"
      return .orderExecuted timestamp orderRef shares matchNumber
  | 'C' => do
      let timestamp ← readU48Be (← slice payload 4 10) "C.timestamp"
      let orderRef ← readU64Be (← slice payload 10 18) "C.order_ref"
      let shares ← readU32Be (← slice payload 18 22) "C.shares"
      let matchNumber ← readU64Be (← slice payload 22 30) "C.match_number"
      let printable := (← index payload 30) == 'Y'.toUInt8
      let price ← readU32Be (← slice payload 31 35) "C.price"
      return .orderExecutedWithPrice timestamp orderRef shares matchNumber printable price
  | 'X' => do
      let timestamp ← readU48Be (← slice payload 4 10) "X.timestamp"
      let orderRef ← readU64Be (← slice payload 10 18) "X.order_ref"
      let shares ← readU32Be (← slice payload 18 22) "X.shares"
      return .orderCancel timestamp orderRef shares
  | 'D' => do
      let timestamp ← readU48Be (← slice payload 4 10) "D.timestamp"
      let orderRef ← readU64Be (← slice payload 10 18) "D.order_ref"
      return .orderDelete timestamp orderRef
  | 'U' => do
      let timestamp ← readU48Be (← slice payload 4 10) "U.timestamp"
      let oldOrderRef ← readU64Be (← slice payload 10 18) "U.old_order_ref"
      let newOrderRef ← readU64Be (← slice payload 18 26) "U.new_order_ref"
      let shares ← readU32Be (← slice payload 26 30) "U.shares"
      let price ← readU32Be (← slice payload 30 34) "U.price"
      return .orderReplace timestamp oldOrderRef newOrderRef shares price
  | 'P' => do
      let timestamp ← readU48Be (← slice payload 4 10) "P.timestamp"
      let side := parseSide (← index payload 18)
      let shares ← readU32Be (← slice payload 19 23) "P.shares"
      let stock := parseStock (← slice payload 23 31)
      let price ← readU32Be (← slice payload 31 35) "P.price"
      let matchNumber ← readU64Be (← slice payload 35 43) "P.match_number"
      return .trade timestamp side shares stock price matchNumber
  | 'R' => do
      let locate ← readU16Be (← slice payload 0 2) "R.locate"
      let stock := parseStock (← slice payload 2 10)
      return .stockDirectory stock locate
  | _ => return .other msgType

/-! ## The parser -/

structure ItchParser where
  reader : List UInt8
  stockLocates : HashMap UInt16 String

def ItchParser.new (reader : List UInt8) : ItchParser := ⟨reader, .empty⟩

/-- `read_exact`; where there are too few bytes, they are read all the same. -/
def readExact (n : Nat) : Program Halt ItchParser (List UInt8) := fun parser ↦
  if n ≤ parser.reader.length then
    (.ok (parser.reader.take n), { parser with reader := parser.reader.drop n })
  else
    (.error failedToFill, { parser with reader := [] })

/-- The directory entry of a stock is remembered. -/
def insertLocate (msg : ItchMessage) : Program Halt ItchParser Unit :=
  match msg with
  | .stockDirectory stock locate =>
      .modify fun parser ↦ { parser with stockLocates := parser.stockLocates.insert locate stock }
  | _ => pure ()

/-- The message in a buffer that starts with its type. -/
def parseMessage (msgBuf : List UInt8) : Except Halt ItchMessage := do
  let msgType := Char.ofNat (← index msgBuf 0).toNat
  let payload ← slice msgBuf 1 msgBuf.length
  if payload.length < minPayload msgType then
    .error (invalidData ("ITCH '" ++ msgType.toString ++ "' message too short: " ++
      toString payload.length ++ " bytes, need " ++ toString (minPayload msgType)))
  else parsePayload msgType payload

/-- The message after a length. -/
def readBody (len : Nat) : Program Halt ItchParser (Option ItchMessage) :=
  if len = 0 then .raise (invalidData "ITCH message length is 0")
  else do
    let msgBuf ← readExact len
    let msg ← .lift (parseMessage msgBuf)
    insertLocate msg
    return some msg

/-- Read the next message.  Whatever is wrong with the length ends the stream. -/
def nextMessage : Program Halt ItchParser (Option ItchMessage) := fun parser ↦
  match readExact 2 parser with
  | (.error _, parser) => (.ok none, parser)
  | (.ok lenBuf, parser) => readBody (fromBeBytes lenBuf) parser

end Nanobook.Itch
