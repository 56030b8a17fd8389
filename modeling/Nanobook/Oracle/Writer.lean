import Nanobook.Oracle.Reader

/-!
# The oracle's writer

`json.ml`: `event_to_json`, against `json_to_event`.  A number is written as a native integer of 63
bits, which loses the highest bit of an `Int64`, while the reader takes all integers as they are.
An event is read back as it was exactly if none of its numbers needs that bit.

How a JSON value becomes a text is left to `toString`, which stands for `Yojson.Basic.to_string`.
-/

namespace Nanobook.Oracle

open Rebalancer (Json)

/-- `Int64.to_int`, into the native integers. -/
def toNative (i : Int64) : Int := Int.bmod i.toInt (2 ^ 63)

def int64ToJson (i : Int64) : Json := .int (toNative i)

def intOptionToJson : Option Int → Json
  | none => .null
  | some i => .int i

def sideToJson : Side → Json
  | .buy => .str "BUY"
  | .sell => .str "SELL"

def tifToJson : TimeInForce → Json
  | .gtc => .str "GTC"
  | .ioc => .str "IOC"
  | .fok => .str "FOK"

def stpToJson : StpPolicy → Json
  | .off => .str "Off"
  | .cancelNewest => .str "CancelNewest"
  | .cancelOldest => .str "CancelOldest"
  | .decrementAndCancel => .str "DecrementAndCancel"

def eventToJson : Event → Json
  | .submitLimit side price quantity timeInForce owner stpPolicy =>
      .obj [("type", .str "SubmitLimit"), ("side", sideToJson side), ("price", int64ToJson price),
        ("quantity", int64ToJson quantity), ("time_in_force", tifToJson timeInForce),
        ("owner", intOptionToJson owner), ("stp_policy", stpToJson stpPolicy)]
  | .submitMarket side quantity owner stpPolicy =>
      .obj [("type", .str "SubmitMarket"), ("side", sideToJson side),
        ("quantity", int64ToJson quantity), ("owner", intOptionToJson owner),
        ("stp_policy", stpToJson stpPolicy)]
  | .cancel orderId => .obj [("type", .str "Cancel"), ("order_id", int64ToJson orderId)]

/-! ## Reading what was written -/

section RoundTrip

variable (intOfFloat : ℚ → Int)

@[simp] theorem jsonToSide_sideToJson (side : Side) : jsonToSide (sideToJson side) = .ok side := by
  cases side <;> rfl

@[simp] theorem jsonToTif_tifToJson (tif : TimeInForce) : jsonToTif (tifToJson tif) = .ok tif := by
  cases tif <;> rfl

@[simp] theorem jsonToStp_stpToJson (policy : StpPolicy) :
    jsonToStp (stpToJson policy) = .ok policy := by
  cases policy <;> rfl

@[simp] theorem jsonToIntOption_intOptionToJson (owner : Option Int) :
    jsonToIntOption (intOptionToJson owner) = .ok owner := by
  cases owner <;> rfl

/-- A number that was written and read. -/
def narrow (i : Int64) : Int64 := Int64.ofInt (toNative i)

@[simp] theorem jsonToInt64_int64ToJson (i : Int64) :
    jsonToInt64 intOfFloat (int64ToJson i) = .ok (narrow i) := rfl

/-- The numbers of an event that the writer narrows. -/
def Event.numbers : Event → List Int64
  | .submitLimit _ price quantity _ _ _ => [price, quantity]
  | .submitMarket _ quantity _ _ => [quantity]
  | .cancel orderId => [orderId]

def Event.narrowed : Event → Event
  | .submitLimit side price quantity timeInForce owner stpPolicy =>
      .submitLimit side (narrow price) (narrow quantity) timeInForce owner stpPolicy
  | .submitMarket side quantity owner stpPolicy =>
      .submitMarket side (narrow quantity) owner stpPolicy
  | .cancel orderId => .cancel (narrow orderId)

/-- The highest bit of a number is a copy of the one below. -/
def FitsNative (i : Int64) : Prop := -2 ^ 62 ≤ i.toInt ∧ i.toInt < 2 ^ 62

theorem narrow_eq_self_iff (i : Int64) : narrow i = i ↔ FitsNative i := by
  have hlo : -((2 ^ 63 : Nat) / 2 : Int) ≤ toNative i := Int.le_bmod (by decide)
  have hhi : toNative i < ((2 ^ 63 : Nat) + 1 : Int) / 2 := Int.bmod_lt (by decide)
  have hread : (narrow i).toInt = toNative i := Int64.toInt_ofInt_of_le (by omega) (by omega)
  constructor
  · intro h
    rw [h] at hread
    exact ⟨by omega, by omega⟩
  · rintro ⟨hge, hlt⟩
    refine Int64.toInt_inj.mp (hread.trans (Int.bmod_eq_of_le ?_ ?_))
    · omega
    · omega

/-- What was written is read with its numbers narrowed. -/
theorem jsonToEvent_eventToJson (event : Event) :
    jsonToEvent intOfFloat (eventToJson event) = .ok event.narrowed := by
  cases event with
  | submitLimit side price quantity timeInForce owner stpPolicy =>
      simp [jsonToEvent, eventToJson, assoc, List.lookup_cons, tryNotFound, Event.narrowed, bind,
        Except.bind]
  | submitMarket side quantity owner stpPolicy =>
      simp [jsonToEvent, eventToJson, assoc, List.lookup_cons, tryNotFound, Event.narrowed, bind,
        Except.bind]
  | cancel orderId => rfl

theorem Event.narrowed_eq_self_iff (event : Event) :
    event.narrowed = event ↔ ∀ i ∈ event.numbers, narrow i = i := by
  cases event <;> simp [narrowed, numbers]

/-- An event is read back as it was written exactly if its numbers are native. -/
theorem roundTrips_iff (event : Event) :
    jsonToEvent intOfFloat (eventToJson event) = .ok event ↔ ∀ i ∈ event.numbers, FitsNative i := by
  rw [jsonToEvent_eventToJson, Except.ok.injEq, Event.narrowed_eq_self_iff]
  exact forall₂_congr fun i _ ↦ narrow_eq_self_iff i

/-- A price at an end of the range of `Int64` is written as one in the middle of it. -/
theorem not_roundTrips :
    jsonToEvent (fun _ ↦ 0) (eventToJson (.submitLimit .buy Int64.minValue 1 .gtc none .off)) =
        .ok (.submitLimit .buy 0 1 .gtc none .off) ∧
      jsonToEvent (fun _ ↦ 0) (eventToJson (.submitLimit .sell Int64.maxValue 1 .gtc none .off)) =
        .ok (.submitLimit .sell (-1) 1 .gtc none .off) ∧
      ¬ ∀ event, jsonToEvent (fun _ ↦ 0) (eventToJson event) = .ok event := by
  refine ⟨rfl, rfl, fun h ↦ ?_⟩
  have hcancel := h (.cancel 4611686018427387904)
  rw [jsonToEvent_eventToJson, Except.ok.injEq, Event.narrowed, Event.cancel.injEq] at hcancel
  exact absurd hcancel (by decide)

/-! ## Files -/

/-- `write_jsonl_file`: a line for each event. -/
def writeJsonlFile (toString : Json → String) (events : List Event) : List String :=
  events.map fun event ↦ toString (eventToJson event)

/-- Of a file that was written every event is read, with its numbers narrowed. -/
theorem readLines_writeJsonlFile {fromString : String → Except Exn Json} {toString : Json → String}
    (hread : ∀ json, fromString (toString json) = .ok json)
    (hblank : ∀ json, trimBy isSpace (toString json) ≠ "") (events : List Event) :
    readLines intOfFloat fromString (writeJsonlFile toString events) =
      events.map Event.narrowed := by
  induction events with
  | nil => rfl
  | cons event events ih =>
      have hline : parseJsonlLine intOfFloat fromString (toString (eventToJson event)) =
          some event.narrowed := by
        rw [parseJsonlLine, hread]
        exact congrArg Except.toOption (jsonToEvent_eventToJson intOfFloat event)
      rw [writeJsonlFile] at ih ⊢
      simp only [List.map_cons, readLines, hblank, if_false, hline, ih]

end RoundTrip

end Nanobook.Oracle
