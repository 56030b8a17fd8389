import Nanobook.Oracle.Reader

/-!
# The events of a corpus

`event-log-schema.md` says what an event is.  `validEvent` is that, read off a JSON value.  The
reader of the exchange and that of the oracle both read every valid event, and as the same one
exactly if the numbers fit where the exchange cuts them.
-/

namespace Nanobook

open Rebalancer (Json)

/-! ## The schema -/

def isSide : Option Json → Bool
  | some (.str "BUY") | some (.str "SELL") => true
  | _ => false

def isTif : Option Json → Bool
  | some (.str "GTC") | some (.str "IOC") | some (.str "FOK") => true
  | _ => false

def isInteger : Option Json → Bool
  | some (.int _) => true
  | _ => false

def isPositive : Option Json → Bool
  | some (.int n) => 0 < n
  | _ => false

/-- An owner may be missing or `null`. -/
def isOwner : Option Json → Bool
  | none | some .null | some (.int _) => true
  | _ => false

/-- A policy may be missing. -/
def isStpPolicy : Option Json → Bool
  | none | some (.str "Off") | some (.str "CancelNewest") | some (.str "CancelOldest")
  | some (.str "DecrementAndCancel") => true
  | _ => false

/-- An event of a known type with all its fields, each of its type and a quantity that is
positive. -/
def validEvent (obj : Json) : Bool :=
  match obj.get "type" with
  | some (.str "SubmitLimit") =>
      isSide (obj.get "side") && isInteger (obj.get "price") && isPositive (obj.get "quantity") &&
        isTif (obj.get "time_in_force") && isOwner (obj.get "owner") &&
        isStpPolicy (obj.get "stp_policy")
  | some (.str "SubmitMarket") =>
      isSide (obj.get "side") && isPositive (obj.get "quantity") && isOwner (obj.get "owner") &&
        isStpPolicy (obj.get "stp_policy")
  | some (.str "Cancel") => isInteger (obj.get "order_id")
  | _ => false

/-- The order id of a cancellation is not negative and the owner of a submission fits into 32
bits. -/
def inRange (obj : Json) : Bool :=
  match obj.get "type" with
  | some (.str "Cancel") => match obj.get "order_id" with
    | some (.int n) => 0 ≤ n
    | _ => true
  | _ => match obj.get "owner" with
    | some (.int n) => 0 ≤ n && n < 2 ^ 32
    | _ => true

/-- The same event, with a quantity that is positive. -/
def Same : CorpusEvent → Oracle.Event → Prop
  | .submitLimit side price quantity tif owner policy,
      .submitLimit side' price' quantity' tif' owner' policy' =>
      side = side' ∧ price = price'.toInt ∧ (quantity : Int) = quantity'.toInt ∧ 0 < quantity ∧
        tif = tif' ∧ owner.map Int.ofNat = owner' ∧ policy = policy'
  | .submitMarket side quantity owner policy, .submitMarket side' quantity' owner' policy' =>
      side = side' ∧ (quantity : Int) = quantity'.toInt ∧ 0 < quantity ∧
        owner.map Int.ofNat = owner' ∧ policy = policy'
  | .cancel orderId, .cancel orderId' => (orderId : Int) = orderId'.toInt
  | _, _ => False

/-! ## Fields

Each field of an event that is as the schema says, as both readers read it. -/

section Fields

variable {obj : Json} {key : String}

theorem side_spec (h : isSide (obj.get "side") = true) :
    ∃ v side, obj.get "side" = some v ∧ (jsonStringField obj "side").bind parseSide = some side ∧
      Oracle.jsonToSide v = .ok side := by
  simp only [isSide] at h
  split at h
  case h_1 heq => exact ⟨_, .buy, heq, by rw [jsonStringField, heq]; rfl, rfl⟩
  case h_2 heq => exact ⟨_, .sell, heq, by rw [jsonStringField, heq]; rfl, rfl⟩
  case h_3 => cases h

theorem tif_spec (h : isTif (obj.get "time_in_force") = true) :
    ∃ v tif, obj.get "time_in_force" = some v ∧
      (jsonStringField obj "time_in_force").bind parseTif = some tif ∧
        Oracle.jsonToTif v = .ok tif := by
  simp only [isTif] at h
  split at h
  case h_1 heq => exact ⟨_, .gtc, heq, by rw [jsonStringField, heq]; rfl, rfl⟩
  case h_2 heq => exact ⟨_, .ioc, heq, by rw [jsonStringField, heq]; rfl, rfl⟩
  case h_3 heq => exact ⟨_, .fok, heq, by rw [jsonStringField, heq]; rfl, rfl⟩
  case h_4 => cases h

/-- The `stp_policy` field of the oracle's events. -/
def oracleStp (fields : List (String × Json)) : Except Oracle.Exn StpPolicy :=
  Oracle.tryNotFound (do Oracle.jsonToStp (← Oracle.assoc "stp_policy" fields)) .off

/-- The `owner` field of the oracle's events. -/
def oracleOwner (fields : List (String × Json)) : Except Oracle.Exn (Option Int) :=
  Oracle.tryNotFound (do Oracle.jsonToIntOption (← Oracle.assoc "owner" fields)) none

theorem ok_bind {ε α β : Type} (a : α) (f : α → Except ε β) : (Except.ok a >>= f) = f a := rfl

theorem assoc_eq {fields : List (String × Json)} {v : Json}
    (h : (Json.obj fields).get key = some v) :
    Oracle.assoc key fields = .ok v := by
  have h' : fields.lookup key = some v := h
  rw [Oracle.assoc, h']

theorem assoc_eq_notFound {fields : List (String × Json)} (h : (Json.obj fields).get key = none) :
    Oracle.assoc key fields = .error .notFound := by
  have h' : fields.lookup key = none := h
  rw [Oracle.assoc, h']

theorem stp_spec {fields : List (String × Json)}
    (h : isStpPolicy ((Json.obj fields).get "stp_policy") = true) :
    ∃ policy, jsonStpField (.obj fields) = some policy ∧ oracleStp fields = .ok policy := by
  simp only [isStpPolicy] at h
  rw [oracleStp, jsonStpField]
  split at h
  case h_1 heq => exact ⟨.off, by rw [heq], by rw [assoc_eq_notFound heq]; rfl⟩
  case h_2 heq => exact ⟨.off, by rw [heq]; rfl, by rw [assoc_eq heq]; rfl⟩
  case h_3 heq => exact ⟨.cancelNewest, by rw [heq]; rfl, by rw [assoc_eq heq]; rfl⟩
  case h_4 heq => exact ⟨.cancelOldest, by rw [heq]; rfl, by rw [assoc_eq heq]; rfl⟩
  case h_5 heq => exact ⟨.decrementAndCancel, by rw [heq]; rfl, by rw [assoc_eq heq]; rfl⟩
  case h_6 => cases h

theorem integer_of_isInteger (h : isInteger (obj.get key) = true) :
    ∃ n, obj.get key = some (.int n) := by
  simp only [isInteger] at h
  split at h
  case h_1 n heq => exact ⟨n, heq⟩
  case h_2 => cases h

theorem integer_of_isPositive (h : isPositive (obj.get key) = true) :
    ∃ n, obj.get key = some (.int n) ∧ 0 < n := by
  simp only [isPositive] at h
  split at h
  case h_1 n heq => exact ⟨n, heq, of_decide_eq_true h⟩
  case h_2 => cases h

variable {n : Int} (hlo : -2 ^ 62 ≤ n) (hhi : n < 2 ^ 62)

include hlo hhi

theorem toInt_ofInt_small : (Int64.ofInt n).toInt = n :=
  Int64.toInt_ofInt_of_le (by omega) (by omega)

theorem asI64_int : (Json.int n).asI64 = some (Int64.ofInt n) := by
  rw [Json.asI64, if_pos (by omega)]

/-- A signed number is read as it is. -/
theorem i64_spec (h : obj.get key = some (.int n)) :
    jsonI64Field obj key = some (Int64.ofInt n) := by
  simp only [jsonI64Field, h, Option.bind_eq_bind, Option.bind_some, asI64_int hlo hhi]
  rfl

/-- What the exchange reads where it expects a number without a sign: the number itself, if it is
not negative. -/
theorem u64_spec : ∃ u : UInt64,
    (Json.int n).asU64.or ((Json.int n).asI64.map Int64.toUInt64) = some u ∧
      (0 ≤ n → (u.toNat : Int) = n) := by
  by_cases h0 : 0 ≤ n
  · refine ⟨UInt64.ofNat n.toNat, ?_, fun _ ↦ ?_⟩
    · rw [Json.asU64, if_pos ⟨h0, by omega⟩]
      rfl
    · rw [UInt64.toNat_ofNat', Nat.mod_eq_of_lt (by omega)]
      omega
  · refine ⟨(Int64.ofInt n).toUInt64, ?_, fun h ↦ absurd h h0⟩
    rw [Json.asU64, if_neg (by omega), asI64_int hlo hhi]
    rfl

/-- An unsigned field agrees with the number exactly if that is not negative. -/
theorem u64Field_spec (h : obj.get key = some (.int n)) :
    ∃ u, jsonU64Field obj key = some u ∧ ((u.toNat : Int) = n ↔ 0 ≤ n) := by
  obtain ⟨u, hu, hn⟩ := u64_spec hlo hhi
  refine ⟨u, ?_, fun he ↦ ?_, hn⟩
  · simp only [jsonU64Field, h]
    exact hu
  · rw [← he]
    exact Int.natCast_nonneg _

end Fields

/-- Both readers read an owner, and agree on it exactly if it fits into 32 bits. -/
theorem owner_spec {fields : List (String × Json)}
    (h : isOwner ((Json.obj fields).get "owner") = true)
    (hsmall : ∀ n, (Json.obj fields).get "owner" = some (.int n) → -2 ^ 62 ≤ n ∧ n < 2 ^ 62) :
    ∃ owner owner', jsonOwnerField (.obj fields) = some owner ∧ oracleOwner fields = .ok owner' ∧
      (owner.map Int.ofNat = owner' ↔
        ∀ n, (Json.obj fields).get "owner" = some (.int n) → 0 ≤ n ∧ n < 2 ^ 32) := by
  simp only [isOwner] at h
  rw [oracleOwner, jsonOwnerField]
  split at h
  case h_1 heq =>
    refine ⟨none, none, by rw [heq], by rw [assoc_eq_notFound heq]; rfl, ?_⟩
    simp [heq]
  case h_2 heq =>
    refine ⟨none, none, by rw [heq]; rfl, by rw [assoc_eq heq]; rfl, ?_⟩
    simp [heq]
  case h_3 n heq =>
    obtain ⟨hlo, hhi⟩ := hsmall n heq
    obtain ⟨u, hu, hn⟩ := u64_spec hlo hhi
    refine ⟨some u.toUInt32.toNat, some n, ?_, by rw [assoc_eq heq]; rfl, ?_⟩
    · rw [heq]
      exact congrArg (Option.map fun n : UInt64 ↦ some n.toUInt32.toNat) hu
    · have hiff : ((u.toUInt32.toNat : Nat) : Int) = n ↔ 0 ≤ n ∧ n < 2 ^ 32 := by
        rw [UInt64.toNat_toUInt32]
        omega
      simpa [heq] using hiff
  case h_4 => cases h

/-! ## Events -/

theorem inRange_iff_owner {obj : Json} (h : obj.get "type" ≠ some (.str "Cancel")) :
    inRange obj = true ↔ ∀ n, obj.get "owner" = some (.int n) → 0 ≤ n ∧ n < 2 ^ 32 := by
  have hrange : inRange obj = match obj.get "owner" with
      | some (.int n) => 0 ≤ n && n < 2 ^ 32
      | _ => true := by
    rw [inRange]
    split
    case h_1 heq => exact absurd heq h
    case h_2 => rfl
  rw [hrange]
  split
  case h_1 n heq => simp [heq]
  case h_2 hno => simpa using fun n hn ↦ (hno n hn).elim

section Events

variable {fields : List (String × Json)} (intOfFloat : ℚ → Int)
  (hsmall : ∀ key n, (Json.obj fields).get key = some (.int n) → -2 ^ 62 ≤ n ∧ n < 2 ^ 62)

include hsmall

theorem limit_spec (htype : (Json.obj fields).get "type" = some (.str "SubmitLimit"))
    (hv : validEvent (.obj fields) = true) :
    ∃ e e', parseEvent (.obj fields) = .ok e ∧
    Oracle.jsonToEvent intOfFloat (.obj fields) = .ok e' ∧
      (Same e e' ↔ inRange (.obj fields) = true) := by
  simp only [validEvent, htype, Bool.and_eq_true] at hv
  obtain ⟨⟨⟨⟨⟨hside, hprice⟩, hquantity⟩, htif⟩, howner⟩, hstp⟩ := hv
  obtain ⟨v, side, hv, hside, hside'⟩ := side_spec hside
  obtain ⟨price, hp⟩ := integer_of_isInteger hprice
  obtain ⟨quantity, hq, hpos⟩ := integer_of_isPositive hquantity
  obtain ⟨w, tif, hw, htif, htif'⟩ := tif_spec htif
  obtain ⟨owner, owner', howner, howner', hsame⟩ := owner_spec howner (hsmall "owner")
  obtain ⟨policy, hpolicy, hpolicy'⟩ := stp_spec hstp
  obtain ⟨hplo, hphi⟩ := hsmall _ _ hp
  obtain ⟨hqlo, hqhi⟩ := hsmall _ _ hq
  have hprice := i64_spec hplo hphi hp
  obtain ⟨u, hu, hun⟩ := u64Field_spec hqlo hqhi hq
  have htype' : jsonStringField (.obj fields) "type" = some "SubmitLimit" := by
    rw [jsonStringField, htype]
    rfl
  refine ⟨.submitLimit side (Int64.ofInt price).toInt u.toNat tif owner policy,
    .submitLimit side (Int64.ofInt price) (Int64.ofInt quantity) tif owner' policy, ?_, ?_, ?_⟩
  · simp only [parseEvent, htype', hside, hprice, hu, htif, howner, hpolicy]
    rfl
  · rw [oracleOwner] at howner'
    rw [oracleStp] at hpolicy'
    simp only [Oracle.jsonToEvent, assoc_eq htype, assoc_eq hv, assoc_eq hp, assoc_eq hq,
      assoc_eq hw, howner', hpolicy', hside', htif', Oracle.jsonToInt64, ok_bind]
  · rw [inRange_iff_owner (by simp [htype]), ← hsame]
    have hpos' : (u.toNat : Int) = quantity := hun.mpr hpos.le
    have hu0 : 0 < u.toNat := by omega
    simp only [Same, toInt_ofInt_small hqlo hqhi, hpos', hu0, true_and, and_true]

theorem market_spec (htype : (Json.obj fields).get "type" = some (.str "SubmitMarket"))
    (hv : validEvent (.obj fields) = true) :
    ∃ e e', parseEvent (.obj fields) = .ok e ∧
    Oracle.jsonToEvent intOfFloat (.obj fields) = .ok e' ∧
      (Same e e' ↔ inRange (.obj fields) = true) := by
  simp only [validEvent, htype, Bool.and_eq_true] at hv
  obtain ⟨⟨⟨hside, hquantity⟩, howner⟩, hstp⟩ := hv
  obtain ⟨v, side, hv, hside, hside'⟩ := side_spec hside
  obtain ⟨quantity, hq, hpos⟩ := integer_of_isPositive hquantity
  obtain ⟨owner, owner', howner, howner', hsame⟩ := owner_spec howner (hsmall "owner")
  obtain ⟨policy, hpolicy, hpolicy'⟩ := stp_spec hstp
  obtain ⟨hqlo, hqhi⟩ := hsmall _ _ hq
  obtain ⟨u, hu, hun⟩ := u64Field_spec hqlo hqhi hq
  have htype' : jsonStringField (.obj fields) "type" = some "SubmitMarket" := by
    rw [jsonStringField, htype]
    rfl
  refine ⟨.submitMarket side u.toNat owner policy,
    .submitMarket side (Int64.ofInt quantity) owner' policy, ?_, ?_, ?_⟩
  · simp only [parseEvent, htype', hside, hu, howner, hpolicy]
    rfl
  · rw [oracleOwner] at howner'
    rw [oracleStp] at hpolicy'
    simp only [Oracle.jsonToEvent, assoc_eq htype, assoc_eq hv, assoc_eq hq, howner', hpolicy',
      hside', Oracle.jsonToInt64, ok_bind]
  · rw [inRange_iff_owner (by simp [htype]), ← hsame]
    have hpos' : (u.toNat : Int) = quantity := hun.mpr hpos.le
    have hu0 : 0 < u.toNat := by omega
    simp only [Same, toInt_ofInt_small hqlo hqhi, hpos', hu0, true_and, and_true]

theorem cancel_spec (htype : (Json.obj fields).get "type" = some (.str "Cancel"))
    (hv : validEvent (.obj fields) = true) :
    ∃ e e', parseEvent (.obj fields) = .ok e ∧
    Oracle.jsonToEvent intOfFloat (.obj fields) = .ok e' ∧
      (Same e e' ↔ inRange (.obj fields) = true) := by
  simp only [validEvent, htype] at hv
  obtain ⟨id, hid⟩ := integer_of_isInteger hv
  obtain ⟨hlo, hhi⟩ := hsmall _ _ hid
  obtain ⟨u, hu, hun⟩ := u64Field_spec hlo hhi hid
  have htype' : jsonStringField (.obj fields) "type" = some "Cancel" := by
    rw [jsonStringField, htype]
    rfl
  refine ⟨.cancel u.toNat, .cancel (Int64.ofInt id), ?_, ?_, ?_⟩
  · simp only [parseEvent, htype', hu]
    rfl
  · simp only [Oracle.jsonToEvent, assoc_eq htype, assoc_eq hid, Oracle.jsonToInt64, ok_bind]
  · simp only [Same, toInt_ofInt_small hlo hhi, inRange, htype, hid, hun, decide_eq_true_eq]

end Events

/-- A valid event is read by both, as the same event exactly if its numbers are in range. -/
theorem event_spec {obj : Json} (intOfFloat : ℚ → Int)
    (hsmall : ∀ key n, obj.get key = some (.int n) → -2 ^ 62 ≤ n ∧ n < 2 ^ 62)
    (hv : validEvent obj = true) :
    ∃ e e', parseEvent obj = .ok e ∧ Oracle.jsonToEvent intOfFloat obj = .ok e' ∧
      (Same e e' ↔ inRange obj = true) := by
  obtain ⟨fields, rfl⟩ : ∃ fields, obj = .obj fields := by
    cases obj with
    | obj fields => exact ⟨fields, rfl⟩
    | _ => cases hv
  have htype := hv
  simp only [validEvent] at htype
  split at htype
  case h_1 heq => exact limit_spec intOfFloat hsmall heq hv
  case h_2 heq => exact market_spec intOfFloat hsmall heq hv
  case h_3 heq => exact cancel_spec intOfFloat hsmall heq hv
  case h_4 => cases htype

end Nanobook
