import Nanobook.Itch.Parser
import Nanobook.Lib.Framing

/-!
# Frames of messages

A frame is a message after its length.  The minimum sizes cover the offsets of every layout, so that
a message that is long enough is read, whatever it carries beyond its layout.
-/

namespace Nanobook.Itch

open Framing

/-! ## Payloads -/

section Payload

variable {bytes extra payload : List UInt8} {msgType : Char} {start stop i : Nat} {field : String}
  {A N : Type}

theorem slice_append (h : stop ≤ bytes.length) :
    slice (bytes ++ extra) start stop = slice bytes start stop := by
  rw [slice, slice, List.length_append, List.take_append_of_le_length h]
  simp only [h, Nat.le_add_right_of_le h]

theorem index_append (h : i < bytes.length) : index (bytes ++ extra) i = index bytes i := by
  rw [index, index, List.getElem?_append_left h]

/-- The fields of a layout do not depend on what comes after it. -/
theorem parsePayload_append (h : minPayload msgType ≤ payload.length) :
    parsePayload msgType (payload ++ extra) = parsePayload msgType payload := by
  fun_cases parsePayload msgType payload
  case case10 => rw [parsePayload] <;> assumption
  all_goals
    simp only [minPayload] at h
    rw [parsePayload]
    simp (disch := omega) only [slice_append, index_append]

/-- A computation that ends with a value. -/
def Succeeds (x : Except Halt A) : Prop := ∃ a, x = .ok a

theorem succeeds_pure (a : A) : Succeeds (pure a) := ⟨a, rfl⟩

theorem succeeds_bind {x : Except Halt N} {f : N → Except Halt A} (hx : Succeeds x)
    (hf : ∀ n, Succeeds (f n)) : Succeeds (x >>= f) := by
  obtain ⟨n, rfl⟩ := hx
  exact hf n

theorem succeeds_index (h : i < bytes.length) : Succeeds (index bytes i) :=
  ⟨bytes[i], by rw [index, List.getElem?_eq_getElem h]⟩

/-- A slice within the bytes, and what is made of it. -/
theorem succeeds_slice_bind {f : List UInt8 → Except Halt A} (hle : start ≤ stop)
    (h : stop ≤ bytes.length) (hf : ∀ part, part.length = stop - start → Succeeds (f part)) :
    Succeeds (slice bytes start stop >>= f) := by
  rw [slice, if_pos ⟨hle, h⟩]
  refine hf _ ?_
  rw [List.length_drop, List.length_take, Nat.min_eq_left h]

theorem succeeds_readBe {width : Nat} (of : Nat → N) (h : width ≤ bytes.length) :
    Succeeds ((readBe width bytes field).map of) := by
  rw [readBe, if_pos h]
  exact ⟨_, rfl⟩

theorem succeeds_readU16Be (h : 2 ≤ bytes.length) : Succeeds (readU16Be bytes field) :=
  succeeds_readBe _ h

theorem succeeds_readU32Be (h : 4 ≤ bytes.length) : Succeeds (readU32Be bytes field) :=
  succeeds_readBe _ h

theorem succeeds_readU64Be (h : 8 ≤ bytes.length) : Succeeds (readU64Be bytes field) :=
  succeeds_readBe _ h

theorem succeeds_readU48Be (h : 6 ≤ bytes.length) : Succeeds (readU48Be bytes field) :=
  succeeds_readBe _ h

/-- The minimum size of a type covers all the offsets of its layout. -/
theorem succeeds_parsePayload (h : minPayload msgType ≤ payload.length) :
    Succeeds (parsePayload msgType payload) := by
  fun_cases parsePayload msgType payload
  case case10 => exact succeeds_pure _
  all_goals
    simp only [minPayload] at h
    repeat' first
      | refine succeeds_slice_bind (by omega) (by omega) fun _ _ ↦ ?_
      | refine succeeds_bind (succeeds_index (by omega)) fun _ ↦ ?_
      | refine succeeds_bind (succeeds_readU16Be (by omega)) fun _ ↦ ?_
      | refine succeeds_bind (succeeds_readU32Be (by omega)) fun _ ↦ ?_
      | refine succeeds_bind (succeeds_readU48Be (by omega)) fun _ ↦ ?_
      | refine succeeds_bind (succeeds_readU64Be (by omega)) fun _ ↦ ?_
      | exact succeeds_pure _

end Payload

/-! ## Messages -/

section Message

variable {b : UInt8} {payload extra : List UInt8}

/-- The type and the payload of a message. -/
theorem parseMessage_cons : parseMessage (b :: payload) =
    if payload.length < minPayload (Char.ofNat b.toNat) then
      .error (invalidData ("ITCH '" ++ (Char.ofNat b.toNat).toString ++ "' message too short: " ++
        toString payload.length ++ " bytes, need " ++ toString (minPayload (Char.ofNat b.toNat))))
    else parsePayload (Char.ofNat b.toNat) payload := by
  have hslice : slice (b :: payload) 1 (b :: payload).length = .ok payload := by
    rw [slice, if_pos ⟨by simp, le_rfl⟩, List.take_length]
    rfl
  rw [parseMessage, index, List.getElem?_cons_zero, hslice]
  rfl

/-- A message that is not empty is long enough for its type. -/
structure WellSized (msgBuf : List UInt8) : Prop where
  length_lt : msgBuf.length < 65536
  covers : ∃ b payload, msgBuf = b :: payload ∧ minPayload (Char.ofNat b.toNat) ≤ payload.length

variable {msgBuf : List UInt8}

theorem succeeds_parseMessage (h : WellSized msgBuf) : Succeeds (parseMessage msgBuf) := by
  obtain ⟨b, payload, rfl, hsize⟩ := h.covers
  rw [parseMessage_cons, if_neg (Nat.not_lt.mpr hsize)]
  exact succeeds_parsePayload hsize

theorem parseMessage_append (h : WellSized msgBuf) :
    parseMessage (msgBuf ++ extra) = parseMessage msgBuf := by
  obtain ⟨b, payload, rfl, hsize⟩ := h.covers
  have hlonger : minPayload (Char.ofNat b.toNat) ≤ (payload ++ extra).length := by
    rw [List.length_append]
    exact Nat.le_add_right_of_le hsize
  rw [List.cons_append, parseMessage_cons, parseMessage_cons, if_neg (Nat.not_lt.mpr hlonger),
    if_neg (Nat.not_lt.mpr hsize), parsePayload_append hsize]

/-- What is wrong with a message is an error. -/
theorem parseMessage_ne (hne : msgBuf ≠ []) {halt : Halt} (h : parseMessage msgBuf = .error halt) :
    ∃ message, halt = invalidData message := by
  obtain ⟨b, payload, rfl⟩ := List.exists_cons_of_ne_nil hne
  rw [parseMessage_cons] at h
  split_ifs at h with hshort
  · cases h
    exact ⟨_, rfl⟩
  · obtain ⟨msg, hmsg⟩ := succeeds_parsePayload (Nat.not_lt.mp hshort)
    rw [hmsg] at h
    cases h

end Message

/-! ## Frames -/

/-- A message after its length. -/
def frame (msgBuf : List UInt8) : List UInt8 :=
  UInt8.ofNat (msgBuf.length / 256) :: UInt8.ofNat msgBuf.length :: msgBuf

/-- What a call makes of a frame. -/
def frameResult (msgBuf : List UInt8) : Except Halt (Option ItchMessage) :=
  if msgBuf = [] then .error (invalidData "ITCH message length is 0")
  else (parseMessage msgBuf).map some

section Frame

variable {msgBuf : List UInt8} {parser : ItchParser} {high low : UInt8} {rest : List UInt8}

/-- The length that two bytes give. -/
theorem fromBeBytes_pair (high low : UInt8) :
    fromBeBytes [high, low] = 256 * high.toNat + low.toNat := by
  simp [fromBeBytes, ofDigits]

theorem fromBeBytes_length (h : msgBuf.length < 65536) :
    fromBeBytes [UInt8.ofNat (msgBuf.length / 256), UInt8.ofNat msgBuf.length] = msgBuf.length := by
  rw [fromBeBytes_pair, UInt8.toNat_ofNat', UInt8.toNat_ofNat']
  omega

/-- After the two bytes of a length the message is read. -/
theorem nextMessage_cons_cons (h : parser.reader = high :: low :: rest) :
    nextMessage parser =
      readBody (256 * high.toNat + low.toNat) { parser with reader := rest } := by
  have hread : readExact 2 parser = (.ok [high, low], { parser with reader := rest }) := by
    rw [readExact, h, if_pos (by simp)]
    rfl
  rw [nextMessage, hread]
  simp only [fromBeBytes_pair]

/-- With fewer bytes the stream ends. -/
theorem nextMessage_of_short (h : parser.reader.length < 2) :
    nextMessage parser = (.ok none, { parser with reader := [] }) := by
  rw [nextMessage, readExact, if_neg (Nat.not_le.mpr h)]

theorem insertLocate_spec (msg : ItchMessage) (parser : ItchParser) :
    (insertLocate msg parser).1 = .ok () ∧ (insertLocate msg parser).2.reader = parser.reader := by
  cases msg <;> exact ⟨rfl, rfl⟩

theorem readBody_of_length_le {len : Nat} (hpos : 0 < len) (h : len ≤ parser.reader.length) :
    (readBody len parser).1 = (parseMessage (parser.reader.take len)).map some ∧
      (readBody len parser).2.reader = parser.reader.drop len := by
  have hread : readExact len parser =
      (.ok (parser.reader.take len), { parser with reader := parser.reader.drop len }) := if_pos h
  rw [readBody, if_neg hpos.ne', Program.bind_of_ok hread]
  cases hparse : parseMessage (parser.reader.take len) with
  | error halt =>
      rw [Program.lift_error_bind]
      exact ⟨rfl, rfl⟩
  | ok msg =>
      rw [Program.lift_ok_bind]
      obtain ⟨hok, hreader⟩ := insertLocate_spec msg
        { parser with reader := parser.reader.drop len }
      rcases hinsert : insertLocate msg { parser with reader := parser.reader.drop len }
        with ⟨r, parser'⟩
      rw [hinsert] at hok hreader
      simp only at hok hreader
      subst hok
      rw [Program.bind_of_ok hinsert]
      exact ⟨rfl, hreader⟩

/-- A message that is cut off. -/
theorem readBody_of_lt_length {len : Nat} (h : parser.reader.length < len) :
    readBody len parser = (.error failedToFill, { parser with reader := [] }) := by
  have hread : readExact len parser = (.error failedToFill, { parser with reader := [] }) :=
    if_neg (Nat.not_le.mpr h)
  rw [readBody, if_neg (by omega), Program.bind_of_error hread]

/-- A call reads one frame. -/
theorem takes_frame (h : msgBuf.length < 65536) :
    Takes nextMessage ItchParser.reader (frame msgBuf) (frameResult msgBuf) := by
  intro parser rest hreader
  have hlength := fromBeBytes_length h
  rw [fromBeBytes_pair] at hlength
  rw [frame, List.cons_append, List.cons_append] at hreader
  rw [nextMessage_cons_cons hreader, hlength, frameResult]
  split_ifs with hnil
  · subst hnil
    exact ⟨rfl, rfl⟩
  · let parser' := { parser with reader := msgBuf ++ rest }
    have hlen : msgBuf.length ≤ parser'.reader.length := by simp [parser']
    have hbody := readBody_of_length_le (List.length_pos_iff.mpr hnil) hlen
    rwa [List.take_left, List.drop_left] at hbody

end Frame

/-! ## Calls -/

/-- How the bytes that are left can begin. -/
theorem reader_cases (bytes : List UInt8) :
    bytes = [] ∨ (∃ b, bytes = [b]) ∨
      (∃ msgBuf rest, msgBuf.length < 65536 ∧ bytes = frame msgBuf ++ rest) ∨
      ∃ high low rest, bytes = high :: low :: rest ∧
        rest.length < 256 * high.toNat + low.toNat := by
  match bytes with
  | [] => exact .inl rfl
  | [b] => exact .inr (.inl ⟨b, rfl⟩)
  | high :: low :: rest =>
      by_cases hlt : rest.length < 256 * high.toNat + low.toNat
      · exact .inr (.inr (.inr ⟨high, low, rest, rfl, hlt⟩))
      · have hhigh := high.toNat_lt
        have hlow := low.toNat_lt
        have hlen : (rest.take (256 * high.toNat + low.toNat)).length =
            256 * high.toNat + low.toNat := by
          rw [List.length_take]
          omega
        refine .inr (.inr (.inl ⟨rest.take (256 * high.toNat + low.toNat),
          rest.drop (256 * high.toNat + low.toNat), by omega, ?_⟩))
        have hdiv : UInt8.ofNat ((256 * high.toNat + low.toNat) / 256) = high := by
          rw [← UInt8.toNat_inj, UInt8.toNat_ofNat']
          omega
        have hmod : UInt8.ofNat (256 * high.toNat + low.toNat) = low := by
          rw [← UInt8.toNat_inj, UInt8.toNat_ofNat']
          omega
        rw [frame, hlen, hdiv, hmod, List.cons_append, List.cons_append, List.take_append_drop]

/-- A call reads a frame, or ends the stream without an item. -/
theorem nextMessage_cases (parser : ItchParser) :
    (∃ msgBuf rest, parser.reader = frame msgBuf ++ rest ∧
      (nextMessage parser).1 = frameResult msgBuf ∧ (nextMessage parser).2.reader = rest) ∨
    (parser.reader.length < 2 ∧ (nextMessage parser).1 = .ok none) ∨
    (nextMessage parser).1 = .error failedToFill := by
  rcases reader_cases parser.reader with h | ⟨b, h⟩ | ⟨msgBuf, rest, hlt, h⟩ |
    ⟨high, low, rest, h, hlt⟩
  · refine .inr (.inl ⟨by simp [h], ?_⟩)
    rw [nextMessage_of_short (by simp [h])]
  · refine .inr (.inl ⟨by simp [h], ?_⟩)
    rw [nextMessage_of_short (by simp [h])]
  · exact .inl ⟨msgBuf, rest, h, takes_frame hlt parser rest h⟩
  · refine .inr (.inr ?_)
    rw [nextMessage_cons_cons h, readBody_of_lt_length hlt]

theorem frameResult_ne_panic (msgBuf : List UInt8) : frameResult msgBuf ≠ .error .panic := by
  rw [frameResult]
  split_ifs with hnil
  · simp [invalidData]
  · intro h
    cases hparse : parseMessage msgBuf with
    | ok msg =>
        rw [hparse] at h
        cases h
    | error halt =>
        obtain ⟨message, rfl⟩ := parseMessage_ne hnil hparse
        rw [hparse] at h
        cases h

theorem nextMessage_ne_panic (parser : ItchParser) : (nextMessage parser).1 ≠ .error .panic := by
  rcases nextMessage_cases parser with ⟨msgBuf, -, -, hresult, -⟩ | ⟨-, hresult⟩ | hresult
  · rw [hresult]
    exact frameResult_ne_panic msgBuf
  · simp [hresult]
  · simp [hresult, failedToFill]

/-- After a message there are fewer bytes left. -/
theorem length_reader_lt {parser parser' : ItchParser} {msg : ItchMessage}
    (h : nextMessage parser = (.ok (some msg), parser')) :
    parser'.reader.length < parser.reader.length := by
  rcases nextMessage_cases parser with ⟨msgBuf, rest, hreader, -, hrest⟩ | ⟨-, hresult⟩ | hresult
  · rw [h] at hrest
    rw [hreader, hrest, frame, List.length_append]
    simp
  · rw [h] at hresult
    cases hresult
  · rw [h] at hresult
    cases hresult

end Nanobook.Itch
