import Nanobook.Lib.Loop
import Nanobook.Itch.Drain
import Mathlib.Tactic.NormNum
import Mathlib.Tactic.Ring

/-!
# Cutting a window out of a stream

The `itch-slice` binary: `slice_itch` copies the frames of a window of time, and the reference data
before it.  It splits the stream into frames and takes their timestamps on its own, and stops at the
first frame past the window.  On a stream in order of time it copies exactly these frames, and the
parser reads them as it reads them in the whole stream.
-/

namespace Nanobook.ItchSlice

open Itch (ItchParser fromBeBytes frame frameResult nextMessage)
open Framing (drain gather resultAt)

inductive ErrorKind where
  | invalidInput
  | invalidData
  | unexpectedEof
deriving DecidableEq, Repr

/-- `io::Error`. -/
structure Error where
  kind : ErrorKind
  message : String
deriving DecidableEq, Repr

inductive FrameDecision where
  | keep
  | skip
  | done
deriving DecidableEq, Repr

def isReferenceMessage (messageType : UInt8) : Bool :=
  ['S', 'R', 'H', 'Y', 'L', 'V', 'W', 'K', 'J', 'h'].any fun c ↦ messageType == c.toUInt8

/-- The bytes `7..13` of a frame, if it has them. -/
def timestampNs (frame : List UInt8) : Option UInt64 :=
  if 13 ≤ frame.length then some (UInt64.ofNat (fromBeBytes ((frame.take 13).drop 7))) else none

def keepFrame (frame : List UInt8) (startNs endNs : UInt64) : FrameDecision :=
  match frame[2]? with
  | none => .skip
  | some messageType =>
      match timestampNs frame with
      | none => if isReferenceMessage messageType then .keep else .skip
      | some timestamp =>
          if timestamp ≥ endNs then .done
          else if timestamp ≥ startNs ∨ isReferenceMessage messageType then .keep
          else .skip

/-- The next frame and what is left of the input.  An input that ends within the two bytes of the
length is at its end. -/
def readFrame (input : List UInt8) : Except Error (Option (List UInt8 × List UInt8)) :=
  if input.length < 2 then .ok none
  else
    let len := fromBeBytes (input.take 2)
    if len = 0 then .error ⟨.invalidData, "ITCH message length is 0"⟩
    else if (input.drop 2).length < len then
      .error ⟨.unexpectedEof, "failed to fill whole buffer"⟩
    else .ok (some (input.take 2 ++ (input.drop 2).take len, (input.drop 2).drop len))

/-- What is left of the input, and what was written. -/
structure SliceState where
  input : List UInt8
  output : List UInt8

/-- One pass of the loop of `slice_itch`. -/
def sliceBody (startNs endNs : UInt64) (s : SliceState) :
    Option ((List UInt8 × Except Error Unit) ⊕ SliceState) :=
  match readFrame s.input with
  | .error e => some (.inl (s.output, .error e))
  | .ok none => some (.inl (s.output, .ok ()))
  | .ok (some (frame, rest)) =>
      match keepFrame frame startNs endNs with
      | .keep => some (.inr ⟨rest, s.output ++ frame⟩)
      | .skip => some (.inr ⟨rest, s.output⟩)
      | .done => some (.inl (s.output, .ok ()))

/-- The bytes written, and how the call ends. -/
def sliceItch (fuel : Nat) (input : List UInt8) (startNs durationNs : UInt64) :
    Option (List UInt8 × Except Error Unit) :=
  if startNs.toNat + durationNs.toNat < 2 ^ 64 then
    Loop.iterate (sliceBody startNs (startNs + durationNs)) fuel ⟨input, []⟩
  else some ([], .error ⟨.invalidInput, "slice end overflows u64"⟩)

/-! ## Frames in order of time -/

/-- The six bytes of the timestamp in a message. -/
def stamp (msgBuf : List UInt8) : Nat := fromBeBytes ((msgBuf.take 11).drop 5)

def isReference (msgBuf : List UInt8) : Bool := msgBuf.head?.any isReferenceMessage

/-- A message of the window, or reference data before it. -/
def InSlice (startNs endNs : Nat) (msgBuf : List UInt8) : Prop :=
  startNs ≤ stamp msgBuf ∧ stamp msgBuf < endNs ∨ stamp msgBuf < startNs ∧ isReference msgBuf

instance decidableInSlice (startNs endNs : Nat) (msgBuf : List UInt8) :
    Decidable (InSlice startNs endNs msgBuf) :=
  inferInstanceAs (Decidable (_ ∨ _))

/-- A message that has a timestamp, and whose length two bytes can give. -/
structure Stamped (msgBuf : List UInt8) : Prop where
  le_length : 11 ≤ msgBuf.length
  length_lt : msgBuf.length < 65536

section Frame

variable {msgBuf : List UInt8} {startNs endNs : UInt64}

/-- The value of some bytes is less than their number allows. -/
theorem fromBeBytes_lt (bytes : List UInt8) : fromBeBytes bytes < 256 ^ bytes.length := by
  have hfrom (n : Nat) : (bytes.map UInt8.toNat).foldl (fun n d ↦ 256 * n + d) n <
      (n + 1) * 256 ^ bytes.length := by
    induction bytes generalizing n with
    | nil => simp
    | cons b bytes ih =>
        have hb := b.toNat_lt
        calc (bytes.map UInt8.toNat).foldl (fun n d ↦ 256 * n + d) (256 * n + b.toNat)
            < (256 * n + b.toNat + 1) * 256 ^ bytes.length := ih _
          _ ≤ (256 * (n + 1)) * 256 ^ bytes.length := Nat.mul_le_mul_right _ (by omega)
          _ = (n + 1) * 256 ^ (b :: bytes).length := by rw [List.length_cons, pow_succ]; ring
  simpa [fromBeBytes, ofDigits] using hfrom 0

theorem stamp_lt (msgBuf : List UInt8) : stamp msgBuf < 2 ^ 64 := by
  have hlen : ((msgBuf.take 11).drop 5).length ≤ 6 := by
    rw [List.length_drop, List.length_take]
    omega
  calc stamp msgBuf < 256 ^ ((msgBuf.take 11).drop 5).length := fromBeBytes_lt _
    _ ≤ 256 ^ 6 := Nat.pow_le_pow_right (by norm_num) hlen
    _ ≤ 2 ^ 64 := by norm_num

theorem readFrame_frame (h : Stamped msgBuf) (rest : List UInt8) :
    readFrame (frame msgBuf ++ rest) = .ok (some (frame msgBuf, rest)) := by
  have hlen := h.le_length
  have hlength := Itch.fromBeBytes_length h.length_lt
  rw [readFrame, if_neg (by simp [frame])]
  simp only [frame, List.cons_append, List.take_succ_cons, List.take_zero, List.drop_succ_cons,
    List.drop_zero, hlength, List.nil_append]
  rw [if_neg (by omega), if_neg (by simp), List.take_left, List.drop_left]

/-- The timestamp of a frame is the one of its message. -/
theorem timestampNs_frame (h : Stamped msgBuf) :
    timestampNs (frame msgBuf) = some (UInt64.ofNat (stamp msgBuf)) := by
  have hlen := h.le_length
  rw [timestampNs, if_pos (by simp [frame]; omega)]
  rfl

theorem keepFrame_frame (h : Stamped msgBuf) : keepFrame (frame msgBuf) startNs endNs =
    if endNs.toNat ≤ stamp msgBuf then .done
    else if startNs.toNat ≤ stamp msgBuf ∨ isReference msgBuf then .keep
    else .skip := by
  obtain ⟨b, payload, rfl⟩ := List.exists_cons_of_ne_nil (l := msgBuf) fun hnil ↦ by
    have hlen := h.le_length
    simp [hnil] at hlen
  have hstamp : (UInt64.ofNat (stamp (b :: payload))).toNat = stamp (b :: payload) :=
    UInt64.toNat_ofNat_of_lt' (stamp_lt _)
  rw [keepFrame, timestampNs_frame h]
  simp only [frame, List.getElem?_cons_succ, List.getElem?_cons_zero, ge_iff_le,
    UInt64.le_iff_toNat_le, hstamp, isReference, List.head?_cons, Option.any_some]
  split_ifs with hend hkeep
  · rfl
  · exact (if_pos hkeep).symm
  · exact (if_neg hkeep).symm

/-- One pass over a frame. -/
theorem sliceBody_frame (h : Stamped msgBuf) (startNs endNs : UInt64)
    (rest output : List UInt8) :
    sliceBody startNs endNs ⟨frame msgBuf ++ rest, output⟩ =
      if endNs.toNat ≤ stamp msgBuf then some (.inl (output, .ok ()))
      else if startNs.toNat ≤ stamp msgBuf ∨ isReference msgBuf then
        some (.inr ⟨rest, output ++ frame msgBuf⟩)
      else some (.inr ⟨rest, output⟩) := by
  simp only [sliceBody, readFrame_frame h, keepFrame_frame h]
  split_ifs <;> rfl

end Frame

section Run

variable {startNs endNs : UInt64} {msgBufs : List (List UInt8)}

/-- The frames that are copied. -/
def sliced (startNs endNs : Nat) (msgBufs : List (List UInt8)) : List (List UInt8) :=
  msgBufs.filter fun msgBuf ↦ InSlice startNs endNs msgBuf

theorem sliced_cons (startNs endNs : Nat) (msgBuf : List UInt8) (msgBufs : List (List UInt8)) :
    sliced startNs endNs (msgBuf :: msgBufs) =
      if InSlice startNs endNs msgBuf then msgBuf :: sliced startNs endNs msgBufs
      else sliced startNs endNs msgBufs := by
  simp [sliced, List.filter_cons]

/-- Before the end of the window a message is copied exactly if the loop keeps it. -/
theorem inSlice_iff {startNs endNs : Nat} {msgBuf : List UInt8} (h : ¬ endNs ≤ stamp msgBuf) :
    InSlice startNs endNs msgBuf ↔ startNs ≤ stamp msgBuf ∨ isReference msgBuf := by
  have hlt : stamp msgBuf < endNs := Nat.lt_of_not_le h
  by_cases hstart : startNs ≤ stamp msgBuf
  · exact iff_of_true (.inl ⟨hstart, hlt⟩) (.inl hstart)
  · simp [InSlice, hstart, Nat.lt_of_not_le hstart]

/-- In order of time nothing of the slice comes after its end. -/
theorem sliced_eq_nil {msgBuf : List UInt8} (hle : startNs ≤ endNs)
    (hend : endNs.toNat ≤ stamp msgBuf)
    (hsorted : (msgBuf :: msgBufs).Pairwise fun m m' ↦ stamp m ≤ stamp m') :
    sliced startNs.toNat endNs.toNat (msgBuf :: msgBufs) = [] := by
  rw [UInt64.le_iff_toNat_le] at hle
  refine List.filter_eq_nil_iff.mpr fun m hm ↦ ?_
  have hlate : endNs.toNat ≤ stamp m := by
    rcases List.mem_cons.mp hm with rfl | hm
    · exact hend
    · exact hend.trans (List.rel_of_pairwise_cons hsorted hm)
  rw [decide_eq_true_iff, InSlice]
  omega

/-- The loop copies the slice of what is left. -/
theorem iterate_sliceBody (hle : startNs ≤ endNs) (hstamped : ∀ m ∈ msgBufs, Stamped m)
    (hsorted : msgBufs.Pairwise fun m m' ↦ stamp m ≤ stamp m') {fuel : Nat}
    (hfuel : msgBufs.length < fuel) (output : List UInt8) :
    Loop.iterate (sliceBody startNs endNs) fuel ⟨(msgBufs.map frame).flatten, output⟩ =
      some (output ++ ((sliced startNs.toNat endNs.toNat msgBufs).map frame).flatten, .ok ()) := by
  induction msgBufs generalizing fuel output with
  | nil =>
      obtain ⟨fuel, rfl⟩ := Nat.exists_eq_succ_of_ne_zero (Nat.ne_of_gt hfuel)
      rw [Loop.iterate_succ_inl (r := (output, .ok ())) rfl]
      simp [sliced]
  | cons msgBuf msgBufs ih =>
      obtain ⟨fuel, rfl⟩ := Nat.exists_eq_succ_of_ne_zero (Nat.ne_of_gt (Nat.zero_lt_of_lt hfuel))
      have hm := hstamped msgBuf List.mem_cons_self
      have hrest (output : List UInt8) := ih (fun m hm ↦ hstamped m (List.mem_cons_of_mem _ hm))
        hsorted.of_cons (Nat.lt_of_succ_lt_succ hfuel) output
      have hbody := sliceBody_frame hm startNs endNs (msgBufs.map frame).flatten
        output
      rw [List.map_cons, List.flatten_cons]
      split_ifs at hbody with hend hkeep
      · rw [Loop.iterate_succ_inl hbody, sliced_eq_nil hle hend hsorted]
        simp
      · have hin := (inSlice_iff hend).mpr hkeep
        rw [Loop.iterate_succ_inr hbody, hrest, sliced_cons, if_pos hin, List.map_cons,
          List.flatten_cons, List.append_assoc]
      · have hout := (inSlice_iff hend).not.mpr hkeep
        rw [Loop.iterate_succ_inr hbody, hrest, sliced_cons, if_neg hout]

/-- The call copies the slice of a stream. -/
theorem sliceItch_frames {durationNs : UInt64}
    (hsum : startNs.toNat + durationNs.toNat < 2 ^ 64) (hstamped : ∀ m ∈ msgBufs, Stamped m)
    (hsorted : msgBufs.Pairwise fun m m' ↦ stamp m ≤ stamp m') {fuel : Nat}
    (hfuel : msgBufs.length < fuel) :
    sliceItch fuel (msgBufs.map frame).flatten startNs durationNs =
      some (((sliced startNs.toNat (startNs.toNat + durationNs.toNat) msgBufs).map frame).flatten,
        .ok ()) := by
  have hend : (startNs + durationNs).toNat = startNs.toNat + durationNs.toNat := by
    rw [UInt64.toNat_add, Nat.mod_eq_of_lt hsum]
  have hle : startNs ≤ startNs + durationNs := by
    rw [UInt64.le_iff_toNat_le, hend]
    exact Nat.le_add_right _ _
  rw [sliceItch, if_pos hsum, iterate_sliceBody hle hstamped hsorted hfuel, hend, List.nil_append]

/-- The calls of the parser on a stream of frames. -/
theorem resultAt_frames (hstamped : ∀ m ∈ msgBufs, Stamped m) {k : Nat} (hk : k < msgBufs.length) :
    resultAt nextMessage k (.new (msgBufs.map frame).flatten) = frameResult msgBufs[k] := by
  have htakes (f : List UInt8) (hf : f ∈ msgBufs.map frame) :
      Framing.Takes nextMessage ItchParser.reader f (frameResult (f.drop 2)) := by
    obtain ⟨msgBuf, hmem, rfl⟩ := List.mem_map.mp hf
    exact Itch.takes_frame (hstamped msgBuf hmem).length_lt
  obtain ⟨hcalls, -⟩ := Framing.calls_of_frames htakes
    (s := .new (msgBufs.map frame).flatten) (List.append_nil _).symm
  rw [hcalls k (by rwa [List.length_map]), List.getElem_map]
  rfl

theorem sliced_sliced (startNs endNs : Nat) (msgBufs : List (List UInt8)) :
    sliced startNs endNs (sliced startNs endNs msgBufs) = sliced startNs endNs msgBufs :=
  List.filter_eq_self.mpr fun _ hm ↦ (List.mem_filter.mp hm).2

/-- A stream of frames in order of time is cut to the frames of the window and the reference data
before it, byte for byte.  Cutting the result again changes nothing.  The calls of the parser give
for the frames of the result what they give for these frames in the whole stream, and the messages
up to the first error are read off these. -/
theorem sliceItch_exact {durationNs : UInt64} {fuel : Nat}
    (hsum : startNs.toNat + durationNs.toNat < 2 ^ 64) (hstamped : ∀ m ∈ msgBufs, Stamped m)
    (hsorted : msgBufs.Pairwise fun m m' ↦ stamp m ≤ stamp m') (hfuel : msgBufs.length < fuel) :
    let input := (msgBufs.map frame).flatten
    let kept := msgBufs.filter fun m ↦ InSlice startNs.toNat (startNs.toNat + durationNs.toNat) m
    let output := (kept.map frame).flatten
    sliceItch fuel input startNs durationNs = some (output, .ok ()) ∧
      sliceItch fuel output startNs durationNs = some (output, .ok ()) ∧
      ((∀ k, ∀ hk : k < msgBufs.length,
          resultAt nextMessage k (.new input) = frameResult msgBufs[k]) ∧
        ∀ k, ∀ hk : k < kept.length, resultAt nextMessage k (.new output) = frameResult kept[k]) ∧
      drain nextMessage (msgBufs.length + 1) (.new input) =
        some (gather (msgBufs.map frameResult)) ∧
      drain nextMessage (kept.length + 1) (.new output) = some (gather (kept.map frameResult)) := by
  intro input kept output
  have hkept (m : List UInt8) (hm : m ∈ kept) : Stamped m := hstamped m (List.mem_filter.mp hm).1
  refine ⟨sliceItch_frames hsum hstamped hsorted hfuel, ?_,
    ⟨fun k hk ↦ resultAt_frames hstamped hk, fun k hk ↦ resultAt_frames hkept hk⟩,
    Itch.drain_new_frames fun m hm ↦ (hstamped m hm).length_lt,
    Itch.drain_new_frames fun m hm ↦ (hkept m hm).length_lt⟩
  have hfuel' : kept.length < fuel := (List.length_filter_le _ _).trans_lt hfuel
  have hslice := sliceItch_frames hsum hkept (hsorted.filter _) hfuel'
  have hsame := sliced_sliced startNs.toNat (startNs.toNat + durationNs.toNat) msgBufs
  exact hslice.trans (by rw [show sliced _ _ kept = kept from hsame])

end Run

/-- A message without fields beyond its timestamp. -/
def shortest (messageType : Char) (timestamp : UInt8) : List UInt8 :=
  [messageType.toUInt8, 0, 0, 0, 0, 0, 0, 0, 0, 0, timestamp]

theorem stamped_shortest (messageType : Char) (timestamp : UInt8) :
    Stamped (shortest messageType timestamp) := ⟨le_rfl, by norm_num [shortest]⟩

/-- The directory entry of a stock before the window, a cancel in it, and one at its end. -/
theorem sliceItch_exact_directory :
    sliceItch 5 (([shortest 'A' 3, shortest 'R' 4, shortest 'X' 5, shortest 'X' 9].map
        frame).flatten) 5 4 =
      some (([shortest 'R' 4, shortest 'X' 5].map frame).flatten, .ok ()) :=
  (sliceItch_exact (by decide)
    (by simp [stamped_shortest])
    (by decide +kernel) (by decide)).1.trans (by decide +kernel)

end Nanobook.ItchSlice
