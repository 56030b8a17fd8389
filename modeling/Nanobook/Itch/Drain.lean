import Mathlib.Data.List.Forall2
import Nanobook.Itch.Frames

/-!
# Draining a stream

No call panics and the calls come to an end.  A stream of frames gives the messages of its frames.
-/

namespace Nanobook.Itch

open Framing

theorem frameResult_of_wellSized {msgBuf : List UInt8} (h : WellSized msgBuf) :
    ∃ msg, frameResult msgBuf = .ok (some msg) := by
  obtain ⟨msg, hmsg⟩ := succeeds_parseMessage h
  obtain ⟨b, payload, hcons, -⟩ := h.covers
  refine ⟨msg, ?_⟩
  rw [frameResult, if_neg (hcons ▸ List.cons_ne_nil b payload), hmsg]
  rfl

/-- The messages of frames. -/
theorem exists_messages {msgBufs : List (List UInt8)} (h : ∀ msgBuf ∈ msgBufs, WellSized msgBuf) :
    ∃ msgs, List.Forall₂ (fun msgBuf msg ↦
      WellSized msgBuf ∧ frameResult msgBuf = .ok (some msg)) msgBufs msgs := by
  induction msgBufs with
  | nil => exact ⟨[], .nil⟩
  | cons msgBuf msgBufs ih =>
      have hsized := h msgBuf List.mem_cons_self
      obtain ⟨msg, hmsg⟩ := frameResult_of_wellSized hsized
      obtain ⟨msgs, hmsgs⟩ := ih fun m hm ↦ h m (List.mem_cons_of_mem _ hm)
      exact ⟨msg :: msgs, .cons ⟨hsized, hmsg⟩ hmsgs⟩

/-- A frame on its own. -/
theorem nextMessage_new_frame {msgBuf : List UInt8} (h : WellSized msgBuf) :
    (nextMessage (.new (frame msgBuf))).1 = frameResult msgBuf :=
  (takes_frame h.length_lt (.new (frame msgBuf)) [] (List.append_nil _).symm).1

/-- A stream of frames gives what each frame gives, up to the first error. -/
theorem drain_new_frames {msgBufs : List (List UInt8)}
    (h : ∀ msgBuf ∈ msgBufs, msgBuf.length < 65536) :
    drain nextMessage (msgBufs.length + 1) (.new (msgBufs.map frame).flatten) =
      some (gather (msgBufs.map frameResult)) := by
  have htakes : List.Forall₂ (Takes nextMessage ItchParser.reader) (msgBufs.map frame)
      (msgBufs.map frameResult) :=
    List.forall₂_map_left_iff.mpr (List.forall₂_map_right_iff.mpr
      (List.forall₂_same.mpr fun msgBuf hmem ↦ takes_frame (h msgBuf hmem)))
  have hend (parser : ItchParser) (hnil : parser.reader = []) :
      (nextMessage parser).1 = .ok none := by
    rw [nextMessage_of_short (by simp [hnil])]
  have hdrain := drain_frames htakes hend (s := .new (msgBufs.map frame).flatten) rfl
  rwa [List.length_map] at hdrain

/-- No call panics and the calls come to an end.  A stream of frames gives the message of each, and
what a frame carries beyond its layout makes no difference. -/
theorem drain_nextMessage :
    (∀ parser : ItchParser, (nextMessage parser).1 ≠ .error .panic) ∧
    (∀ bytes : List UInt8, (drain nextMessage (bytes.length + 1) (.new bytes)).isSome) ∧
    (∀ msgBufs : List (List UInt8), (∀ msgBuf ∈ msgBufs, WellSized msgBuf) →
      ∃ msgs, List.Forall₂ (fun msgBuf msg ↦
          (nextMessage (.new (frame msgBuf))).1 = .ok (some msg)) msgBufs msgs ∧
        drain nextMessage (msgBufs.length + 1) (.new (msgBufs.map frame).flatten) =
          some (msgs, .ok ())) ∧
    ∀ msgBuf extra : List UInt8, WellSized msgBuf → (msgBuf ++ extra).length < 65536 →
      (nextMessage (.new (frame (msgBuf ++ extra)))).1 = (nextMessage (.new (frame msgBuf))).1 := by
  refine ⟨nextMessage_ne_panic, fun bytes ↦ ?_, fun msgBufs hsized ↦ ?_,
    fun msgBuf extra hsized hlt ↦ ?_⟩
  · exact drain_isSome (fun _ _ _ ↦ length_reader_lt) (Nat.lt_succ_self _)
  · obtain ⟨msgs, hmsgs⟩ := exists_messages hsized
    refine ⟨msgs, hmsgs.imp fun msgBuf msg hmsg ↦ ?_, ?_⟩
    · rw [nextMessage_new_frame hmsg.1, hmsg.2]
    · have hresults : msgBufs.map frameResult = msgs.map fun msg ↦ .ok (some msg) :=
        List.forall₂_eq_eq_eq ▸ List.forall₂_map_right_iff.mpr (List.forall₂_map_left_iff.mpr
          (hmsgs.imp fun _ _ hmsg ↦ hmsg.2))
      rw [drain_new_frames fun msgBuf hmem ↦ (hsized msgBuf hmem).length_lt, hresults, gather_items]
  · obtain ⟨b, payload, rfl, hsize⟩ := hsized.covers
    have hlonger : WellSized (b :: payload ++ extra) := ⟨hlt, b, payload ++ extra, rfl, by
      rw [List.length_append]
      exact Nat.le_add_right_of_le hsize⟩
    rw [nextMessage_new_frame hlonger, nextMessage_new_frame hsized, frameResult, frameResult,
      if_neg (by simp), if_neg (by simp), parseMessage_append hsized]

end Nanobook.Itch
