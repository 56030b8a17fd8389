import Nanobook.Itch.Frames

/-!
# Streams that are cut off

A stream is complete where it is made of frames alone.  One that ends inside a message is reported.
One that ends after the first byte of a length is not: the end of the input is taken for the end of
the stream.
-/

namespace Nanobook.Itch

open Framing

/-- A frame of some message, of any length that two bytes can give. -/
def IsFrame (f : List UInt8) : Prop := ∃ msgBuf, msgBuf.length < 65536 ∧ f = frame msgBuf

section IsFrame

variable {f bytes rest : List UInt8} {frames : List (List UInt8)}

theorem IsFrame.two_le_length (h : IsFrame f) : 2 ≤ f.length := by
  obtain ⟨msgBuf, -, rfl⟩ := h
  simp [frame]

theorem not_isFrame_nil : ¬ IsFrame [] := fun h ↦ absurd h.two_le_length (by simp)

theorem incomplete_singleton (b : UInt8) : Incomplete IsFrame [b] := by
  intro f x hf h
  have hlength := congrArg List.length h
  rw [List.length_append, List.length_singleton] at hlength
  have htwo := hf.two_le_length
  omega

/-- What is left is nothing, one byte, or a message that is cut off. -/
theorem incomplete_cases (h : Incomplete IsFrame rest) :
    rest = [] ∨ (∃ b, rest = [b]) ∨
      ∀ parser : ItchParser, parser.reader = rest →
        nextMessage parser = (.error failedToFill, { parser with reader := [] }) := by
  rcases reader_cases rest with hnil | hone | ⟨msgBuf, x, hlt, hframe⟩ | ⟨high, low, x, hcut, hlt⟩
  · exact .inl hnil
  · exact .inr (.inl hone)
  · exact absurd hframe (h _ x ⟨msgBuf, hlt, rfl⟩)
  · refine .inr (.inr fun parser hreader ↦ ?_)
    rw [nextMessage_cons_cons (hreader.trans hcut), readBody_of_lt_length hlt]

/-- A frame gives a message or an error of its own. -/
theorem frameResult_ne (msgBuf : List UInt8) :
    frameResult msgBuf ≠ .ok none ∧ frameResult msgBuf ≠ .error failedToFill := by
  rw [frameResult]
  split_ifs with hnil
  · simp [invalidData, failedToFill]
  · cases hparse : parseMessage msgBuf with
    | ok msg => simp [Except.map]
    | error halt =>
        obtain ⟨message, rfl⟩ := parseMessage_ne hnil hparse
        simp [Except.map, invalidData, failedToFill]

/-- The calls on the frames of a stream, and what is left to read after them. -/
theorem calls_of_splits (h : Splits IsFrame bytes frames rest) :
    (∀ k < frames.length, resultAt nextMessage k (.new bytes) ≠ .ok none ∧
      resultAt nextMessage k (.new bytes) ≠ .error failedToFill) ∧
    (stateAt nextMessage frames.length (.new bytes)).reader = rest := by
  have htakes (f : List UInt8) (hf : f ∈ frames) :
      Takes nextMessage ItchParser.reader f (frameResult (f.drop 2)) := by
    obtain ⟨msgBuf, hlt, rfl⟩ := h.frame f hf
    exact takes_frame hlt
  obtain ⟨hcalls, hrest⟩ := calls_of_frames htakes (s := .new bytes) h.eq
  refine ⟨fun k hk ↦ ?_, hrest⟩
  rw [hcalls k hk]
  exact frameResult_ne _

end IsFrame

/-- Once nothing is left, every call says so. -/
theorem reader_eq_nil_of_le {parser : ItchParser} {n k : Nat}
    (h : (stateAt nextMessage n parser).reader = []) (hle : n ≤ k) :
    (stateAt nextMessage k parser).reader = [] ∧ resultAt nextMessage k parser = .ok none := by
  have hread {k : Nat} (hnil : (stateAt nextMessage k parser).reader = []) :
      nextMessage (stateAt nextMessage k parser) =
        (.ok none, { stateAt nextMessage k parser with reader := [] }) :=
    nextMessage_of_short (by simp [hnil])
  have hall : (stateAt nextMessage k parser).reader = [] := by
    induction k, hle using Nat.le_induction with
    | base => exact h
    | succ k _ ih => rw [stateAt_succ, hread ih]
  exact ⟨hall, by rw [resultAt, hread hall]⟩

/-- The stream is made of frames alone. -/
def Complete (bytes : List UInt8) : Prop :=
  ∃ frames : List (List UInt8), (∀ f ∈ frames, IsFrame f) ∧ bytes = frames.flatten

/-- Over all calls, the end is only given where all that there was to read has been read, and is
complete unless the truncation was reported before.  A truncation is reported. -/
structure ReportsTruncation (bytes : List UInt8) : Prop where
  ending : ∀ k, resultAt nextMessage k (.new bytes) = .ok none →
    (stateAt nextMessage k (.new bytes)).reader = [] ∧
      (Complete bytes ∨ ∃ j < k, resultAt nextMessage j (.new bytes) = .error failedToFill)
  truncated : ¬ Complete bytes → ∃ k, resultAt nextMessage k (.new bytes) = .error failedToFill

/-- Truncation is reported, unless it leaves one byte after the frames. -/
theorem reportsTruncation_iff (bytes : List UInt8) : ReportsTruncation bytes ↔
    ¬ ∃ (frames : List (List UInt8)) (b : UInt8),
      (∀ f ∈ frames, IsFrame f) ∧ bytes = frames.flatten ++ [b] := by
  constructor
  · rintro h ⟨frames, b, hframes, heq⟩
    obtain ⟨-, hrest⟩ := calls_of_splits ⟨hframes, incomplete_singleton b, heq⟩
    have hnone : resultAt nextMessage frames.length (.new bytes) = .ok none := by
      rw [resultAt, nextMessage_of_short (by simp [hrest])]
    have hnil := (h.ending _ hnone).1
    rw [hrest] at hnil
    cases hnil
  · intro hone
    obtain ⟨frames, rest, hsplits⟩ := exists_splits not_isFrame_nil bytes
    obtain ⟨hcalls, hrest⟩ := calls_of_splits hsplits
    rcases incomplete_cases hsplits.incomplete with rfl | ⟨b, rfl⟩ | hcut
    · have hcomplete : Complete bytes := ⟨frames, hsplits.frame, by simpa using hsplits.eq⟩
      refine ⟨fun k hk ↦ ⟨?_, .inl hcomplete⟩, fun h ↦ absurd hcomplete h⟩
      rcases lt_or_ge k frames.length with hlt | hge
      · exact absurd hk (hcalls k hlt).1
      · exact (reader_eq_nil_of_le hrest hge).1
    · exact absurd ⟨frames, b, hsplits.frame, hsplits.eq⟩ hone
    · have herror : resultAt nextMessage frames.length (.new bytes) = .error failedToFill := by
        rw [resultAt, hcut _ hrest]
      refine ⟨fun k hk ↦ ?_, fun _ ↦ ⟨_, herror⟩⟩
      rcases lt_trichotomy k frames.length with hlt | rfl | hgt
      · exact absurd hk (hcalls k hlt).1
      · rw [herror] at hk
        cases hk
      · have hafter : (stateAt nextMessage (frames.length + 1) (.new bytes)).reader = [] := by
          rw [stateAt_succ, hcut _ hrest]
        exact ⟨(reader_eq_nil_of_le hafter hgt).1, .inr ⟨_, hgt, herror⟩⟩

/-- The first byte of a length is taken for the end of the stream. -/
theorem not_reportsTruncation : ¬ ∀ bytes : List UInt8, ReportsTruncation bytes := by
  intro h
  have hnone : resultAt nextMessage 0 (.new [0]) = .ok none := rfl
  have hnil := ((h [0]).ending 0 hnone).1
  cases hnil

end Nanobook.Itch
