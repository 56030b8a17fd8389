import Mathlib.Data.List.Basic
import Mathlib.Tactic.ByContra
import Nanobook.Lib.Program

/-!
# Inputs made of frames

An input splits into frames and a rest that starts with no frame.  A reader that takes one frame off
its input at each call goes through them in order, whatever it makes of each.
-/

namespace Nanobook.Framing

/-! ## Splitting -/

section Split

variable {B : Type} {F : List B → Prop}

/-- No frame is at the beginning. -/
def Incomplete (F : List B → Prop) (rest : List B) : Prop := ∀ f x, F f → rest ≠ f ++ x

/-- A list is made of frames and a rest. -/
structure Splits (F : List B → Prop) (bytes : List B) (frames : List (List B)) (rest : List B) :
    Prop where
  frame : ∀ f ∈ frames, F f
  incomplete : Incomplete F rest
  eq : bytes = frames.flatten ++ rest

/-- Every list splits. -/
theorem exists_splits (hne : ¬ F []) (bytes : List B) :
    ∃ frames rest, Splits F bytes frames rest := by
  induction hn : bytes.length using Nat.strongRecOn generalizing bytes with
  | ind n ih =>
      by_cases h : Incomplete F bytes
      · exact ⟨[], bytes, by simp, h, rfl⟩
      · simp only [Incomplete, not_forall, not_not] at h
        obtain ⟨f, x, hf, rfl⟩ := h
        have hpos : 0 < f.length := List.length_pos_iff.mpr fun hnil ↦ hne (hnil ▸ hf)
        rw [List.length_append] at hn
        obtain ⟨frames, rest, hframe, hincomplete, rfl⟩ := ih x.length (by omega) x rfl
        refine ⟨f :: frames, rest, ?_, hincomplete, ?_⟩
        · simpa [hf] using hframe
        · rw [List.flatten_cons, List.append_assoc]

end Split

/-! ## Calls -/

section Calls

variable {E S A B : Type} (next : Program E S (Option A)) (input : S → List B)

/-- The state before the call of a number. -/
def stateAt : Nat → S → S
  | 0, s => s
  | k + 1, s => stateAt k (next s).2

/-- What the call of a number gives. -/
def resultAt (k : Nat) (s : S) : Except E (Option A) := (next (stateAt next k s)).1

/-- Call until the end of the input or an error, given enough fuel. -/
def drain : Nat → S → Option (List A × Except E Unit)
  | 0, _ => none
  | fuel + 1, s =>
      match next s with
      | (.ok none, _) => some ([], .ok ())
      | (.error e, _) => some ([], .error e)
      | (.ok (some a), s) => (drain fuel s).map fun (read, ending) ↦ (a :: read, ending)

/-- What the results of calls amount to: the items before the end of the input or an error. -/
def gather : List (Except E (Option A)) → List A × Except E Unit
  | [] => ([], .ok ())
  | .ok (some a) :: results => (a :: (gather results).1, (gather results).2)
  | .ok none :: _ => ([], .ok ())
  | .error e :: _ => ([], .error e)

/-- A call takes a frame off the input and gives `r`, whatever comes after. -/
def Takes (f : List B) (r : Except E (Option A)) : Prop :=
  ∀ s rest, input s = f ++ rest → (next s).1 = r ∧ input (next s).2 = rest

variable {next input}

theorem stateAt_succ (k : Nat) (s : S) : stateAt next (k + 1) s = (next (stateAt next k s)).2 := by
  induction k generalizing s with
  | zero => rfl
  | succ k ih => exact ih (next s).2

/-- With less left after each item, the calls come to an end. -/
theorem drain_isSome
    (hless : ∀ s a s', next s = (.ok (some a), s') → (input s').length < (input s).length)
    {fuel : Nat} {s : S} (hfuel : (input s).length < fuel) : (drain next fuel s).isSome := by
  induction fuel generalizing s with
  | zero => omega
  | succ fuel ih =>
      rw [drain]
      rcases hnext : next s with ⟨_ | _ | a, s'⟩
      · rfl
      · rfl
      · have hlt := hless s a s' hnext
        rw [Option.isSome_map]
        exact ih (by omega)

theorem gather_items (items : List A) :
    gather (items.map fun a ↦ (.ok (some a) : Except E (Option A))) = (items, .ok ()) := by
  induction items with
  | nil => rfl
  | cons a items ih => rw [List.map_cons, gather, ih]

/-- One call for each frame, in order, up to the first error, and one more that finds the end. -/
theorem drain_frames {frames : List (List B)} {results : List (Except E (Option A))}
    (htakes : List.Forall₂ (Takes next input) frames results)
    (hend : ∀ s, input s = [] → (next s).1 = .ok none) {s : S} (hs : input s = frames.flatten) :
    drain next (frames.length + 1) s = some (gather results) := by
  induction htakes generalizing s with
  | nil =>
      have hnone := hend s hs
      rw [List.length_nil, drain]
      rcases hnext : next s with ⟨r, s'⟩
      rw [hnext] at hnone
      simp only at hnone
      subst hnone
      rfl
  | @cons f result frames results hf _ ih =>
      obtain ⟨hresult, hrest⟩ := hf s frames.flatten hs
      rw [List.length_cons, drain]
      rcases hnext : next s with ⟨r, s'⟩
      rw [hnext] at hresult hrest
      simp only at hresult hrest
      subst hresult
      rcases r with e | _ | a
      · rfl
      · rfl
      · simp only [ih hrest, Option.map_some, gather]

/-- The calls go through the frames in order. -/
theorem calls_of_frames {result : List B → Except E (Option A)} {frames : List (List B)}
    (htakes : ∀ f ∈ frames, Takes next input f (result f)) {s : S} {rest : List B}
    (hs : input s = frames.flatten ++ rest) :
    (∀ k, ∀ hk : k < frames.length, resultAt next k s = result frames[k]) ∧
      input (stateAt next frames.length s) = rest := by
  induction frames generalizing s with
  | nil => exact ⟨by simp, hs⟩
  | cons f frames ih =>
      rw [List.flatten_cons, List.append_assoc] at hs
      obtain ⟨hresult, hrest⟩ := htakes f List.mem_cons_self s _ hs
      obtain ⟨hcalls, hafter⟩ := ih (fun f hf ↦ htakes f (List.mem_cons_of_mem _ hf)) hrest
      refine ⟨fun k hk ↦ ?_, hafter⟩
      cases k with
      | zero => exact hresult
      | succ k => exact hcalls k (Nat.lt_of_succ_lt_succ hk)

end Calls

end Nanobook.Framing
