import Mathlib.Data.List.Infix

/-!
# Texts made of lines

A text that a writer ends every line of, what a reader makes of its lines, and what is left of it
where the writer stopped anywhere.
-/

namespace Nanobook.Lines

/-- The lines of a text.  Each ends at a line feed, which is dropped together with a carriage return
before it; what follows the last line feed is a line unless it is empty. -/
def lines : List Char → List (List Char)
  | [] => []
  | c :: text =>
      if c = '\n' then [] :: lines text
      else if c = '\r' ∧ text.head? = some '\n' then lines text
      else
        match lines text with
        | [] => [[c]]
        | l :: ls => (c :: l) :: ls

/-- The text of lines. -/
def unlines (ls : List (List Char)) : List Char := ls.flatMap fun l ↦ l ++ ['\n']

/-- Nothing in it ends a line. -/
def Unbroken (l : List Char) : Prop := ∀ c ∈ l, c ≠ '\n' ∧ c ≠ '\r'

@[simp] theorem unlines_nil : unlines [] = [] := rfl

@[simp] theorem unlines_cons (l : List Char) (ls : List (List Char)) :
    unlines (l :: ls) = l ++ '\n' :: unlines ls := by
  rw [unlines, List.flatMap_cons, List.append_assoc]
  rfl

theorem unlines_append (ls ls' : List (List Char)) :
    unlines (ls ++ ls') = unlines ls ++ unlines ls' := List.flatMap_append

variable {l text : List Char} {ls : List (List Char)}

theorem Unbroken.of_cons {c : Char} (h : Unbroken (c :: l)) : Unbroken l :=
  fun d hd ↦ h d (List.mem_cons_of_mem c hd)

theorem Unbroken.subset {p : List Char} (h : Unbroken l) (hp : p ⊆ l) : Unbroken p :=
  fun c hc ↦ h c (hp hc)

theorem lines_line (h : Unbroken l) (text : List Char) :
    lines (l ++ '\n' :: text) = l :: lines text := by
  induction l with
  | nil =>
      rw [List.nil_append, lines, if_pos rfl]
  | cons c l ih =>
      obtain ⟨hfeed, hreturn⟩ := h c List.mem_cons_self
      rw [List.cons_append, lines, if_neg hfeed, if_neg fun hc ↦ hreturn hc.1, ih h.of_cons]

/-- The text after the last line feed is one line. -/
theorem lines_unbroken (h : Unbroken l) (hne : l ≠ []) : lines l = [l] := by
  induction l with
  | nil => exact absurd rfl hne
  | cons c l ih =>
      obtain ⟨hfeed, hreturn⟩ := h c List.mem_cons_self
      rw [lines, if_neg hfeed, if_neg fun hc ↦ hreturn hc.1]
      cases l with
      | nil => rfl
      | cons d l => rw [ih h.of_cons (List.cons_ne_nil d l)]

theorem lines_unlines_append (h : ∀ l ∈ ls, Unbroken l) (text : List Char) :
    lines (unlines ls ++ text) = ls ++ lines text := by
  induction ls with
  | nil => rfl
  | cons l ls ih =>
      rw [unlines_cons, List.append_assoc, List.cons_append, lines_line (h l List.mem_cons_self),
        ih fun l' hl' ↦ h l' (List.mem_cons_of_mem l hl'), List.cons_append]

/-- A writer that stops anywhere has written some lines and the beginning of the next one. -/
theorem exists_of_prefix_unlines (h : text <+: unlines ls) :
    ∃ (written rest : List (List Char)) (tail : List Char), ls = written ++ rest ∧
      text = unlines written ++ tail ∧ (tail = [] ∨ ∃ l, rest.head? = some l ∧ tail <+: l) := by
  induction ls generalizing text with
  | nil => exact ⟨[], [], [], rfl, List.prefix_nil.mp h, .inl rfl⟩
  | cons l ls ih =>
      have hsplit : unlines (l :: ls) = (l ++ ['\n']) ++ unlines ls := rfl
      rw [hsplit] at h
      rcases List.prefix_or_prefix_of_prefix h (List.prefix_append _ _) with hin | ⟨t, rfl⟩
      · rcases List.prefix_concat_iff.mp hin with rfl | hin
        · exact ⟨[l], ls, [], rfl, by simp, .inl rfl⟩
        · exact ⟨[], l :: ls, text, rfl, rfl, .inr ⟨l, rfl, hin⟩⟩
      · obtain ⟨written, rest, tail, rfl, rfl, htail⟩ :=
          ih ((List.prefix_append_right_inj _).mp h)
        exact ⟨l :: written, rest, tail, rfl, (List.append_assoc _ _ _).symm, htail⟩

end Nanobook.Lines
