import Mathlib.Data.List.Basic

/-!
# Precedence in a list

One value precedes another in a list if its first occurrence comes before that of the other, where
the other occurs at all.  Precedence is kept when lists in which it holds are joined.
-/

namespace Nanobook.Precedence

universe u

variable {A : Type u} [DecidableEq A] {a b : A} {l l' : List A}

/-- The first `a` of a list comes before the first `b`, if there is one. -/
def Precedes (a b : A) (l : List A) : Prop := b ∈ l → l.idxOf a < l.idxOf b

instance : Decidable (Precedes a b l) := inferInstanceAs (Decidable (_ → _))

theorem idxOf?_of_mem (h : a ∈ l) : l.idxOf? a = some (l.idxOf a) := by
  induction l with
  | nil => cases h
  | cons b l ih =>
      rw [List.idxOf?_cons, List.idxOf_cons]
      cases heq : b == a with
      | true => rfl
      | false =>
          have hmem : a ∈ l := (List.mem_cons.mp h).resolve_left fun h ↦ by simp [h] at heq
          simp [ih hmem]

theorem idxOf?_of_notMem (h : a ∉ l) : l.idxOf? a = none := List.idxOf?_eq_none_iff.mpr h

theorem Precedes.of_notMem (h : b ∉ l) : Precedes a b l := fun hb ↦ absurd hb h

theorem Precedes.mem (h : Precedes a b l) (hb : b ∈ l) : a ∈ l :=
  List.idxOf_lt_length_iff.mp (Nat.lt_trans (h hb) (List.idxOf_lt_length_of_mem hb))

theorem Precedes.append (h : Precedes a b l) (h' : a ∈ l ∨ Precedes a b l') :
    Precedes a b (l ++ l') := by
  intro hb
  by_cases hl : b ∈ l
  · rw [List.idxOf_append_of_mem hl, List.idxOf_append_of_mem (h.mem hl)]
    exact h hl
  · have hb' : b ∈ l' := (List.mem_append.mp hb).resolve_left hl
    rw [List.idxOf_append_of_notMem hl]
    by_cases ha : a ∈ l
    · rw [List.idxOf_append_of_mem ha]
      exact Nat.lt_of_lt_of_le (List.idxOf_lt_length_of_mem ha) (Nat.le_add_right _ _)
    · rw [List.idxOf_append_of_notMem ha]
      exact Nat.add_lt_add_left (h'.resolve_left ha hb') _

/-- Every pair of a table stands in its order. -/
def Ordered (table : List (A × A)) (l : List A) : Prop := ∀ p ∈ table, Precedes p.1 p.2 l

variable {table : List (A × A)}

instance : Decidable (Ordered table l) := inferInstanceAs (Decidable (∀ p ∈ table, _))

theorem Ordered.append (h : Ordered table l) (h' : Ordered table l') : Ordered table (l ++ l') :=
  fun p hp ↦ (h p hp).append (.inr (h' p hp))

theorem ordered_nil : Ordered table ([] : List A) := fun _ _ ↦ .of_notMem List.not_mem_nil

end Nanobook.Precedence
