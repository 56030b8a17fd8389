import Mathlib.Data.List.Basic

/-!
# Lists that are filled up

A list that is filled up to a length with the least element does not say how long it was.  Compared
first as filled up, and then by their lengths, lists are in their lexicographic order all the same.
-/

namespace Nanobook.Padding

variable {A : Type}

/-- A list filled up to a length. -/
def pad (a : A) (n : Nat) (xs : List A) : List A := xs ++ List.replicate (n - xs.length) a

section Shape

variable (a : A)

theorem pad_nil (n : Nat) : pad a n [] = List.replicate n a := by
  rw [pad, List.length_nil, Nat.sub_zero, List.nil_append]

theorem pad_cons (n : Nat) (x : A) (xs : List A) : pad a (n + 1) (x :: xs) = x :: pad a n xs := by
  rw [pad, List.length_cons, Nat.add_sub_add_right, List.cons_append, ← pad]

variable {a} {n : Nat} {xs : List A}

theorem length_pad (h : xs.length ≤ n) : (pad a n xs).length = n := by
  rw [pad, List.length_append, List.length_replicate, Nat.add_sub_cancel' h]

theorem take_pad : (pad a n xs).take xs.length = xs := List.take_left

theorem drop_pad : (pad a n xs).drop xs.length = List.replicate (n - xs.length) a := List.drop_left

end Shape

section Order

variable [Ord A] [Std.OrientedOrd A] {a : A}

/-- Nothing comes before a list of least elements. -/
theorem isLE_compare_replicate (hleast : ∀ x, (compare a x).isLE) {n : Nat} {ys : List A}
    (hys : ys.length ≤ n) : (compare (List.replicate n a) (pad a n ys)).isLE := by
  induction n generalizing ys with
  | zero =>
      rw [List.eq_nil_of_length_eq_zero (Nat.le_zero.mp hys)]
      rfl
  | succ n ih =>
      cases ys with
      | nil =>
          rw [pad_nil, Std.ReflOrd.compare_self]
          rfl
      | cons y ys =>
          rw [List.replicate_succ, pad_cons, List.compare_cons_cons, Ordering.isLE_then_iff_and]
          exact ⟨hleast y, .inr (ih (Nat.le_of_succ_le_succ hys))⟩

theorem compare_replicate_then (hleast : ∀ x, (compare a x).isLE) {n : Nat} {ys : List A}
    (hys : ys.length ≤ n) :
    (compare (List.replicate n a) (pad a n ys)).then (compare 0 ys.length) = compare [] ys := by
  cases ys with
  | nil =>
      rw [pad_nil, Std.ReflOrd.compare_self]
      rfl
  | cons y ys =>
      have hle := isLE_compare_replicate hleast hys
      have hlt : compare 0 (y :: ys).length = .lt := Nat.compare_eq_lt.mpr (Nat.succ_pos _)
      rw [hlt, List.compare_nil_cons]
      revert hle
      cases compare (List.replicate n a) (pad a n (y :: ys)) with
      | lt => exact fun _ ↦ rfl
      | eq => exact fun _ ↦ rfl
      | gt => exact fun hle ↦ nomatch hle

theorem compare_then_replicate (hleast : ∀ x, (compare a x).isLE) {n : Nat} {xs : List A}
    (hxs : xs.length ≤ n) :
    (compare (pad a n xs) (List.replicate n a)).then (compare xs.length 0) = compare xs [] := by
  calc (compare (pad a n xs) (List.replicate n a)).then (compare xs.length 0)
      = ((compare (List.replicate n a) (pad a n xs)).then (compare 0 xs.length)).swap := by
        rw [Ordering.swap_then, ← Std.OrientedOrd.eq_swap, ← Std.OrientedOrd.eq_swap]
    _ = (compare [] xs).swap := congrArg Ordering.swap (compare_replicate_then hleast hxs)
    _ = compare xs [] := Std.OrientedOrd.eq_swap.symm

/-- The lexicographic order, from the filled up lists and the lengths. -/
theorem compare_pad_then (hleast : ∀ x, (compare a x).isLE) {n : Nat} {xs ys : List A}
    (hxs : xs.length ≤ n) (hys : ys.length ≤ n) :
    (compare (pad a n xs) (pad a n ys)).then (compare xs.length ys.length) = compare xs ys := by
  induction n generalizing xs ys with
  | zero =>
      rw [List.eq_nil_of_length_eq_zero (Nat.le_zero.mp hxs),
        List.eq_nil_of_length_eq_zero (Nat.le_zero.mp hys)]
      rfl
  | succ n ih =>
      cases xs with
      | nil => rw [pad_nil, List.length_nil, compare_replicate_then hleast hys]
      | cons x xs =>
          cases ys with
          | nil => rw [pad_nil, List.length_nil, compare_then_replicate hleast hxs]
          | cons y ys =>
              have hlen :
                  compare (x :: xs).length (y :: ys).length = compare xs.length ys.length := by
                simp only [List.length_cons, Nat.compare_eq_ite_lt, Nat.add_lt_add_iff_right]
              rw [pad_cons, pad_cons, List.compare_cons_cons, List.compare_cons_cons,
                Ordering.then_assoc, hlen,
                ih (Nat.le_of_succ_le_succ hxs) (Nat.le_of_succ_le_succ hys)]

end Order

end Nanobook.Padding
