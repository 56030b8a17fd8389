import Mathlib.Algebra.BigOperators.Group.List.Lemmas
import Mathlib.Algebra.Order.BigOperators.Group.List
import Mathlib.Algebra.Order.Field.Basic
import Mathlib.Tactic.FieldSimp
import Mathlib.Tactic.Linarith
import Mathlib.Tactic.Ring

/-!
# Projection onto the simplex

The simplex is the set of lists of numbers that are not negative and sum to one.  Taking the same
amount from every number of a list, and nothing below zero, leads to the point of the simplex that
is nearest to the list, provided that it leads to the simplex at all (`sqDist_shrink_le`).  The
amount that does is found from the numbers in descending order: it is what the largest of them
exceed one by on average, up to the last that is above that average itself (`sum_shrink_eq_one`).
-/

namespace Nanobook.Simplex

variable {K : Type*} [Field K] [LinearOrder K] [IsStrictOrderedRing K]

/-- The square of the distance of two lists. -/
def sqDist (v w : List K) : K := (List.zipWith (fun x y ↦ (x - y) ^ 2) v w).sum

/-- A point of the simplex. -/
structure IsPoint (w : List K) : Prop where
  nonneg : ∀ x ∈ w, 0 ≤ x
  sum_eq : w.sum = 1

/-- The same amount is taken from every number, and nothing below zero. -/
def shrink (t : K) (v : List K) : List K := v.map fun x ↦ max (x - t) 0

omit [IsStrictOrderedRing K] in
@[simp] theorem length_shrink (t : K) (v : List K) : (shrink t v).length = v.length :=
  List.length_map _

omit [IsStrictOrderedRing K] in
theorem shrink_nonneg (t : K) (v : List K) : ∀ x ∈ shrink t v, 0 ≤ x := by
  intro x hx
  obtain ⟨y, -, rfl⟩ := List.mem_map.mp hx
  exact le_max_right _ _

/-! ## The nearest point -/

/-- One coordinate: what is taken from a number is at most `t`, and `t` itself if anything is
left. -/
theorem sq_shrink_le {t x y : K} (hy : 0 ≤ y) :
    (x - max (x - t) 0) ^ 2 + (max (x - t) 0 - y) ^ 2 + 2 * t * (max (x - t) 0 - y) ≤
      (x - y) ^ 2 := by
  rcases le_total (x - t) 0 with h | h
  · rw [max_eq_right h]
    have hcross : 0 ≤ (t - x) * y := mul_nonneg (by linarith) hy
    nlinarith
  · rw [max_eq_left h]
    apply le_of_eq
    ring

theorem sqDist_shrink_add_le {t : K} {v y : List K} (hlen : y.length = v.length)
    (hy : ∀ x ∈ y, 0 ≤ x) :
    sqDist v (shrink t v) + sqDist (shrink t v) y + 2 * t * ((shrink t v).sum - y.sum) ≤
      sqDist v y := by
  induction v generalizing y with
  | nil =>
      obtain rfl := List.length_eq_zero_iff.mp hlen
      simp [sqDist, shrink]
  | cons x v ih =>
      obtain ⟨z, y, rfl⟩ := List.exists_cons_of_length_eq_add_one hlen
      have hfirst := sq_shrink_le (t := t) (x := x) (hy z List.mem_cons_self)
      have hrest := ih (Nat.succ.inj hlen) fun a ha ↦ hy a (List.mem_cons_of_mem z ha)
      simp only [sqDist, shrink, List.map_cons, List.zipWith_cons_cons, List.sum_cons] at hrest ⊢
      linarith

/-- What leads to the simplex leads to its point nearest to the list, and no other point is as
near. -/
theorem sqDist_shrink_le {t : K} {v y : List K} (hsum : (shrink t v).sum = 1)
    (hlen : y.length = v.length) (hy : IsPoint y) :
    sqDist v (shrink t v) + sqDist (shrink t v) y ≤ sqDist v y := by
  have h := sqDist_shrink_add_le (t := t) hlen hy.nonneg
  rw [hsum, hy.sum_eq] at h
  linarith

/-! ## The amount -/

/-- In descending order, the number in place `i` is above the amount by which the numbers up to it
exceed one on average. -/
def Above (u : List K) (i : Nat) : Prop :=
  ∃ x, u[i]? = some x ∧ 0 < x - ((u.take (i + 1)).sum - 1) / (i + 1)

theorem above_zero {u : List K} (hne : u ≠ []) : Above u 0 := by
  obtain ⟨x, u, rfl⟩ := List.exists_cons_of_ne_nil hne
  refine ⟨x, rfl, ?_⟩
  simp

theorem sum_shrink_of_le {t : K} {l : List K} (h : ∀ x ∈ l, t ≤ x) :
    (shrink t l).sum = l.sum - l.length * t := by
  induction l with
  | nil => simp [shrink]
  | cons x l ih =>
      obtain ⟨hx, hl⟩ := List.forall_mem_cons.mp h
      have hrest := ih hl
      rw [shrink] at hrest ⊢
      rw [List.map_cons, List.sum_cons, hrest, max_eq_left (sub_nonneg.mpr hx), List.sum_cons,
        List.length_cons]
      push_cast
      ring

theorem sum_shrink_of_ge {t : K} {l : List K} (h : ∀ x ∈ l, x ≤ t) : (shrink t l).sum = 0 := by
  refine List.sum_eq_zero fun x hx ↦ ?_
  obtain ⟨y, hy, rfl⟩ := List.mem_map.mp hx
  exact max_eq_right (sub_nonpos.mpr (h y hy))

omit [Field K] [LinearOrder K] [IsStrictOrderedRing K] in
/-- A number of a list, and what stands before and after it. -/
theorem exists_split {u : List K} {r : Nat} {x : K} (hx : u[r]? = some x) :
    ∃ p q, u = p ++ x :: q ∧ p.length = r := by
  obtain ⟨hr, rfl⟩ := List.getElem?_eq_some_iff.mp hx
  refine ⟨u.take r, u.drop (r + 1), ?_, List.length_take_of_le hr.le⟩
  rw [← List.drop_eq_getElem_cons hr, List.take_append_drop]

omit [Field K] [LinearOrder K] [IsStrictOrderedRing K] in
theorem take_split (p q : List K) (x : K) : (p ++ x :: q).take (p.length + 1) = p ++ [x] := by
  simp [List.take_append]

theorem above_split {p q : List K} {x : K} :
    Above (p ++ x :: q) p.length ↔ p.sum + x - 1 < x * (p.length + 1) := by
  have hpos : (0 : K) < (p.length : K) + 1 := by positivity
  have hx : (p ++ x :: q)[p.length]? = some x := by simp
  rw [Above, take_split]
  simp only [hx, Option.some.injEq, exists_eq_left', sub_pos, div_lt_iff₀ hpos, List.sum_append,
    List.sum_singleton]

/-- The amount that the last number above its average gives leads to the simplex. -/
theorem sum_shrink_eq_one {u : List K} {r : Nat} (hsorted : u.Pairwise (· ≥ ·))
    (hr : Above u r) (hlast : ¬Above u (r + 1)) :
    (shrink (((u.take (r + 1)).sum - 1) / (r + 1)) u).sum = 1 := by
  obtain ⟨x, hx, -⟩ := id hr
  obtain ⟨p, q, rfl, rfl⟩ := exists_split hx
  obtain ⟨-, hq, hp⟩ := List.pairwise_append.mp hsorted
  have hpos : (0 : K) < (p.length : K) + 1 := by positivity
  rw [take_split, List.sum_append, List.sum_singleton]
  generalize ht : (p.sum + x - 1) / ((p.length : K) + 1) = t
  have hmul : t * (p.length + 1) = p.sum + x - 1 := by
    rw [← ht, div_mul_cancel₀ _ hpos.ne']
  have hxt : t < x := by
    rw [← ht, div_lt_iff₀ hpos]
    exact above_split.mp hr
  -- The numbers up to `x` are above the amount, and those after it are not.
  have hfirst : ∀ y ∈ p ++ [x], t ≤ y := by
    intro y hy
    rcases List.mem_append.mp hy with hy | hy
    · exact hxt.le.trans (hp y hy x List.mem_cons_self)
    · exact List.mem_singleton.mp hy ▸ hxt.le
  have hrest : ∀ y ∈ q, y ≤ t := by
    cases q with
    | nil => intro y hy; cases hy
    | cons z q =>
        have hz : z ≤ t := by
          have hnot : ¬Above ((p ++ [x]) ++ z :: q) (p ++ [x]).length := by
            simpa using hlast
          rw [above_split, not_lt, List.sum_append, List.sum_singleton, List.length_append,
            List.length_singleton] at hnot
          push_cast at hnot
          have hle : z * (p.length + 1) ≤ t * (p.length + 1) := by linarith
          exact le_of_mul_le_mul_right hle hpos
        intro y hy
        rcases List.mem_cons.mp hy with rfl | hy
        · exact hz
        · exact ((List.pairwise_cons.mp (List.pairwise_cons.mp hq).2).1 y hy).trans hz
  have hsplit : shrink t (p ++ x :: q) = shrink t (p ++ [x]) ++ shrink t q := by
    rw [shrink, shrink, shrink, ← List.map_append, List.append_assoc, List.singleton_append]
  rw [hsplit, List.sum_append, sum_shrink_of_le hfirst, sum_shrink_of_ge hrest, List.sum_append,
    List.sum_singleton, List.length_append, List.length_singleton]
  push_cast
  linarith

end Nanobook.Simplex
