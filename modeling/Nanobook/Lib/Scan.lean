import Mathlib.Data.List.Nodup
import Mathlib.Data.List.Perm.Basic
import Mathlib.Order.Lattice

/-!
# Scanning a list

The two scans of an agglomeration: for the first of the least elements, starting from one that need
not be in the list, and over every pair of positions.  Taking the two elements of such a pair out
leaves the others in order.
-/

namespace Nanobook.Scan

universe u v

variable {A : Type u} {B : Type v}

/-! ## The least element -/

/-- The first element that none is less than, where the scan starts from `init`. -/
def least (lt : B → B → Bool) (init : B) (l : List B) : B :=
  l.foldl (fun best x ↦ if lt x best then x else best) init

@[simp] theorem least_nil (lt : B → B → Bool) (init : B) : least lt init [] = init := rfl

@[simp] theorem least_cons (lt : B → B → Bool) (init x : B) (l : List B) :
    least lt init (x :: l) = least lt (if lt x init then x else init) l := rfl

theorem least_mem (lt : B → B → Bool) (init : B) (l : List B) :
    least lt init l = init ∨ least lt init l ∈ l := by
  induction l generalizing init with
  | nil => exact .inl rfl
  | cons x l ih =>
      rw [least_cons]
      rcases ih (if lt x init then x else init) with heq | hmem
      · rw [heq]
        split
        · exact .inr List.mem_cons_self
        · exact .inl rfl
      · exact .inr (List.mem_cons_of_mem x hmem)

/-- Where `lt` compares keys, no key of the list is below that of the element found. -/
theorem least_le {K : Type v} [LinearOrder K] {key : B → K} {lt : B → B → Bool} {init : B}
    {l : List B} (hlt : ∀ x ∈ l, ∀ y, y = init ∨ y ∈ l → (lt x y = true ↔ key x < key y)) :
    key (least lt init l) ≤ key init ∧ ∀ x ∈ l, key (least lt init l) ≤ key x := by
  induction l generalizing init with
  | nil => exact ⟨le_rfl, fun x hx ↦ by cases hx⟩
  | cons x l ih =>
      rw [least_cons]
      have hx := hlt x List.mem_cons_self init (.inl rfl)
      by_cases hlt' : lt x init = true
      · obtain ⟨hinit, hl⟩ := @ih x fun y hy z hz ↦ hlt y (List.mem_cons_of_mem x hy) z
          (.inr (hz.elim (fun heq ↦ heq ▸ List.mem_cons_self) (List.mem_cons_of_mem x)))
        rw [if_pos hlt']
        refine ⟨hinit.trans (hx.mp hlt').le, fun y hy ↦ ?_⟩
        rcases List.mem_cons.mp hy with rfl | hy
        · exact hinit
        · exact hl y hy
      · obtain ⟨hinit, hl⟩ := @ih init fun y hy z hz ↦ hlt y (List.mem_cons_of_mem x hy) z
          (hz.imp_right (List.mem_cons_of_mem x))
        rw [if_neg hlt']
        refine ⟨hinit, fun y hy ↦ ?_⟩
        rcases List.mem_cons.mp hy with rfl | hy
        · exact hinit.trans (not_lt.mp fun h ↦ hlt' (hx.mpr h))
        · exact hl y hy

/-! ## Pairs of positions -/

/-- Every pair of positions, the smaller one first, with what stands there. -/
def pairs (l : List A) : List ((A × Nat) × A × Nat) :=
  l.zipIdx.flatMap fun p ↦ (l.zipIdx.drop (p.2 + 1)).map fun q ↦ (p, q)

theorem mem_pairs {l : List A} {a b : A} {i j : Nat} :
    ((a, i), b, j) ∈ pairs l ↔ i < j ∧ l[i]? = some a ∧ l[j]? = some b := by
  simp only [pairs, List.mem_flatMap, List.mem_map, Prod.mk.injEq]
  constructor
  · rintro ⟨p, hp, q, hq, rfl, rfl⟩
    obtain ⟨k, hk⟩ := List.mem_iff_getElem?.mp hq
    rw [List.getElem?_drop] at hk
    have hj := List.mem_zipIdx_iff_getElem?.mp (List.mem_of_getElem? hk)
    have hpos := List.getElem?_zipIdx (l := l) (i := 0) (j := i + 1 + k)
    rw [hk] at hpos
    obtain ⟨c, -, hc⟩ := Option.map_eq_some_iff.mp hpos.symm
    have hjk := congrArg Prod.snd hc
    exact ⟨by simp only at hjk; omega, List.mem_zipIdx_iff_getElem?.mp hp, hj⟩
  · rintro ⟨hij, ha, hb⟩
    refine ⟨(a, i), List.mem_zipIdx_iff_getElem?.mpr ha, (b, j), ?_, rfl, rfl⟩
    refine List.mem_of_getElem? (i := j - (i + 1)) ?_
    rw [List.getElem?_drop, show i + 1 + (j - (i + 1)) = j by omega, List.getElem?_zipIdx, hb]
    simp

/-- Two positions of a list, and what is left of it without them. -/
theorem split_at {l : List A} {a b : A} {i j : Nat} (hij : i < j) (ha : l[i]? = some a)
    (hb : l[j]? = some b) :
    ∃ p q r, l = p ++ a :: (q ++ b :: r) ∧ p.length = i ∧ p.length + 1 + q.length = j := by
  obtain ⟨hi, rfl⟩ := List.getElem?_eq_some_iff.mp ha
  have hl := List.take_append_drop i l
  rw [List.drop_eq_getElem_cons hi] at hl
  have hb' : (l.drop (i + 1))[j - (i + 1)]? = some b := by
    rw [List.getElem?_drop, show i + 1 + (j - (i + 1)) = j by omega, hb]
  obtain ⟨hj, rfl⟩ := List.getElem?_eq_some_iff.mp hb'
  have hr := List.take_append_drop (j - (i + 1)) (l.drop (i + 1))
  rw [List.drop_eq_getElem_cons hj] at hr
  refine ⟨l.take i, (l.drop (i + 1)).take (j - (i + 1)), (l.drop (i + 1)).drop (j - (i + 1) + 1),
    by rw [hr, hl], List.length_take_of_le (Nat.le_of_lt hi), ?_⟩
  rw [List.length_drop] at hj
  rw [List.length_take_of_le (Nat.le_of_lt hi),
    List.length_take_of_le (by rw [List.length_drop]; omega)]
  omega

theorem eraseIdx_first {p q : List A} {a : A} : (p ++ a :: q).eraseIdx p.length = p ++ q := by
  rw [List.eraseIdx_append_of_length_le (Nat.le_refl _), Nat.sub_self, List.eraseIdx_cons_zero]

theorem eraseIdx_second {p q r : List A} {a b : A} :
    (p ++ a :: (q ++ b :: r)).eraseIdx (p.length + 1 + q.length) = p ++ a :: (q ++ r) := by
  rw [List.eraseIdx_append_of_length_le (by omega),
    show p.length + 1 + q.length - p.length = q.length + 1 by omega, List.eraseIdx_cons_succ,
    eraseIdx_first]

theorem perm_split {p q r : List A} {a b : A} :
    (p ++ a :: (q ++ b :: r)).Perm (a :: b :: (p ++ (q ++ r))) := by
  refine List.perm_middle.trans (List.Perm.cons a ?_)
  rw [← List.append_assoc, ← List.append_assoc]
  exact List.perm_middle

end Nanobook.Scan
