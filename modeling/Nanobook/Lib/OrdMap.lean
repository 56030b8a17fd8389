import Mathlib.Order.Basic
import Mathlib.Order.Lattice
import Mathlib.Data.List.Basic
import Mathlib.Data.List.Pairwise

/-!
# Finite maps with ordered keys

`OrdMap K A` is a finite map whose entries are kept in strictly increasing order of their keys.
It stands for a B-tree map where the order of iteration matters and for a hash map where it is
never observed: the entry list is determined by the lookups (`OrdMap.ext_get?`), so two maps
with the same contents are equal.

Erasing and updating act on the entry list by `filter` and `map`.  Reading a map from its largest
key downwards reverses the list, and these two commute with the reversal.
-/

namespace Nanobook

universe u v w

/-- A finite map as its list of entries, in strictly increasing order of their keys. -/
@[ext] structure OrdMap (K : Type u) [LinearOrder K] (A : Type v) where
  entries : List (K × A)
  sorted : entries.Pairwise fun a b ↦ a.1 < b.1

namespace OrdMap

variable {K : Type u} [LinearOrder K] {A : Type v} {B : Type w}

instance [DecidableEq A] : DecidableEq (OrdMap K A) := fun m m' ↦
  decidable_of_iff (m.entries = m'.entries) OrdMap.ext_iff.symm

/-! ## Operations -/

def empty : OrdMap K A := ⟨[], List.Pairwise.nil⟩

instance : Inhabited (OrdMap K A) := ⟨empty⟩

/-- The first entry of a list at key `k`. -/
def find (k : K) : List (K × A) → Option A
  | [] => none
  | (j, v) :: rest => if j = k then some v else find k rest

def get? (m : OrdMap K A) (k : K) : Option A := find k m.entries

def contains (m : OrdMap K A) (k : K) : Bool := (m.get? k).isSome

/-- Insert into a sorted entry list, replacing an entry with the same key. -/
def insertEntry (k : K) (v : A) : List (K × A) → List (K × A)
  | [] => [(k, v)]
  | (j, x) :: rest =>
      if k < j then (k, v) :: (j, x) :: rest
      else if k = j then (k, v) :: rest
      else (j, x) :: insertEntry k v rest

theorem mem_insertEntry {k : K} {v : A} {l : List (K × A)} {e : K × A}
    (h : e ∈ insertEntry k v l) : e = (k, v) ∨ e ∈ l := by
  induction l with
  | nil => simpa [insertEntry] using h
  | cons hd tl ih =>
      obtain ⟨j, x⟩ := hd
      simp only [insertEntry] at h
      split_ifs at h with h₁ h₂
      · simpa using h
      · rcases List.mem_cons.mp h with h | h
        · exact .inl h
        · exact .inr (List.mem_cons_of_mem _ h)
      · rcases List.mem_cons.mp h with h | h
        · exact .inr (h ▸ List.mem_cons_self)
        · exact (ih h).imp id (List.mem_cons_of_mem _)

theorem insertEntry_sorted (k : K) (v : A) {l : List (K × A)}
    (h : l.Pairwise fun a b ↦ a.1 < b.1) :
    (insertEntry k v l).Pairwise fun a b ↦ a.1 < b.1 := by
  induction l with
  | nil => simp [insertEntry]
  | cons hd tl ih =>
      obtain ⟨j, x⟩ := hd
      obtain ⟨hhd, htl⟩ := List.pairwise_cons.mp h
      simp only [insertEntry]
      split_ifs with h₁ h₂
      · refine h.cons fun e he ↦ ?_
        rcases List.mem_cons.mp he with rfl | he
        · exact h₁
        · exact h₁.trans (hhd e he)
      · subst h₂
        exact htl.cons hhd
      · refine (ih htl).cons fun e he ↦ ?_
        rcases mem_insertEntry he with rfl | he
        · exact lt_of_le_of_ne (not_lt.mp h₁) (Ne.symm h₂)
        · exact hhd e he

def insert (m : OrdMap K A) (k : K) (v : A) : OrdMap K A :=
  ⟨insertEntry k v m.entries, insertEntry_sorted k v m.sorted⟩

def erase (m : OrdMap K A) (k : K) : OrdMap K A :=
  ⟨m.entries.filter fun e ↦ e.1 ≠ k, m.sorted.filter _⟩

/-- Apply `f` to every value. -/
def mapVals (m : OrdMap K A) (f : K → A → B) : OrdMap K B :=
  ⟨m.entries.map fun e ↦ (e.1, f e.1 e.2), List.pairwise_map.mpr m.sorted⟩

/-- Apply `f` to the value at `k`, if there is one. -/
def modify (m : OrdMap K A) (k : K) (f : A → A) : OrdMap K A :=
  m.mapVals fun j v ↦ if j = k then f v else v

/-- Keep the entries that satisfy `p`. -/
def filter (m : OrdMap K A) (p : K → A → Bool) : OrdMap K A :=
  ⟨m.entries.filter fun e ↦ p e.1 e.2, m.sorted.filter _⟩

def size (m : OrdMap K A) : Nat := m.entries.length

def minKey? (m : OrdMap K A) : Option K := m.entries.head?.map Prod.fst

def maxKey? (m : OrdMap K A) : Option K := m.entries.getLast?.map Prod.fst

/-! ## Lookups and entries -/

theorem find_eq_some_iff {k : K} {v : A} {l : List (K × A)}
    (h : l.Pairwise fun a b ↦ a.1 < b.1) : find k l = some v ↔ (k, v) ∈ l := by
  induction l with
  | nil => simp [find]
  | cons hd tl ih =>
      obtain ⟨j, x⟩ := hd
      obtain ⟨hhd, htl⟩ := List.pairwise_cons.mp h
      simp only [find, List.mem_cons, Prod.mk.injEq]
      split_ifs with hj
      · subst hj
        constructor
        · intro hx; exact .inl ⟨rfl, (Option.some.inj hx).symm⟩
        · rintro (⟨-, rfl⟩ | hmem)
          · rfl
          · exact absurd (hhd _ hmem) (lt_irrefl _)
      · rw [ih htl]
        constructor
        · exact .inr
        · rintro (⟨rfl, -⟩ | hmem)
          · exact absurd rfl hj
          · exact hmem

theorem get?_eq_some_iff (m : OrdMap K A) {k : K} {v : A} :
    m.get? k = some v ↔ (k, v) ∈ m.entries := find_eq_some_iff m.sorted

/-- The lookups determine the map. -/
theorem ext_get? {m m' : OrdMap K A} (h : ∀ k, m.get? k = m'.get? k) : m = m' := by
  have hmem : ∀ e, e ∈ m.entries ↔ e ∈ m'.entries := fun e ↦ by
    rw [← m.get?_eq_some_iff, ← m'.get?_eq_some_iff, h]
  have hnodup : ∀ x : OrdMap K A, x.entries.Nodup := fun x ↦
    x.sorted.imp fun hlt heq ↦ absurd (heq ▸ hlt) (lt_irrefl _)
  refine OrdMap.ext (List.Perm.eq_of_pairwise ?_ m.sorted m'.sorted
    ((List.perm_ext_iff_of_nodup (hnodup m) (hnodup m')).mpr hmem))
  intro a b _ _ hab hba
  exact absurd hab hba.asymm

@[simp] theorem get?_empty (k : K) : (empty : OrdMap K A).get? k = none := rfl

theorem find_insertEntry (k j : K) (v : A) (l : List (K × A)) :
    find j (insertEntry k v l) = if j = k then some v else find j l := by
  induction l with
  | nil => simp [insertEntry, find, eq_comm]
  | cons hd tl ih =>
      obtain ⟨i, x⟩ := hd
      simp only [insertEntry]
      split_ifs with h₁ h₂ h₃ h₄ <;> grind [find]

@[simp] theorem get?_insert (m : OrdMap K A) (k j : K) (v : A) :
    (m.insert k v).get? j = if j = k then some v else m.get? j :=
  find_insertEntry k j v m.entries

theorem find_map (l : List (K × A)) (f : K → A → B) (k : K) :
    find k (l.map fun e ↦ (e.1, f e.1 e.2)) = (find k l).map (f k) := by
  induction l with
  | nil => rfl
  | cons hd tl ih =>
      obtain ⟨j, x⟩ := hd
      simp only [List.map_cons, find]
      split_ifs with h
      · subst h; rfl
      · exact ih

@[simp] theorem get?_mapVals (m : OrdMap K A) (f : K → A → B) (k : K) :
    (m.mapVals f).get? k = (m.get? k).map (f k) := find_map m.entries f k

@[simp] theorem get?_modify (m : OrdMap K A) (k j : K) (f : A → A) :
    (m.modify k f).get? j = if j = k then (m.get? j).map f else m.get? j := by
  simp only [modify, get?_mapVals]
  split_ifs <;> simp

theorem get?_filter (m : OrdMap K A) (p : K → A → Bool) (k : K) :
    (m.filter p).get? k = (m.get? k).filter (p k) := by
  ext v
  rw [get?_eq_some_iff, Option.filter_eq_some_iff, get?_eq_some_iff]
  simp [filter]

@[simp] theorem get?_erase (m : OrdMap K A) (k j : K) :
    (m.erase k).get? j = if j = k then none else m.get? j := by
  ext v
  rw [get?_eq_some_iff]
  split_ifs with h <;> simp [erase, h, get?_eq_some_iff]

@[simp] theorem contains_eq_false_iff (m : OrdMap K A) (k : K) :
    m.contains k = false ↔ m.get? k = none := by
  simp [contains]

theorem contains_iff (m : OrdMap K A) (k : K) : m.contains k = true ↔ ∃ v, m.get? k = some v := by
  simp [contains, Option.isSome_iff_exists]

/-- Updating a value that is present is inserting the new one. -/
theorem modify_eq_insert {m : OrdMap K A} {k : K} {v : A} (h : m.get? k = some v) (f : A → A) :
    m.modify k f = m.insert k (f v) := by
  refine ext_get? fun j ↦ ?_
  rw [get?_modify, get?_insert]
  split_ifs with hj
  · subst hj; simp [h]
  · rfl

/-- Updating a value that is missing changes nothing. -/
theorem modify_of_get?_none {m : OrdMap K A} {k : K} (h : m.get? k = none) (f : A → A) :
    m.modify k f = m := by
  refine ext_get? fun j ↦ ?_
  rw [get?_modify]
  split_ifs with hj
  · subst hj; simp [h]
  · rfl

/-! ## Extreme keys -/

theorem head?_insertEntry (k : K) (v : A) (l : List (K × A)) :
    (insertEntry k v l).head?.map Prod.fst =
      some (match l.head?.map Prod.fst with | none => k | some j => min k j) := by
  cases l with
  | nil => rfl
  | cons hd tl =>
      obtain ⟨j, x⟩ := hd
      simp only [insertEntry]
      split_ifs with h₁ h₂
      · simp [min_eq_left h₁.le]
      · subst h₂; simp
      · simp [min_eq_right (not_lt.mp h₁)]

theorem minKey?_insert (m : OrdMap K A) (k : K) (v : A) :
    (m.insert k v).minKey? = some (match m.minKey? with | none => k | some j => min k j) :=
  head?_insertEntry k v m.entries

theorem getLast?_insertEntry (k : K) (v : A) {l : List (K × A)}
    (h : l.Pairwise fun a b ↦ a.1 < b.1) :
    (insertEntry k v l).getLast?.map Prod.fst =
      some (match l.getLast?.map Prod.fst with | none => k | some j => max k j) := by
  induction l with
  | nil => rfl
  | cons hd tl ih =>
      obtain ⟨j, x⟩ := hd
      obtain ⟨hhd, htl⟩ := List.pairwise_cons.mp h
      -- the last key of a sorted list is at least its first
      have hlast : ∀ e ∈ ((j, x) :: tl).getLast?, j ≤ e.1 := by
        intro e he
        rcases List.mem_cons.mp (List.mem_of_getLast? he) with rfl | he
        · exact le_rfl
        · exact (hhd e he).le
      obtain ⟨e, he⟩ : ∃ e, ((j, x) :: tl).getLast? = some e :=
        Option.isSome_iff_exists.mp (by simp)
      have hje := hlast e he
      simp only [insertEntry]
      split_ifs with h₁ h₂
      · rw [List.getLast?_cons_cons, he]
        simp [max_eq_right (h₁.le.trans hje)]
      · subst h₂
        rw [he]
        cases tl with
        | nil => cases he; simp
        | cons hd' tl' =>
            rw [List.getLast?_cons_cons] at he ⊢
            rw [he]
            simp [max_eq_right hje]
      · rw [he]
        cases tl with
        | nil =>
            cases he
            simp [insertEntry, max_eq_left (not_lt.mp h₁)]
        | cons hd' tl' =>
            rw [List.getLast?_cons_cons] at he
            have hins : insertEntry k v (hd' :: tl') ≠ [] := by
              obtain ⟨j', x'⟩ := hd'
              simp only [insertEntry]
              split_ifs <;> simp
            obtain ⟨a, b, hab⟩ := List.exists_cons_of_ne_nil hins
            have := ih htl
            rw [he, hab] at this
            rw [hab, List.getLast?_cons_cons, this]

theorem maxKey?_insert (m : OrdMap K A) (k : K) (v : A) :
    (m.insert k v).maxKey? = some (match m.maxKey? with | none => k | some j => max k j) :=
  getLast?_insertEntry k v m.sorted

end OrdMap

end Nanobook
