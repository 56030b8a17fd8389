import Mathlib.Algebra.BigOperators.Group.Finset.Basic
import Mathlib.Data.List.Nodup
import Mathlib.Tactic.Abel
import Nanobook.Lib.Keyed

/-!
# Hash maps read in an order of their own

A hash map as its entries, in the order in which their keys came.  Lookups do not depend on how the
map arranges its keys.  Iteration does, and with a fixed hash function the arrangement is determined
by the keys and the order in which they came, so it is a parameter: an `Order` rearranges a list of
keys.
-/

namespace Nanobook

universe u v

structure HashMap (K : Type u) (A : Type v) where
  entries : List (K × A)
  nodup : (entries.map Prod.fst).Nodup

namespace HashMap

variable {K : Type u} {A : Type v}

def empty : HashMap K A := ⟨[], List.nodup_nil⟩

/-- Keys in the order in which they came. -/
def keys (m : HashMap K A) : List K := m.entries.map Prod.fst

/-- The order in which a map yields its keys. -/
structure Order (K : Type u) where
  arrange : List K → List K
  perm : ∀ keys, (arrange keys).Perm keys

/-- The map yields its keys as they came. -/
def Order.insertion : Order K := ⟨id, fun _ ↦ List.Perm.refl _⟩

variable [DecidableEq K]

/-- An order that arranges one list of keys as given. -/
def Order.of {keys arranged : List K} (h : arranged.Perm keys) : Order K where
  arrange l := if l = keys then arranged else l
  perm l := by
    split_ifs with hl
    · exact hl ▸ h
    · exact List.Perm.refl l

/-- The first entry of a list at key `k`. -/
def find (k : K) : List (K × A) → Option A
  | [] => none
  | (j, a) :: rest => if j = k then some a else find k rest

def get? (m : HashMap K A) (k : K) : Option A := find k m.entries

/-- Replace the value of the first entry at key `k`, or append an entry. -/
def insertEntry (k : K) (a : A) : List (K × A) → List (K × A)
  | [] => [(k, a)]
  | (j, b) :: rest => if j = k then (j, a) :: rest else (j, b) :: insertEntry k a rest

theorem keys_insertEntry (k : K) (a : A) (l : List (K × A)) :
    (insertEntry k a l).map Prod.fst =
      if k ∈ l.map Prod.fst then l.map Prod.fst else l.map Prod.fst ++ [k] := by
  induction l with
  | nil => simp [insertEntry]
  | cons e l ih =>
      obtain ⟨j, b⟩ := e
      by_cases hj : j = k
      · simp [insertEntry, hj]
      · have hmem : k ∈ j :: l.map Prod.fst ↔ k ∈ l.map Prod.fst := by simp [Ne.symm hj]
        simp only [insertEntry, if_neg hj, List.map_cons, ih, hmem]
        split <;> rfl

theorem find_insertEntry (k j : K) (a : A) (l : List (K × A)) :
    find j (insertEntry k a l) = if k = j then some a else find j l := by
  induction l with
  | nil => simp [insertEntry, find]
  | cons e l ih =>
      obtain ⟨i, b⟩ := e
      by_cases hi : i = k
      · subst hi
        by_cases hj : i = j <;> simp [insertEntry, find, hj]
      · by_cases hj : i = j
        · subst hj
          simp [insertEntry, find, hi, Ne.symm hi]
        · simp [insertEntry, find, hi, hj, ih]

def insert (m : HashMap K A) (k : K) (a : A) : HashMap K A where
  entries := insertEntry k a m.entries
  nodup := by
    rw [keys_insertEntry]
    split
    · exact m.nodup
    · next hk =>
        refine m.nodup.append (List.nodup_singleton k) ?_
        exact List.disjoint_singleton.mpr hk

/-- The entries in the order in which the map yields them. -/
def iter (o : Order K) (m : HashMap K A) : List (K × A) :=
  (o.arrange m.keys).filterMap fun k ↦ (m.get? k).map fun a ↦ (k, a)

@[simp] theorem get?_empty (k : K) : (empty : HashMap K A).get? k = none := rfl

theorem get?_insert (m : HashMap K A) (k j : K) (a : A) :
    (m.insert k a).get? j = if k = j then some a else m.get? j :=
  find_insertEntry k j a m.entries

@[simp] theorem get?_insert_self (m : HashMap K A) (k : K) (a : A) :
    (m.insert k a).get? k = some a := by
  rw [get?_insert, if_pos rfl]

theorem get?_insert_of_ne (m : HashMap K A) {k j : K} (h : k ≠ j) (a : A) :
    (m.insert k a).get? j = m.get? j := by
  rw [get?_insert, if_neg h]

def erase (m : HashMap K A) (k : K) : HashMap K A where
  entries := m.entries.filter fun e ↦ e.1 ≠ k
  nodup := m.nodup.sublist (List.filter_sublist.map Prod.fst)

theorem get?_erase (m : HashMap K A) (k j : K) :
    (m.erase k).get? j = if k = j then none else m.get? j := by
  obtain ⟨l, hl⟩ := m
  change find j (l.filter fun e ↦ e.1 ≠ k) = if k = j then none else find j l
  clear hl
  induction l with
  | nil => simp [find]
  | cons e l ih =>
      obtain ⟨i, b⟩ := e
      by_cases hi : i = k
      · rw [List.filter_cons_of_neg (by simp [hi]), ih, find]
        by_cases hj : k = j <;> simp [hi, hj]
      · rw [List.filter_cons_of_pos (by simp [hi]), find, ih, find]
        by_cases hj : i = j
        · simp [hj, Ne.symm (hj ▸ hi)]
        · simp [hj]

/-- Sums over the entries change by the entry that is replaced. -/
theorem sum_map_insert {M : Type*} [AddCommGroup M] (g : K → A → M) (m : HashMap K A) (k : K)
    (a : A) :
    ((m.insert k a).entries.map fun e ↦ g e.1 e.2).sum =
      (m.entries.map fun e ↦ g e.1 e.2).sum + (g k a - ((m.get? k).map (g k)).getD 0) := by
  obtain ⟨l, hl⟩ := m
  change ((insertEntry k a l).map fun e ↦ g e.1 e.2).sum =
    (l.map fun e ↦ g e.1 e.2).sum + (g k a - ((find k l).map (g k)).getD 0)
  clear hl
  induction l with
  | nil => simp [insertEntry, find]
  | cons e l ih =>
      obtain ⟨j, b⟩ := e
      by_cases hj : j = k
      · subst hj
        simp only [insertEntry, find, if_true, List.map_cons, List.sum_cons, Option.map_some,
          Option.getD_some]
        abel
      · simp only [insertEntry, find, if_neg hj, List.map_cons, List.sum_cons, ih]
        abel

theorem mem_entries {m : HashMap K A} {k : K} {a : A} : (k, a) ∈ m.entries ↔ m.get? k = some a := by
  obtain ⟨l, hl⟩ := m
  simp only [get?]
  induction l with
  | nil => simp [find]
  | cons e l ih =>
      obtain ⟨j, b⟩ := e
      obtain ⟨hj, hl⟩ := List.nodup_cons.mp hl
      by_cases hjk : j = k
      · subst hjk
        have hout : (j, a) ∉ l := fun h ↦
          hj (List.mem_map.mpr ⟨(j, a), h, rfl⟩)
        simp [find, hout, eq_comm]
      · simp [find, hjk, Ne.symm hjk, ih hl]

theorem find_eq_none_iff {k : K} {l : List (K × A)} : find k l = none ↔ k ∉ l.map Prod.fst := by
  induction l with
  | nil => simp [find]
  | cons e l ih =>
      obtain ⟨j, b⟩ := e
      by_cases hj : j = k
      · simp [find, hj]
      · simp [find, hj, ih, Ne.symm hj]

theorem get?_eq_none_iff {m : HashMap K A} {k : K} : m.get? k = none ↔ k ∉ m.keys :=
    find_eq_none_iff

theorem isSome_get?_iff {m : HashMap K A} {k : K} : (m.get? k).isSome = true ↔ k ∈ m.keys := by
  rw [← not_iff_not, ← get?_eq_none_iff, Option.not_isSome_iff_eq_none]

variable {o : Order K} {m : HashMap K A} {k : K} {a : A}

/-- What the map yields is what it holds. -/
theorem mem_iter : (k, a) ∈ m.iter o ↔ m.get? k = some a := by
  rw [iter, List.mem_filterMap]
  constructor
  · rintro ⟨j, -, hj⟩
    obtain ⟨b, hb, he⟩ := Option.map_eq_some_iff.mp hj
    cases he
    exact hb
  · intro h
    have hk : k ∈ m.keys := by
      by_contra hk
      rw [get?_eq_none_iff.mpr hk] at h
      cases h
    exact ⟨k, (o.perm _).mem_iff.mpr hk, by rw [h]; rfl⟩

theorem map_fst_iter : (m.iter o).map Prod.fst = o.arrange m.keys := by
  have hsome : ∀ k ∈ o.arrange m.keys, ∃ a, m.get? k = some a := by
    intro k hk
    rw [← Option.ne_none_iff_exists', Ne, get?_eq_none_iff, not_not]
    exact (o.perm _).mem_iff.mp hk
  rw [iter]
  generalize o.arrange m.keys = ks at hsome
  induction ks with
  | nil => rfl
  | cons k ks ih =>
      obtain ⟨a, ha⟩ := hsome k List.mem_cons_self
      rw [List.filterMap_cons_some (by rw [ha]; rfl), List.map_cons,
        ih fun j hj ↦ hsome j (List.mem_cons_of_mem k hj)]

/-- Every key is yielded once. -/
theorem nodup_iter : ((m.iter o).map Prod.fst).Nodup := by
  rw [map_fst_iter]
  exact (o.perm _).nodup_iff.mpr m.nodup

/-- A key is yielded with its value. -/
theorem filter_iter (o : Order K) (m : HashMap K A) (k : K) :
    ((m.iter o).filter fun e ↦ e.1 = k) = ((m.get? k).map fun a ↦ (k, a)).toList := by
  cases h : m.get? k with
  | some a => exact Keyed.filter_key_eq nodup_iter (mem_iter.mpr h)
  | none =>
      refine List.filter_eq_nil_iff.mpr fun e he hk ↦ ?_
      rw [← of_decide_eq_true hk, mem_iter.mp he] at h
      cases h

theorem find?_iter (o : Order K) (m : HashMap K A) (k : K) :
    ((m.iter o).find? fun e ↦ e.1 = k) = (m.get? k).map fun a ↦ (k, a) := by
  rw [← List.head?_filter, filter_iter]
  cases m.get? k <;> rfl

theorem any_iter (o : Order K) (m : HashMap K A) (k : K) :
    ((m.iter o).any fun e ↦ e.1 = k) = (m.get? k).isSome := by
  rw [Bool.eq_iff_iff, List.any_eq_true, ← List.find?_isSome, find?_iter, Option.isSome_map]

/-- The map yields its entries, each once. -/
theorem perm_iter : (m.iter o).Perm m.entries :=
  (List.perm_ext_iff_of_nodup nodup_iter.of_map m.nodup.of_map).mpr fun _ ↦
    mem_iter.trans mem_entries.symm

/-- A sum over what the map yields, as one over its keys. -/
theorem sum_iter {M : Type*} [AddCommMonoid M] {g : K → A → M} {f : K → M} {keys : Finset K}
    (hkeys : ∀ k, k ∈ keys ↔ (m.get? k).isSome) (hf : ∀ k a, m.get? k = some a → g k a = f k) :
    ((m.iter o).map fun e ↦ g e.1 e.2).sum = ∑ k ∈ keys, f k := by
  have hcongr : ((m.iter o).map fun e ↦ g e.1 e.2) = ((m.iter o).map Prod.fst).map f := by
    rw [List.map_map]
    exact List.map_congr_left fun e he ↦ hf e.1 e.2 (mem_iter.mp he)
  have hset : ((m.iter o).map Prod.fst).toFinset = keys := by
    ext k
    rw [List.mem_toFinset, hkeys, map_fst_iter, (o.perm _).mem_iff, isSome_get?_iff]
  rw [hcongr, ← List.sum_toFinset f nodup_iter, hset]

theorem sum_filter_iter {M : Type*} [AddCommMonoid M] {p : A → Bool} {q : K → Prop}
    [DecidablePred q] {g : K → A → M} {f : K → M} {keys : Finset K}
    (hkeys : ∀ k, k ∈ keys ↔ (m.get? k).isSome)
    (hf : ∀ k a, m.get? k = some a → (p a = true ↔ q k) ∧ g k a = f k) :
    (((m.iter o).filter fun e ↦ p e.2).map fun e ↦ g e.1 e.2).sum = ∑ k ∈ keys with q k, f k := by
  rw [Finset.sum_filter, ← sum_iter (o := o)
    (g := fun k a ↦ if p a = true then g k a else 0) hkeys fun k a hk ↦ ?_]
  · rw [List.sum_map_ite, List.map_const', List.sum_replicate, nsmul_zero, add_zero]
    simp only [Bool.decide_eq_true]
  · obtain ⟨hpq, hgf⟩ := hf k a hk
    simp only [hpq, hgf]

/-! ## Building a map anew -/

section Update

variable {B : Type*} {key : B → K} {f : Option A → B → A} {l : List B}

theorem get?_foldl_update_of_notMem (h : k ∉ l.map key) (m : HashMap K A) :
    (l.foldl (fun m b ↦ m.insert (key b) (f (m.get? (key b)) b)) m).get? k = m.get? k := by
  induction l generalizing m with
  | nil => rfl
  | cons b l ih =>
      rw [List.map_cons, List.mem_cons, not_or] at h
      rw [List.foldl_cons, ih h.2, get?_insert_of_ne _ (Ne.symm h.1)]

/-- A key that comes once in a list is updated once. -/
theorem get?_foldl_update_of_mem {b : B} (hl : (l.map key).Nodup) (hb : b ∈ l)
    (m : HashMap K A) :
    (l.foldl (fun m b ↦ m.insert (key b) (f (m.get? (key b)) b)) m).get? (key b) =
      some (f (m.get? (key b)) b) := by
  induction l generalizing m with
  | nil => cases hb
  | cons c l ih =>
      obtain ⟨hhead, htail⟩ := List.nodup_cons.mp hl
      rw [List.foldl_cons]
      rcases List.mem_cons.mp hb with rfl | hb
      · rw [get?_foldl_update_of_notMem hhead, get?_insert_self]
      · have hne : key c ≠ key b := fun heq ↦ hhead (heq ▸ List.mem_map_of_mem hb)
        rw [ih htail hb, get?_insert_of_ne _ hne]

end Update

/-- The entries a map yields make it up again, in any order, with what is made of their values. -/
theorem get?_foldl_insert_perm {B : Type*} {l : List (K × A)} (hl : l.Perm (m.iter o)) (f : A → B)
    (k : K) :
    (l.foldl (fun m e ↦ m.insert e.1 (f e.2)) (empty : HashMap K B)).get? k
      = (m.get? k).map f := by
  have hkeys : (l.map Prod.fst).Perm m.keys := by
    refine (hl.map Prod.fst).trans ?_
    rw [map_fst_iter]
    exact o.perm _
  cases h : m.get? k with
  | some a =>
      have hmem : (k, a) ∈ l := hl.mem_iff.mpr (mem_iter.mpr h)
      exact get?_foldl_update_of_mem (f := fun _ e ↦ f e.2) (hkeys.nodup_iff.mpr m.nodup) hmem empty
  | none =>
      have hk : k ∉ l.map Prod.fst := by
        rw [hkeys.mem_iff]
        exact get?_eq_none_iff.mp h
      exact get?_foldl_update_of_notMem (f := fun _ e ↦ f e.2) hk empty

/-- The entries a map yields make it up again. -/
theorem get?_foldl_insert_iter (o : Order K) (m : HashMap K A) (k : K) :
    ((m.iter o).foldl (fun m e ↦ m.insert e.1 e.2) empty).get? k = m.get? k :=
  (get?_foldl_insert_perm (List.Perm.refl (m.iter o)) id k).trans (congrFun Option.map_id _)

end HashMap

end Nanobook
