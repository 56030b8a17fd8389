import Mathlib.Data.List.Induction
import Mathlib.Data.List.Perm.Basic
import Mathlib.Data.List.Sort

/-!
# Lists in another order

Three ways in which a result may or may not depend on the order of a list: a list that is sorted
does not show how it was arranged before, any arrangement of a filtered list comes from one of the
whole, and requests that are served one after another from one balance are granted the same in every
order exactly if each of them is granted what it would get alone, whichever of the others have been
paid before.
-/

namespace Nanobook

namespace Arrangement

variable {A B C Q : Type*}

/-! ## Sorting -/

section Sorting

variable {r : A → A → Prop} [DecidableRel r]

/-- A relation that orders the elements of a list sorts it. -/
theorem pairwise_insertionSort {l : List A} (htotal : ∀ a ∈ l, ∀ b ∈ l, r a b ∨ r b a)
    (htrans : ∀ a ∈ l, ∀ b ∈ l, ∀ c ∈ l, r a b → r b c → r a c) :
    (l.insertionSort r).Pairwise r := by
  -- on the elements of the list alone the relation has its laws everywhere
  let s (a b : { a // a ∈ l }) : Prop := r a.1 b.1
  have : DecidableRel s := fun a b ↦ inferInstanceAs (Decidable (r a.1 b.1))
  have : Std.Total s := ⟨fun a b ↦ htotal a.1 a.2 b.1 b.2⟩
  have : IsTrans { a // a ∈ l } s := ⟨fun a b c ↦ htrans a.1 a.2 b.1 b.2 c.1 c.2⟩
  have hmap :=
    List.map_insertionSort (r := s) (s := r) Subtype.val (l.attachWith (· ∈ l) fun _ ↦ id)
      fun _ _ _ _ ↦ Iff.rfl
  rw [List.attachWith_map_subtype_val] at hmap
  rw [← hmap, List.pairwise_map]
  exact List.pairwise_insertionSort s _

/-- Sorting by a relation that orders the elements of a list sorts each of its arrangements
alike. -/
theorem insertionSort_eq_of_perm {l l' : List A} (h : l.Perm l')
    (htotal : ∀ a ∈ l, ∀ b ∈ l, r a b ∨ r b a)
    (htrans : ∀ a ∈ l, ∀ b ∈ l, ∀ c ∈ l, r a b → r b c → r a c)
    (hanti : ∀ a ∈ l, ∀ b ∈ l, r a b → r b a → a = b) : l.insertionSort r = l'.insertionSort r := by
  have hperm : (l.insertionSort r).Perm (l'.insertionSort r) :=
    (List.perm_insertionSort r l).trans (h.trans (List.perm_insertionSort r l').symm)
  have hmem (a : A) (ha : a ∈ l') : a ∈ l := h.mem_iff.mpr ha
  refine hperm.eq_of_pairwise (fun a b ha hb ↦ ?_) (pairwise_insertionSort htotal htrans)
    (pairwise_insertionSort (fun a ha b hb ↦ htotal a (hmem a ha) b (hmem b hb))
      fun a ha b hb c hc ↦ htrans a (hmem a ha) b (hmem b hb) c (hmem c hc))
  exact hanti a ((List.perm_insertionSort r l).mem_iff.mp ha)
    b (hmem b ((List.perm_insertionSort r l').mem_iff.mp hb))

end Sorting

/-! ## Filtering -/

theorem forall₂_filterMap (f : A → Option B) (l : List A) :
    List.Forall₂ (fun b a ↦ f a = some b) (l.filterMap f) (l.filter fun a ↦ (f a).isSome) := by
  induction l with
  | nil => exact .nil
  | cons a l ih =>
    cases ha : f a with
    | none => simpa [ha] using ih
    | some b => simpa [ha] using ih

theorem filterMap_of_forall₂ {f : A → Option B} {l : List A} {k : List B}
    (h : List.Forall₂ (fun b a ↦ f a = some b) k l) : l.filterMap f = k := by
  induction h with
  | nil => rfl
  | cons hb _ ih => rw [List.filterMap_cons, hb, ih]

/-- Any arrangement of what is filtered out of a list comes from an arrangement of the list. -/
theorem exists_perm_filterMap {f : A → Option B} {l : List A} {k : List B}
    (h : k.Perm (l.filterMap f)) :
    ∃ l' : List A, l'.Perm l ∧ l'.filterMap f = k := by
  obtain ⟨m, hm, hperm⟩ := List.perm_comp_forall₂ h (forall₂_filterMap f l)
  refine ⟨m ++ l.filter fun a ↦ !(f a).isSome, ?_, ?_⟩
  · exact (hperm.append_right _).trans (List.filter_append_perm _ l)
  · have hnone : (l.filter fun a ↦ !(f a).isSome).filterMap f = [] := by
      rw [List.filterMap_eq_nil_iff]
      intro a ha
      simpa using (List.mem_filter.mp ha).2
    rw [List.filterMap_append, filterMap_of_forall₂ hm, hnone, List.append_nil]

/-! ## Serving -/

section Serving

variable (grant : C → A → Q) (pay : C → A → Q → C)

/-- What the requests are granted when they are served in order. -/
def serve : C → List A → List (A × Q)
  | _, [] => []
  | balance, a :: rest => (a, grant balance a) :: serve (pay balance a (grant balance a)) rest

/-- The balance when they have been served. -/
def left (balance : C) (requests : List A) : C :=
  requests.foldl (fun balance a ↦ pay balance a (grant balance a)) balance

/-- The balance when they have been paid what each would be granted at the start. -/
def settle (start : C) (requests : List A) : C :=
  requests.foldl (fun balance a ↦ pay balance a (grant start a)) start

/-- What a request is granted does not depend on which of the others have been paid before. -/
def Unaffected (start : C) (requests : List A) : Prop :=
  ∀ a before, (a :: before).Subperm requests →
  grant (settle grant pay start before) a = grant start a

variable {grant pay} {start balance : C} {requests arranged before : List A}

theorem serve_append (balance : C) (l k : List A) : serve grant pay balance (l ++ k) =
    serve grant pay balance l ++ serve grant pay (left grant pay balance l) k := by
  induction l generalizing balance with
  | nil => rfl
  | cons a l ih => exact congrArg (_ :: ·) (ih _)

theorem map_fst_serve (balance : C) (l : List A) :
    (serve grant pay balance l).map Prod.fst = l := by
  induction l generalizing balance with
  | nil => rfl
  | cons a l ih => exact congrArg (a :: ·) (ih _)

/-- The balance, if every request is granted what it would be granted at the start. -/
theorem left_eq_of_serve {g : A → Q}
    (h : ∀ a q, (a, q) ∈ serve grant pay balance before → q = g a) :
    left grant pay balance before = before.foldl (fun balance a ↦ pay balance a (g a)) balance := by
  induction before generalizing balance with
  | nil => rfl
  | cons a rest ih =>
    have ha : grant balance a = g a := h a _ List.mem_cons_self
    rw [left, List.foldl_cons, List.foldl_cons, ← ha]
    exact ih fun b q hb ↦ h b q (List.mem_cons_of_mem _ hb)

/-- Requests that do not affect each other are served alike. -/
theorem Unaffected.serve_eq (h : Unaffected grant pay start requests)
    (hle : arranged.Subperm requests) :
    serve grant pay start arranged = arranged.map (fun a ↦ (a, grant start a)) ∧
      left grant pay start arranged = settle grant pay start arranged := by
  induction arranged using List.reverseRecOn with
  | nil => exact ⟨rfl, rfl⟩
  | append_singleton before a ih =>
    have hlast : (a :: before).Subperm requests :=
      (List.perm_append_singleton a before).symm.subperm.trans hle
    obtain ⟨hserve, hleft⟩ := ih ((List.sublist_append_left before [a]).subperm.trans hle)
    have ha :
      grant (left grant pay start before) a = grant start a := by rw [hleft, h a before hlast]
    constructor
    · rw [serve_append, hserve, serve, serve, ha, List.map_append]
      rfl
    · rw [left, List.foldl_append, settle, List.foldl_append, List.foldl_cons, List.foldl_cons,
        List.foldl_nil, List.foldl_nil, ← left, ← settle, ha, hleft]

/-- A single request is not affected. -/
theorem unaffected_of_length_le (h : requests.length ≤ 1) :
    Unaffected grant pay start requests := by
  intro a before hle
  have hlength := hle.length_le
  rw [List.length_cons] at hlength
  have hnil : before = [] := List.eq_nil_of_length_eq_zero (by lia)
  rw [hnil]
  rfl

/-- Requests do not affect each other exactly if, in whatever order they are served, each is granted
what it would be granted at the start. -/
theorem unaffected_iff : Unaffected grant pay start requests ↔
    ∀ arranged, arranged.Perm requests → ∀ a q, (a, q) ∈ serve grant pay start arranged →
    q = grant start a := by
  constructor
  · intro h arranged hperm a q hmem
    rw [(h.serve_eq hperm.subperm).1] at hmem
    obtain ⟨b, -, heq⟩ := List.mem_map.mp hmem
    cases heq
    rfl
  · intro h a before hle
    obtain ⟨l, hl, hsub⟩ := hle
    obtain ⟨rest, hrest⟩ := hsub.exists_perm_append
    have hperm : (before ++ a :: rest).Perm requests :=
      (List.perm_middle.trans (hl.symm.append_right rest)).trans hrest.symm
    have hserve := h _ hperm
    rw [serve_append] at hserve
    have hleft : left grant pay start before = settle grant pay start before :=
      left_eq_of_serve fun b q hb ↦ hserve b q (List.mem_append_left _ hb)
    rw [← hleft]
    exact hserve a _ (List.mem_append_right _ List.mem_cons_self)

end Serving

end Arrangement

end Nanobook
