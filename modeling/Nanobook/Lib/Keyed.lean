import Mathlib.Data.List.Nodup

/-!
# Entries inserted by key

A map into which entries are inserted one after another, as the list of the entries it holds.  The
last entry of each key is what is left of them.
-/

namespace Nanobook.Keyed

universe u v

variable {A : Type u} {K : Type v} [DecidableEq K] (key : A → K)

/-- Insert an entry, in place of the one of its key. -/
def insert (m : List A) (a : A) : List A := m.filter (fun b ↦ key b ≠ key a) ++ [a]

/-- The entries of a list whose key does not come again. -/
def lastOfEach : List A → List A
  | [] => []
  | a :: rest => if key a ∈ rest.map key then lastOfEach rest else a :: lastOfEach rest

variable {key} {a b : A} {before after as m : List A}

theorem lastOfEach_of_mem (h : key a ∈ as.map key) :
    lastOfEach key (a :: as) = lastOfEach key as := if_pos h

theorem lastOfEach_of_notMem (h : key a ∉ as.map key) :
    lastOfEach key (a :: as) = a :: lastOfEach key as := if_neg h

/-- Insertion keeps what was there under other keys. -/
theorem foldl_insert : as.foldl (insert key) m =
    m.filter (fun b ↦ key b ∉ as.map key) ++ lastOfEach key as := by
  induction as generalizing m with
  | nil => simp [lastOfEach]
  | cons a as ih =>
      have hkeys : ∀ b, key b ∉ (a :: as).map key ↔ key b ∉ as.map key ∧ key b ≠ key a := by
        intro b
        rw [List.map_cons, List.mem_cons, not_or, and_comm]
      simp only [List.foldl_cons, ih, insert, List.filter_append, List.filter_filter, hkeys,
        Bool.decide_and]
      by_cases h : key a ∈ as.map key
      · have hnone : [a].filter (fun b ↦ decide (key b ∉ as.map key)) = [] := by
          rw [List.filter_singleton, decide_eq_false (not_not.mpr h), cond_false]
        rw [hnone, List.append_nil, lastOfEach_of_mem h]
      · have hself : [a].filter (fun b ↦ decide (key b ∉ as.map key)) = [a] := by
          rw [List.filter_singleton, decide_eq_true h, cond_true]
        rw [hself, List.append_assoc, lastOfEach_of_notMem h, List.singleton_append]

theorem lastOfEach_sublist : (lastOfEach key as).Sublist as := by
  induction as with
  | nil => exact List.Sublist.slnil
  | cons a as ih =>
      by_cases h : key a ∈ as.map key
      · rw [lastOfEach_of_mem h]
        exact ih.cons a
      · rw [lastOfEach_of_notMem h]
        exact ih.cons_cons a

theorem nodup_lastOfEach : ((lastOfEach key as).map key).Nodup := by
  induction as with
  | nil => exact List.nodup_nil
  | cons a as ih =>
      by_cases h : key a ∈ as.map key
      · rwa [lastOfEach_of_mem h]
      · rw [lastOfEach_of_notMem h, List.map_cons, List.nodup_cons]
        exact ⟨fun hmem ↦ h ((lastOfEach_sublist.map key).subset hmem), ih⟩

theorem mem_lastOfEach (h : key a ∉ after.map key) : a ∈ lastOfEach key (before ++ a :: after) := by
  induction before with
  | nil =>
      rw [List.nil_append, lastOfEach_of_notMem h]
      exact List.mem_cons_self
  | cons b before ih =>
      rw [List.cons_append]
      by_cases hb : key b ∈ (before ++ a :: after).map key
      · rwa [lastOfEach_of_mem hb]
      · rw [lastOfEach_of_notMem hb]
        exact List.mem_cons_of_mem b ih

/-- No two entries that are left have one key. -/
theorem eq_of_mem_lastOfEach (ha : a ∈ lastOfEach key as) (hb : b ∈ lastOfEach key as)
    (h : key a = key b) : a = b :=
  List.inj_on_of_nodup_map nodup_lastOfEach ha hb h

omit [DecidableEq K] in
/-- What is made of entries with different keys has different keys. -/
theorem sublist_map_filterMap {B : Type u} {f : A → Option B} {g : B → K} {l : List A}
    (h : ∀ a ∈ l, ∀ b, f a = some b → g b = key a) :
    ((l.filterMap f).map g).Sublist (l.map key) := by
  induction l with
  | nil => exact List.Sublist.refl _
  | cons a l ih =>
    obtain ⟨ha, hl⟩ := List.forall_mem_cons.mp h
    rw [List.filterMap_cons]
    cases hf : f a with
    | none => exact (ih hl).cons _
    | some b =>
      rw [List.map_cons, List.map_cons, ha b hf]
      exact (ih hl).cons_cons _

/-- Of entries with different keys one is at the key of an entry. -/
theorem filter_key_eq (hdistinct : (as.map key).Nodup) (ha : a ∈ as) :
    as.filter (fun b ↦ key b = key a) = [a] := by
  induction as with
  | nil => cases ha
  | cons c as ih =>
      obtain ⟨hc, has⟩ := List.nodup_cons.mp hdistinct
      rcases List.mem_cons.mp ha with rfl | ha
      · have hrest : as.filter (fun b ↦ key b = key a) = [] :=
          List.filter_eq_nil_iff.mpr fun b hb heq ↦
            hc (of_decide_eq_true heq ▸ List.mem_map_of_mem hb)
        rw [List.filter_cons, hrest, if_pos (decide_eq_true rfl)]
      · have hne : key c ≠ key a := fun heq ↦ hc (heq ▸ List.mem_map_of_mem ha)
        rw [List.filter_cons, ih has ha, if_neg (by simpa using hne)]

end Nanobook.Keyed
