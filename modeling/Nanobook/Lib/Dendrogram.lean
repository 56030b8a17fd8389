import Mathlib.Data.List.Nodup
import Mathlib.Logic.Relation
import Mathlib.Order.Basic

/-!
# Dendrograms

A dendrogram is a binary tree over items with a height at every node.  Agglomeration starts from
the single items and keeps joining the two nearest trees of a forest, at the least distance between
their items.

A forest that is built so stays single-linked, its heights rise towards the roots, and none of them
exceeds what is left between two of its trees (`Forest.Sound.join`).  For a tree of that kind the
heights are minimax distances: two items lie below a node of height at most `τ` exactly when a chain
of items leads from one to the other in steps of at most `τ` (`Dendrogram.joined_iff`).
-/

namespace Nanobook

universe u v

variable {A : Type u} {D : Type v}

/-- A tree of nested clusters. -/
inductive Dendrogram (A : Type u) (D : Type v) where
  | leaf (a : A)
  | node (left right : Dendrogram A D) (height : D)

namespace Dendrogram

/-- The items from left to right. -/
def leaves : Dendrogram A D → List A
  | leaf a => [a]
  | node l r _ => l.leaves ++ r.leaves

/-- The heights of the nodes. -/
def heights : Dendrogram A D → List D
  | leaf _ => []
  | node l r h => h :: (l.heights ++ r.heights)

@[simp] theorem leaves_leaf (a : A) : (leaf a : Dendrogram A D).leaves = [a] := rfl

@[simp] theorem leaves_node (l r : Dendrogram A D) (h : D) :
    (node l r h).leaves = l.leaves ++ r.leaves := rfl

theorem leaves_ne_nil (t : Dendrogram A D) : t.leaves ≠ [] := by
  induction t with
  | leaf a => exact List.cons_ne_nil a []
  | node l r h ihl ihr => exact List.append_ne_nil_of_left_ne_nil ihl r.leaves

/-- A tree is part of another. -/
def Within (s : Dendrogram A D) : Dendrogram A D → Prop
  | leaf a => s = leaf a
  | node l r h => s = node l r h ∨ s.Within l ∨ s.Within r

theorem Within.refl (t : Dendrogram A D) : t.Within t := by
  cases t with
  | leaf a => rfl
  | node l r h => exact .inl rfl

/-- The items of a part stand together. -/
theorem Within.isInfix {s t : Dendrogram A D} (h : s.Within t) : s.leaves <:+: t.leaves := by
  induction t with
  | leaf a =>
      obtain rfl := h
      exact List.infix_refl _
  | node l r k ihl ihr =>
      rcases h with rfl | hl | hr
      · exact List.infix_refl _
      · exact (ihl hl).trans (List.prefix_append _ _).isInfix
      · exact (ihr hr).trans (List.suffix_append _ _).isInfix

variable [Preorder D] {dist : A → A → D} {τ : D} {a b c : A}

/-- The items of two trees are at least `τ` apart. -/
def Apart (dist : A → A → D) (τ : D) (l r : Dendrogram A D) : Prop :=
  ∀ a ∈ l.leaves, ∀ b ∈ r.leaves, τ ≤ dist a b

/-- The height of a node is the least distance between an item on its left and one on its right. -/
def Single (dist : A → A → D) : Dendrogram A D → Prop
  | leaf _ => True
  | node l r h =>
      (∃ a ∈ l.leaves, ∃ b ∈ r.leaves, dist a b ≤ h) ∧ Apart dist h l r ∧ l.Single dist ∧
        r.Single dist

/-- No node is higher than one above it. -/
def Rising : Dendrogram A D → Prop
  | leaf _ => True
  | node l r h => (∀ k ∈ l.heights ++ r.heights, k ≤ h) ∧ l.Rising ∧ r.Rising

/-- Two items are one, or lie below a node of height at most `τ`. -/
def Joined (τ : D) (a b : A) : Dendrogram A D → Prop
  | leaf c => a = c ∧ b = c
  | node l r h =>
      (h ≤ τ ∧ a ∈ l.leaves ++ r.leaves ∧ b ∈ l.leaves ++ r.leaves) ∨ l.Joined τ a b ∨
        r.Joined τ a b

theorem Apart.symm (hsymm : ∀ a b, dist a b = dist b a) {l r : Dendrogram A D}
    (h : Apart dist τ l r) : Apart dist τ r l := by
  intro b hb a ha
  rw [hsymm]
  exact h a ha b hb

/-! ## Blocks -/

theorem Joined.mem {τ : D} {a b : A} {t : Dendrogram A D} (h : t.Joined τ a b) :
    a ∈ t.leaves ∧ b ∈ t.leaves := by
  induction t with
  | leaf c =>
      obtain ⟨rfl, rfl⟩ := h
      exact ⟨List.mem_singleton_self _, List.mem_singleton_self _⟩
  | node l r k ihl ihr =>
      rcases h with ⟨-, hmem⟩ | hl | hr
      · exact hmem
      · exact ⟨List.mem_append_left _ (ihl hl).1, List.mem_append_left _ (ihl hl).2⟩
      · exact ⟨List.mem_append_right _ (ihr hr).1, List.mem_append_right _ (ihr hr).2⟩

theorem joined_self {t : Dendrogram A D} (ha : a ∈ t.leaves) : t.Joined τ a a := by
  induction t with
  | leaf c =>
      have hac := List.mem_singleton.mp ha
      exact ⟨hac, hac⟩
  | node l r k ihl ihr =>
      rcases List.mem_append.mp ha with hl | hr
      · exact .inr (.inl (ihl hl))
      · exact .inr (.inr (ihr hr))

theorem joined_iff_within {t : Dendrogram A D} :
    t.Joined τ a b ↔ (a = b ∧ a ∈ t.leaves) ∨
      ∃ l r h, (node l r h).Within t ∧ h ≤ τ ∧ a ∈ l.leaves ++ r.leaves ∧
        b ∈ l.leaves ++ r.leaves := by
  constructor
  · intro h
    induction t with
    | leaf c =>
        obtain ⟨rfl, rfl⟩ := h
        exact .inl ⟨rfl, List.mem_singleton_self _⟩
    | node l r k ihl ihr =>
        rcases h with ⟨hk, hmem⟩ | hl | hr
        · exact .inr ⟨l, r, k, .inl rfl, hk, hmem⟩
        · rcases ihl hl with ⟨hab, ha⟩ | ⟨l', r', k', hin, hk⟩
          · exact .inl ⟨hab, List.mem_append_left _ ha⟩
          · exact .inr ⟨l', r', k', .inr (.inl hin), hk⟩
        · rcases ihr hr with ⟨hab, ha⟩ | ⟨l', r', k', hin, hk⟩
          · exact .inl ⟨hab, List.mem_append_right _ ha⟩
          · exact .inr ⟨l', r', k', .inr (.inr hin), hk⟩
  · rintro (⟨rfl, ha⟩ | ⟨l, r, k, hin, hk, hmem⟩)
    · exact joined_self ha
    · induction t with
      | leaf c => cases hin
      | node l' r' k' ihl ihr =>
          rcases hin with heq | hl | hr
          · cases heq
            exact .inl ⟨hk, hmem⟩
          · exact .inr (.inl (ihl hl))
          · exact .inr (.inr (ihr hr))

/-- Blocks are nested or disjoint, so that two with a common item make one. -/
theorem Joined.trans {t : Dendrogram A D} (hnodup : t.leaves.Nodup) (hab : t.Joined τ a b)
    (hbc : t.Joined τ b c) : t.Joined τ a c := by
  induction t with
  | leaf d => exact ⟨hab.1, hbc.2⟩
  | node l r k ihl ihr =>
      obtain ⟨hl, hr, hdisj⟩ := List.nodup_append'.mp hnodup
      by_cases hk : k ≤ τ
      · exact .inl ⟨hk, hab.mem.1, hbc.mem.2⟩
      · rcases hab with ⟨hk', -⟩ | hab | hab
        · exact absurd hk' hk
        · rcases hbc with ⟨hk', -⟩ | hbc | hbc
          · exact absurd hk' hk
          · exact .inr (.inl (ihl hl hab hbc))
          · exact absurd hbc.mem.1 (List.disjoint_left.mp hdisj hab.mem.2)
        · rcases hbc with ⟨hk', -⟩ | hbc | hbc
          · exact absurd hk' hk
          · exact absurd hab.mem.2 (List.disjoint_left.mp hdisj hbc.mem.1)
          · exact .inr (.inr (ihr hr hab hbc))

/-- Items at most `τ` apart are joined where their branches meet. -/
theorem Single.joined (hsymm : ∀ a b, dist a b = dist b a) {t : Dendrogram A D}
    (ht : t.Single dist) (ha : a ∈ t.leaves) (hb : b ∈ t.leaves) (hab : dist a b ≤ τ) :
    t.Joined τ a b := by
  induction t with
  | leaf c => exact ⟨List.mem_singleton.mp ha, List.mem_singleton.mp hb⟩
  | node l r k ihl ihr =>
      obtain ⟨-, hapart, hl, hr⟩ := ht
      rcases List.mem_append.mp ha with hal | har <;> rcases List.mem_append.mp hb with hbl | hbr
      · exact .inr (.inl (ihl hl hal hbl))
      · exact .inl ⟨(hapart a hal b hbr).trans hab, ha, hb⟩
      · exact .inl ⟨(hapart.symm hsymm a har b hbl).trans hab, ha, hb⟩
      · exact .inr (.inr (ihr hr har hbr))

/-! ## Chains -/

/-- A step of at most `τ` between two items of the tree. -/
def Near (dist : A → A → D) (τ : D) (items : List A) (a b : A) : Prop :=
  a ∈ items ∧ b ∈ items ∧ dist a b ≤ τ

/-- A chain of steps of at most `τ`. -/
def Chained (dist : A → A → D) (τ : D) (items : List A) : A → A → Prop :=
  Relation.ReflTransGen (Near dist τ items)

theorem Chained.mono {items items' : List A} (hsub : items ⊆ items')
    (h : Chained dist τ items a b) : Chained dist τ items' a b :=
  Relation.ReflTransGen.mono (fun _ _ hnear ↦ ⟨hsub hnear.1, hsub hnear.2.1, hnear.2.2⟩) _ _ h

theorem Chained.symm (hsymm : ∀ a b, dist a b = dist b a) {items : List A}
    (h : Chained dist τ items a b) : Chained dist τ items b a := by
  induction h with
  | refl => exact .refl
  | tail _ hnear ih => exact .head ⟨hnear.2.1, hnear.1, hsymm _ _ ▸ hnear.2.2⟩ ih

/-- In a tree no higher than `τ` every item leads to every other. -/
theorem Single.chained (hsymm : ∀ a b, dist a b = dist b a) {t : Dendrogram A D}
    (ht : t.Single dist) (hlow : ∀ k ∈ t.heights, k ≤ τ) (ha : a ∈ t.leaves) (hb : b ∈ t.leaves) :
    Chained dist τ t.leaves a b := by
  induction t generalizing a b with
  | leaf c =>
      obtain rfl := List.mem_singleton.mp ha
      obtain rfl := List.mem_singleton.mp hb
      exact .refl
  | node l r k ihl ihr =>
      obtain ⟨⟨x, hx, y, hy, hxy⟩, -, hl, hr⟩ := ht
      have hk : k ≤ τ := hlow k List.mem_cons_self
      have hlowl : ∀ j ∈ l.heights, j ≤ τ := fun j hj ↦
        hlow j (List.mem_cons_of_mem k (List.mem_append_left _ hj))
      have hlowr : ∀ j ∈ r.heights, j ≤ τ := fun j hj ↦
        hlow j (List.mem_cons_of_mem k (List.mem_append_right _ hj))
      have hsubl : l.leaves ⊆ (node l r k).leaves := List.subset_append_left _ _
      have hsubr : r.leaves ⊆ (node l r k).leaves := List.subset_append_right _ _
      -- From the left half to the right one the chain takes the closest pair.
      have hcross : ∀ {p q}, p ∈ l.leaves → q ∈ r.leaves →
          Chained dist τ (node l r k).leaves p q := fun hp hq ↦
        ((ihl hl hlowl hp hx).mono hsubl).trans
          (.head ⟨hsubl hx, hsubr hy, hxy.trans hk⟩ ((ihr hr hlowr hy hq).mono hsubr))
      rcases List.mem_append.mp ha with hal | har <;> rcases List.mem_append.mp hb with hbl | hbr
      · exact (ihl hl hlowl hal hbl).mono hsubl
      · exact hcross hal hbr
      · exact (hcross hbl har).symm hsymm
      · exact (ihr hr hlowr har hbr).mono hsubr

/-- What lies below one node of height at most `τ` is what chains of steps of at most `τ` reach. -/
theorem joined_iff (hsymm : ∀ a b, dist a b = dist b a) {t : Dendrogram A D}
    (hnodup : t.leaves.Nodup) (ht : t.Single dist) (hrising : t.Rising) (ha : a ∈ t.leaves) :
    t.Joined τ a b ↔ Chained dist τ t.leaves a b := by
  constructor
  · intro h
    clear hnodup ha
    induction t with
    | leaf c =>
        obtain ⟨rfl, rfl⟩ := h
        exact .refl
    | node l r k ihl ihr =>
        rcases h with ⟨hk, ha, hb⟩ | hl | hr
        · refine ht.chained hsymm (fun j hj ↦ ?_) ha hb
          rcases List.mem_cons.mp hj with rfl | hj
          · exact hk
          · exact (hrising.1 j hj).trans hk
        · exact (ihl ht.2.2.1 hrising.2.1 hl).mono (List.subset_append_left _ _)
        · exact (ihr ht.2.2.2 hrising.2.2 hr).mono (List.subset_append_right _ _)
  · intro h
    induction h with
    | refl => exact joined_self ha
    | tail _ hnear ih => exact ih.trans hnodup (ht.joined hsymm hnear.1 hnear.2.1 hnear.2.2)

end Dendrogram

/-! ## Forests -/

namespace Forest

open Dendrogram

variable [Preorder D] {dist : A → A → D} {l r : Dendrogram A D} {h : D}
  {f rest : List (Dendrogram A D)}

/-- The trees of a forest are single-linked, and no height among them exceeds what is left between
two of them. -/
structure Sound (dist : A → A → D) (f : List (Dendrogram A D)) : Prop where
  single : ∀ t ∈ f, t.Single dist
  rising : ∀ t ∈ f, t.Rising
  apart : ∀ t ∈ f, ∀ k ∈ t.heights, f.Pairwise (Apart dist k)

/-- Single items are a forest. -/
theorem sound_leaves (dist : A → A → D) (items : List A) :
    Sound dist (items.map (leaf : A → Dendrogram A D)) where
  single t ht := by
    obtain ⟨a, -, rfl⟩ := List.mem_map.mp ht
    trivial
  rising t ht := by
    obtain ⟨a, -, rfl⟩ := List.mem_map.mp ht
    trivial
  apart t ht k hk := by
    obtain ⟨a, -, rfl⟩ := List.mem_map.mp ht
    cases hk

/-- What two trees keep from the others, the tree joined from them keeps. -/
theorem pairwise_join {τ : D} (hsymm : ∀ a b, dist a b = dist b a) (hperm : f.Perm (l :: r :: rest))
    (hapart : f.Pairwise (Apart dist τ)) : (rest ++ [node l r h]).Pairwise (Apart dist τ) := by
  obtain ⟨hl, hr⟩ :=
    List.pairwise_cons.mp ((hperm.pairwise_iff fun h ↦ h.symm hsymm).mp hapart)
  obtain ⟨hr, hrest⟩ := List.pairwise_cons.mp hr
  refine List.pairwise_append.mpr ⟨hrest, List.pairwise_singleton _ _, fun t ht s hs ↦ ?_⟩
  obtain rfl := List.mem_singleton.mp hs
  intro a ha b hb
  rcases List.mem_append.mp hb with hb | hb
  · exact (hl t (List.mem_cons_of_mem r ht)).symm hsymm a ha b hb
  · exact (hr t ht).symm hsymm a ha b hb

section Nearest

variable (hf : Sound dist f) (hsymm : ∀ a b, dist a b = dist b a) (hperm : f.Perm (l :: r :: rest))
  (hmet : ∃ a ∈ l.leaves, ∃ b ∈ r.leaves, dist a b ≤ h)
include hf hsymm hperm hmet

/-- No height of the forest exceeds that at which two of its trees are joined. -/
theorem Sound.height_le {t : Dendrogram A D} {k : D} (ht : t ∈ f) (hk : k ∈ t.heights) : k ≤ h := by
  have hpair := (hperm.pairwise_iff fun h ↦ h.symm hsymm).mp (hf.apart t ht k hk)
  obtain ⟨a, ha, b, hb, hab⟩ := hmet
  exact (List.rel_of_pairwise_cons hpair List.mem_cons_self a ha b hb).trans hab

/-- The two nearest trees are joined at the distance between them. -/
theorem Sound.join (hleast : f.Pairwise (Apart dist h)) : Sound dist (rest ++ [node l r h]) := by
  have hl : l ∈ f := hperm.mem_iff.mpr List.mem_cons_self
  have hr : r ∈ f := hperm.mem_iff.mpr (List.mem_cons_of_mem l List.mem_cons_self)
  have hrest : ∀ t ∈ rest, t ∈ f := fun t ht ↦
    hperm.mem_iff.mpr (List.mem_cons_of_mem l (List.mem_cons_of_mem r ht))
  have hlr : Apart dist h l r :=
    List.rel_of_pairwise_cons ((hperm.pairwise_iff fun h ↦ h.symm hsymm).mp hleast)
      List.mem_cons_self
  refine ⟨fun t ht ↦ ?_, fun t ht ↦ ?_, fun t ht k hk ↦ pairwise_join hsymm hperm ?_⟩
  · rcases List.mem_append.mp ht with ht | ht
    · exact hf.single t (hrest t ht)
    · obtain rfl := List.mem_singleton.mp ht
      exact ⟨hmet, hlr, hf.single l hl, hf.single r hr⟩
  · rcases List.mem_append.mp ht with ht | ht
    · exact hf.rising t (hrest t ht)
    · obtain rfl := List.mem_singleton.mp ht
      refine ⟨fun k hk ↦ ?_, hf.rising l hl, hf.rising r hr⟩
      rcases List.mem_append.mp hk with hk | hk
      · exact hf.height_le hsymm hperm hmet hl hk
      · exact hf.height_le hsymm hperm hmet hr hk
  · rcases List.mem_append.mp ht with ht | ht
    · exact hf.apart t (hrest t ht) k hk
    · obtain rfl := List.mem_singleton.mp ht
      rcases List.mem_cons.mp hk with rfl | hk
      · exact hleast
      · rcases List.mem_append.mp hk with hk | hk
        · exact hf.apart l hl k hk
        · exact hf.apart r hr k hk

end Nearest

end Forest

end Nanobook
