import Nanobook.Lib.Dendrogram
import Nanobook.Lib.Loop
import Nanobook.Lib.Scan
import Nanobook.Optimize.Numbers

/-!
# Hierarchical clustering

`single_linkage_clustering` and `hrp_quasi_diagonalization` of `optimize.rs`.  The linkage is a
table with one row for each merge, in which clusters go by their numbers; what is proved of it here
holds whatever the distances are, NaN among them.

The clusters of the loop stand for the trees of a forest (`Stands`), and a row of the table for a
node of one of them (`Shows`).  Every pass joins two trees.  The table that is returned therefore
shows one dendrogram of all assets, whose leaves the quasi-diagonalization lists from left to right
(`linkage_shows`).
-/

namespace Nanobook

namespace Optimize

open F64 F64Ext

variable {F : Type}

/-! ## The linkage table -/

structure LinkageMerge (F : Type) where
  left : Nat
  right : Nat
  distance : F
  size : Nat
deriving DecidableEq

def appendLinkageLeaves (fuel clusterId nAssets : Nat) (linkage : List (LinkageMerge F))
    (order : List Nat) : Option (List Nat) :=
  match fuel with
  | 0 => none
  | fuel + 1 =>
      if clusterId < nAssets then some (order ++ [clusterId])
      else
        match linkage[clusterId - nAssets]? with
        | none => some order
        | some merge => do
            let order ← appendLinkageLeaves fuel merge.left nAssets linkage order
            appendLinkageLeaves fuel merge.right nAssets linkage order

/-- The loop of `all_unique_indices`. -/
def uniqueFrom (n : Nat) : List Nat → List Bool → Bool
  | [], _ => true
  | idx :: rest, seen =>
      if idx ≥ n || seen.getD idx false then false else uniqueFrom n rest (seen.set idx true)

def allUniqueIndices (indices : List Nat) (n : Nat) : Bool :=
  uniqueFrom n indices (List.replicate n false)

theorem uniqueFrom_iff {n : Nat} {indices : List Nat} {seen : List Bool} (hseen : seen.length = n) :
    uniqueFrom n indices seen = true ↔
      indices.Nodup ∧ ∀ i ∈ indices, i < n ∧ seen.getD i false = false := by
  induction indices generalizing seen with
  | nil => simp [uniqueFrom]
  | cons idx rest ih =>
      rw [uniqueFrom]
      by_cases hidx : idx < n ∧ seen.getD idx false = false
      · rw [if_neg (by simpa using ⟨hidx.1, hidx.2⟩), ih (by rw [List.length_set, hseen]),
          List.nodup_cons, List.forall_mem_cons]
        have hset : ∀ i, (seen.set idx true).getD i false = false ↔
            i ≠ idx ∧ seen.getD i false = false := by
          intro i
          rw [List.getD_eq_getElem?_getD, List.getD_eq_getElem?_getD]
          rcases eq_or_ne i idx with rfl | hne
          · simp [hseen, hidx.1]
          · rw [List.getElem?_set_ne hne.symm]
            simp [hne]
        simp only [hset, hidx, true_and]
        constructor
        · rintro ⟨hnodup, hall⟩
          exact ⟨⟨fun hmem ↦ (hall idx hmem).2.1 rfl, hnodup⟩, fun i hi ↦
            ⟨(hall i hi).1, (hall i hi).2.2⟩⟩
        · rintro ⟨⟨hnotMem, hnodup⟩, hall⟩
          exact ⟨hnodup, fun i hi ↦ ⟨(hall i hi).1, fun heq ↦ hnotMem (heq ▸ hi), (hall i hi).2⟩⟩
      · rw [if_pos (by simpa [or_iff_not_imp_left] using hidx)]
        simp only [Bool.false_eq_true, false_iff, not_and]
        exact fun _ hall ↦ hidx (hall idx List.mem_cons_self)

theorem allUniqueIndices_iff {n : Nat} {indices : List Nat} :
    allUniqueIndices indices n = true ↔ indices.Nodup ∧ ∀ i ∈ indices, i < n := by
  rw [allUniqueIndices, uniqueFrom_iff List.length_replicate]
  have hnew : ∀ i, (List.replicate n false).getD i false = false := by
    intro i
    rw [List.getD_eq_getElem?_getD, List.getElem?_replicate]
    split <;> rfl
  simp only [hnew, and_true]

def hrpQuasiDiagonalization (fuel : Nat) (linkage : List (LinkageMerge F)) (nAssets : Nat) :
    Option (List Nat) :=
  if nAssets = 0 then some []
  else if nAssets = 1 then some [0]
  else if linkage.length ≠ nAssets - 1 then some []
  else do
    let rootId := nAssets + linkage.length - 1
    let order ← appendLinkageLeaves fuel rootId nAssets linkage []
    if order.length = nAssets ∧ allUniqueIndices order nAssets then some order else some []

/-! ## What the table shows -/

variable {D : Type} {value : F → D} {n : Nat} {linkage : List (LinkageMerge F)}

/-- The numbers that the rows of the table refer to. -/
def children (linkage : List (LinkageMerge F)) : List Nat :=
  linkage.flatMap fun m ↦ [m.left, m.right]

/-- A number below `n` is a single asset, and the row in place `k` shows a node under the number
`n + k`. -/
inductive Shows (value : F → D) (n : Nat) (linkage : List (LinkageMerge F)) :
    Nat → Dendrogram Nat D → Prop where
  | leaf {i : Nat} (hi : i < n) : Shows value n linkage i (.leaf i)
  | node {k : Nat} {m : LinkageMerge F} {l r : Dendrogram Nat D} (hm : linkage[k]? = some m)
      (hl : Shows value n linkage m.left l) (hr : Shows value n linkage m.right r)
      (hsize : m.size = (l.leaves ++ r.leaves).length) :
      Shows value n linkage (n + k) (.node l r (value m.distance))

namespace Shows

variable {id : Nat} {t t' : Dendrogram Nat D}

theorem append (h : Shows value n linkage id t) (rows : List (LinkageMerge F)) :
    Shows value n (linkage ++ rows) id t := by
  induction h with
  | leaf hi => exact .leaf hi
  | node hm _ _ hsize ihl ihr =>
      obtain ⟨hk, -⟩ := List.getElem?_eq_some_iff.mp hm
      exact .node (by rw [List.getElem?_append_left hk, hm]) ihl ihr hsize

theorem unique (h : Shows value n linkage id t) (h' : Shows value n linkage id t') : t = t' := by
  induction h generalizing t' with
  | leaf hi =>
      cases h' with
      | leaf _ => rfl
      | node _ _ _ _ => omega
  | @node k m l r hm _ _ _ ihl ihr =>
      generalize hid : n + k = id at h'
      cases h' with
      | leaf hi => omega
      | @node k' m' l' r' hm' hl' hr' _ =>
          obtain rfl : k = k' := by omega
          obtain rfl := Option.some.inj (hm.symm.trans hm')
          rw [ihl hl', ihr hr']

theorem row {k : Nat} {m : LinkageMerge F} {l r : Dendrogram Nat D} {d : D}
    (h : Shows value n linkage (n + k) (.node l r d)) (hm : linkage[k]? = some m) :
    Shows value n linkage m.left l ∧ Shows value n linkage m.right r ∧
      m.size = (l.leaves ++ r.leaves).length := by
  generalize hid : n + k = id at h
  cases h with
  | @node k' m' _ _ hm' hl hr hsize =>
      obtain rfl : k = k' := by omega
      obtain rfl := Option.some.inj (hm.symm.trans hm')
      exact ⟨hl, hr, hsize⟩

/-- Every node of a dendrogram that the table shows has a row. -/
theorem exists_row (h : Shows value n linkage id t) {l r : Dendrogram Nat D} {d : D}
    (hin : (Dendrogram.node l r d).Within t) :
    ∃ k m, linkage[k]? = some m ∧ value m.distance = d ∧
      Shows value n linkage (n + k) (.node l r d) := by
  induction h with
  | leaf _ => cases hin
  | node hm hl hr hsize ihl ihr =>
      rcases hin with heq | hin | hin
      · cases heq
        exact ⟨_, _, hm, rfl, .node hm hl hr hsize⟩
      · exact ihl hin
      · exact ihr hin

/-- The leaves are listed from left to right. -/
theorem appendLinkageLeaves_eq (h : Shows value n linkage id t) {fuel : Nat}
    (hfuel : t.leaves.length ≤ fuel) (order : List Nat) :
    appendLinkageLeaves fuel id n linkage order = some (order ++ t.leaves) := by
  induction h generalizing fuel order with
  | leaf hi =>
      obtain ⟨fuel, rfl⟩ : ∃ k, fuel = k + 1 := ⟨fuel - 1, (Nat.sub_add_cancel hfuel).symm⟩
      rw [appendLinkageLeaves, if_pos hi, Dendrogram.leaves_leaf]
  | @node k m l r hm _ _ _ ihl ihr =>
      have hlpos := List.length_pos_iff.mpr l.leaves_ne_nil
      have hrpos := List.length_pos_iff.mpr r.leaves_ne_nil
      rw [Dendrogram.leaves_node, List.length_append] at hfuel
      obtain ⟨fuel, rfl⟩ : ∃ k, fuel = k + 1 := ⟨fuel - 1, by omega⟩
      rw [appendLinkageLeaves, if_neg (by omega), Nat.add_sub_cancel_left, hm]
      simp only [ihl (by omega : l.leaves.length ≤ fuel), ihr (by omega : r.leaves.length ≤ fuel),
        Option.bind_eq_bind, Option.bind_some, Dendrogram.leaves_node, List.append_assoc]

end Shows

/-! ## Clustering -/

variable [F64Ext F]

structure Cluster where
  id : Nat
  members : List Nat

def clusterSingleDistance (left right : List Nat) (distance : List (List F)) : F :=
  left.foldl (fun best i ↦
    right.foldl (fun best j ↦
      let d := entry distance i j
      if isFinite d && lt d best then d else best) best) infinity

/-- The two nearest clusters by their places, and how far apart they are. -/
def closest (clusters : List Cluster) (distance : List (List F)) : Nat × Nat × F :=
  clusters.zipIdx.foldl (fun best l ↦
    (clusters.zipIdx.drop (l.2 + 1)).foldl (fun best r ↦
      let d := clusterSingleDistance l.1.members r.1.members distance
      if lt d best.2.2 then (l.2, r.2, d) else best) best) (0, 1, infinity)

/-- The variables of the loop. -/
structure Clustering (F : Type) where
  clusters : List Cluster
  linkage : List (LinkageMerge F)
  nextId : Nat

/-- One pass of the loop, which panics if a place is past the end of the clusters. -/
def clusteringBody (distance : List (List F)) (c : Clustering F) :
    Option (List (LinkageMerge F) ⊕ Clustering F) :=
  if c.clusters.length ≤ 1 then some (.inl c.linkage)
  else
    let best := closest c.clusters distance
    if !isFinite best.2.2 then some (.inl [])
    else do
      let right ← c.clusters[best.2.1]?
      let clusters := c.clusters.eraseIdx best.2.1
      let left ← clusters[best.1]?
      let clusters := clusters.eraseIdx best.1
      let members := left.members ++ right.members
      some (.inr
        { clusters := clusters ++ [⟨c.nextId, members⟩]
          linkage := c.linkage ++ [⟨left.id, right.id, best.2.2, members.length⟩]
          nextId := c.nextId + 1 })

def singleLinkageClustering (fuel : Nat) (distance : List (List F)) :
    Option (List (LinkageMerge F)) :=
  let n := distance.length
  if n < 2 || distance.any fun row ↦ row.length != n then some []
  else
    Loop.iterate (clusteringBody distance) fuel
      { clusters := (List.range n).map fun i ↦ ⟨i, [i]⟩, linkage := [], nextId := n }

/-! ## The nearest clusters -/

/-- The finite distances between the members of two clusters. -/
def crossings (left right : List Nat) (distance : List (List F)) : List F :=
  (left.flatMap fun i ↦ right.map (entry distance i)).filter isFinite

theorem clusterSingleDistance_eq (left right : List Nat) (distance : List (List F)) :
    clusterSingleDistance left right distance =
      Scan.least lt infinity (crossings left right distance) := by
  rw [Scan.least, crossings, List.foldl_filter, List.foldl_flatMap, clusterSingleDistance]
  simp only [List.foldl_map, Bool.and_eq_true, ite_and]

/-- A pair of places with the distance between the clusters there. -/
def spanned (distance : List (List F)) (p : (Cluster × Nat) × Cluster × Nat) : Nat × Nat × F :=
  (p.1.2, p.2.2, clusterSingleDistance p.1.1.members p.2.1.members distance)

theorem closest_eq (clusters : List Cluster) (distance : List (List F)) :
    closest clusters distance = Scan.least (fun x y ↦ lt x.2.2 y.2.2) (0, 1, infinity)
      ((Scan.pairs clusters).map (spanned distance)) := by
  rw [Scan.least, Scan.pairs, List.foldl_map, List.foldl_flatMap, closest]
  simp only [List.foldl_map, spanned]
  rfl

/-- Two clusters are found, and how far they are apart unless that is no finite number. -/
theorem exists_closest {clusters : List Cluster} (distance : List (List F))
    (hlen : 1 < clusters.length) :
    ∃ i j l r, i < j ∧ clusters[i]? = some l ∧ clusters[j]? = some r ∧
      (closest clusters distance = (i, j, clusterSingleDistance l.members r.members distance) ∨
        closest clusters distance = (i, j, infinity)) := by
  rw [closest_eq]
  rcases Scan.least_mem (fun x y ↦ lt x.2.2 y.2.2) (0, 1, (infinity : F))
    ((Scan.pairs clusters).map (spanned distance)) with heq | hmem
  · exact ⟨0, 1, clusters[0], clusters[1], Nat.one_pos, List.getElem?_eq_getElem _,
      List.getElem?_eq_getElem _, .inr heq⟩
  · obtain ⟨⟨⟨l, i⟩, r, j⟩, hp, hq⟩ := List.mem_map.mp hmem
    obtain ⟨hij, hl, hr⟩ := Scan.mem_pairs.mp hp
    exact ⟨i, j, l, r, hij, hl, hr, .inl hq.symm⟩

/-- What one pass does: it leaves the loop, with nothing if no two clusters are a finite distance
apart, or puts the cluster of the nearest two in the last place. -/
theorem clusteringBody_cases (distance : List (List F)) (c : Clustering F)
    (hinf : isFinite (infinity : F) = false) :
    (c.clusters.length ≤ 1 ∧ clusteringBody distance c = some (.inl c.linkage)) ∨
    (1 < c.clusters.length ∧ isFinite (closest c.clusters distance).2.2 = false ∧
      clusteringBody distance c = some (.inl [])) ∨
    ∃ p q s left right, c.clusters = p ++ left :: (q ++ right :: s) ∧
      isFinite (clusterSingleDistance left.members right.members distance) = true ∧
      (closest c.clusters distance).2.2 =
        clusterSingleDistance left.members right.members distance ∧
      clusteringBody distance c = some (.inr
        { clusters := p ++ (q ++ s) ++ [⟨c.nextId, left.members ++ right.members⟩]
          linkage := c.linkage ++ [⟨left.id, right.id,
            clusterSingleDistance left.members right.members distance,
            (left.members ++ right.members).length⟩]
          nextId := c.nextId + 1 }) := by
  by_cases hlen : c.clusters.length ≤ 1
  · exact .inl ⟨hlen, if_pos hlen⟩
  · refine .inr ?_
    rw [clusteringBody, if_neg hlen]
    cases hfin : isFinite (closest c.clusters distance).2.2 with
    | false => exact .inl ⟨by omega, rfl, by simp [hfin]⟩
    | true =>
        obtain ⟨i, j, l, r, hij, hl, hr, hbest | hbest⟩ := exists_closest distance (not_le.mp hlen)
        · refine .inr ?_
          obtain ⟨p, q, s, hsplit, rfl, rfl⟩ := Scan.split_at hij hl hr
          refine ⟨p, q, s, l, r, hsplit, by rw [← hfin, hbest], by rw [hbest], ?_⟩
          have hleft : (p ++ l :: (q ++ s))[p.length]? = some l := by
            rw [List.getElem?_append_right (Nat.le_refl _), Nat.sub_self, List.getElem?_cons_zero]
          rw [hbest] at hfin
          rw [hsplit] at hbest hr ⊢
          simp only [hbest, hfin, hr, Scan.eraseIdx_second, Scan.eraseIdx_first, hleft,
            Bool.not_true, Bool.false_eq_true, if_false, Option.bind_eq_bind, Option.bind_some]
        · rw [hbest, hinf] at hfin
          cases hfin

/-! ## The loop -/

/-- The cluster that a numbered dendrogram stands for. -/
def clusterOf (p : Nat × Dendrogram Nat D) : Cluster := ⟨p.1, p.2.leaves⟩

/-- The clusters of the loop are the dendrograms of a forest, in which every row of the table has
its node. -/
structure Stands (value : F → D) (distance : List (List F)) (n : Nat) (c : Clustering F)
    (nodes : List (Nat × Dendrogram Nat D)) : Prop where
  clusters : c.clusters = nodes.map clusterOf
  shows : ∀ p ∈ nodes, Shows value n c.linkage p.1 p.2
  leaves : (nodes.flatMap fun p ↦ p.2.leaves).Perm (List.range n)
  ids : (nodes.map Prod.fst ++ children c.linkage).Perm (List.range c.nextId)
  nextId : c.nextId = n + c.linkage.length
  count : nodes.length + c.linkage.length = n
  last : c.linkage ≠ [] → (nodes.getLast?.map Prod.fst) = some (c.nextId - 1)
  rows : ∀ k m, c.linkage[k]? = some m → ∃ l r,
    Shows value n c.linkage (n + k) (.node l r (value m.distance)) ∧
    m.distance = clusterSingleDistance l.leaves r.leaves distance ∧
    ∃ p ∈ nodes, (Dendrogram.node l r (value m.distance)).Within p.2

namespace Stands

variable {c : Clustering F} {nodes : List (Nat × Dendrogram Nat D)} {distance : List (List F)}

/-- Every asset on its own. -/
theorem start (value : F → D) (distance : List (List F)) (n : Nat) :
    Stands value distance n
      { clusters := (List.range n).map fun i ↦ ⟨i, [i]⟩, linkage := [], nextId := n }
      ((List.range n).map fun i ↦ (i, .leaf i)) where
  clusters := by rw [List.map_map]; rfl
  shows p hp := by
    obtain ⟨i, hi, rfl⟩ := List.mem_map.mp hp
    exact .leaf (List.mem_range.mp hi)
  leaves := by
    rw [List.flatMap_map]
    simp
  ids := by
    rw [List.map_map]
    simp [children, Function.comp_def]
  nextId := rfl
  count := by simp
  last h := absurd rfl h
  rows k m hm := by cases hm

/-- The clusters in two places are joined. -/
theorem join (h : Stands value distance n c nodes) {p q s : List Cluster} {left right : Cluster}
    (hsplit : c.clusters = p ++ left :: (q ++ right :: s)) :
    ∃ l r rest, nodes.Perm (l :: r :: rest) ∧ left = clusterOf l ∧ right = clusterOf r ∧
      Stands value distance n
        { clusters := p ++ (q ++ s) ++ [⟨c.nextId, left.members ++ right.members⟩]
          linkage := c.linkage ++ [⟨left.id, right.id,
            clusterSingleDistance left.members right.members distance,
            (left.members ++ right.members).length⟩]
          nextId := c.nextId + 1 }
        (rest ++ [(c.nextId, .node l.2 r.2
          (value (clusterSingleDistance left.members right.members distance)))]) := by
  obtain ⟨P, tail, rfl, rfl, htail⟩ := List.map_eq_append_iff.mp (h.clusters ▸ hsplit)
  obtain ⟨l, tail', rfl, rfl, htail'⟩ := List.map_eq_cons_iff.mp htail
  obtain ⟨Q, tail, rfl, rfl, hrest⟩ := List.map_eq_append_iff.mp htail'
  obtain ⟨r, S, rfl, rfl, rfl⟩ := List.map_eq_cons_iff.mp hrest
  have hperm : (P ++ l :: (Q ++ r :: S)).Perm (l :: r :: (P ++ (Q ++ S))) := Scan.perm_split
  have hl := hperm.mem_iff.mpr List.mem_cons_self
  have hr := hperm.mem_iff.mpr (List.mem_cons_of_mem l List.mem_cons_self)
  refine ⟨l, r, P ++ (Q ++ S), hperm, rfl, rfl, ?_⟩
  have hnode : Shows value n (c.linkage ++ [⟨(clusterOf l).id, (clusterOf r).id,
      clusterSingleDistance (clusterOf l).members (clusterOf r).members distance,
      ((clusterOf l).members ++ (clusterOf r).members).length⟩]) c.nextId (.node l.2 r.2
        (value (clusterSingleDistance (clusterOf l).members (clusterOf r).members distance))) := by
    rw [h.nextId]
    exact .node List.getElem?_concat_length ((h.shows l hl).append _) ((h.shows r hr).append _) rfl
  constructor
  case clusters => simp [clusterOf]
  case shows =>
    intro p hp
    rcases List.mem_append.mp hp with hp | hp
    · have hp' := hperm.mem_iff.mpr (List.mem_cons_of_mem l (List.mem_cons_of_mem r hp))
      exact (h.shows p hp').append _
    · obtain rfl := List.mem_singleton.mp hp
      exact hnode
  case leaves =>
    refine List.Perm.trans ?_ h.leaves
    refine List.Perm.trans ?_ (hperm.flatMap_right _).symm
    rw [List.flatMap_append, List.flatMap_singleton, List.flatMap_cons, List.flatMap_cons,
      ← List.append_assoc l.2.leaves]
    exact List.perm_append_comm
  case ids =>
    rw [List.perm_iff_count]
    intro a
    have hids := h.ids.count_eq a
    have hfst := (hperm.map Prod.fst).count_eq a
    simp only [children, List.count_append, List.map_append, List.map_cons, List.map_nil,
      List.flatMap_append, List.flatMap_singleton, List.count_cons, List.count_nil, List.range_succ,
      clusterOf] at hids hfst ⊢
    omega
  case nextId => simp [h.nextId, Nat.add_assoc]
  case count =>
    have hcount := h.count
    rw [hperm.length_eq] at hcount
    simp only [List.length_append, List.length_cons, List.length_nil] at hcount ⊢
    omega
  case last => simp
  case rows =>
    intro k m hm
    rw [List.getElem?_append] at hm
    split_ifs at hm with hk
    · obtain ⟨a, b, hshows, hd, p, hp, hin⟩ := h.rows k m hm
      refine ⟨a, b, hshows.append _, hd, ?_⟩
      rcases List.mem_cons.mp (hperm.mem_iff.mp hp) with rfl | hp
      · exact ⟨_, List.mem_concat_self, .inr (.inl hin)⟩
      rcases List.mem_cons.mp hp with rfl | hp
      · exact ⟨_, List.mem_concat_self, .inr (.inr hin)⟩
      · exact ⟨p, List.mem_append_left _ hp, hin⟩
    · obtain ⟨hlt, -⟩ := List.getElem?_eq_some_iff.mp hm
      have hlast : k = c.linkage.length := by
        rw [List.length_singleton] at hlt
        omega
      rw [hlast, Nat.sub_self] at hm
      cases hm
      exact ⟨l.2, r.2, by rw [hlast, ← h.nextId]; exact hnode, rfl, _, List.mem_concat_self,
        .refl _⟩

/-- What a pass does to the forest. -/
theorem pass (h : Stands value distance n c nodes) (hinf : isFinite (infinity : F) = false) :
    (nodes.length ≤ 1 ∧ clusteringBody distance c = some (.inl c.linkage)) ∨
    (1 < nodes.length ∧ isFinite (closest c.clusters distance).2.2 = false ∧
      clusteringBody distance c = some (.inl [])) ∨
    ∃ l r rest c' d, nodes.Perm (l :: r :: rest) ∧ isFinite d = true ∧
      d = clusterSingleDistance l.2.leaves r.2.leaves distance ∧
      (closest c.clusters distance).2.2 = d ∧ clusteringBody distance c = some (.inr c') ∧
      (∃ m : LinkageMerge F, m.distance = d ∧ c'.linkage = c.linkage ++ [m]) ∧
      Stands value distance n c' (rest ++ [(c.nextId, .node l.2 r.2 (value d))]) := by
  have hlength : c.clusters.length = nodes.length := by rw [h.clusters, List.length_map]
  rw [← hlength]
  rcases clusteringBody_cases distance c hinf with hdone | hnone | ⟨p, q, s, left, right, hsplit,
    hfin, hclosest, hbody⟩
  · exact .inl hdone
  · exact .inr (.inl hnone)
  · obtain ⟨l, r, rest, hperm, rfl, rfl, hstands⟩ := h.join hsplit
    exact .inr (.inr ⟨l, r, rest, _, _, hperm, hfin, rfl, hclosest, hbody, ⟨_, rfl, rfl⟩, hstands⟩)

/-- In the end the forest is one tree under the last number. -/
theorem eq_singleton (h : Stands value distance n c nodes) (hn : 2 ≤ n) (hone : nodes.length ≤ 1) :
    c.linkage.length = n - 1 ∧ ∃ t, nodes = [(2 * n - 2, t)] := by
  have hcount := h.count
  have hne : c.linkage ≠ [] := by
    rintro hnil
    rw [hnil, List.length_nil] at hcount
    omega
  have hlast := h.last hne
  match nodes, hone with
  | [], _ => cases hlast
  | [(id, t)], _ =>
      have hid : id = c.nextId - 1 := Option.some.inj hlast
      rw [List.length_singleton] at hcount
      rw [hid, h.nextId]
      exact ⟨by omega, t, by rw [show n + c.linkage.length - 1 = 2 * n - 2 by omega]⟩

/-! ### The last tree -/

section Last

variable {t : Dendrogram Nat D} (h : Stands value distance n c [(2 * n - 2, t)])
include h

theorem perm_leaves : t.leaves.Perm (List.range n) := by
  simpa using h.leaves

theorem perm_children (hn : 2 ≤ n) (hlength : c.linkage.length = n - 1) :
    (children c.linkage).Perm (List.range (2 * n - 2)) := by
  have hids := h.ids
  rw [h.nextId, hlength, show n + (n - 1) = 2 * n - 2 + 1 by omega, List.range_succ] at hids
  exact (hids.trans List.perm_append_comm).cons_inv

/-- The quasi-diagonalization lists the leaves of the tree. -/
theorem quasiDiagonalization_eq (hn : 2 ≤ n) (hlength : c.linkage.length = n - 1) {fuel : Nat}
    (hfuel : n ≤ fuel) : hrpQuasiDiagonalization fuel c.linkage n = some t.leaves := by
  have hsize : t.leaves.length = n := by rw [h.perm_leaves.length_eq, List.length_range]
  have hunique : allUniqueIndices t.leaves n = true :=
    allUniqueIndices_iff.mpr ⟨h.perm_leaves.nodup_iff.mpr List.nodup_range, fun i hi ↦
      List.mem_range.mp (h.perm_leaves.mem_iff.mp hi)⟩
  have hroot : appendLinkageLeaves fuel (2 * n - 2) n c.linkage [] = some t.leaves :=
    (h.shows _ (List.mem_singleton_self _)).appendLinkageLeaves_eq (hsize.trans_le hfuel) []
  rw [hrpQuasiDiagonalization, if_neg (by omega), if_neg (by omega), if_neg (not_not.mpr hlength),
    hlength, show n + (n - 1) - 1 = 2 * n - 2 by omega]
  simp only [hroot, Option.bind_eq_bind, Option.bind_some, hsize, hunique, and_self, if_true]

end Last

end Stands

/-- What every joining of two trees preserves holds of the tree that the table shows, or of the
forest in which no two clusters were a finite distance apart. -/
theorem exists_linkage {distance : List (List F)} {fuel : Nat} (value : F → D)
    (hinf : isFinite (infinity : F) = false) (hn : 2 ≤ distance.length)
    (hrows : ∀ row ∈ distance, row.length = distance.length) (hfuel : distance.length ≤ fuel)
    {I : List (LinkageMerge F) → List (Nat × Dendrogram Nat D) → Prop}
    (hstart : I [] ((List.range distance.length).map fun i ↦ (i, .leaf i)))
    (hjoin : ∀ c nodes l r rest m id, Stands value distance distance.length c nodes →
      I c.linkage nodes → nodes.Perm (l :: r :: rest) → isFinite m.distance = true →
      m.distance = clusterSingleDistance l.2.leaves r.2.leaves distance →
      (closest c.clusters distance).2.2 = m.distance →
      I (c.linkage ++ [m]) (rest ++ [(id, .node l.2 r.2 (value m.distance))])) :
    ∃ linkage, singleLinkageClustering fuel distance = some linkage ∧
      ((linkage = [] ∧ ∃ c nodes, Stands value distance distance.length c nodes ∧
        I c.linkage nodes ∧ 1 < nodes.length ∧ isFinite (closest c.clusters distance).2.2 = false) ∨
      ∃ c t, c.linkage = linkage ∧ linkage.length = distance.length - 1 ∧
        Stands value distance distance.length c [(2 * distance.length - 2, t)] ∧
        I linkage [(2 * distance.length - 2, t)]) := by
  have hsquare : (decide (distance.length < 2) ||
      distance.any fun row ↦ row.length != distance.length) = false := by
    rw [Bool.or_eq_false_iff, decide_eq_false_iff_not, List.any_eq_false]
    exact ⟨not_lt.mpr hn, fun row hrow ↦ by simpa using hrows row hrow⟩
  simp only [singleLinkageClustering, hsquare, Bool.false_eq_true, if_false]
  refine Loop.exists_iterate_of_lt (fun c ↦ c.clusters.length - 1)
    (I := fun c ↦ ∃ nodes, Stands value distance distance.length c nodes ∧ I c.linkage nodes)
    ?_ ⟨_, .start value distance _, hstart⟩ (by simp; omega)
  rintro c ⟨nodes, hstands, hI⟩
  rcases hstands.pass hinf with ⟨hone, hbody⟩ | ⟨htwo, hfin, hbody⟩ |
    ⟨l, r, rest, c', d, hperm, hfin, hd, hclosest, hbody, ⟨m, rfl, hm⟩, hstands'⟩
  · obtain ⟨hlength, t, rfl⟩ := hstands.eq_singleton hn hone
    exact .inl ⟨_, hbody, .inr ⟨c, t, rfl, hlength, hstands, hI⟩⟩
  · exact .inl ⟨_, hbody, .inl ⟨rfl, c, nodes, hstands, hI, htwo, hfin⟩⟩
  · refine .inr ⟨c', hbody, ⟨_, hstands', hm ▸ hjoin c nodes l r rest m _ hstands hI hperm hfin hd
      hclosest⟩, ?_⟩
    have hbefore := hstands.count
    have hafter := hstands'.count
    have htwo := hperm.length_eq
    simp only [hm, hstands.clusters, hstands'.clusters, List.length_map, List.length_append,
      List.length_cons, List.length_nil] at hafter htwo ⊢
    omega

/-- The clustering returns.  What it returns is empty, or a table of `n - 1` rows whose clusters are
nested: each row joins two that no other row joins, its size and its distance are those of the
assets below it, and these stand together in the order of the quasi-diagonalization, which lists
every asset once. -/
theorem singleLinkage_blocks (hinf : isFinite (infinity : F) = false) {distance : List (List F)}
    {fuel : Nat} (hfuel : distance.length ≤ fuel) :
    ∃ linkage, singleLinkageClustering fuel distance = some linkage ∧
      (linkage = [] ∨ linkage.length = distance.length - 1 ∧
        (children linkage).Perm (List.range (2 * distance.length - 2)) ∧
        ∃ order, hrpQuasiDiagonalization fuel linkage distance.length = some order ∧
          order.Perm (List.range distance.length) ∧
          ∀ k m, linkage[k]? = some m → ∃ left right,
            appendLinkageLeaves fuel m.left distance.length linkage [] = some left ∧
            appendLinkageLeaves fuel m.right distance.length linkage [] = some right ∧
            appendLinkageLeaves fuel (distance.length + k) distance.length linkage [] =
              some (left ++ right) ∧
            m.size = (left ++ right).length ∧
            m.distance = clusterSingleDistance left right distance ∧
            left ++ right <:+: order) := by
  by_cases hshape : 2 ≤ distance.length ∧ ∀ row ∈ distance, row.length = distance.length
  · obtain ⟨hn, hrows⟩ := hshape
    obtain ⟨linkage, hlinkage, ⟨hnil, -⟩ | ⟨c, t, rfl, hlength, hstands, -⟩⟩ :=
      exists_linkage id hinf hn hrows hfuel (I := fun _ _ ↦ True) trivial
        fun _ _ _ _ _ _ _ _ _ _ _ _ _ ↦ trivial
    · exact ⟨linkage, hlinkage, .inl hnil⟩
    have hleaves := hstands.perm_leaves
    have hsize : t.leaves.length = distance.length := by rw [hleaves.length_eq, List.length_range]
    refine ⟨c.linkage, hlinkage, .inr ⟨hlength, hstands.perm_children hn hlength, t.leaves,
      hstands.quasiDiagonalization_eq hn hlength hfuel, hleaves, fun k m hm ↦ ?_⟩⟩
    obtain ⟨l, r, hshows, hd, hin⟩ := hstands.rows k m hm
    obtain ⟨hl, hr, hm'⟩ := hshows.row hm
    have hinfix : l.leaves ++ r.leaves <:+: t.leaves := by
      obtain ⟨p, hp, hin⟩ := hin
      obtain rfl := List.mem_singleton.mp hp
      exact hin.isInfix
    have hle := hinfix.length_le
    rw [hsize, List.length_append] at hle
    refine ⟨l.leaves, r.leaves, hl.appendLinkageLeaves_eq (by omega) [],
      hr.appendLinkageLeaves_eq (by omega) [], hshows.appendLinkageLeaves_eq ?_ [], hm', hd, hinfix⟩
    rw [Dendrogram.leaves_node, List.length_append]
    omega
  · refine ⟨[], if_pos ?_, .inl rfl⟩
    rw [not_and_or, not_le, not_forall] at hshape
    simpa using hshape

/-- Three assets, of which the first and the last are nearest to one another. -/
def threeAssets : List (List Float.Model) :=
  [[0, 4, 2], [4, 0, 3], [2, 3, 0]].map (List.map Float.Model.ofInt)

theorem singleLinkage_blocks_three :
    ∃ linkage order, singleLinkageClustering 3 threeAssets = some linkage ∧
      hrpQuasiDiagonalization 3 linkage 3 = some order ∧ order.Perm (List.range 3) := by
  obtain ⟨linkage, hlinkage, hblocks⟩ :=
    singleLinkage_blocks Binary64.infinity_not_finite (Nat.le_refl threeAssets.length)
  have hne : linkage ≠ [] := by
    rintro rfl
    revert hlinkage
    decide +kernel
  obtain ⟨-, -, order, horder, hperm, -⟩ := hblocks.resolve_left hne
  exact ⟨linkage, order, hlinkage, horder, hperm⟩

end Optimize

end Nanobook
