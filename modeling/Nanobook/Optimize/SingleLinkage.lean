import Nanobook.Optimize.Clustering

/-!
# Single linkage

For distances that are symmetric, and finite between different assets, the table of
`single_linkage_clustering` is the single-linkage hierarchy: its distances never decrease, and two
assets lie in one cluster merged at distance at most `τ` exactly when a chain of assets leads from
one to the other in steps of at most `τ` (`singleLinkage_chains`).
-/

namespace Nanobook

namespace Optimize

open F64 F64Ext Dendrogram

variable {F K : Type} [F64Ext F] [LinearOrder K] {key : F → K} {distance : List (List F)}

/-- The distance of a correlation. -/
def correlationDistance (corr : F) : F :=
  let corr := if isFinite corr then clamp corr (ofInt (-1)) (ofInt 1) else ofInt 0
  sqrt (maxNum (ofInt 1 / ofInt 2 * (ofInt 1 - corr)) (ofInt 0))

/-- Each pair of assets is written at both of its places, from the upper triangle. -/
def distanceMatrix (correlation : List (List F)) : List (List F) :=
  let n := correlation.length
  if n = 0 || correlation.any fun row ↦ row.length != n then []
  else (List.range n).map fun i ↦ (List.range n).map fun j ↦
    if i = j then ofInt 0 else correlationDistance (entry correlation (min i j) (max i j))

/-- How far two assets are apart, by its key. -/
def apart (key : F → K) (distance : List (List F)) (i j : Nat) : K := key (entry distance i j)

/-- A matrix of distances: symmetric, and finite between different assets. -/
structure IsMetric (distance : List (List F)) : Prop where
  square : ∀ row ∈ distance, row.length = distance.length
  comm : ∀ i < distance.length, ∀ j < distance.length, entry distance i j = entry distance j i
  finite : ∀ i < distance.length, ∀ j < distance.length, i ≠ j →
    isFinite (entry distance i j) = true

theorem entry_of_le (hsquare : ∀ row ∈ distance, row.length = distance.length) {i j : Nat}
    (h : distance.length ≤ i ∨ distance.length ≤ j) : entry distance i j = nan := by
  by_cases hi : i < distance.length
  · have hj : distance.length ≤ j := h.resolve_left (by omega)
    have hrow : distance.getD i [] = distance[i] := by
      rw [List.getD_eq_getElem?_getD, List.getElem?_eq_getElem hi, Option.getD_some]
    rw [entry, hrow, List.getD_eq_getElem?_getD, List.getElem?_eq_none, Option.getD_none]
    rw [hsquare _ (List.getElem_mem hi)]
    exact hj
  · have hrow : distance.getD i [] = [] := by
      rw [List.getD_eq_getElem?_getD, List.getElem?_eq_none (not_lt.mp hi), Option.getD_none]
    rw [entry, hrow]
    rfl

theorem IsMetric.entry_comm (h : IsMetric distance) (i j : Nat) :
    entry distance i j = entry distance j i := by
  by_cases hij : i < distance.length ∧ j < distance.length
  · exact h.comm i hij.1 j hij.2
  · rw [entry_of_le h.square (by omega), entry_of_le h.square (by omega)]

/-- The distances of the pipeline are symmetric with whatever correlations they are made from. -/
theorem isMetric_distanceMatrix {correlation : List (List F)}
    (hfin : ∀ i < correlation.length, ∀ j < correlation.length, i < j →
      isFinite (correlationDistance (entry correlation i j)) = true) :
    IsMetric (distanceMatrix correlation) := by
  rw [distanceMatrix]
  split_ifs with hbad
  · exact ⟨nofun, nofun, nofun⟩
  · have hentry : ∀ i < correlation.length, ∀ j < correlation.length,
        entry ((List.range correlation.length).map fun i ↦ (List.range correlation.length).map
          fun j ↦ if i = j then ofInt 0
            else correlationDistance (entry correlation (min i j) (max i j))) i j =
        if i = j then ofInt 0
          else correlationDistance (entry correlation (min i j) (max i j)) := by
      intro i hi j hj
      simp [entry, hi, hj]
    refine ⟨fun row hrow ↦ ?_, fun i hi j hj ↦ ?_, fun i hi j hj hij ↦ ?_⟩
    · obtain ⟨i, -, rfl⟩ := List.mem_map.mp hrow
      simp
    · simp only [List.length_map, List.length_range] at hi hj
      rw [hentry i hi j hj, hentry j hj i hi, min_comm, max_comm]
      exact if_congr eq_comm rfl rfl
    · simp only [List.length_map, List.length_range] at hi hj
      rw [hentry i hi j hj, if_neg hij]
      exact hfin _ (by omega) _ (by omega) (by omega)

omit [LinearOrder K] in
theorem IsMetric.apart_comm (h : IsMetric distance) (i j : Nat) :
    apart key distance i j = apart key distance j i := congrArg key (h.entry_comm i j)

/-! ## Distances between clusters -/

section Scans

variable (hkey : Compares key) {left right : List Nat}
include hkey

/-- Clusters that are a finite distance apart at every point are as far apart as their nearest
members. -/
theorem clusterSingleDistance_spec (hleft : left ≠ []) (hright : right ≠ [])
    (hfin : ∀ i ∈ left, ∀ j ∈ right, isFinite (entry distance i j) = true) :
    isFinite (clusterSingleDistance left right distance) = true ∧
    (∃ i ∈ left, ∃ j ∈ right,
      apart key distance i j ≤ key (clusterSingleDistance left right distance)) ∧
    ∀ i ∈ left, ∀ j ∈ right,
      key (clusterSingleDistance left right distance) ≤ apart key distance i j := by
  have hmem : ∀ d, d ∈ crossings left right distance ↔
      ∃ i ∈ left, ∃ j ∈ right, entry distance i j = d := by
    intro d
    simp only [crossings, List.mem_filter, List.mem_flatMap, List.mem_map]
    constructor
    · rintro ⟨h, -⟩
      exact h
    · rintro ⟨i, hi, j, hj, rfl⟩
      exact ⟨⟨i, hi, j, hj, rfl⟩, hfin i hi j hj⟩
  have hfinite : ∀ d ∈ crossings left right distance, isFinite d = true := fun d hd ↦
    (List.mem_filter.mp hd).2
  rw [clusterSingleDistance_eq]
  obtain ⟨-, hleast⟩ := @Scan.least_le F K _ key lt infinity
    (crossings left right distance) fun x hx y hy ↦
      hkey.lt_iff x y (.inl (hfinite x hx)) (hy.elim .inr fun hy ↦ .inl (hfinite y hy))
  have hfound : Scan.least lt infinity (crossings left right distance) ∈
      crossings left right distance := by
    refine (Scan.least_mem lt infinity (crossings left right distance)).resolve_left fun heq ↦ ?_
    obtain ⟨i, hi⟩ := List.exists_mem_of_ne_nil left hleft
    obtain ⟨j, hj⟩ := List.exists_mem_of_ne_nil right hright
    have hle := hleast _ ((hmem _).mpr ⟨i, hi, j, hj, rfl⟩)
    rw [heq] at hle
    exact absurd (hkey.key_lt_infinity (hfin i hi j hj)) (not_lt.mpr hle)
  refine ⟨hfinite _ hfound, ?_, fun i hi j hj ↦ hleast _ ((hmem _).mpr ⟨i, hi, j, hj, rfl⟩)⟩
  obtain ⟨i, hi, j, hj, heq⟩ := (hmem _).mp hfound
  exact ⟨i, hi, j, hj, by rw [apart, heq]⟩

/-- Of clusters that are a finite distance apart, the two nearest are found. -/
theorem closest_spec {clusters : List Cluster} (hlen : 1 < clusters.length)
    (hfin : clusters.Pairwise fun l r ↦
      isFinite (clusterSingleDistance l.members r.members distance) = true) :
    isFinite (closest clusters distance).2.2 = true ∧ clusters.Pairwise fun l r ↦
      key (closest clusters distance).2.2 ≤
        key (clusterSingleDistance l.members r.members distance) := by
  rw [List.pairwise_iff_getElem] at hfin
  have hfinite : ∀ x ∈ (Scan.pairs clusters).map (spanned distance), isFinite x.2.2 = true := by
    intro x hx
    obtain ⟨⟨⟨l, i⟩, r, j⟩, hp, rfl⟩ := List.mem_map.mp hx
    obtain ⟨hij, hl, hr⟩ := Scan.mem_pairs.mp hp
    obtain ⟨hi, rfl⟩ := List.getElem?_eq_some_iff.mp hl
    obtain ⟨hj, rfl⟩ := List.getElem?_eq_some_iff.mp hr
    exact hfin i j hi hj hij
  have hpairs : ∀ i j (hi : i < clusters.length) (hj : j < clusters.length), i < j →
      (i, j, clusterSingleDistance clusters[i].members clusters[j].members distance) ∈
        (Scan.pairs clusters).map (spanned distance) := fun i j hi hj hij ↦
    List.mem_map.mpr ⟨((clusters[i], i), clusters[j], j), Scan.mem_pairs.mpr
      ⟨hij, List.getElem?_eq_getElem hi, List.getElem?_eq_getElem hj⟩, rfl⟩
  rw [closest_eq]
  obtain ⟨-, hleast⟩ := @Scan.least_le (Nat × Nat × F) K _ (fun x ↦ key x.2.2)
    (fun x y ↦ lt x.2.2 y.2.2) (0, 1, infinity) ((Scan.pairs clusters).map (spanned distance))
    fun x hx y hy ↦ hkey.lt_iff x.2.2 y.2.2 (.inl (hfinite x hx))
      (hy.elim (fun h ↦ .inr (by rw [h])) fun hy ↦ .inl (hfinite y hy))
  refine ⟨?_, List.pairwise_iff_getElem.mpr fun i j hi hj hij ↦ hleast _ (hpairs i j hi hj hij)⟩
  rcases Scan.least_mem (fun x y ↦ lt x.2.2 y.2.2) (0, 1, (infinity : F))
    ((Scan.pairs clusters).map (spanned distance)) with heq | hmem
  · have hle := hleast _ (hpairs 0 1 (by omega) hlen Nat.one_pos)
    rw [heq] at hle
    exact absurd (hkey.key_lt_infinity (hfin 0 1 (by omega) hlen Nat.one_pos)) (not_lt.mpr hle)
  · exact hfinite _ hmem

end Scans

/-! ## The forest of the loop -/

/-- The invariant of the loop: the forest is sound, and the distances of the table are the heights
of its nodes and never decrease. -/
structure Linked (key : F → K) (distance : List (List F)) (linkage : List (LinkageMerge F))
    (nodes : List (Nat × Dendrogram Nat K)) : Prop where
  sound : Forest.Sound (apart key distance) (nodes.map Prod.snd)
  heights : ∀ m ∈ linkage, ∃ p ∈ nodes, key m.distance ∈ p.2.heights
  rising : (linkage.map fun m ↦ key m.distance).Pairwise (· ≤ ·)

variable {c : Clustering F} {nodes rest : List (Nat × Dendrogram Nat K)}
  {l r : Nat × Dendrogram Nat K} {m : LinkageMerge F}

section Joining

variable (hdist : IsMetric distance) (hstands : Stands key distance distance.length c nodes)
include hdist hstands

omit [LinearOrder K] in
/-- Different clusters of the loop are a finite distance apart. -/
theorem finite_between : nodes.Pairwise fun p q ↦
    ∀ i ∈ p.2.leaves, ∀ j ∈ q.2.leaves, isFinite (entry distance i j) = true := by
  have hnodup := hstands.leaves.nodup_iff.mpr List.nodup_range
  have hmem : ∀ p ∈ nodes, ∀ i ∈ p.2.leaves, i < distance.length := fun p hp i hi ↦
    List.mem_range.mp (hstands.leaves.mem_iff.mp (List.mem_flatMap.mpr ⟨p, hp, hi⟩))
  obtain ⟨-, hdisj⟩ := List.nodup_flatMap.mp hnodup
  refine hdisj.imp_of_mem fun hp hq hpq i hi j hj ↦ ?_
  exact hdist.finite i (hmem _ hp i hi) j (hmem _ hq j hj) fun heq ↦
    List.disjoint_left.mp hpq hi (heq ▸ hj)

variable (hkey : Compares key)
include hkey

/-- The nearest two are as far apart as any two are at least. -/
theorem closest_of_stands (hlen : 1 < nodes.length) :
    isFinite (closest c.clusters distance).2.2 = true ∧ (nodes.map Prod.snd).Pairwise
      (Apart (apart key distance) (key (closest c.clusters distance).2.2)) := by
  have hbetween := finite_between hdist hstands
  rw [hstands.clusters, List.pairwise_map]
  have hfinite : (nodes.map clusterOf).Pairwise fun l r ↦
      isFinite (clusterSingleDistance l.members r.members distance) = true := by
    rw [List.pairwise_map]
    exact hbetween.imp fun h ↦
      (clusterSingleDistance_spec hkey (leaves_ne_nil _) (leaves_ne_nil _) h).1
  obtain ⟨hfin, hleast⟩ := closest_spec hkey (by rwa [List.length_map]) hfinite
  refine ⟨hfin, ?_⟩
  rw [List.pairwise_map] at hleast
  exact (hleast.and hbetween).imp fun ⟨hle, h⟩ i hi j hj ↦ hle.trans
    ((clusterSingleDistance_spec hkey (leaves_ne_nil _) (leaves_ne_nil _) h).2.2 i hi j hj)

theorem Linked.join (h : Linked key distance c.linkage nodes) (hperm : nodes.Perm (l :: r :: rest))
    (hd : m.distance = clusterSingleDistance l.2.leaves r.2.leaves distance)
    (hclosest : (closest c.clusters distance).2.2 = m.distance) (id : Nat) :
    Linked key distance (c.linkage ++ [m]) (rest ++ [(id, .node l.2 r.2 (key m.distance))]) := by
  have hfin : ∀ i ∈ l.2.leaves, ∀ j ∈ r.2.leaves, isFinite (entry distance i j) = true := by
    have hpair := (hperm.pairwise_iff fun h i hi j hj ↦ by
      rw [hdist.entry_comm]
      exact h j hj i hi).mp (finite_between hdist hstands)
    exact List.rel_of_pairwise_cons hpair List.mem_cons_self
  have hmet := (clusterSingleDistance_spec hkey (leaves_ne_nil _) (leaves_ne_nil _) hfin).2.1
  rw [← hd] at hmet
  have hleast := (closest_of_stands hdist hstands hkey (hperm.length_eq ▸ by simp)).2
  rw [hclosest] at hleast
  have hperm' : (nodes.map Prod.snd).Perm (l.2 :: r.2 :: rest.map Prod.snd) := hperm.map Prod.snd
  refine ⟨?_, fun m' hm' ↦ ?_, ?_⟩
  · rw [List.map_append, List.map_singleton]
    exact h.sound.join hdist.apart_comm hperm' hmet hleast
  · rcases List.mem_append.mp hm' with hm' | hm'
    · obtain ⟨p, hp, hin⟩ := h.heights m' hm'
      rcases List.mem_cons.mp (hperm.mem_iff.mp hp) with rfl | hp
      · exact ⟨_, List.mem_concat_self, List.mem_cons_of_mem _ (List.mem_append_left _ hin)⟩
      rcases List.mem_cons.mp hp with rfl | hp
      · exact ⟨_, List.mem_concat_self, List.mem_cons_of_mem _ (List.mem_append_right _ hin)⟩
      · exact ⟨p, List.mem_append_left _ hp, hin⟩
    · obtain rfl := List.mem_singleton.mp hm'
      exact ⟨_, List.mem_concat_self, List.mem_cons_self⟩
  · rw [List.map_append, List.map_singleton]
    refine List.pairwise_append.mpr ⟨h.rising, List.pairwise_singleton _ _, fun d hd' e he ↦ ?_⟩
    obtain rfl := List.mem_singleton.mp he
    obtain ⟨m', hm', rfl⟩ := List.mem_map.mp hd'
    obtain ⟨p, hp, hin⟩ := h.heights m' hm'
    exact h.sound.height_le hdist.apart_comm hperm' hmet (List.mem_map_of_mem hp) hin

end Joining

/-- Every asset on its own. -/
theorem linked_start (key : F → K) (distance : List (List F)) (n : Nat) :
    Linked key distance [] ((List.range n).map fun i ↦ (i, .leaf i)) where
  sound := by
    rw [List.map_map]
    exact Forest.sound_leaves _ (List.range n)
  heights m hm := by cases hm
  rising := .nil

/-! ## Chains -/

/-- The nodes of the last tree are the rows of the table. -/
theorem Stands.within_iff {t : Dendrogram Nat K} {n fuel i j : Nat} {τ : K}
    (h : Stands key distance n c [(2 * n - 2, t)]) (hfuel : n ≤ fuel) :
    (∃ l r d, (Dendrogram.node l r d).Within t ∧ d ≤ τ ∧ i ∈ l.leaves ++ r.leaves ∧
      j ∈ l.leaves ++ r.leaves) ↔
    ∃ k m block, c.linkage[k]? = some m ∧ key m.distance ≤ τ ∧
      appendLinkageLeaves fuel (n + k) n c.linkage [] = some block ∧ i ∈ block ∧ j ∈ block := by
  have hsize : t.leaves.length = n := by rw [h.perm_leaves.length_eq, List.length_range]
  have hblock : ∀ {k l r d}, Shows key n c.linkage (n + k) (.node l r d) →
      (Dendrogram.node l r d).Within t →
      appendLinkageLeaves fuel (n + k) n c.linkage [] = some (l.leaves ++ r.leaves) :=
    fun hshows hin ↦
      hshows.appendLinkageLeaves_eq (hin.isInfix.length_le.trans (hsize.trans_le hfuel)) []
  constructor
  · rintro ⟨l, r, d, hin, hd, hi, hj⟩
    obtain ⟨k, m, hm, rfl, hshows⟩ := (h.shows _ (List.mem_singleton_self _)).exists_row hin
    exact ⟨k, m, _, hm, hd, hblock hshows hin, hi, hj⟩
  · rintro ⟨k, m, block, hm, hd, hlist, hi, hj⟩
    obtain ⟨l, r, hshows, -, p, hp, hin⟩ := h.rows k m hm
    obtain rfl := List.mem_singleton.mp hp
    obtain rfl := Option.some.inj ((hblock hshows hin).symm.trans hlist)
    exact ⟨l, r, _, hin, hd, hi, hj⟩

/-- The table is that of single linkage: every asset is merged, the distances never decrease, and
two assets lie in a cluster merged at distance at most `τ` exactly when a chain leads from one to
the other in steps of at most `τ`. -/
theorem singleLinkage_chains (hkey : Compares key) (hdist : IsMetric distance)
    (hn : 2 ≤ distance.length) {fuel : Nat} (hfuel : distance.length ≤ fuel) :
    ∃ linkage, singleLinkageClustering fuel distance = some linkage ∧
      linkage.length = distance.length - 1 ∧
      (linkage.map fun m ↦ key m.distance).Pairwise (· ≤ ·) ∧
      ∀ τ i j, i < distance.length → j < distance.length →
        ((i = j ∨ ∃ k m block, linkage[k]? = some m ∧ key m.distance ≤ τ ∧
          appendLinkageLeaves fuel (distance.length + k) distance.length linkage [] = some block ∧
          i ∈ block ∧ j ∈ block) ↔
        Relation.ReflTransGen (fun a b ↦ a < distance.length ∧ b < distance.length ∧
          key (entry distance a b) ≤ τ) i j) := by
  obtain ⟨linkage, hlinkage, ⟨-, c, nodes, hstands, -, htwo, hnot⟩ | ⟨c, t, rfl, hlength, hstands,
    hlinked⟩⟩ := exists_linkage key hkey.infinity_not_finite hn hdist.square hfuel
      (linked_start key distance _) fun c nodes l r rest m id hstands hI hperm _ hd hclosest ↦
        hI.join hdist hstands hkey hperm hd hclosest id
  · rw [(closest_of_stands hdist hstands hkey htwo).1] at hnot
    cases hnot
  refine ⟨c.linkage, hlinkage, hlength, hlinked.rising, fun τ i j hi hj ↦ ?_⟩
  have hmem : ∀ k, k ∈ t.leaves ↔ k < distance.length := fun k ↦ by
    rw [hstands.perm_leaves.mem_iff, List.mem_range]
  have hjoined := joined_iff (b := j) (τ := τ) hdist.apart_comm
    (hstands.perm_leaves.nodup_iff.mpr List.nodup_range)
    (hlinked.sound.single t (List.mem_singleton_self t))
    (hlinked.sound.rising t (List.mem_singleton_self t)) ((hmem i).mpr hi)
  rw [joined_iff_within, hstands.within_iff hfuel, and_iff_left ((hmem i).mpr hi)] at hjoined
  have hnear : Near (apart key distance) τ t.leaves = fun a b ↦ a < distance.length ∧
      b < distance.length ∧ key (entry distance a b) ≤ τ := by
    funext a b
    rw [Near, hmem, hmem, apart]
  rw [hjoined, Chained, hnear]

/-- The first asset reaches the second by way of the last. -/
theorem singleLinkage_chains_three :
    ∃ linkage, singleLinkageClustering 3 threeAssets = some linkage ∧ linkage.length = 2 ∧
      Relation.ReflTransGen (fun a b ↦ a < 3 ∧ b < 3 ∧
        Binary64.key (entry threeAssets a b) ≤ Binary64.key (.ofInt 3)) 0 1 := by
  have hdist : IsMetric threeAssets := ⟨by decide +kernel, by decide +kernel, by decide +kernel⟩
  obtain ⟨linkage, hlinkage, hlength, -, hchains⟩ :=
    singleLinkage_chains Binary64.compares_key hdist (by decide) (Nat.le_refl threeAssets.length)
  have hrows : singleLinkageClustering 3 threeAssets = some
      [⟨0, 2, .ofInt 2, 2⟩, ⟨1, 3, .ofInt 3, 3⟩] := by decide +kernel
  obtain rfl := Option.some.inj (hlinkage.symm.trans hrows)
  exact ⟨_, hlinkage, hlength, (hchains _ 0 1 (by decide) (by decide)).mp
    (.inr ⟨1, ⟨1, 3, .ofInt 3, 3⟩, [1, 0, 2], rfl, le_rfl, rfl, by decide, by decide⟩)⟩

end Optimize

end Nanobook
