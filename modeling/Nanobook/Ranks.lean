import Nanobook.Indicators.Numbers

/-!
# Ranks

`rankdata` of `stats.rs`: the indices are sorted by their values, and the values that are equal to
each other get the average of their places.  The rank of a value is then half of one more than twice
the number of smaller values and the number of equal ones; so ranks depend on nothing but on how the
values compare, and nor does the correlation of ranks, `spearman`.
-/

namespace Nanobook.Stats

open F64 Indicators

variable {F : Type} [F64Sign F]

/-! ## The function -/

/-- The indices, in the order of their values. -/
def sortedIndices (values : List F) : List Nat :=
  (List.range values.length).insertionSort fun a b ↦ lt (get values b) (get values a) = false

/-- Write a rank at some indices. -/
def writeRank (rank : F) (group : List Nat) (ranks : List F) : List F :=
  group.foldl (fun ranks idx ↦ ranks.set idx rank) ranks

/-- The loop, from the place `i` on, where the order goes on with the indices given. -/
def assignRanks (values : List F) (i : Nat) : List Nat → List F → List F
  | [], ranks => ranks
  | first :: rest, ranks =>
      let tied idx := eq (get values idx) (get values first)
      let j := i + 1 + (rest.takeWhile tied).length
      let avgRank := ofInt (i + 1 + j : Nat) / ofInt 2
      assignRanks values j (rest.dropWhile tied)
        (writeRank avgRank (first :: rest.takeWhile tied) ranks)
termination_by indices => indices.length
decreasing_by exact Nat.lt_succ_of_le (List.length_dropWhile_le _ _)

def rankdata (values : List F) : List F :=
  if values.isEmpty then []
  else if values.any isNaN then List.replicate values.length nan
  else
    assignRanks values 0 (sortedIndices values) (List.replicate values.length (ofInt 0))

/-- `pearson`, of two lists of the same length. -/
def pearson (x y : List F) : F :=
  let n : F := ofInt x.length
  if lt n (ofInt 2) then nan
  else
    let meanX := sum x / n
    let meanY := sum y / n
    let sums := (x.zip y).foldl
      (fun s e ↦
        let dx := e.1 - meanX
        let dy := e.2 - meanY
        (s.1 + dx * dy, s.2.1 + dx * dx, s.2.2 + dy * dy))
      (ofInt 0, ofInt 0, ofInt 0)
    if eq sums.2.1 (ofInt 0) || eq sums.2.2 (ofInt 0) then nan
    else sums.1 / F64Ext.sqrt (sums.2.1 * sums.2.2)

/-- `spearman`, given the tails of the distribution of `t`. -/
def spearman (tDistributionTwoTailedP : F → F → F) (x y : List F) : F × F :=
  if x.length ≠ y.length ∨ x.length < 3 then (nan, nan)
  else
    let r := pearson (rankdata x) (rankdata y)
    if isNaN r then (nan, nan)
    else
      let rClamped := Optimize.clamp r (ofInt (-1)) (ofInt 1)
      if lt (F64Sign.abs (F64Sign.abs rClamped - ofInt 1)) (ofInt 1 / ofInt 1000000000000000) then
        (rClamped, ofInt 0)
      else
        let df : F := ofInt x.length - ofInt 2
        let tStat := rClamped * F64Ext.sqrt (df / (ofInt 1 - rClamped * rClamped))
        (rClamped, tDistributionTwoTailedP tStat df)

/-- The average place of a value among some values. -/
def averageRank (values : List F) (x : F) : F :=
  ofInt (2 * values.countP (fun y ↦ lt y x) + values.countP (fun y ↦ eq y x) + 1 : Nat) / ofInt 2

/-- Numbers other than NaN compare as their keys. -/
structure Compares {K : Type} [LinearOrder K] (key : F → K) : Prop where
  lt_iff : ∀ x y, isNaN x = false → isNaN y = false → (lt x y = true ↔ key x < key y)
  le_iff : ∀ x y, isNaN x = false → isNaN y = false → (le x y = true ↔ key x ≤ key y)

/-- Under a transformation some numbers compare as before, and neither before nor after there is a
NaN among them. -/
structure ComparesAlike (f : F → F) (values : List F) : Prop where
  before : values.any isNaN = false
  after : ∀ x ∈ values, isNaN (f x) = false
  lt_eq : ∀ x ∈ values, ∀ y ∈ values, lt (f x) (f y) = lt x y

/-! ## Tie groups -/

section Ties

variable {K : Type} [LinearOrder K] {key : Nat → K} {first : Nat} {rest : List Nat}
  {tied : Nat → Bool}

/-- In a sorted list, what is behind those that are tied with the first is above it. -/
theorem lt_of_mem_dropWhile (htied : ∀ a ∈ rest, tied a = true ↔ key a = key first)
    (hsorted : (first :: rest).Pairwise fun a b ↦ key a ≤ key b) {a : Nat}
    (ha : a ∈ rest.dropWhile tied) : key first < key a := by
  cases hdrop : rest.dropWhile tied with
  | nil =>
      rw [hdrop] at ha
      exact absurd ha List.not_mem_nil
  | cons b tail =>
      have hsub : (b :: tail).Sublist rest := hdrop ▸ List.dropWhile_sublist _
      have hbrest : b ∈ rest := hsub.subset List.mem_cons_self
      have hb : key b ≠ key first := by
        intro hkey
        have hne : rest.dropWhile tied ≠ [] := by
          rw [hdrop]
          exact List.cons_ne_nil b tail
        have hhead := List.head_dropWhile_not tied hne
        simp only [hdrop, List.head_cons] at hhead
        rw [(htied b hbrest).mpr hkey] at hhead
        cases hhead
      have habove : key first < key b :=
        lt_of_le_of_ne (List.rel_of_pairwise_cons hsorted hbrest) hb.symm
      rw [hdrop] at ha
      rcases List.mem_cons.mp ha with rfl | ha
      · exact habove
      · exact habove.trans_le (List.rel_of_pairwise_cons (hsorted.of_cons.sublist hsub) ha)

omit [LinearOrder K] in
theorem key_eq_of_mem_takeWhile (htied : ∀ a ∈ rest, tied a = true ↔ key a = key first) {a : Nat}
    (ha : a ∈ first :: rest.takeWhile tied) : key a = key first := by
  rcases List.mem_cons.mp ha with rfl | ha
  · rfl
  · exact (htied a ((List.takeWhile_sublist _).subset ha)).mp (List.mem_takeWhile_imp ha)

end Ties

/-! ## What the loop writes -/

section Loop

variable {values ranks : List F} {rank : F} {group indices : List Nat} {i k : Nat}

omit [F64Sign F] in
theorem length_writeRank : (writeRank rank group ranks).length = ranks.length := by
  induction group generalizing ranks with
  | nil => rfl
  | cons idx group ih => exact ih.trans List.length_set

omit [F64Sign F] in
theorem getElem?_writeRank (hk : k < ranks.length) :
    (writeRank rank group ranks)[k]? = if k ∈ group then some rank else ranks[k]? := by
  induction group generalizing ranks with
  | nil => rfl
  | cons idx group ih =>
      have hlength : k < (ranks.set idx rank).length := by rwa [List.length_set]
      have hset : (writeRank rank (idx :: group) ranks)[k]? =
          (writeRank rank group (ranks.set idx rank))[k]? := rfl
      rw [hset, ih hlength]
      by_cases hgroup : k ∈ group
      · rw [if_pos hgroup, if_pos (List.mem_cons_of_mem idx hgroup)]
      · rw [if_neg hgroup, List.getElem?_set]
        by_cases hidx : idx = k
        · rw [if_pos hidx, if_pos (hidx ▸ hk), if_pos (hidx ▸ List.mem_cons_self)]
        · have hmem : k ∉ idx :: group := by
            rw [List.mem_cons, not_or]
            exact ⟨Ne.symm hidx, hgroup⟩
          rw [if_neg hidx, if_neg hmem]

theorem length_assignRanks : (assignRanks values i indices ranks).length = ranks.length := by
  induction i, indices, ranks using assignRanks.induct values with
  | case1 i ranks => rw [assignRanks]
  | case2 i first rest ranks tied j avgRank ih =>
      rw [assignRanks]
      exact ih.trans length_writeRank

variable {K : Type} [LinearOrder K] (key : Nat → K)

/-- An index in the part of the order that is left gets the average place of its tie group; another
one keeps its rank. -/
theorem getElem?_assignRanks
    (heq : ∀ a ∈ indices, ∀ b ∈ indices, eq (get values a) (get values b) = true ↔ key a = key b)
    (hsorted : indices.Pairwise fun a b ↦ key a ≤ key b) (hk : k < ranks.length) :
    (assignRanks values i indices ranks)[k]? =
      if k ∈ indices then
        some (ofInt (2 * (i + indices.countP fun a ↦ key a < key k) +
          (indices.countP fun a ↦ key a = key k) + 1 : Nat) / ofInt 2)
      else ranks[k]? := by
  induction i, indices, ranks using assignRanks.induct values with
  | case1 i ranks => rw [assignRanks, if_neg List.not_mem_nil]
  | case2 i first rest ranks tied j avgRank ih =>
      have htied : ∀ a ∈ rest, tied a = true ↔ key a = key first := fun a ha ↦
        heq a (List.mem_cons_of_mem first ha) first List.mem_cons_self
      have htail : ∀ a ∈ rest.dropWhile tied, key first < key a :=
        fun a ha ↦ lt_of_mem_dropWhile htied hsorted ha
      have hgroup : ∀ a ∈ first :: rest.takeWhile tied, key a = key first :=
        fun a ha ↦ key_eq_of_mem_takeWhile htied ha
      have hsub : (rest.dropWhile tied).Sublist (first :: rest) :=
        (List.dropWhile_sublist _).cons first
      have hsplit : first :: rest = (first :: rest.takeWhile tied) ++ rest.dropWhile tied := by
        rw [List.cons_append, List.takeWhile_append_dropWhile]
      have hlength : (first :: rest.takeWhile tied).length = 1 + (rest.takeWhile tied).length := by
        rw [List.length_cons, Nat.add_comm]
      rw [assignRanks, ih (fun a ha b hb ↦ heq a (hsub.subset ha) b (hsub.subset hb))
        (hsorted.sublist hsub) (length_writeRank.symm ▸ hk), getElem?_writeRank hk, hsplit]
      by_cases hkt : k ∈ rest.dropWhile tied
      · -- the whole group is below, and nothing in it is tied with `k`
        have hbelow : ((first :: rest.takeWhile tied).countP fun a ↦ key a < key k) =
            (first :: rest.takeWhile tied).length :=
          List.countP_eq_length.mpr fun a ha ↦ decide_eq_true (hgroup a ha ▸ htail k hkt)
        have hnone : ((first :: rest.takeWhile tied).countP fun a ↦ key a = key k) = 0 :=
          List.countP_eq_zero.mpr fun a ha ↦ by
            simpa using (hgroup a ha ▸ htail k hkt : key a < key k).ne
        rw [if_pos hkt, if_pos (List.mem_append_right _ hkt), List.countP_append,
          List.countP_append, hbelow, hnone, hlength]
        exact congrArg (fun n : Nat ↦ some (ofInt n / ofInt 2)) (by omega)
      · rw [if_neg hkt]
        by_cases hkg : k ∈ first :: rest.takeWhile tied
        · -- the whole group is tied with `k`, and what is behind it is above
          have hkey := hgroup k hkg
          have hall : ((first :: rest.takeWhile tied).countP fun a ↦ key a = key k) =
              (first :: rest.takeWhile tied).length :=
            List.countP_eq_length.mpr fun a ha ↦
              decide_eq_true ((hgroup a ha).trans hkey.symm)
          have hnone : ((rest.dropWhile tied).countP fun a ↦ key a = key k) = 0 :=
            List.countP_eq_zero.mpr fun a ha ↦ by simpa [hkey] using (htail a ha).ne'
          have hbelow : (((first :: rest.takeWhile tied) ++ rest.dropWhile tied).countP
              fun a ↦ key a < key k) = 0 :=
            List.countP_eq_zero.mpr fun a ha ↦ by
              rcases List.mem_append.mp ha with ha | ha
              · simp [hgroup a ha, hkey]
              · simpa [hkey] using (htail a ha).le
          rw [if_pos hkg, if_pos (List.mem_append_left _ hkg), hbelow, List.countP_append, hall,
            hnone, hlength]
          exact congrArg (fun n : Nat ↦ some (ofInt n / ofInt 2)) (by omega)
        · have hmem : k ∉ (first :: rest.takeWhile tied) ++ rest.dropWhile tied := by
            rw [List.mem_append, not_or]
            exact ⟨hkg, hkt⟩
          rw [if_neg hkg, if_neg hmem]

end Loop

/-! ## The ranks of values -/

section Ranks

variable {K : Type} [LinearOrder K] {key : F → K} {values : List F}

theorem get_mem {k : Nat} (hk : k < values.length) : get values k ∈ values := by
  rw [Indicators.get, List.getD_eq_getElem _ _ hk]
  exact List.getElem_mem hk

theorem map_get_range : (List.range values.length).map (get values) = values := by
  apply List.ext_getElem
  · rw [List.length_map, List.length_range]
  · intro k _ hk
    rw [List.getElem_map, List.getElem_range, Indicators.get, List.getD_eq_getElem _ _ hk]

theorem isNaN_of_mem (hnan : values.any isNaN = false) {x : F} (hx : x ∈ values) :
    isNaN x = false := by
  have hall := List.any_eq_false.mp hnan x hx
  exact Bool.eq_false_iff.mpr hall

theorem Compares.eq_iff (hkey : Compares key) {x y : F} (hx : isNaN x = false)
    (hy : isNaN y = false) : eq x y = true ↔ key x = key y := by
  rw [Indicators.eq, Bool.and_eq_true, hkey.le_iff x y hx hy, hkey.le_iff y x hy hx]
  exact le_antisymm_iff.symm

theorem sortedIndices_eq (hkey : Compares key) (hnan : values.any isNaN = false) :
    sortedIndices values = (List.range values.length).insertionSort
      fun a b ↦ key (get values a) ≤ key (get values b) := by
  have hmap := List.map_insertionSort (r := fun a b ↦ lt (get values b) (get values a) = false)
    (s := fun a b ↦ key (get values a) ≤ key (get values b)) id (List.range values.length) ?_
  · rwa [List.map_id, List.map_id] at hmap
  · intro a ha b hb
    have hna := isNaN_of_mem hnan (get_mem (List.mem_range.mp ha))
    have hnb := isNaN_of_mem hnan (get_mem (List.mem_range.mp hb))
    rw [id, id, ← Bool.not_eq_true, hkey.lt_iff _ _ hnb hna, not_lt]

theorem perm_sortedIndices : (sortedIndices values).Perm (List.range values.length) :=
  List.perm_insertionSort _ _

theorem pairwise_sortedIndices (hkey : Compares key) (hnan : values.any isNaN = false) :
    (sortedIndices values).Pairwise fun a b ↦ key (get values a) ≤ key (get values b) := by
  have htotal : Std.Total fun a b ↦ key (get values a) ≤ key (get values b) :=
    ⟨fun _ _ ↦ le_total _ _⟩
  have htrans : IsTrans Nat fun a b ↦ key (get values a) ≤ key (get values b) :=
    ⟨fun _ _ _ ↦ le_trans⟩
  rw [sortedIndices_eq hkey hnan]
  exact List.pairwise_insertionSort _ _

/-- Counting indices in the order is counting values. -/
theorem countP_sortedIndices {p : Nat → Bool} {q : F → Bool}
    (hpq : ∀ a < values.length, p a = q (get values a)) :
    (sortedIndices values).countP p = values.countP q := by
  have hrange : (List.range values.length).countP p =
      (List.range values.length).countP (q ∘ get values) :=
    List.countP_congr fun a ha ↦ by rw [hpq a (List.mem_range.mp ha), Function.comp_apply]
  rw [perm_sortedIndices.countP_eq, hrange, ← List.countP_map, map_get_range]

/-- If none of the values is NaN, the rank of each is its average place among them. -/
theorem rankdata_eq_map (hkey : Compares key) (hnan : values.any isNaN = false) :
    rankdata values = values.map (averageRank values) := by
  by_cases hempty : values.isEmpty = true
  · rw [rankdata, if_pos hempty, List.isEmpty_iff.mp hempty, List.map_nil]
  rw [rankdata, if_neg hempty, hnan, if_neg Bool.false_ne_true]
  apply List.ext_getElem?
  intro k
  by_cases hk : k < values.length
  · have hlength : k < (List.replicate values.length (ofInt 0 : F)).length := by
      rwa [List.length_replicate]
    have hmem : k ∈ sortedIndices values := perm_sortedIndices.mem_iff.mpr (List.mem_range.mpr hk)
    have hnk := isNaN_of_mem hnan (get_mem hk)
    have hindex : ∀ a ∈ sortedIndices values, isNaN (get values a) = false := fun a ha ↦
      isNaN_of_mem hnan (get_mem (List.mem_range.mp (perm_sortedIndices.mem_iff.mp ha)))
    have hless : ((sortedIndices values).countP fun a ↦ key (get values a) < key (get values k)) =
        values.countP fun y ↦ lt y (get values k) := by
      refine countP_sortedIndices fun a ha ↦ ?_
      rw [Bool.eq_iff_iff, decide_eq_true_iff]
      exact (hkey.lt_iff _ _ (isNaN_of_mem hnan (get_mem ha)) hnk).symm
    have hequal : ((sortedIndices values).countP fun a ↦ key (get values a) = key (get values k)) =
        values.countP fun y ↦ eq y (get values k) := by
      refine countP_sortedIndices fun a ha ↦ ?_
      rw [Bool.eq_iff_iff, decide_eq_true_iff]
      exact (hkey.eq_iff (isNaN_of_mem hnan (get_mem ha)) hnk).symm
    rw [getElem?_assignRanks (fun a ↦ key (get values a))
      (fun a ha b hb ↦ hkey.eq_iff (hindex a ha) (hindex b hb))
      (pairwise_sortedIndices hkey hnan) hlength, if_pos hmem, hless, hequal, Nat.zero_add,
      List.getElem?_map, List.getElem?_eq_getElem hk, Indicators.get,
      List.getD_eq_getElem _ _ hk]
    rfl
  · rw [List.getElem?_eq_none, List.getElem?_eq_none]
    · rw [List.length_map]
      exact not_lt.mp hk
    · rw [length_assignRanks, List.length_replicate]
      exact not_lt.mp hk

/-- Numbers are equal where none of them is smaller. -/
theorem Compares.eq_eq (hkey : Compares key) {x y : F} (hx : isNaN x = false)
    (hy : isNaN y = false) : eq x y = (!lt x y && !lt y x) := by
  rw [Bool.eq_iff_iff, hkey.eq_iff hx hy, Bool.and_eq_true, Bool.not_eq_true', Bool.not_eq_true',
    ← Bool.not_eq_true, ← Bool.not_eq_true, hkey.lt_iff x y hx hy, hkey.lt_iff y x hy hx, not_lt,
    not_lt]
  exact le_antisymm_iff.trans and_comm

theorem rankdata_map (hkey : Compares key) {f : F → F} (h : ComparesAlike f values) :
    rankdata (values.map f) = rankdata values := by
  have hafter : (values.map f).any isNaN = false := by
    rw [List.any_eq_false]
    intro y hy
    obtain ⟨x, hx, rfl⟩ := List.mem_map.mp hy
    exact Bool.eq_false_iff.mp (h.after x hx)
  have heq : ∀ x ∈ values, ∀ y ∈ values, eq (f x) (f y) = eq x y := by
    intro x hx y hy
    rw [hkey.eq_eq (h.after x hx) (h.after y hy), h.lt_eq x hx y hy, h.lt_eq y hy x hx,
      hkey.eq_eq (isNaN_of_mem h.before hx) (isNaN_of_mem h.before hy)]
  rw [rankdata_eq_map hkey hafter, rankdata_eq_map hkey h.before, List.map_map]
  refine List.map_congr_left fun x hx ↦ ?_
  have hless : (values.map f).countP (fun y ↦ lt y (f x)) = values.countP fun y ↦ lt y x := by
    rw [List.countP_map]
    exact List.countP_congr fun y hy ↦ by rw [Function.comp_apply, h.lt_eq y hy x hx]
  have hequal : (values.map f).countP (fun y ↦ eq y (f x)) = values.countP fun y ↦ eq y x := by
    rw [List.countP_map]
    exact List.countP_congr fun y hy ↦ by rw [Function.comp_apply, heq y hy x hx]
  rw [Function.comp_apply, averageRank, averageRank, hless, hequal]

end Ranks

/-! ## Binary floating point numbers -/

theorem isNaN_eq_false {x : Float.Model} (h : isNaN x = false) : x.unpack ≠ .notANumber := by
  intro hnan
  have hle : F64.le x x = x.unpack.le x.unpack := Bool.decide_coe _
  rw [isNaN, hle, hnan] at h
  cases h

theorem then_compare_swap (e e' : ℤ) (m m' : ℕ) :
    (compare e' e).then (compare m' m) = ((compare e e').then (compare m m')).swap := by
  rw [Ordering.swap_then, ← Std.OrientedOrd.eq_swap, ← Std.OrientedOrd.eq_swap]

open Float.Model in
theorem le_iff_rank {x y : UnpackedFloat} (hx : x ≠ .notANumber) (hy : y ≠ .notANumber) :
    x.le y = true ↔ Binary64.rank x ≤ Binary64.rank y := by
  have hswap : x.le y = !y.lt x := by
    rcases x with ((_ | _) | _ | _ | ⟨(_ | _), m, e, hm⟩) <;>
      rcases y with ((_ | _) | _ | _ | ⟨(_ | _), m', e', hm'⟩) <;>
      simp [UnpackedFloat.lt, UnpackedFloat.le, UnpackedFloat.compare] at hx hy ⊢
    case infinity.negative.infinity.negative => rfl
    case infinity.negative.infinity.positive => rfl
    case infinity.positive.infinity.negative => rfl
    case infinity.positive.infinity.positive => rfl
    case finite.negative.finite.negative =>
      rw [then_compare_swap e e' m m']
      cases (compare e e').then (compare m m') <;> rfl
    case finite.positive.finite.positive =>
      rw [then_compare_swap e e' m m']
      cases (compare e e').then (compare m m') <;> rfl
  rw [hswap, Bool.not_eq_true', ← Bool.not_eq_true, Binary64.lt_iff_rank hy hx, not_lt]

theorem compares_key : Compares Binary64.key where
  lt_iff _ _ hx hy := Binary64.lt_iff_key (isNaN_eq_false hx) (isNaN_eq_false hy)
  le_iff x y hx hy := by
    have hle : F64.le x y = x.unpack.le y.unpack := Bool.decide_coe _
    rw [hle]
    exact le_iff_rank (isNaN_eq_false hx) (isNaN_eq_false hy)

/-! ## Ranks and their correlation -/

section Results

variable {K : Type} [LinearOrder K] {key : F → K} {values x y : List F}

/-- If one of the values is NaN, all ranks are; if none is, the rank of each value is its average
place among them. -/
theorem rankdata_eq (hkey : Compares key) (values : List F) :
    rankdata values =
      if values.any isNaN then List.replicate values.length nan
      else values.map (averageRank values) := by
  cases hnan : values.any isNaN with
  | true =>
      have hempty : ¬ values.isEmpty = true := by
        intro hempty
        rw [List.isEmpty_iff.mp hempty] at hnan
        cases hnan
      rw [rankdata, if_neg hempty, hnan, if_pos rfl]
      rfl
  | false =>
      rw [rankdata_eq_map hkey hnan]
      rfl

/-- A third and a first place, the former shared by two. -/
theorem rankdata_eq_tied :
    rankdata [ofInt 3, ofInt 1, (ofInt 3 : Float.Model)] =
      [ofInt 5 / ofInt 2, ofInt 1, ofInt 5 / ofInt 2] := by
  rw [rankdata_eq compares_key]
  decide +kernel

/-- The correlation of ranks, and how significant it is, are the same for values that are
transformed, on each side by a function under which they compare as before. -/
theorem spearman_map (hkey : Compares key) (tDistributionTwoTailedP : F → F → F) {f g : F → F}
    (hx : ComparesAlike f x) (hy : ComparesAlike g y) :
    spearman tDistributionTwoTailedP (x.map f) (y.map g) =
      spearman tDistributionTwoTailedP x y := by
  rw [spearman, spearman, rankdata_map hkey hx, rankdata_map hkey hy, List.length_map,
    List.length_map]

/-- One side is doubled, the other one moved.  The one falls where the other rises, and so the tails
do not matter. -/
theorem spearman_map_doubled :
    spearman (fun _ _ ↦ ofInt 0) ([ofInt 3, ofInt 1, (ofInt 2 : Float.Model)].map fun x ↦ x + x)
        ([ofInt 0, ofInt 2, ofInt 1].map fun x ↦ x + ofInt 7) =
      spearman (fun _ _ ↦ ofInt 0) [ofInt 3, ofInt 1, ofInt 2] [ofInt 0, ofInt 2, ofInt 1] :=
  spearman_map compares_key (fun _ _ ↦ ofInt 0)
    ⟨by decide +kernel, by decide +kernel, by decide +kernel⟩
    ⟨by decide +kernel, by decide +kernel, by decide +kernel⟩

end Results

end Nanobook.Stats
