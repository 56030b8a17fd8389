import Nanobook.Optimize.Clustering
import Nanobook.Optimize.Weights
import Mathlib.Tactic.FieldSimp
import Mathlib.Tactic.Positivity

/-!
# Recursive bisection

`hrp_recursive_bisection` of `optimize.rs`.  The loop keeps its ranges on a stack and scales the
weights of each half in place.  It computes a recursion over the ordered assets, in which every half
gets its share of the weight of the whole (`hrpRecursiveBisection_eq`).

In exact arithmetic the shares of two halves are inverse to their variances, so that the weights are
positive, sum to one, and carry as much risk on the one side of every split as on the other
(`hrpRecursiveBisection_exact`).
-/

namespace Nanobook

namespace Optimize

open F64

variable {F : Type} [F64 F]

/-! ## The loop -/

def clusterVariance (covariance : List (List F)) (indices : List Nat) : F :=
  match indices with
  | [i] =>
      let var := entry covariance i i
      if isFinite var && lt (ofInt 0) var then var else tiny
  | _ =>
      let diagRisks := indices.map fun idx ↦
        let var := entry covariance idx idx
        if isFinite var && lt tiny var then var else tiny
      let weights := inverseRiskWeights diagRisks
      let variance := (indices.zip weights).foldl (fun variance p ↦
        (indices.zip weights).foldl (fun variance q ↦
          variance + p.2 * entry covariance p.1 q.1 * q.2) variance) (ofInt 0)
      if isFinite variance && lt (ofInt 0) variance then variance else tiny

/-- The share of the left half. -/
def alpha (covariance : List (List F)) (left right : List Nat) : F :=
  let leftVar := clusterVariance covariance left
  let rightVar := clusterVariance covariance right
  let denom := leftVar + rightVar
  if isFinite denom && lt (ofInt 1 / ofInt (10 ^ 18)) denom then ofInt 1 - leftVar / denom
  else ofInt 1 / ofInt 2

/-- `for weight in &mut weights[start..stop] { *weight *= a; }`. -/
def scale (weights : List F) (start stop : Nat) (a : F) : List F :=
  weights.mapIdx fun i x ↦ if start ≤ i ∧ i < stop then x * a else x

def slice (indices : List Nat) (start stop : Nat) : List Nat :=
  (indices.drop start).take (stop - start)

/-- One pass of the loop.  The stack of ranges has its top first. -/
def bisectionBody (covariance : List (List F)) (orderedIndices : List Nat) :
    List (Nat × Nat) × List F → Option (List F ⊕ List (Nat × Nat) × List F)
  | ([], weights) => some (.inl weights)
  | ((start, stop) :: ranges, weights) =>
      let len := stop - start
      if len ≤ 1 then some (.inr (ranges, weights))
      else
        let mid := start + len / 2
        let a := alpha covariance (slice orderedIndices start mid) (slice orderedIndices mid stop)
        let weights := scale weights start mid a
        let weights := scale weights mid stop (ofInt 1 - a)
        some (.inr ((mid, stop) :: (start, mid) :: ranges, weights))

/-- The weights go back to the places of their assets. -/
def scatter (n : Nat) (orderedIndices : List Nat) (orderedWeights : List F) : List F :=
  (orderedIndices.zip orderedWeights).foldl (fun weights p ↦ weights.set p.1 p.2)
    (List.replicate n (ofInt 0))

def hrpRecursiveBisection (fuel : Nat) (covariance : List (List F)) (orderedIndices : List Nat) :
    Option (List F) :=
  let n := covariance.length
  if n = 0 || covariance.any (fun row ↦ row.length != n) || orderedIndices.length != n ||
      !allUniqueIndices orderedIndices n then some []
  else if n = 1 then some [ofInt 1]
  else do
    let orderedWeights ← Loop.iterate (bisectionBody covariance orderedIndices) fuel
      ([(0, n)], List.replicate n (ofInt 1))
    some (normalizeLongOnly (scatter n orderedIndices orderedWeights))

/-! ## The recursion -/

/-- A weight is spread over the ordered assets by halves. -/
def spread (covariance : List (List F)) (w : F) (indices : List Nat) : List F :=
  if _h : indices.length ≤ 1 then List.replicate indices.length w
  else
    let left := indices.take (indices.length / 2)
    let right := indices.drop (indices.length / 2)
    let a := alpha covariance left right
    spread covariance (w * a) left ++ spread covariance (w * (ofInt 1 - a)) right
termination_by indices.length
decreasing_by
  · rw [List.length_take]
    omega
  · rw [List.length_drop]
    omega

theorem spread_of_le (covariance : List (List F)) (w : F) {indices : List Nat}
    (h : indices.length ≤ 1) : spread covariance w indices = List.replicate indices.length w := by
  rw [spread, dif_pos h]

theorem spread_of_lt (covariance : List (List F)) (w : F) {indices : List Nat}
    (h : 1 < indices.length) :
    spread covariance w indices =
      spread covariance (w * alpha covariance (indices.take (indices.length / 2))
        (indices.drop (indices.length / 2))) (indices.take (indices.length / 2)) ++
      spread covariance (w * (ofInt 1 - alpha covariance (indices.take (indices.length / 2))
        (indices.drop (indices.length / 2)))) (indices.drop (indices.length / 2)) := by
  rw [spread, dif_neg (by omega)]

theorem length_spread (covariance : List (List F)) (w : F) (indices : List Nat) :
    (spread covariance w indices).length = indices.length := by
  induction hlen : indices.length using Nat.strongRecOn generalizing w indices with
  | ind k ih =>
      by_cases h : indices.length ≤ 1
      · rw [spread_of_le _ _ h, List.length_replicate, hlen]
      · rw [spread_of_lt _ _ (not_le.mp h), List.length_append,
          ih _ (by rw [List.length_take]; omega) _ _ rfl,
          ih _ (by rw [List.length_drop]; omega) _ _ rfl, List.length_take, List.length_drop]
        omega

/-- Each asset finds its weight in its own place. -/
theorem scatter_map {n : Nat} {orderedIndices : List Nat}
    (hperm : orderedIndices.Perm (List.range n)) (g : Nat → F) :
    scatter n orderedIndices (orderedIndices.map g) = (List.range n).map g := by
  have hset : ∀ (l : List Nat) (weights : List F) (i : Nat),
      ((l.zip (l.map g)).foldl (fun weights p ↦ weights.set p.1 p.2) weights)[i]? =
        if i ∈ l ∧ i < weights.length then some (g i) else weights[i]? := by
    intro l
    induction l with
    | nil => intro weights i; simp
    | cons j l ih =>
        intro weights i
        rw [List.map_cons, List.zip_cons_cons, List.foldl_cons, ih, List.length_set]
        by_cases hi : i ∈ l ∧ i < weights.length
        · rw [if_pos hi, if_pos ⟨List.mem_cons_of_mem j hi.1, hi.2⟩]
        · rw [if_neg hi, List.getElem?_set]
          grind
  refine List.ext_getElem? fun i ↦ ?_
  have hmem : i ∈ orderedIndices ↔ i < n := by rw [hperm.mem_iff, List.mem_range]
  rw [scatter, hset, List.length_replicate, List.getElem?_map]
  by_cases hi : i < n
  · rw [if_pos ⟨hmem.mpr hi, hi⟩, List.getElem?_range hi, Option.map_some]
  · rw [if_neg fun h ↦ hi h.2, List.getElem?_eq_none (by simpa using hi),
      List.getElem?_eq_none (by simpa using hi), Option.map_none]

/-! ## The loop is the recursion -/

theorem length_slice {indices : List Nat} {start len : Nat} (h : start + len ≤ indices.length) :
    (slice indices start (start + len)).length = len := by
  rw [slice, List.length_take, List.length_drop]
  omega

theorem take_slice (indices : List Nat) (start : Nat) {k len : Nat} (h : k ≤ len) :
    (slice indices start (start + len)).take k = slice indices start (start + k) := by
  rw [slice, slice, List.take_take]
  congr 1
  omega

theorem drop_slice (indices : List Nat) (start k len : Nat) :
    (slice indices start (start + len)).drop k = slice indices (start + k) (start + len) := by
  rw [slice, slice, List.drop_take, List.drop_drop]
  congr 1
  omega

/-- Only the weights in the range are scaled. -/
theorem scale_append {p q s : List F} {start stop : Nat} (a : F) (hstart : p.length = start)
    (hstop : start + q.length = stop) :
    scale (p ++ q ++ s) start stop a = p ++ q.map (· * a) ++ s := by
  refine List.ext_getElem (by simp [scale]) fun i hi hi' ↦ ?_
  simp only [scale, List.getElem_mapIdx, List.getElem_append, List.getElem_map, List.length_append,
    List.length_map]
  grind

/-- One pass that is done with a range. -/
theorem bisectionBody_skip (covariance : List (List F)) (orderedIndices : List Nat)
    (ranges : List (Nat × Nat)) (weights : List F) {start stop : Nat} (h : stop - start ≤ 1) :
    bisectionBody covariance orderedIndices ((start, stop) :: ranges, weights) =
      some (.inr (ranges, weights)) := if_pos h

/-- One pass that splits a range. -/
theorem bisectionBody_split (covariance : List (List F)) {orderedIndices : List Nat}
    (ranges : List (Nat × Nat)) {p s : List F} {w : F} {start len : Nat} (hp : p.length = start)
    (hlen : 1 < len) :
    bisectionBody covariance orderedIndices
      ((start, start + len) :: ranges, p ++ List.replicate len w ++ s) =
    some (.inr ((start + len / 2, start + len) :: (start, start + len / 2) :: ranges,
      p ++ (List.replicate (len / 2) (w * alpha covariance
        (slice orderedIndices start (start + len / 2))
        (slice orderedIndices (start + len / 2) (start + len))) ++
      List.replicate (len - len / 2) (w * (ofInt 1 - alpha covariance
        (slice orderedIndices start (start + len / 2))
        (slice orderedIndices (start + len / 2) (start + len))))) ++ s)) := by
  have hhalves : List.replicate len w =
      List.replicate (len / 2) w ++ List.replicate (len - len / 2) w := by
    rw [List.replicate_append_replicate]
    congr 1
    omega
  have hleft : ∀ a : F, scale (p ++ (List.replicate (len / 2) w ++
      List.replicate (len - len / 2) w) ++ s) start (start + len / 2) a =
      p ++ List.replicate (len / 2) (w * a) ++ List.replicate (len - len / 2) w ++ s := by
    intro a
    have h := scale_append (q := List.replicate (len / 2) w)
      (s := List.replicate (len - len / 2) w ++ s) a hp
      (by rw [List.length_replicate] : _ = start + len / 2)
    rw [List.map_replicate] at h
    simpa only [List.append_assoc] using h
  have hright : ∀ q : List F, q.length = len / 2 → ∀ a : F,
      scale (p ++ q ++ List.replicate (len - len / 2) w ++ s) (start + len / 2) (start + len) a =
      p ++ (q ++ List.replicate (len - len / 2) (w * a)) ++ s := by
    intro q hq a
    have h := scale_append (p := p ++ q) (q := List.replicate (len - len / 2) w) (s := s) a
      (by rw [List.length_append, hp, hq] : _ = start + len / 2)
      (by rw [List.length_replicate]; omega : _ = start + len)
    rw [List.map_replicate] at h
    simpa only [List.append_assoc] using h
  have hmid : start + len - start = len := by omega
  simp only [bisectionBody, hmid, if_neg (not_le.mpr hlen), hhalves, hleft,
    hright _ List.length_replicate]

/-- The passes that empty the stack down to what lay below a range spread its weight over the
assets of the range. -/
theorem iterate_bisectionBody (covariance : List (List F)) {orderedIndices : List Nat}
    (ranges : List (Nat × Nat)) {p s : List F} (w : F) {start len : Nat} (hp : p.length = start)
    (hpos : 1 ≤ len) (hlen : start + len ≤ orderedIndices.length) (fuel : Nat) :
    Loop.iterate (bisectionBody covariance orderedIndices) (fuel + (2 * len - 1))
      ((start, start + len) :: ranges, p ++ List.replicate len w ++ s) =
    Loop.iterate (bisectionBody covariance orderedIndices) fuel
      (ranges, p ++ spread covariance w (slice orderedIndices start (start + len)) ++ s) := by
  induction len using Nat.strongRecOn generalizing ranges p s w start fuel with
  | ind len ih =>
      rcases Nat.lt_or_ge 1 len with htwo | hone
      · have hsize := length_slice hlen
        have hstop : start + len = start + len / 2 + (len - len / 2) := by omega
        have hfuel : fuel + (2 * len - 1) =
            fuel + (2 * (len / 2) - 1) + (2 * (len - len / 2) - 1) + 1 := by omega
        rw [spread_of_lt _ _ (hsize.symm ▸ htwo), hsize, take_slice _ _ (Nat.div_le_self len 2),
          drop_slice, hfuel, Loop.iterate_succ_inr (bisectionBody_split covariance ranges hp htwo)]
        -- The right half is on top of the left one.
        rw [hstop, ← List.append_assoc p, ih (len - len / 2) (by omega) ((start, start + len / 2) ::
          ranges) _ (by rw [List.length_append, List.length_replicate, hp]) (by omega) (by omega),
          List.append_assoc (p ++ _), ih (len / 2) (by omega) ranges _ hp (by omega) (by omega)]
        simp only [List.append_assoc]
      · obtain rfl : len = 1 := by omega
        rw [spread_of_le _ _ (length_slice hlen).le, length_slice hlen]
        exact Loop.iterate_succ_inr (bisectionBody_skip covariance _ ranges _ (by omega)) fuel

theorem unique_iff_perm {indices : List Nat} {n : Nat} :
    indices.length = n ∧ allUniqueIndices indices n = true ↔ indices.Perm (List.range n) := by
  rw [allUniqueIndices_iff]
  constructor
  · rintro ⟨hlen, hnodup, hlt⟩
    have hsub : indices ⊆ List.range n := fun i hi ↦ List.mem_range.mpr (hlt i hi)
    refine (List.subperm_of_subset hnodup hsub).perm_of_length_le ?_
    rw [List.length_range, hlen]
  · intro h
    exact ⟨by rw [h.length_eq, List.length_range], h.nodup_iff.mpr List.nodup_range, fun i hi ↦
      List.mem_range.mp (h.mem_iff.mp hi)⟩

omit [F64 F] in
theorem rejects_iff {covariance : List (List F)} {orderedIndices : List Nat} :
    (covariance.length = 0 || covariance.any (fun row ↦ row.length != covariance.length) ||
      orderedIndices.length != covariance.length ||
      !allUniqueIndices orderedIndices covariance.length) = true ↔
    covariance = [] ∨ (∃ row ∈ covariance, row.length ≠ covariance.length) ∨
      ¬orderedIndices.Perm (List.range covariance.length) := by
  rw [← unique_iff_perm]
  simp [or_assoc, imp_iff_not_or]

theorem iterate_bisection {covariance : List (List F)} {orderedIndices : List Nat} {fuel : Nat}
    (hne : covariance ≠ []) (hperm : orderedIndices.Perm (List.range covariance.length))
    (hfuel : 2 * covariance.length ≤ fuel) :
    Loop.iterate (bisectionBody covariance orderedIndices) fuel
      ([(0, covariance.length)], List.replicate covariance.length (ofInt 1)) =
    some (spread covariance (ofInt 1) orderedIndices) := by
  have hpos := List.length_pos_iff.mpr hne
  have hlen : orderedIndices.length = covariance.length := by
    rw [hperm.length_eq, List.length_range]
  obtain ⟨k, rfl⟩ : ∃ k, fuel = k + 1 + (2 * covariance.length - 1) :=
    ⟨fuel - 2 * covariance.length, by omega⟩
  have hall : slice orderedIndices 0 (0 + covariance.length) = orderedIndices := by
    rw [slice, List.drop_zero, List.take_of_length_le (by omega)]
  have hloop := iterate_bisectionBody covariance [] (p := []) (s := []) (ofInt 1 : F)
    (List.length_nil : _ = 0) hpos (by omega : 0 + covariance.length ≤ orderedIndices.length)
    (k + 1)
  rw [hall, Nat.zero_add, Loop.iterate_succ_inl rfl, List.nil_append, List.nil_append,
    List.append_nil, List.append_nil] at hloop
  exact hloop

/-- The loop returns the weights of the recursion, each in the place of its asset. -/
theorem hrpRecursiveBisection_eq {covariance : List (List F)} {orderedIndices : List Nat}
    {fuel : Nat} (hfuel : 2 * covariance.length ≤ fuel) :
    hrpRecursiveBisection fuel covariance orderedIndices = some
      (if covariance = [] ∨ (∃ row ∈ covariance, row.length ≠ covariance.length) ∨
          ¬orderedIndices.Perm (List.range covariance.length) then []
        else if covariance.length = 1 then [ofInt 1]
        else normalizeLongOnly (scatter covariance.length orderedIndices
          (spread covariance (ofInt 1) orderedIndices))) := by
  simp only [hrpRecursiveBisection, rejects_iff]
  split_ifs with hbad hone
  · rfl
  · rfl
  · simp only [not_or, not_not] at hbad
    rw [iterate_bisection hbad.1 hbad.2.2 hfuel]
    rfl

/-- Two assets, of which the second has a quarter of the variance of the first. -/
def twoAssets : List (List (Option Rat)) := [[some 4, some 0], [some 0, some 1]]

theorem hrpRecursiveBisection_eq_two :
    hrpRecursiveBisection 4 twoAssets [1, 0] = some (normalizeLongOnly (scatter 2 [1, 0]
      (spread twoAssets (ofInt 1) [1, 0]))) := by
  have heq := @hrpRecursiveBisection_eq _ _ twoAssets [1, 0] 4 (by decide)
  rwa [if_neg (by decide), if_neg (by decide)] at heq

/-! ## Exact numbers -/

/-- The two halves of one of the splits. -/
inductive Halved : List Nat → List Nat → List Nat → Prop where
  | here {l : List Nat} (h : 1 < l.length) :
      Halved l (l.take (l.length / 2)) (l.drop (l.length / 2))
  | left {l a b : List Nat} (h : 1 < l.length) (hab : Halved (l.take (l.length / 2)) a b) :
      Halved l a b
  | right {l a b : List Nat} (h : 1 < l.length) (hab : Halved (l.drop (l.length / 2)) a b) :
      Halved l a b

/-- The weight of some assets together. -/
def held (weight : Nat → Rat) (block : List Nat) : Rat := (block.map weight).sum

/-- Both sides of a split carry the same risk, or the same weight where there is no risk to speak
of. -/
def Balanced (covariance : List (List (Option Rat))) (weight : Nat → Rat) (left right : List Nat) :
    Prop :=
  ∃ leftVar rightVar, clusterVariance covariance left = some leftVar ∧
    clusterVariance covariance right = some rightVar ∧ 0 < leftVar ∧ 0 < rightVar ∧
    if 1 / 10 ^ 18 < leftVar + rightVar then
      held weight left * leftVar = held weight right * rightVar
    else held weight left = held weight right

/-- A variance that is no positive number is replaced by one. -/
theorem exists_positive (x : Option Rat) :
    ∃ v, (if isFinite x && lt (ofInt 0) x then x else tiny) = some v ∧ 0 < v := by
  split_ifs with h
  · obtain ⟨v, rfl, hv⟩ := exists_of_lt ((Bool.and_eq_true _ _).mp h).2
    exact ⟨v, rfl, by exact_mod_cast hv⟩
  · exact ⟨1 / 10 ^ 12, exact_tiny, by norm_num⟩

theorem exists_clusterVariance (covariance : List (List (Option Rat))) (indices : List Nat) :
    ∃ v, clusterVariance covariance indices = some v ∧ 0 < v := by
  rw [clusterVariance.eq_def]
  split
  · exact exists_positive _
  · exact exists_positive _

/-- The shares of two halves are positive, and inverse to their variances. -/
theorem exists_alpha (covariance : List (List (Option Rat))) (left right : List Nat) :
    ∃ a leftVar rightVar, alpha covariance left right = some a ∧ 0 < a ∧ a < 1 ∧
      clusterVariance covariance left = some leftVar ∧
      clusterVariance covariance right = some rightVar ∧ 0 < leftVar ∧ 0 < rightVar ∧
      if 1 / 10 ^ 18 < leftVar + rightVar then a * leftVar = (1 - a) * rightVar else a = 1 - a := by
  obtain ⟨leftVar, hleft, hlpos⟩ := exists_clusterVariance covariance left
  obtain ⟨rightVar, hright, hrpos⟩ := exists_clusterVariance covariance right
  have hbound : (ofInt 1 / ofInt (10 ^ 18) : Option Rat) = some (1 / 10 ^ 18) := by
    rw [exact_ofInt, exact_ofInt, exact_div (by norm_num)]
    norm_num
  have hhalf : (ofInt 1 / ofInt 2 : Option Rat) = some (1 / 2) := by
    rw [exact_ofInt, exact_ofInt, exact_div (by norm_num)]
    norm_num
  have hsum : leftVar + rightVar ≠ 0 := (add_pos hlpos hrpos).ne'
  have halpha : alpha covariance left right = some
      (if 1 / 10 ^ 18 < leftVar + rightVar then 1 - leftVar / (leftVar + rightVar) else 1 / 2) := by
    have hcheck : (isFinite (some (leftVar + rightVar)) &&
        lt (some (1 / 10 ^ 18)) (some (leftVar + rightVar))) = true ↔
        1 / 10 ^ 18 < leftVar + rightVar := by
      rw [Bool.and_eq_true, exact_lt_iff]
      exact and_iff_right rfl
    simp only [alpha, hleft, hright, exact_add, hbound, hhalf, exact_div hsum, hcheck]
    rw [exact_ofInt, exact_sub, ← apply_ite some, Int.cast_one]
  refine ⟨_, leftVar, rightVar, halpha, ?_⟩
  split_ifs with hlow
  · have hshare : 1 - leftVar / (leftVar + rightVar) = rightVar / (leftVar + rightVar) := by
      field_simp
      ring
    rw [hshare]
    refine ⟨by positivity, ?_, hleft, hright, hlpos, hrpos, by field_simp; ring⟩
    rw [div_lt_one (add_pos hlpos hrpos)]
    linarith
  · exact ⟨by norm_num, by norm_num, hleft, hright, hlpos, hrpos, by norm_num⟩

theorem Halved.subset {l a b : List Nat} (h : Halved l a b) : a ⊆ l ∧ b ⊆ l := by
  induction h with
  | here _ => exact ⟨List.take_subset _ _, List.drop_subset _ _⟩
  | left _ _ ih =>
      exact ⟨fun i hi ↦ List.take_subset _ _ (ih.1 hi), fun i hi ↦ List.take_subset _ _ (ih.2 hi)⟩
  | right _ _ ih =>
      exact ⟨fun i hi ↦ List.drop_subset _ _ (ih.1 hi), fun i hi ↦ List.drop_subset _ _ (ih.2 hi)⟩

theorem held_congr {f g : Nat → Rat} {block : List Nat} (h : ∀ i ∈ block, f i = g i) :
    held f block = held g block := by
  rw [held, List.map_congr_left h, held]

theorem held_append (f : Nat → Rat) (left right : List Nat) :
    held f (left ++ right) = held f left + held f right := by
  rw [held, List.map_append, List.sum_append, held, held]

theorem Balanced.congr {covariance : List (List (Option Rat))} {f g : Nat → Rat}
    {left right : List Nat} (h : Balanced covariance f left right) (hleft : ∀ i ∈ left, f i = g i)
    (hright : ∀ i ∈ right, f i = g i) : Balanced covariance g left right := by
  rw [Balanced, ← held_congr hleft, ← held_congr hright]
  exact h

/-- A positive weight is spread in positive weights that sum to it, in balance at every split. -/
theorem exists_spread (covariance : List (List (Option Rat))) {indices : List Nat} {w : Rat}
    (hne : indices ≠ []) (hnodup : indices.Nodup) (hw : 0 < w) :
    ∃ weight : Nat → Rat, spread covariance (some w) indices = indices.map (some ∘ weight) ∧
      (∀ i ∈ indices, 0 < weight i) ∧ held weight indices = w ∧
      ∀ left right, Halved indices left right → Balanced covariance weight left right := by
  induction hlen : indices.length using Nat.strongRecOn generalizing indices w with
  | ind k ih =>
      have hpos := List.length_pos_iff.mpr hne
      rcases Nat.lt_or_ge 1 indices.length with htwo | hone
      · generalize hleft : indices.take (indices.length / 2) = left
        generalize hright : indices.drop (indices.length / 2) = right
        have hsplit : left ++ right = indices := by
          rw [← hleft, ← hright, List.take_append_drop]
        have hsize : left.length = indices.length / 2 := by
          rw [← hleft, List.length_take]
          omega
        have hsize' : right.length = indices.length - indices.length / 2 := by
          rw [← hright, List.length_drop]
        obtain ⟨hnodupl, hnodupr, hdisj⟩ := List.nodup_append'.mp (hsplit ▸ hnodup)
        obtain ⟨a, leftVar, rightVar, ha, hapos, halt, hlv, hrv, hlpos, hrpos, hshare⟩ :=
          exists_alpha covariance left right
        obtain ⟨f, hf, hfpos, hfsum, hfbal⟩ := ih left.length (by omega)
          (List.ne_nil_of_length_pos (by omega)) hnodupl (mul_pos hw hapos) rfl
        obtain ⟨g, hg, hgpos, hgsum, hgbal⟩ := ih right.length (by omega)
          (List.ne_nil_of_length_pos (by omega)) hnodupr (mul_pos hw (sub_pos.mpr halt)) rfl
        -- On the left the weights are those of the left half, and elsewhere those of the right.
        have honleft : ∀ i ∈ left, f i = if i ∈ left then f i else g i := fun i hi ↦
          (if_pos hi).symm
        have honright : ∀ i ∈ right, g i = if i ∈ left then f i else g i := fun i hi ↦
          (if_neg fun hl ↦ List.disjoint_left.mp hdisj hl hi).symm
        generalize hweight : (fun i ↦ if i ∈ left then f i else g i) = weight
        replace honleft : ∀ i ∈ left, f i = weight i := fun i hi ↦ hweight ▸ honleft i hi
        replace honright : ∀ i ∈ right, g i = weight i := fun i hi ↦ hweight ▸ honright i hi
        rw [held_congr honleft] at hfsum
        rw [held_congr honright] at hgsum
        refine ⟨weight, ?_, fun i hi ↦ ?_, ?_, fun l r hlr ↦ ?_⟩
        · rw [spread_of_lt _ _ htwo, hleft, hright, ha, exact_mul, exact_ofInt, Int.cast_one,
            exact_sub, exact_mul, hf, hg, ← hsplit, List.map_append]
          congr 1
          · exact List.map_congr_left fun i hi ↦ congrArg some (honleft i hi)
          · exact List.map_congr_left fun i hi ↦ congrArg some (honright i hi)
        · rcases List.mem_append.mp (hsplit ▸ hi : i ∈ left ++ right) with hl | hr
          · exact honleft i hl ▸ hfpos i hl
          · exact honright i hr ▸ hgpos i hr
        · rw [← hsplit, held_append, hfsum, hgsum]
          ring
        · cases hlr with
          | here _ =>
              rw [hleft, hright]
              refine ⟨leftVar, rightVar, hlv, hrv, hlpos, hrpos, ?_⟩
              rw [hfsum, hgsum, mul_assoc, mul_assoc]
              split_ifs at hshare ⊢
              · rw [hshare]
              · rw [← hshare]
          | left _ hab =>
              rw [hleft] at hab
              exact (hfbal l r hab).congr (fun i hi ↦ honleft i (hab.subset.1 hi)) fun i hi ↦
                honleft i (hab.subset.2 hi)
          | right _ hab =>
              rw [hright] at hab
              exact (hgbal l r hab).congr (fun i hi ↦ honright i (hab.subset.1 hi)) fun i hi ↦
                honright i (hab.subset.2 hi)
      · obtain ⟨i, rfl⟩ := List.length_eq_one_iff.mp (by omega : indices.length = 1)
        refine ⟨fun _ ↦ w, spread_of_le _ _ hone, fun _ _ ↦ hw, by simp [held], fun l r hlr ↦ ?_⟩
        cases hlr <;> omega

/-- In exact arithmetic the weights are positive, sum to one and are in balance at every split. -/
theorem hrpRecursiveBisection_exact {covariance : List (List (Option Rat))}
    {orderedIndices : List Nat} {fuel : Nat} (hne : covariance ≠ [])
    (hsquare : ∀ row ∈ covariance, row.length = covariance.length)
    (hperm : orderedIndices.Perm (List.range covariance.length))
    (hfuel : 2 * covariance.length ≤ fuel) :
    ∃ weight : Nat → Rat, hrpRecursiveBisection fuel covariance orderedIndices =
        some ((List.range covariance.length).map (some ∘ weight)) ∧
      (∀ i < covariance.length, 0 < weight i) ∧ held weight (List.range covariance.length) = 1 ∧
      ∀ left right, Halved orderedIndices left right →
        Balanced covariance weight left right := by
  have hlen : orderedIndices.length = covariance.length := by
    rw [hperm.length_eq, List.length_range]
  have hordered : orderedIndices ≠ [] :=
    List.ne_nil_of_length_pos (hlen ▸ List.length_pos_iff.mpr hne)
  obtain ⟨weight, hspread, hpos, hsum, hbalanced⟩ := exists_spread covariance hordered
    (hperm.nodup_iff.mpr List.nodup_range) one_pos
  replace hpos : ∀ i < covariance.length, 0 < weight i := fun i hi ↦
    hpos i (hperm.mem_iff.mpr (List.mem_range.mpr hi))
  replace hsum : held weight (List.range covariance.length) = 1 := by
    rw [← hsum]
    exact (hperm.map weight).sum_eq.symm
  refine ⟨weight, ?_, hpos, hsum, hbalanced⟩
  have hgood : ¬(covariance = [] ∨ (∃ row ∈ covariance, row.length ≠ covariance.length) ∨
      ¬orderedIndices.Perm (List.range covariance.length)) := by
    rintro (h | ⟨row, hrow, h⟩ | h)
    · exact hne h
    · exact h (hsquare row hrow)
    · exact h hperm
  simp only [hrpRecursiveBisection, rejects_iff, if_neg hgood]
  split_ifs with hone
  · rw [hone] at hsum ⊢
    have hfirst : weight 0 = 1 := by simpa [held] using hsum
    rw [List.range_one, List.map_singleton, Function.comp_apply, hfirst, exact_ofInt, Int.cast_one]
  · have hmap : (List.range covariance.length).map (some ∘ weight) =
        ((List.range covariance.length).map weight).map some := by rw [List.map_map]
    have hnonneg : ∀ x ∈ (List.range covariance.length).map weight, 0 ≤ x := by
      intro x hx
      obtain ⟨i, hi, rfl⟩ := List.mem_map.mp hx
      exact (hpos i (List.mem_range.mp hi)).le
    rw [held] at hsum
    rw [iterate_bisection hne hperm hfuel, exact_ofInt, Int.cast_one, hspread, Option.bind_eq_bind,
      Option.bind_some, scatter_map hperm, hmap,
      exact_normalizeLongOnly hnonneg (by rw [hsum]; norm_num), hsum]
    simp only [div_one, List.map_id']

/-- The second asset gets four times the weight of the first. -/
theorem hrpRecursiveBisection_exact_two :
    ∃ weight : Nat → Rat, hrpRecursiveBisection 4 twoAssets [1, 0] =
        some ((List.range 2).map (some ∘ weight)) ∧
      held weight (List.range 2) = 1 ∧ held weight [1] * 1 = held weight [0] * 4 := by
  have hperm : [1, 0].Perm (List.range twoAssets.length) := by decide
  obtain ⟨weight, hweight, -, hsum, hbalanced⟩ :=
    hrpRecursiveBisection_exact (by decide) (by decide) hperm (by decide : _ ≤ 4)
  obtain ⟨leftVar, rightVar, hleft, hright, -, -, hrisk⟩ :=
    hbalanced [1] [0] (.here (l := [1, 0]) (by decide))
  obtain rfl : 1 = leftVar := Option.some.inj hleft
  obtain rfl : 4 = rightVar := Option.some.inj hright
  rw [if_pos (by norm_num)] at hrisk
  exact ⟨weight, hweight, hsum, hrisk⟩

end Optimize

end Nanobook
