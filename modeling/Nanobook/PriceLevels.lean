import Nanobook.Lib.OrdMap
import Nanobook.Level

/-!
# One side of the book

`price_levels.rs`: the levels of one side, keyed by price, with the best price cached beside
them.  The cache is never recomputed from the map on a read, so it has to be kept in step by
every insertion and removal; `Cached` is that invariant.
-/

namespace Nanobook

structure PriceLevels where
  levels : OrdMap Price Level
  bestPrice : Option Price
  side : Side
deriving DecidableEq

namespace PriceLevels

/-- `PriceLevels::new`. -/
def create (side : Side) : PriceLevels := ⟨OrdMap.empty, none, side⟩

def getLevel (pl : PriceLevels) (price : Price) : Option Level := pl.levels.get? price

/-- Run `f` on the level `get_level_mut` finds at `price`, if there is one. -/
def updateLevel (pl : PriceLevels) (price : Price) (f : Level → Level) : PriceLevels :=
  { pl with levels := pl.levels.modify price f }

def recomputeBestPrice (pl : PriceLevels) : PriceLevels :=
  { pl with
    bestPrice := match pl.side with
      | .buy => pl.levels.maxKey?
      | .sell => pl.levels.minKey? }

def updateBestPriceAfterInsert (pl : PriceLevels) (newPrice : Price) : PriceLevels :=
  match pl.bestPrice with
  | none => { pl with bestPrice := some newPrice }
  | some currentBest =>
      let isBetter := match pl.side with
        | .buy => decide (newPrice > currentBest)
        | .sell => decide (newPrice < currentBest)
      if isBetter then { pl with bestPrice := some newPrice } else pl

/-- The side after `get_or_create_level`. -/
def getOrCreateLevel (pl : PriceLevels) (price : Price) : PriceLevels :=
  if pl.levels.contains price then pl
  else
    let pl := pl.updateBestPriceAfterInsert price
    { pl with levels := pl.levels.insert price (Level.create price) }

/-- Add an order at `price`, returning its index within the level. -/
def insertOrder (pl : PriceLevels) (price : Price) (orderId : OrderId) (quantity : Quantity) :
    PriceLevels × Nat :=
  let pl := pl.getOrCreateLevel price
  let actualIndex := ((pl.getLevel price).map fun l ↦ l.orders.length).getD 0
  (pl.updateLevel price fun l ↦ l.pushBack orderId quantity, actualIndex)

def removeLevel (pl : PriceLevels) (price : Price) : PriceLevels :=
  if pl.levels.contains price then
    let pl' := { pl with levels := pl.levels.erase price }
    if pl.bestPrice = some price then pl'.recomputeBestPrice else pl'
  else pl

/-- The check that follows a change of the level at `price`: an empty level is removed. -/
def removeIfEmpty (pl : PriceLevels) (price : Price) : PriceLevels :=
  match pl.getLevel price with
  | some l => if l.isEmpty then pl.removeLevel price else pl
  | none => pl

def markTombstone (pl : PriceLevels) (price : Price) (index : Nat) (quantity : Quantity) :
    PriceLevels :=
  (pl.updateLevel price fun l ↦ l.markTombstone index quantity).removeIfEmpty price

def compact (pl : PriceLevels) : PriceLevels :=
  { pl with levels := pl.levels.mapVals fun _ l ↦ l.compact }

/-- `iter_best_to_worst`: bids from the highest price, asks from the lowest. -/
def bestToWorst (pl : PriceLevels) : List (Price × Level) :=
  match pl.side with
  | .buy => pl.levels.entries.reverse
  | .sell => pl.levels.entries

/-- The quantity at prices that cross `price`, as a `u64` sum over the range of the map. -/
def quantityAtOrBetter (pl : PriceLevels) (price : Price) : Quantity :=
  let range : List (Price × Level) := match pl.side with
    | .buy => pl.levels.entries.filter fun e ↦ price ≤ e.1
    | .sell => pl.levels.entries.filter fun e ↦ e.1 ≤ price
  sumU64 (range.map fun e ↦ e.2.totalQuantity)

/-! ## Looking up levels -/

@[simp] theorem getLevel_updateLevel (pl : PriceLevels) (p q : Price) (f : Level → Level) :
    (pl.updateLevel p f).getLevel q = if q = p then (pl.getLevel q).map f else pl.getLevel q :=
  OrdMap.get?_modify _ _ _ _

@[simp] theorem side_updateLevel (pl : PriceLevels) (p : Price) (f : Level → Level) :
    (pl.updateLevel p f).side = pl.side := rfl

theorem side_removeLevel (pl : PriceLevels) (p : Price) : (pl.removeLevel p).side = pl.side := by
  simp only [removeLevel]; split_ifs <;> rfl

theorem levels_removeLevel (pl : PriceLevels) (p : Price) :
    (pl.removeLevel p).levels = pl.levels.erase p := by
  simp only [removeLevel]
  split_ifs with h h'
  · rfl
  · rfl
  · refine OrdMap.ext_get? fun q ↦ ?_
    rw [OrdMap.get?_erase]
    split_ifs with hq
    · subst hq; simpa [OrdMap.contains] using h
    · rfl

theorem getLevel_removeLevel (pl : PriceLevels) (p q : Price) :
    (pl.removeLevel p).getLevel q = if q = p then none else pl.getLevel q := by
  rw [getLevel, levels_removeLevel, OrdMap.get?_erase]; rfl

theorem side_removeIfEmpty (pl : PriceLevels) (p : Price) :
    (pl.removeIfEmpty p).side = pl.side := by
  simp only [removeIfEmpty]
  split
  · split_ifs
    · exact side_removeLevel pl p
    · rfl
  · rfl

theorem getLevel_removeIfEmpty (pl : PriceLevels) (p q : Price) :
    (pl.removeIfEmpty p).getLevel q =
      if q = p then (pl.getLevel q).filter (fun l ↦ !l.isEmpty) else pl.getLevel q := by
  simp only [removeIfEmpty]
  split
  · next l hl =>
      by_cases hq : q = p
      · subst hq
        cases he : l.isEmpty <;> simp [hl, he, getLevel_removeLevel, Option.filter]
      · split_ifs <;> simp [hq, getLevel_removeLevel]
  · next hl =>
      split_ifs with hq
      · subst hq; rw [hl]; rfl
      · rfl

/-- `mark_tombstone` touches one level, which goes away if nothing is left in it. -/
theorem getLevel_markTombstone (pl : PriceLevels) (p q : Price) (i : Nat) (n : Quantity) :
    (pl.markTombstone p i n).getLevel q =
      if q = p then ((pl.getLevel q).map fun l ↦ l.markTombstone i n).filter (fun l ↦ !l.isEmpty)
      else pl.getLevel q := by
  rw [markTombstone, getLevel_removeIfEmpty, getLevel_updateLevel]
  split_ifs <;> rfl

@[simp] theorem getLevel_compact (pl : PriceLevels) (p : Price) :
    pl.compact.getLevel p = (pl.getLevel p).map Level.compact :=
  OrdMap.get?_mapVals _ _ _

theorem levels_updateBestPriceAfterInsert (pl : PriceLevels) (p : Price) :
    (pl.updateBestPriceAfterInsert p).levels = pl.levels := by
  simp only [updateBestPriceAfterInsert]
  split
  · rfl
  · split_ifs <;> rfl

theorem side_updateBestPriceAfterInsert (pl : PriceLevels) (p : Price) :
    (pl.updateBestPriceAfterInsert p).side = pl.side := by
  simp only [updateBestPriceAfterInsert]
  split
  · rfl
  · split_ifs <;> rfl

@[simp] theorem side_getOrCreateLevel (pl : PriceLevels) (p : Price) :
    (pl.getOrCreateLevel p).side = pl.side := by
  simp only [getOrCreateLevel]
  split_ifs
  · rfl
  · exact side_updateBestPriceAfterInsert pl p

/-- A level is created empty where there was none, and nothing else changes. -/
theorem getLevel_getOrCreateLevel (pl : PriceLevels) (p q : Price) :
    (pl.getOrCreateLevel p).getLevel q =
      if q = p then some ((pl.getLevel p).getD (Level.create p)) else pl.getLevel q := by
  simp only [getOrCreateLevel]
  split_ifs with h hq hq
  · subst hq
    obtain ⟨l, hl⟩ := (OrdMap.contains_iff _ _).mp h
    simp [getLevel, hl]
  · rfl
  · subst hq
    have hn : pl.levels.get? q = none := by simpa [OrdMap.contains] using h
    simp [getLevel, hn]
  · simp [getLevel, levels_updateBestPriceAfterInsert, hq]

theorem insertOrder_snd (pl : PriceLevels) (p : Price) (id : OrderId) (q : Quantity) :
    (pl.insertOrder p id q).2 = ((pl.getLevel p).getD (Level.create p)).orders.length := by
  simp [insertOrder, getLevel_getOrCreateLevel]

theorem getLevel_insertOrder (pl : PriceLevels) (p r : Price) (id : OrderId) (q : Quantity) :
    (pl.insertOrder p id q).1.getLevel r =
      if r = p then some (((pl.getLevel p).getD (Level.create p)).pushBack id q)
      else pl.getLevel r := by
  simp only [insertOrder, getLevel_updateLevel, getLevel_getOrCreateLevel]
  split_ifs with h <;> simp

@[simp] theorem side_insertOrder (pl : PriceLevels) (p : Price) (id : OrderId) (q : Quantity) :
    (pl.insertOrder p id q).1.side = pl.side := by
  simp [insertOrder]

/-! ## From best to worst -/

/-- `p` is a strictly better price than `q` for an order resting on `side`. -/
def Better (side : Side) (p q : Price) : Prop :=
  match side with
  | .buy => q < p
  | .sell => p < q

instance (side : Side) (p q : Price) : Decidable (Better side p q) := by
  unfold Better; cases side <;> infer_instance

theorem Better.ne {side : Side} {p q : Price} (h : Better side p q) : p ≠ q := by
  cases side with
  | buy => exact (ne_of_lt h).symm
  | sell => exact ne_of_lt h

theorem Better.asymm {side : Side} {p q : Price} (h : Better side p q) : ¬ Better side q p := by
  cases side with
  | buy => exact not_lt_of_gt h
  | sell => exact not_lt_of_gt h

theorem bestToWorst_pairwise (pl : PriceLevels) :
    pl.bestToWorst.Pairwise fun a b ↦ Better pl.side a.1 b.1 := by
  simp only [bestToWorst]
  cases pl.side with
  | buy => exact List.pairwise_reverse.mpr pl.levels.sorted
  | sell => exact pl.levels.sorted

theorem mem_bestToWorst {pl : PriceLevels} {p : Price} {l : Level} :
    (p, l) ∈ pl.bestToWorst ↔ pl.getLevel p = some l := by
  rw [getLevel, OrdMap.get?_eq_some_iff, bestToWorst]
  cases pl.side <;> simp

theorem bestToWorst_eq_of_levels {pl pl' : PriceLevels} (hs : pl'.side = pl.side)
    (hl : pl'.levels = pl.levels) : pl'.bestToWorst = pl.bestToWorst := by
  simp only [bestToWorst, hs, hl]

/-- Updating levels in place. -/
theorem bestToWorst_mapVals (pl : PriceLevels) (f : Price → Level → Level) :
    ({ pl with levels := pl.levels.mapVals f } : PriceLevels).bestToWorst =
      pl.bestToWorst.map fun e ↦ (e.1, f e.1 e.2) := by
  simp only [bestToWorst]
  cases pl.side
  · simp [OrdMap.mapVals, List.map_reverse]
  · rfl

theorem bestToWorst_removeLevel (pl : PriceLevels) (p : Price) :
    (pl.removeLevel p).bestToWorst = pl.bestToWorst.filter fun e ↦ e.1 ≠ p := by
  simp only [bestToWorst, side_removeLevel, levels_removeLevel, OrdMap.erase]
  cases pl.side
  · simp [List.filter_reverse]
  · rfl

section Head

variable {pl : PriceLevels} {p : Price} {l : Level} {rest : List (Price × Level)}

/-- The levels behind the best one are at other prices. -/
theorem ne_of_mem_rest (h : pl.bestToWorst = (p, l) :: rest) {e : Price × Level} (he : e ∈ rest) :
    e.1 ≠ p := by
  have hpw := pl.bestToWorst_pairwise
  rw [h] at hpw
  exact (List.rel_of_pairwise_cons hpw he).ne.symm

theorem getLevel_of_bestToWorst (h : pl.bestToWorst = (p, l) :: rest) : pl.getLevel p = some l :=
  mem_bestToWorst.mp (h ▸ List.mem_cons_self)

/-- Updating the best level leaves the levels behind it alone. -/
theorem bestToWorst_updateLevel_head (h : pl.bestToWorst = (p, l) :: rest) (f : Level → Level) :
    (pl.updateLevel p f).bestToWorst = (p, f l) :: rest := by
  rw [updateLevel, OrdMap.modify, bestToWorst_mapVals, h, List.map_cons]
  simp only [↓reduceIte, List.cons.injEq, true_and]
  rw [List.map_congr_left (g := id), List.map_id]
  intro e he
  simp [ne_of_mem_rest h he]

theorem bestToWorst_removeLevel_head (h : pl.bestToWorst = (p, l) :: rest) :
    (pl.removeLevel p).bestToWorst = rest := by
  rw [bestToWorst_removeLevel, h, List.filter_cons_of_neg (by simp), List.filter_eq_self]
  intro e he
  simpa using ne_of_mem_rest h he

theorem bestToWorst_removeIfEmpty_head (h : pl.bestToWorst = (p, l) :: rest) :
    (pl.removeIfEmpty p).bestToWorst = if l.totalQuantity = 0 then rest else (p, l) :: rest := by
  simp only [removeIfEmpty, getLevel_of_bestToWorst h, Level.isEmpty, decide_eq_true_eq]
  split_ifs
  · exact bestToWorst_removeLevel_head h
  · exact h

end Head

/-! ## The cached best price -/

/-- The extreme key of the level map: the highest bid, the lowest ask. -/
def extremeKey (pl : PriceLevels) : Option Price :=
  match pl.side with
  | .buy => pl.levels.maxKey?
  | .sell => pl.levels.minKey?

/-- The cached best price is the extreme key of the level map. -/
def Cached (pl : PriceLevels) : Prop := pl.bestPrice = pl.extremeKey

theorem extremeKey_eq (pl : PriceLevels) : pl.extremeKey = pl.bestToWorst.head?.map Prod.fst := by
  simp only [extremeKey, bestToWorst]
  cases pl.side
  · simp [OrdMap.maxKey?]
  · rfl

theorem cached_create (side : Side) : (create side).Cached := by cases side <;> rfl

/-- A change that keeps the prices in place keeps the cache exact. -/
theorem cached_mapVals {pl : PriceLevels} (h : pl.Cached) (f : Price → Level → Level) :
    ({ pl with levels := pl.levels.mapVals f } : PriceLevels).Cached := by
  rw [Cached, extremeKey_eq] at h ⊢
  rw [bestToWorst_mapVals]
  simpa [Function.comp_def] using h

theorem cached_updateLevel {pl : PriceLevels} (h : pl.Cached) (p : Price) (f : Level → Level) :
    (pl.updateLevel p f).Cached := cached_mapVals h _

theorem cached_removeLevel {pl : PriceLevels} (h : pl.Cached) (p : Price) :
    (pl.removeLevel p).Cached := by
  simp only [removeLevel]
  split_ifs with hc hb
  · rfl
  · -- the best level stays, so it still heads the list
    have hlv : ({ pl with levels := pl.levels.erase p } : PriceLevels).bestToWorst =
        pl.bestToWorst.filter fun e ↦ e.1 ≠ p := by
      rw [← bestToWorst_removeLevel]
      exact bestToWorst_eq_of_levels (side_removeLevel pl p).symm (levels_removeLevel pl p).symm
    rw [Cached, extremeKey_eq] at h ⊢
    rw [hlv]
    cases hl : pl.bestToWorst with
    | nil => simpa [hl] using h
    | cons e rest =>
        have hbe : pl.bestPrice = some e.1 := by simpa [hl] using h
        have hne : e.1 ≠ p := fun heq ↦ hb (by rw [hbe, heq])
        rw [List.filter_cons_of_pos (by simpa using hne)]
        exact hbe
  · exact h

theorem cached_removeIfEmpty {pl : PriceLevels} (h : pl.Cached) (p : Price) :
    (pl.removeIfEmpty p).Cached := by
  simp only [removeIfEmpty]
  split
  · split_ifs
    · exact cached_removeLevel h p
    · exact h
  · exact h

theorem cached_getOrCreateLevel {pl : PriceLevels} (h : pl.Cached) (p : Price) :
    (pl.getOrCreateLevel p).Cached := by
  simp only [getOrCreateLevel]
  split_ifs with hc
  · exact h
  · rw [Cached] at h ⊢
    simp only [extremeKey, levels_updateBestPriceAfterInsert, side_updateBestPriceAfterInsert]
    simp only [extremeKey] at h
    simp only [updateBestPriceAfterInsert]
    cases hs : pl.side with
    | buy =>
        simp only [hs] at h ⊢
        rw [OrdMap.maxKey?_insert, ← h]
        cases hb : pl.bestPrice with
        | none => rfl
        | some b =>
            simp only [decide_eq_true_eq]
            split_ifs with hgt
            · simp [max_eq_left (le_of_lt hgt)]
            · simp [hb, max_eq_right (not_lt.mp hgt)]
    | sell =>
        simp only [hs] at h ⊢
        rw [OrdMap.minKey?_insert, ← h]
        cases hb : pl.bestPrice with
        | none => rfl
        | some b =>
            simp only [decide_eq_true_eq]
            split_ifs with hlt
            · simp [min_eq_left (le_of_lt hlt)]
            · simp [hb, min_eq_right (not_lt.mp hlt)]

theorem cached_insertOrder {pl : PriceLevels} (h : pl.Cached) (p : Price) (id : OrderId)
    (q : Quantity) : (pl.insertOrder p id q).1.Cached :=
  cached_updateLevel (cached_getOrCreateLevel h p) p _

/-- With an exact cache, the best price is that of the first level from best to worst. -/
theorem Cached.bestToWorst_of_bestPrice {pl : PriceLevels} (h : pl.Cached) {p : Price}
    (hb : pl.bestPrice = some p) : ∃ l rest, pl.bestToWorst = (p, l) :: rest := by
  rw [Cached, extremeKey_eq, hb] at h
  cases hl : pl.bestToWorst with
  | nil => simp [hl] at h
  | cons e rest =>
      obtain ⟨q, l⟩ := e
      obtain rfl : q = p := by simpa [hl] using h.symm
      exact ⟨l, rest, rfl⟩

theorem Cached.bestPrice_eq_none_iff {pl : PriceLevels} (h : pl.Cached) :
    pl.bestPrice = none ↔ pl.bestToWorst = [] := by
  rw [Cached, extremeKey_eq] at h
  rw [h]
  simp

/-- No level is better than the cached best price. -/
theorem Cached.not_better {pl : PriceLevels} (h : pl.Cached) {p q : Price} {l : Level}
    (hb : pl.bestPrice = some p) (hq : pl.getLevel q = some l) : ¬ Better pl.side q p := by
  obtain ⟨l', rest, hl⟩ := h.bestToWorst_of_bestPrice hb
  have hpw := pl.bestToWorst_pairwise
  have hmem := mem_bestToWorst.mpr hq
  rw [hl] at hpw hmem
  rcases List.mem_cons.mp hmem with heq | hmem
  · cases heq
    exact fun hbad ↦ hbad.ne rfl
  · exact (List.rel_of_pairwise_cons hpw hmem).asymm

end PriceLevels

end Nanobook
