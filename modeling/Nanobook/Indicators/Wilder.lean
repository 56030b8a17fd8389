import Nanobook.Indicators.Averages

/-!
# Wilder's averages

`rsi` and `wilder_atr` of `indicators.rs`, and the panels of them that are computed row by row.  The
RSI of a panel has in each column just what `rsi` makes of it.  For the ATR this holds up to the
sign of a zero: the average of a first window without any movement.
-/

namespace Nanobook

namespace Indicators

open F64 F64Ext F64Sign Panel Optimize

section Functions

variable {F : Type} [F64Sign F]

/-! ## Relative strength -/

def rsiFromAvgs (avgGain avgLoss : F) : F :=
  if eq avgGain (ofInt 0) && eq avgLoss (ofInt 0) then ofInt 0
  else if eq avgLoss (ofInt 0) then ofInt 100
  else ofInt 100 - ofInt 100 / (ofInt 1 + avgGain / avgLoss)

/-- A price change is added to the gains or to the losses. -/
def addChange (diff : F) (gains losses : F) : F × F :=
  if lt (ofInt 0) diff then (gains + diff, losses) else (gains, losses - diff)

/-- The averages after a price change. -/
def smooth (p : F) (diff : F) (avgGain avgLoss : F) : F × F :=
  let gain := if lt (ofInt 0) diff then diff else ofInt 0
  let loss := if lt diff (ofInt 0) then neg diff else ofInt 0
  ((avgGain * (p - ofInt 1) + gain) / p, (avgLoss * (p - ofInt 1) + loss) / p)

def rsi (close : List F) (period : Nat) : List F :=
  let n := close.length
  let out := List.replicate n nan
  if n ≤ period ∨ period = 0 then out
  else
    let (avgGain, avgLoss) := forRange 1 (period + 1) (fun i (avgGain, avgLoss) ↦
      addChange (get close i - get close (i - 1)) avgGain avgLoss) (ofInt 0, ofInt 0)
    let avgGain := avgGain / ofInt period
    let avgLoss := avgLoss / ofInt period
    let out := out.set period (rsiFromAvgs avgGain avgLoss)
    (forRange (period + 1) n (fun i ((avgGain, avgLoss), out) ↦
      let avgs := smooth (ofInt period) (get close i - get close (i - 1)) avgGain avgLoss
      (avgs, out.set i (rsiFromAvgs avgs.1 avgs.2))) ((avgGain, avgLoss), out)).2

/-- Write the two accumulators of a name. -/
def putBoth (name : Nat) (both : F × F) (x : List F × List F) : List F × List F :=
  (x.1.set name both.1, x.2.set name both.2)

/-- Add the price changes of the first rows, name by name. -/
def addChangeRows (close : List F) (nNames period : Nat) (avgs : List F × List F) :
    List F × List F :=
  forRange 1 (period + 1) (fun t avgs ↦
    let row := t * nNames
    let prev := (t - 1) * nNames
    forRange 0 nNames (fun name avgs ↦
      let diff := get close (row + name) - get close (prev + name)
      putBoth name (addChange diff (get avgs.1 name) (get avgs.2 name)) avgs) avgs) avgs

def rsiPanel (close : List F) (nNames period : Nat) : List F :=
  let n := close.length
  match panelShape close nNames with
  | none => List.replicate n nan
  | some (nTime, nNames) =>
      let out := List.replicate n nan
      if nTime ≤ period ∨ period = 0 then out
      else
        let zeros : List F := List.replicate nNames (ofInt 0)
        let avgs := addChangeRows close nNames period (zeros, zeros)
        let p := ofInt period
        let first := period * nNames
        let (avgs, out) := forRange 0 nNames (fun name (avgs, out) ↦
          let both := (get avgs.1 name / p, get avgs.2 name / p)
          (putBoth name both avgs, out.set (first + name) (rsiFromAvgs both.1 both.2))) (avgs, out)
        (forRange (period + 1) nTime (fun t (avgs, out) ↦
          let row := t * nNames
          let prev := (t - 1) * nNames
          forRange 0 nNames (fun name (avgs, out) ↦
            let diff := get close (row + name) - get close (prev + name)
            let both := smooth p diff (get avgs.1 name) (get avgs.2 name)
            (putBoth name both avgs, out.set (row + name) (rsiFromAvgs both.1 both.2)))
            (avgs, out)) (avgs, out)).2

/-! ## True range -/

/-- The true range of a bar after one that closed at `prevClose`. -/
def trueRange (high low prevClose : F) : F :=
  let hl := high - low
  let hc := abs (high - prevClose)
  let lc := abs (low - prevClose)
  maxNum (maxNum hl hc) lc

/-- The true ranges of a series; the first bar has none before it. -/
def trueRanges (high low close : List F) : List F :=
  let n := high.length
  let tr := List.replicate n (ofInt 0)
  let tr := tr.set 0 (get high 0 - get low 0)
  forRange 1 n (fun i tr ↦
    tr.set i (trueRange (get high i) (get low i) (get close (i - 1)))) tr

def wilderAtr (high low close : List F) (period : Nat) : List F :=
  let n := high.length
  if n ≠ low.length ∨ n ≠ close.length then List.replicate n nan
  else if n ≤ period ∨ period = 0 then List.replicate n nan
  else
    let tr := trueRanges high low close
    let out := List.replicate n nan
    let seed := sum ((tr.drop 1).take period) / ofInt period
    let out := out.set period seed
    forRange (period + 1) n (fun i out ↦
      out.set i ((get out (i - 1) * (ofInt period - ofInt 1) + get tr i) / ofInt period)) out

def atr (high low close : List F) (period : Nat) : List F := wilderAtr high low close period

/-- The true range of a name at a time of a panel. -/
def rangeAt (high low close : List F) (nNames name t : Nat) : F :=
  let row := t * nNames
  let prevClose := (t - 1) * nNames
  trueRange (get high (row + name)) (get low (row + name)) (get close (prevClose + name))

/-- Add the true ranges of the first rows, name by name. -/
def addRangeRows (high low close : List F) (nNames period : Nat) (atrState : List F) : List F :=
  forRange 1 (period + 1) (fun t atrState ↦
    forRange 0 nNames (fun name atrState ↦
      atrState.set name (get atrState name + rangeAt high low close nNames name t)) atrState)
    atrState

def atrPanel (high low close : List F) (nNames period : Nat) : List F :=
  let n := close.length
  if high.length ≠ n ∨ low.length ≠ n then List.replicate n nan
  else
    match panelShape close nNames with
    | none => List.replicate n nan
    | some (nTime, nNames) =>
        let out := List.replicate n nan
        if nTime ≤ period ∨ period = 0 then out
        else
          let atrState := addRangeRows high low close nNames period
            (List.replicate nNames (ofInt 0))
          let p := ofInt period
          let first := period * nNames
          let atrState := atrState.map (· / p)
          let out := copyFromSlice nan first atrState out
          (forRange (period + 1) nTime (fun t (atrState, out) ↦
            let row := t * nNames
            forRange 0 nNames (fun name (atrState, out) ↦
              let tr := rangeAt high low close nNames name t
              let atr := (get atrState name * (p - ofInt 1) + tr) / p
              (atrState.set name atr, out.set (row + name) atr)) (atrState, out))
            (atrState, out)).2

end Functions

/-! ## Columns of the RSI -/

section Strength

variable {F : Type} [F64Sign F] {close : List F} {rows width i j period : Nat}
  {x : List F × List F}

/-- There are two accumulators for each name. -/
def HasBoth (width : Nat) (x : List F × List F) : Prop :=
  x.1.length = width ∧ x.2.length = width

/-- The accumulators of a name. -/
def bothOf (j : Nat) (x : List F × List F) : F × F := (get x.1 j, get x.2 j)

omit [F64Sign F] in
theorem hasBoth_putBoth (h : HasBoth width x) (both : F × F) : HasBoth width (putBoth i both x) :=
  ⟨List.length_set.trans h.1, List.length_set.trans h.2⟩

theorem bothOf_putBoth_own (h : HasBoth width x) (hj : j < width) (both : F × F) :
    bothOf j (putBoth j both x) = both :=
  Prod.ext (getD_set_own (h.1 ▸ hj) _) (getD_set_own (h.2 ▸ hj) _)

theorem bothOf_putBoth_other (h : i ≠ j) (both : F × F) :
    bothOf j (putBoth i both x) = bothOf j x :=
  Prod.ext (getD_set_other h _ _) (getD_set_other h _ _)

/-- The accumulators of a name hold the sums of its gains and losses. -/
theorem addChangeRows_spec (close : List F) (hj : j < width) (hperiod : period < rows)
    (hx : HasBoth width x) :
    HasBoth width (addChangeRows close width period x) ∧
      bothOf j (addChangeRows close width period x) =
        forRange 1 (period + 1) (fun i sums ↦
          addChange (get (column nan rows width j close) i -
            get (column nan rows width j close) (i - 1)) sums.1 sums.2) (bothOf j x) := by
  obtain ⟨hboth, hsums⟩ := state_loop (HasBoth width) (bothOf (F := F) j)
    (fun t name avgs ↦ putBoth name
      (addChange (get close (t * width + name) - get close ((t - 1) * width + name))
        (get avgs.1 name) (get avgs.2 name)) avgs)
    (fun t sums ↦ addChange (get close (t * width + j) - get close ((t - 1) * width + j))
      sums.1 sums.2)
    hj (Nat.le_add_left 1 period) (fun t i x _ h ↦ hasBoth_putBoth h _)
    (fun t x _ _ h ↦ bothOf_putBoth_own h hj _) (fun t i x _ hne _ ↦ bothOf_putBoth_other hne _) hx
  refine ⟨hboth, hsums.trans ?_⟩
  refine forRange_rel (R := fun _ s s' ↦ s = s') (Nat.le_add_left 1 period) rfl ?_
  rintro t s _ - ht rfl
  have ht : t < rows := Nat.lt_of_lt_of_le ht hperiod
  rw [get_column ht, get_column ((Nat.sub_le t 1).trans_lt ht)]

/-- The one-pass RSI of a panel is the RSI of each of its columns. -/
theorem rsiPanel_column (hlen : close.length = rows * width) (hj : j < width) :
    (rsiPanel close width period).length = rows * width ∧
      column nan rows width j (rsiPanel close width period) =
        rsi (column nan rows width j close) period := by
  have hpos : 0 < width := Nat.lt_of_le_of_lt (Nat.zero_le j) hj
  have hout : (List.replicate close.length (nan : F)).length = rows * width :=
    List.length_replicate.trans hlen
  simp only [rsiPanel, panelShape_eq hlen hpos, rsi, length_column]
  by_cases hshort : rows ≤ period ∨ period = 0
  · rw [if_pos hshort, if_pos hshort, List.length_replicate, column_replicate]
    exact ⟨hlen, rfl⟩
  · rw [if_neg hshort, if_neg hshort]
    obtain ⟨hperiod, hne⟩ := not_or.mp hshort
    have hperiod := Nat.lt_of_not_le hperiod
    obtain ⟨hboth, hsums⟩ := addChangeRows_spec close hj hperiod
      (x := (List.replicate width (ofInt 0), List.replicate width (ofInt 0)))
      ⟨List.length_replicate, List.length_replicate⟩
    generalize addChangeRows close width period _ = avgs at hboth hsums ⊢
    have hzero : bothOf j (List.replicate width (ofInt 0 : F), List.replicate width (ofInt 0)) =
        (ofInt 0, ofInt 0) := Prod.ext (List.getD_replicate _ hj) (List.getD_replicate _ hj)
    rw [hzero] at hsums
    rw [← hsums]
    -- the averages are written to the first row
    obtain ⟨⟨hboth', hout'⟩, hfirst⟩ := row_step (d := nan) (HasBoth width) (bothOf (F := F) j)
      (fun t name avgs ↦ putBoth name
        (get avgs.1 name / ofInt period, get avgs.2 name / ofInt period) avgs)
      (fun t name avgs ↦ rsiFromAvgs (get avgs.1 name / ofInt period)
        (get avgs.2 name / ofInt period))
      (fun t both ↦ (both.1 / ofInt period, both.2 / ofInt period))
      (fun t both ↦ rsiFromAvgs (both.1 / ofInt period) (both.2 / ofInt period))
      hj hperiod (fun i x _ h ↦ hasBoth_putBoth h _)
      (fun x h ↦ ⟨bothOf_putBoth_own h hj _, rfl⟩) (fun i x _ hne _ ↦ bothOf_putBoth_other hne _)
      hboth hout
    generalize forRange 0 width _ (avgs, _) = z at hboth' hout' hfirst ⊢
    obtain ⟨hlength, hloop⟩ := column_loop (d := nan) (HasBoth width) (bothOf (F := F) j)
      (fun t name avgs ↦ putBoth name (smooth (ofInt period)
        (get close (t * width + name) - get close ((t - 1) * width + name))
        (get avgs.1 name) (get avgs.2 name)) avgs)
      (fun t name avgs ↦
        let both := smooth (ofInt period)
          (get close (t * width + name) - get close ((t - 1) * width + name))
          (get avgs.1 name) (get avgs.2 name)
        rsiFromAvgs both.1 both.2)
      (fun t both ↦ smooth (ofInt period)
        (get close (t * width + j) - get close ((t - 1) * width + j)) both.1 both.2)
      (fun t both ↦
        let both := smooth (ofInt period)
          (get close (t * width + j) - get close ((t - 1) * width + j)) both.1 both.2
        rsiFromAvgs both.1 both.2)
      hj (Nat.succ_le_of_lt hperiod) (Nat.le_refl rows) (fun t i x _ h ↦ hasBoth_putBoth h _)
      (fun t x h ↦ ⟨bothOf_putBoth_own h hj _, rfl⟩)
      (fun t i x _ hne _ ↦ bothOf_putBoth_other hne _) hboth' hout'
    refine ⟨hlength, (congrArg Prod.snd hloop).trans ?_⟩
    rw [hfirst, column_replicate]
    refine congrArg Prod.snd (forRange_rel (R := fun _ y y' ↦ y = y')
      (Nat.succ_le_of_lt hperiod) rfl ?_)
    rintro t y _ - ht rfl
    rw [get_column ht, get_column ((Nat.sub_le t 1).trans_lt ht)]

end Strength

/-! ## Columns of the ATR -/

section Range

variable {F : Type} [F64Sign F] {high low close : List F} {rows width j period : Nat}

theorem trueRanges_spec (high low close : List F) :
    (trueRanges high low close).length = high.length ∧
      ∀ i, 1 ≤ i → i < high.length → get (trueRanges high low close) i =
        trueRange (get high i) (get low i) (get close (i - 1)) := by
  obtain ⟨hlen, hget⟩ := fill_spec (a := 1) (d := (nan : F)) (n := high.length)
    (l := (List.replicate high.length (ofInt 0)).set 0 (get high 0 - get low 0))
    (fun i ↦ trueRange (get high i) (get low i) (get close (i - 1)))
    (by rw [List.length_set, List.length_replicate])
  rw [List.length_set, List.length_replicate] at hlen
  exact ⟨hlen, fun i hi hlt ↦ (hget i).trans (if_pos ⟨hi, hlt⟩)⟩

theorem get_trueRanges_column (high low close : List F) (width j t : Nat) (ht : 1 ≤ t)
    (hrows : t < rows) :
    get (trueRanges (column nan rows width j high) (column nan rows width j low)
      (column nan rows width j close)) t = rangeAt high low close width j t := by
  rw [(trueRanges_spec _ _ _).2 t ht (by rwa [length_column]), get_column hrows, get_column hrows,
    get_column ((Nat.sub_le t 1).trans_lt hrows)]
  rfl

/-- The sum of the first true ranges, from either zero. -/
theorem forRange_rangeAt (hF : Zeros F) (hperiod : period < rows)
    (hmove : ∃ t, 1 ≤ t ∧ t ≤ period ∧ HidesSign (rangeAt high low close width j t)) :
    forRange 1 (period + 1) (fun t s ↦ s + rangeAt high low close width j t) (ofInt 0) =
      sum (((trueRanges (column nan rows width j high) (column nan rows width j low)
        (column nan rows width j close)).drop 1).take period) := by
  have hget := @get_trueRanges_column _ _ rows high low close width j
  have hlen := (trueRanges_spec (column nan rows width j high) (column nan rows width j low)
    (column nan rows width j close)).1
  rw [length_column] at hlen
  generalize trueRanges (column nan rows width j high) (column nan rows width j low)
    (column nan rows width j close) = tr at hget hlen ⊢
  have hfold := forRange_getD (a := 1) (h := (· + ·)) (d := nan) (n := period) (l := tr)
    (by omega) (ofInt 0 : F)
  have hsum : (((tr.drop 1).take period).foldl (· + ·) (ofInt 0) : F) =
      sum ((tr.drop 1).take period) := by
    obtain ⟨t, ht, htp, hsign⟩ := hmove
    rw [← hget t ht (Nat.lt_of_le_of_lt htp hperiod)] at hsign
    refine hF.sum_eq ⟨get tr t, ?_, hsign⟩
    have hlt : t - 1 < ((tr.drop 1).take period).length := by
      rw [List.length_take, List.length_drop, hlen]
      omega
    refine List.mem_iff_getElem.mpr ⟨t - 1, hlt, ?_⟩
    rw [List.getElem_take, List.getElem_drop, ← List.getD_eq_getElem tr nan,
      Nat.add_sub_cancel' ht]
  rw [← hsum, ← hfold, Nat.add_comm 1 period]
  refine forRange_rel (R := fun _ s s' ↦ s = s') (Nat.le_add_left 1 period) rfl ?_
  rintro t s _ ht hlt rfl
  exact congrArg (s + ·) (hget t ht (by omega)).symm

/-- An accumulator holds the sum of the first true ranges of its name. -/
theorem addRangeRows_spec (hF : Zeros F) (hperiod : period < rows) (hj : j < width)
    (hmove : ∃ t, 1 ≤ t ∧ t ≤ period ∧ HidesSign (rangeAt high low close width j t)) :
    (addRangeRows high low close width period (List.replicate width (ofInt 0))).length = width ∧
      get (addRangeRows high low close width period (List.replicate width (ofInt 0))) j =
        sum (((trueRanges (column nan rows width j high) (column nan rows width j low)
          (column nan rows width j close)).drop 1).take period) := by
  have hzero : get (List.replicate width (ofInt 0 : F)) j = ofInt 0 := List.getD_replicate _ hj
  rw [← forRange_rangeAt hF hperiod hmove]
  have hloop := state_loop (fun state : List F ↦ state.length = width) (fun state ↦ get state j)
    (fun t name state ↦ state.set name (get state name + rangeAt high low close width name t))
    (fun t s ↦ s + rangeAt high low close width j t) hj (Nat.le_add_left 1 period)
    (fun t i state _ hlen ↦ by rw [List.length_set, hlen])
    (fun t state _ _ hlen ↦ getD_set_own (hlen ▸ hj) _)
    (fun t i state _ hne _ ↦ getD_set_other hne _ _)
    (List.length_replicate (n := width) (a := (ofInt 0 : F)))
  exact ⟨hloop.1, hloop.2.trans (congrArg _ hzero)⟩

/-- The one-pass ATR of a panel is the ATR of each of its columns. -/
theorem atrPanel_column (hF : Zeros F) (hhigh : high.length = rows * width)
    (hlow : low.length = rows * width) (hlen : close.length = rows * width) (hj : j < width)
    (hmove : period ≠ 0 → period < rows →
      ∃ t, 1 ≤ t ∧ t ≤ period ∧ HidesSign (rangeAt high low close width j t)) :
    (atrPanel high low close width period).length = rows * width ∧
      column nan rows width j (atrPanel high low close width period) =
        wilderAtr (column nan rows width j high) (column nan rows width j low)
          (column nan rows width j close) period := by
  have hpos : 0 < width := Nat.lt_of_le_of_lt (Nat.zero_le j) hj
  have hout : (List.replicate close.length (nan : F)).length = rows * width :=
    List.length_replicate.trans hlen
  have hsame : ¬ (high.length ≠ close.length ∨ low.length ≠ close.length) := by
    rw [hhigh, hlow, hlen]
    simp
  rw [atrPanel, if_neg hsame]
  simp only [panelShape_eq hlen hpos, wilderAtr, length_column, ne_eq, not_true_eq_false, or_self,
    if_false]
  by_cases hshort : rows ≤ period ∨ period = 0
  · rw [if_pos hshort, if_pos hshort, List.length_replicate, column_replicate]
    exact ⟨hlen, rfl⟩
  · rw [if_neg hshort, if_neg hshort]
    obtain ⟨hperiod, hne⟩ := not_or.mp hshort
    have hperiod := Nat.lt_of_not_le hperiod
    obtain ⟨hstate, hranges⟩ := addRangeRows_spec hF hperiod hj (hmove hne hperiod)
    have hget := @get_trueRanges_column _ _ rows high low close width j
    generalize trueRanges (column nan rows width j high) (column nan rows width j low)
      (column nan rows width j close) = tr at hget hranges ⊢
    generalize addRangeRows high low close width period _ = state at hstate hranges ⊢
    have hmeans : (state.map (· / ofInt period)).length = width := by rw [List.length_map, hstate]
    have hseed : (state.map (· / ofInt period)).getD j nan =
        sum ((tr.drop 1).take period) / ofInt period := by
      rw [getD_map_of_lt (hstate ▸ hj), ← hranges]
    obtain ⟨hlength, hloop⟩ := column_loop_list
      (fun t name prev ↦ (prev * (ofInt period - ofInt 1) +
        rangeAt high low close width name t) / ofInt period)
      (fun t name prev ↦ (prev * (ofInt period - ofInt 1) +
        rangeAt high low close width name t) / ofInt period)
      hj (Nat.succ_le_of_lt hperiod) (Nat.le_refl rows) hmeans
      ((length_copyFromSlice _ _ _).trans hout)
    refine ⟨hlength, (congrArg Prod.snd hloop).trans ?_⟩
    rw [column_copyFromSlice hout hmeans hj hperiod, column_replicate, hseed]
    -- the accumulator is what the last row shows
    refine congrArg Prod.snd (forRange_rel (R := fun t y out ↦
      y = (get out (t - 1), out) ∧ out.length = rows) (Nat.succ_le_of_lt hperiod) ⟨?_, ?_⟩ ?_).1
    · exact Prod.ext (getD_set_own (by rwa [List.length_replicate]) _).symm rfl
    · rw [List.length_set, List.length_replicate]
    · rintro t _ out hge ht ⟨rfl, hlen⟩
      refine ⟨?_, by rw [List.length_set, hlen]⟩
      rw [Nat.add_sub_cancel, hget t ((Nat.le_add_left 1 period).trans hge) ht]
      exact Prod.ext (getD_set_own (hlen ▸ ht) _).symm rfl

end Range

/-! ## Two names -/

/-- The closes of two names in four periods, with bars of one up and one down. -/
def swings : List Float.Model := [44, 20, 45, 19, 44, 21, 46, 18].map ofInt

def swingHighs : List Float.Model := [45, 21, 46, 20, 45, 22, 47, 19].map ofInt

def swingLows : List Float.Model := [43, 19, 44, 18, 43, 20, 45, 17].map ofInt

theorem rsiPanel_column_two :
    (rsiPanel swings 2 2).map toI64 = [0, 0, 0, 0, 50, 66, 83, 22] ∧
      (rsiPanel swings 2 2).length = 4 * 2 ∧
      column nan 4 2 1 (rsiPanel swings 2 2) = rsi (column nan 4 2 1 swings) 2 :=
  ⟨by decide +kernel, rsiPanel_column rfl Nat.one_lt_two⟩

theorem atrPanel_column_two :
    (atrPanel swingHighs swingLows swings 2 2).map toI64 = [0, 0, 0, 0, 2, 2, 2, 3] ∧
      (atrPanel swingHighs swingLows swings 2 2).length = 4 * 2 ∧
      column nan 4 2 1 (atrPanel swingHighs swingLows swings 2 2) =
        wilderAtr (column nan 4 2 1 swingHighs) (column nan 4 2 1 swingLows)
          (column nan 4 2 1 swings) 2 :=
  ⟨by decide +kernel, atrPanel_column Binary64.zeros rfl rfl rfl Nat.one_lt_two
    fun _ _ ↦ ⟨1, Nat.le_refl 1, Nat.le_succ 1, rfl⟩⟩

end Indicators

end Nanobook
