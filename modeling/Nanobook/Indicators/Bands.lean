import Nanobook.Indicators.Averages

/-!
# Bollinger bands

`bbands` and `bbands_panel` of `indicators.rs`, with the rolling standard deviation they rest on.
The panel fills one window for each name and time; `bbands` takes its windows off the series.
-/

namespace Nanobook

namespace Indicators

open F64 F64Ext F64Sign Panel Optimize

section Functions

variable {F : Type} [F64Sign F]

/-! ## Deviations -/

/-- `welford_mean_m2`: the mean and the sum of the squared deviations from it. -/
def welfordMeanM2 (slice : List F) : F × F :=
  let (mean, m2, _) := slice.foldl (fun (mean, m2, n) x ↦
    let n := n + ofInt 1
    let delta := x - mean
    let mean := mean + delta / n
    let delta2 := x - mean
    (mean, m2 + delta * delta2, n)) (ofInt 0, ofInt 0, ofInt 0)
  (mean, m2)

/-- The standard deviation of a window of `k` values. -/
def windowStd (k : F) (slice : List F) : F :=
  let (_, m2) := welfordMeanM2 slice
  sqrt (maxNum (m2 / k) (ofInt 0))

def rollingStdPop (values : List F) (period : Nat) : List F :=
  let n := values.length
  let out := List.replicate n nan
  if n < period ∨ period = 0 then out
  else
    let k := ofInt period
    forRange (period - 1) n (fun i out ↦
      let slice := (values.drop (i + 1 - period)).take period
      out.set i (windowStd k slice)) out

/-! ## Bands -/

/-- Write the bands around an average, unless there is none. -/
def setBands (numStdUp numStdDn mid std : F) (place : Nat) (bands : List F × List F) :
    List F × List F :=
  if !isNaN mid then
    (bands.1.set place (mid + numStdUp * std), bands.2.set place (mid - numStdDn * std))
  else bands

/-- The upper band, the middle and the lower band. -/
def bbands (close : List F) (period : Nat) (numStdUp numStdDn : F) : List F × List F × List F :=
  let n := close.length
  let middle := sma close period
  let std := rollingStdPop close period
  let nans := List.replicate n nan
  let (upper, lower) := forRange 0 n (fun i bands ↦
    setBands numStdUp numStdDn (get middle i) (get std i) i bands) (nans, nans)
  (upper, middle, lower)

def bollinger (close : List F) (period : Nat) (numStdUp numStdDn : F) :
    List F × List F × List F := bbands close period numStdUp numStdDn

/-- Fill the window of a name at a time. -/
def fillWindow (close : List F) (nNames name t period : Nat) (window : List F) : List F :=
  forRange 0 period (fun j window ↦
    let tt := t + 1 - period + j
    window.set j (get close (tt * nNames + name))) window

def bbandsPanel (close : List F) (nNames period : Nat) (numStdUp numStdDn : F) :
    List F × List F × List F :=
  let n := close.length
  let nans := List.replicate n nan
  match panelShape close nNames with
  | none => (nans, nans, nans)
  | some (nTime, nNames) =>
      let middle := smaPanel close nNames period
      if nTime < period ∨ period = 0 then (nans, middle, nans)
      else
        let k := ofInt period
        let window := List.replicate period (ofInt 0)
        let (_, upper, lower) := forRange (period - 1) nTime (fun t x ↦
          let row := t * nNames
          forRange 0 nNames (fun name (window, bands) ↦
            let window := fillWindow close nNames name t period window
            let std := windowStd k window
            let mid := get middle (row + name)
            (window, setBands numStdUp numStdDn mid std (row + name) bands)) x)
          (window, nans, nans)
        (upper, middle, lower)

end Functions

/-! ## Windows -/

section Windows

variable {F : Type} [F64Sign F] {values close : List F} {rows width i j t period : Nat}

/-- A window that is filled is the part of the column that ends there. -/
theorem fillWindow_eq {window : List F} (hwindow : window.length = period) (ht : t < rows)
    (hperiod : period ≤ t + 1) :
    fillWindow close width j t period window =
      ((column nan rows width j close).drop (t + 1 - period)).take period := by
  obtain ⟨hlen, hget⟩ := fill_spec (a := 0) (d := (nan : F))
    (fun u ↦ get close ((t + 1 - period + u) * width + j)) hwindow.symm.le
  refine ext_getD (d := (nan : F)) ?_ fun u hu ↦ ?_
  · rw [fillWindow, hlen, hwindow, List.length_take, List.length_drop, length_column]
    omega
  · rw [fillWindow, hlen, hwindow] at hu
    rw [fillWindow, hget u, if_pos ⟨Nat.zero_le u, hu⟩, getD_take_drop hu,
      getD_column (by omega)]

theorem get_rollingStdPop (hpos : 0 < period) (hperiod : period ≤ i + 1)
    (hi : i < values.length) :
    get (rollingStdPop values period) i =
      windowStd (ofInt period) ((values.drop (i + 1 - period)).take period) := by
  have hlong : ¬ (values.length < period ∨ period = 0) := by omega
  rw [rollingStdPop, if_neg hlong]
  obtain ⟨-, hget⟩ := fill_spec (a := period - 1) (d := (nan : F)) (n := values.length)
    (fun i ↦ windowStd (ofInt period) ((values.drop (i + 1 - period)).take period))
    (List.length_replicate (a := (nan : F))).symm.le
  exact (hget i).trans (if_pos ⟨by omega, hi⟩)

/-- No average comes before the first window is full. -/
theorem get_sma_of_lt (hi : i + 1 < period) : get (sma values period) i = nan := by
  have hnan : ∀ n, get (List.replicate n (nan : F)) i = nan := fun n ↦ by
    rw [get, List.getD_eq_getElem?_getD, List.getElem?_getD_replicate_default_eq]
  by_cases hshort : values.length < period ∨ period = 0
  · rw [sma, if_pos hshort]
    exact hnan _
  · rw [sma, if_neg hshort]
    refine forRange_invariant (I := fun _ (x : F × List F) ↦ get x.2 i = nan)
      (Nat.le_of_not_lt (not_or.mp hshort).1) ?_ ?_
    · rw [get, getD_set_other (by omega)]
      exact hnan _
    · rintro t x ht - hx
      rw [get, getD_set_other (by omega)]
      exact hx

end Windows

/-! ## Columns of the bands -/

section Columns

variable {F : Type} [F64Sign F] {close : List F} {rows width i j t period place : Nat}
  {up dn mid std : F} {bands : List F × List F}

/-- The columns of two bands. -/
def bandColumns (rows width j : Nat) (bands : List F × List F) : List F × List F :=
  (column nan rows width j bands.1, column nan rows width j bands.2)

/-- The size of two bands. -/
def HasSize (n : Nat) (bands : List F × List F) : Prop := bands.1.length = n ∧ bands.2.length = n

theorem hasSize_setBands {n : Nat} (h : HasSize n bands) :
    HasSize n (setBands up dn mid std place bands) := by
  rw [setBands]
  split_ifs
  · exact ⟨List.length_set.trans h.1, List.length_set.trans h.2⟩
  · exact h

theorem bandColumns_setBands_own (h : HasSize (rows * width) bands) (hj : j < width)
    (ht : t < rows) :
    bandColumns rows width j (setBands up dn mid std (t * width + j) bands) =
      setBands up dn mid std t (bandColumns rows width j bands) := by
  rw [setBands, setBands]
  split_ifs
  · exact Prod.ext (column_set_own h.1 hj ht _) (column_set_own h.2 hj ht _)
  · rfl

theorem bandColumns_setBands_other (hi : i < width) (hj : j < width) (hne : i ≠ j) :
    bandColumns rows width j (setBands up dn mid std (t * width + i) bands) =
      bandColumns rows width j bands := by
  rw [setBands]
  split_ifs
  · exact Prod.ext (column_set_other hi hj hne _ _) (column_set_other hi hj hne _ _)
  · rfl

theorem setBands_nan (hnan : isNaN (nan : F) = true) :
    setBands up dn nan std place bands = bands := by
  rw [setBands, hnan]
  rfl

/-- Before the first window is full there are no bands. -/
theorem bands_of_lt (hnan : isNaN (nan : F) = true) (stds values : List F) {n : Nat}
    (hn : n < period) :
    forRange 0 n (fun i bands ↦ setBands up dn (get (sma values period) i) (get stds i) i bands)
      bands = bands := by
  refine forRange_invariant (I := fun _ b ↦ b = bands) (Nat.zero_le n) rfl ?_
  rintro i _ - hi rfl
  rw [get_sma_of_lt (Nat.lt_of_le_of_lt hi hn), setBands_nan hnan]

/-- The one-pass bands of a panel are the bands of each of its columns. -/
theorem bbandsPanel_column (hF : Zeros F) (hnan : isNaN (nan : F) = true)
    (h : Signed close width period) (hlen : close.length = rows * width) (hj : j < width) :
    ∃ upper middle lower, bbandsPanel close width period up dn = (upper, middle, lower) ∧
      upper.length = rows * width ∧ middle.length = rows * width ∧ lower.length = rows * width ∧
      bbands (column nan rows width j close) period up dn =
        (column nan rows width j upper, column nan rows width j middle,
          column nan rows width j lower) := by
  have hpos : 0 < width := Nat.lt_of_le_of_lt (Nat.zero_le j) hj
  have hout : (List.replicate close.length (nan : F)).length = rows * width :=
    List.length_replicate.trans hlen
  obtain ⟨hmiddle, hsma⟩ := smaPanel_spec hF h hlen hj
  simp only [bbandsPanel, panelShape_eq hlen hpos, bbands, length_column]
  by_cases hshort : rows < period ∨ period = 0
  · rw [if_pos hshort]
    refine ⟨_, _, _, rfl, hout, hmiddle, hout, ?_⟩
    rw [hsma, column_replicate]
    have hnone : ∀ i, get (sma (column nan rows width j close) period) i = nan := fun i ↦ by
      rw [sma, length_column, if_pos hshort, get, List.getD_eq_getElem?_getD,
        List.getElem?_getD_replicate_default_eq]
    have hbands : forRange 0 rows (fun i bands ↦ setBands up dn
        (get (sma (column nan rows width j close) period) i)
        (get (rollingStdPop (column nan rows width j close) period) i) i bands)
        (List.replicate rows nan, List.replicate rows nan) =
          (List.replicate rows nan, List.replicate rows nan) :=
      forRange_keeps (I := fun b ↦ b = _) rfl fun i b hb ↦ by rw [hnone, setBands_nan hnan, hb]
    rw [hbands]
  · rw [if_neg hshort]
    obtain ⟨hperiod, hne⟩ := not_or.mp hshort
    have hperiod := Nat.le_of_not_lt hperiod
    have hperiodPos := Nat.pos_of_ne_zero hne
    have hloop := state_loop
      (fun x : List F × List F × List F ↦ x.1.length = period ∧ HasSize (rows * width) x.2)
      (fun x ↦ bandColumns rows width j x.2)
      (fun t name x ↦ (fillWindow close width name t period x.1,
        setBands up dn (get (smaPanel close width period) (t * width + name))
          (windowStd (ofInt period) (fillWindow close width name t period x.1))
          (t * width + name) x.2))
      (fun t bands ↦ setBands up dn (get (sma (column nan rows width j close) period) t)
        (get (rollingStdPop (column nan rows width j close) period) t) t bands)
      hj ((Nat.sub_le period 1).trans hperiod) ?_ ?_ ?_
      (x := (List.replicate period (ofInt 0), List.replicate close.length nan,
        List.replicate close.length nan))
      ⟨List.length_replicate, hout, hout⟩
    · obtain ⟨⟨-, hsize⟩, hloop⟩ := hloop
      refine ⟨_, _, _, rfl, hsize.1, hmiddle, hsize.2, ?_⟩
      have hsplit := forRange_split (a := 0) (x := (List.replicate rows (nan : F),
        List.replicate rows (nan : F))) (f := fun i bands ↦ setBands up dn
          (get (sma (column nan rows width j close) period) i)
          (get (rollingStdPop (column nan rows width j close) period) i) i bands)
        (Nat.zero_le (period - 1)) ((Nat.sub_le period 1).trans hperiod)
      rw [bands_of_lt hnan _ _ (Nat.sub_one_lt hne)] at hsplit
      have hnans : bandColumns rows width j (List.replicate close.length (nan : F),
          List.replicate close.length nan) = (List.replicate rows nan, List.replicate rows nan) :=
        Prod.ext (column_replicate _) (column_replicate _)
      rw [hnans] at hloop
      rw [hsma, hsplit, ← hloop]
      rfl
    · rintro t i ⟨window, bands⟩ - ⟨hwindow, hsize⟩
      exact ⟨(fill_spec (d := (nan : F)) _ hwindow.symm.le).1.trans hwindow,
        hasSize_setBands hsize⟩
    · rintro t ⟨window, bands⟩ hge hlt ⟨hwindow, hsize⟩
      have hfull : period ≤ t + 1 := by omega
      rw [fillWindow_eq hwindow hlt hfull, ← hsma, get_column hlt,
        get_rollingStdPop hperiodPos hfull (by rwa [length_column])]
      exact bandColumns_setBands_own hsize hj hlt
    · rintro t i ⟨window, bands⟩ hi hne' -
      exact bandColumns_setBands_other hi hj hne'

theorem bbandsPanel_column_two :
    (bbandsPanel twoNames 2 2 (ofInt 2) (ofInt 2)).1.map toI64 = [0, 0, 2, 25, 3, 35, 4, 45] ∧
      ∃ upper middle lower,
        bbandsPanel twoNames 2 2 (ofInt 2) (ofInt 2) = (upper, middle, lower) ∧
        upper.length = 4 * 2 ∧ middle.length = 4 * 2 ∧ lower.length = 4 * 2 ∧
        bbands (column nan 4 2 1 twoNames) 2 (ofInt 2) (ofInt 2) =
          (column nan 4 2 1 upper, column nan 4 2 1 middle, column nan 4 2 1 lower) :=
  ⟨by decide +kernel, bbandsPanel_column Binary64.zeros (by decide +kernel) signed_twoNames rfl
    Nat.one_lt_two⟩

end Columns

end Indicators

end Nanobook
