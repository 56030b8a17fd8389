import Nanobook.Indicators.Numbers
import Nanobook.Lib.Panel

/-!
# Moving averages

`ema` and `sma` of `indicators.rs`, for one series and for a panel of them.  A panel is computed row
by row with one accumulator for each column (`ema_panel`) or column by column
(`ema_panel_by_column`).  The results are the same, up to the sign of a zero: the average of a first
window that has nothing but negative zeros in it.
-/

namespace Nanobook

namespace Indicators

open F64 F64Ext F64Sign Panel

section Functions

variable {F : Type} [F64Sign F]

/-! ## One series -/

def ema (values : List F) (period : Nat) : List F :=
  let n := values.length
  let out := List.replicate n nan
  if n < period ∨ period = 0 then out
  else
    let seed := sum (values.take period) / ofInt period
    let out := out.set (period - 1) seed
    let multiplier := ofInt 2 / (ofInt period + ofInt 1)
    forRange period n (fun i out ↦
      out.set i ((get values i - get out (i - 1)) * multiplier + get out (i - 1))) out

def sma (values : List F) (period : Nat) : List F :=
  let n := values.length
  let out := List.replicate n nan
  if n < period ∨ period = 0 then out
  else
    let windowSum := sum (values.take period)
    let out := out.set (period - 1) (windowSum / ofInt period)
    (forRange period n (fun i (windowSum, out) ↦
      let windowSum := windowSum + (get values i - get values (i - period))
      (windowSum, out.set i (windowSum / ofInt period))) (windowSum, out)).2

/-! ## Panels -/

def panelShape (close : List F) (nNames : Nat) : Option (Nat × Nat) :=
  if nNames = 0 ∨ ¬ nNames ∣ close.length then none
  else some (close.length / nNames, nNames)

/-- Add the closes of the first rows, name by name, onto accumulators. -/
def addRows (close : List F) (nNames first last : Nat) (state : List F) : List F :=
  forRange first last (fun t state ↦
    let row := t * nNames
    forRange 0 nNames (fun name state ↦
      state.set name (get state name + get close (row + name))) state) state

def emaPanel (close : List F) (nNames period : Nat) : List F :=
  let n := close.length
  match panelShape close nNames with
  | none => List.replicate n nan
  | some (nTime, nNames) =>
      let out := List.replicate n nan
      if nTime < period ∨ period = 0 then out
      else
        let state := addRows close nNames 0 period (List.replicate nNames (ofInt 0))
        let p := ofInt period
        let seedRow := (period - 1) * nNames
        let state := state.map (· / p)
        let out := copyFromSlice nan seedRow state out
        let multiplier := ofInt 2 / (ofInt period + ofInt 1)
        (forRange period nTime (fun t (state, out) ↦
          let row := t * nNames
          forRange 0 nNames (fun name (state, out) ↦
            let prev := get state name
            let y := (get close (row + name) - prev) * multiplier + prev
            (state.set name y, out.set (row + name) y)) (state, out)) (state, out)).2

def smaPanel (close : List F) (nNames period : Nat) : List F :=
  let n := close.length
  match panelShape close nNames with
  | none => List.replicate n nan
  | some (nTime, nNames) =>
      let out := List.replicate n nan
      if nTime < period ∨ period = 0 then out
      else
        let sum := addRows close nNames 0 period (List.replicate nNames (ofInt 0))
        let p := ofInt period
        let seedRow := (period - 1) * nNames
        let out := forRange 0 nNames (fun name out ↦
          out.set (seedRow + name) (get sum name / p)) out
        (forRange period nTime (fun t (sum, out) ↦
          let row := t * nNames
          let old := (t - period) * nNames
          forRange 0 nNames (fun name (sum, out) ↦
            let s := get sum name + (get close (row + name) - get close (old + name))
            (sum.set name s, out.set (row + name) (s / p))) (sum, out)) (sum, out)).2

/-- What `ema_panel_by_column` and `sma_panel_by_column` have in common. -/
def panelByColumn (f : List F → List F) (close : List F) (nNames : Nat) : List F :=
  let n := close.length
  match panelShape close nNames with
  | none => List.replicate n nan
  | some (nTime, nNames) =>
      columnwise f nan (ofInt 0) nTime nNames close (List.replicate n nan)

def emaPanelByColumn (close : List F) (nNames period : Nat) : List F :=
  panelByColumn (ema · period) close nNames

def smaPanelByColumn (close : List F) (nNames period : Nat) : List F :=
  panelByColumn (sma · period) close nNames

end Functions

/-! ## Columns of the panels -/

section Columns

variable {F : Type} [F64Sign F] {close : List F} {rows width j period : Nat}

omit [F64Sign F] in
theorem panelShape_eq (hlen : close.length = rows * width) (hpos : 0 < width) :
    panelShape close width = some (rows, width) := by
  have hwidth : ¬ (width = 0 ∨ ¬ width ∣ close.length) := by
    rintro (h | h)
    · exact absurd h (Nat.ne_of_gt hpos)
    · exact h (hlen ▸ Nat.dvd_mul_left width rows)
  rw [panelShape, if_neg hwidth, hlen, Nat.mul_div_cancel rows hpos]

omit [F64Sign F] in
/-- A panel has a shape, or it is not looked at. -/
theorem panelShape_cases (close : List F) (width : Nat) :
    panelShape close width = none ∨
      ∃ rows, 0 < width ∧ close.length = rows * width ∧
        panelShape close width = some (rows, width) := by
  by_cases h : width = 0 ∨ ¬ width ∣ close.length
  · exact .inl (if_pos h)
  · obtain ⟨hpos, hdvd⟩ := not_or.mp h
    obtain ⟨rows, hrows⟩ := not_not.mp hdvd
    have hlen : close.length = rows * width := hrows.trans (Nat.mul_comm width rows)
    exact .inr ⟨rows, Nat.pos_of_ne_zero hpos, hlen, panelShape_eq hlen (Nat.pos_of_ne_zero hpos)⟩

/-- An accumulator holds the sum of the first closes of its name. -/
theorem addRows_spec (close : List F) (hj : j < width) (hperiod : period ≤ rows) {state : List F}
    (hstate : state.length = width) :
    (addRows close width 0 period state).length = width ∧
      get (addRows close width 0 period state) j =
        ((column nan rows width j close).take period).foldl (· + ·) (get state j) := by
  have hfold := forRange_getD (a := 0) (h := (· + ·)) (d := nan) (n := period)
    (l := column nan rows width j close)
    (by rwa [length_column, Nat.zero_add]) (get state j)
  rw [Nat.zero_add, List.drop_zero] at hfold
  rw [← hfold]
  obtain ⟨hlength, hloop⟩ := state_loop (fun state : List F ↦ state.length = width)
    (fun state ↦ get state j)
    (fun t name state ↦ state.set name (get state name + get close (t * width + name)))
    (fun t s ↦ s + get close (t * width + j)) hj (Nat.zero_le period)
    (fun t i state _ hlen ↦ by rw [List.length_set, hlen])
    (fun t state _ _ hlen ↦ getD_set_own (hlen ▸ hj) _)
    (fun t i state _ hne _ ↦ getD_set_other hne _ _) hstate
  refine ⟨hlength, hloop.trans ?_⟩
  refine forRange_rel (R := fun _ s s' ↦ s = s') (Nat.zero_le _) rfl ?_
  rintro t s _ - ht rfl
  rw [getD_column (ht.trans_le hperiod)]

theorem get_column {t : Nat} (ht : t < rows) :
    get (column nan rows width j close) t = get close (t * width + j) := getD_column ht

/-- The first window of no name is made of negative zeros. -/
def Signed (close : List F) (width period : Nat) : Prop :=
  0 < period → period * width ≤ close.length →
    ∀ j < width, ∃ t < period, HidesSign (get close (t * width + j))

/-- Then the accumulators hold the sums of the standard library. -/
theorem windowSum_spec (hF : Zeros F) (h : Signed close width period)
    (hlen : close.length = rows * width) (hj : j < width) (hpos : 0 < period)
    (hperiod : period ≤ rows) :
    (addRows close width 0 period (List.replicate width (ofInt 0))).length = width ∧
      get (addRows close width 0 period (List.replicate width (ofInt 0))) j =
        sum ((column nan rows width j close).take period) := by
  obtain ⟨hstate, hsum⟩ := addRows_spec close hj hperiod
    (List.length_replicate (n := width) (a := (ofInt 0 : F)))
  refine ⟨hstate, ?_⟩
  rw [hsum, get, List.getD_replicate _ hj]
  obtain ⟨t, ht, hsign⟩ := h hpos (hlen ▸ Nat.mul_le_mul_right width hperiod) j hj
  refine hF.sum_eq ⟨_, ?_, hsign⟩
  have hlt : t < ((column nan rows width j close).take period).length := by
    rw [List.length_take, length_column]
    exact Nat.lt_min.mpr ⟨ht, ht.trans_le hperiod⟩
  rw [List.mem_iff_getElem]
  refine ⟨t, hlt, ?_⟩
  rw [List.getElem_take, ← List.getD_eq_getElem _ nan, getD_column (ht.trans_le hperiod)]

theorem emaPanel_spec (hF : Zeros F) (h : Signed close width period)
    (hlen : close.length = rows * width) (hj : j < width) :
    (emaPanel close width period).length = rows * width ∧
      column nan rows width j (emaPanel close width period) =
        ema (column nan rows width j close) period := by
  have hpos : 0 < width := Nat.lt_of_le_of_lt (Nat.zero_le j) hj
  simp only [emaPanel, panelShape_eq hlen hpos, ema, length_column]
  by_cases hshort : rows < period ∨ period = 0
  · rw [if_pos hshort, if_pos hshort, List.length_replicate, column_replicate]
    exact ⟨hlen, rfl⟩
  · rw [if_neg hshort, if_neg hshort]
    obtain ⟨hperiod, hne⟩ := not_or.mp hshort
    have hperiod := Nat.le_of_not_lt hperiod
    have hperiodPos := Nat.pos_of_ne_zero hne
    have hpred : period - 1 < rows := Nat.sub_one_lt_of_le hperiodPos hperiod
    obtain ⟨hstate, hsum⟩ := windowSum_spec hF h hlen hj hperiodPos hperiod
    generalize addRows close width 0 period (List.replicate width (ofInt 0)) = state
      at hstate hsum ⊢
    have hseed : (state.map (· / ofInt period)).getD j nan =
        sum ((column nan rows width j close).take period) / ofInt period := by
      rw [getD_map_of_lt (hstate ▸ hj), ← hsum]
    have hout : (List.replicate close.length (nan : F)).length = rows * width :=
      List.length_replicate.trans hlen
    have hmeans : (state.map (· / ofInt period)).length = width := by rw [List.length_map, hstate]
    have hcopy : (copyFromSlice nan ((period - 1) * width) (state.map (· / ofInt period))
        (List.replicate close.length nan)).length = rows * width := by
      rw [length_copyFromSlice, hout]
    obtain ⟨hlength, hloop⟩ := column_loop_list
      (fun t name prev ↦ (get close (t * width + name) - prev) *
        (ofInt 2 / (ofInt period + ofInt 1)) + prev)
      (fun t name prev ↦ (get close (t * width + name) - prev) *
        (ofInt 2 / (ofInt period + ofInt 1)) + prev)
      hj hperiod (Nat.le_refl rows) hmeans hcopy
    refine ⟨hlength, (congrArg Prod.snd hloop).trans ?_⟩
    rw [column_copyFromSlice hout hmeans hj hpred, column_replicate, hseed]
    -- the accumulator is what the last row shows
    refine congrArg Prod.snd (forRange_rel (R := fun t y out ↦
      y = (get out (t - 1), out) ∧ out.length = rows) hperiod ⟨?_, ?_⟩ ?_).1
    · exact Prod.ext (getD_set_own (by rwa [List.length_replicate]) _).symm rfl
    · rw [List.length_set, List.length_replicate]
    · rintro t _ out - ht ⟨rfl, hlen⟩
      refine ⟨?_, by rw [List.length_set, hlen]⟩
      rw [Nat.add_sub_cancel, get_column ht]
      exact Prod.ext (getD_set_own (hlen ▸ ht) _).symm rfl

theorem smaPanel_spec (hF : Zeros F) (h : Signed close width period)
    (hlen : close.length = rows * width) (hj : j < width) :
    (smaPanel close width period).length = rows * width ∧
      column nan rows width j (smaPanel close width period) =
        sma (column nan rows width j close) period := by
  have hpos : 0 < width := Nat.lt_of_le_of_lt (Nat.zero_le j) hj
  simp only [smaPanel, panelShape_eq hlen hpos, sma, length_column]
  by_cases hshort : rows < period ∨ period = 0
  · rw [if_pos hshort, if_pos hshort, List.length_replicate, column_replicate]
    exact ⟨hlen, rfl⟩
  · rw [if_neg hshort, if_neg hshort]
    obtain ⟨hperiod, hne⟩ := not_or.mp hshort
    have hperiod := Nat.le_of_not_lt hperiod
    have hperiodPos := Nat.pos_of_ne_zero hne
    have hpred : period - 1 < rows := Nat.sub_one_lt_of_le hperiodPos hperiod
    obtain ⟨hstate, hsum⟩ := windowSum_spec hF h hlen hj hperiodPos hperiod
    generalize addRows close width 0 period (List.replicate width (ofInt 0)) = state
      at hstate hsum ⊢
    have hout : (List.replicate close.length (nan : F)).length = rows * width :=
      List.length_replicate.trans hlen
    obtain ⟨hlength, hloop⟩ := column_loop_list
      (fun t name s ↦ s + (get close (t * width + name) - get close ((t - period) * width + name)))
      (fun t name s ↦ (s + (get close (t * width + name) -
        get close ((t - period) * width + name))) / ofInt period)
      hj hperiod (Nat.le_refl rows) hstate ((length_row _ _ _ _).trans hout)
    refine ⟨hlength, (congrArg Prod.snd hloop).trans ?_⟩
    rw [column_row hout hj hpred, column_replicate]
    refine congrArg Prod.snd (forRange_rel (R := fun _ y y' ↦ y = y') hperiod ?_ ?_)
    · exact congrArg₂ Prod.mk hsum (by rw [hsum])
    · rintro t y _ - ht rfl
      rw [get_column ht, get_column ((Nat.sub_le t period).trans_lt ht)]

theorem length_ema (values : List F) : (ema values period).length = values.length := by
  rw [ema]
  split_ifs
  · rw [List.length_replicate]
  · exact forRange_keeps (I := fun out : List F ↦ out.length = values.length)
      (by rw [List.length_set, List.length_replicate]) fun _ _ h ↦ by rw [List.length_set, h]

theorem length_sma (values : List F) : (sma values period).length = values.length := by
  rw [sma]
  split_ifs
  · rw [List.length_replicate]
  · exact forRange_keeps (I := fun x : F × List F ↦ x.2.length = values.length)
      (by rw [List.length_set, List.length_replicate]) fun _ _ h ↦ by rw [List.length_set, h]

/-- A panel whose columns are computed as they would be alone is the one computed column by
column. -/
theorem eq_panelByColumn {f : List F → List F} {panel : List F}
    (hf : ∀ c, (f c).length = c.length) (hlen : close.length = rows * width) (hpos : 0 < width)
    (hpanel : ∀ j < width, panel.length = rows * width ∧
      column nan rows width j panel = f (column nan rows width j close)) :
    panel = panelByColumn f close width := by
  have hout : (List.replicate close.length (nan : F)).length = rows * width :=
    List.length_replicate.trans hlen
  simp only [panelByColumn, panelShape_eq hlen hpos]
  refine eq_of_columns (d := nan) (hpanel 0 hpos).1 (length_columnwise.trans hout) fun j hj ↦ ?_
  rw [(hpanel j hj).2, column_columnwise hf hout hj]

end Columns

/-! ## Row by row and column by column -/

section Panels

variable {F : Type} [F64Sign F] {close : List F} {nNames period : Nat}

/-- The one-pass EMA of a panel is the EMA of each of its columns. -/
theorem emaPanel_eq_byColumn (hF : Zeros F) (h : Signed close nNames period) :
    emaPanel close nNames period = emaPanelByColumn close nNames period := by
  rcases panelShape_cases close nNames with hshape | ⟨rows, hpos, hlen, -⟩
  · simp only [emaPanel, emaPanelByColumn, panelByColumn, hshape]
  · exact eq_panelByColumn length_ema hlen hpos fun j hj ↦ emaPanel_spec hF h hlen hj

/-- The one-pass SMA of a panel is the SMA of each of its columns. -/
theorem smaPanel_eq_byColumn (hF : Zeros F) (h : Signed close nNames period) :
    smaPanel close nNames period = smaPanelByColumn close nNames period := by
  rcases panelShape_cases close nNames with hshape | ⟨rows, hpos, hlen, -⟩
  · simp only [smaPanel, smaPanelByColumn, panelByColumn, hshape]
  · exact eq_panelByColumn length_sma hlen hpos fun j hj ↦ smaPanel_spec hF h hlen hj

end Panels

/-! ## Two names -/

/-- The closes of two names in four periods. -/
def twoNames : List Float.Model := [1, 10, 2, 20, 3, 30, 4, 40].map ofInt

theorem signed_twoNames : Signed twoNames 2 2 := by
  intro _ _ j hj
  refine ⟨0, Nat.zero_lt_two, ?_⟩
  match j, hj with
  | 0, _ => rfl
  | 1, _ => rfl

theorem emaPanel_eq_byColumn_two :
    (emaPanel twoNames 2 2).map toI64 = [0, 0, 1, 15, 2, 25, 3, 35] ∧
      emaPanel twoNames 2 2 = emaPanelByColumn twoNames 2 2 :=
  ⟨by decide +kernel, emaPanel_eq_byColumn Binary64.zeros signed_twoNames⟩

theorem smaPanel_eq_byColumn_two :
    (smaPanel twoNames 2 2).map toI64 = [0, 0, 1, 15, 2, 25, 3, 35] ∧
      smaPanel twoNames 2 2 = smaPanelByColumn twoNames 2 2 :=
  ⟨by decide +kernel, smaPanel_eq_byColumn Binary64.zeros signed_twoNames⟩

/-- A negative zero alone in its window: only the sum of the standard library keeps its sign. -/
example : emaPanel [(negZero : Float.Model)] 1 1 ≠ emaPanelByColumn [negZero] 1 1 := by
  decide +kernel

end Indicators

end Nanobook
