import Mathlib.Data.List.GetD
import Mathlib.Data.Nat.Basic

/-!
# Panels

Series side by side in one list, row by row: the value of column `j` at time `t` is at
`t * width + j`.  A loop over the rows that goes through the columns of each row, and at each column
touches nothing but that column, does to a column what a loop over its values would do.
-/

namespace Nanobook.Panel

universe u v

variable {X : Type u} {Y : Type v}

/-! ## Loops -/

/-- `for i in a..b`. -/
def forRange (a b : Nat) (body : Nat → X → X) (x : X) : X :=
  (List.range' a (b - a)).foldl (fun x i ↦ body i x) x

variable {a b : Nat} {f body : Nat → X → X} {g : Nat → Y → Y} {x : X} {y : Y}

theorem forRange_of_le (h : b ≤ a) : forRange a b f x = x := by
  rw [forRange, Nat.sub_eq_zero_of_le h]
  rfl

theorem forRange_succ (h : a ≤ b) : forRange a (b + 1) f x = f b (forRange a b f x) := by
  rw [forRange, Nat.succ_sub h, List.range'_concat, List.foldl_append, Nat.one_mul,
    Nat.add_sub_cancel' h]
  rfl

/-- One loop after the other. -/
theorem forRange_split {c : Nat} (hab : a ≤ b) (hbc : b ≤ c) :
    forRange a c f x = forRange b c f (forRange a b f x) := by
  induction c, hbc using Nat.le_induction with
  | base => rw [forRange_of_le (Nat.le_refl b)]
  | succ c hbc ih => rw [forRange_succ (Nat.le_trans hab hbc), forRange_succ hbc, ih]

/-- What each pass keeps holds at the end. -/
theorem forRange_invariant {I : Nat → X → Prop} (hab : a ≤ b) (hx : I a x)
    (hpass : ∀ i x, a ≤ i → i < b → I i x → I (i + 1) (f i x)) : I b (forRange a b f x) := by
  induction b, hab using Nat.le_induction with
  | base =>
      rw [forRange_of_le (Nat.le_refl a)]
      exact hx
  | succ b hab ih =>
      rw [forRange_succ hab]
      exact hpass b _ hab (Nat.lt_succ_self b)
        (ih fun i x hi hlt ↦ hpass i x hi (Nat.lt_succ_of_lt hlt))

theorem forRange_keeps {I : X → Prop} (hx : I x) (hpass : ∀ i x, I x → I (f i x)) :
    I (forRange a b f x) := by
  rw [forRange]
  induction List.range' a (b - a) generalizing x with
  | nil => exact hx
  | cons i l ih => exact ih (hpass i x hx)

/-- Two loops side by side. -/
theorem forRange_rel {R : Nat → X → Y → Prop} (hab : a ≤ b) (hx : R a x y)
    (hpass : ∀ i x y, a ≤ i → i < b → R i x y → R (i + 1) (f i x) (g i y)) :
    R b (forRange a b f x) (forRange a b g y) := by
  induction b, hab using Nat.le_induction with
  | base =>
      rw [forRange_of_le (Nat.le_refl a), forRange_of_le (Nat.le_refl a)]
      exact hx
  | succ b hab ih =>
      rw [forRange_succ hab, forRange_succ hab]
      exact hpass b _ _ hab (Nat.lt_succ_self b)
        (ih fun i x y hi hlt ↦ hpass i x y hi (Nat.lt_succ_of_lt hlt))

/-- A loop over some of the values of a list. -/
theorem forRange_getD {A : Type v} {h : X → A → X} {l : List A} {d : A} {n : Nat}
    (hn : a + n ≤ l.length) (x : X) :
    forRange a (a + n) (fun i x ↦ h x (l.getD i d)) x = ((l.drop a).take n).foldl h x := by
  induction n with
  | zero => rw [Nat.add_zero, forRange_of_le (Nat.le_refl a), List.take_zero, List.foldl_nil]
  | succ n ih =>
      have hplace : a + n < l.length := hn
      have hlt : n < (l.drop a).length := by
        rw [List.length_drop]
        omega
      rw [← Nat.add_assoc, forRange_succ (Nat.le_add_right a n), ih (Nat.le_of_succ_le hn),
        List.take_succ_eq_append_getElem hlt, List.foldl_append, List.getElem_drop,
        List.getD_eq_getElem l d hplace]
      rfl

/-- A loop whose passes each touch a part of their own changes a part as the pass for it does. -/
theorem forRange_own {V : Type v} (I : X → Prop) (view : X → V) (change : V → V) {j : Nat}
    (hj : j < b) (hx : I x) (hkeep : ∀ i x, i < b → I x → I (body i x))
    (hown : ∀ x, I x → view (body j x) = change (view x))
    (hother : ∀ i x, i < b → i ≠ j → I x → view (body i x) = view x) :
    I (forRange 0 b body x) ∧ view (forRange 0 b body x) = change (view x) := by
  have hloop : ∀ c ≤ b, I (forRange 0 c body x) ∧
      view (forRange 0 c body x) = if j < c then change (view x) else view x := by
    intro c hc
    induction c with
    | zero => exact ⟨hx, rfl⟩
    | succ c ih =>
        obtain ⟨hI, hview⟩ := ih (Nat.le_of_succ_le hc)
        rw [forRange_succ (Nat.zero_le c)]
        refine ⟨hkeep c _ hc hI, ?_⟩
        rcases Nat.lt_trichotomy j c with hlt | rfl | hgt
        · rw [hother c _ hc (Nat.ne_of_gt hlt) hI, hview, if_pos hlt,
            if_pos (Nat.lt_succ_of_lt hlt)]
        · rw [hown _ hI, hview, if_neg (Nat.lt_irrefl j), if_pos (Nat.lt_succ_self j)]
        · rw [hother c _ hc (Nat.ne_of_lt hgt) hI, hview,
            if_neg (Nat.not_lt.mpr (Nat.le_of_lt hgt)), if_neg (Nat.not_lt.mpr hgt)]
  obtain ⟨hI, hview⟩ := hloop b (Nat.le_refl b)
  rw [if_pos hj] at hview
  exact ⟨hI, hview⟩

/-! ## Lists that are written in place -/

variable {A : Type u} {d : A}

theorem getD_set_own {l : List A} {i : Nat} (h : i < l.length) (v : A) :
    (l.set i v).getD i d = v := by
  rw [List.getD_eq_getElem?_getD, List.getElem?_set_self h]
  rfl

theorem getD_set_other {i j : Nat} (h : i ≠ j) (l : List A) (v : A) :
    (l.set i v).getD j d = l.getD j d := by
  rw [List.getD_eq_getElem?_getD, List.getElem?_set_ne h, ← List.getD_eq_getElem?_getD]

theorem getD_map_of_lt {f : A → A} {l : List A} {j : Nat} (h : j < l.length) :
    (l.map f).getD j d = f (l.getD j d) := by
  rw [List.getD_eq_getElem _ d (by rwa [List.length_map]), List.getElem_map,
    List.getD_eq_getElem l d h]

theorem getD_take_drop {l : List A} {n i : Nat} (hi : i < n) :
    ((l.drop a).take n).getD i d = l.getD (a + i) d := by
  rw [List.getD_eq_getElem?_getD, List.getElem?_take_of_lt hi, List.getElem?_drop,
    ← List.getD_eq_getElem?_getD]

/-- Places that are filled from what does not change meanwhile. -/
theorem fill_spec {n : Nat} (v : Nat → A) {l : List A} (hn : n ≤ l.length) :
    (forRange a n (fun i l ↦ l.set i (v i)) l).length = l.length ∧
      ∀ i, (forRange a n (fun i l ↦ l.set i (v i)) l).getD i d =
        if a ≤ i ∧ i < n then v i else l.getD i d := by
  rcases Nat.le_total a n with han | hna
  · refine forRange_invariant (I := fun t (l' : List A) ↦ l'.length = l.length ∧
      ∀ i, l'.getD i d = if a ≤ i ∧ i < t then v i else l.getD i d) han ⟨rfl, fun i ↦ ?_⟩ ?_
    · rw [if_neg fun h ↦ Nat.lt_irrefl a (Nat.lt_of_le_of_lt h.1 h.2)]
    · rintro t l' hat ht ⟨hlen, hget⟩
      refine ⟨by rw [List.length_set, hlen], fun i ↦ ?_⟩
      by_cases hi : t = i
      · subst hi
        rw [getD_set_own (hlen ▸ Nat.lt_of_lt_of_le ht hn), if_pos ⟨hat, Nat.lt_succ_self t⟩]
      · have hlt : i < t + 1 ↔ i < t := by omega
        simp only [getD_set_other hi, hget i, hlt]
  · rw [forRange_of_le hna]
    exact ⟨rfl, fun i ↦ (if_neg fun h ↦
      Nat.lt_irrefl a (Nat.lt_of_le_of_lt h.1 (Nat.lt_of_lt_of_le h.2 hna))).symm⟩

/-! ## Columns -/

/-- A column of a panel with `rows` rows. -/
def column (d : A) (rows width j : Nat) (l : List A) : List A :=
  (List.range rows).map fun t ↦ l.getD (t * width + j) d

variable {rows width i j t : Nat} {l l' : List A}

@[simp] theorem length_column : (column d rows width j l).length = rows := by
  rw [column, List.length_map, List.length_range]

theorem getD_column (ht : t < rows) : (column d rows width j l).getD t d =
    l.getD (t * width + j) d := by
  rw [column, List.getD_eq_getElem?_getD, List.getElem?_map,
    List.getElem?_range ht]
  rfl

/-- Places of a panel are told apart by their row and their column. -/
theorem place_inj {s : Nat} (hi : i < width) (hj : j < width)
    (h : t * width + i = s * width + j) : t = s ∧ i = j := by
  have hcol := congrArg (· % width) h
  simp only [Nat.mul_add_mod_of_lt hi, Nat.mul_add_mod_of_lt hj] at hcol
  subst hcol
  have hpos : 0 < width := Nat.lt_of_le_of_lt (Nat.zero_le i) hi
  exact ⟨Nat.eq_of_mul_eq_mul_right hpos (Nat.add_right_cancel h), rfl⟩

theorem place_lt (ht : t < rows) (hj : j < width) : t * width + j < rows * width :=
  calc t * width + j < t * width + width := Nat.add_lt_add_left hj _
    _ = (t + 1) * width := (Nat.succ_mul t width).symm
    _ ≤ rows * width := Nat.mul_le_mul_right width ht

theorem ext_getD (hlen : l.length = l'.length) (h : ∀ i < l.length, l.getD i d = l'.getD i d) :
    l = l' := by
  refine List.ext_getElem hlen fun i hi hi' ↦ ?_
  have hget := h i hi
  rwa [List.getD_eq_getElem?_getD, List.getD_eq_getElem?_getD, List.getElem?_eq_getElem hi,
    List.getElem?_eq_getElem hi', Option.getD_some, Option.getD_some] at hget

/-- A write to a column, at its time. -/
theorem column_set_own (hlen : l.length = rows * width) (hj : j < width) (ht : t < rows) (v : A) :
    column d rows width j (l.set (t * width + j) v) = (column d rows width j l).set t v := by
  refine ext_getD (d := d) (by simp) fun s hs ↦ ?_
  rw [length_column] at hs
  rw [getD_column hs]
  by_cases hst : t = s
  · subst hst
    rw [getD_set_own (hlen ▸ place_lt ht hj), getD_set_own (by rwa [length_column])]
  · rw [getD_set_other fun h ↦ hst (place_inj hj hj h).1, getD_set_other hst, getD_column hs]

/-- A write to another column. -/
theorem column_set_other (hi : i < width) (hj : j < width) (h : i ≠ j) (t : Nat) (v : A) :
    column d rows width j (l.set (t * width + i) v) = column d rows width j l := by
  refine ext_getD (d := d) (by simp) fun s hs ↦ ?_
  rw [length_column] at hs
  rw [getD_column hs, getD_column hs, getD_set_other fun heq ↦ h (place_inj hi hj heq).2]

/-- A panel is known by its columns. -/
theorem eq_of_columns (hlen : l.length = rows * width) (hlen' : l'.length = rows * width)
    (h : ∀ j < width, column d rows width j l = column d rows width j l') : l = l' := by
  refine ext_getD (d := d) (hlen.trans hlen'.symm) fun i hi ↦ ?_
  rw [hlen] at hi
  have hpos : 0 < width := Nat.pos_of_ne_zero fun h0 ↦ by
    rw [h0, Nat.mul_zero] at hi
    exact Nat.not_lt_zero i hi
  have hplace : i / width * width + i % width = i := Nat.div_add_mod' i width
  have ht : i / width < rows := Nat.div_lt_of_lt_mul (Nat.mul_comm rows width ▸ hi)
  have hcolumn := congrArg (fun c ↦ c.getD (i / width) d) (h (i % width) (Nat.mod_lt i hpos))
  simpa only [getD_column ht, hplace] using hcolumn

theorem column_replicate (n : Nat) :
    column d rows width j (List.replicate n d) = List.replicate rows d := by
  refine ext_getD (d := d) (by simp) fun t ht ↦ ?_
  rw [length_column] at ht
  rw [getD_column ht, List.getD_eq_getElem?_getD, List.getD_eq_getElem?_getD,
    List.getElem?_getD_replicate_default_eq, List.getElem?_getD_replicate_default_eq]

/-! ## One row -/

theorem length_row (start n : Nat) (v : Nat → A) (out : List A) :
    (forRange 0 n (fun i out ↦ out.set (start + i) (v i)) out).length = out.length :=
  forRange_keeps (I := fun l : List A ↦ l.length = out.length) rfl
    fun _ _ h ↦ by rw [List.length_set, h]

/-- A row is written. -/
theorem column_row {out : List A} (hout : out.length = rows * width) (hj : j < width)
    (ht : t < rows) (v : Nat → A) :
    column d rows width j (forRange 0 width (fun i out ↦ out.set (t * width + i) (v i)) out) =
      (column d rows width j out).set t (v j) := by
  refine (forRange_own (fun out : List A ↦ out.length = rows * width)
    (fun out ↦ column d rows width j out) (fun c ↦ c.set t (v j)) hj hout ?_ ?_ ?_).2
  · intro i out _ hlen
    rw [List.length_set, hlen]
  · intro out hlen
    exact column_set_own hlen hj ht _
  · intro i out hi hne _
    exact column_set_other hi hj hne _ _

/-- `out[start..start + src.len()].copy_from_slice(src)`. -/
def copyFromSlice (d : A) (start : Nat) (src out : List A) : List A :=
  forRange 0 src.length (fun i out ↦ out.set (start + i) (src.getD i d)) out

theorem length_copyFromSlice (start : Nat) (src out : List A) :
    (copyFromSlice d start src out).length = out.length := length_row _ _ _ _

theorem column_copyFromSlice {src out : List A} (hout : out.length = rows * width)
    (hsrc : src.length = width) (hj : j < width) (ht : t < rows) :
    column d rows width j (copyFromSlice d (t * width) src out) =
      (column d rows width j out).set t (src.getD j d) := by
  rw [copyFromSlice, hsrc]
  exact column_row hout hj ht fun i ↦ src.getD i d

/-! ## Row by row -/

section Rows

variable {V : Type v} (I : X → Prop) (view : X → V) (put : Nat → Nat → X → X)
  (val : Nat → Nat → X → A) (step : Nat → V → V) (emit : Nat → V → A)

/-- A loop over the rows that only changes a state with a part for each column. -/
theorem state_loop (hj : j < width) (hab : a ≤ b)
    (hkeep : ∀ t i x, i < width → I x → I (put t i x))
    (hown : ∀ t x, a ≤ t → t < b → I x → view (put t j x) = step t (view x))
    (hother : ∀ t i x, i < width → i ≠ j → I x → view (put t i x) = view x) {x : X} (hx : I x) :
    let x' := forRange a b (fun t x ↦ forRange 0 width (put t) x) x
    I x' ∧ view x' = forRange a b step (view x) := by
  refine forRange_rel (R := fun _ x v ↦ I x ∧ view x = v) hab ⟨hx, rfl⟩ ?_
  rintro t x _ hat htb ⟨hI, rfl⟩
  exact forRange_own I view (step t) hj hI (hkeep t) (fun x ↦ hown t x hat htb) (hother t)

/-- A row is written, from the parts of a state that changes with it. -/
theorem row_step (hj : j < width) (ht : t < rows)
    (hkeep : ∀ i x, i < width → I x → I (put t i x))
    (hown : ∀ x, I x → view (put t j x) = step t (view x) ∧ val t j x = emit t (view x))
    (hother : ∀ i x, i < width → i ≠ j → I x → view (put t i x) = view x) {x : X} (hx : I x)
    {out : List A} (hout : out.length = rows * width) :
    let z := forRange 0 width (fun i (z : X × List A) ↦
      (put t i z.1, z.2.set (t * width + i) (val t i z.1))) (x, out)
    (I z.1 ∧ z.2.length = rows * width) ∧
      (view z.1, column d rows width j z.2) =
        (step t (view x), (column d rows width j out).set t (emit t (view x))) := by
  refine forRange_own (fun z : X × List A ↦ I z.1 ∧ z.2.length = rows * width)
    (fun z ↦ (view z.1, column d rows width j z.2))
    (fun y ↦ (step t y.1, y.2.set t (emit t y.1))) hj (x := (x, out)) ⟨hx, hout⟩ ?_ ?_ ?_
  · intro i z hi hz
    exact ⟨hkeep i z.1 hi hz.1, by rw [List.length_set, hz.2]⟩
  · intro z hz
    obtain ⟨hview, hval⟩ := hown z.1 hz.1
    exact Prod.ext hview (hval ▸ column_set_own hz.2 hj ht _)
  · intro i z hi hne hz
    exact Prod.ext (hother i z.1 hi hne hz.1) (column_set_other hi hj hne _ _)

/-- A loop over the rows, with a state that has a part for each column: to a column it is a loop
with that part as its state. -/
theorem column_loop (hj : j < width) (hab : a ≤ b) (hb : b ≤ rows)
    (hkeep : ∀ t i x, i < width → I x → I (put t i x))
    (hown : ∀ t x, I x → view (put t j x) = step t (view x) ∧ val t j x = emit t (view x))
    (hother : ∀ t i x, i < width → i ≠ j → I x → view (put t i x) = view x) {x : X} (hx : I x)
    {out : List A} (hout : out.length = rows * width) :
    let z := forRange a b (fun t z ↦ forRange 0 width (fun i (z : X × List A) ↦
      (put t i z.1, z.2.set (t * width + i) (val t i z.1))) z) (x, out)
    z.2.length = rows * width ∧
      (view z.1, column d rows width j z.2) =
        forRange a b (fun t (y : V × List A) ↦ (step t y.1, y.2.set t (emit t y.1)))
          (view x, column d rows width j out) := by
  have hloop := forRange_rel (a := a) (b := b) (x := (x, out))
    (f := fun t z ↦ forRange 0 width (fun i (z : X × List A) ↦
      (put t i z.1, z.2.set (t * width + i) (val t i z.1))) z)
    (g := fun t (y : V × List A) ↦ (step t y.1, y.2.set t (emit t y.1)))
    (R := fun _ (z : X × List A) y ↦ (I z.1 ∧ z.2.length = rows * width) ∧
      (view z.1, column d rows width j z.2) = y) hab ⟨⟨hx, hout⟩, rfl⟩ ?_
  · exact ⟨hloop.1.2, hloop.2⟩
  · rintro t z _ - ht ⟨⟨hI, hlen⟩, rfl⟩
    exact row_step I view put val step emit hj (Nat.lt_of_lt_of_le ht hb) (hkeep t) (hown t)
      (hother t) hI hlen

/-- The same for a state that is a list with an entry for each column. -/
theorem column_loop_list {S : Type u} {s₀ : S} (step : Nat → Nat → S → S)
    (emit : Nat → Nat → S → A) (hj : j < width) (hab : a ≤ b) (hb : b ≤ rows) {state : List S}
    (hstate : state.length = width) {out : List A} (hout : out.length = rows * width) :
    let z := forRange a b (fun t z ↦ forRange 0 width (fun i (z : List S × List A) ↦
      (z.1.set i (step t i (z.1.getD i s₀)),
        z.2.set (t * width + i) (emit t i (z.1.getD i s₀)))) z) (state, out)
    z.2.length = rows * width ∧
      (z.1.getD j s₀, column d rows width j z.2) =
        forRange a b (fun t (y : S × List A) ↦ (step t j y.1, y.2.set t (emit t j y.1)))
          (state.getD j s₀, column d rows width j out) :=
  column_loop (fun state : List S ↦ state.length = width) (fun state ↦ state.getD j s₀)
    (fun t i state ↦ state.set i (step t i (state.getD i s₀)))
    (fun t i state ↦ emit t i (state.getD i s₀)) (fun t ↦ step t j) (fun t ↦ emit t j) hj hab hb
    (fun t i state _ hlen ↦ by rw [List.length_set, hlen])
    (fun t state hlen ↦ ⟨getD_set_own (hlen ▸ hj) _, rfl⟩)
    (fun t i state _ hne _ ↦ getD_set_other hne _ _) hstate hout

end Rows

/-! ## Column by column -/

/-- Copy a column out, apply `f`, and copy the result in. -/
def columnwise (f : List A → List A) (d zero : A) (rows width : Nat) (l out : List A) : List A :=
  (forRange 0 width (fun j (col, out) ↦
    let col := forRange 0 rows (fun t col ↦ col.set t (l.getD (t * width + j) d)) col
    let result := f col
    (col, forRange 0 rows (fun t out ↦ out.set (t * width + j) (result.getD t d)) out))
    (List.replicate rows zero, out)).2

/-- What was in the copy before is overwritten. -/
theorem copy_eq_column {col : List A} (hcol : col.length = rows) :
    forRange 0 rows (fun t col ↦ col.set t (l.getD (t * width + j) d)) col =
      column d rows width j l := by
  obtain ⟨hlen, hget⟩ := fill_spec (a := 0) (d := d) (fun t ↦ l.getD (t * width + j) d)
    (Nat.le_of_eq hcol.symm)
  refine ext_getD (d := d) (by rw [hlen, hcol, length_column]) fun s hs ↦ ?_
  rw [hlen, hcol] at hs
  rw [hget s, if_pos ⟨Nat.zero_le s, hs⟩, getD_column hs]

theorem length_paste (result out : List A) (i : Nat) :
    (forRange 0 rows (fun t out ↦ out.set (t * width + i) (result.getD t d)) out).length =
      out.length :=
  forRange_keeps (I := fun l : List A ↦ l.length = out.length) rfl
    fun _ _ h ↦ by rw [List.length_set, h]

theorem column_paste_own {result out : List A} (hout : out.length = rows * width) (hj : j < width)
    (hresult : result.length = rows) :
    column d rows width j
      (forRange 0 rows (fun t out ↦ out.set (t * width + j) (result.getD t d)) out) = result := by
  have hloop := forRange_invariant (a := 0) (b := rows) (x := out)
    (f := fun t (out : List A) ↦ out.set (t * width + j) (result.getD t d))
    (I := fun t l ↦ l.length = rows * width ∧
      ∀ s < t, l.getD (s * width + j) d = result.getD s d)
    (Nat.zero_le _) ⟨hout, fun s hs ↦ absurd hs (Nat.not_lt_zero s)⟩ ?_
  · refine ext_getD (d := d) (by rw [length_column, hresult]) fun s hs ↦ ?_
    rw [length_column] at hs
    rw [getD_column hs, hloop.2 s hs]
  · rintro t l - ht ⟨hlen, hget⟩
    refine ⟨by rw [List.length_set, hlen], fun s hs ↦ ?_⟩
    rcases Nat.lt_succ_iff_lt_or_eq.mp hs with hlt | rfl
    · rw [getD_set_other fun h ↦ Nat.ne_of_gt hlt (place_inj hj hj h).1, hget s hlt]
    · rw [getD_set_own (hlen ▸ place_lt ht hj)]

theorem column_paste_other (hi : i < width) (hj : j < width) (h : i ≠ j) (result out : List A) :
    column d rows width j
      (forRange 0 rows (fun t out ↦ out.set (t * width + i) (result.getD t d)) out) =
      column d rows width j out :=
  forRange_keeps (I := fun l ↦ column d rows width j l = column d rows width j out) rfl
    fun t _ hl ↦ by rw [column_set_other hi hj h, hl]

variable {f : List A → List A} {zero : A} {out : List A}

theorem length_columnwise : (columnwise f d zero rows width l out).length = out.length :=
  forRange_keeps (I := fun x : List A × List A ↦ x.2.length = out.length) rfl
    fun _ _ h ↦ (length_paste _ _ _).trans h

/-- Each column is computed alone. -/
theorem column_columnwise (hf : ∀ c, (f c).length = c.length) (hout : out.length = rows * width)
    (hj : j < width) :
    column d rows width j (columnwise f d zero rows width l out) = f (column d rows width j l) := by
  refine (forRange_own (fun x : List A × List A ↦ x.1.length = rows ∧ x.2.length = rows * width)
    (fun x ↦ column d rows width j x.2) (fun _ ↦ f (column d rows width j l)) hj
    ⟨List.length_replicate, hout⟩ ?_ ?_ ?_).2
  · rintro i ⟨col, out⟩ hi ⟨hcol, hout⟩
    refine ⟨?_, (length_paste _ _ _).trans hout⟩
    change (forRange 0 rows _ col).length = rows
    rw [copy_eq_column hcol, length_column]
  · rintro ⟨col, out⟩ ⟨hcol, hout⟩
    simp only [copy_eq_column hcol]
    exact column_paste_own hout hj (by rw [hf, length_column])
  · rintro i ⟨col, out⟩ hi hne -
    exact column_paste_other hi hj hne _ _

end Nanobook.Panel
