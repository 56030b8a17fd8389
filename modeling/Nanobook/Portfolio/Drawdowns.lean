import Nanobook.Ranks

/-!
# Drawdowns

`drawdown_series` of `portfolio/metrics.rs`: one pass over an equity curve that carries the highest
value so far and, while the curve is below it, how far it has been below.  The events it returns are
the stretches below a positive record, each of them whole and reported once.
-/

namespace Nanobook.Drawdowns

open F64 Indicators

variable {F : Type} [F64Sign F]

structure DrawdownEvent (F : Type) where
  drawdownPct : F
  underwaterPeriods : Nat
  peakIndex : Nat
  troughIndex : Nat
  recoveryIndex : Option Nat

/-- What the pass carries. -/
structure Scan (F : Type) where
  peakIndex : Nat
  peakValue : F
  activeStart : Option Nat
  troughIndex : Nat
  maxDd : F
  events : List (DrawdownEvent F)

namespace Scan

/-- The event that ends before a bar, if one is going on. -/
def closed (s : Scan F) (i : Nat) (recoveryIndex : Option Nat) : List (DrawdownEvent F) :=
  (s.activeStart.map fun start ↦
    ⟨s.maxDd, i - start, s.peakIndex, s.troughIndex, recoveryIndex⟩).toList

/-- The body of the loop. -/
def step (s : Scan F) (value : F) (i : Nat) : Scan F :=
  if le s.peakValue value then
    { peakIndex := i
      peakValue := value
      activeStart := none
      troughIndex := i
      maxDd := ofInt 0
      events := s.events ++ s.closed i (some i) }
  else if le s.peakValue (ofInt 0) then s
  else
    let dd := (s.peakValue - value) / s.peakValue
    match s.activeStart with
    | none => { s with activeStart := some i, troughIndex := i, maxDd := dd }
    | some _ => if lt s.maxDd dd then { s with troughIndex := i, maxDd := dd } else s

def start (first : F) : Scan F := ⟨0, first, none, 0, ofInt 0, []⟩

end Scan

/-- The pass over the first bars. -/
def scan (equity : List F) : Nat → Scan F
  | 0 => .start (get equity 0)
  | i + 1 => (scan equity i).step (get equity (i + 1)) (i + 1)

def drawdownSeries (equity : List F) : List (DrawdownEvent F) :=
  if equity.isEmpty then []
  else
    let s := scan equity (equity.length - 1)
    s.events ++ s.closed equity.length none

/-! ## Stretches below a record -/

section Records

variable (equity : List F)

/-- The last bar up to `i` that is not below the record before it. -/
def record : Nat → Nat
  | 0 => 0
  | i + 1 => if le (get equity (record i)) (get equity (i + 1)) then i + 1 else record i

/-- A bar below a record, unless the record is zero or negative. -/
def Underwater (i : Nat) : Prop :=
  record equity i ≠ i ∧ le (get equity (record equity i)) (ofInt 0) = false

instance (i : Nat) : Decidable (Underwater equity i) :=
  inferInstanceAs (Decidable (_ ∧ _))

/-- How far the curve is below a bar. -/
def drawdownAt (peak i : Nat) : F :=
  (get equity peak - get equity i) / get equity peak

/-- A bar is in the stretch of an event. -/
def DrawdownEvent.Contains (e : DrawdownEvent F) (i : Nat) : Prop :=
  e.peakIndex < i ∧ i ≤ e.peakIndex + e.underwaterPeriods

/-- The event is about the bars below one record, up to the next record or the end, and its depth is
that of its trough. -/
structure IsEvent (e : DrawdownEvent F) : Prop where
  below : ∀ i, e.Contains i → record equity i = e.peakIndex
  trough : e.Contains e.troughIndex
  depth : e.drawdownPct = drawdownAt equity e.peakIndex e.troughIndex
  recovery : ∀ i, e.recoveryIndex = some i →
    i = e.peakIndex + e.underwaterPeriods + 1 ∧ record equity i = i

end Records

variable {equity : List F} {n i : Nat} {s : Scan F}

theorem record_le (i : Nat) : record equity i ≤ i := by
  induction i with
  | zero => exact le_rfl
  | succ i ih =>
      rw [record]
      split_ifs
      · exact le_rfl
      · exact ih.trans i.le_succ

/-! ## The pass -/

/-- A bar is in an event that has ended, or in the one that is going on. -/
def Scan.Covers (s : Scan F) (i : Nat) : Prop :=
  (∃ e ∈ s.events, e.Contains i) ∨ s.activeStart.isSome = true ∧ s.peakIndex < i

/-- What the pass knows after bar `n`. -/
structure Scanned (equity : List F) (n : Nat) (s : Scan F) : Prop where
  peakIndex : s.peakIndex = record equity n
  peakValue : s.peakValue = get equity s.peakIndex
  below : ∀ i, s.peakIndex < i → i ≤ n → record equity i = s.peakIndex
  idle : s.activeStart = none → s.peakIndex = n ∨ le s.peakValue (ofInt 0) = true
  active : ∀ start, s.activeStart = some start → start = s.peakIndex + 1 ∧
    le s.peakValue (ofInt 0) = false ∧ s.peakIndex < s.troughIndex ∧ s.troughIndex ≤ n ∧
    s.maxDd = drawdownAt equity s.peakIndex s.troughIndex
  events : ∀ e ∈ s.events, IsEvent equity e ∧
    e.recoveryIndex = some (e.peakIndex + e.underwaterPeriods + 1) ∧
    e.peakIndex + e.underwaterPeriods < s.peakIndex
  apart : s.events.Pairwise fun e e' ↦ e.peakIndex + e.underwaterPeriods < e'.peakIndex
  covers : ∀ i ≤ n, Underwater equity i ↔ s.Covers i

theorem scanned_start : Scanned equity 0 (.start (get equity 0)) where
  peakIndex := rfl
  peakValue := rfl
  below i hi hi' := absurd hi (not_lt.mpr hi')
  idle _ := .inl rfl
  active start h := by cases h
  events e he := absurd he List.not_mem_nil
  apart := .nil
  covers i hi := by
    obtain rfl := Nat.le_zero.mp hi
    refine iff_of_false (fun h ↦ h.1 rfl) ?_
    rintro (⟨e, he, -⟩ | ⟨h, -⟩)
    · exact absurd he List.not_mem_nil
    · cases h

theorem Scanned.peakIndex_le (h : Scanned equity n s) : s.peakIndex ≤ n :=
  h.peakIndex ▸ record_le n

theorem Scanned.depth_eq (h : Scanned equity n s) (i : Nat) :
    (s.peakValue - get equity i) / s.peakValue = drawdownAt equity s.peakIndex i := by
  rw [drawdownAt, ← h.peakValue]

/-- Nothing is below a record that is not positive. -/
theorem Scanned.activeStart_eq_none (h : Scanned equity n s)
    (hzero : le s.peakValue (ofInt 0) = true) : s.activeStart = none := by
  cases hstart : s.activeStart with
  | none => rfl
  | some start =>
      obtain ⟨-, hpositive, -⟩ := h.active start hstart
      rw [hzero] at hpositive
      cases hpositive

/-- The event that a record, or the end of the curve, puts an end to. -/
theorem Scanned.closed (h : Scanned equity n s) {recoveryIndex : Option Nat}
    (hrecovery : ∀ i, recoveryIndex = some i → i = n + 1 ∧ record equity i = i)
    {e : DrawdownEvent F} (he : e ∈ s.closed (n + 1) recoveryIndex) :
    s.activeStart.isSome = true ∧ IsEvent equity e ∧ e.recoveryIndex = recoveryIndex ∧
      e.peakIndex = s.peakIndex ∧ e.peakIndex + e.underwaterPeriods = n := by
  obtain ⟨start, hstart, rfl⟩ := Option.map_eq_some_iff.mp (Option.mem_toList.mp he)
  obtain ⟨rfl, -, htrough, hn, hdepth⟩ := h.active start hstart
  have hend : s.peakIndex + (n + 1 - (s.peakIndex + 1)) = n := by omega
  refine ⟨by rw [hstart]; rfl, ⟨?_, ?_, hdepth, ?_⟩, rfl, rfl, hend⟩
  · rintro i ⟨hi, hi'⟩
    exact h.below i hi (hi'.trans_eq hend)
  · exact ⟨htrough, hn.trans_eq hend.symm⟩
  · intro i hi
    obtain ⟨rfl, hrecord⟩ := hrecovery i hi
    exact ⟨congrArg (· + 1) hend.symm, hrecord⟩

omit [F64Sign F] in
theorem closed_ne_nil (h : s.activeStart.isSome = true) (recoveryIndex : Option Nat) :
    ∃ e, e ∈ s.closed i recoveryIndex := by
  obtain ⟨start, hstart⟩ := Option.isSome_iff_exists.mp h
  exact ⟨_, Option.mem_toList.mpr (Option.map_eq_some_iff.mpr ⟨start, hstart, rfl⟩)⟩

/-- With the event that is going on, the events are those of all bars so far. -/
theorem Scanned.exists_contains_iff (h : Scanned equity n s) {recoveryIndex : Option Nat}
    (hrecovery : ∀ i, recoveryIndex = some i → i = n + 1 ∧ record equity i = i) (hi : i ≤ n) :
    (∃ e ∈ s.events ++ s.closed (n + 1) recoveryIndex, e.Contains i) ↔ Underwater equity i := by
  rw [h.covers i hi]
  constructor
  · rintro ⟨e, he, hcontains⟩
    rcases List.mem_append.mp he with he | he
    · exact .inl ⟨e, he, hcontains⟩
    · obtain ⟨hactive, -, -, hpeak, -⟩ := h.closed hrecovery he
      exact .inr ⟨hactive, hpeak ▸ hcontains.1⟩
  · rintro (⟨e, he, hcontains⟩ | ⟨hactive, hpeak⟩)
    · exact ⟨e, List.mem_append_left _ he, hcontains⟩
    · obtain ⟨e, he⟩ := closed_ne_nil (i := n + 1) hactive recoveryIndex
      obtain ⟨-, -, -, hpeak', hend⟩ := h.closed hrecovery he
      exact ⟨e, List.mem_append_right _ he, hpeak'.trans_lt hpeak, hi.trans_eq hend.symm⟩

theorem Scanned.pairwise_closed (h : Scanned equity n s) {recoveryIndex : Option Nat}
    (hrecovery : ∀ i, recoveryIndex = some i → i = n + 1 ∧ record equity i = i) :
    (s.events ++ s.closed (n + 1) recoveryIndex).Pairwise fun e e' ↦
      e.peakIndex + e.underwaterPeriods < e'.peakIndex := by
  rw [List.pairwise_append]
  refine ⟨h.apart, ?_, fun e he e' he' ↦ ?_⟩
  · rw [Scan.closed]
    cases s.activeStart with
    | none => exact .nil
    | some start => exact List.pairwise_singleton _ _
  · obtain ⟨-, -, -, hpeak, -⟩ := h.closed hrecovery he'
    exact (h.events e he).2.2.trans_eq hpeak.symm

/-- A bar that is no longer below the record is the next one. -/
theorem Scanned.step_record (h : Scanned equity n s)
    (hvalue : le s.peakValue (get equity (n + 1)) = true) :
    Scanned equity (n + 1) (s.step (get equity (n + 1)) (n + 1)) := by
  have hrecord : record equity (n + 1) = n + 1 := by
    rw [record, ← h.peakIndex, ← h.peakValue, if_pos hvalue]
  have hrecovery : ∀ i, some (n + 1) = some i → i = n + 1 ∧ record equity i = i := by
    rintro i ⟨⟩
    exact ⟨rfl, hrecord⟩
  have hevents : ∀ e ∈ s.events ++ s.closed (n + 1) (some (n + 1)), IsEvent equity e ∧
      e.recoveryIndex = some (e.peakIndex + e.underwaterPeriods + 1) ∧
      e.peakIndex + e.underwaterPeriods < n + 1 := by
    intro e he
    rcases List.mem_append.mp he with he | he
    · obtain ⟨hevent, hrecovers, hbefore⟩ := h.events e he
      exact ⟨hevent, hrecovers, hbefore.trans_le (h.peakIndex_le.trans n.le_succ)⟩
    · obtain ⟨-, hevent, hrecovers, -, hend⟩ := h.closed hrecovery he
      exact ⟨hevent, by rw [hrecovers, hend], hend.trans_lt n.lt_succ_self⟩
  rw [Scan.step, if_pos hvalue]
  constructor
  · exact hrecord.symm
  · rfl
  · exact fun i hi hi' ↦ absurd hi (not_lt.mpr hi')
  · exact fun _ ↦ .inl rfl
  · exact fun start hstart ↦ by cases hstart
  · exact hevents
  · exact h.pairwise_closed hrecovery
  · intro i hi
    have hcovers : Scan.Covers ⟨n + 1, get equity (n + 1), none, n + 1, ofInt 0,
        s.events ++ s.closed (n + 1) (some (n + 1))⟩ i ↔
          ∃ e ∈ s.events ++ s.closed (n + 1) (some (n + 1)), e.Contains i :=
      or_iff_left fun hactive ↦ Bool.false_ne_true hactive.1
    rw [hcovers]
    rcases Nat.le_succ_iff.mp hi with hi | rfl
    · exact (h.exists_contains_iff hrecovery hi).symm
    · refine iff_of_false (fun hunder ↦ hunder.1 hrecord) ?_
      rintro ⟨e, he, -, hend⟩
      exact absurd hend (not_le.mpr (hevents e he).2.2)

/-- A bar below the record belongs to the stretch that is going on, or begins it, if the record is
positive. -/
theorem Scanned.step_below (h : Scanned equity n s) {s' : Scan F}
    (hvalue : le s.peakValue (get equity (n + 1)) = false)
    (hpeak : s'.peakIndex = s.peakIndex) (hpeakValue : s'.peakValue = s.peakValue)
    (hevents : s'.events = s.events)
    (hidle : s'.activeStart = none → le s.peakValue (ofInt 0) = true)
    (hactive : ∀ start, s'.activeStart = some start → start = s.peakIndex + 1 ∧
      le s.peakValue (ofInt 0) = false ∧ s.peakIndex < s'.troughIndex ∧ s'.troughIndex ≤ n + 1 ∧
      s'.maxDd = drawdownAt equity s.peakIndex s'.troughIndex)
    (hkept : s.activeStart.isSome = true → s'.activeStart.isSome = true) :
    Scanned equity (n + 1) s' := by
  have hrecord : record equity (n + 1) = s.peakIndex := by
    rw [record, ← h.peakIndex, ← h.peakValue, if_neg (Bool.eq_false_iff.mp hvalue)]
  have hbefore : s.peakIndex < n + 1 := Nat.lt_succ_of_le h.peakIndex_le
  constructor
  · exact hpeak.trans hrecord.symm
  · rw [hpeakValue, hpeak]
    exact h.peakValue
  · intro i hi hi'
    rw [hpeak] at hi ⊢
    rcases Nat.le_succ_iff.mp hi' with hi' | rfl
    · exact h.below i hi hi'
    · exact hrecord
  · intro hnone
    exact .inr (hpeakValue ▸ hidle hnone)
  · intro start hstart
    rw [hpeak, hpeakValue]
    exact hactive start hstart
  · rw [hevents, hpeak]
    exact h.events
  · rw [hevents]
    exact h.apart
  · intro i hi
    rcases Nat.le_succ_iff.mp hi with hi | rfl
    · rw [h.covers i hi, Scan.Covers, Scan.Covers, hevents, hpeak]
      refine or_congr_right (and_congr_left fun hlt ↦ ⟨hkept, fun hactive' ↦ ?_⟩)
      -- it had begun, for there is a bar behind the record already
      obtain ⟨start, hstart⟩ := Option.isSome_iff_exists.mp hactive'
      obtain ⟨-, hpositive, -⟩ := hactive start hstart
      by_contra hnone
      rcases h.idle (Option.not_isSome_iff_eq_none.mp hnone) with heq | hzero
      · exact absurd (heq ▸ hlt) (not_lt.mpr hi)
      · rw [hpositive] at hzero
        cases hzero
    · have hunder : Underwater equity (n + 1) ↔ le s.peakValue (ofInt 0) = false := by
        rw [Underwater, hrecord, ← h.peakValue]
        exact and_iff_right hbefore.ne
      rw [hunder]
      constructor
      · intro hpositive
        refine .inr ⟨?_, hpeak.trans_lt hbefore⟩
        by_contra hnone
        rw [hidle (Option.not_isSome_iff_eq_none.mp hnone)] at hpositive
        cases hpositive
      · rintro (⟨e, he, -, hend⟩ | ⟨hsome, -⟩)
        · have hended := (h.events e (hevents ▸ he)).2.2
          exact absurd hend (not_le.mpr (hended.trans hbefore))
        · obtain ⟨start, hstart⟩ := Option.isSome_iff_exists.mp hsome
          exact (hactive start hstart).2.1

theorem Scanned.step (h : Scanned equity n s) :
    Scanned equity (n + 1) (s.step (get equity (n + 1)) (n + 1)) := by
  by_cases hvalue : le s.peakValue (get equity (n + 1)) = true
  · exact h.step_record hvalue
  have hbelow := Bool.eq_false_iff.mpr hvalue
  have hpeak : s.peakIndex < n + 1 := Nat.lt_succ_of_le h.peakIndex_le
  rw [Scan.step, if_neg hvalue]
  by_cases hzero : le s.peakValue (ofInt 0) = true
  · rw [if_pos hzero]
    refine h.step_below hbelow rfl rfl rfl (fun _ ↦ hzero) (fun start hstart ↦ ?_) id
    rw [h.activeStart_eq_none hzero] at hstart
    cases hstart
  rw [if_neg hzero]
  have hpositive := Bool.eq_false_iff.mpr hzero
  cases hstart : s.activeStart with
  | none =>
      have hlast : s.peakIndex = n := (h.idle hstart).resolve_right hzero
      refine h.step_below hbelow rfl rfl rfl (fun hnone ↦ by cases hnone) ?_ fun _ ↦ rfl
      rintro start ⟨⟩
      exact ⟨congrArg (· + 1) hlast.symm, hpositive, hpeak, le_rfl, h.depth_eq (n + 1)⟩
  | some start =>
      obtain ⟨hfirst, -, htrough, hn, hmax⟩ := h.active start hstart
      have hsome : s.activeStart ≠ none := by
        rw [hstart]
        exact Option.some_ne_none start
      dsimp only
      split_ifs
      · refine h.step_below hbelow rfl rfl rfl (fun hnone ↦ by cases hnone) ?_ fun _ ↦ rfl
        rintro start' ⟨⟩
        exact ⟨hfirst, hpositive, hpeak, le_rfl, h.depth_eq (n + 1)⟩
      · refine h.step_below hbelow rfl rfl rfl (fun hnone ↦ absurd hnone hsome) ?_ id
        intro start' hstart'
        rw [hstart] at hstart'
        cases hstart'
        exact ⟨hfirst, hpositive, htrough, hn.trans n.le_succ, hmax⟩

/-- What the pass knows, it knows after every bar. -/
theorem scanned (equity : List F) (n : Nat) : Scanned equity n (scan equity n) := by
  induction n with
  | zero => exact scanned_start
  | succ n ih => exact ih.step

/-! ## The events -/

/-- The events of an equity curve come one after the other; each is about the bars below one record,
up to the next one or to the end of the curve; and the bars in one of them are those below a
positive record. -/
theorem drawdownSeries_events (equity : List F) :
    (∀ e ∈ drawdownSeries equity, IsEvent equity e ∧
      (e.recoveryIndex = none → e.peakIndex + e.underwaterPeriods + 1 = equity.length)) ∧
    ((drawdownSeries equity).Pairwise fun e e' ↦
      e.peakIndex + e.underwaterPeriods < e'.peakIndex) ∧
    ∀ i < equity.length, Underwater equity i ↔ ∃ e ∈ drawdownSeries equity, e.Contains i := by
  cases equity with
  | nil => exact ⟨fun e he ↦ absurd he List.not_mem_nil, .nil, fun i hi ↦ absurd hi i.not_lt_zero⟩
  | cons first rest =>
      set equity := first :: rest with hequity
      have hscanned := scanned equity rest.length
      have hrecovery : ∀ i, (none : Option Nat) = some i →
          i = rest.length + 1 ∧ record equity i = i := fun i hi ↦ by cases hi
      have hseries : drawdownSeries equity = (scan equity rest.length).events ++
          (scan equity rest.length).closed (rest.length + 1) none := rfl
      rw [hseries]
      refine ⟨fun e he ↦ ?_, hscanned.pairwise_closed hrecovery, fun i hi ↦ ?_⟩
      · rcases List.mem_append.mp he with he | he
        · obtain ⟨hevent, hrecovers, -⟩ := hscanned.events e he
          exact ⟨hevent, fun hnone ↦ by rw [hrecovers] at hnone; cases hnone⟩
        · obtain ⟨-, hevent, -, -, hend⟩ := hscanned.closed hrecovery he
          exact ⟨hevent, fun _ ↦ congrArg (· + 1) hend⟩
      · exact (hscanned.exists_contains_iff hrecovery (Nat.le_of_lt_succ hi)).symm

/-! ## How deep they are -/

/-- Nothing in a stretch so far has been deeper than what is recorded. -/
structure Deepest (equity : List F) (n : Nat) (s : Scan F) : Prop where
  active : s.activeStart.isSome = true → ∀ i, s.peakIndex < i → i ≤ n →
    lt s.maxDd (drawdownAt equity s.peakIndex i) = false
  events : ∀ e ∈ s.events, ∀ i, e.Contains i →
    lt e.drawdownPct (drawdownAt equity e.peakIndex i) = false

section Deepest

variable {K : Type} [LinearOrder K] {key : F → K}

theorem not_lt_self (hkey : Stats.Compares key) {x : F} (hx : isNaN x = false) :
    lt x x = false := by
  rw [← Bool.not_eq_true, hkey.lt_iff x x hx hx]
  exact lt_irrefl _

/-- The event that ends is as deep as what is recorded. -/
theorem Deepest.closed (h : Deepest equity n s) (hs : Scanned equity n s) {m : Nat}
    {recoveryIndex : Option Nat} (hm : m = n + 1) :
    ∀ e ∈ s.events ++ s.closed m recoveryIndex, ∀ i, e.Contains i →
      lt e.drawdownPct (drawdownAt equity e.peakIndex i) = false := by
  subst hm
  intro e he i hi
  rcases List.mem_append.mp he with he | he
  · exact h.events e he i hi
  · obtain ⟨start, hstart, rfl⟩ := Option.map_eq_some_iff.mp (Option.mem_toList.mp he)
    obtain ⟨rfl, -, -⟩ := hs.active start hstart
    refine h.active (by rw [hstart]; rfl) i hi.1 (hi.2.trans ?_)
    show s.peakIndex + (n + 1 - (s.peakIndex + 1)) ≤ n
    have hpeak : s.peakIndex ≤ n := hs.peakIndex_le
    omega

/-- In a stretch that is going on, the drawdowns are numbers if they are below every record. -/
theorem Scanned.isNaN_drawdownAt (h : Scanned equity n s) (hactive : s.activeStart.isSome = true)
    (hnumber : ∀ i ≤ n, Underwater equity i →
      isNaN (drawdownAt equity (record equity i) i) = false)
    (hi : s.peakIndex < i) (hn : i ≤ n) : isNaN (drawdownAt equity s.peakIndex i) = false := by
  have hunder : Underwater equity i := (h.covers i hn).mpr (.inr ⟨hactive, hi⟩)
  have hrecord := hnumber i hn hunder
  rwa [h.below i hi hn] at hrecord

theorem Deepest.step (hkey : Stats.Compares key) (hs : Scanned equity n s)
    (hnumber : ∀ i ≤ n + 1, Underwater equity i →
      isNaN (drawdownAt equity (record equity i) i) = false)
    (h : Deepest equity n s) :
    Deepest equity (n + 1) (s.step (get equity (n + 1)) (n + 1)) := by
  have hs' := hs.step
  have hpeak : s.peakIndex < n + 1 := Nat.lt_succ_of_le hs.peakIndex_le
  have hdepth := hs.depth_eq (n + 1)
  rw [Scan.step] at hs' ⊢
  by_cases hvalue : le s.peakValue (get equity (n + 1)) = true
  · rw [if_pos hvalue]
    exact ⟨fun hactive ↦ absurd hactive Bool.false_ne_true, h.closed hs rfl⟩
  rw [if_neg hvalue] at hs' ⊢
  by_cases hzero : le s.peakValue (ofInt 0) = true
  · rw [if_pos hzero]
    refine ⟨fun hactive ↦ ?_, h.events⟩
    rw [hs.activeStart_eq_none hzero] at hactive
    cases hactive
  rw [if_neg hzero] at hs' ⊢
  cases hstart : s.activeStart with
  | none =>
      simp only [hstart] at hs' ⊢
      have hlast : s.peakIndex = n := (hs.idle hstart).resolve_right hzero
      refine ⟨fun _ i hi hn ↦ ?_, h.events⟩
      obtain rfl : i = n + 1 := hn.antisymm (hlast ▸ hi)
      have hnan := hs'.isNaN_drawdownAt rfl hnumber hpeak le_rfl
      show lt _ (drawdownAt equity s.peakIndex (n + 1)) = false
      rw [hdepth]
      exact not_lt_self hkey hnan
  | some start =>
      have hactive : s.activeStart.isSome = true := by
        rw [hstart]
        rfl
      obtain ⟨-, -, htrough, hn, hmax⟩ := hs.active start hstart
      have hnumbers : ∀ i, s.peakIndex < i → i ≤ n →
          isNaN (drawdownAt equity s.peakIndex i) = false := fun i hi hin ↦
        hs.isNaN_drawdownAt hactive (fun j hj ↦ hnumber j (hj.trans n.le_succ)) hi hin
      have hnmax : isNaN s.maxDd = false := hmax ▸ hnumbers _ htrough hn
      simp only [hstart] at hs' ⊢
      split_ifs at hs' ⊢ with hdeeper
      · have hnan := hs'.isNaN_drawdownAt rfl hnumber hpeak le_rfl
        refine ⟨fun _ i hi hin ↦ ?_, h.events⟩
        show lt _ (drawdownAt equity s.peakIndex i) = false
        rw [hdepth] at hdeeper ⊢
        rcases Nat.le_succ_iff.mp hin with hin | rfl
        · -- what was not deeper than the old one is not deeper than the new one
          have hold := h.active hactive i hi hin
          rw [← Bool.not_eq_true, hkey.lt_iff _ _ hnmax (hnumbers i hi hin), not_lt] at hold
          rw [hkey.lt_iff _ _ hnmax hnan] at hdeeper
          rw [← Bool.not_eq_true, hkey.lt_iff _ _ hnan (hnumbers i hi hin), not_lt]
          exact hold.trans hdeeper.le
        · exact not_lt_self hkey hnan
      · refine ⟨fun _ i hi hin ↦ ?_, h.events⟩
        rcases Nat.le_succ_iff.mp hin with hin | rfl
        · exact h.active hactive i hi hin
        · rw [hdepth] at hdeeper
          exact Bool.eq_false_iff.mpr hdeeper

theorem deepest (hkey : Stats.Compares key)
    (hnumber : ∀ i ≤ n, Underwater equity i →
      isNaN (drawdownAt equity (record equity i) i) = false) :
    Deepest equity n (scan equity n) := by
  induction n with
  | zero =>
      exact ⟨fun hactive ↦ absurd hactive Bool.false_ne_true, fun e he ↦ absurd he List.not_mem_nil⟩
  | succ n ih =>
      exact (ih fun i hi ↦ hnumber i (hi.trans n.le_succ)).step hkey (scanned equity n) hnumber

/-- No bar of an event is deeper than the event says, if the drawdowns of the bars below a positive
record are numbers. -/
theorem drawdownSeries_deepest (hkey : Stats.Compares key)
    (hnumber : ∀ i < equity.length, Underwater equity i →
      isNaN (drawdownAt equity (record equity i) i) = false) :
    ∀ e ∈ drawdownSeries equity, ∀ i, e.Contains i →
      lt e.drawdownPct (drawdownAt equity e.peakIndex i) = false := by
  cases equity with
  | nil => exact fun e he ↦ absurd he List.not_mem_nil
  | cons first rest =>
      have hdeepest := deepest (n := rest.length) hkey fun i hi ↦
        hnumber i (Nat.lt_succ_of_le hi)
      exact hdeepest.closed (scanned (first :: rest) rest.length) rfl

/-- The curve loses half and recovers, and its event is as deep as the second bar below the record.
-/
theorem drawdownSeries_deepest_halved : ∃ e,
    (drawdownSeries [ofInt 100, ofInt 50, ofInt 80, (ofInt 120 : Float.Model)])[0]? = some e ∧
      lt e.drawdownPct (drawdownAt
        [ofInt 100, ofInt 50, ofInt 80, (ofInt 120 : Float.Model)] e.peakIndex 2) = false := by
  have hfirst : ((drawdownSeries [ofInt 100, ofInt 50, ofInt 80,
      (ofInt 120 : Float.Model)])[0]?).map (fun e ↦ (e.peakIndex, e.underwaterPeriods)) =
        some (0, 2) := by
    decide +kernel
  obtain ⟨e, he, hstretch⟩ := Option.map_eq_some_iff.mp hfirst
  obtain ⟨hpeak, hperiods⟩ := Prod.mk.inj hstretch
  exact ⟨e, he, drawdownSeries_deepest Stats.compares_key (by decide +kernel) e
    (List.mem_of_getElem? he) 2 ⟨by omega, by omega⟩⟩

end Deepest

end Nanobook.Drawdowns
