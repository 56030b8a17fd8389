import Mathlib.Data.String.Basic
import Nanobook.Backtest.Decompose
import Nanobook.Lib.Keyed
import Nanobook.Lib.Runs

/-!
# The trades of a symbol

Seen from one symbol, decomposing a backtest goes through the weights of that symbol alone.  Its
trades are the runs of periods with a weight.
-/

namespace Nanobook

open Rebalancer (Symbol collected collected_isNone_iff collected_eq_some_iff)

variable {F : Type}

/-! ## The periods -/

namespace Decomposition

variable [F64 F]

section Period

variable {periodIndex : Nat} {weights returns : List (Symbol × F)} {d : Decomposition F}
  {symbol sym : Symbol} {weight previous periodReturn : F} {symbols : List Symbol}

/-- What is kept of the trades of a symbol. -/
def holding (sym : Symbol) (d : Decomposition F) :
    Option (Nat × F) × List (AttributionTrade F) :=
  (d.openTrades.get? sym, d.trades.filter fun trade ↦ trade.symbol = sym)

/-- What a period does to that. -/
def advance (periodIndex : Nat) (sym : Symbol) (weight previous : F)
    (h : Option (Nat × F) × List (AttributionTrade F)) :
    Option (Nat × F) × List (AttributionTrade F) :=
  if isZero previous && !isZero weight then (some (periodIndex, weight), h.2)
  else if !isZero previous && isZero weight then
    (none, h.2 ++ (h.1.map fun entry ↦
      ⟨sym, entry.1, some periodIndex, entry.2, previous⟩).toList)
  else h

theorem holding_updateTrade : holding symbol (updateTrade periodIndex symbol weight previous d) =
    advance periodIndex symbol weight previous (holding symbol d) := by
  rw [updateTrade, advance]
  split_ifs with hstart hstop
  · simp only [holding, HashMap.get?_insert_self]
  · cases hopen : d.openTrades.get? symbol with
    | none => simp [holding, hopen]
    | some entry => simp [holding, hopen, HashMap.get?_erase]
  · rfl

theorem holding_updateTrade_of_ne (h : symbol ≠ sym) :
    holding sym (updateTrade periodIndex symbol weight previous d) = holding sym d := by
  rw [updateTrade]
  split_ifs
  · simp only [holding, HashMap.get?_insert_of_ne _ h]
  · cases hopen : d.openTrades.get? symbol with
    | none => rfl
    | some entry => simp [holding, HashMap.get?_erase, h]
  · rfl

theorem holding_updateContribution :
    holding sym (updateContribution symbol weight previous periodReturn d) = holding sym d := by
  rw [updateContribution]
  split_ifs <;> rfl

theorem previousWeights_updateSymbol :
    (updateSymbol periodIndex weights returns d symbol).previousWeights = d.previousWeights := by
  rw [updateSymbol, updateContribution, updateTrade]
  split_ifs <;> try rfl
  all_goals cases d.openTrades.get? symbol <;> rfl

theorem previousWeights_foldl :
    (symbols.foldl (updateSymbol periodIndex weights returns) d).previousWeights =
      d.previousWeights := by
  induction symbols generalizing d with
  | nil => rfl
  | cons symbol symbols ih => rw [List.foldl_cons, ih, previousWeights_updateSymbol]

theorem holding_updateSymbol : holding symbol (updateSymbol periodIndex weights returns d symbol) =
    advance periodIndex symbol (finiteOrZero weights symbol)
      (finiteOrZero d.previousWeights symbol) (holding symbol d) := by
  rw [updateSymbol, holding_updateContribution, holding_updateTrade]

/-- The other symbols of a period do nothing to a symbol. -/
theorem holding_foldl_of_notMem (h : sym ∉ symbols) :
    holding sym (symbols.foldl (updateSymbol periodIndex weights returns) d) = holding sym d := by
  induction symbols generalizing d with
  | nil => rfl
  | cons symbol symbols ih =>
      rw [List.mem_cons, not_or] at h
      rw [List.foldl_cons, ih h.2, updateSymbol, holding_updateContribution,
        holding_updateTrade_of_ne (Ne.symm h.1)]

/-- Each symbol of a period is advanced once. -/
theorem holding_foldl_of_mem (hdistinct : symbols.Nodup) (h : sym ∈ symbols) :
    holding sym (symbols.foldl (updateSymbol periodIndex weights returns) d) =
      advance periodIndex sym (finiteOrZero weights sym) (finiteOrZero d.previousWeights sym)
        (holding sym d) := by
  obtain ⟨first, last, rfl⟩ := List.append_of_mem h
  obtain ⟨-, hlast, hapart⟩ := List.nodup_append'.mp hdistinct
  have hfirst : sym ∉ first := fun hmem ↦ hapart hmem List.mem_cons_self
  rw [List.foldl_append, List.foldl_cons, holding_foldl_of_notMem (List.nodup_cons.mp hlast).1,
    holding_updateSymbol, previousWeights_foldl, holding_foldl_of_notMem hfirst]

/-- Zero is zero. -/
def ZeroIsZero (F : Type) [F64 F] : Prop := isZero (F64.ofInt 0 : F) = true

theorem finiteOrZero_of_notMem {pairs : List (Symbol × F)} (h : sym ∉ pairs.map Prod.fst) :
    finiteOrZero pairs sym = F64.ofInt 0 := by
  have hnone : collected pairs sym = none := by
    rw [← Option.isNone_iff_eq_none, collected_isNone_iff]
    exact h
  rw [finiteOrZero, hnone]
  rfl

omit [F64 F] in
theorem mem_periodSymbols {previousWeights : List (Symbol × F)} :
    sym ∈ periodSymbols weights returns previousWeights ↔
      sym ∈ weights.map Prod.fst ∨ sym ∈ returns.map Prod.fst ∨
        sym ∈ previousWeights.map Prod.fst := by
  simp only [periodSymbols, List.mem_dedup, List.mem_insertionSort, List.map_append,
    List.mem_append, or_assoc]

/-- A period advances every symbol. -/
theorem holding_step (hzero : ZeroIsZero F) :
    holding sym (step d ((weights, returns), periodIndex)) =
      advance periodIndex sym (finiteOrZero weights sym) (finiteOrZero d.previousWeights sym)
        (holding sym d) := by
  change holding sym ((periodSymbols weights returns d.previousWeights).foldl
    (updateSymbol periodIndex weights returns) d) = _
  by_cases h : sym ∈ periodSymbols weights returns d.previousWeights
  · exact holding_foldl_of_mem (List.nodup_dedup _) h
  · rw [holding_foldl_of_notMem h]
    rw [mem_periodSymbols, not_or, not_or] at h
    rw [finiteOrZero_of_notMem h.1, finiteOrZero_of_notMem h.2.2, advance]
    simp [show isZero (F64.ofInt 0 : F) = true from hzero]

end Period

/-! ## The runs of a symbol -/

section Runs

variable (schedule : List (List (Symbol × F) × List (Symbol × F))) (sym : Symbol)

/-- What has been found before a period. -/
def before (k : Nat) : Decomposition F := (schedule.zipIdx.take k).foldl step init

/-- The weight of a symbol in a period. -/
def weightAt (k : Nat) : F :=
  ((schedule[k]?).map fun period ↦ finiteOrZero period.1 sym).getD (F64.ofInt 0)

/-- A symbol is held in a period. -/
def HeldAt (k : Nat) : Prop := isZero (weightAt schedule sym k) = false

/-- What is known of the trades of a symbol before a period. -/
def Tracks (k : Nat) (h : Option (Nat × F) × List (AttributionTrade F)) : Prop :=
  ∃ closed, h.2.map (fun trade ↦ (trade.entryIndex, trade.exitIndex)) =
      closed.map (fun r ↦ (r.1, some r.2)) ∧
    Runs.Sound (HeldAt schedule sym) k closed (h.1.map Prod.fst)

variable {schedule sym} {k : Nat} {period : List (Symbol × F) × List (Symbol × F)}
  {h : Option (Nat × F) × List (AttributionTrade F)}

theorem before_succ (hperiod : schedule[k]? = some period) :
    before schedule (k + 1) = step (before schedule k) (period, k) := by
  have hget : schedule.zipIdx[k]? = some (period, k) := by
    rw [List.getElem?_zipIdx, hperiod, Nat.zero_add]
    rfl
  rw [before, List.take_add_one, hget, Option.toList_some, List.foldl_append, List.foldl_cons,
    List.foldl_nil, before]

theorem weightAt_eq (hperiod : schedule[k]? = some period) :
    weightAt schedule sym k = finiteOrZero period.1 sym := by
  rw [weightAt, hperiod]
  rfl

/-- The weight before the first period is zero. -/
theorem previous_zero : finiteOrZero (before schedule 0).previousWeights sym = F64.ofInt 0 :=
  finiteOrZero_of_notMem List.not_mem_nil

theorem previous_succ (hperiod : schedule[k]? = some period) :
    finiteOrZero (before schedule (k + 1)).previousWeights sym = weightAt schedule sym k := by
  rw [before_succ hperiod, weightAt_eq hperiod]
  rfl

/-- A period begins a trade, goes on with it, ends it, or does without one. -/
theorem Tracks.advance (ht : Tracks schedule sym k h) {previous : F}
    (hprevious : h.1.isSome ↔ isZero previous = false) :
    Tracks schedule sym (k + 1)
      (advance k sym (weightAt schedule sym k) previous h) := by
  obtain ⟨closed, hclosed, hsound⟩ := ht
  obtain ⟨going, trades⟩ := h
  rw [Decomposition.advance]
  cases hprev : isZero previous with
  | true =>
      obtain rfl : going = none := by simpa [hprev] using hprevious
      cases hweight : isZero (weightAt schedule sym k) with
      | true => exact ⟨closed, hclosed, hsound.rests (by simp [HeldAt, hweight])⟩
      | false => exact ⟨closed, hclosed, hsound.begins hweight⟩
  | false =>
      obtain ⟨entry, rfl⟩ : ∃ entry, going = some entry :=
        Option.isSome_iff_exists.mp (hprevious.mpr hprev)
      cases hweight : isZero (weightAt schedule sym k) with
      | true =>
          refine ⟨closed ++ [(entry.1, k)], ?_, hsound.ends (by simp [HeldAt, hweight])⟩
          simp only at hclosed
          simp [hclosed]
      | false => exact ⟨closed, hclosed, hsound.continues hweight⟩

/-- Before each period the trades are the runs up to it. -/
theorem tracks_before (hzero : ZeroIsZero F) (hk : k ≤ schedule.length) :
    Tracks schedule sym k (holding sym (before schedule k)) := by
  induction k with
  | zero => exact ⟨[], rfl, Runs.sound_nil _⟩
  | succ k ih =>
      have hperiod : schedule[k]? = some schedule[k] := List.getElem?_eq_getElem hk
      have ht := ih (Nat.le_of_succ_le hk)
      rw [before_succ hperiod, holding_step hzero, ← weightAt_eq hperiod]
      refine ht.advance ?_
      obtain ⟨closed, -, hsound⟩ := ht
      cases k with
      | zero =>
          rw [previous_zero, show isZero (F64.ofInt 0 : F) = true from hzero]
          exact iff_of_false Bool.false_ne_true (by decide)
      | succ j =>
          rw [previous_succ (List.getElem?_eq_getElem (Nat.lt_of_succ_lt hk))]
          have hgoing := hsound.isSome_going_iff
          rwa [Option.isSome_map] at hgoing

end Runs

end Decomposition

/-! ## The reported trades -/

section Trades

instance : Std.Total (AttributionTrade.precedes (F := F)) where
  total a b := by
    simp only [AttributionTrade.precedes, not_lt]
    rcases lt_trichotomy a.entryIndex b.entryIndex with hlt | heq | hgt
    · exact .inl (.inl hlt)
    · rcases le_total a.symbol.asStr b.symbol.asStr with hle | hle
      · exact .inl (.inr ⟨heq, hle⟩)
      · exact .inr (.inr ⟨heq.symm, hle⟩)
    · exact .inr (.inl hgt)

instance : IsTrans (AttributionTrade F) AttributionTrade.precedes where
  trans a b c hab hbc := by
    simp only [AttributionTrade.precedes, not_lt] at hab hbc ⊢
    rcases hab with hab | ⟨hab, hle⟩ <;> rcases hbc with hbc | ⟨hbc, hle'⟩
    · exact .inl (hab.trans hbc)
    · exact .inl (hbc ▸ hab)
    · exact .inl (hab ▸ hbc)
    · exact .inr ⟨hab.trans hbc, hle.trans hle'⟩

variable {sym : Symbol}

/-- The entry and exit of a trade. -/
def AttributionTrade.span (trade : AttributionTrade F) : Nat × Option Nat :=
  (trade.entryIndex, trade.exitIndex)

/-- The entries and exits of the trades of a symbol. -/
def spansOf (sym : Symbol) (trades : List (AttributionTrade F)) : List (Nat × Option Nat) :=
  (trades.filter fun trade ↦ trade.symbol = sym).map AttributionTrade.span

theorem mem_spansOf {trades : List (AttributionTrade F)} {span : Nat × Option Nat} :
    span ∈ spansOf sym trades ↔ ∃ trade ∈ trades, trade.symbol = sym ∧ trade.span = span := by
  simp only [spansOf, List.mem_map, List.mem_filter, decide_eq_true_eq, and_assoc]

/-- What is left open of a symbol. -/
theorem spansOf_stillOpen (order : HashMap.Order Symbol) (d : Decomposition F) :
    spansOf sym (d.stillOpen order) =
      ((d.openTrades.get? sym).map fun entry ↦ (entry.1, none)).toList := by
  have hfilter : spansOf sym (d.stillOpen order) =
      ((d.openTrades.iter order).filter fun e ↦ e.1 = sym).map fun e ↦ (e.2.1, none) := by
    rw [spansOf, Decomposition.stillOpen, List.filter_map, List.map_map]
    rfl
  rw [hfilter, HashMap.filter_iter]
  cases d.openTrades.get? sym <;> rfl

variable [F64 F] (weightSchedule : List (List (Symbol × F)))

/-- A symbol has a finite weight other than zero. -/
def Held (sym : Symbol) (t : Nat) : Prop :=
  ∃ weights w, weightSchedule[t]? = some weights ∧ (sym, w) ∈ weights ∧ F64.isFinite w = true ∧
    Decomposition.isZero w = false

/-- The trades of a symbol take up just the time for which it is held, without overlapping or
touching.  At most one of them is open, where the symbol is held to the end. -/
structure PartitionsHoldingTime (trades : List (AttributionTrade F)) (sym : Symbol) : Prop where
  proper : ∀ trade ∈ trades, trade.symbol = sym → trade.entryIndex < weightSchedule.length ∧
    ∀ exitIndex, trade.exitIndex = some exitIndex →
      trade.entryIndex < exitIndex ∧ exitIndex < weightSchedule.length
  apart : (trades.filter fun trade ↦ trade.symbol = sym).Pairwise fun a b ↦
    ∃ exitIndex, a.exitIndex = some exitIndex ∧ exitIndex < b.entryIndex
  covered : ∀ t < weightSchedule.length, Held weightSchedule sym t ↔
    ∃ trade ∈ trades, trade.symbol = sym ∧
      trade.entryIndex ≤ t ∧ ∀ exitIndex, trade.exitIndex = some exitIndex → t < exitIndex
  openUnique : ((trades.filter fun trade ↦ trade.symbol = sym).filter fun trade ↦
    trade.exitIndex = none).length ≤ 1
  openLast : (∃ trade ∈ trades, trade.symbol = sym ∧ trade.exitIndex = none) ↔
    ∃ t, t + 1 = weightSchedule.length ∧ Held weightSchedule sym t

variable {weightSchedule} {trades : List (AttributionTrade F)} {closed : List (Nat × Nat)}
  {going : Option Nat}

/-- Trades whose spans are the runs of a symbol, once they are sorted. -/
theorem partitions_of_runs
    (hsound : Runs.Sound (Held weightSchedule sym) weightSchedule.length closed going)
    (hperm : (spansOf sym trades).Perm (Runs.spans closed going))
    (hsorted : trades.Pairwise AttributionTrade.precedes) :
    PartitionsHoldingTime weightSchedule trades sym := by
  have hmem (trade : AttributionTrade F) (ht : trade ∈ trades) (hsym : trade.symbol = sym) :
      trade.span ∈ Runs.spans closed going :=
    hperm.mem_iff.mp (mem_spansOf.mpr ⟨trade, ht, hsym, rfl⟩)
  have hexists (P : Nat × Option Nat → Prop) : (∃ span ∈ Runs.spans closed going, P span) ↔
      ∃ trade ∈ trades, trade.symbol = sym ∧ P trade.span := by
    constructor
    · rintro ⟨span, hspan, hP⟩
      obtain ⟨trade, ht, hsym, rfl⟩ := mem_spansOf.mp (hperm.mem_iff.mpr hspan)
      exact ⟨trade, ht, hsym, hP⟩
    · rintro ⟨trade, ht, hsym, hP⟩
      exact ⟨trade.span, hmem trade ht hsym, hP⟩
  have hstarts : (spansOf sym trades).Pairwise fun a b ↦ a.1 ≤ b.1 := by
    refine List.pairwise_map.mpr ((hsorted.filter _).imp fun {a b} h ↦ ?_)
    rcases h with hlt | ⟨heq, -⟩
    · exact Nat.le_of_lt hlt
    · exact Nat.le_of_eq heq
  have hapart := hsound.pairwise_of_perm hperm hstarts
  refine ⟨fun trade ht hsym ↦ hsound.proper (hmem trade ht hsym), List.pairwise_map.mp hapart,
    fun t ht ↦ (hsound.held_iff ht).trans (hexists fun span ↦ Runs.Covers span t), ?_, ?_⟩
  · have hopen := Runs.length_filter_open_le hapart
    rwa [spansOf, List.filter_map, List.length_map] at hopen
  · exact (hexists fun span ↦ span.2 = none).symm.trans hsound.exists_open_iff

omit [F64 F] in
theorem spansOf_append (trades' : List (AttributionTrade F)) :
    spansOf sym (trades ++ trades') = spansOf sym trades ++ spansOf sym trades' := by
  simp only [spansOf, List.filter_append, List.map_append]

variable {returnSchedule : List (List (Symbol × F))}

/-- A symbol that comes once has a weight where that entry is finite and not zero. -/
theorem heldAt_eq (hzero : Decomposition.ZeroIsZero F)
    (hlength : weightSchedule.length = returnSchedule.length)
    (hunique : ∀ weights ∈ weightSchedule, (weights.map Prod.fst).Nodup) :
    Decomposition.HeldAt (weightSchedule.zip returnSchedule) sym = Held weightSchedule sym := by
  funext t
  refine propext ?_
  rw [Decomposition.HeldAt]
  by_cases ht : t < weightSchedule.length
  · have hweights := List.getElem?_eq_getElem ht
    have hreturns : t < returnSchedule.length := hlength ▸ ht
    have hperiod : (weightSchedule.zip returnSchedule)[t]? =
        some (weightSchedule[t], returnSchedule[t]) := by
      rw [List.getElem?_zip_eq_some]
      exact ⟨hweights, List.getElem?_eq_getElem _⟩
    have hnodup := hunique _ (List.getElem_mem ht)
    rw [Decomposition.weightAt_eq hperiod, Decomposition.finiteOrZero]
    constructor
    · intro hheld
      cases hlast : (collected weightSchedule[t] sym).filter F64.isFinite with
      | none =>
          rw [hlast, Option.getD_none] at hheld
          exact absurd (hzero.symm.trans hheld) (by decide)
      | some w =>
          rw [hlast, Option.getD_some] at hheld
          obtain ⟨hw, hfinite⟩ := Option.filter_eq_some_iff.mp hlast
          exact ⟨_, w, hweights, (collected_eq_some_iff hnodup).mp hw, hfinite, hheld⟩
    · rintro ⟨weights, w, hget, hmem, hfinite, hheld⟩
      obtain rfl : weightSchedule[t] = weights := Option.some.inj (hweights.symm.trans hget)
      rwa [(collected_eq_some_iff hnodup).mpr hmem, Option.filter_some_pos hfinite,
        Option.getD_some]
  · have hnone : weightSchedule[t]? = none := List.getElem?_eq_none (Nat.not_lt.mp ht)
    have hperiod : (weightSchedule.zip returnSchedule)[t]? = none := by
      refine List.getElem?_eq_none ?_
      rw [List.length_zip]
      omega
    refine iff_of_false ?_ ?_
    · rw [Decomposition.weightAt, hperiod, Option.map_none, Option.getD_none,
        show Decomposition.isZero (F64.ofInt 0 : F) = true from hzero]
      decide
    · rintro ⟨weights, -, hget, -⟩
      rw [hnone] at hget
      cases hget

/-- The trades partition the holding time of each symbol. -/
theorem partitionsHoldingTime (hzero : Decomposition.ZeroIsZero F)
    (hlength : weightSchedule.length = returnSchedule.length)
    (hunique : ∀ weights ∈ weightSchedule, (weights.map Prod.fst).Nodup)
    (order : HashMap.Order Symbol) (sym : Symbol) :
    PartitionsHoldingTime weightSchedule
      (decomposeBacktest order weightSchedule returnSchedule).trades sym := by
  have hzip : (weightSchedule.zip returnSchedule).length = weightSchedule.length := by
    rw [List.length_zip, ← hlength, Nat.min_self]
  have htracks : Decomposition.Tracks (weightSchedule.zip returnSchedule) sym _ _ :=
    Decomposition.tracks_before hzero (Nat.le_refl _)
  obtain ⟨closed, hclosed, hsound⟩ := htracks
  rw [decomposeBacktest, if_neg (not_not.mpr hlength)]
  have hall : (weightSchedule.zip returnSchedule).zipIdx.foldl Decomposition.step .init =
      Decomposition.before (weightSchedule.zip returnSchedule)
        (weightSchedule.zip returnSchedule).length := by
    rw [Decomposition.before, List.take_of_length_le (by rw [List.length_zipIdx])]
  rw [hall]
  generalize Decomposition.before (weightSchedule.zip returnSchedule)
    (weightSchedule.zip returnSchedule).length = d at *
  rw [heldAt_eq hzero hlength hunique, hzip] at hsound
  refine partitions_of_runs hsound ?_ (List.pairwise_insertionSort _ _)
  have hperm : (spansOf sym (d.result order).trades).Perm
      (spansOf sym (d.trades ++ d.stillOpen order)) :=
    ((List.perm_insertionSort _ _).filter _).map _
  have hspans : spansOf sym (d.trades ++ d.stillOpen order) =
      Runs.spans closed ((d.holding sym).1.map Prod.fst) := by
    rw [spansOf_append, spansOf_stillOpen, Runs.spans, ← hclosed, Option.map_map]
    rfl
  rwa [hspans] at hperm

end Trades

end Nanobook
