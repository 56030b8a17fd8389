import Nanobook.Backtest.Budgets
import Nanobook.Portfolio.Cash

/-!
# Stop exits

A stop that is reached reports an event once the fill has been asked for, whatever becomes of the
fill.  So the event is a real exit if the fill is not cut down, and only then.
-/

namespace Nanobook

open Rebalancer (Symbol collected)

variable {F : Type} [F64 F]

/-! ## One exit -/

/-- The fill takes back the whole position, and the cash pays for it. -/
def Fill.Exits (f : Fill F) : Prop :=
  f.found.Fillable f.qty f.price ∧ f.qty = -f.found.quantity f.symbol

instance (f : Fill F) : Decidable f.Exits := inferInstanceAs (Decidable (((_ → _) ∧ (_ → _)) ∧ _))

/-- The event and the record are of one exit. -/
structure BacktestStopEvent.Matches (e : BacktestStopEvent) (r : ExecutionRecord) : Prop where
  periodIndex : r.periodIndex = e.periodIndex
  symbol : r.symbol = e.symbol
  referencePrice : r.referencePrice = e.exitPrice

section Exit

variable {f : Fill F} {p : Portfolio F}

/-- A position is flat after its exit if the exit takes back the whole of it, and only then. -/
theorem Fill.quantity_eq_zero_iff (hqty : f.qty = satNeg (f.found.quantity f.symbol))
    (hopen : f.found.quantity f.symbol ≠ 0) (h : f.result = some p) :
    p.quantity f.symbol = 0 ↔ f.Exits := by
  have hrange : InI64 f.qty := hqty ▸ inI64_clampI64 _
  obtain ⟨filled, hfills, hquantity⟩ := Portfolio.quantity_executeFill hrange h f.symbol
  rw [if_pos rfl] at hquantity
  have hflat : p.quantity f.symbol = 0 ↔ filled = -f.found.quantity f.symbol := by
    rw [hquantity]
    split
    · next hzero => exact ⟨fun hq ↦ absurd hq hopen, fun hq ↦ by lia⟩
    · simp only [satAdd, clampI64, i64Min, i64Max]
      lia
  rw [hflat, Fill.Exits, ← hfills.full]
  constructor
  · intro hfilled
    -- neither a cut nor a clamped exit gives back the whole position
    have hbuy := hfills.buy
    have hsell := hfills.sell
    simp only [satNeg, clampI64, i64Min, i64Max] at hqty
    lia
  · rintro ⟨hfilled, hwhole⟩
    exact hfilled.trans hwhole

end Exit

/-! ## A stop step -/

section StopStep

variable (cfg : BacktestStopConfig F) (periodIndex : Nat)

/-- The fill of a position whose stop is reached. -/
def exitFill (st : StopState F) (pos : OpenPosition) : Fill F :=
  ⟨st.portfolio.setExecutionContext periodIndex .stopExit, pos.symbol,
    satNeg (st.portfolio.quantity pos.symbol), pos.price⟩

/-- The fills of a stop step. -/
def exitFills : StopState F → List OpenPosition → List (Fill F)
  | _, [] => []
  | st, pos :: rest =>
      (match breach cfg (trackerAt cfg st.trackers pos) pos.price with
        | none => []
        | some _ => [exitFill periodIndex st pos]) ++
      match stopPosition cfg periodIndex st pos with
      | some st => exitFills st rest
      | none => []

variable {cfg periodIndex} {st st' : StopState F} {pos : OpenPosition}

/-- A position is left alone, or an event reports its exit. -/
theorem stopPosition_exit (hprice : 0 < pos.price) (hopen : st.portfolio.quantity pos.symbol ≠ 0)
    (h : stopPosition cfg periodIndex st pos = some st') :
    (breach cfg (trackerAt cfg st.trackers pos) pos.price = none ∧ st'.portfolio = st.portfolio ∧
      st'.events = st.events) ∨
    ∃ stop, breach cfg (trackerAt cfg st.trackers pos) pos.price = some stop ∧
      (exitFill periodIndex st pos).result = some st'.portfolio ∧
      st'.events = st.events ++ [⟨periodIndex, pos.symbol, stop.1, pos.price, stop.2⟩] := by
  rcases stopPosition_cases h with ⟨hp, hevents, hnone⟩ | ⟨stop, p, closed, hstop, hclose, rfl,
    hevents⟩
  · exact .inl ⟨hnone, hp, hevents⟩
  · have hcontext :
      (st.portfolio.setExecutionContext periodIndex .stopExit).quantity pos.symbol ≠ 0 := hopen
    rw [Portfolio.closePositionAt_of_open hprice hcontext] at hclose
    obtain ⟨p', hp', heq⟩ := Option.map_eq_some_iff.mp hclose
    obtain ⟨rfl, rfl⟩ := Prod.mk.inj heq
    exact .inr ⟨stop, hstop, hp', hevents⟩

/-- Other symbols keep their positions. -/
theorem quantity_stopPosition {sym : Symbol} (hsym : pos.symbol ≠ sym)
    (h : stopPosition cfg periodIndex st pos = some st') :
    st'.portfolio.quantity sym = st.portfolio.quantity sym := by
  rcases stopPosition_cases h with ⟨hp, -, -⟩ | ⟨stop, p, closed, -, hclose, rfl, -⟩
  · rw [hp]
  · rcases Portfolio.closePositionAt_cases hclose with heq | ⟨-, -, -, hfill⟩
    · rw [(Prod.mk.inj heq).1]
      rfl
    · obtain ⟨filled, -, hquantity⟩ := Portfolio.quantity_executeFill (inI64_clampI64 _) hfill sym
      rw [hquantity, if_neg hsym]
      rfl

/-- What a stop step has come to: an event for each fill it asked for, and records for those that
filled. -/
structure StopOutcome (periodIndex : Nat) (st st' : StopState F) (fills : List (Fill F))
    (new : List BacktestStopEvent) (es : List ExecutionRecord) : Prop where
  events : st'.events = st.events ++ new
  recorded : Portfolio.Recorded periodIndex .stopExit st.portfolio st'.portfolio es
  attempts : List.Forall₂ (fun (e : BacktestStopEvent) (f : Fill F) ↦
    e.periodIndex = periodIndex ∧ e.symbol = f.symbol) new fills
  flat : ∀ f ∈ fills, st'.portfolio.quantity f.symbol = 0 ↔ f.Exits
  exits : (∀ f ∈ fills, f.Exits) → List.Forall₂ BacktestStopEvent.Matches new es

/-- One exit: the event is there in any case, the record if it is a real one. -/
theorem outcome_exitFill {stopLevel : Int} {reason : StopReason}
    (hopen : st.portfolio.quantity pos.symbol ≠ 0)
    (hfill : (exitFill periodIndex st pos).result = some st'.portfolio)
    (hevents : st'.events =
        st.events ++ [⟨periodIndex, pos.symbol, stopLevel, pos.price, reason⟩]) :
    ∃ es, StopOutcome periodIndex st st' [exitFill periodIndex st pos]
      [⟨periodIndex, pos.symbol, stopLevel, pos.price, reason⟩] es := by
  obtain ⟨filled, hfills, hrecorded⟩ := Portfolio.recorded_executeFill (inI64_clampI64 _) hfill
  refine ⟨_, hevents,
    ⟨hrecorded.entries, hrecorded.executions, hrecorded.sequence, hrecorded.context⟩,
    .cons ⟨rfl, rfl⟩ .nil, ?_, ?_⟩
  · intro f hf
    rw [List.mem_singleton.mp hf]
    exact (exitFill periodIndex st pos).quantity_eq_zero_iff rfl hopen hfill
  · intro hexits
    have hexit := hexits _ (List.mem_singleton_self _)
    have hfilled : filled = (exitFill periodIndex st pos).qty := hfills.full.mpr hexit.1
    have hsome : filled ≠ 0 := by
      rw [hfilled, hexit.2]
      exact fun h ↦ hopen (Int.neg_eq_zero.mp h)
    rw [Portfolio.recordsOf, if_neg hsome]
    exact .cons ⟨rfl, rfl, rfl⟩ .nil

/-- The exits of a list of positions, no two of one symbol, leave each other alone. -/
theorem outcome_foldlM {l : List OpenPosition} (hnodup : (l.map OpenPosition.symbol).Nodup)
    (hopen : ∀ pos ∈ l, 0 < pos.price ∧ st.portfolio.quantity pos.symbol ≠ 0)
    (h : l.foldlM (stopPosition cfg periodIndex) st = some st') :
    (∀ sym, sym ∉ l.map OpenPosition.symbol →
        st'.portfolio.quantity sym = st.portfolio.quantity sym) ∧
      ∃ new es, StopOutcome periodIndex st st' (exitFills cfg periodIndex st l) new es := by
  induction l generalizing st with
  | nil =>
      cases h
      exact ⟨fun _ _ ↦ rfl, [], [], (List.append_nil _).symm, .refl _, .nil,
        fun _ hf ↦ absurd hf List.not_mem_nil, fun _ ↦ .nil⟩
  | cons pos rest ih =>
      obtain ⟨st₁, hfirst, hrest⟩ := Option.bind_eq_some_iff.mp h
      obtain ⟨hnew, hnodup⟩ := List.nodup_cons.mp hnodup
      obtain ⟨hprice, hpos⟩ := hopen pos List.mem_cons_self
      have hother :
        ∀ sym, pos.symbol ≠ sym → st₁.portfolio.quantity sym = st.portfolio.quantity sym :=
        fun sym hsym ↦ quantity_stopPosition hsym hfirst
      obtain ⟨hsame, new, es, hout⟩ := ih hnodup (fun pos' hpos' ↦ by
        have hne : pos.symbol ≠ pos'.symbol := fun heq ↦ hnew (heq ▸ List.mem_map_of_mem hpos')
        rw [hother _ hne]
        exact hopen pos' (List.mem_cons_of_mem pos hpos')) hrest
      refine ⟨fun sym hsym ↦ ?_, ?_⟩
      · rw [List.map_cons, List.mem_cons, not_or] at hsym
        exact (hsame sym hsym.2).trans (hother sym (Ne.symm hsym.1))
      · rw [exitFills, hfirst]
        rcases stopPosition_exit hprice hpos
          hfirst with ⟨hnone, hp, hevents⟩ | ⟨stop, hstop, hfill, hevents⟩
        · rw [hnone]
          refine ⟨new, es, by rw [hout.events, hevents], ?_, hout.attempts, hout.flat, hout.exits⟩
          rw [← hp]
          exact hout.recorded
        · obtain ⟨es₁, hout₁⟩ := outcome_exitFill hpos hfill hevents
          rw [hstop]
          refine ⟨_, es₁ ++ es, by rw [hout.events, hout₁.events, List.append_assoc],
            hout₁.recorded.trans hout.recorded, List.rel_append hout₁.attempts hout.attempts, ?_,
            ?_⟩
          · intro f hf
            rcases List.mem_append.mp hf with hf | hf
            · have hsymbol : f.symbol ∉ rest.map OpenPosition.symbol := by
                rw [List.mem_singleton.mp hf]
                exact hnew
              rw [hsame f.symbol hsymbol]
              exact hout₁.flat f hf
            · exact hout.flat f hf
          · intro hexits
            exact List.rel_append (hout₁.exits fun f hf ↦ hexits f (List.mem_append_left _ hf))
              (hout.exits fun f hf ↦ hexits f (List.mem_append_right _ hf))

end StopStep

/-! ## The stop step of a period -/

section Period

variable (order : HashMap.Order Symbol)

omit [F64 F] in
/-- Positions that can be stopped out are open and priced, and no two of them are of one symbol. -/
theorem openPositions_spec (p : Portfolio F) (prices : PriceMap) :
    ((p.openPositions order prices).map OpenPosition.symbol).Nodup ∧
      ∀ pos ∈ p.openPositions order prices, 0 < pos.price ∧ p.quantity pos.symbol ≠ 0 := by
  constructor
  · have hsublist : ∀ l : List (Symbol × Position), ((l.filterMap fun e ↦
        if e.2.isFlat then none
        else (prices e.1).bind fun px ↦
          if px ≤ 0 then none else some (⟨e.1, e.2.quantity, px⟩ : OpenPosition)).map
            OpenPosition.symbol).Sublist (l.map Prod.fst) := by
      intro l
      induction l with
      | nil => exact .slnil
      | cons e l ih =>
          rw [List.filterMap_cons]
          split
          · exact ih.cons _
          · next pos hpos =>
              have hsymbol : pos.symbol = e.1 := by
                split_ifs at hpos
                obtain ⟨px, -, hpx⟩ := Option.bind_eq_some_iff.mp hpos
                split_ifs at hpx
                rw [← Option.some_inj.mp hpx]
              rw [List.map_cons, List.map_cons, hsymbol]
              exact ih.cons_cons _
    exact HashMap.nodup_iter.sublist (hsublist _)
  · intro pos hpos
    obtain ⟨e, he, hpos⟩ := List.mem_filterMap.mp hpos
    split_ifs at hpos with hflat
    obtain ⟨px, -, hpx⟩ := Option.bind_eq_some_iff.mp hpos
    split_ifs at hpx with hprice
    obtain rfl := Option.some_inj.mp hpx
    refine ⟨not_le.mp hprice, fun hq ↦ hflat ?_⟩
    have hposition : p.position e.1 = some e.2 := HashMap.mem_iter.mp he
    rw [Portfolio.quantity, hposition] at hq
    exact decide_eq_true hq

variable (cfg : BacktestStopConfig F) (periodIndex : Nat) (prices : PriceMap) (st : StopState F)

/-- The fills that `apply_stop_cfg` asks for. -/
def exitsOf : List (Fill F) :=
  let openPositions := st.portfolio.openPositions order prices
  let trackers sym := if sym ∈ openPositions.map OpenPosition.symbol then st.trackers sym else none
  exitFills cfg periodIndex { st with trackers } openPositions

variable {order cfg periodIndex prices st} {st' : StopState F}

theorem outcome_applyStopCfg (h : applyStopCfg cfg periodIndex order prices st = some st') :
    ∃ new es, StopOutcome periodIndex st st' (exitsOf order cfg periodIndex prices st) new es := by
  simp only [applyStopCfg] at h
  obtain ⟨hnodup, hopen⟩ := openPositions_spec order st.portfolio prices
  obtain ⟨-, new, es, hout⟩ := outcome_foldlM hnodup (by exact hopen) h
  exact ⟨new, es, hout.events, hout.recorded, hout.attempts, hout.flat, hout.exits⟩

end Period

namespace BridgeState

variable (inp : BacktestInput F) (order : HashMap.Order Symbol) (period : Period F)
  (st : BridgeState F)

/-- What the stop step works on. -/
def stopState : StopState F := ⟨st.portfolio, st.stopTrackers, st.stopEvents⟩

/-- The fills that the stop step asks for. -/
def exits : List (Fill F) :=
  match inp.options.stopCfg.bind BacktestStopConfig.sanitized with
  | none => []
  | some cfg => exitsOf order cfg period.index (closes period) st.stopState

variable {inp order period st} {st' : BridgeState F}

theorem outcome_applyStops (h : applyStops inp order period st = .ok st') : ∃ new es,
    StopOutcome period.index st.stopState st'.stopState (exits inp order period st) new es := by
  rcases applyStops_ok h with ⟨hnone, rfl⟩ | ⟨cfg, stops, hcfg, hstops, rfl⟩
  · rw [exits, hnone]
    exact ⟨[], [], (List.append_nil _).symm, .refl _, .nil, fun _ hf ↦ absurd hf List.not_mem_nil,
      fun _ ↦ .nil⟩
  · rw [exits, hcfg]
    exact outcome_applyStopCfg hstops

end BridgeState

/-! ## Runs -/

namespace BacktestInput

variable (inp : BacktestInput F) (order : HashMap.Order Symbol)

/-- The fills that the stops of period `i` ask for, each with the portfolio it finds. -/
def stopFills (i : Nat) : List (Fill F) :=
  match inp.runTo order i, inp.periods[i]? with
  | .ok st, some period =>
      match BridgeState.rebalance inp order period
        (BridgeState.applyBudgets inp period (BridgeState.recordSymbolReturns period st)) with
      | .ok st => BridgeState.exits inp order period st
      | .error _ => []
  | _, _ => []

/-- The position of the event is flat after the stop step of its period. -/
def FlatAfter (e : BacktestStopEvent) : Prop := ∃ period st st',
  inp.periods[e.periodIndex]? = some period ∧ inp.runTo order e.periodIndex = .ok st ∧
    BridgeState.trade inp order period st = .ok st' ∧ st'.portfolio.quantity e.symbol = 0

/-- Every stop event is a real exit, and those that are recorded are recorded in order. -/
structure RealExits {M : Type} (r : BacktestBridgeResult F M) : Prop where
  flat : ∀ e ∈ r.stopEvents, inp.FlatAfter order e
  recorded : inp.options.recordExecutions = true → ∃ es, r.executions = some es ∧
    List.Forall₂ BacktestStopEvent.Matches r.stopEvents (es.filter fun r ↦ r.kind = .stopExit)

variable {inp order} {n i : Nat} {st u v : BridgeState F} {period : Period F}

omit [F64 F] in
/-- What is matched one by one has a partner. -/
theorem exists_mem_of_forall₂ {A B : Type} {R : A → B → Prop} {l : List A} {l' : List B}
    (h : List.Forall₂ R l l') {b : B} (hb : b ∈ l') : ∃ a ∈ l, R a b := by
  induction h with
  | nil => cases hb
  | cons hab _ ih =>
      rcases List.mem_cons.mp hb with rfl | hb
      · exact ⟨_, List.mem_cons_self, hab⟩
      · obtain ⟨a, ha, hab⟩ := ih hb
        exact ⟨a, List.mem_cons_of_mem _ ha, hab⟩

/-- What the stops of a period have come to. -/
theorem outcome_period (hu : inp.runTo order i = .ok u) (hperiod : inp.periods[i]? = some period)
    (hstep : BridgeState.step inp order u period = .ok v) : ∃ st₂ fills new es periodIndex kind p,
    BridgeState.trade inp order period u = .ok st₂ ∧
      Portfolio.Recorded periodIndex kind u.portfolio p fills ∧
      (inp.options.recordExecutions = true → kind = .rebalance) ∧
      Portfolio.Recorded i .stopExit p v.portfolio es ∧
      v.stopEvents = u.stopEvents ++ new ∧
      List.Forall₂
      (fun (e : BacktestStopEvent) (f : Fill F) ↦ e.periodIndex = i ∧ e.symbol = f.symbol) new
        (inp.stopFills order i) ∧
      (∀ f ∈ inp.stopFills order i, st₂.portfolio.quantity f.symbol = 0 ↔ f.Exits) ∧
      ((∀ f ∈ inp.stopFills order i, f.Exits) → List.Forall₂ BacktestStopEvent.Matches new es) := by
  obtain ⟨st₁, st₂, hreb, hstops, hclose⟩ := BridgeState.step_ok hstep
  obtain ⟨periodIndex, kind, fills, hfills, hcontext⟩ := BridgeState.recorded_rebalance hreb
  obtain ⟨hevents, -⟩ := BridgeState.skippedRebalances_rebalance hreb
  obtain ⟨new, es, hout⟩ := BridgeState.outcome_applyStops hstops
  obtain ⟨-, rfl⟩ := BridgeState.closePeriod_ok hclose
  obtain ⟨budgets, cap, value, heq⟩ :=
    BridgeState.applyBudgets_eq inp period (BridgeState.recordSymbolReturns period u)
  have hstopFills : inp.stopFills order i = BridgeState.exits inp order period st₁ := by
    simp only [stopFills, hu, hperiod, hreb]
  obtain rfl := index_of_periods hperiod
  rw [heq] at hfills hevents
  rw [hstopFills]
  refine ⟨st₂, fills, new, es, periodIndex, kind, st₁.portfolio, ?_,
    ⟨hfills.entries, hfills.executions, hfills.sequence, hfills.context⟩, fun hrec ↦
      (hcontext hrec).2,
    ⟨hout.recorded.entries, hout.recorded.executions, hout.recorded.sequence,
      hout.recorded.context⟩, ?_,
    hout.attempts, hout.flat, hout.exits⟩
  · exact Steps.bind_eq_ok.mpr ⟨st₁, hreb, hstops⟩
  · have hnew : st₂.stopEvents = st₁.stopEvents ++ new := hout.events
    rw [hnew, hevents]
    rfl

/-- An event for every fill that the stops of a period have asked for. -/
theorem exists_event (h : inp.run order = .ok st) {f : Fill F} (hf : f ∈ inp.stopFills order i) :
    ∃ e ∈ st.stopEvents, e.periodIndex = i ∧ e.symbol = f.symbol ∧
      (inp.FlatAfter order e → f.Exits) := by
  have hsome : ∃ u period, inp.runTo order i = .ok u ∧ inp.periods[i]? = some period := by
    rw [stopFills] at hf
    split at hf
    · next u period hu hperiod => exact ⟨u, period, hu, hperiod⟩
    · cases hf
  obtain ⟨u, period, hu, hperiod⟩ := hsome
  have hi : i < inp.periods.length := (List.getElem?_eq_some_iff.mp hperiod).choose
  rw [run_eq_runTo] at h
  obtain ⟨u', v, hu', hstep, hv⟩ := step_of_runTo h hi hperiod
  obtain rfl : u = u' := Except.ok.inj (hu.symm.trans hu')
  obtain ⟨st₂, -, new, -, -, -, -, htrade, -, -, -, hevents, hattempts, hflat, -⟩ :=
    outcome_period hu hperiod hstep
  obtain ⟨e, he, hindex, hsymbol⟩ := exists_mem_of_forall₂ hattempts hf
  refine ⟨e, ?_, hindex, hsymbol, fun hafter ↦ (hflat f hf).mp ?_⟩
  · obtain ⟨l, hl, -⟩ := (extends_runTo hv hi le_rfl h).stopEvents
    rw [hl, hevents]
    exact List.mem_append_left _ (List.mem_append_right _ he)
  · obtain ⟨period', st', st₂', hperiod', hst', htrade', hquantity⟩ := hafter
    rw [hindex, hperiod] at hperiod'
    rw [hindex, hu] at hst'
    cases hperiod'
    cases hst'
    rw [htrade] at htrade'
    cases htrade'
    rwa [hsymbol] at hquantity

/-- If every fill of a stop is an exit, every event is one. -/
theorem realExits_runTo (hn : n ≤ inp.periods.length) (h : inp.runTo order n = .ok st)
    (hexits : ∀ i, ∀ f ∈ inp.stopFills order i, f.Exits) :
    (∀ e ∈ st.stopEvents, inp.FlatAfter order e) ∧
      (inp.options.recordExecutions = true → ∃ es, st.portfolio.executions = some es ∧
        List.Forall₂ BacktestStopEvent.Matches st.stopEvents
        (es.filter fun r ↦ r.kind = .stopExit)) := by
  induction n generalizing st with
  | zero =>
      cases h
      refine ⟨fun _ he ↦ absurd he List.not_mem_nil, fun hrec ↦ ⟨[], ?_, .nil⟩⟩
      simp only [start, startPortfolio, hrec, if_true]
  | succ n ih =>
      have hperiod : inp.periods[n]? = some inp.periods[n] := List.getElem?_eq_getElem hn
      obtain ⟨u, v, hu, hstep, hv⟩ := step_of_runTo h (Nat.lt_succ_self n) hperiod
      obtain rfl : st = v := Except.ok.inj (h.symm.trans hv)
      obtain ⟨hflatBefore, hrecordedBefore⟩ := ih (by omega) hu
      obtain ⟨st₂, fills, new, es, _, kind, p, htrade, hfills, hkind, hes, hevents, hattempts,
        hflat, hmatch⟩ :=
        outcome_period hu hperiod hstep
      rw [hevents]
      constructor
      · intro e he
        rcases List.mem_append.mp he with he | he
        · exact hflatBefore e he
        · obtain ⟨f, hf, hindex, hsymbol⟩ := exists_mem_of_forall₂ hattempts.flip he
          refine ⟨_, u, st₂, hindex ▸ hperiod, hindex ▸ hu, htrade, ?_⟩
          rw [hsymbol]
          exact (hflat f hf).mpr (hexits n f hf)
      · intro hrec
        obtain ⟨before, hbefore, hmatched⟩ := hrecordedBefore hrec
        have hnone : fills.filter (fun r ↦ r.kind = .stopExit) = [] := by
          rw [List.filter_eq_nil_iff]
          intro r hr
          rw [(hfills.context r hr).2, hkind hrec]
          decide
        have hall : es.filter (fun r ↦ r.kind = .stopExit) = es :=
          List.filter_eq_self.mpr fun r hr ↦ decide_eq_true (hes.context r hr).2
        refine ⟨before ++ fills ++ es, ?_, ?_⟩
        · rw [hes.executions, hfills.executions, hbefore]
          rfl
        · rw [List.filter_append, List.filter_append, hnone, hall, List.append_nil]
          exact List.rel_append hmatched (hmatch (hexits n))

variable {M : Type} {r : BacktestBridgeResult F M} {computeMetrics : List F → F → F → Option M}

/-- The stop events of a run are real exits if the run is given up, or if every fill that its stops
ask for takes back the whole position and is paid for; and only then. -/
theorem backtest_realExits_iff (haccepted : inp.accepted = true)
    (hr : inp.backtestWeightsWithOptions order computeMetrics = some r) :
    inp.RealExits order r ↔
      (∃ halt, inp.run order = .error halt) ∨ ∀ i, ∀ f ∈ inp.stopFills order i, f.Exits := by
  rw [backtestWeightsWithOptions, if_pos haccepted] at hr
  split at hr
  · next st hst =>
      cases hr
      constructor
      · intro hreal
        refine .inr fun i f hf ↦ ?_
        obtain ⟨e, he, -, -, hexit⟩ := exists_event hst hf
        exact hexit (hreal.flat e he)
      · rintro (⟨halt, hhalt⟩ | hexits)
        · rw [hst] at hhalt
          cases hhalt
        · rw [run_eq_runTo] at hst
          obtain ⟨hflat, hrecorded⟩ := realExits_runTo le_rfl hst hexits
          exact ⟨hflat, hrecorded⟩
  · next holding hhalt =>
      cases hr
      refine iff_of_true ⟨fun _ he ↦ absurd he List.not_mem_nil, fun hrec ↦ ⟨[], ?_, .nil⟩⟩
        (.inl ⟨_, hhalt⟩)
      simp only [unpricedResult, emptyResult, hrec, if_true]
  · cases hr

/-- A position of weight `w` that is stopped out by a loss of a tenth. -/
def stoppedOut (w : Int) (bars : List Bars) : BacktestInput (Option Rat) :=
  { allIn 1000 none bars with
    weightSchedule := bars.map fun _ ↦ [(aapl, F64.ofInt w)]
    options :=
      { (allIn 1000 none bars).options with
        stopCfg := some ⟨some (some (Rat.div 1 10)), none, none, 14⟩ } }

/-- A long position is sold as a whole. -/
theorem realExits_long : ∃ r,
    (stoppedOut 1 [[(aapl, flatBar 100)], [(aapl, flatBar 50)]]).backtestWeightsWithOptions
      .insertion
      (fun _ _ _ ↦ (none : Option Unit)) = some r ∧
    r.stopEvents = [⟨1, aapl, 90, 50, .fixed⟩] ∧
    (stoppedOut 1 [[(aapl, flatBar 100)], [(aapl, flatBar 50)]]).RealExits .insertion r := by
  have hrun :
    ((stoppedOut 1 [[(aapl, flatBar 100)], [(aapl, flatBar 50)]]).backtestWeightsWithOptions
      .insertion (fun _ _ _ ↦ (none : Option Unit))).map BacktestBridgeResult.stopEvents =
        some [⟨1, aapl, 90, 50, .fixed⟩] := by decide +kernel
  obtain ⟨r, hr, hevents⟩ := Option.map_eq_some_iff.mp hrun
  refine ⟨r, hr, hevents,
    (backtest_realExits_iff (by decide +kernel) hr).mpr (.inr fun i f hf ↦ ?_)⟩
  have hfills : ∀ i < 2, ((stoppedOut 1 [[(aapl, flatBar 100)], [(aapl, flatBar 50)]]).stopFills
      .insertion i).all (fun f ↦ f.Exits) = true := by decide +kernel
  by_cases hi : i < 2
  · exact of_decide_eq_true (List.all_eq_true.mp (hfills i hi) f hf)
  · have hnone : (stoppedOut 1 [[(aapl, flatBar 100)], [(aapl, flatBar 50)]]).periods[i]? = none :=
      List.getElem?_eq_none (not_lt.mp hi)
    rw [stopFills, hnone] at hf
    split at hf
    · next hperiod => cases hperiod
    · cases hf

/-- A short position that has trebled is covered as far as the cash goes, and four shares of it are
left. -/
theorem not_realExits_short : ∃ r,
    (stoppedOut (-1) [[(aapl, flatBar 100)], [(aapl, flatBar 300)]]).backtestWeightsWithOptions
      .insertion
      (fun _ _ _ ↦ (none : Option Unit)) = some r ∧
    r.stopEvents = [⟨1, aapl, 110, 300, .fixed⟩] ∧
    ¬ (stoppedOut (-1) [[(aapl, flatBar 100)], [(aapl, flatBar 300)]]).RealExits .insertion r := by
  have hrun :
    ((stoppedOut (-1) [[(aapl, flatBar 100)], [(aapl, flatBar 300)]]).backtestWeightsWithOptions
      .insertion (fun _ _ _ ↦ (none : Option Unit))).map BacktestBridgeResult.stopEvents =
        some [⟨1, aapl, 110, 300, .fixed⟩] := by decide +kernel
  have hleft : (((stoppedOut (-1) [[(aapl, flatBar 100)], [(aapl, flatBar 300)]]).periods[1]?).bind
      fun period ↦ ((stoppedOut (-1) [[(aapl, flatBar 100)], [(aapl, flatBar 300)]]).runTo
        .insertion 1).toOption.bind fun st ↦ (BridgeState.trade
          (stoppedOut (-1) [[(aapl, flatBar 100)], [(aapl, flatBar 300)]]) .insertion period
            st).toOption.map fun st' ↦ st'.portfolio.quantity aapl) = some (-4000000) := by
    decide +kernel
  obtain ⟨r, hr, hevents⟩ := Option.map_eq_some_iff.mp hrun
  refine ⟨r, hr, hevents, fun hreal ↦ ?_⟩
  obtain ⟨period, st, st', hperiod, hst, htrade, hflat⟩ := hreal.flat ⟨1, aapl, 110, 300, .fixed⟩
    (by rw [hevents]; exact List.mem_singleton_self _)
  simp only at hperiod hst hflat
  rw [hperiod, hst] at hleft
  simp only [Option.bind_some, Except.toOption, htrade, Option.map_some, hflat] at hleft
  exact absurd hleft (by decide)

end BacktestInput

end Nanobook
