import Nanobook.Backtest.Bridge
import Nanobook.Lib.Steps

/-!
# Periods and steps

What the parts of a period do, each said once, and what a run is made of.
-/

namespace Nanobook

open Rebalancer (Symbol collected)

variable {F : Type} [F64 F] {inp : BacktestInput F} {order : HashMap.Order Symbol}

theorem Halt.ofOption_eq_ok {A : Type} {x : Option A} {a : A} (h : Halt.ofOption x = .ok a) :
    x = some a := by
  cases x with
  | none => cases h
  | some b =>
      cases h
      rfl

theorem Halt.ofOption_eq_error {A : Type} {x : Option A} {halt : Halt}
    (h : Halt.ofOption x = .error halt) :
    x = none ∧ halt = .stuck := by
  cases x with
  | none =>
      cases h
      exact ⟨rfl, rfl⟩
  | some b => cases h

/-! ## The parts of a period -/

namespace BridgeState

variable {period : Period F} {st st' : BridgeState F}

theorem step_ok (h : step inp order st period = .ok st') : ∃ st₁ st₂,
    rebalance inp order period (applyBudgets inp period (recordSymbolReturns period st)) = .ok st₁ ∧
      applyStops inp order period st₁ = .ok st₂ ∧ closePeriod order period st₂ = .ok st' := by
  obtain ⟨st₁, h₁, h⟩ := Steps.bind_eq_ok.mp h
  obtain ⟨st₂, h₂, h₃⟩ := Steps.bind_eq_ok.mp h
  exact ⟨st₁, st₂, h₁, h₂, h₃⟩

/-- The portfolio a rebalance of the period starts from. -/
def rebalancing (inp : BacktestInput F) (period : Period F) (st : BridgeState F) : Portfolio F :=
  if inp.options.recordExecutions then st.portfolio.setExecutionContext period.index .rebalance
  else st.portfolio

/-- A rebalance is skipped for want of bars, or every open position has a fill price. -/
theorem rebalance_ok (h : rebalance inp order period st = .ok st') :
    (period.fillPrices = none ∧
      st' = { st with skippedRebalances := st.skippedRebalances ++ [period.index] }) ∨
    ∃ fillPrices p, period.fillPrices = some fillPrices ∧
      st.portfolio.unpricedHolding order (collected fillPrices) = none ∧
      (rebalancing inp period st).rebalanceSimple (collected fillPrices) order period.weights =
        some p ∧
      st' = chargeBudgets inp { st with portfolio := p } := by
  rw [rebalance] at h
  split at h
  · next hnone =>
      cases h
      exact .inl ⟨hnone, rfl⟩
  · next fillPrices hfill =>
      split at h
      · cases h
      · next hpriced =>
          obtain ⟨p, hp, h⟩ := Steps.bind_eq_ok.mp h
          cases h
          exact .inr ⟨fillPrices, p, hfill, hpriced, Halt.ofOption_eq_ok hp, rfl⟩

/-- The stops are not configured, or the stop step returns. -/
theorem applyStops_ok (h : applyStops inp order period st = .ok st') :
    (inp.options.stopCfg.bind BacktestStopConfig.sanitized = none ∧ st' = st) ∨
    ∃ cfg stops, inp.options.stopCfg.bind BacktestStopConfig.sanitized = some cfg ∧
      applyStopCfg cfg period.index order (closes period)
        ⟨st.portfolio, st.stopTrackers, st.stopEvents⟩ = some stops ∧
      st' = { st with
        portfolio := stops.portfolio, stopTrackers := stops.trackers, stopEvents :=
          stops.events } := by
  rw [applyStops] at h
  split at h
  · next hnone =>
      cases h
      exact .inl ⟨hnone, rfl⟩
  · next cfg hcfg =>
      obtain ⟨stops, hstops, h⟩ := Steps.bind_eq_ok.mp h
      cases h
      exact .inr ⟨cfg, stops, hcfg, Halt.ofOption_eq_ok hstops, rfl⟩

/-- A period is recorded if every open position has a close. -/
theorem closePeriod_ok (h : closePeriod order period st = .ok st') :
    st.portfolio.unpricedHolding order (closes period) = none ∧
      st' =
        { st with
          portfolio := st.portfolio.recordReturn order (closes period)
          holdings := st.holdings ++
            [sortBySymbol (st.portfolio.currentWeights order (closes period)
              (st.portfolio.totalEquity order (closes period)))]
          equityCurve := st.equityCurve ++ [st.portfolio.totalEquity order (closes period)]
          cashSnapshots := st.cashSnapshots.map fun snapshots ↦ snapshots ++ [st.portfolio.cash]
          prevPrices := closes period } := by
  rw [closePeriod] at h
  split at h
  · cases h
  · next hpriced =>
      cases h
      exact ⟨hpriced, rfl⟩

end BridgeState

/-! ## Stops -/

section Stops

variable {cfg : BacktestStopConfig F} {periodIndex : Nat} {st st' : StopState F}
  {pos : OpenPosition}

/-- A position is left as it is, or closed. -/
theorem stopPosition_cases (h : stopPosition cfg periodIndex st pos = some st') :
    (st'.portfolio = st.portfolio ∧ st'.events = st.events ∧
      breach cfg (trackerAt cfg st.trackers pos) pos.price = none) ∨
    ∃ stop p closed, breach cfg (trackerAt cfg st.trackers pos) pos.price = some stop ∧
      (st.portfolio.setExecutionContext periodIndex .stopExit).closePositionAt pos.symbol
        pos.price =
        some (p, closed) ∧ st'.portfolio = p ∧
      st'.events = st.events ++
        if closed then [⟨periodIndex, pos.symbol, stop.1, pos.price, stop.2⟩] else [] := by
  rw [stopPosition] at h
  split at h
  · next hnone =>
      cases h
      exact .inl ⟨rfl, rfl, hnone⟩
  · next stopLevel reason hstop =>
      obtain ⟨⟨p, closed⟩, hp, h⟩ := Option.bind_eq_some_iff.mp h
      refine .inr ⟨(stopLevel, reason), p, closed, hstop, hp, ?_⟩
      cases closed with
      | true =>
          cases h
          exact ⟨rfl, rfl⟩
      | false =>
          cases h
          exact ⟨rfl, (List.append_nil _).symm⟩

/-- What every fill of a stop preserves, the stop step preserves. -/
theorem applyStopCfg_invariant {I : Portfolio F → Prop} {prices : PriceMap}
    (hcontext : ∀ p, I p → I (p.setExecutionContext periodIndex .stopExit))
    (hfill : ∀ p p' symbol qty price, InI64 qty → I p →
        p.executeFill symbol qty price = some p' → I p')
    (hst : I st.portfolio) (h : applyStopCfg cfg periodIndex order prices st = some st') :
    I st'.portfolio := by
  simp only [applyStopCfg] at h
  refine Loop.foldlM_invariant (I := fun st : StopState F ↦ I st.portfolio) ?_ ?_ h
  · intro s pos _ t hs ht
    rcases stopPosition_cases ht with ⟨hp, -⟩ | ⟨stop, p, closed, -, hclose, rfl, -⟩
    · rwa [hp]
    · rcases Portfolio.closePositionAt_cases hclose with heq | ⟨-, -, -, hf⟩
      · rw [(Prod.mk.inj heq).1]
        exact hcontext _ hs
      · exact hfill _ _ _ _ _ (inI64_clampI64 _) (hcontext _ hs) hf
  · exact hst

/-- A stop keeps the quantity step. -/
theorem quantityStep_stopPosition (h : stopPosition cfg periodIndex st pos = some st') :
    st'.portfolio.quantityStep = st.portfolio.quantityStep := by
  rcases stopPosition_cases h with ⟨hp, -⟩ | ⟨stop, p, closed, -, hclose, rfl, -⟩
  · rw [hp]
  · rcases Portfolio.closePositionAt_cases hclose with heq | ⟨-, -, -, hf⟩
    · rw [(Prod.mk.inj heq).1]
      rfl
    · exact (Portfolio.kept_executeFill (inI64_clampI64 _) hf).quantityStep

/-- Stops can be worked off if the step is not a single micro-share. -/
theorem exists_applyStopCfg {prices : PriceMap} (hstep : st.portfolio.quantityStep ≠ 1) :
    ∃ st', applyStopCfg cfg periodIndex order prices st = some st' := by
  have hpass : ∀ (s : StopState F) (pos : OpenPosition), s.portfolio.quantityStep ≠ 1 →
      ∃ s', stopPosition cfg periodIndex s pos = some s' := by
    intro s pos hs
    rw [stopPosition]
    split
    · exact ⟨_, rfl⟩
    · next stopLevel reason _ =>
        obtain ⟨⟨p, closed⟩, hp⟩ : ∃ r,
            (s.portfolio.setExecutionContext periodIndex .stopExit).closePositionAt pos.symbol
              pos.price =
              some r := Portfolio.exists_closePositionAt hs
        simp only [hp, Option.bind_eq_bind, Option.bind_some]
        split
        · exact ⟨_, rfl⟩
        · exact ⟨_, rfl⟩
  have hfold : ∀ (l : List OpenPosition) (s : StopState F), s.portfolio.quantityStep ≠ 1 →
      ∃ s', l.foldlM (stopPosition cfg periodIndex) s = some s' := by
    intro l s hs
    obtain ⟨-, s', hs', -⟩ := Loop.exists_foldlM (f := fun _ ↦ stopPosition cfg periodIndex)
      (I := fun s : StopState F ↦ s.portfolio.quantityStep ≠ 1) (fun _ _ _ _ _ _ h ↦ h) l
      (fun s pos _ hs ↦ by
        obtain ⟨s', hs'⟩ := hpass s pos hs
        exact ⟨0, s', hs', fun h ↦ hs ((quantityStep_stopPosition hs').symm.trans h)⟩) hs
    exact ⟨s', hs'⟩
  exact hfold _ _ hstep

end Stops

/-! ## What a period keeps -/

/-- The series of a run and what they are continued from are as they were. -/
structure BridgeState.SameSeries (st st' : BridgeState F) : Prop where
  equityCurve : st'.equityCurve = st.equityCurve
  holdings : st'.holdings = st.holdings
  symbolReturns : st'.symbolReturns = st.symbolReturns
  cashSnapshots : st'.cashSnapshots = st.cashSnapshots
  returns : st'.portfolio.returns = st.portfolio.returns
  prevEquity : st'.portfolio.prevEquity = st.portfolio.prevEquity
  quantityStep : st'.portfolio.quantityStep = st.portfolio.quantityStep

namespace BridgeState

variable {period : Period F} {st st' : BridgeState F}

omit [F64 F] in
/-- The caps of the portfolio are set and the budgets brought up to the period, at most. -/
theorem applyBudgets_eq (inp : BacktestInput F) (period : Period F) (st : BridgeState F) :
    ∃ budgets cap value, applyBudgets inp period st =
      { st with
        budgets
        portfolio :=
          (st.portfolio.setMaxTradesPerRebalance cap).setMaxRebalanceNotional value } := by
  rw [applyBudgets]
  split
  · exact ⟨_, _, _, rfl⟩
  · exact ⟨st.budgets, st.portfolio.maxTradesPerRebalance, st.portfolio.maxRebalanceNotional, rfl⟩

omit [F64 F] in
theorem chargeBudgets_eq (inp : BacktestInput F) (st : BridgeState F) :
    ∃ budgets, chargeBudgets inp st = { st with budgets } := by
  rw [chargeBudgets]
  split
  · exact ⟨_, rfl⟩
  · exact ⟨st.budgets, rfl⟩

omit [F64 F] in
theorem sameSeries_applyBudgets (st : BridgeState F) :
    st.SameSeries (applyBudgets inp period st) := by
  obtain ⟨budgets, cap, value, heq⟩ := applyBudgets_eq inp period st
  rw [heq]
  exact ⟨rfl, rfl, rfl, rfl, rfl, rfl, rfl⟩

theorem sameSeries_rebalance (h : rebalance inp order period st = .ok st') : st.SameSeries st' := by
  rcases rebalance_ok h with ⟨-, rfl⟩ | ⟨fillPrices, p, -, -, hp, rfl⟩
  · exact ⟨rfl, rfl, rfl, rfl, rfl, rfl, rfl⟩
  · obtain ⟨budgets, heq⟩ := chargeBudgets_eq inp { st with portfolio := p }
    have hkept := Portfolio.kept_rebalanceSimple hp
    have hstart : (rebalancing inp period st).returns = st.portfolio.returns ∧
        (rebalancing inp period st).prevEquity = st.portfolio.prevEquity ∧
        (rebalancing inp period st).quantityStep = st.portfolio.quantityStep := by
      rw [rebalancing]
      split
      · exact ⟨rfl, rfl, rfl⟩
      · exact ⟨rfl, rfl, rfl⟩
    rw [heq]
    exact ⟨rfl, rfl, rfl, rfl, hkept.returns.trans hstart.1, hkept.prevEquity.trans hstart.2.1,
      hkept.quantityStep.trans hstart.2.2⟩

theorem sameSeries_applyStops (h : applyStops inp order period st = .ok st') :
    st.SameSeries st' := by
  rcases applyStops_ok h with ⟨-, rfl⟩ | ⟨cfg, stops, -, hstops, rfl⟩
  · exact ⟨rfl, rfl, rfl, rfl, rfl, rfl, rfl⟩
  · have hkept : stops.portfolio.returns = st.portfolio.returns ∧
        stops.portfolio.prevEquity = st.portfolio.prevEquity ∧
        stops.portfolio.quantityStep = st.portfolio.quantityStep :=
      applyStopCfg_invariant (I := fun p ↦ p.returns = st.portfolio.returns ∧
        p.prevEquity = st.portfolio.prevEquity ∧ p.quantityStep = st.portfolio.quantityStep)
        (fun p h ↦ h) (fun p p' _ _ _ hq h hf ↦
          have hk := Portfolio.kept_executeFill hq hf
          ⟨hk.returns.trans h.1, hk.prevEquity.trans h.2.1, hk.quantityStep.trans h.2.2⟩)
        ⟨rfl, rfl, rfl⟩ hstops
    exact ⟨rfl, rfl, rfl, rfl, hkept.1, hkept.2.1, hkept.2.2⟩

omit [F64 F] in
theorem SameSeries.trans {st₁ st₂ st₃ : BridgeState F} (h : st₁.SameSeries st₂)
    (h' : st₂.SameSeries st₃) : st₁.SameSeries st₃ where
  equityCurve := h'.equityCurve.trans h.equityCurve
  holdings := h'.holdings.trans h.holdings
  symbolReturns := h'.symbolReturns.trans h.symbolReturns
  cashSnapshots := h'.cashSnapshots.trans h.cashSnapshots
  returns := h'.returns.trans h.returns
  prevEquity := h'.prevEquity.trans h.prevEquity
  quantityStep := h'.quantityStep.trans h.quantityStep

/-- What a period adds to the series. -/
theorem series_step (h : step inp order st period = .ok st') : ∃ st₂,
    (recordSymbolReturns period st).SameSeries st₂ ∧ closePeriod order period st₂ = .ok st' := by
  obtain ⟨st₁, st₂, hreb, hstops, hclose⟩ := step_ok h
  exact ⟨st₂, ((sameSeries_applyBudgets _).trans (sameSeries_rebalance hreb)).trans
    (sameSeries_applyStops hstops), hclose⟩

end BridgeState

/-! ## Periods of the input -/

namespace BacktestInput

variable {i : Nat} {period : Period F}

omit [F64 F] in
theorem getElem?_periods (h : inp.periods[i]? = some period) : ∃ weights bars,
    inp.weightSchedule[i]? = some weights ∧ inp.priceSchedule[i]? = some bars ∧
      period = inp.period i weights bars := by
  rw [periods, List.getElem?_map, List.getElem?_zipIdx, Option.map_map] at h
  obtain ⟨⟨weights, bars⟩, he, rfl⟩ := Option.map_eq_some_iff.mp h
  rw [List.getElem?_zip_eq_some] at he
  exact ⟨weights, bars, he.1, he.2, by simp⟩

omit [F64 F] in
/-- A period knows its index. -/
theorem index_of_periods (h : inp.periods[i]? = some period) : period.index = i := by
  obtain ⟨weights, bars, -, -, rfl⟩ := getElem?_periods h
  rfl

omit [F64 F] in
theorem length_periods_of_eq (h : inp.weightSchedule.length = inp.priceSchedule.length) :
    inp.periods.length = inp.weightSchedule.length := by
  rw [periods, List.length_map, List.length_zipIdx, List.length_zip, ← h, Nat.min_self]

/-- What validation makes sure of. -/
theorem accepted_iff : inp.accepted = true ↔ inp.validInputs = true ∧
    aligned inp.options.periodDayOrdinal inp.weightSchedule.length = true ∧
    aligned inp.options.periodMonthOrdinal inp.weightSchedule.length = true ∧
    aligned inp.options.fillSchedule inp.weightSchedule.length = true := by
  simp only [accepted, Bool.and_eq_true, and_assoc]

theorem validInputs_iff : inp.validInputs = true ↔
    inp.weightSchedule.length = inp.priceSchedule.length ∧ 0 < inp.initialCashCents ∧
    ∀ e ∈ inp.weightSchedule.zip inp.priceSchedule,
      (∀ w ∈ e.1, F64.isFinite w.2 = true) ∧ ∀ b ∈ e.2, validBar b.2 = true := by
  simp only [validInputs, Bool.and_eq_true, decide_eq_true_eq, List.all_eq_true, and_assoc]

/-- An accepted input has a period for each entry of the weight schedule. -/
theorem length_periods (h : inp.accepted = true) : inp.periods.length = inp.weightSchedule.length :=
  length_periods_of_eq (validInputs_iff.mp (accepted_iff.mp h).1).1

end BacktestInput

end Nanobook
