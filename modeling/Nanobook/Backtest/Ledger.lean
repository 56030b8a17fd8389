import Nanobook.Backtest.Run
import Nanobook.Portfolio.Ledger

/-!
# What a period appends

A period appends one entry to each series, and to the ledger the fills of its rebalance and then
those of its stops.  Nothing that has been written is touched again.
-/

namespace Nanobook

open Rebalancer (Symbol collected)

variable {F : Type} [F64 F] {inp : BacktestInput F} {order : HashMap.Order Symbol}

/-! ## Stops -/

section Stops

variable {cfg : BacktestStopConfig F} {periodIndex : Nat} {st st' : StopState F}

theorem recorded_stopPosition {pos : OpenPosition}
    (h : stopPosition cfg periodIndex st pos = some st') :
    ∃ l, Portfolio.Recorded periodIndex .stopExit st.portfolio st'.portfolio l := by
  rcases stopPosition_cases h with ⟨hp, -⟩ | ⟨stop, p, closed, -, hclose, rfl, -⟩
  · rw [hp]
    exact ⟨[], .refl _⟩
  · obtain ⟨l, hl⟩ := Portfolio.recorded_closePositionAt hclose
    exact ⟨l, hl.entries, hl.executions, hl.sequence, hl.context⟩

/-- The stop step appends exits and events of its period. -/
theorem recorded_applyStopCfg {prices : PriceMap}
    (h : applyStopCfg cfg periodIndex order prices st = some st') :
    (∃ l, Portfolio.Recorded periodIndex .stopExit st.portfolio st'.portfolio l) ∧
      ∃ new, st'.events = st.events ++ new ∧ ∀ e ∈ new, e.periodIndex = periodIndex := by
  simp only [applyStopCfg] at h
  refine Loop.foldlM_invariant (I := fun s : StopState F ↦
    (∃ l, Portfolio.Recorded periodIndex .stopExit st.portfolio s.portfolio l) ∧
      ∃ new, s.events = st.events ++ new ∧ ∀ e ∈ new, e.periodIndex = periodIndex) ?_ ?_ h
  · rintro s pos - t ⟨⟨l, hl⟩, new, hnew, hindex⟩ ht
    obtain ⟨l', hl'⟩ := recorded_stopPosition ht
    refine ⟨⟨l ++ l', hl.trans hl'⟩, ?_⟩
    rcases stopPosition_cases ht with ⟨-, hevents, -⟩ | ⟨stop, p, closed, -, -, -, hevents⟩
    · exact ⟨new, hevents.trans hnew, hindex⟩
    · refine ⟨new ++ if closed then [⟨periodIndex, pos.symbol, stop.1, pos.price, stop.2⟩] else [],
        by rw [hevents, hnew, List.append_assoc], fun e he ↦ ?_⟩
      rcases List.mem_append.mp he with he | he
      · exact hindex e he
      · cases closed with
        | true => rw [List.mem_singleton.mp he]
        | false => cases he
  · exact ⟨⟨[], .refl _⟩, [], (List.append_nil _).symm, fun _ h ↦ absurd h List.not_mem_nil⟩

end Stops

/-! ## A period -/

namespace BridgeState

variable {period : Period F} {st st' : BridgeState F}

/-- What the rebalance of a period records carries the period if fills are recorded at all. -/
theorem recorded_rebalance (h : rebalance inp order period st = .ok st') : ∃ periodIndex kind l,
    Portfolio.Recorded periodIndex kind st.portfolio st'.portfolio l ∧
      (inp.options.recordExecutions = true → periodIndex = period.index ∧ kind = .rebalance) := by
  rcases rebalance_ok h with ⟨-, rfl⟩ | ⟨fillPrices, p, -, -, hp, rfl⟩
  · exact ⟨period.index, .rebalance, [], .refl _, fun _ ↦ ⟨rfl, rfl⟩⟩
  · obtain ⟨l, hl, -⟩ := Portfolio.recorded_rebalanceSimple hp
    obtain ⟨budgets, heq⟩ := chargeBudgets_eq inp { st with portfolio := p }
    have hsame : (rebalancing inp period st).account = st.portfolio.account ∧
        (rebalancing inp period st).executions = st.portfolio.executions := by
      rw [rebalancing]
      split <;> exact ⟨rfl, rfl⟩
    rw [heq]
    refine ⟨_, _, l,
      ⟨hsame.1 ▸ hl.entries, hsame.2 ▸ hl.executions, hsame.2 ▸ hl.sequence, hl.context⟩,
      fun hrec ↦ ?_⟩
    rw [rebalancing, if_pos hrec]
    exact ⟨rfl, rfl⟩

theorem recorded_applyStops (h : applyStops inp order period st = .ok st') :
    (∃ l, Portfolio.Recorded period.index .stopExit st.portfolio st'.portfolio l) ∧
      ∃ new, st'.stopEvents = st.stopEvents ++ new ∧ ∀ e ∈ new, e.periodIndex = period.index := by
  rcases applyStops_ok h with ⟨-, rfl⟩ | ⟨cfg, stops, -, hstops, rfl⟩
  · exact ⟨⟨[], .refl _⟩, [], (List.append_nil _).symm, fun _ h ↦ absurd h List.not_mem_nil⟩
  · exact recorded_applyStopCfg hstops

/-- The ledger of a period: the fills of its rebalance, then the exits of its stops. -/
theorem recorded_step (h : step inp order st period = .ok st') : ∃ periodIndex kind p fills exits,
    Portfolio.Recorded periodIndex kind st.portfolio p fills ∧
      (inp.options.recordExecutions = true → periodIndex = period.index ∧ kind = .rebalance) ∧
      Portfolio.Recorded period.index .stopExit p st'.portfolio exits := by
  obtain ⟨st₁, st₂, hreb, hstops, hclose⟩ := step_ok h
  obtain ⟨periodIndex, kind, fills, hfills, hcontext⟩ := recorded_rebalance hreb
  obtain ⟨⟨exits, hexits⟩, -⟩ := recorded_applyStops hstops
  obtain ⟨-, rfl⟩ := closePeriod_ok hclose
  obtain ⟨budgets, cap, value, heq⟩ := applyBudgets_eq inp period (recordSymbolReturns period st)
  rw [heq] at hfills
  exact ⟨periodIndex, kind, st₁.portfolio, fills, exits,
    ⟨hfills.entries, hfills.executions, hfills.sequence, hfills.context⟩, hcontext,
    ⟨hexits.entries, hexits.executions, hexits.sequence, hexits.context⟩⟩

end BridgeState

end Nanobook
