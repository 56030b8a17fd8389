import Nanobook.Backtest.HoldingTime
import Nanobook.Portfolio.Binary64

/-!
# Running sums of contributions

What is reported as the cumulative contribution of a symbol is the sum of its reported
contributions, added up in order.  With the trades this is what decomposing a backtest amounts to.
-/

namespace Nanobook

open Rebalancer (Symbol)

variable {F : Type} [F64 F]

/-- The contributions of a symbol, added up from zero. -/
def runningSum (sym : Symbol) (contributions : List (Symbol × F)) : F :=
  ((contributions.filter fun e ↦ e.1 = sym).map Prod.snd).foldl (· + ·) (F64.ofInt 0)

theorem runningSum_append_singleton (sym : Symbol) (contributions : List (Symbol × F))
    (e : Symbol × F) : runningSum sym (contributions ++ [e]) =
      if e.1 = sym then runningSum sym contributions + e.2 else runningSum sym contributions := by
  rw [runningSum, runningSum, List.filter_append, List.filter_singleton]
  by_cases h : e.1 = sym <;> simp [h]

/-- Each contribution of each period replaced by the sum of those of its symbol up to there. -/
def runningSums (contributions : List (List (Symbol × F))) : List (List (Symbol × F)) :=
  contributions.mapIdx fun k period ↦
    period.map fun e ↦ (e.1, runningSum e.1 (contributions.take (k + 1)).flatten)

theorem runningSums_append_singleton (contributions : List (List (Symbol × F)))
    (period : List (Symbol × F)) : runningSums (contributions ++ [period]) =
      runningSums contributions ++
        [period.map fun e ↦ (e.1, runningSum e.1 (contributions.flatten ++ period))] := by
  rw [runningSums, List.mapIdx_concat, runningSums]
  refine congrArg₂ (· ++ ·) ?_ ?_
  · refine List.ext_getElem (by simp) fun k hk _ ↦ ?_
    rw [List.length_mapIdx] at hk
    rw [List.getElem_mapIdx, List.getElem_mapIdx, List.take_append_of_le_length hk]
  · rw [List.take_of_length_le (by simp), List.flatten_append, List.flatten_singleton]

/-- In order of the symbols, each once. -/
def InOrder (symbols : List Symbol) : Prop := symbols.Pairwise fun a b ↦ a.asStr < b.asStr

theorem InOrder.nodup {symbols : List Symbol} (h : InOrder symbols) : symbols.Nodup :=
  h.imp fun {a b} hlt heq ↦ by
    rw [heq] at hlt
    exact lt_irrefl _ hlt

/-- Sorting changes nothing that is in order. -/
theorem sortBySymbol_eq {A : Type} {l : List (Symbol × A)} (h : InOrder (l.map Prod.fst)) :
    BridgeState.sortBySymbol l = l :=
  List.Pairwise.insertionSort_eq ((List.pairwise_map.mp h).imp fun hlt ↦ not_lt.mpr hlt.le)

omit [F64 F] in
theorem inOrder_periodSymbols (weights returns previousWeights : List (Symbol × F)) :
    InOrder (Decomposition.periodSymbols weights returns previousWeights) := by
  have : Std.Total fun a b : Symbol ↦ ¬ b.asStr < a.asStr :=
    ⟨fun a b ↦ by simpa only [not_lt] using le_total a.asStr b.asStr⟩
  have : IsTrans Symbol fun a b ↦ ¬ b.asStr < a.asStr :=
    ⟨fun a b c hab hbc ↦ not_lt.mpr ((not_lt.mp hab).trans (not_lt.mp hbc))⟩
  have hsorted := (List.pairwise_insertionSort (fun a b : Symbol ↦ ¬ b.asStr < a.asStr)
    ((weights ++ returns ++ previousWeights).map Prod.fst)).sublist (List.dedup_sublist _)
  refine (hsorted.and (List.nodup_dedup _)).imp fun h ↦ ?_
  exact lt_of_le_of_ne (not_lt.mp h.1) fun heq ↦ h.2 (Rebalancer.Symbol.asStr_injective heq)

namespace Decomposition

/-! ## Within a period -/

/-- The sum kept for a symbol. -/
def kept (d : Decomposition F) (sym : Symbol) : F := (d.cumulative.get? sym).getD (F64.ofInt 0)

/-- While the symbols of a period are gone through, those that are `done` may have contributed. -/
structure Sums (done : List Symbol) (d : Decomposition F) : Prop where
  kept_eq : ∀ sym, d.kept sym = runningSum sym (d.contributions.flatten ++ d.periodContrib)
  cumulative_eq : d.periodCumulative = d.periodContrib.map fun e ↦ (e.1, d.kept e.1)
  symbols : (d.periodContrib.map Prod.fst).Sublist done

section Sums

variable {done symbols : List Symbol} {d : Decomposition F} {symbol : Symbol} {periodIndex : Nat}
  {weight previous periodReturn : F} {weights returns : List (Symbol × F)}

theorem Sums.updateTrade (h : Sums done d) :
    Sums done (updateTrade periodIndex symbol weight previous d) := by
  rw [Decomposition.updateTrade]
  split_ifs
  · exact ⟨h.kept_eq, h.cumulative_eq, h.symbols⟩
  · cases d.openTrades.get? symbol <;> exact ⟨h.kept_eq, h.cumulative_eq, h.symbols⟩
  · exact h

/-- A symbol that comes for the first time in a period. -/
theorem Sums.updateContribution (h : Sums done d) (hnew : symbol ∉ done) :
    Sums (done ++ [symbol]) (updateContribution symbol weight previous periodReturn d) := by
  rw [Decomposition.updateContribution]
  split_ifs
  · have hkept (sym : Symbol) : ((d.cumulative.insert symbol ((d.cumulative.get? symbol).getD
          (F64.ofInt 0) + weight * periodReturn)).get? sym).getD (F64.ofInt 0) =
        if symbol = sym then d.kept symbol + weight * periodReturn else d.kept sym := by
      rw [HashMap.get?_insert]
      split_ifs <;> rfl
    refine ⟨fun sym ↦ ?_, ?_, ?_⟩
    · refine (hkept sym).trans ?_
      rw [← List.append_assoc, runningSum_append_singleton, ← h.kept_eq]
      split_ifs with heq
      · rw [heq]
      · rfl
    · simp only [kept, hkept, List.map_append, List.map_cons, List.map_nil, if_true]
      rw [h.cumulative_eq]
      refine congrArg (· ++ _) (List.map_congr_left fun e he ↦ ?_)
      have hne : symbol ≠ e.1 := fun heq ↦
        hnew (heq ▸ h.symbols.subset (List.mem_map_of_mem he))
      rw [if_neg hne, kept]
    · rw [List.map_append]
      exact h.symbols.append (List.Sublist.refl _)
  · exact ⟨h.kept_eq, h.cumulative_eq, h.symbols.trans (List.sublist_append_left _ _)⟩

theorem Sums.foldl (h : Sums done d) (hdistinct : (done ++ symbols).Nodup) :
    Sums (done ++ symbols) (symbols.foldl (updateSymbol periodIndex weights returns) d) := by
  induction symbols generalizing done d with
  | nil => rwa [List.append_nil]
  | cons symbol symbols ih =>
      have hnew : symbol ∉ done := fun hmem ↦
        (List.nodup_append'.mp hdistinct).2.2 hmem List.mem_cons_self
      have hcons : done ++ symbol :: symbols = (done ++ [symbol]) ++ symbols := by simp
      rw [hcons] at hdistinct ⊢
      exact ih (h.updateTrade.updateContribution hnew) hdistinct

end Sums

/-! ## Over the periods -/

/-- Between two periods. -/
structure Filed (d : Decomposition F) : Prop where
  sums : Sums [] d
  running : d.cumulativeContributions = runningSums d.contributions

theorem filed_init : Filed (init : Decomposition F) where
  sums := ⟨fun _ ↦ rfl, rfl, List.Sublist.refl _⟩
  running := rfl

section Filed

variable {d : Decomposition F} {symbols : List Symbol}

/-- Once its symbols have been gone through, a period is filed. -/
theorem Sums.endPeriod (h : Sums symbols d) (horder : InOrder symbols)
    (hrunning : d.cumulativeContributions = runningSums d.contributions)
    (weights : List (Symbol × F)) : Filed (d.endPeriod weights) := by
  have hcontrib : BridgeState.sortBySymbol d.periodContrib = d.periodContrib :=
    sortBySymbol_eq (horder.sublist h.symbols)
  have hcumulative : BridgeState.sortBySymbol d.periodCumulative = d.periodCumulative := by
    refine sortBySymbol_eq (horder.sublist ?_)
    rw [h.cumulative_eq, List.map_map]
    exact h.symbols
  rw [Decomposition.endPeriod, hcontrib, hcumulative]
  refine ⟨⟨fun sym ↦ (h.kept_eq sym).trans ?_, rfl, List.Sublist.refl _⟩, ?_⟩
  · rw [List.append_nil, List.flatten_append, List.flatten_singleton]
  · simp only [runningSums_append_singleton, hrunning, h.cumulative_eq, h.kept_eq]

/-- The loop over the symbols files nothing. -/
theorem contributions_foldl {periodIndex : Nat} {weights returns : List (Symbol × F)} :
    (symbols.foldl (updateSymbol periodIndex weights returns) d).contributions = d.contributions ∧
      (symbols.foldl (updateSymbol periodIndex weights returns) d).cumulativeContributions =
        d.cumulativeContributions := by
  induction symbols generalizing d with
  | nil => exact ⟨rfl, rfl⟩
  | cons symbol symbols ih =>
      have hone : (updateSymbol periodIndex weights returns d symbol).contributions =
            d.contributions ∧
          (updateSymbol periodIndex weights returns d symbol).cumulativeContributions =
            d.cumulativeContributions := by
        rw [updateSymbol, updateContribution, Decomposition.updateTrade]
        split_ifs <;> first | exact ⟨rfl, rfl⟩ | cases d.openTrades.get? symbol <;> exact ⟨rfl, rfl⟩
      rw [List.foldl_cons, ih.1, ih.2, hone.1, hone.2]
      exact ⟨rfl, rfl⟩

theorem Filed.step (h : Filed d) (period : (List (Symbol × F) × List (Symbol × F)) × Nat) :
    Filed (step d period) := by
  obtain ⟨⟨weights, returns⟩, periodIndex⟩ := period
  have horder := inOrder_periodSymbols weights returns d.previousWeights
  have hsums : Sums ([] ++ periodSymbols weights returns d.previousWeights)
      ((periodSymbols weights returns d.previousWeights).foldl
        (updateSymbol periodIndex weights returns) d) :=
    h.sums.foldl horder.nodup
  refine hsums.endPeriod horder ?_ weights
  rw [contributions_foldl.1, contributions_foldl.2, h.running]

theorem Filed.foldl {periods : List ((List (Symbol × F) × List (Symbol × F)) × Nat)}
    (h : Filed d) : Filed (periods.foldl Decomposition.step d) := by
  induction periods generalizing d with
  | nil => exact h
  | cons period periods ih => exact ih (h.step period)

end Filed

end Decomposition

/-- The cumulative contributions are the running sums of the contributions. -/
theorem cumulativeContributions_eq (order : HashMap.Order Symbol)
    (weightSchedule returnSchedule : List (List (Symbol × F))) :
    (decomposeBacktest order weightSchedule returnSchedule).cumulativeContributions =
      runningSums (decomposeBacktest order weightSchedule returnSchedule).contributions := by
  rw [decomposeBacktest]
  split_ifs
  · rfl
  · exact (Decomposition.filed_init.foldl).running

theorem zeroIsZero_binary64 : Decomposition.ZeroIsZero Float.Model := by
  rw [Decomposition.ZeroIsZero]
  decide +kernel

/-- Over `f64`, decomposing a backtest partitions the time for which each symbol is held into its
trades, and adds up its contributions. -/
theorem decomposeBacktest_partitions (order : HashMap.Order Symbol)
    (weightSchedule returnSchedule : List (List (Symbol × Float.Model)))
    (hlength : weightSchedule.length = returnSchedule.length)
    (hunique : ∀ weights ∈ weightSchedule, (weights.map Prod.fst).Nodup) :
    (∀ sym, PartitionsHoldingTime weightSchedule
      (decomposeBacktest order weightSchedule returnSchedule).trades sym) ∧
    (decomposeBacktest order weightSchedule returnSchedule).cumulativeContributions =
      runningSums (decomposeBacktest order weightSchedule returnSchedule).contributions :=
  ⟨partitionsHoldingTime zeroIsZero_binary64 hlength hunique order,
    cumulativeContributions_eq order weightSchedule returnSchedule⟩

/-- AAPL is held in the first and the third of three periods. -/
theorem decomposeBacktest_partitions_aapl :
    let aapl : Symbol := ⟨"AAPL", by decide⟩
    let weights : List (List (Symbol × Float.Model)) := [[(aapl, .ofInt 1)], [], [(aapl, .ofInt 1)]]
    spansOf aapl (decomposeBacktest .insertion weights weights).trades = [(0, some 1), (2, none)] ∧
    (∀ sym, PartitionsHoldingTime weights
      (decomposeBacktest .insertion weights weights).trades sym) ∧
    (decomposeBacktest .insertion weights weights).cumulativeContributions =
      runningSums (decomposeBacktest .insertion weights weights).contributions :=
  ⟨by decide +kernel, decomposeBacktest_partitions .insertion _ _ rfl (by decide)⟩

end Nanobook
