import Nanobook.Backtest.Ledger
import Nanobook.Backtest.Shapes

/-!
# No look-ahead

Two runs over schedules that agree on the first periods are one run up to there, and what comes
after only appends to what has been written.
-/

namespace Nanobook

open Rebalancer (Symbol collected)

variable {F : Type} {M : Type}

/-! ## Inputs and outputs up to a period -/

namespace BacktestInput

/-- The inputs say the same up to period `k`, and have the same cash, costs, policy and scalar
options.  A next-bar policy without a fill schedule may read one bar more. -/
structure SameUpTo (k : Nat) (inp inp' : BacktestInput F) : Prop where
  weights : inp.weightSchedule.take (k + 1) = inp'.weightSchedule.take (k + 1)
  prices : inp.priceSchedule.take (k + 1) = inp'.priceSchedule.take (k + 1)
  nextPrices : inp.fillPolicy ≠ .signalBarClose → inp.options.fillSchedule = none →
    inp.priceSchedule.take (k + 2) = inp'.priceSchedule.take (k + 2)
  initialCashCents : inp.initialCashCents = inp'.initialCashCents
  costModel : inp.costModel = inp'.costModel
  fillPolicy : inp.fillPolicy = inp'.fillPolicy
  days : inp.options.periodDayOrdinal.map (List.take (k + 1)) =
    inp'.options.periodDayOrdinal.map (List.take (k + 1))
  months : inp.options.periodMonthOrdinal.map (List.take (k + 1)) =
    inp'.options.periodMonthOrdinal.map (List.take (k + 1))
  fills : inp.options.fillSchedule.map (List.take (k + 1)) =
    inp'.options.fillSchedule.map (List.take (k + 1))
  options :
  { inp.options with periodDayOrdinal := none, periodMonthOrdinal := none, fillSchedule := none } =
    { inp'.options with periodDayOrdinal := none, periodMonthOrdinal := none, fillSchedule := none }

end BacktestInput

/-- The results say the same up to period `k`. -/
structure BacktestBridgeResult.SameUpTo (k : Nat) (r r' : BacktestBridgeResult F M) : Prop where
  returns : r.returns.take (k + 1) = r'.returns.take (k + 1)
  equityCurve : r.equityCurve.take (k + 2) = r'.equityCurve.take (k + 2)
  holdings : r.holdings.take (k + 1) = r'.holdings.take (k + 1)
  symbolReturns : r.symbolReturns.take (k + 1) = r'.symbolReturns.take (k + 1)
  cashSnapshots : r.cashSnapshots.map (List.take (k + 1)) = r'.cashSnapshots.map (List.take (k + 1))
  executions : r.executions.map (List.filter fun e ↦ e.periodIndex ≤ k) =
    r'.executions.map (List.filter fun e ↦ e.periodIndex ≤ k)
  stopEvents : r.stopEvents.filter (fun e ↦ e.periodIndex ≤ k) =
    r'.stopEvents.filter fun e ↦ e.periodIndex ≤ k
  skippedRebalances : r.skippedRebalances.filter (fun i ↦ i ≤ k) =
    r'.skippedRebalances.filter fun i ↦ i ≤ k

/-! ## The first periods -/

namespace BacktestInput

variable {k i : Nat} {inp inp' : BacktestInput F}

/-- Lists that begin alike have the same early entries. -/
theorem getElem?_of_take_eq {A : Type} {l l' : List A} {n : Nat} (h : l.take n = l'.take n)
    (hi : i < n) :
    l[i]? = l'[i]? := by
  rw [← List.getElem?_take_of_lt hi, h, List.getElem?_take_of_lt hi]

/-- So do schedules that begin alike. -/
theorem bind_getElem?_of_take_eq {A : Type} {s s' : Option (List A)} {n : Nat}
    (h : s.map (List.take n) = s'.map (List.take n)) (hi : i < n) :
    (s.bind fun l ↦ l[i]?) = s'.bind fun l ↦ l[i]? := by
  have hbind : ∀ s : Option (List A),
      (s.bind fun l ↦ l[i]?) = (s.map (List.take n)).bind fun l ↦ l[i]? := by
    intro s
    cases s with
    | none => rfl
    | some l => exact (List.getElem?_take_of_lt hi).symm
  rw [hbind s, h, ← hbind s']

theorem SameUpTo.fillPrices (h : SameUpTo k inp inp') (hi : i ≤ k) :
    fillPricesForPeriod inp.priceSchedule i inp.fillPolicy inp.options.fillSchedule =
      fillPricesForPeriod inp'.priceSchedule i inp'.fillPolicy inp'.options.fillSchedule := by
  have hnext : inp.fillPolicy ≠ .signalBarClose →
      nextFillBars inp.priceSchedule i inp.options.fillSchedule =
        nextFillBars inp'.priceSchedule i inp'.options.fillSchedule := by
    intro hpolicy
    have hfills := h.fills
    have hprices := h.nextPrices hpolicy
    revert hfills hprices
    cases inp.options.fillSchedule with
    | none =>
        intro hfills hprices
        rw [Option.map_none, eq_comm, Option.map_eq_none_iff] at hfills
        rw [hfills]
        exact getElem?_of_take_eq (hprices rfl) (by omega)
    | some l =>
        intro hfills _
        rw [Option.map_some, eq_comm, Option.map_eq_some_iff] at hfills
        obtain ⟨l', hl', htake⟩ := hfills
        rw [hl']
        exact congrArg (Option.filter fun bars : Bars ↦ !bars.isEmpty)
          (getElem?_of_take_eq htake.symm (Nat.lt_succ_of_le hi))
  rw [← h.fillPolicy]
  revert hnext
  cases inp.fillPolicy with
  | signalBarClose =>
      intro _
      exact congrArg (Option.map closePrices) (getElem?_of_take_eq h.prices (Nat.lt_succ_of_le hi))
  | nextBarOpen =>
      intro hnext
      rw [fillPricesForPeriod, hnext (by decide)]
      rfl
  | nextBarTypical =>
      intro hnext
      rw [fillPricesForPeriod, hnext (by decide)]
      rfl

/-- The early periods are the same. -/
theorem SameUpTo.periods (h : SameUpTo k inp inp') :
    inp.periods.take (k + 1) = inp'.periods.take (k + 1) := by
  have hperiods : ∀ (inp : BacktestInput F) (i : Nat), inp.periods[i]? =
      (inp.weightSchedule[i]?).bind fun weights ↦ (inp.priceSchedule[i]?).map fun bars ↦
        inp.period i weights bars := by
    intro inp i
    rw [BacktestInput.periods, List.getElem?_map, List.getElem?_zipIdx, List.zip,
      List.getElem?_zipWith]
    cases inp.weightSchedule[i]? with
    | none => rfl
    | some weights =>
        cases inp.priceSchedule[i]? with
        | none => rfl
        | some bars => simp
  refine List.ext_getElem? fun i ↦ ?_
  by_cases hi : i < k + 1
  · have hperiod : ∀ weights bars, inp.period i weights bars = inp'.period i weights bars := by
      intro weights bars
      rw [BacktestInput.period, BacktestInput.period, h.fillPrices (Nat.le_of_lt_succ hi),
        bind_getElem?_of_take_eq h.days hi, bind_getElem?_of_take_eq h.months hi]
    rw [List.getElem?_take_of_lt hi, List.getElem?_take_of_lt hi, hperiods, hperiods,
      getElem?_of_take_eq h.weights hi, getElem?_of_take_eq h.prices hi]
    simp only [hperiod]
  · rw [List.getElem?_take_eq_none (not_lt.mp hi), List.getElem?_take_eq_none (not_lt.mp hi)]

end BacktestInput

/-! ## Steps -/

/-- What a step reads of the options: not the schedules, but which of them there are. -/
def BacktestBridgeOptions.presence (options : BacktestBridgeOptions F) : BacktestBridgeOptions F :=
  { options with
    periodDayOrdinal := options.periodDayOrdinal.map fun _ ↦ []
    periodMonthOrdinal := options.periodMonthOrdinal.map fun _ ↦ []
    fillSchedule := none }

namespace BacktestBridgeOptions

variable (options : BacktestBridgeOptions F)

@[simp] theorem hasDayBudget_presence : options.presence.hasDayBudget = options.hasDayBudget := by
  simp only [hasDayBudget, presence, Option.isSome_map]

@[simp] theorem hasMonthTradeBudget_presence :
    options.presence.hasMonthTradeBudget = options.hasMonthTradeBudget := by
  simp only [hasMonthTradeBudget, presence, Option.isSome_map]

@[simp] theorem hasMonthValueBudget_presence :
    options.presence.hasMonthValueBudget = options.hasMonthValueBudget := by
  simp only [hasMonthValueBudget, presence, Option.isSome_map]

@[simp] theorem windowedBudgetsActive_presence :
    options.presence.windowedBudgetsActive = options.windowedBudgetsActive := by
  simp only [windowedBudgetsActive, hasDayBudget_presence, hasMonthTradeBudget_presence,
    hasMonthValueBudget_presence]

@[simp] theorem monthValueRemaining_presence (b : Budgets) :
    b.monthValueRemaining options.presence = b.monthValueRemaining options := by
  simp only [Budgets.monthValueRemaining, hasMonthValueBudget_presence]
  rfl

@[simp] theorem capCandidates_presence (b : Budgets) :
    b.capCandidates options.presence = b.capCandidates options := by
  simp only [Budgets.capCandidates, hasDayBudget_presence, hasMonthTradeBudget_presence,
    monthValueRemaining_presence]
  rfl

end BacktestBridgeOptions

variable [F64 F] {k : Nat} {inp inp' : BacktestInput F} {order : HashMap.Order Symbol}

/-- A step does not read a schedule. -/
theorem BridgeState.step_presence (inp : BacktestInput F) (order : HashMap.Order Symbol) :
    step { inp with options := inp.options.presence } order = step inp order := by
  funext st period
  have hbudgets : ∀ st : BridgeState F,
      applyBudgets { inp with options := inp.options.presence } period st =
        applyBudgets inp period st := by
    intro st
    simp only [applyBudgets, BacktestBridgeOptions.windowedBudgetsActive_presence,
      Budgets.notionalCap, BacktestBridgeOptions.capCandidates_presence,
      BacktestBridgeOptions.monthValueRemaining_presence]
  have hcharge : ∀ st : BridgeState F,
      chargeBudgets { inp with options := inp.options.presence } st = chargeBudgets inp st := by
    intro st
    simp only [chargeBudgets, BacktestBridgeOptions.windowedBudgetsActive_presence]
  have hrebalance :
    ∀ st : BridgeState F, rebalance { inp with options := inp.options.presence } order
      period st = rebalance inp order period st := by
    intro st
    simp only [rebalance, hcharge]
    rfl
  have hstops : ∀ st : BridgeState F, applyStops { inp with options := inp.options.presence } order
      period st = applyStops inp order period st := fun _ ↦ rfl
  simp only [step, hbudgets, hrebalance, hstops]

namespace BacktestInput

omit [F64 F] in
theorem SameUpTo.presence (h : SameUpTo k inp inp') :
    inp.options.presence = inp'.options.presence := by
  have hshape :
    ∀ {A : Type} {s s' : Option (List A)}, s.map (List.take (k + 1)) = s'.map (List.take (k + 1)) →
      (s.map fun _ ↦ ([] : List A)) = s'.map fun _ ↦ [] := by
    intro A s s' hs
    have h := congrArg (Option.map fun _ : List A ↦ ([] : List A)) hs
    rwa [Option.map_map, Option.map_map] at h
  have hdays := hshape h.days
  have hmonths := hshape h.months
  have hpresence : ∀ o : BacktestBridgeOptions F, o.presence =
      { { o with periodDayOrdinal := none, periodMonthOrdinal := none, fillSchedule := none } with
        periodDayOrdinal := o.periodDayOrdinal.map fun _ ↦ []
        periodMonthOrdinal := o.periodMonthOrdinal.map fun _ ↦ [] } := fun _ ↦ rfl
  rw [hpresence, h.options, hdays, hmonths, ← hpresence]

theorem SameUpTo.step (h : SameUpTo k inp inp') :
    BridgeState.step inp order = BridgeState.step inp' order := by
  rw [← BridgeState.step_presence inp, ← BridgeState.step_presence inp', h.presence]
  rfl

theorem SameUpTo.start (h : SameUpTo k inp inp') : inp.start = inp'.start := by
  have hstart : ∀ inp : BacktestInput F, inp.start =
      ({ inp with options := inp.options.presence } : BacktestInput F).start := fun _ ↦ rfl
  have hfields : ∀ (a b : BacktestInput F), a.initialCashCents = b.initialCashCents →
      a.costModel = b.costModel → a.options = b.options → a.start = b.start := by
    intro a b hcash hcost hoptions
    rw [BacktestInput.start, startPortfolio, hcash, hcost, hoptions]
    rfl
  rw [hstart inp, hstart inp']
  exact hfields _ _ h.initialCashCents h.costModel h.presence

/-- The runs are one up to the period. -/
theorem SameUpTo.runTo (h : SameUpTo k inp inp') :
    inp.runTo order (k + 1) = inp'.runTo order (k + 1) := by
  rw [BacktestInput.runTo, BacktestInput.runTo, h.periods, h.step, h.start]

end BacktestInput

/-! ## What has been written stays -/

/-- The state `st'` continues `st` with what the periods from `m` to `n` have written. -/
structure BridgeState.Extends (inp : BacktestInput F) (m n : Nat) (st st' : BridgeState F) :
    Prop where
  returns : st.portfolio.returns <+: st'.portfolio.returns
  equityCurve : st.equityCurve <+: st'.equityCurve
  holdings : st.holdings <+: st'.holdings
  symbolReturns : st.symbolReturns <+: st'.symbolReturns
  cashSnapshots : ∃ l, st'.cashSnapshots = st.cashSnapshots.map (· ++ l)
  executions : ∃ l, st'.portfolio.executions = st.portfolio.executions.map (· ++ l) ∧
    (inp.options.recordExecutions = true → ∀ r ∈ l, m ≤ r.periodIndex ∧ r.periodIndex < n)
  stopEvents :
  ∃ l, st'.stopEvents = st.stopEvents ++ l ∧ ∀ e ∈ l, m ≤ e.periodIndex ∧ e.periodIndex < n
  skippedRebalances :
  ∃ l, st'.skippedRebalances = st.skippedRebalances ++ l ∧ ∀ i ∈ l, m ≤ i ∧ i < n

namespace BridgeState

variable {st st' st₁ st₂ st₃ : BridgeState F} {m n : Nat} {period : Period F}

omit [F64 F] in
theorem Extends.refl (st : BridgeState F) : Extends inp m m st st where
  returns := List.prefix_refl _
  equityCurve := List.prefix_refl _
  holdings := List.prefix_refl _
  symbolReturns := List.prefix_refl _
  cashSnapshots := ⟨[], by simp⟩
  executions := ⟨[], by simp, fun _ _ h ↦ absurd h List.not_mem_nil⟩
  stopEvents := ⟨[], by simp, fun _ h ↦ absurd h List.not_mem_nil⟩
  skippedRebalances := ⟨[], by simp, fun _ h ↦ absurd h List.not_mem_nil⟩

/-- Entries of two stretches of periods are entries of the whole stretch. -/
theorem within_append {A : Type} {f : A → Nat} {i j k : Nat} (hij : i ≤ j) (hjk : j ≤ k)
    {l l' : List A} (hl : ∀ a ∈ l, i ≤ f a ∧ f a < j) (hl' : ∀ a ∈ l', j ≤ f a ∧ f a < k) :
    ∀ a ∈ l ++ l', i ≤ f a ∧ f a < k := by
  intro a ha
  rcases List.mem_append.mp ha with ha | ha
  · exact ⟨(hl a ha).1, (hl a ha).2.trans_le hjk⟩
  · exact ⟨hij.trans (hl' a ha).1, (hl' a ha).2⟩

omit [F64 F] in
theorem Extends.trans {i j k : Nat} (hij : i ≤ j) (hjk : j ≤ k) (h : Extends inp i j st₁ st₂)
    (h' : Extends inp j k st₂ st₃) : Extends inp i k st₁ st₃ where
  returns := h.returns.trans h'.returns
  equityCurve := h.equityCurve.trans h'.equityCurve
  holdings := h.holdings.trans h'.holdings
  symbolReturns := h.symbolReturns.trans h'.symbolReturns
  cashSnapshots := by
    obtain ⟨l, hl⟩ := h.cashSnapshots
    obtain ⟨l', hl'⟩ := h'.cashSnapshots
    refine ⟨l ++ l', ?_⟩
    rw [hl', hl, Option.map_map]
    exact congrArg (Option.map · st₁.cashSnapshots) (funext fun s ↦ List.append_assoc s l l')
  executions := by
    obtain ⟨l, hl, hindex⟩ := h.executions
    obtain ⟨l', hl', hindex'⟩ := h'.executions
    refine ⟨l ++ l', ?_, fun hrec ↦ within_append hij hjk (hindex hrec) (hindex' hrec)⟩
    rw [hl', hl, Option.map_map]
    exact congrArg (Option.map · st₁.portfolio.executions) (funext fun s ↦ List.append_assoc s l l')
  stopEvents := by
    obtain ⟨l, hl, hindex⟩ := h.stopEvents
    obtain ⟨l', hl', hindex'⟩ := h'.stopEvents
    exact ⟨l ++ l', by rw [hl', hl, List.append_assoc], within_append hij hjk hindex hindex'⟩
  skippedRebalances := by
    obtain ⟨l, hl, hindex⟩ := h.skippedRebalances
    obtain ⟨l', hl', hindex'⟩ := h'.skippedRebalances
    exact ⟨l ++ l', by rw [hl', hl, List.append_assoc],
      within_append (f := fun i ↦ i) hij hjk hindex hindex'⟩

/-- A rebalance adds no stop event, and its period to the skipped ones if it is skipped. -/
theorem skippedRebalances_rebalance (h : rebalance inp order period st = .ok st') :
    st'.stopEvents = st.stopEvents ∧ ∃ l, st'.skippedRebalances = st.skippedRebalances ++ l ∧
      ∀ i ∈ l, i = period.index := by
  rcases rebalance_ok h with ⟨-, rfl⟩ | ⟨fillPrices, p, -, -, -, rfl⟩
  · exact ⟨rfl, [period.index], rfl, fun i hi ↦ List.mem_singleton.mp hi⟩
  · obtain ⟨budgets, heq⟩ := chargeBudgets_eq inp { st with portfolio := p }
    rw [heq]
    exact ⟨rfl, [], (List.append_nil _).symm, fun _ h ↦ absurd h List.not_mem_nil⟩

theorem skippedRebalances_applyStops (h : applyStops inp order period st = .ok st') :
    st'.skippedRebalances = st.skippedRebalances := by
  rcases applyStops_ok h with ⟨-, rfl⟩ | ⟨cfg, stops, -, -, rfl⟩ <;> rfl

/-- What a period writes is marked with its index. -/
theorem extends_step (h : step inp order st period = .ok st') :
    Extends inp period.index (period.index + 1) st st' := by
  have hself : ∀ i, i = period.index → period.index ≤ i ∧ i < period.index + 1 := by
    rintro i rfl
    exact ⟨le_rfl, Nat.lt_succ_self _⟩
  obtain ⟨index, kind, p, fills, exits, hfills, hcontext, hexits⟩ := recorded_step h
  obtain ⟨st₁, st₂, hreb, hstops, hclose⟩ := step_ok h
  obtain ⟨hevents₁, skipped, hskipped, hskippedIndex⟩ := skippedRebalances_rebalance hreb
  obtain ⟨-, events, hevents, heventsIndex⟩ := recorded_applyStops hstops
  have hskipped₂ := skippedRebalances_applyStops hstops
  have hsame : (recordSymbolReturns period st).SameSeries st₂ :=
    ((sameSeries_applyBudgets _).trans (sameSeries_rebalance hreb)).trans
    (sameSeries_applyStops hstops)
  obtain ⟨budgets, cap, value, hbudgets⟩ :=
    applyBudgets_eq inp period (recordSymbolReturns period st)
  rw [hbudgets] at hevents₁ hskipped
  replace hevents₁ : st₁.stopEvents = st.stopEvents := hevents₁
  replace hskipped : st₁.skippedRebalances = st.skippedRebalances ++ skipped := hskipped
  have hexecutions := hexits.executions
  obtain ⟨-, rfl⟩ := closePeriod_ok hclose
  constructor
  · have hreturns : st₂.portfolio.returns = st.portfolio.returns := hsame.returns
    simp only [Portfolio.recordReturn, hreturns]
    split_ifs
    · exact List.prefix_append _ _
    · exact List.prefix_append _ _
    · exact List.prefix_refl _
  · rw [hsame.equityCurve]
    exact List.prefix_append _ _
  · rw [hsame.holdings]
    exact List.prefix_append _ _
  · rw [hsame.symbolReturns]
    exact List.prefix_append _ _
  · exact ⟨[st₂.portfolio.cash], by rw [hsame.cashSnapshots]; rfl⟩
  · refine ⟨fills ++ exits, ?_, fun hrec r hr ↦ hself _ ?_⟩
    · rw [hexecutions, hfills.executions, Option.map_map]
      exact congrArg (Option.map · st.portfolio.executions)
        (funext fun s ↦ List.append_assoc s fills exits)
    · rcases List.mem_append.mp hr with hr | hr
      · exact ((hfills.context r hr).1).trans (hcontext hrec).1
      · exact (hexits.context r hr).1
  · exact ⟨events, by rw [hevents, hevents₁], fun e he ↦ hself _ (heventsIndex e he)⟩
  · exact ⟨skipped, by rw [hskipped₂, hskipped], fun i hi ↦ hself i (hskippedIndex i hi)⟩

end BridgeState

namespace BacktestInput

variable {st st' : BridgeState F} {m n : Nat}

/-- A run continues every one of its prefixes. -/
theorem extends_runTo (hst : inp.runTo order m = .ok st) (hmn : m ≤ n) (hn : n ≤ inp.periods.length)
    (h : inp.runTo order n = .ok st') : BridgeState.Extends inp m n st st' :=
  Steps.invariant_from (P := fun n ↦ BridgeState.Extends inp m n st) hst (.refl st)
    (fun i _ _ _ hmi hperiod hext hstep ↦ by
      obtain rfl := index_of_periods hperiod
      exact hext.trans hmi (Nat.le_succ _) (BridgeState.extends_step hstep)) hmn hn h

/-- Executions are kept exactly if they are to be recorded. -/
theorem isSome_executions (hn : n ≤ inp.periods.length) (h : inp.runTo order n = .ok st) :
    st.portfolio.executions.isSome = inp.options.recordExecutions := by
  obtain ⟨l, hl, -⟩ := (extends_runTo rfl (Nat.zero_le n) hn h).executions
  rw [hl, Option.isSome_map]
  simp only [start, startPortfolio]
  cases inp.options.recordExecutions <;> rfl

theorem runTo_of_length_le (h : inp.periods.length ≤ m) : inp.runTo order m = inp.run order := by
  rw [BacktestInput.runTo, List.take_of_length_le h, run]

/-- The first `m` entries of a list of `n` are those of the list it continues. -/
theorem take_of_initial {A : Type} {l l' : List A} (h : l <+: l') (hl : l.length = min m n)
    (hl' : l'.length = n) : l'.take m = l.take m := by
  obtain ⟨t, rfl⟩ := h
  have htail : t.take (m - l.length) = [] := by
    rw [List.length_append] at hl'
    rw [List.take_eq_nil_iff, ← List.length_eq_zero_iff]
    omega
  rw [List.take_append, htail, List.append_nil]

/-- None of the later entries is from an early period. -/
theorem filter_later {A : Type} {f : A → Nat} {l : List A}
    (h : ∀ a ∈ l, min (k + 1) n ≤ f a ∧ f a < n) : l.filter (fun a ↦ f a ≤ k) = [] := by
  rw [List.filter_eq_nil_iff]
  intro a ha
  have hindex := h a ha
  rw [decide_eq_true_eq]
  omega

variable {computeMetrics : List F → F → F → Option M}

/-- A finished run says up to period `k` what it had said by then. -/
theorem completed_sameUpTo (haccepted : inp.accepted = true) (h : inp.run order = .ok st')
    (hst : inp.runTo order (k + 1) = .ok st) : BacktestBridgeResult.SameUpTo k
      (inp.completed computeMetrics st') (inp.completed computeMetrics st) := by
  have hlast : inp.runTo order inp.periods.length = .ok st' := by rw [← run_eq_runTo, h]
  have hst' : inp.runTo order (min (k + 1) inp.periods.length) = .ok st := by
    rcases le_total (k + 1) inp.periods.length with hle | hle
    · rw [min_eq_left hle, hst]
    · rw [min_eq_right hle, ← run_eq_runTo, ← runTo_of_length_le hle, hst]
  have haligned := aligned_of_runTo haccepted (min_le_right _ _) hst'
  have haligned' := aligned_of_runTo haccepted le_rfl hlast
  have hextends := extends_runTo hst' (min_le_right _ _) le_rfl hlast
  constructor
  · exact take_of_initial hextends.returns haligned.returns haligned'.returns
  · refine take_of_initial hextends.equityCurve ?_ haligned'.equityCurve
    refine haligned.equityCurve.trans ?_
    omega
  · exact take_of_initial hextends.holdings haligned.holdings haligned'.holdings
  · exact take_of_initial hextends.symbolReturns haligned.symbolReturns haligned'.symbolReturns
  · obtain ⟨l, hl⟩ := hextends.cashSnapshots
    have hlength := haligned.cashSnapshots
    have hlength' := haligned'.cashSnapshots
    simp only [completed]
    cases hcash : st.cashSnapshots with
    | none => rw [hl, hcash, Option.map_none]
    | some snapshots =>
        rw [hl, hcash] at hlength'
        rw [hcash] at hlength
        rw [hl, hcash, Option.map_some, Option.map_some, Option.map_some]
        rw [Option.map_some] at hlength
        rw [Option.map_some, Option.map_some] at hlength'
        split_ifs at hlength hlength' with hrec
        exact congrArg some (take_of_initial (List.prefix_append _ _) (Option.some_inj.mp hlength)
          (Option.some_inj.mp hlength'))
  · obtain ⟨l, hl, hindex⟩ := hextends.executions
    have hrecording := isSome_executions (min_le_right _ _) hst'
    simp only [completed]
    cases hexec : st.portfolio.executions with
    | none => rw [hl, hexec, Option.map_none]
    | some es =>
        rw [hl, hexec, Option.map_some, Option.map_some, Option.map_some, List.filter_append,
          filter_later (hindex (by rw [← hrecording, hexec]; rfl)), List.append_nil]
  · obtain ⟨l, hl, hindex⟩ := hextends.stopEvents
    simp only [completed, hl, List.filter_append, filter_later hindex, List.append_nil]
  · obtain ⟨l, hl, hindex⟩ := hextends.skippedRebalances
    simp only [completed, hl, List.filter_append, filter_later (f := fun i ↦ i) hindex,
      List.append_nil]

/-- A finished run is an accepted one that went through. -/
theorem run_of_completed {r : BacktestBridgeResult F M} (haccepted : inp.accepted = true)
    (h : inp.backtestWeightsWithOptions order computeMetrics = some r)
    (hr : r.unpricedHolding = none) :
    ∃ st, inp.run order = .ok st ∧ r = inp.completed computeMetrics st := by
  rw [backtestWeightsWithOptions, if_pos haccepted] at h
  split at h
  · next st hst =>
      cases h
      exact ⟨st, hst, rfl⟩
  · cases h
    cases hr
  · cases h

/-- No look-ahead: accepted inputs that are the same up to period `k`, if their runs are finished,
have results that are the same up to period `k`. -/
theorem backtest_sameUpTo {r r' : BacktestBridgeResult F M} (haccepted : inp.accepted = true)
    (haccepted' : inp'.accepted = true) (hsame : SameUpTo k inp inp')
    (hr : inp.backtestWeightsWithOptions order computeMetrics = some r)
    (hr' : inp'.backtestWeightsWithOptions order computeMetrics = some r')
    (hfinished : r.unpricedHolding = none) (hfinished' : r'.unpricedHolding = none) :
    r.SameUpTo k r' := by
  obtain ⟨st, hst, rfl⟩ := run_of_completed haccepted hr hfinished
  obtain ⟨st', hst', rfl⟩ := run_of_completed haccepted' hr' hfinished'
  obtain ⟨u, hu⟩ : ∃ u, inp.runTo order (k + 1) = .ok u :=
    Steps.exists_take_of_foldlM_ok hst (k + 1)
  have hcut : BacktestBridgeResult.SameUpTo k (inp.completed computeMetrics st)
      (inp.completed computeMetrics u) := completed_sameUpTo haccepted hst hu
  rw [hsame.runTo] at hu
  have hcut' : BacktestBridgeResult.SameUpTo k (inp'.completed computeMetrics st')
      (inp'.completed computeMetrics u) := completed_sameUpTo haccepted' hst' hu
  exact
    { returns := hcut.returns.trans hcut'.returns.symm
      equityCurve := hcut.equityCurve.trans hcut'.equityCurve.symm
      holdings := hcut.holdings.trans hcut'.holdings.symm
      symbolReturns := hcut.symbolReturns.trans hcut'.symbolReturns.symm
      cashSnapshots := hcut.cashSnapshots.trans hcut'.cashSnapshots.symm
      executions := hcut.executions.trans hcut'.executions.symm
      stopEvents := hcut.stopEvents.trans hcut'.stopEvents.symm
      skippedRebalances := hcut.skippedRebalances.trans hcut'.skippedRebalances.symm }

/-- Two second bars, of which the first period knows nothing. -/
theorem backtest_sameUpTo_secondBar : ∃ r r',
    (allIn 1000 none [[(aapl, flatBar 100)], [(aapl, flatBar 50)]]).backtestWeightsWithOptions
      .insertion
      (fun _ _ _ ↦ (none : Option Unit)) = some r ∧
    (allIn 1000 none [[(aapl, flatBar 100)], [(aapl, flatBar 70)]]).backtestWeightsWithOptions
      .insertion
      (fun _ _ _ ↦ (none : Option Unit)) = some r' ∧
    r.equityCurve ≠ r'.equityCurve ∧ r.SameUpTo 0 r' := by
  have hrun :
    ((allIn 1000 none [[(aapl, flatBar 100)], [(aapl, flatBar 50)]]).backtestWeightsWithOptions
      .insertion (fun _ _ _ ↦ (none : Option Unit))).map
      (fun r ↦ (r.equityCurve, r.unpricedHolding)) =
        some ([1000, 1000, 500], none) := by decide +kernel
  have hrun' :
    ((allIn 1000 none [[(aapl, flatBar 100)], [(aapl, flatBar 70)]]).backtestWeightsWithOptions
      .insertion (fun _ _ _ ↦ (none : Option Unit))).map
      (fun r ↦ (r.equityCurve, r.unpricedHolding)) =
        some ([1000, 1000, 700], none) := by decide +kernel
  obtain ⟨r, hr, hshape⟩ := Option.map_eq_some_iff.mp hrun
  obtain ⟨r', hr', hshape'⟩ := Option.map_eq_some_iff.mp hrun'
  obtain ⟨hcurve, hfinished⟩ := Prod.mk.inj hshape
  obtain ⟨hcurve', hfinished'⟩ := Prod.mk.inj hshape'
  refine ⟨r, r', hr, hr', by rw [hcurve, hcurve']; decide, ?_⟩
  refine backtest_sameUpTo (by decide +kernel) (by decide +kernel) ?_ hr hr' hfinished hfinished'
  exact ⟨rfl, rfl, fun h ↦ absurd rfl h, rfl, rfl, rfl, rfl, rfl, rfl, rfl⟩

end BacktestInput

end Nanobook
