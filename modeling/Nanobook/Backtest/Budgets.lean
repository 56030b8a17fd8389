import Nanobook.Backtest.Reconciliation
import Nanobook.Lib.Window
import Nanobook.Portfolio.Caps

/-!
# Budgets

What is traded in a day, in a month and in one rebalance keeps to the budgets.  The bridge charges
what a rebalance has planned, which is never less than what it fills.
-/

namespace Nanobook

open Rebalancer (Symbol collected)

variable {F : Type}

/-! ## Entering a period -/

namespace Budgets

variable (b : Budgets)

/-- The budgets once a period has been entered. -/
def enter (period : Period F) : Budgets := (b.enterDay period.day).enterMonth period.month

variable {b} {period : Period F} {w : Int}

theorem day_enter (h : period.day = some w) : (b.enter period).prevDayOrdinal = some w ∧
    (b.enter period).tradesUsedToday =
      if b.prevDayOrdinal ≠ some w then 0 else b.tradesUsedToday := by
  have hmonth : ∀ b : Budgets, (b.enterMonth period.month).prevDayOrdinal = b.prevDayOrdinal ∧
      (b.enterMonth period.month).tradesUsedToday = b.tradesUsedToday := by
    intro b
    cases period.month with
    | none => exact ⟨rfl, rfl⟩
    | some month =>
        rw [enterMonth]
        split <;> exact ⟨rfl, rfl⟩
  rw [enter, (hmonth _).1, (hmonth _).2, h, enterDay]
  split_ifs with hnew
  · exact ⟨rfl, rfl⟩
  · exact ⟨not_not.mp hnew, rfl⟩

theorem month_enter (h : period.month = some w) : (b.enter period).prevMonthOrdinal = some w ∧
    (b.enter period).tradesUsedMonth =
    (if b.prevMonthOrdinal ≠ some w then 0 else b.tradesUsedMonth) ∧
    (b.enter period).valueUsedMonth =
      if b.prevMonthOrdinal ≠ some w then 0 else b.valueUsedMonth := by
  have hday : (b.enterDay period.day).prevMonthOrdinal = b.prevMonthOrdinal ∧
      (b.enterDay period.day).tradesUsedMonth = b.tradesUsedMonth ∧
      (b.enterDay period.day).valueUsedMonth = b.valueUsedMonth := by
    cases period.day with
    | none => exact ⟨rfl, rfl, rfl⟩
    | some day =>
        rw [enterDay]
        split <;> exact ⟨rfl, rfl, rfl⟩
  rw [enter, h, enterMonth]
  simp only [hday.1]
  split_ifs with hnew
  · exact ⟨rfl, rfl, rfl⟩
  · exact ⟨(hday.1).trans (not_not.mp hnew), hday.2.1, hday.2.2⟩

/-- The cap a rebalance is given is none of the candidates' bettered. -/
theorem min?_capCandidates_le {options : BacktestBridgeOptions F} {c : Nat}
    (hc : c ∈ b.capCandidates options) :
    ∃ cap, (b.capCandidates options).min? = some cap ∧ cap ≤ c := by
  cases hmin : (b.capCandidates options).min? with
  | none =>
      rw [List.min?_eq_none_iff] at hmin
      rw [hmin] at hc
      cases hc
  | some cap => exact ⟨cap, rfl, (List.min?_eq_some_iff.mp hmin).2 c hc⟩

end Budgets

/-! ## The budgets of a run -/

/-- The fills of rebalances. -/
def rebalanceFills (es : List ExecutionRecord) : List ExecutionRecord :=
  es.filter fun r ↦ r.kind = .rebalance

/-- The ledger keeps to the budgets of the input, those that are active. -/
structure BacktestInput.WithinBudgets (inp : BacktestInput F) (es : List ExecutionRecord) :
    Prop where
  rebalance : ∀ cap, inp.options.maxTradesPerRebalance = some cap → ∀ i : Nat,
    ((rebalanceFills es).filter fun r ↦ r.periodIndex = i).length ≤ cap
  day : ∀ cap days, inp.options.maxTradesPerDay = some cap →
  inp.options.periodDayOrdinal = some days →
    ∀ day : Int, ((rebalanceFills es).filter fun r ↦ days[r.periodIndex]? = some day).length ≤ cap
  month : ∀ cap months, inp.options.maxTradesPerMonth = some cap →
    inp.options.periodMonthOrdinal = some months → ∀ month : Int,
      ((rebalanceFills es).filter fun r ↦ months[r.periodIndex]? = some month).length ≤ cap
  monthValue : ∀ budget months, inp.options.maxTradedValuePerMonth = some budget →
    inp.options.periodMonthOrdinal = some months → ∀ month : Int,
      (((rebalanceFills es).filter fun r ↦ months[r.periodIndex]? = some month).map
        ExecutionRecord.referenceNotional).sum ≤ max 0 budget

variable [F64 F]

/-- After `n` periods every counter accounts for the fills of its window. -/
structure BridgeState.Metered (inp : BacktestInput F) (n : Nat) (st : BridgeState F)
    (fills : List ExecutionRecord) : Prop where
  index : ∀ r ∈ fills, r.periodIndex < n
  rebalance : ∀ cap, inp.options.maxTradesPerRebalance = some cap → ∀ i : Nat,
    (fills.filter fun r ↦ r.periodIndex = i).length ≤ cap
  cap : inp.options.windowedBudgetsActive = false →
    st.portfolio.maxTradesPerRebalance = inp.options.maxTradesPerRebalance
  prevDay :
  ∀ days c, inp.options.periodDayOrdinal = some days → st.budgets.prevDayOrdinal = some c →
    ∃ i < n, days[i]? = some c
  day : ∀ cap days, inp.options.maxTradesPerDay = some cap →
  inp.options.periodDayOrdinal = some days →
    Window.Sound (fun r : ExecutionRecord ↦ days[r.periodIndex]?) (fun _ ↦ 1) cap fills
      st.budgets.tradesUsedToday st.budgets.prevDayOrdinal
  prevMonth : ∀ months c, inp.options.periodMonthOrdinal = some months →
    st.budgets.prevMonthOrdinal = some c → ∃ i < n, months[i]? = some c
  month : ∀ cap months, inp.options.maxTradesPerMonth = some cap →
    inp.options.periodMonthOrdinal = some months →
      Window.Sound (fun r : ExecutionRecord ↦ months[r.periodIndex]?) (fun _ ↦ 1) cap fills
        st.budgets.tradesUsedMonth st.budgets.prevMonthOrdinal
  monthValue : ∀ budget months, inp.options.maxTradedValuePerMonth = some budget →
    inp.options.periodMonthOrdinal = some months → 0 ≤ st.budgets.valueUsedMonth ∧
      Window.Sound (fun r : ExecutionRecord ↦ months[r.periodIndex]?)
      ExecutionRecord.referenceNotional
        (max 0 budget) fills st.budgets.valueUsedMonth st.budgets.prevMonthOrdinal

namespace BridgeState

variable {inp : BacktestInput F} {order : HashMap.Order Symbol} {period : Period F}
  {st st' : BridgeState F}

/-- A rebalance that filled `l` has planned `count` orders of the value `value` within its caps, and
that is what the budgets are charged with. -/
structure Charged (inp : BacktestInput F) (st st' : BridgeState F) (l : List ExecutionRecord)
    (count : Nat) (value : Int) : Prop where
  length_le : l.length ≤ count
  sum_le : (l.map ExecutionRecord.referenceNotional).sum ≤ value
  nonneg : 0 ≤ value
  eq_zero : count = 0 → value = 0
  count_le : ∀ cap, st.portfolio.maxTradesPerRebalance = some cap → count ≤ cap
  value_le : 0 < st.portfolio.maxRebalanceNotional → InI64 st.portfolio.maxRebalanceNotional →
    value ≤ st.portfolio.maxRebalanceNotional
  cap : st'.portfolio.maxTradesPerRebalance = st.portfolio.maxTradesPerRebalance
  prevDayOrdinal : st'.budgets.prevDayOrdinal = st.budgets.prevDayOrdinal
  prevMonthOrdinal : st'.budgets.prevMonthOrdinal = st.budgets.prevMonthOrdinal
  tradesUsedToday : inp.options.windowedBudgetsActive = true →
    st'.budgets.tradesUsedToday = st.budgets.tradesUsedToday + count
  tradesUsedMonth : inp.options.windowedBudgetsActive = true →
    st'.budgets.tradesUsedMonth = st.budgets.tradesUsedMonth + count
  valueUsedMonth : inp.options.windowedBudgetsActive = true → 0 ≤ st.budgets.valueUsedMonth →
    st.budgets.valueUsedMonth + value ≤ i64Max →
      st'.budgets.valueUsedMonth = st.budgets.valueUsedMonth + value

theorem charged_rebalance (hrec : inp.options.recordExecutions = true)
    (h : rebalance inp order period st = .ok st') : ∃ l count value,
    Portfolio.Recorded period.index .rebalance st.portfolio st'.portfolio l ∧
      Charged inp st st' l count value := by
  rcases rebalance_ok h with ⟨-, rfl⟩ | ⟨fillPrices, p, -, -, hp, rfl⟩
  · exact ⟨[], 0, 0, .refl _, le_rfl, le_rfl, le_rfl, fun _ ↦ rfl, fun _ _ ↦ Nat.zero_le _,
      fun hmax _ ↦ hmax.le, rfl, rfl, rfl, fun _ ↦ rfl, fun _ ↦ rfl, fun _ _ _ ↦
        (Int.add_zero _).symm⟩
  · obtain ⟨l, hl, hlength, hsum⟩ := Portfolio.recorded_rebalanceSimple hp
    have hkept := Portfolio.kept_rebalanceSimple hp
    rw [rebalancing, if_pos hrec] at hp hl hlength hsum hkept
    generalize horders : (st.portfolio.setExecutionContext period.index .rebalance).rebalanceOrders
      (collected fillPrices) order period.weights = orders at hkept hlength hsum
    have hvalues : ∀ o ∈ orders, 0 ≤ notionalOf o.qty o.price := fun o _ ↦ notionalOf_nonneg _ _
    have hnonneg : 0 ≤ Portfolio.notionalSum orders := by
      refine List.sum_nonneg fun x hx ↦ ?_
      obtain ⟨o, ho, rfl⟩ := List.mem_map.mp hx
      exact hvalues o ho
    have hcharged : inp.options.windowedBudgetsActive = true →
        (chargeBudgets inp { st with portfolio := p }).budgets =
          st.budgets.charge orders.length
            (orders.foldl (fun acc o ↦ satAdd acc (notionalOf o.qty o.price)) 0) := by
      intro hactive
      rw [chargeBudgets, if_pos hactive]
      exact congrArg₂ st.budgets.charge hkept.lastRebalanceOrderCount hkept.lastRebalanceNotional
    have hportfolio : (chargeBudgets inp { st with portfolio := p }).portfolio = p := by
      obtain ⟨budgets, heq⟩ := chargeBudgets_eq inp { st with portfolio := p }
      rw [heq]
    have hordinals : (chargeBudgets inp { st with portfolio := p }).budgets.prevDayOrdinal =
          st.budgets.prevDayOrdinal ∧
        (chargeBudgets inp { st with portfolio := p }).budgets.prevMonthOrdinal =
          st.budgets.prevMonthOrdinal := by
      rw [chargeBudgets]
      split <;> exact ⟨rfl, rfl⟩
    refine ⟨l, orders.length, Portfolio.notionalSum orders, hportfolio.symm ▸
      ⟨hl.entries, hl.executions, hl.sequence, hl.context⟩, hlength, hsum, hnonneg, ?_, ?_, ?_, ?_,
      hordinals.1, hordinals.2, ?_, ?_, ?_⟩
    · intro hnone
      rw [List.eq_nil_of_length_eq_zero hnone]
      rfl
    · intro cap hcap
      rw [← horders]
      exact Portfolio.length_rebalanceOrders hcap
    · intro hmax hrange
      rw [← horders]
      exact Portfolio.notionalSum_rebalanceOrders hmax hrange
    · rw [hportfolio]
      exact hkept.maxTradesPerRebalance
    · intro hactive
      rw [hcharged hactive]
      rfl
    · intro hactive
      rw [hcharged hactive]
      rfl
    · intro hactive hused hle
      have hsumEq := foldl_satAdd_of_nonneg hvalues le_rfl (by
        rw [Int.zero_add]
        exact (le_add_of_nonneg_left hused).trans hle)
      rw [hcharged hactive, Budgets.charge, hsumEq, Int.zero_add]
      exact clampI64_eq ⟨(by decide : i64Min ≤ 0).trans (Int.add_nonneg hused hnonneg), hle⟩

/-- The rest of a period leaves the budgets and the cap alone, and records exits only. -/
theorem rest_step (h : step inp order st period = .ok st') : ∃ st₁ exits,
    rebalance inp order period (applyBudgets inp period (recordSymbolReturns period st)) = .ok st₁ ∧
      Portfolio.Recorded period.index .stopExit st₁.portfolio st'.portfolio exits ∧
      st'.budgets = st₁.budgets ∧
      st'.portfolio.maxTradesPerRebalance = st₁.portfolio.maxTradesPerRebalance := by
  obtain ⟨st₁, st₂, hreb, hstops, hclose⟩ := step_ok h
  obtain ⟨⟨exits, hexits⟩, -⟩ := recorded_applyStops hstops
  have hrest : st₂.budgets = st₁.budgets ∧
      st₂.portfolio.maxTradesPerRebalance = st₁.portfolio.maxTradesPerRebalance := by
    rcases applyStops_ok hstops with ⟨-, rfl⟩ | ⟨cfg, stops, -, hcfg, rfl⟩
    · exact ⟨rfl, rfl⟩
    · exact ⟨rfl, applyStopCfg_invariant
        (I := fun p ↦ p.maxTradesPerRebalance = st₁.portfolio.maxTradesPerRebalance) (fun _ h ↦ h)
        (fun _ _ _ _ _ hq h hf ↦ (Portfolio.kept_executeFill hq hf).maxTradesPerRebalance.trans h)
          rfl hcfg⟩
  obtain ⟨-, rfl⟩ := closePeriod_ok hclose
  exact ⟨st₁, exits, hreb, ⟨hexits.entries, hexits.executions, hexits.sequence, hexits.context⟩,
    hrest.1, hrest.2⟩

theorem lt_succ_of_mem_append {n : Nat} {fills l : List ExecutionRecord}
    (hindex : ∀ r ∈ fills, r.periodIndex < n) (hl : ∀ r ∈ l, r.periodIndex = n) :
    ∀ r ∈ fills ++ l, r.periodIndex < n + 1 := by
  intro r hr
  rcases List.mem_append.mp hr with hr | hr
  · exact (hindex r hr).trans (Nat.lt_succ_self _)
  · exact (hl r hr).trans_lt (Nat.lt_succ_self _)

/-- Fills of a period are within the cap if their number is. -/
theorem length_filter_index {n cap : Nat} {fills l : List ExecutionRecord}
    (hindex : ∀ r ∈ fills, r.periodIndex < n)
    (hfills : ∀ i : Nat, (fills.filter fun r ↦ r.periodIndex = i).length ≤ cap)
    (hl : ∀ r ∈ l, r.periodIndex = n) (hlength : l.length ≤ cap) (i : Nat) :
    ((fills ++ l).filter fun r ↦ r.periodIndex = i).length ≤ cap := by
  rw [List.filter_append, List.length_append]
  by_cases hi : i = n
  · have hnone : fills.filter (fun r ↦ r.periodIndex = i) = [] := by
      rw [List.filter_eq_nil_iff]
      intro r hr
      have := hindex r hr
      rw [decide_eq_true_eq]
      omega
    rw [hnone, List.length_nil, Nat.zero_add]
    exact (List.length_filter_le _ l).trans hlength
  · have hnone : l.filter (fun r ↦ r.periodIndex = i) = [] := by
      rw [List.filter_eq_nil_iff]
      intro r hr
      have := hl r hr
      rw [decide_eq_true_eq]
      omega
    rw [hnone, List.length_nil, Nat.add_zero]
    exact hfills i

variable {fills l : List ExecutionRecord} {count : Nat} {value : Int}

/-- A period whose budgets are not active. -/
theorem Metered.step_inactive {st₁ : BridgeState F} (h : Metered inp period.index st fills)
    (hactive : inp.options.windowedBudgetsActive = false)
    (hcharged : Charged inp
        (applyBudgets inp period (recordSymbolReturns period st)) st₁ l count value)
    (hl : ∀ r ∈ l, r.periodIndex = period.index) (hbudgets : st'.budgets = st₁.budgets)
    (hcap : st'.portfolio.maxTradesPerRebalance = st₁.portfolio.maxTradesPerRebalance) :
    Metered inp (period.index + 1) st' (fills ++ l) := by
  have hsame :
    applyBudgets inp period (recordSymbolReturns period st) = recordSymbolReturns period st := by
    rw [applyBudgets, hactive]
    rfl
  rw [hsame] at hcharged
  have hinactive := hactive
  simp only [BacktestBridgeOptions.windowedBudgetsActive, Bool.or_eq_false_iff,
    BacktestBridgeOptions.hasDayBudget, BacktestBridgeOptions.hasMonthTradeBudget,
    BacktestBridgeOptions.hasMonthValueBudget] at hinactive
  constructor
  · exact lt_succ_of_mem_append h.index hl
  · intro cap hbase
    refine length_filter_index h.index (h.rebalance cap hbase) hl ?_
    exact hcharged.length_le.trans (hcharged.count_le cap ((h.cap hactive).trans hbase))
  · intro _
    exact hcap.trans (hcharged.cap.trans (h.cap hactive))
  · intro days c hdays hc
    rw [hbudgets, hcharged.prevDayOrdinal] at hc
    obtain ⟨i, hi, hday⟩ := h.prevDay days c hdays hc
    exact ⟨i, hi.trans (Nat.lt_succ_self _), hday⟩
  · intro cap days hbudget hdays
    rw [hbudget, hdays] at hinactive
    cases hinactive.1.1
  · intro months c hmonths hc
    rw [hbudgets, hcharged.prevMonthOrdinal] at hc
    obtain ⟨i, hi, hmonth⟩ := h.prevMonth months c hmonths hc
    exact ⟨i, hi.trans (Nat.lt_succ_self _), hmonth⟩
  · intro cap months hbudget hmonths
    rw [hbudget, hmonths] at hinactive
    cases hinactive.1.2
  · intro budget months hbudget hmonths
    rw [hbudget, hmonths] at hinactive
    cases hinactive.2

end BridgeState

namespace BacktestInput

variable {inp : BacktestInput F} {order : HashMap.Order Symbol} {st : BridgeState F} {n : Nat}
  {period : Period F}

/-- The ordinals that are given do not decrease, and a value budget is an `i64`. -/
structure Chronological (inp : BacktestInput F) : Prop where
  days : ∀ days, inp.options.periodDayOrdinal = some days → days.Pairwise (· ≤ ·)
  months : ∀ months, inp.options.periodMonthOrdinal = some months → months.Pairwise (· ≤ ·)
  value : ∀ budget, inp.options.maxTradedValuePerMonth = some budget → InI64 budget

omit [F64 F] in
theorem le_of_pairwise {l : List Int} (h : l.Pairwise (· ≤ ·)) {i j : Nat} (hij : i < j) {a b : Int}
    (ha : l[i]? = some a) (hb : l[j]? = some b) : a ≤ b := by
  obtain ⟨hi, rfl⟩ := List.getElem?_eq_some_iff.mp ha
  obtain ⟨hj, rfl⟩ := List.getElem?_eq_some_iff.mp hb
  exact List.pairwise_iff_getElem.mp h i j hi hj hij

omit [F64 F] in
/-- The window that was entered last does not begin after the one of a later period. -/
theorem le_ordinal {ordinals : List Int} (h : ordinals.Pairwise (· ≤ ·)) {prev : Option Int}
    {w : Int} (hprev : ∀ c, prev = some c → ∃ i < n, ordinals[i]? = some c)
    (hw : ordinals[n]? = some w) (c : Int) (hc : prev = some c) : c ≤ w := by
  obtain ⟨i, hi, hc⟩ := hprev c hc
  exact le_of_pairwise h hi hc hw

/-- A period of an accepted input has a day if there are days, and a month if there are months. -/
theorem ordinal_of_periods (haccepted : inp.accepted = true)
    (hperiod : inp.periods[n]? = some period) :
    (∀ days, inp.options.periodDayOrdinal = some days →
      ∃ day, days[n]? = some day ∧ period.day = some day) ∧
    ∀ months, inp.options.periodMonthOrdinal = some months →
      ∃ month, months[n]? = some month ∧ period.month = some month := by
  have hn : n < inp.weightSchedule.length := by
    rw [← length_periods haccepted]
    exact (List.getElem?_eq_some_iff.mp hperiod).choose
  obtain ⟨-, hdays, hmonths, -⟩ := accepted_iff.mp haccepted
  obtain ⟨weights, bars, -, -, rfl⟩ := getElem?_periods hperiod
  constructor
  · intro days heq
    rw [aligned, heq, Option.all_some, decide_eq_true_eq] at hdays
    refine ⟨days[n], List.getElem?_eq_getElem (hdays ▸ hn), ?_⟩
    simp only [period, heq, Option.bind_some]
    exact List.getElem?_eq_getElem (hdays ▸ hn)
  · intro months heq
    rw [aligned, heq, Option.all_some, decide_eq_true_eq] at hmonths
    refine ⟨months[n], List.getElem?_eq_getElem (hmonths ▸ hn), ?_⟩
    simp only [period, heq, Option.bind_some]
    exact List.getElem?_eq_getElem (hmonths ▸ hn)

end BacktestInput

namespace BridgeState

variable {inp : BacktestInput F} {period : Period F} {st st' st₁ : BridgeState F}
  {fills l : List ExecutionRecord} {count : Nat} {value : Int}

/-- A period enters its window, which may be a new one. -/
theorem sound_enter {A : Type} [AddCommMonoid A] [PartialOrder A] {amount : ExecutionRecord → A}
    {ordinals : List Int} {n : Nat} {budget used used' : A} {prev : Option Int} {w : Int}
    (h : Window.Sound (fun r : ExecutionRecord ↦ ordinals[r.periodIndex]?) amount budget fills used
      prev)
    (hbudget : 0 ≤ budget) (hchron : ordinals.Pairwise (· ≤ ·))
    (hprev : ∀ c, prev = some c → ∃ i < n, ordinals[i]? = some c)
    (hw : ordinals[n]? = some w) (hused : used' = if prev ≠ some w then 0 else used) :
    Window.Sound (fun r : ExecutionRecord ↦ ordinals[r.periodIndex]?) amount budget fills used'
      (some w) := by
  rw [hused]
  exact h.enter hbudget (BacktestInput.le_ordinal hchron hprev hw)

/-- The fills of a period are charged to its window, which may be a new one. -/
theorem sound_trades {ordinals : List Int} {n used used' cap : Nat} {prev : Option Int} {w : Int}
    (h : Window.Sound (fun r : ExecutionRecord ↦ ordinals[r.periodIndex]?) (fun _ ↦ 1) cap fills
      used prev)
    (hchron : ordinals.Pairwise (· ≤ ·))
    (hprev : ∀ c, prev = some c → ∃ i < n, ordinals[i]? = some c)
    (hw : ordinals[n]? = some w) (hused : used' = if prev ≠ some w then 0 else used)
    (hl : ∀ r ∈ l, r.periodIndex = n) (hlength : l.length ≤ count) (hcount : count ≤ cap - used') :
    Window.Sound (fun r : ExecutionRecord ↦ ordinals[r.periodIndex]?) (fun _ ↦ 1) cap (fills ++ l)
      (used' + count) (some w) := by
  have hsound := sound_enter h (Nat.zero_le cap) hchron hprev hw hused
  refine hsound.charge (fun r hr ↦ by rw [hl r hr, hw]) ?_ ?_
  · rw [List.map_const', List.sum_replicate_nat, Nat.mul_one]
    exact hlength
  · have := hsound.used_le
    omega

omit [F64 F] in
/-- What is planned keeps to the budget of the month: either that is spent, and nothing is planned,
or what is left of it is the cap. -/
theorem Charged.value_fits {budget : Int} {b : Budgets} (h : Charged inp st st₁ l count value)
    (hcap : st.portfolio.maxRebalanceNotional = b.notionalCap inp.options)
    (hremaining : b.monthValueRemaining inp.options = some (satSub budget b.valueUsedMonth))
    (hcount : ∀ c ∈ b.capCandidates inp.options, count ≤ c)
    (hused : b.valueUsedMonth ≤ max 0 budget) : b.valueUsedMonth + value ≤ max 0 budget := by
  rcases le_or_gt (satSub budget b.valueUsedMonth) 0 with hspent | hleft
  · have hzero : count ≤ 0 := by
      refine hcount 0 ?_
      simp [Budgets.capCandidates, hremaining, hspent]
    rwa [h.eq_zero (Nat.le_zero.mp hzero), Int.add_zero]
  · rw [Budgets.notionalCap, hremaining, Option.getD_some, max_eq_right hleft.le] at hcap
    have hvalue := h.value_le (hcap ▸ hleft) (hcap ▸ inI64_clampI64 _)
    have hexact : satSub budget b.valueUsedMonth ≤ budget - b.valueUsedMonth :=
      clampI64_le (clampI64_nonneg_iff.mp hleft.le)
    have hle : value ≤ budget - b.valueUsedMonth := (hcap ▸ hvalue).trans hexact
    exact le_max_of_le_right (by omega)

/-- A period whose budgets are active. -/
theorem Metered.step_active (haccepted : inp.accepted = true) (hchron : inp.Chronological)
    (hperiod : inp.periods[period.index]? = some period) (h : Metered inp period.index st fills)
    (hactive : inp.options.windowedBudgetsActive = true)
    (hcharged : Charged inp
        (applyBudgets inp period (recordSymbolReturns period st)) st₁ l count value)
    (hl : ∀ r ∈ l, r.periodIndex = period.index) (hbudgets : st'.budgets = st₁.budgets) :
    Metered inp (period.index + 1) st' (fills ++ l) := by
  have hbudgeted : applyBudgets inp period (recordSymbolReturns period st) =
      { recordSymbolReturns period st with
        budgets := st.budgets.enter period
        portfolio := (st.portfolio.setMaxTradesPerRebalance
          ((st.budgets.enter period).capCandidates inp.options).min?).setMaxRebalanceNotional
            ((st.budgets.enter period).notionalCap inp.options) } := by
    rw [applyBudgets, if_pos hactive]
    rfl
  rw [hbudgeted] at hcharged
  -- the number of orders is within every candidate
  have hcount : ∀ c ∈ (st.budgets.enter period).capCandidates inp.options, count ≤ c := by
    intro c hc
    obtain ⟨cap, hcap, hle⟩ := Budgets.min?_capCandidates_le hc
    exact (hcharged.count_le cap hcap).trans hle
  obtain ⟨hdayOf, hmonthOf⟩ := BacktestInput.ordinal_of_periods haccepted hperiod
  constructor
  · exact lt_succ_of_mem_append h.index hl
  · intro cap hbase
    refine length_filter_index h.index (h.rebalance cap hbase) hl ?_
    refine hcharged.length_le.trans (hcount cap ?_)
    simp [Budgets.capCandidates, hbase]
  · intro hinactive
    rw [hactive] at hinactive
    cases hinactive
  · intro days c hdays hc
    obtain ⟨day, hday, hperiodDay⟩ := hdayOf days hdays
    rw [hbudgets, hcharged.prevDayOrdinal, (Budgets.day_enter hperiodDay).1] at hc
    cases hc
    exact ⟨period.index, Nat.lt_succ_self _, hday⟩
  · intro cap days hbudget hdays
    obtain ⟨day, hday, hperiodDay⟩ := hdayOf days hdays
    obtain ⟨hprev, hused⟩ := Budgets.day_enter (b := st.budgets) hperiodDay
    have hcandidate : count ≤ cap - (st.budgets.enter period).tradesUsedToday := by
      refine hcount _ ?_
      simp [Budgets.capCandidates, BacktestBridgeOptions.hasDayBudget, hbudget, hdays]
    rw [hbudgets, hcharged.tradesUsedToday hactive, hcharged.prevDayOrdinal, hprev]
    exact sound_trades (h.day cap days hbudget hdays) (hchron.days days hdays)
      (h.prevDay days · hdays) hday hused hl hcharged.length_le hcandidate
  · intro months c hmonths hc
    obtain ⟨month, hmonth, hperiodMonth⟩ := hmonthOf months hmonths
    rw [hbudgets, hcharged.prevMonthOrdinal, (Budgets.month_enter hperiodMonth).1] at hc
    cases hc
    exact ⟨period.index, Nat.lt_succ_self _, hmonth⟩
  · intro cap months hbudget hmonths
    obtain ⟨month, hmonth, hperiodMonth⟩ := hmonthOf months hmonths
    obtain ⟨hprev, hused, -⟩ := Budgets.month_enter (b := st.budgets) hperiodMonth
    have hcandidate : count ≤ cap - (st.budgets.enter period).tradesUsedMonth := by
      refine hcount _ ?_
      simp [Budgets.capCandidates, BacktestBridgeOptions.hasMonthTradeBudget, hbudget, hmonths]
    rw [hbudgets, hcharged.tradesUsedMonth hactive, hcharged.prevMonthOrdinal, hprev]
    exact sound_trades (h.month cap months hbudget hmonths) (hchron.months months hmonths)
      (h.prevMonth months · hmonths) hmonth hused hl hcharged.length_le hcandidate
  · intro budget months hbudget hmonths
    obtain ⟨month, hmonth, hperiodMonth⟩ := hmonthOf months hmonths
    obtain ⟨hprev, -, hused⟩ := Budgets.month_enter (b := st.budgets) hperiodMonth
    obtain ⟨hnonneg, hsound⟩ := h.monthValue budget months hbudget hmonths
    have hrange := hchron.value budget hbudget
    have hsound := sound_enter hsound (le_max_left 0 budget) (hchron.months months hmonths)
      (h.prevMonth months · hmonths) hmonth hused
    have husedNonneg : 0 ≤ (st.budgets.enter period).valueUsedMonth := by
      rw [hused]
      split
      · exact le_rfl
      · exact hnonneg
    have hremaining : (st.budgets.enter period).monthValueRemaining inp.options =
        some (satSub budget (st.budgets.enter period).valueUsedMonth) := by
      simp [Budgets.monthValueRemaining, BacktestBridgeOptions.hasMonthValueBudget, hbudget,
        hmonths]
    have hfits := hcharged.value_fits rfl hremaining hcount hsound.used_le
    have hmax : max 0 budget ≤ i64Max := max_le (by decide) hrange.2
    rw [hbudgets, hcharged.valueUsedMonth hactive husedNonneg (hfits.trans hmax),
      hcharged.prevMonthOrdinal, hprev]
    exact ⟨Int.add_nonneg husedNonneg hcharged.nonneg,
      hsound.charge (fun r hr ↦ by rw [hl r hr, hmonth]) hcharged.sum_le hfits⟩

variable {order : HashMap.Order Symbol}

theorem Metered.step (haccepted : inp.accepted = true) (hrec : inp.options.recordExecutions = true)
    (hchron : inp.Chronological) (hperiod : inp.periods[period.index]? = some period)
    {es : List ExecutionRecord} (hes : st.portfolio.executions = some es)
    (h : Metered inp period.index st (rebalanceFills es))
    (hstep : step inp order st period = .ok st') :
    ∃ es', st'.portfolio.executions = some es' ∧
      Metered inp (period.index + 1) st' (rebalanceFills es') := by
  obtain ⟨st₁, exits, hreb, hexits, hbudgets, hcap⟩ := rest_step hstep
  obtain ⟨l, count, value, hl, hcharged⟩ := charged_rebalance hrec hreb
  have hexecutions :
    (applyBudgets inp period (recordSymbolReturns period st)).portfolio.executions =
      some es := by
    obtain ⟨budgets, cap, value, heq⟩ := applyBudgets_eq inp period (recordSymbolReturns period st)
    rw [heq]
    exact hes
  have hindex : ∀ r ∈ l, r.periodIndex = period.index := fun r hr ↦ (hl.context r hr).1
  have hfills : rebalanceFills (es ++ l ++ exits) = rebalanceFills es ++ l := by
    have hall : l.filter (fun r ↦ r.kind = .rebalance) = l :=
      List.filter_eq_self.mpr fun r hr ↦ decide_eq_true (hl.context r hr).2
    have hnone : exits.filter (fun r ↦ r.kind = .rebalance) = [] := by
      rw [List.filter_eq_nil_iff]
      intro r hr
      rw [(hexits.context r hr).2]
      decide
    rw [rebalanceFills, List.filter_append, List.filter_append, hall, hnone, List.append_nil,
      rebalanceFills]
  refine ⟨es ++ l ++ exits, ?_, ?_⟩
  · rw [hexits.executions, hl.executions, hexecutions]
    rfl
  · rw [hfills]
    cases hactive : inp.options.windowedBudgetsActive with
    | true => exact h.step_active haccepted hchron hperiod hactive hcharged hindex hbudgets
    | false => exact h.step_inactive hactive hcharged hindex hbudgets hcap

omit [F64 F] in
/-- Counters that account for the fills keep them within the budgets. -/
theorem Metered.withinBudgets {n : Nat} {es : List ExecutionRecord}
    (h : Metered inp n st (rebalanceFills es)) : inp.WithinBudgets es where
  rebalance := h.rebalance
  day cap days hbudget hdays day := by
    rw [← Window.spent_one]
    exact (h.day cap days hbudget hdays).within day
  month cap months hbudget hmonths month := by
    rw [← Window.spent_one]
    exact (h.month cap months hbudget hmonths).within month
  monthValue budget months hbudget hmonths month :=
    (h.monthValue budget months hbudget hmonths).2.within month

theorem metered_start : Metered inp 0 inp.start [] where
  index _ h := absurd h List.not_mem_nil
  rebalance _ _ _ := Nat.zero_le _
  cap _ := rfl
  prevDay _ _ _ h := by cases h
  day cap _ _ _ := Window.sound_nil (Nat.zero_le cap)
  prevMonth _ _ _ h := by cases h
  month cap _ _ _ := Window.sound_nil (Nat.zero_le cap)
  monthValue budget _ _ _ := ⟨le_rfl, Window.sound_nil (le_max_left 0 budget)⟩

end BridgeState

namespace BacktestInput

variable {M : Type} {inp : BacktestInput F} {order : HashMap.Order Symbol} {st : BridgeState F}
  {n : Nat}

/-- The run lemma. -/
theorem metered_runTo (haccepted : inp.accepted = true) (hrec : inp.options.recordExecutions = true)
    (hchron : inp.Chronological) (hn : n ≤ inp.periods.length) (h : inp.runTo order n = .ok st) :
    ∃ es, st.portfolio.executions = some es ∧ BridgeState.Metered inp n st (rebalanceFills es) := by
  refine Steps.invariant (P := fun n st ↦ ∃ es, st.portfolio.executions = some es ∧
    BridgeState.Metered inp n st (rebalanceFills es)) ⟨[], ?_, BridgeState.metered_start⟩ ?_ hn h
  · simp only [start, startPortfolio, hrec, if_true]
  · rintro i period u v hperiod ⟨es, hes, hmetered⟩ hstep
    obtain rfl := index_of_periods hperiod
    exact hmetered.step haccepted hrec hchron hperiod hes hstep

variable {r : BacktestBridgeResult F M} {computeMetrics : List F → F → F → Option M}

/-- The fills that a run records keep to every budget that is active. -/
theorem backtest_withinBudgets (haccepted : inp.accepted = true)
    (hrec : inp.options.recordExecutions = true) (hchron : inp.Chronological)
    (hr : inp.backtestWeightsWithOptions order computeMetrics = some r) (es : List ExecutionRecord)
    (hes : r.executions = some es) : inp.WithinBudgets es := by
  have hnone : inp.WithinBudgets [] :=
    { rebalance := fun _ _ _ ↦ Nat.zero_le _
      day := fun _ _ _ _ _ ↦ Nat.zero_le _
      month := fun _ _ _ _ _ ↦ Nat.zero_le _
      monthValue := fun budget _ _ _ _ ↦ le_max_left 0 budget }
  rw [backtestWeightsWithOptions, if_pos haccepted] at hr
  split at hr
  · next st hst =>
      cases hr
      rw [run_eq_runTo] at hst
      obtain ⟨es', hes', hmetered⟩ := metered_runTo haccepted hrec hchron le_rfl hst
      obtain rfl : es' = es := Option.some_inj.mp (hes'.symm.trans hes)
      exact hmetered.withinBudgets
  · cases hr
    simp only [unpricedResult, emptyResult, hrec, if_true] at hes
    cases hes
    exact hnone
  · cases hr

/-- One trade a day, and 1500 cents of trades a month: what is bought on the first bar is to be sold
on the second one of the same day. -/
def oneADay : BacktestInput (Option Rat) :=
  { allIn 1000 none [[(aapl, flatBar 100)], [(aapl, flatBar 50)], [(aapl, flatBar 70)]] with
    weightSchedule := [[(aapl, F64.ofInt 1)], [], []]
    options :=
      { (allIn 1000 none []).options with
        maxTradesPerDay := some 1
        maxTradedValuePerMonth := some 1500
        periodDayOrdinal := some [7, 7, 8]
        periodMonthOrdinal := some [0, 0, 0] } }

/-- It is sold the day after, as far as the value of the month allows. -/
theorem withinBudgets_oneADay : ∃ r es,
    oneADay.backtestWeightsWithOptions .insertion (fun _ _ _ ↦ (none : Option Unit)) = some r ∧
      r.executions = some es ∧
      es.map (fun e ↦ (e.periodIndex, e.referenceNotional)) = [(0, 1000), (2, 490)] ∧
      oneADay.WithinBudgets es := by
  have hrun :
    (oneADay.backtestWeightsWithOptions .insertion (fun _ _ _ ↦ (none : Option Unit))).bind
      (fun r ↦ r.executions.map fun es ↦ es.map fun e ↦ (e.periodIndex, e.referenceNotional)) =
        some [(0, 1000), (2, 490)] := by decide +kernel
  obtain ⟨r, hr, hexecutions⟩ := Option.bind_eq_some_iff.mp hrun
  obtain ⟨es, hes, hshape⟩ := Option.map_eq_some_iff.mp hexecutions
  have hchron : oneADay.Chronological := by
    refine ⟨fun days hdays ↦ ?_, fun months hmonths ↦ ?_, fun budget hbudget ↦ ?_⟩
    · cases hdays
      decide
    · cases hmonths
      decide
    · cases hbudget
      decide
  exact ⟨r, es, hr, hes, hshape, backtest_withinBudgets (by decide +kernel) rfl hchron hr es hes⟩

end BacktestInput

end Nanobook
