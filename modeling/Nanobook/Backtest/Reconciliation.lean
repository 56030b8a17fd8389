import Mathlib.Algebra.BigOperators.Group.Finset.Basic
import Nanobook.Backtest.Unrecorded

/-!
# Reconciliation

The records of a finished run explain it: the cash at every close is what the last record up to it
left, and the equity is this cash and the value of the quantities that the records add up to.  This
takes it that no value of the run leaves the range of `i64`, where it would be clamped.
-/

namespace Nanobook

open Rebalancer (Symbol collected)

/-! ## Sums of records -/

/-- The value of the fill in cents, with the sign of its quantity. -/
def ExecutionRecord.value (r : ExecutionRecord) : Int := (r.quantity * r.price).tdiv Shares.scale

/-- The cash after the last of the records. -/
def cashOf (initialCash : Int) (l : List ExecutionRecord) : Int :=
  (l.getLast?.map ExecutionRecord.cashAfter).getD initialCash

/-- The quantity of a symbol that the records add up to. -/
def netQuantity (l : List ExecutionRecord) (sym : Symbol) : Int :=
  ((l.filter fun r ↦ r.symbol = sym).map ExecutionRecord.quantity).sum

theorem netQuantity_append (l l' : List ExecutionRecord) (sym : Symbol) :
    netQuantity (l ++ l') sym = netQuantity l sym + netQuantity l' sym := by
  rw [netQuantity, List.filter_append, List.map_append, List.sum_append, netQuantity, netQuantity]

theorem netQuantity_singleton (r : ExecutionRecord) (sym : Symbol) :
    netQuantity [r] sym = if r.symbol = sym then r.quantity else 0 := by
  rw [netQuantity]
  by_cases hsym : r.symbol = sym <;> simp [hsym]

/-- A symbol without records has no quantity. -/
theorem netQuantity_eq_zero {l : List ExecutionRecord} {sym : Symbol}
    (h : ∀ r ∈ l, r.symbol ≠ sym) : netQuantity l sym = 0 := by
  rw [netQuantity, List.filter_eq_nil_iff.mpr, List.map_nil, List.sum_nil]
  exact fun r hr ↦ by simpa using h r hr

/-- Within the range of `i64` the quantities of the account are those of the records. -/
theorem Account.quantity_foldl_enter {cash : Int} {l : List ExecutionRecord}
    (h : ∀ n sym, InI64 (netQuantity (l.take n) sym)) (sym : Symbol) :
    (l.foldl enter (opening cash)).quantity sym = netQuantity l sym := by
  have hinit :
    ∀ n, ((l.take n).foldl enter (opening cash)).quantity sym = netQuantity (l.take n) sym := by
    intro n
    induction n with
    | zero => rfl
    | succ n ih =>
        have hrange := h (n + 1) sym
        rw [List.take_add_one] at hrange ⊢
        cases hr : l[n]? with
        | none => rwa [Option.toList_none, List.append_nil]
        | some r =>
            rw [hr, Option.toList_some, netQuantity_append, netQuantity_singleton] at hrange
            rw [Option.toList_some, List.foldl_append, netQuantity_append, netQuantity_singleton,
              ← ih]
            rw [← ih] at hrange
            change (if r.symbol = sym then satAdd _ r.quantity else _) = _
            by_cases hsym : r.symbol = sym
            · rw [if_pos hsym] at hrange ⊢
              rw [if_pos hsym]
              exact clampI64_eq hrange
            · rw [if_neg hsym, if_neg hsym, Int.add_zero]
  rw [← List.take_length (l := l)]
  exact hinit l.length

/-- The record moved the cash by its value and its cost. -/
theorem Account.Accounts.exact {a : Account} {r : ExecutionRecord} (h : a.Accounts r)
    (hvalue : InI64 r.value) (hcharge : InI64 (r.value + r.cost))
    (hdelta : InI64 (-(r.value + r.cost))) (hcash : InI64 (a.cash - (r.value + r.cost))) :
    r.cashAfter = a.cash + r.cashDelta ∧ r.cashDelta = -r.value - r.cost := by
  have hnotional : notionalCents r.quantity r.price = r.value := clampI64_eq hvalue
  have hafter : r.cashAfter = a.cash - (r.value + r.cost) := by
    rw [h.cashAfter, hnotional, satAdd, clampI64_eq hcharge, satSub, clampI64_eq hcash]
  have hmoved : r.cashDelta = -(r.value + r.cost) := by
    rw [h.cashDelta, hafter,
      show a.cash - (r.value + r.cost) - a.cash = -(r.value + r.cost) by omega, wrapI64_eq hdelta]
  constructor
  · omega
  · omega

/-! ## Equity -/

/-- Within the range of `i64` a saturating sum is the sum. -/
theorem foldl_satAdd {l : List Int} {acc : Int} (h : ∀ n, InI64 (acc + (l.take n).sum)) :
    l.foldl satAdd acc = acc + l.sum := by
  induction l generalizing acc with
  | nil => rw [List.foldl_nil, List.sum_nil, Int.add_zero]
  | cons x l ih =>
      have hfirst : satAdd acc x = acc + x := by
        have hx := h 1
        rw [List.take_succ_cons, List.take_zero, List.sum_singleton] at hx
        exact clampI64_eq hx
      rw [List.foldl_cons, hfirst, List.sum_cons, ih fun n ↦ ?_, Int.add_assoc]
      have hn := h (n + 1)
      rwa [List.take_succ_cons, List.sum_cons, ← Int.add_assoc] at hn

namespace Portfolio

variable {F : Type} (p : Portfolio F) (order : HashMap.Order Symbol) (prices : PriceMap)

/-- The values of the positions in cents, in the order in which they are added up. -/
def values : List Int :=
  (p.positions.iter order).map fun e ↦ (e.2.quantity * (prices e.1).getD 0).tdiv Shares.scale

/-- No value is clamped when the equity is added up. -/
structure ExactEquity : Prop where
  values : ∀ v ∈ p.values order prices, InI64 v
  sums : ∀ n, InI64 ((p.values order prices).take n).sum
  equity : InI64 (p.cash + (p.values order prices).sum)

variable {p order prices}

/-- A single position. -/
theorem exactEquity_of_values {v : Int} (h : p.values order prices = [v]) (hv : InI64 v)
    (hcash : InI64 (p.cash + v)) : p.ExactEquity order prices where
  values w hw := by
    rw [h, List.mem_singleton] at hw
    rwa [hw]
  sums n := by
    rw [h]
    cases n with
    | zero => exact (by decide : InI64 0)
    | succ n => simpa using hv
  equity := by rwa [h, List.sum_singleton]

theorem totalEquity_eq (h : p.ExactEquity order prices) :
    p.totalEquity order prices = p.cash + (p.values order prices).sum := by
  have hvalues : (p.positions.iter order).foldl
      (fun acc e ↦ satAdd acc (e.2.marketValue ((prices e.1).getD 0))) 0 =
        (p.values order prices).foldl satAdd 0 := by
    rw [values, List.foldl_map]
    refine List.foldl_ext _ _ _ fun acc e he ↦ congrArg (satAdd acc) (clampI64_eq ?_)
    exact h.values _ (List.mem_map_of_mem he)
  have hsum : (p.values order prices).foldl satAdd 0 = 0 + (p.values order prices).sum :=
    foldl_satAdd fun n ↦ by
      rw [Int.zero_add]
      exact h.sums n
  rw [totalEquity, hvalues, hsum, Int.zero_add, satAdd, clampI64_eq h.equity]

/-- A position that is held has its value among the values. -/
theorem sum_values (symbols : Finset Symbol) (hheld : ∀ sym, p.quantity sym ≠ 0 → sym ∈ symbols) :
    (p.values order prices).sum =
      ∑ sym ∈ symbols, (p.quantity sym * (prices sym).getD 0).tdiv Shares.scale := by
  have hvalues : p.values order prices =
      ((p.positions.iter order).map Prod.fst).map fun sym ↦
        (p.quantity sym * (prices sym).getD 0).tdiv Shares.scale := by
    rw [values, List.map_map]
    refine List.map_congr_left fun e he ↦ ?_
    have hposition : p.position e.1 = some e.2 := HashMap.mem_iter.mp he
    simp only [Function.comp_apply, quantity, hposition, Option.map_some, Option.getD_some]
  rw [hvalues, ← List.sum_toFinset _ HashMap.nodup_iter]
  refine Finset.sum_congr_of_eq_on_inter (fun sym _ hsym ↦ ?_) (fun sym _ hsym ↦ ?_) fun _ _ _ ↦ rfl
  · have hzero : p.quantity sym = 0 := by_contra fun hq ↦ hsym (hheld sym hq)
    rw [hzero, Int.zero_mul, Int.zero_tdiv]
  · have hzero : p.quantity sym = 0 := by
      rw [quantity, position, HashMap.get?_eq_none_iff.mpr, Option.map_none, Option.getD_none]
      rw [List.mem_toFinset, HashMap.map_fst_iter, (order.perm _).mem_iff] at hsym
      exact hsym
    rw [hzero, Int.zero_mul, Int.zero_tdiv]

end Portfolio

/-! ## The ledger of a run -/

/-- A record of an earlier period, or of the same one and not an exit before a rebalance. -/
def ExecutionRecord.Before (a b : ExecutionRecord) : Prop :=
  a.periodIndex < b.periodIndex ∨
    (a.periodIndex = b.periodIndex ∧ (a.kind = .stopExit → b.kind = .stopExit))

variable {F : Type} [F64 F] {M : Type}

/-- What the ledger is after `n` periods. -/
structure BridgeState.Ledger (inp : BacktestInput F) (n : Nat) (st : BridgeState F)
    (es : List ExecutionRecord) : Prop where
  executions : st.portfolio.executions = some es
  entries : (Account.opening inp.initialCashCents).Entries es st.portfolio.account
  sequence : ∀ (i : Nat) (r : ExecutionRecord), es[i]? = some r → r.sequence = i
  index : ∀ r ∈ es, r.periodIndex < n
  ordered : es.Pairwise ExecutionRecord.Before

namespace BridgeState

variable {inp : BacktestInput F} {order : HashMap.Order Symbol} {period : Period F}
  {st st' : BridgeState F}
  {es : List ExecutionRecord}

/-- Records of one kind are in order. -/
theorem pairwise_before_of_context {periodIndex : Nat} {kind : ExecutionKind}
    {l : List ExecutionRecord} (h : ∀ r ∈ l, r.periodIndex = periodIndex ∧ r.kind = kind) :
    l.Pairwise ExecutionRecord.Before := by
  refine List.Pairwise.imp_of_mem (fun {a b} ha hb _ ↦ ?_)
    (List.pairwise_of_forall fun _ _ ↦ trivial)
  obtain ⟨hindex, hkind⟩ := h a ha
  obtain ⟨hindex', hkind'⟩ := h b hb
  exact .inr ⟨hindex.trans hindex'.symm, fun hexit ↦ hkind'.trans (hkind.symm.trans hexit)⟩

theorem Ledger.step (hrec : inp.options.recordExecutions = true)
    (h : Ledger inp period.index st es) (hstep : step inp order st period = .ok st') :
    ∃ es', Ledger inp (period.index + 1) st' es' := by
  obtain ⟨index, kind, p, fills, exits, hfills, hcontext, hexits⟩ := recorded_step hstep
  obtain ⟨rfl, rfl⟩ := hcontext hrec
  have hp : p.executions = some (es ++ fills) := by rw [hfills.executions, h.executions]; rfl
  refine ⟨es ++ fills ++ exits, ?_, (h.entries.append hfills.entries).append hexits.entries, ?_, ?_,
    ?_⟩
  · rw [hexits.executions, hp]
    rfl
  · intro i r hr
    rcases lt_or_ge i (es ++ fills).length with hi | hi
    · rw [List.getElem?_append_left hi] at hr
      rcases lt_or_ge i es.length with hi' | hi'
      · rw [List.getElem?_append_left hi'] at hr
        exact h.sequence i r hr
      · rw [List.getElem?_append_right hi'] at hr
        rw [hfills.sequence es h.executions _ r hr]
        omega
    · rw [List.getElem?_append_right hi] at hr
      rw [hexits.sequence _ hp _ r hr]
      omega
  · intro r hr
    rcases List.mem_append.mp hr with hr | hr
    · rcases List.mem_append.mp hr with hr | hr
      · exact (h.index r hr).trans (Nat.lt_succ_self _)
      · rw [(hfills.context r hr).1]
        exact Nat.lt_succ_self _
    · rw [(hexits.context r hr).1]
      exact Nat.lt_succ_self _
  · rw [List.pairwise_append, List.pairwise_append]
    refine ⟨⟨h.ordered, pairwise_before_of_context hfills.context, fun a ha b hb ↦ .inl ?_⟩,
      pairwise_before_of_context hexits.context, fun a ha b hb ↦ ?_⟩
    · rw [(hfills.context b hb).1]
      exact h.index a ha
    · obtain ⟨hindex, hkind⟩ := hexits.context b hb
      rcases List.mem_append.mp ha with ha | ha
      · exact .inl (hindex ▸ h.index a ha)
      · exact .inr ⟨((hfills.context a ha).1).trans hindex.symm, fun _ ↦ hkind⟩

/-- What a period writes of its close is read off the portfolio it leaves. -/
theorem close_step (h : step inp order st period = .ok st') :
    st'.cashSnapshots = st.cashSnapshots.map (· ++ [st'.portfolio.cash]) ∧
      st'.equityCurve = st.equityCurve ++ [st'.portfolio.totalEquity order (closes period)] := by
  obtain ⟨st₂, hsame, hclose⟩ := series_step h
  obtain ⟨-, rfl⟩ := closePeriod_ok hclose
  constructor
  · rw [hsame.cashSnapshots]
    rfl
  · rw [hsame.equityCurve]
    rfl

end BridgeState

namespace BacktestInput

variable {inp : BacktestInput F} {order : HashMap.Order Symbol} {st u : BridgeState F} {n i : Nat}
  {period : Period F} {es es' : List ExecutionRecord}

/-- The run lemma. -/
theorem ledger_runTo (hrec : inp.options.recordExecutions = true) (hn : n ≤ inp.periods.length)
    (h : inp.runTo order n = .ok st) : ∃ es, BridgeState.Ledger inp n st es := by
  refine Steps.invariant (P := fun n st ↦ ∃ es, BridgeState.Ledger inp n st es) ⟨[], ?_⟩ ?_ hn h
  · refine ⟨?_, .nil _, fun _ _ h ↦ (by cases h), fun _ h ↦ absurd h List.not_mem_nil, .nil⟩
    simp only [start, startPortfolio, hrec, if_true]
  · rintro i period u v hperiod ⟨es, hes⟩ hstep
    obtain rfl := index_of_periods hperiod
    exact hes.step hrec hstep

/-- The records of the first periods are those that the ledger had then. -/
theorem filter_ledger (hi : i < inp.periods.length) (hu : inp.runTo order (i + 1) = .ok u)
    (hes' : BridgeState.Ledger inp (i + 1) u es') (h : inp.runTo order inp.periods.length = .ok st)
    (hes : BridgeState.Ledger inp inp.periods.length st es)
    (hrec : inp.options.recordExecutions = true) :
    es' <+: es ∧ es.filter (fun r ↦ r.periodIndex ≤ i) = es' := by
  obtain ⟨l, hl, hindex⟩ := (extends_runTo hu hi le_rfl h).executions
  rw [hes.executions, hes'.executions] at hl
  obtain rfl : es = es' ++ l := Option.some_inj.mp hl
  have hlater : l.filter (fun r ↦ r.periodIndex ≤ i) = [] := by
    rw [List.filter_eq_nil_iff]
    intro r hr
    rw [decide_eq_true_eq, not_le]
    exact (hindex hrec r hr).1
  have hearlier : es'.filter (fun r ↦ r.periodIndex ≤ i) = es' := by
    rw [List.filter_eq_self]
    intro r hr
    rw [decide_eq_true_eq]
    exact Nat.le_of_lt_succ (hes'.index r hr)
  exact ⟨List.prefix_append _ _, by rw [List.filter_append, hlater, hearlier, List.append_nil]⟩

/-- What a finished run has written at the close of a period. -/
theorem close_of_runTo (haccepted : inp.accepted = true) (hu : inp.runTo order (i + 1) = .ok u)
    (hperiod : inp.periods[i]? = some period) (h : inp.runTo order inp.periods.length = .ok st)
    {snapshots : List Int} (hsnapshots : st.cashSnapshots = some snapshots) :
    snapshots[i]? = some u.portfolio.cash ∧
      st.equityCurve[i + 1]? =
        some (u.portfolio.totalEquity order (BridgeState.closes period)) := by
  have hi : i < inp.periods.length := (List.getElem?_eq_some_iff.mp hperiod).choose
  obtain ⟨v, u', hv, hstep, hu'⟩ := step_of_runTo hu (Nat.lt_succ_self i) hperiod
  obtain rfl : u = u' := Except.ok.inj (hu.symm.trans hu')
  obtain ⟨hcash, hequity⟩ := BridgeState.close_step hstep
  have haligned := aligned_of_runTo haccepted hi.le hv
  have hextends := extends_runTo hu hi le_rfl h
  constructor
  · obtain ⟨l, hl⟩ := hextends.cashSnapshots
    have hlength := haligned.cashSnapshots
    rw [hcash] at hl
    cases hs : v.cashSnapshots with
    | none =>
        rw [hsnapshots, hs] at hl
        cases hl
    | some earlier =>
        rw [hsnapshots, hs] at hl
        obtain rfl : snapshots = earlier ++ [u.portfolio.cash] ++ l := Option.some_inj.mp hl
        have hearlier : earlier.length = i := by
          rw [hs, Option.map_some] at hlength
          split_ifs at hlength
          exact Option.some_inj.mp hlength
        rw [List.append_assoc, List.getElem?_append_right hearlier.le, hearlier, Nat.sub_self]
        rfl
  · obtain ⟨l, hl⟩ := hextends.equityCurve
    rw [← hl, hequity, List.append_assoc, List.getElem?_append_right haligned.equityCurve.le,
      haligned.equityCurve, Nat.sub_self]
    rfl

/-- No cash, quantity or value of the ledger, and no equity at a close, leaves the range of
`i64`. -/
structure Unsaturated (inp : BacktestInput F) (order : HashMap.Order Symbol)
    (es : List ExecutionRecord) : Prop where
  cash : ∀ (i : Nat) (r : ExecutionRecord), es[i]? = some r →
    InI64 r.value ∧ InI64 (r.value + r.cost) ∧ InI64 (-(r.value + r.cost)) ∧
      InI64 (cashOf inp.initialCashCents (es.take i) - (r.value + r.cost))
  quantity : ∀ n sym, InI64 (netQuantity (es.take n) sym)
  equity : ∀ (i : Nat) (period : Period F) (st : BridgeState F), inp.periods[i]? = some period →
    inp.runTo order (i + 1) = .ok st → st.portfolio.ExactEquity order (BridgeState.closes period)

/-- The ledger and the snapshots explain the result. -/
structure Reconciles (inp : BacktestInput F) (r : BacktestBridgeResult F M)
    (es : List ExecutionRecord) (snapshots : List Int) : Prop where
  executions : r.executions = some es
  cashSnapshots : r.cashSnapshots = some snapshots
  sequence : ∀ (i : Nat) (e : ExecutionRecord), es[i]? = some e → e.sequence = i
  ordered : es.Pairwise ExecutionRecord.Before
  cashAfter : ∀ (i : Nat) (e : ExecutionRecord), es[i]? = some e →
    e.cashAfter = cashOf inp.initialCashCents (es.take i) + e.cashDelta
  cashDelta : ∀ e ∈ es, e.cashDelta = -(e.quantity * e.price).tdiv Shares.scale - e.cost
  length : snapshots.length = inp.weightSchedule.length
  snapshot : ∀ i, i < inp.weightSchedule.length → snapshots[i]? =
    some (cashOf inp.initialCashCents (es.filter fun e ↦ e.periodIndex ≤ i))
  finalCash : r.finalCash = snapshots.getLast?.getD inp.initialCashCents
  equityCurve : ∀ (i : Nat) (period : Period F), inp.periods[i]? = some period → ∃ cash,
    snapshots[i]? = some cash ∧ r.equityCurve[i + 1]? =
      some (cash + ∑ sym ∈ (es.map ExecutionRecord.symbol).toFinset,
        (netQuantity (es.filter fun e ↦ e.periodIndex ≤ i) sym *
          (BridgeState.closes period sym).getD 0).tdiv Shares.scale)

/-- Entries that stay in range account for the cash exactly. -/
theorem exact_of_ledger (hes : BridgeState.Ledger inp n st es) (hexact : Unsaturated inp order es)
    {r : ExecutionRecord} (hr : es[i]? = some r) :
    r.cashAfter = cashOf inp.initialCashCents (es.take i) + r.cashDelta ∧
      r.cashDelta = -r.value - r.cost := by
  have haccounts := hes.entries.accounts hr
  have hcash : ((es.take i).foldl Account.enter (Account.opening inp.initialCashCents)).cash =
      cashOf inp.initialCashCents (es.take i) := Account.cash_foldl_enter _ _
  obtain ⟨hvalue, hcharge, hdelta, hafter⟩ := hexact.cash i r hr
  rw [← hcash] at hafter ⊢
  exact haccounts.exact hvalue hcharge hdelta hafter

omit [F64 F] in
/-- So the account at a close is what the records of the periods up to it add up to. -/
theorem account_of_ledger (hes : BridgeState.Ledger inp n st es) :
    st.portfolio.cash = cashOf inp.initialCashCents es ∧
      ((∀ n sym, InI64 (netQuantity (es.take n) sym)) →
        ∀ sym, st.portfolio.quantity sym = netQuantity es sym) := by
  have haccount := hes.entries.eq_foldl
  constructor
  · exact (congrArg Account.cash haccount).trans (Account.cash_foldl_enter _ _)
  · intro hexact sym
    exact (congrFun (congrArg Account.quantity haccount) sym).trans
      (Account.quantity_foldl_enter hexact sym)

omit [F64 F] in
/-- The equity at a close is the cash and the value of what the records add up to. -/
theorem equity_of_ledger {symbols : Finset Symbol} (hes : BridgeState.Ledger inp n u es')
    (hquantity : ∀ n sym, InI64 (netQuantity (es'.take n) sym))
    (hequity : u.portfolio.ExactEquity order (BridgeState.closes period))
    (hsymbols : ∀ r ∈ es', r.symbol ∈ symbols) :
    u.portfolio.totalEquity order (BridgeState.closes period) = u.portfolio.cash +
      ∑ sym ∈ symbols,
      (netQuantity es' sym * (BridgeState.closes period sym).getD 0).tdiv Shares.scale := by
  have hnet := (account_of_ledger hes).2 hquantity
  have hheld : ∀ sym, u.portfolio.quantity sym ≠ 0 → sym ∈ symbols := by
    intro sym hq
    by_contra hsym
    refine hq ((hnet sym).trans (netQuantity_eq_zero fun r hr heq ↦ hsym ?_))
    exact heq ▸ hsymbols r hr
  rw [Portfolio.totalEquity_eq hequity, Portfolio.sum_values symbols hheld]
  simp only [hnet]

/-- At each close the account is what the part of the ledger up to that period adds up to. -/
theorem close_of_ledger (haccepted : inp.accepted = true)
    (hrec : inp.options.recordExecutions = true)
    (hst : inp.runTo order inp.periods.length = .ok st)
    (hes : BridgeState.Ledger inp inp.periods.length st es) (hexact : Unsaturated inp order es)
    {snapshots : List Int} (hsnapshots : st.cashSnapshots = some snapshots)
    (hperiod : inp.periods[i]? = some period) :
    snapshots[i]? = some (cashOf inp.initialCashCents (es.filter fun e ↦ e.periodIndex ≤ i)) ∧
      st.equityCurve[i + 1]? = some (cashOf inp.initialCashCents
        (es.filter fun e ↦ e.periodIndex ≤ i) +
        ∑ sym ∈ (es.map ExecutionRecord.symbol).toFinset,
          (netQuantity (es.filter fun e ↦ e.periodIndex ≤ i) sym *
            (BridgeState.closes period sym).getD 0).tdiv Shares.scale) := by
  have hi : i < inp.periods.length := (List.getElem?_eq_some_iff.mp hperiod).choose
  obtain ⟨_, u, -, -, hu⟩ := step_of_runTo hst hi hperiod
  obtain ⟨es', hes'⟩ := ledger_runTo hrec hi hu
  obtain ⟨hinit, hfilter⟩ := filter_ledger hi hu hes' hst hes hrec
  obtain ⟨hcash, hequity⟩ := close_of_runTo haccepted hu hperiod hst hsnapshots
  have hquantity : ∀ n sym, InI64 (netQuantity (es'.take n) sym) := by
    intro n sym
    rw [List.prefix_iff_eq_take.mp hinit, List.take_take]
    exact hexact.quantity _ sym
  have hsymbols : ∀ r ∈ es', r.symbol ∈ (es.map ExecutionRecord.symbol).toFinset :=
    fun r hr ↦ List.mem_toFinset.mpr (List.mem_map_of_mem (hinit.subset hr))
  rw [hfilter, hcash, hequity, ← (account_of_ledger hes').1,
    equity_of_ledger hes' hquantity (hexact.equity i period u hperiod hu) hsymbols]
  exact ⟨rfl, rfl⟩

/-- The cash of a finished run is that of its last close. -/
theorem cash_eq_getLast (haccepted : inp.accepted = true)
    (hst : inp.runTo order inp.periods.length = .ok st) {snapshots : List Int}
    (hsnapshots : st.cashSnapshots = some snapshots)
    (hlength : snapshots.length = inp.periods.length) :
    st.portfolio.cash = snapshots.getLast?.getD inp.initialCashCents := by
  rw [List.getLast?_eq_getElem?, hlength]
  cases hlen : inp.periods.length with
  | zero =>
      rw [hlen] at hst hlength
      cases hst
      rw [List.eq_nil_of_length_eq_zero hlength]
      rfl
  | succ i =>
      have hperiod : inp.periods[i]? = some inp.periods[i] := List.getElem?_eq_getElem (by omega)
      have hu : inp.runTo order (i + 1) = .ok st := by rw [← hlen, hst]
      rw [Nat.add_sub_cancel, (close_of_runTo haccepted hu hperiod hst hsnapshots).1,
        Option.getD_some]

variable {r : BacktestBridgeResult F M} {computeMetrics : List F → F → F → Option M}

/-- A finished run that is recorded, and in which nothing is clamped, is explained by its ledger;
and with recording off it has the same result, the records and snapshots apart. -/
theorem backtest_reconciles (haccepted : inp.accepted = true)
    (hrec : inp.options.recordExecutions = true)
    (hr : inp.backtestWeightsWithOptions order computeMetrics = some r)
    (hfinished : r.unpricedHolding = none)
    (hexact : ∀ es, r.executions = some es → Unsaturated inp order es) :
    (∃ es snapshots, Reconciles inp r es snapshots) ∧
      inp.unrecorded.backtestWeightsWithOptions order computeMetrics = some r.unrecorded := by
  refine ⟨?_, by rw [backtest_unrecorded, hr]; rfl⟩
  obtain ⟨st, hst, rfl⟩ := run_of_completed haccepted hr hfinished
  have hn := length_periods haccepted
  rw [run_eq_runTo] at hst
  obtain ⟨es, hes⟩ := ledger_runTo hrec le_rfl hst
  have hunsaturated := hexact es hes.executions
  have haligned := (aligned_of_runTo haccepted le_rfl hst).cashSnapshots
  rw [if_pos hrec, Option.map_eq_some_iff] at haligned
  obtain ⟨snapshots, hsnapshots, hlength⟩ := haligned
  have hclose (i : Nat) (period : Period F) (hperiod : inp.periods[i]? = some period) :=
    close_of_ledger haccepted hrec hst hes hunsaturated hsnapshots hperiod
  exact ⟨es, snapshots,
    { executions := hes.executions
      cashSnapshots := hsnapshots
      sequence := hes.sequence
      ordered := hes.ordered
      cashAfter := fun i e he ↦ (exact_of_ledger hes hunsaturated he).1
      cashDelta := fun e he ↦ by
        obtain ⟨i, he⟩ := List.mem_iff_getElem?.mp he
        exact (exact_of_ledger hes hunsaturated he).2
      length := hlength.trans hn
      snapshot := fun i hi ↦ by
        rw [← hn] at hi
        exact (hclose i _ (List.getElem?_eq_getElem hi)).1
      finalCash := cash_eq_getLast haccepted hst hsnapshots hlength
      equityCurve := fun i period hperiod ↦ ⟨_, hclose i period hperiod⟩ }⟩

/-- Ten shares are bought for a dollar each, and lose half their value. -/
theorem backtest_reconciles_twoBars : ∃ r es snapshots,
    (allIn 1000 none [[(aapl, flatBar 100)], [(aapl, flatBar 50)]]).backtestWeightsWithOptions
      .insertion
      (fun _ _ _ ↦ (none : Option Unit)) = some r ∧
    r.equityCurve = [1000, 1000, 500] ∧
    Reconciles (allIn 1000 none [[(aapl, flatBar 100)], [(aapl, flatBar 50)]]) r es snapshots := by
  have hrun :
    ((allIn 1000 none [[(aapl, flatBar 100)], [(aapl, flatBar 50)]]).backtestWeightsWithOptions
      .insertion (fun _ _ _ ↦ (none : Option Unit))).map
        (fun r ↦ (r.equityCurve, r.unpricedHolding, r.executions)) =
      some ([1000, 1000, 500], none,
        some [⟨0, 0, .rebalance, aapl, 10000000, 100, 100, 1000, 1000, 0, -1000, 0⟩]) := by
        decide +kernel
  obtain ⟨r, hr, hshape⟩ := Option.map_eq_some_iff.mp hrun
  obtain ⟨hcurve, hshape⟩ := Prod.mk.inj hshape
  obtain ⟨hfinished, hexecutions⟩ := Prod.mk.inj hshape
  have hvalues : ∀ (i : Nat) (period : Period (Option Rat)) (st : BridgeState (Option Rat)),
      (allIn 1000 none [[(aapl, flatBar 100)], [(aapl, flatBar 50)]]).periods[i]? = some period →
      (allIn 1000 none [[(aapl, flatBar 100)], [(aapl, flatBar 50)]]).runTo .insertion (i + 1) =
        .ok st →
      st.portfolio.ExactEquity .insertion (BridgeState.closes period) := by
    have hclose :
      ∀ i < 2, (((allIn 1000 none [[(aapl, flatBar 100)], [(aapl, flatBar 50)]]).periods[i]?).bind
        fun period ↦
          ((allIn 1000 none [[(aapl, flatBar 100)], [(aapl, flatBar 50)]]).runTo .insertion
          (i + 1)).toOption.map fun st ↦
            (st.portfolio.cash, st.portfolio.values .insertion (BridgeState.closes period))) =
        some (0, [if i = 0 then 1000 else 500]) := by decide +kernel
    intro i period st hperiod hst
    have hi : i < 2 := (List.getElem?_eq_some_iff.mp hperiod).choose
    have h := hclose i hi
    rw [hperiod, hst] at h
    obtain ⟨hcash, hvalues⟩ := Prod.mk.inj (Option.some_inj.mp h)
    refine Portfolio.exactEquity_of_values hvalues ?_ ?_
    · split <;> decide
    · rw [hcash]
      split <;> decide
  have hexact : ∀ es, r.executions = some es → Unsaturated
      (allIn 1000 none [[(aapl, flatBar 100)], [(aapl, flatBar 50)]]) .insertion es := by
    intro es hes
    obtain rfl := Option.some_inj.mp (hexecutions.symm.trans hes)
    refine ⟨fun i r hi ↦ ?_, fun n sym ↦ ?_, hvalues⟩
    · cases i with
      | zero =>
          cases hi
          decide +kernel
      | succ i => cases hi
    · cases n with
      | zero => exact (by decide : InI64 0)
      | succ n =>
          rw [List.take_succ_cons, List.take_nil, netQuantity_singleton]
          split <;> decide
  obtain ⟨⟨es, snapshots, hreconciles⟩, -⟩ :=
    backtest_reconciles (by decide +kernel) rfl hr hfinished hexact
  exact ⟨r, es, snapshots, hr, hcurve, hreconciles⟩

end BacktestInput

end Nanobook
