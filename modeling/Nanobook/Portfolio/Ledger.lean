import Nanobook.Portfolio.Rebalance

/-!
# The ledger

A fill that is booked leaves a record.  The records are read here against an account, which is the
cash and the quantities of a portfolio and nothing else: each of them says what became of the
account it found, and so a list of them leads from one account to another.
-/

namespace Nanobook

open Rebalancer (Symbol collected)

/-! ## Accounts -/

/-- The cash and the quantities of a portfolio. -/
@[ext] structure Account where
  cash : Int
  quantity : Symbol → Shares

namespace Account

/-- Nothing but cash. -/
def opening (cash : Int) : Account := ⟨cash, fun _ ↦ 0⟩

/-- The account after a recorded fill. -/
def enter (a : Account) (r : ExecutionRecord) : Account where
  cash := r.cashAfter
  quantity sym := if r.symbol = sym then satAdd (a.quantity sym) r.quantity else a.quantity sym

/-- The record accounts for the cash that the fill moved. -/
structure Accounts (a : Account) (r : ExecutionRecord) : Prop where
  cashAfter : r.cashAfter = satSub a.cash (satAdd (notionalCents r.quantity r.price) r.cost)
  cashDelta : r.cashDelta = wrapI64 (r.cashAfter - a.cash)

/-- Records that lead from one account to another. -/
inductive Entries : Account → List ExecutionRecord → Account → Prop where
  | nil (a : Account) : Entries a [] a
  | cons {a b : Account} {r : ExecutionRecord} {l : List ExecutionRecord} (accounts : a.Accounts r)
      (entries : Entries (a.enter r) l b) : Entries a (r :: l) b

variable {a b c : Account} {l l' : List ExecutionRecord} {r : ExecutionRecord}

theorem Entries.append (h : Entries a l b) (h' : Entries b l' c) : Entries a (l ++ l') c := by
  induction h with
  | nil => exact h'
  | cons haccounts _ ih => exact .cons haccounts (ih h')

theorem Entries.single (h : a.Accounts r) : Entries a [r] (a.enter r) := .cons h (.nil _)

/-- The account the records lead to is the one they are entered into one by one. -/
theorem Entries.eq_foldl (h : Entries a l b) : b = l.foldl enter a := by
  induction h with
  | nil => rfl
  | cons _ _ ih => exact ih

/-- Each record accounts for what the ones before it have left. -/
theorem Entries.accounts (h : Entries a l b) {i : Nat} (hr : l[i]? = some r) :
    ((l.take i).foldl enter a).Accounts r := by
  induction h generalizing i with
  | nil => cases hr
  | cons haccounts _ ih =>
      cases i with
      | zero =>
          cases hr
          exact haccounts
      | succ i => exact ih hr

/-- The cash is what the last record says. -/
theorem cash_foldl_enter (a : Account) (l : List ExecutionRecord) :
    (l.foldl enter a).cash = (l.getLast?.map ExecutionRecord.cashAfter).getD a.cash := by
  induction l generalizing a with
  | nil => rfl
  | cons r l ih =>
      rw [List.foldl_cons, ih]
      cases l with
      | nil => rfl
      | cons s l => rfl

end Account

namespace Portfolio

variable {F : Type}

def account (p : Portfolio F) : Account := ⟨p.cash, p.quantity⟩

variable [F64 F] {p p' : Portfolio F} {symbol : Symbol} {qty filled : Shares} {price : Int}

/-- The records of a fill of which so much is booked. -/
def recordsOf (p : Portfolio F) (symbol : Symbol) (qty : Shares) (price : Int) (filled : Shares) :
    List ExecutionRecord :=
  let effectivePrice := p.costModel.effectivePrice qty price
  let cost := p.costModel.computeCost (notionalOf filled effectivePrice)
  if filled = 0 then []
  else
    [{ sequence := (p.executions.map List.length).getD 0
       periodIndex := p.executionPeriodIndex
       kind := p.executionKind
       symbol := symbol
       quantity := filled
       price := effectivePrice
       referencePrice := price
       notional := notionalOf filled effectivePrice
       referenceNotional := notionalOf filled price
       cost := cost
       cashDelta := wrapI64 (p.cashAfter filled effectivePrice - p.cash)
       cashAfter := p.cashAfter filled effectivePrice }]

/-- The portfolio `p'` is what fills of `p` have made of it, and `l` is what they have recorded in
one period, all of one kind. -/
structure Recorded (periodIndex : Nat) (kind : ExecutionKind) (p p' : Portfolio F)
    (l : List ExecutionRecord) : Prop where
  entries : p.account.Entries l p'.account
  executions : p'.executions = p.executions.map (· ++ l)
  sequence : ∀ es, p.executions = some es → ∀ (i : Nat) (r : ExecutionRecord), l[i]? = some r →
    r.sequence = es.length + i
  context : ∀ r ∈ l, r.periodIndex = periodIndex ∧ r.kind = kind

variable {periodIndex : Nat} {kind : ExecutionKind}

omit [F64 F] in
theorem Recorded.refl (p : Portfolio F) : Recorded periodIndex kind p p [] where
  entries := .nil _
  executions := by simp
  sequence _ _ _ _ h := by cases h
  context _ h := absurd h List.not_mem_nil

omit [F64 F] in
theorem Recorded.trans {p₁ p₂ p₃ : Portfolio F} {l l' : List ExecutionRecord}
    (h : Recorded periodIndex kind p₁ p₂ l) (h' : Recorded periodIndex kind p₂ p₃ l') :
    Recorded periodIndex kind p₁ p₃ (l ++ l') where
  entries := h.entries.append h'.entries
  executions := by
    rw [h'.executions, h.executions, Option.map_map]
    exact congrArg (Option.map · p₁.executions) (funext fun es ↦ List.append_assoc es l l')
  sequence es hes i r hr := by
    have hes' : p₂.executions = some (es ++ l) := by rw [h.executions, hes]; rfl
    by_cases hi : i < l.length
    · rw [List.getElem?_append_left hi] at hr
      exact h.sequence es hes i r hr
    · rw [List.getElem?_append_right (not_lt.mp hi)] at hr
      rw [h'.sequence _ hes' _ r hr, List.length_append]
      omega
  context r hr := by
    rcases List.mem_append.mp hr with hr | hr
    · exact h.context r hr
    · exact h'.context r hr

/-- A fill is recorded if anything of it is booked. -/
theorem recorded_booked (hfilled : InI64 filled) (count : Nat) (shortfall : Int) :
    Recorded p.executionPeriodIndex p.executionKind p
      ((p.withTrims count shortfall).booked symbol qty price filled)
      (p.recordsOf symbol qty price filled) := by
  have hquantity :
    ∀ sym, ((p.withTrims count shortfall).booked symbol qty price filled).quantity sym =
      if symbol = sym ∧ filled ≠ 0 then satAdd (p.quantity sym) filled else p.quantity sym :=
    quantity_booked hfilled
  by_cases hzero : filled = 0
  · rw [recordsOf, if_pos hzero]
    have hsame : (p.withTrims count shortfall).booked symbol qty price filled =
        p.withTrims count shortfall := if_pos hzero
    rw [hsame]
    exact ⟨.nil _, by simp [withTrims], fun _ _ _ _ h ↦ (by cases h),
      fun _ h ↦ absurd h List.not_mem_nil⟩
  · have hbook : (p.withTrims count shortfall).booked symbol qty price filled =
        (p.withTrims count shortfall).book symbol filled price
          (p.costModel.effectivePrice qty price) :=
      if_neg hzero
    rw [hbook] at hquantity ⊢
    rw [recordsOf, if_neg hzero]
    constructor
    · have haccount : ((p.withTrims count shortfall).book symbol filled price
          (p.costModel.effectivePrice qty price)).account = p.account.enter
            { sequence := (p.executions.map List.length).getD 0
              periodIndex := p.executionPeriodIndex
              kind := p.executionKind
              symbol := symbol
              quantity := filled
              price := p.costModel.effectivePrice qty price
              referencePrice := price
              notional := notionalOf filled (p.costModel.effectivePrice qty price)
              referenceNotional := notionalOf filled price
              cost := p.costModel.computeCost
                (notionalOf filled (p.costModel.effectivePrice qty price))
              cashDelta := wrapI64
                (p.cashAfter filled (p.costModel.effectivePrice qty price) - p.cash)
              cashAfter := p.cashAfter filled (p.costModel.effectivePrice qty price) } := by
        refine Account.ext rfl (funext fun sym ↦ (hquantity sym).trans ?_)
        by_cases hsym : symbol = sym
        · rw [if_pos ⟨hsym, hzero⟩]
          exact (if_pos hsym).symm
        · rw [if_neg fun h ↦ hsym h.1]
          exact (if_neg hsym).symm
      rw [haccount]
      exact .single ⟨rfl, rfl⟩
    · cases hexec : p.executions with
      | none => simp [book, withTrims, hexec]
      | some es => simp [book, withTrims, hexec, cashAfter]
    · intro es hes i r hr
      rw [hes] at hr
      cases i with
      | zero =>
          cases hr
          rfl
      | succ i => cases hr
    · intro r hr
      rw [List.mem_singleton.mp hr]
      exact ⟨rfl, rfl⟩

theorem recorded_executeFill (hqty : InI64 qty) (h : p.executeFill symbol qty price = some p') :
    ∃ filled, p.Fills qty price filled ∧
      Recorded p.executionPeriodIndex p.executionKind p p'
      (p.recordsOf symbol qty price filled) := by
  obtain ⟨count, shortfall, filled, hfills, rfl⟩ := executeFill_cases hqty h
  exact ⟨filled, hfills, recorded_booked (hfills.inI64 hqty) count shortfall⟩

/-- No more is filled than was ordered. -/
theorem Fills.natAbs_le (h : p.Fills qty price filled) : filled.natAbs ≤ qty.natAbs := by
  rcases lt_or_ge qty 0 with hneg | hpos
  · rcases h.sell hneg with rfl | rfl
    · exact le_rfl
    · exact Nat.zero_le _
  · have hbuy := h.buy hpos
    lia

/-- The orders of a list leave a record each, at most, and none of more than the order was worth. -/
theorem recorded_foldlM_executeOrder {orders : List (PlannedOrder F)}
    (hqty : ∀ o ∈ orders, InI64 o.qty) (h : orders.foldlM executeOrder p = some p') : ∃ l,
      Recorded p.executionPeriodIndex p.executionKind p p' l ∧
      l.length ≤ orders.length ∧
      (l.map ExecutionRecord.referenceNotional).sum ≤
        (orders.map fun o ↦ notionalOf o.qty o.price).sum := by
  induction orders generalizing p with
  | nil =>
      cases h
      exact ⟨[], .refl _, le_rfl, le_rfl⟩
  | cons o rest ih =>
      obtain ⟨p₁, hp₁, hrest⟩ := Option.bind_eq_some_iff.mp h
      obtain ⟨filled, hfills, hfirst⟩ := recorded_executeFill (hqty o List.mem_cons_self) hp₁
      obtain ⟨l, hl, hlength, hsum⟩ := ih (fun o' ho' ↦ hqty o' (List.mem_cons_of_mem o ho')) hrest
      have hkept := kept_executeFill (hqty o List.mem_cons_self) hp₁
      rw [hkept.executionPeriodIndex, hkept.executionKind] at hl
      refine ⟨_, hfirst.trans hl, ?_⟩
      rw [List.length_append, List.length_cons, List.map_append, List.sum_append, List.map_cons,
        List.sum_cons, recordsOf]
      have hvalue := notionalOf_mono hfills.natAbs_le o.price
      split
      · have hnonneg := notionalOf_nonneg o.qty o.price
        simp only [List.length_nil, List.map_nil, List.sum_nil]
        omega
      · simp only [List.length_singleton, List.map_cons, List.map_nil, List.sum_singleton]
        omega

theorem recorded_rebalanceSimple {prices : PriceMap} {order : HashMap.Order Symbol}
    {targets : List (Symbol × F)} (h : p.rebalanceSimple prices order targets = some p') :
    ∃ l, Recorded p.executionPeriodIndex p.executionKind p p' l ∧
      l.length ≤ (p.rebalanceOrders prices order targets).length ∧
      (l.map ExecutionRecord.referenceNotional).sum ≤
        ((p.rebalanceOrders prices order targets).map fun o ↦ notionalOf o.qty o.price).sum := by
  have hqty : ∀ o ∈ p.rebalanceOrders prices order targets, InI64 o.qty :=
    fun _ ho ↦ inI64_rebalanceOrders ho
  obtain ⟨l, hl, hbounds⟩ := recorded_foldlM_executeOrder hqty h
  exact ⟨l, ⟨hl.entries, hl.executions, hl.sequence, hl.context⟩, hbounds⟩

theorem recorded_closePositionAt {r : Portfolio F × Bool}
    (h : p.closePositionAt symbol price = some r) : ∃ l,
      Recorded p.executionPeriodIndex p.executionKind p r.1 l := by
  rcases closePositionAt_cases h with heq | ⟨-, -, -, hfill⟩
  · rw [heq]
    exact ⟨[], .refl _⟩
  · obtain ⟨filled, -, hrecorded⟩ := recorded_executeFill (inI64_clampI64 _) hfill
    exact ⟨_, hrecorded⟩

end Portfolio

end Nanobook
