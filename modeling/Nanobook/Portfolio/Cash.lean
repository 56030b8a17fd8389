import Nanobook.Portfolio.Lob

/-!
# Cash

Buys are checked against the cash by an estimate that takes a price of zero or less for free, and
sales by the very amount that is booked.  So only a buy at such a price can overdraw the account: it
is never cut down, and pays its commission all the same.
-/

namespace Nanobook

open Rebalancer (Symbol collected)

variable {F : Type} [F64 F]

/-! ## Fills and calls -/

/-- A fill that is asked for, with the portfolio it finds. -/
structure Fill (F : Type) where
  found : Portfolio F
  symbol : Symbol
  qty : Shares
  price : Int

namespace Fill

def effectivePrice (f : Fill F) : Int := f.found.costModel.effectivePrice f.qty f.price

def result (f : Fill F) : Option (Portfolio F) := f.found.executeFill f.symbol f.qty f.price

/-- The cash pays for a buy at a price of zero or less: for its commission, less what the price
brings in. -/
def Paid (f : Fill F) : Prop :=
  0 < f.qty → f.effectivePrice ≤ 0 →
    satAdd (notionalCents f.qty f.effectivePrice)
      (f.found.costModel.computeCost (notionalOf f.qty f.effectivePrice)) ≤ f.found.cash

instance (f : Fill F) : Decidable f.Paid := inferInstanceAs (Decidable (_ → _ → _))

end Fill

/-- The fills of a list of orders. -/
def Portfolio.fillsOf (p : Portfolio F) : List (PlannedOrder F) → List (Fill F)
  | [] => []
  | order :: rest =>
      ⟨p, order.symbol, order.qty, order.price⟩ ::
        match p.executeOrder order with
        | some p => p.fillsOf rest
        | none => []

def LobFill.toFill {F : Type} (f : LobFill F) : Fill F :=
  ⟨f.found, f.symbol, lobFillQty f.side f.trade, f.trade.price⟩

/-- The calls that change a portfolio. -/
inductive Call (F : Type) where
  | rebalanceSimple (targets : List (Symbol × F)) (prices : List (Symbol × Int))
  | rebalanceLob (targets : List (Symbol × F)) (exchanges : MultiExchange)
  | closePositionAt (symbol : Symbol) (price : Int)
  | recordReturn (prices : List (Symbol × Int))
  | setQuantityStep (step : Int)
  | setMinOrderValue (value : Int)
  | setMaxOrderValue (value : Int)
  | setNoTradeBandBps (bps : F)
  | setMaxTradesPerRebalance (cap : Option Nat)
  | setMaxRebalanceNotional (value : Int)

namespace Portfolio

variable (fuel : Nat) (order : HashMap.Order Symbol)

/-- Make a call, and list the fills it asks for. -/
def perform (p : Portfolio F) : Call F → Option (Portfolio F × List (Fill F))
  | .rebalanceSimple targets prices =>
      let orders := p.rebalanceOrders (collected prices) order targets
      (p.rebalanceSimple (collected prices) order targets).map fun p' ↦
        (p', (p.countOrders orders).fillsOf orders)
  | .rebalanceLob targets exchanges =>
      (p.rebalanceLob fuel order targets exchanges).map fun st ↦
        (st.portfolio, st.log.map LobFill.toFill)
  | .closePositionAt symbol price =>
      (p.closePositionAt symbol price).map fun r ↦
        (r.1, if r.2 then [⟨p, symbol, satNeg (p.quantity symbol), price⟩] else [])
  | .recordReturn prices => some (p.recordReturn order (collected prices), [])
  | .setQuantityStep step => some (p.setQuantityStep step, [])
  | .setMinOrderValue value => some (p.setMinOrderValue value, [])
  | .setMaxOrderValue value => some (p.setMaxOrderValue value, [])
  | .setNoTradeBandBps bps => some (p.setNoTradeBandBps bps, [])
  | .setMaxTradesPerRebalance cap => some (p.setMaxTradesPerRebalance cap, [])
  | .setMaxRebalanceNotional value => some (p.setMaxRebalanceNotional value, [])

/-- Make calls one after the other. -/
def performAll (p : Portfolio F) : List (Call F) → Option (Portfolio F × List (Fill F))
  | [] => some (p, [])
  | call :: calls => do
      let (p, fills) ← p.perform fuel order call
      let (p, fills') ← p.performAll calls
      some (p, fills ++ fills')

end Portfolio

/-! ## One fill -/

/-- From an account that is not overdrawn, a fill overdraws it unless it is paid for. -/
theorem Fill.cash_nonneg_iff {f : Fill F} {p : Portfolio F} (hqty : InI64 f.qty)
    (h : f.result = some p) (hcash : 0 ≤ f.found.cash) : 0 ≤ p.cash ↔ f.Paid := by
  obtain ⟨count, shortfall, filled, hfills, rfl⟩ := Portfolio.executeFill_cases hqty h
  have hafter : 0 ≤ f.found.cashAfter filled f.effectivePrice ↔
      satAdd (notionalCents filled f.effectivePrice)
        (f.found.costModel.computeCost (notionalOf filled f.effectivePrice)) ≤ f.found.cash :=
    satSub_nonneg_iff
  have hcashBooked :
    ((f.found.withTrims count shortfall).booked f.symbol f.qty f.price filled).cash =
      if filled = 0 then f.found.cash else f.found.cashAfter filled f.effectivePrice :=
    Portfolio.cash_booked filled
  rw [hcashBooked]
  by_cases hbuy : 0 < f.qty ∧ f.effectivePrice ≤ 0
  · -- the estimate is zero, so the buy is not cut down
    obtain ⟨hpos, hprice⟩ := hbuy
    have hall : filled = f.qty := hfills.full.mpr
      ⟨fun _ ↦ by rw [buyCashRequired, if_pos (.inr hprice)]; exact hcash,
        fun hneg ↦ absurd hpos (not_lt.mpr hneg.le)⟩
    rw [if_neg (hall ▸ hpos.ne'), hafter, hall]
    exact ⟨fun h _ _ ↦ h, fun h ↦ h hpos hprice⟩
  · refine iff_of_true ?_ fun hpos hprice ↦ absurd ⟨hpos, hprice⟩ hbuy
    rcases lt_trichotomy filled 0 with hneg | rfl | hpos
    · rw [if_neg hneg.ne]
      exact hfills.covered hneg
    · rw [if_pos rfl]
      exact hcash
    · have hqtyPos : 0 < f.qty := by
        by_contra hle
        rcases eq_or_lt_of_le (not_lt.mp hle) with heq | hneg
        · exact absurd hpos (not_lt.mpr (heq ▸ (hfills.buy heq.ge).2))
        · rcases hfills.sell hneg with heq | heq
          · exact absurd hpos (not_lt.mpr (heq ▸ hneg.le))
          · exact hpos.ne' heq
      have hprice : 0 < f.effectivePrice := not_le.mp fun hle ↦ hbuy ⟨hqtyPos, hle⟩
      rw [if_neg hpos.ne', hafter, ← Portfolio.buyCashRequired_eq hpos hprice]
      exact hfills.affordable hpos

/-! ## Runs -/

/-- Fills that lead from one cash balance to another, each finding what the one before it left. -/
inductive CashChain : Int → List (Fill F) → Int → Prop where
  | done (cash : Int) : CashChain cash [] cash
  | fill {f : Fill F} {p : Portfolio F} {rest : List (Fill F)} {cash : Int} (inI64 : InI64 f.qty)
      (result : f.result = some p) (chain : CashChain p.cash rest cash) :
      CashChain f.found.cash (f :: rest) cash

theorem CashChain.append {cash₁ cash₂ cash₃ : Int} {l l' : List (Fill F)}
    (h : CashChain cash₁ l cash₂)
    (h' : CashChain cash₂ l' cash₃) : CashChain cash₁ (l ++ l') cash₃ := by
  induction h with
  | done => exact h'
  | fill hqty hresult _ ih => exact .fill hqty hresult (ih h')

/-- The account is never overdrawn, neither between the fills nor at the end. -/
def CashNonneg (fills : List (Fill F)) (cash : Int) : Prop :=
  (∀ f ∈ fills, 0 ≤ f.found.cash) ∧ 0 ≤ cash

omit [F64 F] in
theorem cashNonneg_cons {f : Fill F} {rest : List (Fill F)} {cash : Int} :
    CashNonneg (f :: rest) cash ↔ 0 ≤ f.found.cash ∧ CashNonneg rest cash := by
  rw [CashNonneg, List.forall_mem_cons, and_assoc]
  rfl

theorem CashChain.start_nonneg {cash cash' : Int} {fills : List (Fill F)}
    (h : CashChain cash fills cash') (hn : CashNonneg fills cash') : 0 ≤ cash := by
  cases h with
  | done => exact hn.2
  | fill => exact hn.1 _ List.mem_cons_self

/-- The run lemma: it is never overdrawn exactly if every fill is paid for. -/
theorem CashChain.nonneg_iff {cash cash' : Int} {fills : List (Fill F)}
    (h : CashChain cash fills cash')
    (hcash : 0 ≤ cash) : CashNonneg fills cash' ↔ ∀ f ∈ fills, f.Paid := by
  induction h with
  | done cash =>
      exact ⟨fun _ f hf ↦ absurd hf List.not_mem_nil, fun _ ↦
        ⟨fun f hf ↦ absurd hf List.not_mem_nil, hcash⟩⟩
  | fill hqty hresult hchain ih =>
      have hstep := Fill.cash_nonneg_iff hqty hresult hcash
      rw [cashNonneg_cons, List.forall_mem_cons]
      constructor
      · rintro ⟨-, hrest⟩
        have hp := hchain.start_nonneg hrest
        exact ⟨hstep.mp hp, (ih hp).mp hrest⟩
      · rintro ⟨hpaid, hrest⟩
        exact ⟨hcash, (ih (hstep.mpr hpaid)).mpr hrest⟩

/-! ## The calls -/

namespace Portfolio

variable {p p' : Portfolio F} {fuel : Nat} {order : HashMap.Order Symbol}

/-- The fills of a list of orders lead from the cash before them to the cash after them. -/
theorem cashChain_fillsOf {orders : List (PlannedOrder F)} (hqty : ∀ o ∈ orders, InI64 o.qty)
    (h : orders.foldlM executeOrder p = some p') : CashChain p.cash (p.fillsOf orders) p'.cash := by
  induction orders generalizing p with
  | nil =>
      cases h
      exact .done _
  | cons o rest ih =>
      obtain ⟨p₁, hp₁, hrest⟩ := Option.bind_eq_some_iff.mp h
      rw [fillsOf, hp₁]
      exact .fill (f := ⟨p, o.symbol, o.qty, o.price⟩) (hqty o List.mem_cons_self) hp₁
        (ih (fun o' ho' ↦ hqty o' (List.mem_cons_of_mem o ho')) hrest)

end Portfolio

namespace LobState

variable {st st' : LobState F} {start : Int}

/-- The fills logged so far lead from the cash at the start of the call to the cash now. -/
def Logs (start : Int) (st : LobState F) : Prop :=
  CashChain start (st.log.map LobFill.toFill) st.portfolio.cash

theorem inI64_lobFillQty (side : Side) (trade : Trade) : InI64 (lobFillQty side trade) := by
  cases side with
  | buy => exact Shares.inI64_fromWhole _
  | sell => exact Shares.inI64_fromWhole _

theorem Logs.fill {symbol : Symbol} {side : Side} {trade : Trade} (h : Logs start st)
    (hfill : st.fill symbol side trade = some st') : Logs start st' := by
  obtain ⟨p, hp, rfl⟩ := Option.map_eq_some_iff.mp hfill
  rw [Logs, List.map_append]
  refine h.append ?_
  exact .fill (f := ⟨st.portfolio, symbol, lobFillQty side trade, trade.price⟩)
    (inI64_lobFillQty side trade) hp (.done p.cash)

theorem Logs.submit {symbol : Symbol} {side : Side} {fuel qty : Nat} (h : Logs start st)
    (hsub : st.submit symbol side fuel qty = some st') : Logs start st' :=
  submit_invariant (I := Logs start) (fun _ _ h ↦ h) (fun _ _ _ h hfill ↦ h.fill hfill) h hsub

theorem Logs.orders {fuel : Nat} {syms : List Symbol} (h : Logs start st)
    (horders : Orders fuel syms st st') : Logs start st' := by
  induction horders with
  | done => exact h
  | skip _ _ ih => exact ih h
  | order hsub _ ih => exact ih (h.submit hsub)

end LobState

namespace Portfolio

variable {p p' : Portfolio F} {fuel : Nat} {order : HashMap.Order Symbol} {fills : List (Fill F)}

theorem logs_rebalanceLob {targets : List (Symbol × F)} {exchanges : MultiExchange}
    {st : LobState F} (h : p.rebalanceLob fuel order targets exchanges = some st) :
    LobState.Logs p.cash st := by
  obtain ⟨syms, -, horders⟩ := orders_rebalanceLob h
  have hstart : LobState.Logs p.cash ⟨p, exchanges, []⟩ := .done p.cash
  exact hstart.orders horders

/-- What a call does to the cash, it does by its fills. -/
theorem cashChain_perform {call : Call F} (h : p.perform fuel order call = some (p', fills)) :
    CashChain p.cash fills p'.cash := by
  cases call with
  | rebalanceSimple targets prices =>
      obtain ⟨p₁, hp₁, he⟩ := Option.map_eq_some_iff.mp h
      cases he
      exact cashChain_fillsOf (p := p.countOrders _) (fun o ho ↦ inI64_rebalanceOrders ho) hp₁
  | rebalanceLob targets exchanges =>
      obtain ⟨st, hst, he⟩ := Option.map_eq_some_iff.mp h
      cases he
      exact logs_rebalanceLob hst
  | closePositionAt symbol price =>
      obtain ⟨⟨p₁, closed⟩, hp₁, he⟩ := Option.map_eq_some_iff.mp h
      cases he
      rcases closePositionAt_cases hp₁ with heq | ⟨-, -, hclosed, hfill⟩
      · cases heq
        exact .done p.cash
      · rw [if_pos hclosed]
        exact .fill (f := ⟨p, symbol, satNeg (p.quantity symbol), price⟩) (inI64_clampI64 _) hfill
          (.done _)
  | recordReturn | setQuantityStep | setMinOrderValue | setMaxOrderValue | setNoTradeBandBps |
    setMaxTradesPerRebalance | setMaxRebalanceNotional =>
      cases h
      exact .done _

theorem cashChain_performAll {calls : List (Call F)}
    (h : p.performAll fuel order calls = some (p', fills)) : CashChain p.cash fills p'.cash := by
  induction calls generalizing p fills with
  | nil =>
      cases h
      exact .done _
  | cons call calls ih =>
      obtain ⟨⟨p₁, fills₁⟩, hcall, h⟩ := Option.bind_eq_some_iff.mp h
      obtain ⟨⟨p₂, fills₂⟩, hcalls, h⟩ := Option.bind_eq_some_iff.mp h
      cases h
      exact (cashChain_perform hcall).append (ih hcalls)

/-- Over any sequence of calls, the cash stays at zero or above exactly if it pays for every buy
that is filled at a price of zero or less. -/
theorem cashNonneg_performAll_iff {cash : Int} {c : CostModel F} {calls : List (Call F)}
    (hcash : 0 ≤ cash) (h : (new cash c).performAll fuel order calls = some (p', fills)) :
    CashNonneg fills p'.cash ↔ ∀ f ∈ fills, f.Paid :=
  (cashChain_performAll h).nonneg_iff hcash

/-- A flat commission of a dollar. -/
def dollarAFill : CostModel (Option Rat) := ⟨F64.ofInt 0, F64.ofInt 0, 100⟩

/-- Sell a share short, spend all the cash on another one, and cover the first at a price of
zero. -/
def coverAtZero : List (Call (Option Rat)) :=
  [.rebalanceSimple [(aapl, F64.ofInt (-1))] [(aapl, 1000)],
    .rebalanceSimple [(aapl, F64.ofInt (-1)), (msft, F64.ofInt 2)] [(aapl, 1000), (msft, 1800)],
    .rebalanceSimple [(msft, F64.ofInt 1)] [(aapl, 0), (msft, 1800)]]

/-- Up to the cover nothing is filled at a price of zero. -/
theorem cashNonneg_beforeCover : ∃ p fills,
    (new 1000 dollarAFill).performAll 0 .insertion (coverAtZero.take 2) = some (p, fills) ∧
      CashNonneg fills p.cash := by
  have hpaid : ((new 1000 dollarAFill).performAll 0 .insertion (coverAtZero.take 2)).map
      (fun r ↦ r.2.all fun f ↦ decide f.Paid) = some true := by decide +kernel
  obtain ⟨⟨p, fills⟩, hrun, hall⟩ := Option.map_eq_some_iff.mp hpaid
  refine ⟨p, fills, hrun, (cashNonneg_performAll_iff (by decide) hrun).mpr fun f hf ↦ ?_⟩
  exact of_decide_eq_true (List.all_eq_true.mp hall f hf)

/-- The commission of the cover takes the cash below zero. -/
theorem not_cashNonneg_coverAtZero : ∃ p fills,
    (new 1000 dollarAFill).performAll 0 .insertion coverAtZero = some (p, fills) ∧
      p.cash = -100 ∧ ¬ CashNonneg fills p.cash := by
  have hcash : ((new 1000 dollarAFill).performAll 0 .insertion coverAtZero).map (fun r ↦ r.1.cash) =
      some (-100) := by decide +kernel
  obtain ⟨⟨p, fills⟩, hrun, hp⟩ := Option.map_eq_some_iff.mp hcash
  refine ⟨p, fills, hrun, hp, fun h ↦ ?_⟩
  have hnonneg : 0 ≤ p.cash := h.2
  rw [hp] at hnonneg
  exact absurd hnonneg (by decide)

end Portfolio

end Nanobook
