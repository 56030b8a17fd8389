import Nanobook.Exchange
import Nanobook.Portfolio.Rebalance

/-!
# Rebalancing through order books

`rebalance_lob`: the orders are market orders on the exchange of their symbol, sized at the middle
of its book, and each trade they execute is passed on as a fill.  Besides the portfolio and the
exchanges the definitions carry a log of these fills, each with the portfolio it found, which is
what a call is judged by.
-/

namespace Nanobook

open Rebalancer (Symbol collected collected_isNone_iff)

/-- One order book per symbol. -/
abbrev MultiExchange := HashMap Symbol Exchange

namespace MultiExchange

def getOrCreate (exchanges : MultiExchange) (sym : Symbol) : Exchange :=
  (exchanges.get? sym).getD Exchange.create

/-- The middle of a book, or the side that is there. -/
def mid (ex : Exchange) : Option Int :=
  match ex.book.bestBid, ex.book.bestAsk with
  | some b, some a => some (satAdd b ((satSub a b).tdiv 2))
  | some b, none => some b
  | none, some a => some a
  | none, none => none

def prices (exchanges : MultiExchange) : PriceMap := fun sym ↦ (exchanges.get? sym).bind mid

end MultiExchange

/-- The signed quantity of a trade, as it is passed on: `u64` to `i64` to micro-shares. -/
def lobFillQty (side : Side) (trade : Trade) : Shares :=
  match side with
  | .buy => Shares.fromWhole (wrapI64 trade.quantity)
  | .sell => Shares.fromWhole (wrapI64 (-wrapI64 trade.quantity))

/-- A trade of an order of the call, with the portfolio that its fill found. -/
structure LobFill (F : Type) where
  found : Portfolio F
  symbol : Symbol
  side : Side
  trade : Trade

structure LobState (F : Type) where
  portfolio : Portfolio F
  exchanges : MultiExchange
  log : List (LobFill F)

namespace LobState

variable {F : Type} [F64 F]

open F64

variable (symbol : Symbol) (side : Side)

/-- Pass a trade on to the portfolio. -/
def fill (st : LobState F) (trade : Trade) : Option (LobState F) :=
  (st.portfolio.executeFill symbol (lobFillQty side trade) trade.price).map fun p ↦
    { st with portfolio := p, log := st.log ++ [⟨st.portfolio, symbol, side, trade⟩] }

/-- Submit a market order and pass on what it trades. -/
def submit (fuel : Nat) (st : LobState F) (qty : Nat) : Option (LobState F) := do
  let (ex, result) ← (st.exchanges.getOrCreate symbol).submitMarket fuel side qty
  result.trades.foldlM (fill symbol side) { st with exchanges := st.exchanges.insert symbol ex }

/-- Close a position, in whole shares. -/
def close (fuel : Nat) (st : LobState F) (sym : Symbol) : Option (LobState F) :=
  match st.portfolio.position sym with
  | none => some st
  | some pos =>
      if pos.isFlat then some st
      else
        let whole := Shares.whole pos.quantity
        submit sym (if 0 < whole then .sell else .buy) fuel st whole.natAbs

/-- Move a position towards the weight of its target, in whole shares. -/
def rebalanceTarget (fuel : Nat) (prices : PriceMap) (equity : Int) (st : LobState F)
    (target : Symbol × F) : Option (LobState F) :=
  match prices target.1 with
  | none => some st
  | some price =>
      if price ≤ 0 then some st
      else
        let currentValue :=
          ((st.portfolio.position target.1).map fun pos ↦ pos.marketValue price).getD 0
        let targetValue := toI64 (ofInt equity * target.2)
        let diffValue := satSub targetValue currentValue
        let diffQty := (diffValue.tdiv price).natAbs
        if diffQty = 0 then some st
        else submit target.1 (if 0 < diffValue then .buy else .sell) fuel st diffQty

end LobState

namespace Portfolio

variable {F : Type} [F64 F]

/-- `rebalance_lob`. -/
def rebalanceLob (p : Portfolio F) (fuel : Nat) (order : HashMap.Order Symbol)
    (targets : List (Symbol × F)) (exchanges : MultiExchange) : Option (LobState F) :=
  let st : LobState F := ⟨p, exchanges, []⟩
  let prices := exchanges.prices
  let equity := p.totalEquity order prices
  if equity ≤ 0 then some st
  else do
    let toClose := (order.arrange p.positions.keys).filter fun sym ↦ (collected targets sym).isNone
    let st ← toClose.foldlM (LobState.close fuel) st
    targets.foldlM (LobState.rebalanceTarget fuel prices equity) st

end Portfolio

/-! ## What a call consists of -/

namespace LobState

variable {F : Type} [F64 F] {st st' : LobState F} {fuel : Nat}

/-- At most one market order for each symbol of a list. -/
inductive Orders (fuel : Nat) : List Symbol → LobState F → LobState F → Prop where
  | done (st : LobState F) : Orders fuel [] st st
  | skip {st st' : LobState F} {syms : List Symbol} (sym : Symbol)
      (rest : Orders fuel syms st st') :
      Orders fuel (sym :: syms) st st'
  | order {st st₁ st' : LobState F} {syms : List Symbol} {sym : Symbol} {side : Side} {qty : Nat}
      (submit : st.submit sym side fuel qty = some st₁) (rest : Orders fuel syms st₁ st') :
      Orders fuel (sym :: syms) st st'

theorem Orders.append {syms syms' : List Symbol} {st₁ : LobState F} (h : Orders fuel syms st st₁)
    (h' : Orders fuel syms' st₁ st') : Orders fuel (syms ++ syms') st st' := by
  induction h with
  | done => exact h'
  | skip sym _ ih => exact .skip sym (ih h')
  | order hsub _ ih => exact .order hsub (ih h')

/-- A fold of passes that make at most one order each. -/
theorem Orders.of_foldlM {A : Type} {f : LobState F → A → Option (LobState F)} {k : A → Symbol}
    (hpass : ∀ st a st', f st a = some st' →
      st' = st ∨ ∃ side qty, st.submit (k a) side fuel qty = some st') {l : List A}
    (h : l.foldlM f st = some st') : Orders fuel (l.map k) st st' := by
  induction l generalizing st with
  | nil =>
      cases h
      exact .done _
  | cons a l ih =>
      obtain ⟨st₁, hst₁, hrest⟩ := Option.bind_eq_some_iff.mp h
      rcases hpass st a st₁ hst₁ with rfl | ⟨side, qty, hsub⟩
      · exact .skip _ (ih hrest)
      · exact .order hsub (ih hrest)

/-- Closing a position is one market order, if it is anything. -/
theorem close_cases {sym : Symbol} (h : st.close fuel sym = some st') :
    st' = st ∨ ∃ side qty, st.submit sym side fuel qty = some st' := by
  rw [close] at h
  split at h
  · exact .inl (Option.some_inj.mp h).symm
  · split at h
    · exact .inl (Option.some_inj.mp h).symm
    · exact .inr ⟨_, _, h⟩

/-- So is moving one to its target. -/
theorem rebalanceTarget_cases {prices : PriceMap} {equity : Int} {target : Symbol × F}
    (h : st.rebalanceTarget fuel prices equity target = some st') :
    st' = st ∨ ∃ side qty, st.submit target.1 side fuel qty = some st' := by
  rw [rebalanceTarget] at h
  split at h
  · exact .inl (Option.some_inj.mp h).symm
  · split at h
    · exact .inl (Option.some_inj.mp h).symm
    · simp only at h
      split at h
      · exact .inl (Option.some_inj.mp h).symm
      · exact .inr ⟨_, _, h⟩

/-- What every fill of an order preserves, the order preserves. -/
theorem submit_invariant {I : LobState F → Prop} {symbol : Symbol} {side : Side} {qty : Nat}
    (hexchanges : ∀ st exchanges, I st → I { st with exchanges })
    (hfill : ∀ st trade st', I st → st.fill symbol side trade = some st' → I st') (hst : I st)
    (h : st.submit symbol side fuel qty = some st') : I st' := by
  obtain ⟨⟨ex, result⟩, -, hfills⟩ := Option.bind_eq_some_iff.mp h
  have hfold : result.trades.foldlM (fill symbol side)
      { st with exchanges := st.exchanges.insert symbol ex } = some st' := hfills
  exact Loop.foldlM_invariant (fun _ _ _ _ h hf ↦ hfill _ _ _ h hf) (hexchanges _ _ hst) hfold

end LobState

/-- A call orders what it closes and then what it has targets for. -/
theorem Portfolio.orders_rebalanceLob {F : Type} [F64 F] {p : Portfolio F} {fuel : Nat}
    {order : HashMap.Order Symbol} {targets : List (Symbol × F)} {exchanges : MultiExchange}
    {st : LobState F} (h : p.rebalanceLob fuel order targets exchanges = some st) :
    ∃ syms, ((targets.map Prod.fst).Nodup → syms.Nodup) ∧
      LobState.Orders fuel syms ⟨p, exchanges, []⟩ st := by
  simp only [rebalanceLob] at h
  split_ifs at h
  · cases h
    exact ⟨[], fun _ ↦ List.nodup_nil, .done _⟩
  · obtain ⟨st₁, hclose, htargets⟩ := Option.bind_eq_some_iff.mp h
    have hclosed := LobState.Orders.of_foldlM (k := id)
      (fun _ _ _ hc ↦ LobState.close_cases hc) hclose
    refine ⟨_, fun hnodup ↦ ?_, hclosed.append
      (LobState.Orders.of_foldlM (k := Prod.fst)
        (fun _ _ _ ht ↦ LobState.rebalanceTarget_cases ht) htargets)⟩
    rw [List.map_id]
    refine (((order.perm _).nodup_iff.mpr p.positions.nodup).filter _).append hnodup ?_
    intro sym hsym htarget
    exact absurd htarget (collected_isNone_iff.mp (List.mem_filter.mp hsym).2)

end Nanobook
