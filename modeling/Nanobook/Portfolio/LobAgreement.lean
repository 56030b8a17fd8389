import Nanobook.Portfolio.Cash

/-!
# Agreement with the exchanges

A trade that an order of `rebalance_lob` has executed is final, but the fill it is passed on as may
be cut down for want of cash, or skipped for its commission.  Whole shares are converted to
micro-shares in `i64` on the way, and the position saturates.  Where none of this happens to any
trade, the portfolio has moved by what was traded; and with one order per symbol it has only then,
since all that can go wrong leaves it short of the trade.
-/

namespace Nanobook

open Rebalancer (Symbol collected)

variable {F : Type} [F64 F]

/-- The direction in which an order moves the position. -/
def Side.sign : Side → Int
  | .buy => 1
  | .sell => -1

namespace LobFill

omit [F64 F]

/-- The quantity traded, in micro-shares and signed. -/
def signed (f : LobFill F) : Int := f.side.sign * (f.trade.quantity * Shares.scale)

/-- The quantity that trades of a symbol add up to. -/
def total (sym : Symbol) (log : List (LobFill F)) : Int :=
  ((log.filter fun f ↦ f.symbol = sym).map signed).sum

theorem total_append (sym : Symbol) (log : List (LobFill F)) (f : LobFill F) :
    total sym (log ++ [f]) = total sym log + if f.symbol = sym then f.signed else 0 := by
  by_cases h : f.symbol = sym <;> simp [total, List.filter_append, h]

end LobFill

/-- The fill of a trade goes through as a whole: it fits into an `i64`, so does the position with
it, and the cash pays for it. -/
structure LobFill.Full (f : LobFill F) : Prop where
  fits : InI64 f.signed
  room : InI64 (f.found.quantity f.symbol + f.signed)
  fillable : f.found.Fillable f.signed f.trade.price

instance (p : Portfolio F) (qty : Shares) (price : Int) : Decidable (p.Fillable qty price) :=
  inferInstanceAs (Decidable ((_ → _) ∧ (_ → _)))

instance (f : LobFill F) : Decidable f.Full :=
  decidable_of_iff (InI64 f.signed ∧ InI64 (f.found.quantity f.symbol + f.signed) ∧
      f.found.Fillable f.signed f.trade.price)
    ⟨fun h ↦ ⟨h.1, h.2.1, h.2.2⟩, fun h ↦ ⟨h.fits, h.room, h.fillable⟩⟩

theorem lobFillQty_eq (side : Side) (trade : Trade) :
    lobFillQty side trade = wrapI64 (side.sign * (trade.quantity * Shares.scale)) := by
  cases side with
  | buy => rw [lobFillQty, Shares.fromWhole, wrapI64_mul_wrapI64, Side.sign, Int.one_mul]
  | sell =>
      rw [lobFillQty, Shares.fromWhole, wrapI64_neg_wrapI64, wrapI64_mul_wrapI64, Side.sign,
        Int.neg_one_mul, Int.neg_mul]

/-! ## One fill -/

/-- What is added to a position by saturating addition, in either direction. -/
theorem satAdd_sub_bounds {q x : Int} (hq : InI64 q) :
    (0 ≤ x → 0 ≤ satAdd q x - q ∧ satAdd q x - q ≤ x) ∧
      (x ≤ 0 → x ≤ satAdd q x - q ∧ satAdd q x - q ≤ 0) := by
  simp only [InI64, satAdd, clampI64, i64Min, i64Max] at *
  omega

omit [F64 F] in
/-- An order trades in its own direction. -/
theorem LobFill.signed_cases (f : LobFill F) :
    (f.side.sign = 1 ∧ 0 ≤ f.signed) ∨ (f.side.sign = -1 ∧ f.signed ≤ 0) := by
  have hamount : (0 : Int) ≤ f.trade.quantity * Shares.scale :=
    Int.mul_nonneg (Int.natCast_nonneg _) (by decide)
  rw [LobFill.signed]
  cases f.side with
  | buy => exact .inl ⟨rfl, by rw [Side.sign]; omega⟩
  | sell => exact .inr ⟨rfl, by rw [Side.sign]; omega⟩

/-- A trade of nothing is filled. -/
theorem LobFill.full_of_signed_eq_zero {f : LobFill F} (hq : InI64 (f.found.quantity f.symbol))
    (h : f.signed = 0) : f.Full where
  fits := by rw [h]; decide
  room := by rw [h, Int.add_zero]; exact hq
  fillable := by
    rw [h]
    exact ⟨fun h ↦ absurd h (lt_irrefl _), fun h ↦ absurd h (lt_irrefl _)⟩

/-- A fill moves the position no further than the trade did, and as far only if it is the whole
trade. -/
theorem LobFill.sign_mul_moved_le {f : LobFill F} {p' : Portfolio F}
    (hq : InI64 (f.found.quantity f.symbol)) (h : f.toFill.result = some p') :
    InI64 (p'.quantity f.symbol) ∧
      f.side.sign * (p'.quantity f.symbol - f.found.quantity f.symbol) ≤ f.side.sign * f.signed ∧
      (p'.quantity f.symbol - f.found.quantity f.symbol = f.signed → f.Full) := by
  have hqty : f.toFill.qty = wrapI64 f.signed := lobFillQty_eq f.side f.trade
  have hrange : InI64 (wrapI64 f.signed) := inI64_wrapI64 _
  obtain ⟨filled, hfills, hafter⟩ := Portfolio.quantity_executeFill (hqty ▸ hrange) h f.symbol
  have hmoved : p'.quantity f.symbol = satAdd (f.found.quantity f.symbol) filled :=
    (hafter.trans (if_pos rfl)).trans (satAdd_zero_or hq)
  rw [hqty] at hfills
  have hbounds := @satAdd_sub_bounds _ filled hq
  have hbuy := hfills.buy
  have hsell := hfills.sell
  refine ⟨hmoved ▸ inI64_clampI64 _, ?_, fun hall ↦ ?_⟩
  · rw [hmoved]
    rcases f.signed_cases with ⟨hsign, hpos⟩ | ⟨hsign, hneg⟩
    · have := wrapI64_le hpos
      rw [hsign]
      lia
    · have := le_wrapI64 hneg
      rw [hsign]
      lia
  · by_cases hzero : f.signed = 0
    · exact f.full_of_signed_eq_zero hq hzero
    · rw [hmoved] at hall
      have hexact : filled = wrapI64 f.signed ∧ wrapI64 f.signed = f.signed := by
        rcases f.signed_cases with ⟨-, hpos⟩ | ⟨-, hneg⟩
        · have := wrapI64_le hpos
          lia
        · have := le_wrapI64 hneg
          lia
      have hroom :
        satAdd (f.found.quantity f.symbol) filled = f.found.quantity f.symbol + f.signed := by lia
      refine ⟨hexact.2 ▸ hrange, hroom ▸ inI64_clampI64 _, ?_⟩
      rw [← hexact.2]
      exact hfills.full.mp hexact.1

/-- A full fill moves the position by the trade. -/
theorem LobFill.Full.quantity_eq {f : LobFill F} {p' : Portfolio F} (hf : f.Full)
    (h : f.toFill.result = some p') :
    p'.quantity f.symbol = f.found.quantity f.symbol + f.signed := by
  have hqty : f.toFill.qty = f.signed :=
    (lobFillQty_eq f.side f.trade).trans (wrapI64_eq hf.fits)
  obtain ⟨filled, hfills, hafter⟩ := Portfolio.quantity_executeFill (hqty ▸ hf.fits) h f.symbol
  have hall : filled = f.signed := by
    rw [hqty] at hfills
    exact hfills.full.mpr hf.fillable
  rw [hafter.trans (if_pos rfl), hall]
  split
  · next hzero => rw [hzero, Int.add_zero]; rfl
  · exact clampI64_eq hf.room

/-! ## A call -/

/-- The portfolio has moved by what the trades of each symbol add up to. -/
def Agrees (p : Portfolio F) (st : LobState F) : Prop :=
  ∀ sym, st.portfolio.quantity sym - p.quantity sym = LobFill.total sym st.log

namespace LobState

variable {p : Portfolio F} {st st' : LobState F} {fuel : Nat}

theorem fill_some {symbol : Symbol} {side : Side} {trade : Trade}
    (h : st.fill symbol side trade = some st') :
    (LobFill.toFill ⟨st.portfolio, symbol, side, trade⟩).result = some st'.portfolio ∧
      st'.log = st.log ++ [⟨st.portfolio, symbol, side, trade⟩] ∧
      ∀ sym, symbol ≠ sym → st'.portfolio.quantity sym = st.portfolio.quantity sym := by
  obtain ⟨p', hp', rfl⟩ := Option.map_eq_some_iff.mp h
  refine ⟨hp', rfl, fun sym hne ↦ ?_⟩
  obtain ⟨filled, -, hmoved⟩ :=
    Portfolio.quantity_executeFill (inI64_lobFillQty side trade) hp' sym
  rw [hmoved, if_neg hne]

/-- If the fills so far were full, the portfolio has moved by the trades so far. -/
theorem agrees_fill {symbol : Symbol} {side : Side} {trade : Trade}
    (hst : (∀ f ∈ st.log, f.Full) → Agrees p st) (h : st.fill symbol side trade = some st') :
    (∀ f ∈ st'.log, f.Full) → Agrees p st' := by
  obtain ⟨hresult, hlog, hother⟩ := fill_some h
  intro hfull sym
  rw [hlog] at hfull
  have hlast : LobFill.Full ⟨st.portfolio, symbol, side, trade⟩ :=
    hfull _ (List.mem_append_right _ (List.mem_singleton_self _))
  have hbefore := hst (fun f hf ↦ hfull f (List.mem_append_left _ hf)) sym
  rw [hlog, LobFill.total_append, ← hbefore]
  by_cases hsym : symbol = sym
  · subst hsym
    rw [if_pos rfl, hlast.quantity_eq hresult]
    ring
  · rw [if_neg hsym, hother sym hsym]
    ring

theorem agrees_orders {syms : List Symbol} (h : Orders fuel syms st st')
    (hst : (∀ f ∈ st.log, f.Full) → Agrees p st) : (∀ f ∈ st'.log, f.Full) → Agrees p st' := by
  induction h with
  | done => exact hst
  | skip _ _ ih => exact ih hst
  | order hsub _ ih =>
      exact ih (submit_invariant (I := fun st ↦ (∀ f ∈ st.log, f.Full) → Agrees p st)
        (fun _ _ h ↦ h) (fun _ _ _ h hfill ↦ agrees_fill h hfill) hst hsub)

/-- No order for the symbol has been made. -/
structure Untouched (p : Portfolio F) (sym : Symbol) (st : LobState F) : Prop where
  quantity_eq : st.portfolio.quantity sym = p.quantity sym
  symbol_ne : ∀ f ∈ st.log, f.symbol ≠ sym

/-- The orders for the symbol went in one direction, and the portfolio has moved no further than
they traded. -/
structure Bounded (p : Portfolio F) (sym : Symbol) (side : Side) (st : LobState F) : Prop where
  inI64 : InI64 (st.portfolio.quantity sym)
  le : side.sign * (st.portfolio.quantity sym - p.quantity sym) ≤
  side.sign * LobFill.total sym st.log
  full : st.portfolio.quantity sym - p.quantity sym = LobFill.total sym st.log →
    ∀ f ∈ st.log, f.symbol = sym → f.Full

variable {sym symbol : Symbol} {side : Side} {trade : Trade} {qty : Nat}

theorem Untouched.bounded (h : Untouched p sym st) (hq : InI64 (p.quantity sym)) (side : Side) :
    Bounded p sym side st := by
  have htotal : LobFill.total sym st.log = 0 := by
    rw [LobFill.total, List.filter_eq_nil_iff.mpr]
    · rfl
    · exact fun f hf ↦ by simpa using h.symbol_ne f hf
  constructor
  · rwa [h.quantity_eq]
  · rw [h.quantity_eq, htotal, Int.sub_self]
  · exact fun _ f hf hsym ↦ absurd hsym (h.symbol_ne f hf)

theorem Untouched.fill (h : Untouched p sym st) (hne : symbol ≠ sym)
    (hfill : st.fill symbol side trade = some st') : Untouched p sym st' := by
  obtain ⟨-, hlog, hother⟩ := fill_some hfill
  refine ⟨(hother sym hne).trans h.quantity_eq, fun f hf ↦ ?_⟩
  rw [hlog] at hf
  rcases List.mem_append.mp hf with hf | hf
  · exact h.symbol_ne f hf
  · rw [List.mem_singleton.mp hf]
    exact hne

/-- A fill of another symbol changes nothing for this one. -/
theorem Bounded.fill_ne (h : Bounded p sym side st) {side' : Side} (hne : symbol ≠ sym)
    (hfill : st.fill symbol side' trade = some st') : Bounded p sym side st' := by
  obtain ⟨-, hlog, hother⟩ := fill_some hfill
  have htotal : LobFill.total sym st'.log = LobFill.total sym st.log := by
    rw [hlog, LobFill.total_append, if_neg hne, Int.add_zero]
  constructor
  · rw [hother sym hne]
    exact h.inI64
  · rw [hother sym hne, htotal]
    exact h.le
  · rw [hother sym hne, htotal, hlog]
    intro heq f hf hsym
    rcases List.mem_append.mp hf with hf | hf
    · exact h.full heq f hf hsym
    · rw [List.mem_singleton.mp hf] at hsym
      exact absurd hsym hne

/-- A fill in the same direction adds no more than its trade. -/
theorem Bounded.fill_eq (h : Bounded p sym side st) (hfill : st.fill sym side trade = some st') :
    Bounded p sym side st' := by
  obtain ⟨hresult, hlog, -⟩ := fill_some hfill
  obtain ⟨hrange, hmoved, hfull⟩ := LobFill.sign_mul_moved_le h.inI64 hresult
  have htotal : LobFill.total sym st'.log = LobFill.total sym st.log +
      LobFill.signed ⟨st.portfolio, sym, side, trade⟩ := by
    rw [hlog, LobFill.total_append, if_pos rfl]
  have hle := h.le
  simp only at hrange hmoved hfull
  have hboth : st'.portfolio.quantity sym - p.quantity sym = LobFill.total sym st'.log →
      st.portfolio.quantity sym - p.quantity sym = LobFill.total sym st.log ∧
        st'.portfolio.quantity sym - st.portfolio.quantity sym =
          LobFill.signed ⟨st.portfolio, sym, side, trade⟩ := by
    rw [htotal]
    intro heq
    cases side <;> simp only [Side.sign] at hle hmoved <;> lia
  constructor
  · exact hrange
  · rw [htotal]
    cases side <;> simp only [Side.sign] at hle hmoved ⊢ <;> omega
  · intro heq f hf hsym
    obtain ⟨hbefore, hlast⟩ := hboth heq
    rw [hlog] at hf
    rcases List.mem_append.mp hf with hf | hf
    · exact h.full hbefore f hf hsym
    · rw [List.mem_singleton.mp hf]
      exact hfull hlast

/-- Where no symbol is ordered twice, the bound holds for every symbol. -/
theorem bounded_orders {syms : List Symbol} (h : Orders fuel syms st st') (hnodup : syms.Nodup)
    (hq : ∀ sym, InI64 (p.quantity sym)) (hst : ∀ sym, ∃ side, Bounded p sym side st)
    (hpending : ∀ sym ∈ syms, Untouched p sym st) : ∀ sym, ∃ side, Bounded p sym side st' := by
  induction h with
  | done => exact hst
  | skip sym _ ih =>
      exact ih (List.nodup_cons.mp hnodup).2 hst fun s hs ↦ hpending s (List.mem_cons_of_mem sym hs)
  | @order st st₁ st' syms sym side qty hsub _ ih =>
      obtain ⟨hnew, hnodup⟩ := List.nodup_cons.mp hnodup
      refine ih hnodup (fun s ↦ ?_) fun s hs ↦ ?_
      · by_cases hs : sym = s
        · subst hs
          exact ⟨side, submit_invariant (fun _ _ h ↦ ⟨h.inI64, h.le, h.full⟩)
            (fun _ _ _ h hfill ↦ h.fill_eq hfill)
            ((hpending sym List.mem_cons_self).bounded (hq sym) side) hsub⟩
        · obtain ⟨side', hside'⟩ := hst s
          exact ⟨side',
            submit_invariant (I := Bounded p s side') (fun _ _ h ↦ ⟨h.inI64, h.le, h.full⟩)
            (fun _ _ _ h hfill ↦ h.fill_ne hs hfill) hside' hsub⟩
      · have hne : sym ≠ s := fun heq ↦ hnew (heq ▸ hs)
        exact submit_invariant (I := Untouched p s) (fun _ _ h ↦ ⟨h.quantity_eq, h.symbol_ne⟩)
          (fun _ _ _ h hfill ↦ h.fill hne hfill) (hpending s (List.mem_cons_of_mem sym hs)) hsub

end LobState

namespace Portfolio

variable {p : Portfolio F} {fuel : Nat} {order : HashMap.Order Symbol}

/-- After a call the portfolio and the exchanges agree if every fill of the call was full; and if no
symbol has two targets, only then. -/
theorem rebalanceLob_agrees {targets : List (Symbol × F)} {exchanges : MultiExchange}
    {st : LobState F} (h : p.rebalanceLob fuel order targets exchanges = some st) :
    ((∀ f ∈ st.log, f.Full) → Agrees p st) ∧
      ((targets.map Prod.fst).Nodup → (∀ sym, InI64 (p.quantity sym)) → Agrees p st →
        ∀ f ∈ st.log, f.Full) := by
  obtain ⟨syms, hnodup, horders⟩ := orders_rebalanceLob h
  refine ⟨LobState.agrees_orders horders fun _ _ ↦ Int.sub_self _, fun htargets hq hagrees f hf ↦
    ?_⟩
  have huntouched : ∀ sym, LobState.Untouched p sym ⟨p, exchanges, []⟩ := fun sym ↦
    ⟨rfl, fun f hf ↦ absurd hf List.not_mem_nil⟩
  obtain ⟨side, hbounded⟩ := LobState.bounded_orders horders (hnodup htargets) hq
    (fun sym ↦ ⟨.buy, (huntouched sym).bounded (hq sym) .buy⟩) (fun sym _ ↦ huntouched sym) f.symbol
  exact hbounded.full (hagrees f.symbol) f hf rfl

/-- Ten shares are on offer for ten dollars each. -/
def tenOnOffer : Option MultiExchange :=
  (Exchange.create.submitLimit 3 .sell 1000 10 .gtc).map fun r ↦ HashMap.empty.insert aapl r.1

/-- Half of the cash buys a share. -/
theorem agrees_halfOfTheCash : ∃ exchanges st, tenOnOffer = some exchanges ∧
    (new 2000 dollarAFill).rebalanceLob 3 .insertion [(aapl, some (Rat.div 1 2))] exchanges =
      some st ∧
      Agrees (new 2000 dollarAFill) st := by
  have hfull : (tenOnOffer.bind fun exchanges ↦
      ((new 2000 dollarAFill).rebalanceLob 3 .insertion [(aapl, some (Rat.div 1 2))] exchanges).map
        fun st ↦ st.log.all fun f ↦ decide f.Full) = some true := by decide +kernel
  obtain ⟨exchanges, hoffer, hrun⟩ := Option.bind_eq_some_iff.mp hfull
  obtain ⟨st, hst, hall⟩ := Option.map_eq_some_iff.mp hrun
  refine ⟨exchanges, st, hoffer, hst, (rebalanceLob_agrees hst).1 fun f hf ↦ ?_⟩
  exact of_decide_eq_true (List.all_eq_true.mp hall f hf)

/-- All of the cash leaves nothing for the commission: the exchange has sold a share that the
portfolio has not got. -/
theorem not_agrees_allOfTheCash : ∃ exchanges st, tenOnOffer = some exchanges ∧
    (new 1000 dollarAFill).rebalanceLob 3 .insertion [(aapl, some (Rat.ofInt 1))] exchanges =
      some st ∧
      st.portfolio.quantity aapl = 0 ∧ LobFill.total aapl st.log = 1000000 ∧
        ¬ Agrees (new 1000 dollarAFill) st := by
  have hmoved : (tenOnOffer.bind fun exchanges ↦
      ((new 1000 dollarAFill).rebalanceLob 3 .insertion [(aapl, some (Rat.ofInt 1))] exchanges).map
        fun st ↦ (st.portfolio.quantity aapl, LobFill.total aapl st.log)) = some (0, 1000000) := by
    decide +kernel
  obtain ⟨exchanges, hoffer, hrun⟩ := Option.bind_eq_some_iff.mp hmoved
  obtain ⟨st, hst, hall⟩ := Option.map_eq_some_iff.mp hrun
  obtain ⟨hq, htotal⟩ := Prod.mk.inj hall
  refine ⟨exchanges, st, hoffer, hst, hq, htotal, fun hagrees ↦ ?_⟩
  have h := hagrees aapl
  rw [hq, htotal] at h
  exact absurd h (by decide)

end Portfolio

end Nanobook
