import Nanobook.Conservation
import Nanobook.Termination

/-!
# Terminal orders

An order that is filled or cancelled stays as it is and trades no more, as long as the queues hold
active orders only.  A cancellation that misses its slot leaves the cancelled order queued, where
the next match fills it with a quantity of zero.
-/

namespace Nanobook

/-! ## What a walk acts on -/

/-- The resting order an action is about. -/
def Action.order : Action → Order
  | .fill o _ => o
  | .cancel o => o

section

variable {policy : StpPolicy} {owner : Option OrderOwner} {side : Side} {price : Price}

/-- A walk acts on resting orders, and fills only what is there. -/
theorem of_mem_walk {levels : List RestingLevel} {left : Quantity}
    (hpos : ∀ o ∈ flatten levels, 0 < o.remainingQuantity) {a : Action}
    (h : a ∈ (walk policy owner side price levels left).actions) :
    a.order ∈ flatten levels ∧ ∀ o q, a = .fill o q → 0 < q := by
  revert h
  refine walk_induct (motive := fun levels _ w ↦ (∀ o ∈ flatten levels, 0 < o.remainingQuantity) →
    a ∈ w.actions → a.order ∈ flatten levels ∧ ∀ o q, a = .fill o q → 0 < q)
    ?_ ?_ ?_ ?_ ?_ levels left hpos
  · intro levels left _ _ h
    cases h
  · intro p total o queue levels left _ _ _ _ _ h
    cases h
  · intro p total o queue levels left w _ _ _ _ ih hpos h
    rcases List.mem_cons.mp h with rfl | h
    · exact ⟨List.mem_cons_self, fun _ _ he ↦ by cases he⟩
    · have hsub : ∀ o' ∈ flatten (dropFirst p total o queue levels),
          o' ∈ flatten (⟨p, total, o :: queue⟩ :: levels) :=
        fun o' ho' ↦ List.mem_cons_of_mem _ (mem_of_mem_dropFirst ho')
      exact (ih (fun o' ho' ↦ hpos o' (hsub o' ho')) h).imp_left (hsub _)
  · intro p total o queue levels left w _ _ _ _ ih hpos h
    rcases List.mem_cons.mp h with rfl | h
    · refine ⟨List.mem_cons_self, fun _ _ he ↦ ?_⟩
      cases he
      exact hpos o List.mem_cons_self
    · have hsub : ∀ o' ∈ flatten (dropFirst p total o queue levels),
          o' ∈ flatten (⟨p, total, o :: queue⟩ :: levels) :=
        fun o' ho' ↦ List.mem_cons_of_mem _ (mem_of_mem_dropFirst ho')
      exact (ih (fun o' ho' ↦ hpos o' (hsub o' ho')) h).imp_left (hsub _)
  · intro p total o queue levels left _ hl _ _ _ h
    obtain rfl := List.mem_singleton.mp h
    refine ⟨List.mem_cons_self, fun _ _ he ↦ ?_⟩
    cases he
    exact Nat.pos_of_ne_zero hl

end

namespace Ledger

/-- Orders no action is about are left alone. -/
theorem acts_orders {g : Ledger} {actions : List Action} {id : OrderId}
    (h : ∀ a ∈ actions, a.order.id ≠ id) : (g.acts actions).orders.get? id = g.orders.get? id := by
  induction actions generalizing g with
  | nil => rfl
  | cons a actions ih =>
      have hne := h a List.mem_cons_self
      have hact : (g.act a).orders.get? id = g.orders.get? id := by
        cases a with
        | fill o q => exact (OrdMap.get?_insert _ _ _ _).trans (if_neg hne.symm)
        | cancel o => exact (OrdMap.get?_insert _ _ _ _).trans (if_neg hne.symm)
      exact (ih fun a ha ↦ h a (List.mem_cons_of_mem _ ha)).trans hact

/-- The trades of a list of actions are those of its fills. -/
theorem acts_trades (g : Ledger) (actions : List Action) :
    ∃ new, (g.acts actions).trades = g.trades ++ new ∧ ∀ t ∈ new, ∃ o q, .fill o q ∈ actions ∧
      t.quantity = q ∧ t.passiveOrderId = o.id ∧ t.aggressorOrderId = g.incoming.id := by
  induction actions generalizing g with
  | nil => exact ⟨[], (List.append_nil _).symm, fun _ h ↦ by cases h⟩
  | cons a actions ih =>
      obtain ⟨new, htrades, hnew⟩ := ih (g.act a)
      have htail : ∀ t ∈ new, ∃ o q, .fill o q ∈ a :: actions ∧ t.quantity = q ∧
          t.passiveOrderId = o.id ∧ t.aggressorOrderId = g.incoming.id := by
        intro t ht
        obtain ⟨o, q, hmem, hq, hp, ha⟩ := hnew t ht
        refine ⟨o, q, List.mem_cons_of_mem _ hmem, hq, hp, ha.trans ?_⟩
        cases a <;> rfl
      cases a with
      | cancel o => exact ⟨new, htrades, htail⟩
      | fill o q =>
          refine ⟨_ :: new, htrades.trans (List.append_assoc _ _ _), fun t ht ↦ ?_⟩
          rcases List.mem_cons.mp ht with rfl | ht
          · exact ⟨o, q, List.mem_cons_self, rfl, rfl, rfl⟩
          · exact htail t ht

end Ledger

namespace Exchange

variable {ex ex' : Exchange} {sub : Submission} {fuel : Nat} {r : SubmitResult} {id : OrderId}
  {o : Order}

/-! ## Submissions -/

section Match

variable {s : MatchState} (h : ex.Backed) (hm : Matches ex.stpPolicy (ex.entry sub) s)

include h

/-- The orders a match acts on are stored and active. -/
theorem Backed.of_mem_walkOf {a : Action} (ha : a ∈ (ex.walkOf sub).actions) :
    ex.book.orders.get? a.order.id = some a.order ∧ a.order.isActive = true ∧
      ∀ o q, a = .fill o q → 0 < q := by
  rw [walkOf_eq] at ha
  have hst := h.stocked sub.side.opposite
  have hpos : ∀ o ∈ flatten (ex.book.resting sub.side.opposite), 0 < o.remainingQuantity := by
    intro o ho
    obtain ⟨l, hl, hid, hget, hs, hr⟩ := hst.of_mem_flatten ho
    exact hr
  obtain ⟨hmem, hfill⟩ := of_mem_walk hpos ha
  obtain ⟨l, hl, hid, hget, hs, hr⟩ := hst.of_mem_flatten hmem
  exact ⟨hget, h.isActive_of_mem_flatten hmem, hfill⟩

include hm

/-- A match leaves an order that is not active alone. -/
theorem Backed.orders_match (hid : ∀ o, ex.book.orders.get? id = some o → o.isActive = false) :
    s.book.orders.get? id = ex.book.orders.get? id := by
  have horders : s.book.orders =
      ((ex.entry sub).ledger.acts (ex.walkOf sub).actions).orders := by
    have hl := congrArg Ledger.orders hm.ledger
    split_ifs at hl <;> exact hl
  rw [horders]
  refine Ledger.acts_orders fun a ha heq ↦ ?_
  obtain ⟨hget, hact, -⟩ := h.of_mem_walkOf ha
  rw [heq] at hget
  exact absurd hact (by simp [hid _ hget])

/-- A match trades something with active orders. -/
theorem Backed.trades_match : ∀ t ∈ s.result.trades, 0 < t.quantity ∧
    t.aggressorOrderId = ex.book.nextOrderId ∧
      ∃ o, ex.book.orders.get? t.passiveOrderId = some o ∧ o.isActive = true := by
  have htrades : s.result.trades =
      ((ex.entry sub).ledger.acts (ex.walkOf sub).actions).trades := by
    have hl := congrArg Ledger.trades hm.ledger
    split_ifs at hl <;> exact hl
  obtain ⟨new, hnew, hfills⟩ := (ex.entry sub).ledger.acts_trades (ex.walkOf sub).actions
  rw [htrades, hnew]
  intro t ht
  obtain ⟨o, q, hmem, rfl, hp, ha⟩ := hfills t ht
  obtain ⟨hget, hact, hpos⟩ := h.of_mem_walkOf hmem
  exact ⟨hpos o _ rfl, ha, o, by rw [hp]; exact hget, hact⟩

end Match

/-- What a submission to a backed exchange does to the trades and to an order that is not active. -/
theorem Backed.submit_terminal (h : ex.Backed) (ht : ex.Sure sub)
    (hs : ex.submitLimitInternalWithOwner fuel sub = some (ex', r)) :
    (∃ new, ex'.trades = ex.trades ++ new ∧ ∀ t ∈ new, 0 < t.quantity ∧
      t.aggressorOrderId = ex.book.nextOrderId ∧
        ∃ o, ex.book.orders.get? t.passiveOrderId = some o ∧ o.isActive = true) ∧
    ∀ id < ex.book.nextOrderId,
      (∀ o, ex.book.orders.get? id = some o → o.isActive = false) →
        ex'.book.orders.get? id = ex.book.orders.get? id := by
  rcases submit_cases hs with ⟨-, rfl, -⟩ | ⟨hrej, s, hm, rfl, -⟩
  · exact ⟨⟨[], (List.append_nil _).symm, fun _ h ↦ by cases h⟩, fun _ _ _ ↦ rfl⟩
  · have hmatch := h.isWalk (ht hrej) hm
    refine ⟨⟨_, rfl, h.trades_match hmatch⟩, fun id hlt hid ↦ ?_⟩
    obtain ⟨o, horders, -⟩ := orders_settledBook sub s
    have hne : id ≠ s.incoming.id := by
      rw [(h.wf.matched hm).sameOrder.id]
      exact hlt.ne
    simp only [horders, OrdMap.get?_insert, if_neg hne]
    exact h.orders_match hmatch hid

/-! ## Runs -/

/-- `o` is not active and is what is stored under `id`, unless it was forgotten. -/
structure Retired (ex : Exchange) (id : OrderId) (o : Order) : Prop where
  lt : id < ex.book.nextOrderId
  inactive : o.isActive = false
  stored : ∀ o', ex.book.orders.get? id = some o' → o' = o

/-- The trades of `ex'` are those of `ex` and then trades of some quantity without `id`. -/
def TradesWithout (id : OrderId) (ex ex' : Exchange) : Prop :=
  ∃ new, ex'.trades = ex.trades ++ new ∧ ∀ t ∈ new, 0 < t.quantity ∧ ¬ t.Involves id

theorem TradesWithout.of_eq (h : ex'.trades = ex.trades) : TradesWithout id ex ex' :=
  ⟨[], by rw [h, List.append_nil], fun _ h ↦ by cases h⟩

theorem TradesWithout.trans {ex'' : Exchange} (h : TradesWithout id ex ex')
    (h' : TradesWithout id ex' ex'') : TradesWithout id ex ex'' := by
  obtain ⟨new, htrades, hnew⟩ := h
  obtain ⟨new', htrades', hnew'⟩ := h'
  refine ⟨new ++ new', by rw [htrades', htrades, List.append_assoc], fun t ht ↦ ?_⟩
  exact (List.mem_append.mp ht).elim (hnew t) (hnew' t)

theorem Retired.submit (hret : ex.Retired id o) (h : ex.Backed) (ht : ex.Sure sub)
    (hs : ex.submitLimitInternalWithOwner fuel sub = some (ex', r)) :
    ex'.Retired id o ∧ TradesWithout id ex ex' := by
  obtain ⟨⟨new, htrades, hnew⟩, horders⟩ := h.submit_terminal ht hs
  have hid : ∀ o', ex.book.orders.get? id = some o' → o'.isActive = false :=
    fun o' ho' ↦ hret.stored o' ho' ▸ hret.inactive
  refine ⟨⟨?_, hret.inactive, fun o' ho' ↦ ?_⟩, new, htrades, fun t ht ↦ ?_⟩
  · rw [(submit_frame hs).2.2.2.2.2]
    exact hret.lt.trans (Nat.lt_succ_self _)
  · rw [horders id hret.lt hid] at ho'
    exact hret.stored o' ho'
  · obtain ⟨hpos, hagg, x, hx, hact⟩ := hnew t ht
    refine ⟨hpos, ?_⟩
    rintro (heq | heq)
    · exact hret.lt.ne (heq.symm.trans hagg)
    · rw [heq] at hx
      exact absurd hact (by simp [hid x hx])

theorem Retired.cancelOrder (hret : ex.Retired id o) (j : OrderId) :
    ({ ex with book := (ex.book.cancelOrder j).1 } : Exchange).Retired id o := by
  refine ⟨?_, hret.inactive, fun o' ho' ↦ ?_⟩
  · rw [(ex.book.shrinks_cancelOrder j).nextOrderId]
    exact hret.lt
  · by_cases hact : ∃ x, ex.book.orders.get? j = some x ∧ x.isActive = true
    · obtain ⟨x, hx, ha⟩ := hact
      simp only [OrderBook.orders_cancelOrder hx ha, OrdMap.get?_insert] at ho'
      split_ifs at ho' with hj
      · subst hj
        exact absurd ha (by simp [hret.stored x hx, hret.inactive])
      · exact hret.stored o' ho'
    · rw [OrderBook.cancelOrder_of_inactive fun x hx ↦ by
        simpa using fun ha ↦ hact ⟨x, hx, ha⟩] at ho'
      exact hret.stored o' ho'

/-- Every elementary transition leaves a retired order alone, as long as no trades are cleared. -/
theorem Atom.retired (ha : Atom (· ≠ .clearTrades) Sure (fun ex id ↦ ex.book.Targets id) ex ex')
    (h : ex.Backed) (hret : ex.Retired id o) : ex'.Retired id o ∧ TradesWithout id ex ex' := by
  cases ha with
  | lastPrice _ => exact ⟨⟨hret.lt, hret.inactive, hret.stored⟩, .of_eq rfl⟩
  | submit ht hs => exact hret.submit h ht hs
  | cancelOrder _ => exact ⟨hret.cancelOrder _, .of_eq rfl⟩
  | stops _ => exact ⟨⟨hret.lt, hret.inactive, hret.stored⟩, .of_eq rfl⟩
  | insertStop _ =>
      exact ⟨⟨hret.lt.trans (Nat.lt_succ_self _), hret.inactive, hret.stored⟩, .of_eq rfl⟩
  | compact => exact ⟨⟨hret.lt, hret.inactive, hret.stored⟩, .of_eq rfl⟩
  | clearHistory _ =>
      refine ⟨⟨hret.lt, hret.inactive, fun o' ho' ↦ hret.stored o' ?_⟩, .of_eq rfl⟩
      simp only [OrderBook.clearHistory, OrdMap.get?_filter, Option.filter_eq_some_iff] at ho'
      exact ho'.1
  | clearTrades hK => exact absurd rfl hK

theorem Path.retired (hp : Path (· ≠ .clearTrades) Sure (fun ex id ↦ ex.book.Targets id) ex ex')
    (h : ex.Backed) (hret : ex.Retired id o) : ex'.Retired id o ∧ TradesWithout id ex ex' := by
  induction hp with
  | refl => exact ⟨hret, .of_eq rfl⟩
  | tail hfirst hlast ih =>
      obtain ⟨hret', htrades⟩ := ih
      have hb := Path.backed (fun _ _ hp ↦ hp) (fun _ _ hq ↦ hq) hfirst h
      obtain ⟨hret'', htrades'⟩ := hlast.retired hb hret'
      exact ⟨hret'', htrades.trans htrades'⟩

theorem Retired.logged (hret : ex.Retired id o) (op : Op) : (ex.logged op).Retired id o := by
  obtain ⟨events, hlog⟩ := ex.logged_eq op
  rw [hlog]
  exact ⟨hret.lt, hret.inactive, hret.stored⟩

/-- An operation leaves a retired order alone, and what it adds to the trades is without it. -/
theorem Step.retired {op : Op} (hs : ex.Step op ex') (hc : ex.CancelsHit op) (h : ex.Backed)
    (hret : ex.Retired id o) : ex'.Retired id o ∧
      ∀ t ∈ ex'.trades.drop ex.trades.length, 0 < t.quantity ∧ ¬ t.Involves id := by
  obtain ⟨fuel, hs⟩ := hs
  by_cases hclear : op = .clearTrades
  · subst hclear
    obtain rfl := Option.some.inj hs
    refine ⟨⟨hret.lt, hret.inactive, hret.stored⟩, fun t ht ↦ ?_⟩
    exact absurd (List.mem_of_mem_drop ht) List.not_mem_nil
  by_cases hop : ∃ policy, op = .setStpPolicy policy
  · obtain ⟨policy, rfl⟩ := hop
    obtain rfl := Option.some.inj hs
    refine ⟨⟨hret.lt, hret.inactive, hret.stored⟩, fun t ht ↦ ?_⟩
    rw [show (ex.setStpPolicy policy).trades = ex.trades from rfl, List.drop_length] at ht
    cases ht
  · have hpath := perform_path (K := (· ≠ .clearTrades)) (P := Sure)
      (Q := fun ex id ↦ ex.book.Targets id) (fun policy hp ↦ hop ⟨policy, hp⟩) hclear
      (fun _ _ hcalls ↦ hc.sure hcalls) (fun _ hid ↦ hc.targets_logged hid) hs
    obtain ⟨hret', new, htrades, hnew⟩ := hpath.retired (h.logged op) (hret.logged op)
    refine ⟨hret', ?_⟩
    obtain ⟨events, hlog⟩ := ex.logged_eq op
    rw [htrades, hlog, List.drop_left]
    exact hnew

/-- No trade is recorded with a quantity of zero. -/
theorem Atom.trades_pos {K : Op → Prop}
    (ha : Atom K Sure (fun ex id ↦ ex.book.Targets id) ex ex') (h : ex.Backed)
    (hpos : ∀ t ∈ ex.trades, 0 < t.quantity) : ∀ t ∈ ex'.trades, 0 < t.quantity := by
  cases ha with
  | submit ht hs =>
      obtain ⟨⟨new, htrades, hnew⟩, -⟩ := h.submit_terminal ht hs
      rw [htrades]
      exact fun t ht ↦ (List.mem_append.mp ht).elim (hpos t) fun hmem ↦ (hnew t hmem).1
  | clearTrades _ => exact fun t ht ↦ absurd ht List.not_mem_nil
  | lastPrice _ => exact hpos
  | cancelOrder _ => exact hpos
  | stops _ => exact hpos
  | insertStop _ => exact hpos
  | compact => exact hpos
  | clearHistory _ => exact hpos

theorem Step.trades_pos {op : Op} (hs : ex.Step op ex') (hc : ex.CancelsHit op) (h : ex.Backed)
    (hpos : ∀ t ∈ ex.trades, 0 < t.quantity) : ∀ t ∈ ex'.trades, 0 < t.quantity := by
  obtain ⟨fuel, hs⟩ := hs
  by_cases hop : ∃ policy, op = .setStpPolicy policy
  · obtain ⟨policy, rfl⟩ := hop
    obtain rfl := Option.some.inj hs
    exact hpos
  · have hpath := perform_path (K := fun _ ↦ True) (P := Sure)
      (Q := fun ex id ↦ ex.book.Targets id) (fun policy hp ↦ hop ⟨policy, hp⟩) trivial
      (fun _ _ hcalls ↦ hc.sure hcalls) (fun _ hid ↦ hc.targets_logged hid) hs
    have hlogged : ∀ t ∈ (ex.logged op).trades, 0 < t.quantity := by
      obtain ⟨events, hlog⟩ := ex.logged_eq op
      rw [hlog]
      exact hpos
    clear hs
    induction hpath with
    | refl => exact hlogged
    | tail hfirst hlast ih =>
        have hb := Path.backed (fun _ _ hp ↦ hp) (fun _ _ hq ↦ hq) hfirst (h.logged op)
        exact hlast.trades_pos hb ih

/-- In a run in which every cancellation hits, no trade has a quantity of zero, and an order that is
filled or cancelled at some point stays as it is, until it is forgotten, and is in none of the
trades that are recorded from then on. -/
theorem terminal_absorbing_of_run (h : Run CancelsHit create ex) :
    (∀ t ∈ ex.trades, 0 < t.quantity) ∧
    ∀ id o, ex.book.orders.get? id = some o → (o.status = .filled ∨ o.status = .cancelled) →
      ∀ ex', Run CancelsHit ex ex' →
        (∀ o', ex'.book.orders.get? id = some o' → o' = o) ∧
        ∀ op ex'', ex'.CancelsHit op → ex'.Step op ex'' →
          ∀ t ∈ ex''.trades.drop ex'.trades.length, ¬ t.Involves id := by
  have hrun : ex.Backed ∧ ∀ t ∈ ex.trades, 0 < t.quantity :=
    Run.invariant (I := fun ex ↦ ex.Backed ∧ ∀ t ∈ ex.trades, 0 < t.quantity)
      (fun _ _ _ hc hI hs ↦ ⟨hs.backed hc hI.1, hs.trades_pos hc hI.1 hI.2⟩) h
      ⟨backed_create, fun _ ht ↦ by cases ht⟩
  refine ⟨hrun.2, fun id o ho hstatus ex' hrun' ↦ ?_⟩
  have hinactive : o.isActive = false := by
    rcases hstatus with hstatus | hstatus <;> simp [Order.isActive, hstatus, OrderStatus.isActive]
  have hret : ex.Retired id o := by
    refine ⟨(hrun.1.wf.book.stored id o ho).2.2, hinactive, fun o' ho' ↦ ?_⟩
    exact Option.some.inj (ho'.symm.trans ho)
  obtain ⟨hb', hret'⟩ := Run.invariant (I := fun ex ↦ ex.Backed ∧ ex.Retired id o)
    (fun _ _ _ hc hI hs ↦ ⟨hs.backed hc hI.1, (hs.retired hc hI.1 hI.2).1⟩) hrun' ⟨hrun.1, hret⟩
  exact ⟨hret'.stored, fun op ex'' hc hs t ht ↦ ((hs.retired hc hb' hret').2 t ht).2⟩

/-- Order `1` is filled by order `2`, and the next trade is one of orders `3` and `4`. -/
theorem terminal_absorbing_of_run_filled :
    ∃ ex ex', performAll 5 create [.submitLimit .sell 100 10 .gtc, .submitLimit .buy 100 10 .gtc] =
        some ex ∧
      performAll 5 ex [.submitLimit .sell 100 5 .gtc, .submitLimit .buy 100 5 .gtc] = some ex' ∧
      (∃ o, ex.book.orders.get? 1 = some o ∧ o.status = .filled ∧
        ∀ o', ex'.book.orders.get? 1 = some o' → o' = o) ∧
      ex'.trades.map Trade.quantity = [10, 5] ∧ ∀ t ∈ ex'.trades, 0 < t.quantity := by
  obtain ⟨ex, hex⟩ : ∃ ex, performAll 5 create [.submitLimit .sell 100 10 .gtc,
      .submitLimit .buy 100 10 .gtc] = some ex := ⟨_, rfl⟩
  obtain ⟨ex', hex'⟩ := Option.isSome_iff_exists.mp (observe hex (fun ex ↦
    (performAll 5 ex [.submitLimit .sell 100 5 .gtc, .submitLimit .buy 100 5 .gtc]).isSome)
    (a := true) rfl)
  have htrades := observe hex (fun ex ↦ (performAll 5 ex [.submitLimit .sell 100 5 .gtc,
    .submitLimit .buy 100 5 .gtc]).map fun ex ↦ ex.trades.map Trade.quantity)
    (a := some [10, 5]) rfl
  rw [hex'] at htrades
  obtain ⟨o, ho⟩ := Option.isSome_iff_exists.mp
    (observe hex (fun ex ↦ (ex.book.orders.get? 1).isSome) (a := true) rfl)
  have hstatus := observe hex (fun ex ↦ (ex.book.orders.get? 1).map Order.status)
    (a := some .filled) rfl
  rw [ho] at hstatus
  have hhits :
    ∀ (ops : List Op), (∀ op ∈ ops, ∃ side price q tif, op = .submitLimit side price q tif) →
      ∀ op ∈ ops, ∀ ex : Exchange, ex.CancelsHit op := by
    intro ops hops op hop ex
    obtain ⟨side, price, q, tif, rfl⟩ := hops op hop
    exact ex.cancelsHit_submitLimit side price q tif
  have hrun : Run CancelsHit create ex := run_of_performAll (hhits _ (by simp)) hex
  have hrun' : Run CancelsHit ex ex' := run_of_performAll (hhits _ (by simp)) hex'
  obtain ⟨-, habs⟩ := terminal_absorbing_of_run hrun
  obtain ⟨hpos, -⟩ := terminal_absorbing_of_run (hrun.trans hrun')
  exact ⟨ex, ex', hex, hex', ⟨o, ho, Option.some.inj hstatus,
    (habs 1 o ho (.inl (Option.some.inj hstatus)) ex' hrun').1⟩, Option.some.inj htrades, hpos⟩

/-- The first of four sells at one price is filled, so the recorded slot of the second is that of
the third.  The second is cancelled and stays queued; the next buy trades nothing with it, and it is
filled. -/
theorem cancelled_trades_nothing :
    ∃ ex ex', performAll 9 create [.submitLimit .sell 100 10 .gtc, .submitLimit .sell 100 10 .gtc,
        .submitLimit .sell 100 10 .gtc, .submitLimit .sell 100 10 .gtc,
        .submitLimit .buy 100 10 .gtc, .cancel 2] = some ex ∧ Reachable ex ∧
      ex.Step (.submitLimit .buy 100 10 .gtc) ex' ∧
      (ex.book.orders.get? 2).map Order.status = some .cancelled ∧
      (ex'.book.orders.get? 2).map Order.status = some .filled ∧
      ∃ t ∈ ex'.trades.drop ex.trades.length, t.Involves 2 ∧ t.quantity = 0 := by
  obtain ⟨ex, hex⟩ : ∃ ex, performAll 9 create [.submitLimit .sell 100 10 .gtc,
      .submitLimit .sell 100 10 .gtc, .submitLimit .sell 100 10 .gtc,
      .submitLimit .sell 100 10 .gtc,
      .submitLimit .buy 100 10 .gtc, .cancel 2] = some ex := ⟨_, rfl⟩
  obtain ⟨ex', hex'⟩ := Option.isSome_iff_exists.mp (observe hex (fun ex ↦
    (ex.perform 9 (.submitLimit .buy 100 10 .gtc)).isSome) (a := true) rfl)
  have hafter := observe hex (fun ex ↦ (ex.perform 9 (.submitLimit .buy 100 10 .gtc)).map fun ex' ↦
    ((ex'.book.orders.get? 2).map Order.status,
      (ex'.trades.drop ex.trades.length).map fun t ↦ (t.passiveOrderId, t.quantity)))
    (a := some (some .filled, [(2, 0), (4, 10)])) rfl
  rw [hex'] at hafter
  obtain ⟨hstatus, htrades⟩ := Prod.mk.inj (Option.some.inj hafter)
  obtain ⟨t, ht, heq⟩ := List.mem_map.mp (htrades ▸ List.mem_cons_self)
  obtain ⟨hpassive, hq⟩ := Prod.mk.inj heq
  exact ⟨ex, ex', hex, reachable_of_performAll hex, ⟨9, hex'⟩,
    observe hex (fun ex ↦ (ex.book.orders.get? 2).map Order.status) (a := some .cancelled) rfl,
    hstatus, t, ht, .inr hpassive, hq⟩

end Exchange

end Nanobook
