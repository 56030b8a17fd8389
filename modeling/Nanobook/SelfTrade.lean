import Nanobook.Invariant.Exchange

/-!
# Self-trade prevention over whole runs

The owner of an order is the one it was submitted with, and a replacement inherits the owner of the
order it replaces.  The book only sees the owner stored with an order, and `modify` submits its
replacement without one.  As long as no owned order is modified the two notions coincide, and then
no trade ever pairs two orders of one owner.
-/

namespace Nanobook

namespace Exchange

/-- The owner of every order, as its submitter would have it. -/
abbrev Owners := OrderId → Option OrderOwner

/-- The owners after an operation: a replacement is owned by the owner of what it replaces. -/
def ownersAfter (ex : Exchange) (own : Owners) (op : Op) : Owners :=
  match op.method with
  | .submitLimitWithOwner _ _ _ _ owner =>
      Function.update own ex.book.nextOrderId (some owner)
  | .modify orderId _ _ =>
      if (ex.directCall op).isSome then Function.update own ex.book.nextOrderId (own orderId)
      else own
  | _ => own

/-- A run from a new exchange under one policy, with the owners along it. -/
inductive OwnedRun (C : Exchange → Owners → Op → Prop) (policy : StpPolicy) :
    Exchange → Owners → Prop
  | start : OwnedRun C policy (create.withStpPolicy policy) fun _ ↦ none
  | step {ex ex' : Exchange} {own : Owners} {op : Op} : OwnedRun C policy ex own →
      (∀ policy', op = .setStpPolicy policy' → policy' = policy) → C ex own op → ex.Step op ex' →
      OwnedRun C policy ex' (ex.ownersAfter own op)

/-- No order with an owner is replaced. -/
def ReplacesUnowned (ex : Exchange) (own : Owners) (op : Op) : Prop :=
  ∀ id p q, op.method = .modify id p q → (ex.directCall op).isSome = true → own id = none

/-- No two orders of one owner were paired. -/
def NoSelfTrade (own : Owners) (trades : List Trade) : Prop :=
  ∀ t ∈ trades, ∀ o, own t.aggressorOrderId = some o → own t.passiveOrderId ≠ some o

/-- The owners stored in the book are the ones of `own`. -/
structure Tagged (policy : StpPolicy) (own : Owners) (ex : Exchange) : Prop where
  wf : ex.WF
  policy : ex.stpPolicy = policy
  stored : ∀ id o, ex.book.orders.get? id = some o → o.owner = own id
  ids : ∀ t ∈ ex.trades, t.aggressorOrderId < ex.book.nextOrderId ∧
    t.passiveOrderId < ex.book.nextOrderId
  trades : NoSelfTrade own ex.trades

section Transitions

variable {policy : StpPolicy} {own : Owners} {ex ex' : Exchange}

theorem Tagged.shrinks (h : Tagged policy own ex) (hw : ex'.WF) (hb : ex.book.Shrinks ex'.book)
    (hp : ex'.stpPolicy = ex.stpPolicy) (ht : ex'.trades = ex.trades) : Tagged policy own ex' where
  wf := hw
  policy := hp.trans h.policy
  stored id o' ho' := by
    obtain ⟨o, ho, hso, -⟩ := hb.order id o' ho'
    rw [hso.owner]
    exact h.stored id o ho
  ids := by rw [ht, hb.nextOrderId]; exact h.ids
  trades := by rw [ht]; exact h.trades

/-- Without a conflict under a policy other than `off`, the owners differ. -/
theorem ne_of_stpConflict_eq_false (hoff : policy ≠ .off) {a b : Option OrderOwner}
    (h : stpConflict policy a b = false) {o : OrderOwner} (ha : a = some o) : b ≠ some o := by
  rintro rfl
  subst ha
  simp [stpConflict, hoff] at h

/-- The orders of a book after a submission: those of before, and the new one. -/
theorem owner_settledBook {sub : Submission} {s : MatchState} {id : OrderId} {o : Order}
    (h : (settledBook sub s).orders.get? id = some o) :
    (id = s.incoming.id ∧ o.owner = s.incoming.owner) ∨ s.book.orders.get? id = some o := by
  obtain ⟨o', horders, hsettled⟩ := orders_settledBook sub s
  rw [horders, OrdMap.get?_insert] at h
  split_ifs at h with hid
  · cases h; exact .inl ⟨hid, hsettled.owner⟩
  · exact .inr h

/-- Every trade of a submission is between the submitted order and a stored one it has no conflict
with. -/
theorem submit_trades {fuel : Nat} {sub : Submission} {r : SubmitResult}
    (hs : ex.submitLimitInternalWithOwner fuel sub = some (ex', r)) {t : Trade}
    (ht : t ∈ r.trades) :
    t.aggressorOrderId = ex.book.nextOrderId ∧
      ∃ o, ex.book.orders.get? t.passiveOrderId = some o ∧
        stpConflict ex.stpPolicy sub.owner o.owner = false := by
  rcases submit_cases hs with ⟨-, -, rfl⟩ | ⟨-, s, hm, -, htr, -⟩
  · cases ht
  · obtain ⟨ts, hts, hfill⟩ := (matchOrderWithPolicy_follows hm).1.trades
    rw [htr, hts] at ht
    exact hfill t ht

/-- The orders stored after a submission: the submitted one, and those stored before. -/
theorem submit_owner {fuel : Nat} {sub : Submission} {r : SubmitResult}
    (hs : ex.submitLimitInternalWithOwner fuel sub = some (ex', r)) {id : OrderId} {o : Order}
    (ho : ex'.book.orders.get? id = some o) :
    (id = ex.book.nextOrderId ∧ o.owner = sub.owner) ∨
      ∃ o', ex.book.orders.get? id = some o' ∧ o.owner = o'.owner := by
  rcases submit_cases hs with ⟨-, rfl, -⟩ | ⟨-, s, hm, rfl, -⟩
  · exact .inr ⟨o, ho, rfl⟩
  · have hfol := (matchOrderWithPolicy_follows hm).1
    rcases owner_settledBook ho with ⟨rfl, hinc⟩ | ho
    · exact .inl ⟨hfol.incoming.id, hinc.trans hfol.incoming.owner⟩
    · obtain ⟨o', ho', hso, -⟩ := hfol.book.order id o ho
      exact .inr ⟨o', ho', hso.owner⟩

theorem Tagged.submit (hoff : policy ≠ .off) (h : Tagged policy own ex) {fuel : Nat}
    {sub : Submission} {r : SubmitResult} (hown : own ex.book.nextOrderId = sub.owner)
    (hs : ex.submitLimitInternalWithOwner fuel sub = some (ex', r)) : Tagged policy own ex' := by
  obtain ⟨-, -, hpol, -, htr, hid⟩ := submit_frame hs
  refine ⟨h.wf.submit hs, hpol.trans h.policy, fun id o ho ↦ ?_, ?_, ?_⟩
  · rcases submit_owner hs ho with ⟨rfl, hsub⟩ | ⟨o', ho', hoo⟩
    · rw [hsub, hown]
    · rw [hoo]; exact h.stored id o' ho'
  · rw [htr, hid]
    intro t ht
    rcases List.mem_append.mp ht with ht | ht
    · exact (h.ids t ht).imp Nat.lt_succ_of_lt Nat.lt_succ_of_lt
    · obtain ⟨hagg, o, ho, -⟩ := submit_trades hs ht
      exact ⟨hagg ▸ Nat.lt_succ_self _, Nat.lt_succ_of_lt (h.wf.book.stored _ o ho).2.2⟩
  · rw [htr]
    intro t ht x hx
    rcases List.mem_append.mp ht with ht | ht
    · exact h.trades t ht x hx
    · obtain ⟨hagg, o, ho, hc⟩ := submit_trades hs ht
      rw [hagg, hown] at hx
      rw [h.policy] at hc
      rw [← h.stored _ o ho]
      exact ne_of_stpConflict_eq_false hoff hc hx

/-- Every elementary transition keeps the tags, if what it submits is tagged. -/
theorem Tagged.atom (hoff : policy ≠ .off) (h : Tagged policy own ex)
    (ha : Atom K (fun ex sub ↦ own ex.book.nextOrderId = sub.owner) (fun _ _ ↦ True) ex ex') :
    Tagged policy own ex' := by
  have hw := ha.wf h.wf
  cases ha with
  | lastPrice last => exact ⟨hw, h.policy, h.stored, h.ids, h.trades⟩
  | submit hown hs => exact h.submit hoff hown hs
  | cancelOrder _ => exact h.shrinks hw (OrderBook.shrinks_cancelOrder _ _) rfl rfl
  | stops _ => exact ⟨hw, h.policy, h.stored, h.ids, h.trades⟩
  | insertStop _ =>
      exact ⟨hw, h.policy, h.stored,
        fun t ht ↦ (h.ids t ht).imp Nat.lt_succ_of_lt Nat.lt_succ_of_lt, h.trades⟩
  | compact => exact ⟨hw, h.policy, h.stored, h.ids, h.trades⟩
  | clearHistory => exact h.shrinks hw (OrderBook.shrinks_clearHistory _) rfl rfl
  | clearTrades =>
      exact ⟨hw, h.policy, h.stored, fun _ ht ↦ absurd ht List.not_mem_nil,
        fun _ ht ↦ absurd ht List.not_mem_nil⟩

theorem Tagged.path (hoff : policy ≠ .off) (h : Tagged policy own ex)
    (hp : Path K (fun ex sub ↦ own ex.book.nextOrderId = sub.owner) (fun _ _ ↦ True) ex ex') :
    Tagged policy own ex' := by
  induction hp with
  | refl => exact h
  | tail _ hlast ih => exact ih.atom hoff hlast

end Transitions

/-! ## Operations -/

section Operations

variable {policy : StpPolicy} {own : Owners} {ex ex' : Exchange} {op : Op} {fuel : Nat}

/-- The owners change at the next id only, to what the operation submits there. -/
theorem ownersAfter_eq (hC : ex.ReplacesUnowned own op) :
    ex.ownersAfter own op = own ∨
      ∃ ex₁ sub, ex.directCall op = some (ex₁, sub) ∧
        ex.ownersAfter own op = Function.update own ex.book.nextOrderId sub.owner := by
  simp only [ownersAfter]
  split
  · next side price quantity tif owner hm =>
      exact .inr ⟨ex.logged op, ⟨side, price, quantity, tif, some owner⟩,
        by simp only [directCall, hm], rfl⟩
  · next id p q hm =>
      split_ifs with hcall
      · obtain ⟨⟨ex₁, sub⟩, hd⟩ := Option.isSome_iff_exists.mp hcall
        refine .inr ⟨ex₁, sub, hd, ?_⟩
        obtain ⟨o, -, -, -, -, rfl⟩ := directCall_modify hm hd
        rw [hC id p q hm hcall]
      · exact .inl rfl
  · exact .inl rfl

/-- An operation without a submission of its own leaves the owners alone, and a submission of its
own is the one the owners record. -/
theorem ownersAfter_directCall (hC : ex.ReplacesUnowned own op)
    (hnone : own ex.book.nextOrderId = none) {ex₁ : Exchange} {sub : Submission}
    (h : ex.directCall op = some (ex₁, sub)) :
    ex.ownersAfter own op ex.book.nextOrderId = sub.owner := by
  rcases ownersAfter_eq hC with he | ⟨ex₂, sub', h', he⟩
  · rw [he, hnone]
    -- the owners are unchanged, so this is not an owned submission
    simp only [directCall] at h
    split at h
    · cases h; rfl
    · next side price quantity tif owner hm =>
        simp only [ownersAfter, hm] at he
        have := congrFun he ex.book.nextOrderId
        rw [Function.update_self, hnone] at this
        cases this
    · cases h; rfl
    · split_ifs at h
      split at h
      · split_ifs at h
        cases h
        rfl
      · cases h
    · cases h
  · rw [h] at h'
    cases h'
    rw [he, Function.update_self]

/-- Everything an operation submits carries the owner that `ownersAfter` gives its id. -/
theorem ownersAfter_calls (hC : ex.ReplacesUnowned own op)
    (hnone : ∀ id, ex.book.nextOrderId ≤ id → own id = none) {ex₁ : Exchange} {sub : Submission}
    (h : ex.Calls fuel op ex₁ sub) :
    ex.ownersAfter own op ex₁.book.nextOrderId = sub.owner := by
  cases h with
  | direct hcall =>
      rw [nextOrderId_of_directCall hcall]
      exact ownersAfter_directCall hC (hnone _ le_rfl) hcall
  | trigger ht hcalls =>
      obtain ⟨howner, hle⟩ := hcalls.frame
      have hlt : ex.book.nextOrderId < ex₁.book.nextOrderId := by
        refine lt_of_lt_of_le ?_ hle
        cases ht with
        | trades _ hcall hsub _ =>
            have hid := (submit_frame hsub).2.2.2.2.2
            rw [nextOrderId_of_directCall hcall] at hid
            exact hid ▸ Nat.lt_succ_self _
        | stop hstop _ =>
            obtain ⟨events, hlog⟩ := ex.logged_eq op
            rw [hlog]
            exact Nat.lt_succ_self _
      rw [howner]
      rcases ownersAfter_eq hC with he | ⟨_, _, -, he⟩
      · rw [he]; exact hnone _ hlt.le
      · rw [he, Function.update_of_ne hlt.ne']; exact hnone _ hlt.le

/-- Ids not handed out yet have no owner. -/
theorem ownersAfter_unused (hC : ex.ReplacesUnowned own op)
    (hnone : ∀ id, ex.book.nextOrderId ≤ id → own id = none)
    (hle : ex.book.nextOrderId ≤ ex'.book.nextOrderId) (h : ex.perform fuel op = some ex')
    (id : OrderId) (hid : ex'.book.nextOrderId ≤ id) : ex.ownersAfter own op id = none := by
  rcases ownersAfter_eq hC with he | ⟨ex₁, sub, hcall, he⟩
  · rw [he]; exact hnone id (hle.trans hid)
  · have hlt := nextOrderId_lt_of_directCall hcall h
    rw [he, Function.update_of_ne (by lia)]
    exact hnone id (hle.trans hid)

/-- The owners of the orders so far do not change. -/
theorem Tagged.ownersAfter (hC : ex.ReplacesUnowned own op) (h : Tagged policy own ex) :
    Tagged policy (ex.ownersAfter own op) (ex.logged op) := by
  obtain ⟨events, hlog⟩ := ex.logged_eq op
  have hold : ∀ id < ex.book.nextOrderId, ex.ownersAfter own op id = own id := fun id hlt ↦ by
    rcases ownersAfter_eq hC with he | ⟨_, _, -, he⟩
    · rw [he]
    · rw [he, Function.update_of_ne (by lia)]
  rw [hlog]
  refine ⟨⟨h.wf.book, h.wf.stops⟩, h.policy, fun id o ho ↦ ?_, h.ids, fun t ht ↦ ?_⟩
  · rw [hold id (h.wf.book.stored id o ho).2.2]
    exact h.stored id o ho
  · obtain ⟨hagg, hpas⟩ := h.ids t ht
    rw [hold _ hagg, hold _ hpas]
    exact h.trades t ht

end Operations

/-- What holds along a run that replaces no owned order. -/
theorem OwnedRun.tagged {policy : StpPolicy} (hoff : policy ≠ .off) {ex : Exchange} {own : Owners}
    (h : OwnedRun ReplacesUnowned policy ex own) :
    Tagged policy own ex ∧ ∀ id, ex.book.nextOrderId ≤ id → own id = none := by
  induction h with
  | start =>
      have hw : (create.withStpPolicy policy).WF := ⟨wf_create.book, wf_create.stops⟩
      refine ⟨⟨hw, rfl, fun _ _ ho ↦ ?_, fun _ ht ↦ ?_, fun _ ht ↦ ?_⟩, fun _ _ ↦ rfl⟩
      · cases ho
      · cases ht
      · cases ht
  | @step ex ex' own op _ hfixed hC hs ih =>
      obtain ⟨htag, hnone⟩ := ih
      have hstart := htag.ownersAfter hC
      obtain ⟨fuel, hs⟩ := hs
      by_cases hop : ∃ policy', op = .setStpPolicy policy'
      · obtain ⟨policy', rfl⟩ := hop
        obtain rfl := hfixed policy' rfl
        cases hs
        exact ⟨⟨⟨htag.wf.book, htag.wf.stops⟩, rfl, htag.stored, htag.ids, htag.trades⟩, hnone⟩
      · have hpath := perform_path (K := fun _ ↦ True) (P := fun ex₁ sub ↦
          ex.ownersAfter own op ex₁.book.nextOrderId = sub.owner) (Q := fun _ _ ↦ True)
          (fun policy' hp ↦ hop ⟨policy', hp⟩) trivial
            (fun _ _ hcall ↦ ownersAfter_calls hC hnone hcall)
          (fun _ _ ↦ trivial) hs
        obtain ⟨events, hlog⟩ := ex.logged_eq op
        have hle := hpath.frame.2.2
        rw [hlog] at hle
        exact ⟨hstart.path hoff hpath, ownersAfter_unused hC hnone hle hs⟩

/-- In a run under a fixed policy other than `off` in which no order with an owner is replaced, no
trade pairs two orders of one owner. -/
theorem noSelfTrade_of_run {policy : StpPolicy} (hoff : policy ≠ .off) {ex : Exchange}
    {own : Owners} (h : OwnedRun ReplacesUnowned policy ex own) : NoSelfTrade own ex.trades :=
  (h.tagged hoff).1.trades

/-! ## Concrete runs -/

/-- An operation together with the owners it leaves. -/
def ownedStep (fuel : Nat) (x : Exchange × Owners) (op : Op) : Option (Exchange × Owners) :=
  (x.1.perform fuel op).map fun ex' ↦ (ex', x.1.ownersAfter x.2 op)

theorem OwnedRun.of_foldlM {C : Exchange → Owners → Op → Prop} {policy : StpPolicy} {fuel : Nat}
    {ops : List Op}
    (hC : ∀ op ∈ ops, (∀ policy', op ≠ .setStpPolicy policy') ∧ ∀ ex own, C ex own op)
    {x y : Exchange × Owners} (hx : OwnedRun C policy x.1 x.2)
    (h : ops.foldlM (ownedStep fuel) x = some y) : OwnedRun C policy y.1 y.2 := by
  induction ops generalizing x with
  | nil => cases h; exact hx
  | cons op ops ih =>
      obtain ⟨z, hz, h⟩ := Option.bind_eq_some_iff.mp h
      obtain ⟨ex', hs, rfl⟩ := Option.map_eq_some_iff.mp hz
      obtain ⟨hop, hCop⟩ := hC op List.mem_cons_self
      exact ih (fun op hmem ↦ hC op (List.mem_cons_of_mem _ hmem))
        (.step hx (fun p hp ↦ absurd hp (hop p)) (hCop _ _) ⟨fuel, hs⟩) h

/-- An owner's sell is met by the same owner, whose buy is cancelled, and then by another one. -/
theorem noSelfTrade_of_run_cancelNewest :
    ∃ ex own,
    [Op.submitLimitWithOwner .sell 100 10 .gtc 7, .submitLimitWithOwner .buy 100 10 .gtc 7,
        .submitLimitWithOwner .buy 100 4 .gtc 8].foldlM (ownedStep 5)
          (create.withStpPolicy .cancelNewest, fun _ ↦ none) = some (ex, own) ∧
      ex.trades.map Trade.quantity = [4] ∧ own 1 = some 7 ∧ own 2 = some 7 ∧ own 3 = some 8 ∧
      NoSelfTrade own ex.trades := by
  obtain ⟨⟨ex, own⟩, hex⟩ : ∃ x, [Op.submitLimitWithOwner .sell 100 10 .gtc 7,
      .submitLimitWithOwner .buy 100 10 .gtc 7, .submitLimitWithOwner .buy 100 4 .gtc 8].foldlM
        (ownedStep 5) (create.withStpPolicy .cancelNewest, fun _ ↦ none) = some x := ⟨_, rfl⟩
  have hobs : (some (ex, own)).map (fun x ↦ (x.1.trades.map Trade.quantity, x.2 1, x.2 2, x.2 3)) =
      some ([4], some 7, some 7, some 8) := by
    rw [← hex]
    rfl
  simp only [Option.map_some, Option.some.injEq, Prod.mk.injEq] at hobs
  have hoff : StpPolicy.cancelNewest ≠ .off := by decide
  refine ⟨ex, own, hex, hobs.1, hobs.2.1, hobs.2.2.1, hobs.2.2.2, noSelfTrade_of_run hoff
    (OwnedRun.of_foldlM ?_ .start hex)⟩
  simp [ReplacesUnowned, Op.method]

/-- Under `CancelNewest`, an owner's bid is modified up to the same owner's ask: the replacement has
lost its owner, and the two trade. -/
theorem modify_loses_owner :
    ∃ ex own, [Op.submitLimitWithOwner .sell 100 10 .gtc 7, .submitLimitWithOwner .buy 90 10 .gtc 7,
        .modify 2 100 10].foldlM (ownedStep 5)
          (create.withStpPolicy .cancelNewest, fun _ ↦ none) = some (ex, own) ∧
      OwnedRun (fun _ _ _ ↦ True) .cancelNewest ex own ∧
      ex.trades.map (fun t ↦ (t.aggressorOrderId, t.passiveOrderId, t.quantity)) = [(3, 1, 10)] ∧
      own 1 = some 7 ∧ own 3 = some 7 ∧ ¬ NoSelfTrade own ex.trades := by
  obtain ⟨⟨ex, own⟩, hex⟩ : ∃ x, [Op.submitLimitWithOwner .sell 100 10 .gtc 7,
      .submitLimitWithOwner .buy 90 10 .gtc 7, .modify 2 100 10].foldlM
        (ownedStep 5) (create.withStpPolicy .cancelNewest, fun _ ↦ none) = some x := ⟨_, rfl⟩
  have hobs : (some (ex, own)).map (fun x ↦
      (x.1.trades.map (fun t ↦ (t.aggressorOrderId, t.passiveOrderId, t.quantity)), x.2 1, x.2 3)) =
      some ([(3, 1, 10)], some 7, some 7) := by
    rw [← hex]
    rfl
  simp only [Option.map_some, Option.some.injEq, Prod.mk.injEq] at hobs
  refine ⟨ex, own, hex, OwnedRun.of_foldlM (by simp) .start hex, hobs.1, hobs.2.1, hobs.2.2,
    fun hno ↦ ?_⟩
  obtain ⟨t, ht, heq⟩ : ∃ t ∈ ex.trades,
      (t.aggressorOrderId, t.passiveOrderId, t.quantity) = (3, 1, 10) := by
    have hmem : (3, 1, 10) ∈ ex.trades.map
        (fun t ↦ (t.aggressorOrderId, t.passiveOrderId, t.quantity)) := by
      rw [hobs.1]; exact List.mem_singleton_self _
    exact List.mem_map.mp hmem
  simp only [Prod.mk.injEq] at heq
  exact hno t ht 7 (by rw [heq.1]; exact hobs.2.2) (by rw [heq.2.1]; exact hobs.2.1)

end Exchange

end Nanobook
