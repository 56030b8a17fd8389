import Nanobook.Venue

/-!
# Runs of the venue

An operation whose cancellations hit, whose levels have room and whose modifications meet queued
orders does to the venue what it is for (`Ready.step`).  A list of such operations therefore
returns, and leads to an exchange that stands for the venue the same operations lead to
(`venue_of_along`).
-/

namespace Nanobook

namespace OrderBook

variable {b b' : OrderBook}

/-- Books that are alike stand for one market. -/
theorem Alike.market_eq (h : b.Alike b') (hst : ∀ s, b.Stocked s) (hst' : ∀ s, b'.Stocked s) :
    b'.market = b.market :=
  Market.ext (funext fun s ↦ (h.resting (hst s) (hst' s)).symm) h.nextOrderId.symm
    h.nextTradeId.symm h.nextTimestamp.symm

end OrderBook

namespace Exchange

variable {ex ex' : Exchange} {sub : Submission} {fuel : Nat} {r : SubmitResult}

/-! ## Operations -/

/-- The cancellations of an operation hit, the levels have room for its submissions, and an order it
modifies is queued if it is still active. -/
structure Regular (ex : Exchange) (op : Op) : Prop where
  keepsTotals : ex.KeepsTotals op
  depth : ∀ fuel ex' sub, ex.Calls fuel op ex' sub → sub.timeInForce = .fok →
    ex'.book.depth sub.side sub.price < 2 ^ 64
  queued : ∀ id p q o, op.method = .modify id p q → ex.getOrder id = some o → o.isActive = true →
    ∃ l, ex.book.level o.side o.price = some l ∧ id ∈ l.iter

theorem Regular.admits {op : Op} (hr : ex.Regular op) (hcalls : ex.Calls fuel op ex' sub) :
    ex'.Admits sub :=
  ⟨hr.keepsTotals.hits.sure hcalls, hr.keepsTotals.room fuel ex' sub hcalls,
    hr.depth fuel ex' sub hcalls⟩

theorem venue_logged (ex : Exchange) (op : Op) : (ex.logged op).venue = ex.venue := by
  obtain ⟨events, hlog⟩ := ex.logged_eq op
  rw [hlog]
  rfl

/-- Both methods of cancelling. -/
theorem perform_of_cancel {op : Op} {id : OrderId} (hop : op.method = .cancel id) (ex : Exchange)
    (fuel : Nat) : ex.perform fuel op = some ((ex.logged op).cancelInternal id).1 := by
  cases op with
  | cancel j => cases hop; rfl
  | apply event => cases event with
    | cancel j => cases hop; rfl
    | _ => cases hop
  | _ => cases hop

/-- An operation that is no event is itself a method. -/
theorem eq_of_method {op m : Op} (hop : op.method = m) (hm : ∀ event : Event, event.op ≠ m) :
    op = m := by
  cases op with
  | apply event => exact absurd hop (hm event)
  | _ => exact hop

theorem eq_or_eq_apply_of_modify {op : Op} {id : OrderId} {p : Price} {q : Quantity}
    (hop : op.method = .modify id p q) : op = .modify id p q ∨ op = .apply (.modify id p q) := by
  cases op with
  | modify j p' q' => cases hop; exact .inl rfl
  | apply event => cases event with
    | modify j p' q' => cases hop; exact .inr rfl
    | _ => cases hop
  | _ => cases hop

namespace Ready

variable (h : ex.Ready) {op : Op}

include h

theorem logged (op : Op) : (ex.logged op).Ready := by
  obtain ⟨events, hlog⟩ := ex.logged_eq op
  rw [hlog]
  exact h.of_book rfl rfl

/-- Memory management shows nowhere. -/
theorem of_market (hb : ex'.Backed) (hx : ∀ t, ex'.book.Exact t) (hw : ex'.stopBook.WF)
    (hvenue : ex'.venue = ex.venue) : ex'.Ready :=
  ⟨hb, hx, hw, hvenue ▸ h.aged⟩

theorem compact : ex.compact.Ready ∧ ex.compact.venue = ex.venue := by
  have hatom : Atom (fun _ ↦ True) (fun _ _ ↦ False) (fun _ _ ↦ False) ex ex.compact := .compact
  have hb := hatom.backed (fun _ _ hp ↦ hp.elim) (fun _ _ hq ↦ hq.elim) h.backed
  have hmarket := (OrderBook.alike_compact ex.book).market_eq h.backed.stocked hb.stocked
  have hvenue : ex.compact.venue = ex.venue := by
    rw [venue, venue, Exchange.compact]
    dsimp only
    rw [hmarket]
  exact ⟨h.of_market hb (fun t ↦ (h.exact t).compact) h.stops hvenue, hvenue⟩

theorem clearOrderHistory :
    ex.clearOrderHistory.1.Ready ∧ ex.clearOrderHistory.1.venue = ex.venue := by
  have hw := h.backed.wf.book
  have hpath : Path (fun _ ↦ True) (fun _ _ ↦ False) (fun _ _ ↦ False) ex
      ex.clearOrderHistory.1 :=
    (Relation.ReflTransGen.single (.stops ex.stopBook.tame_clearHistory)).tail
      (.clearHistory trivial)
  have hb := Path.backed (fun _ _ hp ↦ hp.elim) (fun _ _ hq ↦ hq.elim) hpath h.backed
  have hmarket := (OrderBook.alike_clearHistory hw h.backed.stocked).market_eq h.backed.stocked
    hb.stocked
  have hqueue := h.stops.queue_clearHistory
  have hvenue : ex.clearOrderHistory.1.venue = ex.venue := by
    rw [venue, venue, Exchange.clearOrderHistory]
    dsimp only
    rw [hmarket, hqueue]
  exact ⟨h.of_market hb (fun t ↦ (h.backed.stocked t).exact_clearHistory hw (h.exact t))
    h.stops.clearHistory.1 hvenue, hvenue⟩

variable (hr : ex.Regular op)

include hr

/-- The public submissions. -/
theorem perform_submission (hm : ∀ id p q, op.method ≠ .modify id p q)
    (hcall : ex.directCall op = some (ex.logged op, sub)) (hs : ex.perform fuel op = some ex') :
    ex'.Ready ∧ ex'.venue = ex.venue.submission sub := by
  rw [Exchange.perform_submission hm hcall] at hs
  obtain ⟨⟨ex₁, r⟩, hsub, hon⟩ := Option.bind_eq_some_iff.mp hs
  rw [← ex.venue_logged op]
  refine (h.logged op).submission (hr.admits (.direct hcall : ex.Calls fuel op _ _))
    (fun t ht ex' sub' hc ↦ ?_) hsub hon
  have hnot : ∀ id p q, op ≠ .modify id p q := fun id p q hop ↦ hm id p q (by rw [hop]; rfl)
  exact hr.admits (.trigger (.trades hnot hcall hsub ht) hc)

/-- The public stop submissions. -/
theorem perform_newStop {order : StopOrder} (hstop : ex.newStop op = some order)
    (hid : order.id = ex.book.nextOrderId) (hstamp : order.timestamp = ex.book.nextTimestamp)
    (hp : order.status = .pending) (hs : ex.perform fuel op = some ex') :
    ex'.Ready ∧ ex'.venue = ex.venue.enter order := by
  obtain ⟨events, hlog⟩ := ex.logged_eq op
  have hbook : (ex.logged op).book = ex.book := by rw [hlog]
  rw [Exchange.perform_newStop hstop] at hs
  rw [← ex.venue_logged op]
  refine (h.logged op).enter (hid.trans ?_) (hstamp.trans ?_) hp (fun hnow ex' sub hc ↦ ?_) hs
  · rw [hbook]
  · rw [hbook]
  · exact hr.admits (.trigger (.stop hstop hnow) hc)

/-- A modification itself, and where its trades come from. -/
theorem modifyInternal {id : OrderId} {p : Price} {q : Quantity} {r : ModifyResult}
    (hop : op.method = .modify id p q)
    (hs : (ex.logged op).modifyInternal fuel id p q = some (ex', r)) :
    ex'.Ready ∧ (ex'.venue, r.trades) = ex.venue.modify id p q ∧
      (r.trades = [] ∨ ∃ ex₂ sub r₁, ex.directCall op = some (ex₂, sub) ∧
        ex₂.submitLimitInternalWithOwner fuel sub = some (ex', r₁) ∧ r.trades = r₁.trades) := by
  obtain ⟨events, hlog⟩ := ex.logged_eq op
  have hbook : (ex.logged op).book = ex.book := by rw [hlog]
  have hw := h.backed.wf.book
  cases hcall : ex.directCall op with
  | none =>
      obtain ⟨r', htr, hmod⟩ := modifyInternal_of_directCall_none ex _ op hop hbook hcall
      rw [hmod] at hs
      cases hs
      refine ⟨h.logged op, ?_, .inl htr⟩
      rw [venue_logged, htr, Venue.modify]
      split_ifs with hq
      · rfl
      · have hnone : ex.venue.market.order? id = none := by
          cases hfind : ex.venue.market.order? id with
          | none => rfl
          | some o =>
              obtain ⟨o', ho', ha, -⟩ := OrderBook.stored_of_order? hw h.backed.stocked hfind
              have ho'' : ex.book.getOrder id = some o' := ho'
              simp only [directCall, hop, hq, if_false, ho'', ha, if_true] at hcall
              cases hcall
        rw [hnone]
  | some y =>
      obtain ⟨ex₂, sub⟩ := y
      obtain ⟨n, hmod⟩ := modifyInternal_of_directCall_some op hop rfl hbook hcall
      rw [hmod] at hs
      obtain ⟨⟨ex₃, r₁⟩, hsub, heq⟩ := Option.map_eq_some_iff.mp hs
      cases heq
      obtain ⟨o, hq, ho, ha, rfl, rfl⟩ := directCall_modify hop hcall
      obtain ⟨l, hl, hid⟩ := hr.queued id p q o hop ho ha
      have hfind : ex.venue.market.order? id = some o.unplaced :=
        OrderBook.order?_of_queued hw h.backed.stocked ho hl hid
      have hcancel : ex.cancelCall op = some id := by simp [cancelCall, hop, hq]
      obtain ⟨hready, hvenue⟩ := (h.logged op).cancelOrder
        (hr.keepsTotals.hits.targets_logged hcancel)
      rw [hbook] at hready hvenue
      have hadmits := hr.admits (.direct hcall : ex.Calls fuel op _ _)
      obtain ⟨hready', hvenue'⟩ := hready.submit hadmits hsub
      refine ⟨hready', ?_, .inr ⟨_, _, r₁, rfl, hsub, rfl⟩⟩
      rw [hvenue] at hvenue'
      rw [Venue.modify, if_neg hq, hfind]
      rw [venue_logged] at hvenue'
      exact hvenue'

omit hr in
/-- An applied modification passes its trades on to the triggers. -/
theorem applyModify {id : OrderId} {p : Price} {q : Quantity}
    (hr : ex.Regular (.apply (.modify id p q)))
    (hs : ex.perform fuel (.apply (.modify id p q)) = some ex') : ex'.Ready ∧
      ex'.venue = (ex.venue.modify id p q).1.onTrades (ex.venue.modify id p q).2 := by
  obtain ⟨⟨ex₁, r₁⟩, happly, rfl⟩ := Option.map_eq_some_iff.mp hs
  obtain ⟨⟨ex₂, r⟩, hmod, happly⟩ := Option.bind_eq_some_iff.mp happly
  obtain ⟨ex₃, hon, heq⟩ := Option.bind_eq_some_iff.mp happly
  cases heq
  obtain ⟨hready, hvenue, htrades⟩ := h.modifyInternal hr rfl hmod
  rw [← hvenue]
  refine hready.onTrades (fun t ht ex' sub hc ↦ ?_) hon
  rcases htrades with hnil | ⟨ex₄, sub₄, r₄, hcall, hsub, heq⟩
  · rw [hnil] at ht
    cases ht
  · rw [heq] at ht
    exact hr.admits (.trigger (.trades nofun hcall hsub ht) hc)

/-- One operation does to the venue what it is for. -/
theorem step (hs : ex.perform fuel op = some ex') :
    ex'.Ready ∧ ex'.venue = ex.venue.perform op := by
  rw [Venue.perform]
  cases hm : op.method with
  | submitLimit side price q tif =>
      exact h.perform_submission hr (by simp [hm]) (by simp only [directCall, hm]) hs
  | submitLimitWithOwner side price q tif owner =>
      exact h.perform_submission hr (by simp [hm]) (by simp only [directCall, hm]) hs
  | submitMarket side q =>
      exact h.perform_submission hr (by simp [hm]) (by simp only [directCall, hm]) hs
  | cancel id =>
      rw [perform_of_cancel hm] at hs
      cases hs
      have hcontains : (ex.logged op).stopBook.containsPending id =
          ex.stopBook.containsPending id := by
        obtain ⟨events, hlog⟩ := ex.logged_eq op
        rw [hlog]
      rw [← ex.venue_logged op]
      refine (h.logged op).cancel fun hp ↦ hr.keepsTotals.hits.targets_logged ?_
      rw [cancelCall, hm]
      simp [← hcontains, hp]
  | modify id p q =>
      rcases eq_or_eq_apply_of_modify hm with rfl | rfl
      · obtain ⟨⟨ex₁, r⟩, hmod, rfl⟩ := Option.map_eq_some_iff.mp hs
        obtain ⟨hready, hvenue, -⟩ := h.modifyInternal hr hm hmod
        exact ⟨hready, congrArg Prod.fst hvenue⟩
      · exact h.applyModify hr hs
  | submitStopMarket side stopPrice q =>
      exact h.perform_newStop hr (by simp only [newStop, hm]; rfl) rfl rfl rfl hs
  | submitStopLimit side stopPrice limit q tif =>
      exact h.perform_newStop hr (by simp only [newStop, hm]; rfl) rfl rfl rfl hs
  | submitTrailingStopMarket side stopPrice q m =>
      exact h.perform_newStop hr (by simp only [newStop, hm]; rfl) rfl rfl rfl hs
  | submitTrailingStopLimit side stopPrice limit q tif m =>
      exact h.perform_newStop hr (by simp only [newStop, hm]; rfl) rfl rfl rfl hs
  | apply event =>
      cases op with
      | apply event' => cases event' <;> cases hm
      | _ => cases hm
  | setStpPolicy policy =>
      obtain rfl := eq_of_method hm fun event heq ↦ by cases event <;> cases heq
      cases hs
      exact ⟨h.of_book rfl rfl, rfl⟩
  | compact =>
      obtain rfl := eq_of_method hm fun event heq ↦ by cases event <;> cases heq
      cases hs
      exact h.compact
  | clearOrderHistory =>
      obtain rfl := eq_of_method hm fun event heq ↦ by cases event <;> cases heq
      cases hs
      exact h.clearOrderHistory
  | clearTrades =>
      obtain rfl := eq_of_method hm fun event heq ↦ by cases event <;> cases heq
      cases hs
      exact ⟨h.of_book rfl rfl, rfl⟩
  | clearEvents =>
      obtain rfl := eq_of_method hm fun event heq ↦ by cases event <;> cases heq
      cases hs
      exact ⟨h.of_book rfl rfl, rfl⟩

end Ready

/-! ## Runs -/

theorem performAll_mono {fuel fuel' : Nat} (h : fuel ≤ fuel') {ops : List Op}
    (hs : performAll fuel ex ops = some ex') : performAll fuel' ex ops = some ex' :=
  Loop.foldlM_mono (fun _ _ _ hs ↦ perform_mono h hs) hs

/-- Regular operations return, and lead to the venue that the operations lead to. -/
theorem Ready.performAll (h : ex.Ready) {ops : List Op} (hr : Along Regular ex ops) :
    ∃ fuel ex', Exchange.performAll fuel ex ops = some ex' ∧ ex'.Ready ∧
      ex'.venue = ops.foldl Venue.perform ex.venue := by
  induction ops generalizing ex with
  | nil => exact ⟨0, ex, rfl, h, rfl⟩
  | cons op ops ih =>
      obtain ⟨hop, hrest⟩ := hr
      obtain ⟨ex₁, fuel₁, h₁⟩ := h.backed.exists_step hop.keepsTotals.hits
      obtain ⟨hready, hvenue⟩ := h.step hop h₁
      obtain ⟨fuel, ex', hs, hready', hvenue'⟩ := ih hready (hrest ex₁ ⟨fuel₁, h₁⟩)
      refine ⟨max fuel fuel₁, ex', Option.bind_eq_some_iff.mpr ⟨ex₁, ?_, ?_⟩, hready', ?_⟩
      · exact perform_mono (Nat.le_max_right _ _) h₁
      · exact performAll_mono (Nat.le_max_left _ _) hs
      · rw [hvenue', hvenue, List.foldl_cons]

/-- A new exchange performs every list of regular operations, and stands afterwards for the venue
that the same operations lead a new venue to. -/
theorem venue_of_along {ops : List Op} (h : Along Regular create ops) :
    (∃ fuel ex, performAll fuel create ops = some ex) ∧
      ∀ fuel ex, performAll fuel create ops = some ex →
        ex.venue = ops.foldl Venue.perform Venue.create := by
  obtain ⟨fuel, ex, hs, -, hvenue⟩ := ready_create.performAll h
  refine ⟨⟨fuel, ex, hs⟩, fun fuel' ex' hs' ↦ ?_⟩
  have heq := performAll_mono (Nat.le_max_left fuel fuel') hs
  rw [performAll_mono (Nat.le_max_right fuel fuel') hs'] at heq
  rw [← venue_create, ← hvenue, Option.some.inj heq]

/-! ### A concrete run -/

theorem along_cons {C : Exchange → Op → Prop} {op : Op} {ops : List Op} (hC : C ex op)
    (hs : ex.perform fuel op = some ex') (hrest : Along C ex' ops) : Along C ex (op :: ops) :=
  ⟨hC, fun _ hstep ↦ hstep.deterministic ⟨fuel, hs⟩ ▸ hrest⟩

theorem regular_of_no_stops {op : Op} (hm : ∀ id p q, op.method ≠ .modify id p q)
    (hcall : ex.directCall op = some (ex.logged op, sub)) (hstop : ex.newStop op = none)
    (hstops : ex.stopBook = StopBook.create) (hkeeps : ex.KeepsTotals op)
    (hfok : sub.timeInForce ≠ .fok) : ex.Regular op where
  keepsTotals := hkeeps
  depth fuel ex' sub' hcalls htif := by
    obtain ⟨-, rfl⟩ := calls_of_no_stops hcall hstop hstops hcalls
    exact absurd htif hfok
  queued id p q _ hop := absurd hop (hm id p q)

theorem regular_cancel {id : OrderId} (hc : ex.CancelsHit (.cancel id)) :
    ex.Regular (.cancel id) := by
  have hnone : ∀ fuel ex' sub, ¬ ex.Calls fuel (.cancel id) ex' sub := by
    intro fuel ex' sub hcalls
    cases hcalls with
    | direct h => cases h
    | trigger htrig _ =>
        cases htrig with
        | trades _ h _ _ => cases h
        | stop h _ => cases h
  exact ⟨⟨hc, fun _ _ _ hcalls ↦ absurd hcalls (hnone _ _ _)⟩,
    fun _ _ _ hcalls ↦ absurd hcalls (hnone _ _ _), fun _ _ _ _ hop ↦ by cases hop⟩

/-- Two sells, of which the second is cancelled, and a buy that takes part of the first. -/
theorem venue_of_along_cancelled :
    ∃ ex, performAll 5 create [.submitLimit .sell 100 10 .gtc, .submitLimit .sell 100 20 .gtc,
        .cancel 2, .submitLimit .buy 100 4 .gtc] = some ex ∧
      ex.trades = [⟨1, 100, 4, 3, 1, .buy, 4⟩] := by
  obtain ⟨ex₁, hex₁⟩ : ∃ ex, performAll 5 create [.submitLimit .sell 100 10 .gtc] = some ex :=
    ⟨_, rfl⟩
  obtain ⟨ex₂, hex₂⟩ : ∃ ex, performAll 5 create [.submitLimit .sell 100 10 .gtc,
      .submitLimit .sell 100 20 .gtc] = some ex := ⟨_, rfl⟩
  obtain ⟨ex₃, hex₃⟩ : ∃ ex, performAll 5 create [.submitLimit .sell 100 10 .gtc,
      .submitLimit .sell 100 20 .gtc, .cancel 2] = some ex := ⟨_, rfl⟩
  obtain ⟨ex, hex⟩ : ∃ ex, performAll 5 create [.submitLimit .sell 100 10 .gtc,
      .submitLimit .sell 100 20 .gtc, .cancel 2, .submitLimit .buy 100 4 .gtc] = some ex :=
    ⟨_, rfl⟩
  have h₁ : create.Regular (.submitLimit .sell 100 10 .gtc) :=
    regular_of_no_stops nofun rfl rfl rfl
      (keepsTotals_of_no_stops rfl rfl rfl rfl (fun _ ↦ onTarget_of_owner_none rfl)
        (fun _ _ _ ↦ by decide)) nofun
  have h₂ : ex₁.Regular (.submitLimit .sell 100 20 .gtc) :=
    regular_of_no_stops nofun rfl rfl (observe hex₁ stopBook rfl)
      (keepsTotals_of_no_stops rfl rfl (observe hex₁ stopBook rfl) rfl
        (fun _ ↦ onTarget_of_owner_none rfl)
        (room_of_totalAt (observe hex₁ (fun ex ↦ ex.book.totalAt .sell 100) (a := 10) rfl)
          (observe hex₁ (fun ex ↦ (ex.walkOf ⟨.sell, 100, 20, .gtc, none⟩).left) (a := 20) rfl)
          (by decide))) nofun
  have h₃ : ex₂.Regular (.cancel 2) :=
    regular_cancel (cancelsHit_cancel
      (observe hex₂ (fun ex ↦ ex.book.orders.get? 2)
        (a := some ⟨2, .sell, 100, 20, 20, 0, 2, .gtc, .new, none, 1⟩) rfl)
      (observe hex₂ (fun ex ↦ ex.book.level .sell 100) (a := some ⟨100, [1, 2], 30, 0⟩) rfl) rfl)
  have h₄ : ex₃.Regular (.submitLimit .buy 100 4 .gtc) :=
    regular_of_no_stops nofun rfl rfl (observe hex₃ stopBook rfl)
      (keepsTotals_of_no_stops rfl rfl (observe hex₃ stopBook rfl) rfl
        (fun _ ↦ onTarget_of_owner_none rfl)
        (room_of_totalAt (observe hex₃ (fun ex ↦ ex.book.totalAt .buy 100) (a := 0) rfl)
          (observe hex₃ (fun ex ↦ (ex.walkOf ⟨.buy, 100, 4, .gtc, none⟩).left) (a := 0) rfl)
          (by decide))) nofun
  have hnone : performAll 5 create [] = some create := rfl
  have halong : Along Regular create [.submitLimit .sell 100 10 .gtc,
      .submitLimit .sell 100 20 .gtc, .cancel 2, .submitLimit .buy 100 4 .gtc] :=
    along_cons h₁ (perform_of_performAll hnone hex₁)
      (along_cons h₂ (perform_of_performAll hex₁ hex₂)
        (along_cons h₃ (perform_of_performAll hex₂ hex₃)
          (along_cons h₄ (perform_of_performAll hex₃ hex) trivial)))
  have hvenue := (venue_of_along halong).2 5 ex hex
  exact ⟨ex, hex, (congrArg Venue.trades hvenue).trans (by decide)⟩

end Exchange

end Nanobook
