import Nanobook.PriceTime
import Nanobook.Termination

/-!
# Fill or kill

A FOK order is checked against the totals of the levels it crosses before it is matched, and the
check does not know whose orders these are.  Under self-trade prevention some of that quantity is
not for the incoming order: an own order that is met on the way is cancelled, or cancels what is
left of the incoming order.  `Fillable` says exactly when the order fills nevertheless.
-/

namespace Nanobook

section Fillable

variable (policy : StpPolicy) (owner : Option OrderOwner)

/-- What the orders of other owners have left. -/
def foreignSum (os : List Order) : Quantity :=
  remainingSum (os.filter fun o ↦ !stpConflict policy owner o.owner)

@[simp] theorem foreignSum_nil : foreignSum policy owner [] = 0 := rfl

theorem foreignSum_cons (o : Order) (os : List Order) : foreignSum policy owner (o :: os) =
    if stpConflict policy owner o.owner then foreignSum policy owner os
    else o.remainingQuantity + foreignSum policy owner os := by
  rw [foreignSum, List.filter_cons]
  cases stpConflict policy owner o.owner <;> rfl

/-- Among the resting orders `os`, those that cross and belong to others hold at least `quantity`,
and no own order ahead of that quantity cancels the incoming order. -/
def Fillable (side : Side) (price : Price) (os : List Order) (quantity : Quantity) : Prop :=
  quantity ≤ foreignSum policy owner (os.filter fun o ↦ pricesCross side price o.price) ∧
    ∀ ahead o behind, os = ahead ++ o :: behind → pricesCross side price o.price = true →
      stpConflict policy owner o.owner = true → foreignSum policy owner ahead < quantity →
      cancelsIncoming policy (quantity - foreignSum policy owner ahead) o.remainingQuantity = false

variable {policy owner} {side : Side} {price : Price}

theorem fillable_zero (os : List Order) : Fillable policy owner side price os 0 :=
  ⟨Nat.zero_le _, fun _ _ _ _ _ _ h ↦ absurd h (Nat.not_lt_zero _)⟩

/-- One resting order more at the front. -/
theorem fillable_cons_iff {o : Order} {os : List Order} {quantity : Quantity}
    (hx : pricesCross side price o.price = true) (hq : quantity ≠ 0) :
    Fillable policy owner side price (o :: os) quantity ↔
      if stpConflict policy owner o.owner then
        cancelsIncoming policy quantity o.remainingQuantity = false ∧
          Fillable policy owner side price os quantity
      else o.remainingQuantity ≤ quantity →
        Fillable policy owner side price os (quantity - o.remainingQuantity) := by
  have hfilter : (o :: os).filter (fun o ↦ pricesCross side price o.price) =
      o :: os.filter fun o ↦ pricesCross side price o.price := by
    rw [List.filter_cons, if_pos hx]
  simp only [Fillable, hfilter, foreignSum_cons]
  cases hc : stpConflict policy owner o.owner with
  | true =>
      simp only [if_true]
      constructor
      · rintro ⟨hsum, hown⟩
        refine ⟨?_, hsum, fun ahead o' behind hos hx' hc' hlt ↦ ?_⟩
        · exact hown [] o os rfl hx hc (Nat.pos_of_ne_zero hq)
        · have := hown (o :: ahead) o' behind (by rw [hos]; rfl) hx' hc'
          rw [foreignSum_cons, hc, if_pos rfl] at this
          exact this hlt
      · rintro ⟨hi, hsum, hown⟩
        refine ⟨hsum, fun ahead o' behind hos hx' hc' hlt ↦ ?_⟩
        rcases List.cons_eq_append_iff.mp hos with ⟨rfl, heq⟩ | ⟨ahead', rfl, hos'⟩
        · cases heq
          exact hi
        · rw [foreignSum_cons, hc, if_pos rfl] at hlt ⊢
          exact hown ahead' o' behind hos' hx' hc' hlt
  | false =>
      simp only [Bool.false_eq_true, if_false]
      constructor
      · rintro ⟨hsum, hown⟩ hle
        refine ⟨by lia, fun ahead o' behind hos hx' hc' hlt ↦ ?_⟩
        have := hown (o :: ahead) o' behind (by rw [hos]; rfl) hx' hc'
        rw [foreignSum_cons, hc, if_neg Bool.false_ne_true, ← Nat.sub_sub] at this
        exact this (by lia)
      · intro h
        by_cases hle : o.remainingQuantity ≤ quantity
        · obtain ⟨hsum, hown⟩ := h hle
          refine ⟨by lia, fun ahead o' behind hos hx' hc' hlt ↦ ?_⟩
          rcases List.cons_eq_append_iff.mp hos with ⟨rfl, heq⟩ | ⟨ahead', rfl, hos'⟩
          · cases heq
            rw [hc] at hc'
            cases hc'
          · rw [foreignSum_cons, hc, if_neg Bool.false_ne_true] at hlt ⊢
            rw [← Nat.sub_sub]
            exact hown ahead' o' behind hos' hx' hc' (by lia)
        · refine ⟨by lia, fun ahead o' behind hos hx' hc' hlt ↦ ?_⟩
          rcases List.cons_eq_append_iff.mp hos with ⟨rfl, heq⟩ | ⟨ahead', rfl, hos'⟩
          · cases heq
            rw [hc] at hc'
            cases hc'
          · rw [foreignSum_cons, hc, if_neg Bool.false_ne_true] at hlt
            lia

/-- The greedy match leaves nothing of an order exactly if it is fillable. -/
theorem greedy_left_eq_zero_iff {os : List Order} (h : CrossFirst side price os)
    (quantity : Quantity) :
    (greedy policy owner side price os quantity).left = 0 ↔
      Fillable policy owner side price os quantity := by
  induction os generalizing quantity with
  | nil =>
      refine ⟨fun h0 ↦ ?_, fun h ↦ Nat.le_zero.mp h.1⟩
      obtain rfl : quantity = 0 := h0
      exact fillable_zero []
  | cons o os ih =>
      have hrest := (List.pairwise_cons.mp h).2
      by_cases hq : quantity = 0
      · subst hq
        simp only [greedy, true_or, if_true, true_iff]
        exact fillable_zero _
      cases hx : pricesCross side price o.price with
      | false =>
          simp only [greedy, hx, or_true, if_true]
          refine iff_of_false hq fun hf ↦ hq (Nat.le_zero.mp ?_)
          have := hf.1
          rwa [h.filter_eq_nil hx] at this
      | true =>
          rw [fillable_cons_iff hx hq]
          simp only [greedy, hx, hq, Bool.true_eq_false, or_self, if_false]
          cases hc : stpConflict policy owner o.owner with
          | true =>
              simp only [if_true]
              cases hi : cancelsIncoming policy quantity o.remainingQuantity with
              | true => simpa using hq
              | false => simpa using ih hrest quantity
          | false =>
              simp only [Bool.false_eq_true, if_false]
              by_cases hr : o.remainingQuantity ≤ quantity
              · simpa [hr] using ih hrest (quantity - o.remainingQuantity)
              · simp [hr]

end Fillable

/-! ## What is filled -/

/-- The quantity a list of actions fills. -/
def filledBy : List Action → Quantity
  | [] => 0
  | .fill _ q :: actions => q + filledBy actions
  | .cancel _ :: actions => filledBy actions

theorem filledBy_walk (policy : StpPolicy) (owner : Option OrderOwner) (side : Side) (price : Price)
    (levels : List RestingLevel) (left : Quantity) :
    filledBy (walk policy owner side price levels left).actions +
      (walk policy owner side price levels left).left = left := by
  refine walk_induct (motive := fun _ left w ↦ filledBy w.actions + w.left = left)
    ?_ ?_ ?_ ?_ ?_ levels left
  · intro levels left _
    exact Nat.zero_add left
  · intro p total o queue levels left _ _ _ _
    exact Nat.zero_add left
  · intro p total o queue levels left w _ _ _ _ ih
    exact ih
  · intro p total o queue levels left w _ _ _ hr ih
    simp only [Walk.cons_actions, Walk.cons_left, filledBy]
    lia
  · intro p total o queue levels left _ _ _ _
    rfl

theorem filledQuantity_acts (g : Ledger) (actions : List Action) :
    (g.acts actions).incoming.filledQuantity = g.incoming.filledQuantity + filledBy actions := by
  induction actions generalizing g with
  | nil => rfl
  | cons a actions ih =>
      have hcons : g.acts (a :: actions) = (g.act a).acts actions := rfl
      rw [hcons, ih]
      cases a with
      | fill o q => exact Nat.add_assoc _ _ _
      | cancel o => rfl

namespace Exchange

variable {ex : Exchange} {sub : Submission}

/-- A submission fills what the walk does not leave. -/
theorem filledQuantity_add_left {s : MatchState} (hm : Matches ex.stpPolicy (ex.entry sub) s) :
    s.incoming.filledQuantity + (ex.walkOf sub).left = sub.quantity := by
  have hfilled : s.incoming.filledQuantity = filledBy (ex.walkOf sub).actions := by
    have hacts := filledQuantity_acts (ex.entry sub).ledger (ex.walkOf sub).actions
    rw [show (ex.entry sub).ledger.incoming.filledQuantity = 0 from rfl, Nat.zero_add] at hacts
    rw [← hacts, show s.incoming = s.ledger.incoming from rfl, hm.ledger]
    split_ifs <;> rfl
  rw [hfilled, walkOf_eq]
  exact filledBy_walk _ _ _ _ _ _

/-- Whether a submission can fill completely, by what rests on the other side. -/
def CanFill (ex : Exchange) (sub : Submission) : Prop :=
  Fillable ex.stpPolicy sub.owner sub.side sub.price (flatten (ex.book.resting sub.side.opposite))
    sub.quantity

/-- With exact totals the walk leaves nothing exactly if the submission can fill. -/
theorem left_eq_zero_iff (h : ex.Backed) (hx : ∀ t, ex.book.Exact t) :
    (ex.walkOf sub).left = 0 ↔ ex.CanFill sub := by
  have hst := h.stocked sub.side.opposite
  rw [walkOf_eq, (walk_eq_greedy (hst.sound (hx _)) _).left]
  exact greedy_left_eq_zero_iff (hst.crossFirst sub.side sub.price) _

/-! ## Runs with exact totals -/

/-- Every cancellation of an operation hits, and every order it adds to a level fits into the
level's total. -/
structure KeepsTotals (ex : Exchange) (op : Op) : Prop where
  hits : ex.CancelsHit op
  room : ∀ fuel ex' sub, ex.Calls fuel op ex' sub → ex'.rejectsFok sub = false → ex'.Room sub

theorem Step.exact {ex' : Exchange} {op : Op} (hs : ex.Step op ex') (hc : ex.KeepsTotals op)
    (h : ex.Backed) (hx : ∀ t, ex.book.Exact t) (t : Side) : ex'.book.Exact t := by
  obtain ⟨fuel, hs⟩ := hs
  by_cases hop : ∃ policy, op = .setStpPolicy policy
  · obtain ⟨policy, rfl⟩ := hop
    obtain rfl := Option.some.inj hs
    exact hx t
  · have hlog : ∀ t, (ex.logged op).book.Exact t := fun t ↦ by
      obtain ⟨events, hlog⟩ := ex.logged_eq op
      rw [hlog]
      exact hx t
    have hpath := perform_path (K := fun _ ↦ True)
      (P := fun ex sub ↦ ex.Sure sub ∧ (ex.rejectsFok sub = false → ex.Room sub))
      (Q := fun ex id ↦ ex.book.Targets id) (fun policy hp ↦ hop ⟨policy, hp⟩) trivial
      (fun ex' sub hcalls ↦ ⟨hc.hits.sure hcalls, hc.room fuel ex' sub hcalls⟩)
      (fun _ hid ↦ hc.hits.targets_logged hid) hs
    exact Path.exact (fun _ _ hp ↦ hp) (fun _ _ hq ↦ hq) hpath (h.logged op) hlog t

theorem Run.exact (h : Run KeepsTotals create ex) : ex.Backed ∧ ∀ t, ex.book.Exact t := by
  refine Run.invariant (I := fun ex ↦ ex.Backed ∧ ∀ t, ex.book.Exact t) ?_ h ⟨backed_create, ?_⟩
  · rintro ex op ex' hc ⟨hb, hx⟩ hs
    exact ⟨hs.backed hc.hits hb, fun t ↦ hs.exact hc hb hx t⟩
  · intro t p l hl
    cases t <;> cases hl

/-! ## All or nothing -/

/-- A FOK submission, with an owner or without. -/
def submitFok (ex : Exchange) (fuel : Nat) (side : Side) (price : Price) (quantity : Quantity) :
    Option OrderOwner → Option (Exchange × SubmitResult)
  | none => ex.submitLimit fuel side price quantity .fok
  | some owner => ex.submitLimitWithOwner fuel side price quantity .fok owner

/-- A FOK submission returns, and fills completely or leaves nothing behind but its event and the
order id and timestamp it took. -/
def AllOrNothing (ex : Exchange) (side : Side) (price : Price) (quantity : Quantity)
    (owner : Option OrderOwner) : Prop :=
  ∃ fuel ex' r, ex.submitFok fuel side price quantity owner = some (ex', r) ∧
    (r.filledQuantity = quantity ∨ (r.filledQuantity = 0 ∧ r.trades = [] ∧
      ex' = { ex.record (.submitLimit side price quantity .fok) with
        book := { ex.book with
          nextOrderId := ex.book.nextOrderId + 1
          nextTimestamp := ex.book.nextTimestamp + 1 } }))

theorem submitFok_eq (ex : Exchange) (fuel : Nat) (side : Side) (price : Price)
    (quantity : Quantity)
    (owner : Option OrderOwner) : ex.submitFok fuel side price quantity owner =
      ((ex.record (.submitLimit side price quantity .fok)).submitLimitInternalWithOwner fuel
        ⟨side, price, quantity, .fok, owner⟩).bind fun x ↦
          (x.1.onTrades fuel x.2.trades).map fun ex' ↦ (ex', x.2) := by
  cases owner with
  | none => simp only [submitFok, submitLimit, submitLimitInternal, Option.map_eq_bind]; rfl
  | some owner => simp only [submitFok, submitLimitWithOwner, Option.map_eq_bind]; rfl

/-- An order that was let in to the match is stored, even if nothing of it is filled. -/
theorem stored_of_submit {ex' : Exchange} {fuel : Nat} {r : SubmitResult}
    (htif : sub.timeInForce ≠ .gtc) (hrej : ex.rejectsFok sub = false)
    (h : ex.submitLimitInternalWithOwner fuel sub = some (ex', r)) :
    ∃ o, ex'.book.orders.get? ex.book.nextOrderId = some o := by
  rcases submit_cases h with ⟨hrej', -⟩ | ⟨-, s, hs, rfl, -⟩
  · rw [hrej] at hrej'
    cases hrej'
  · have hid : s.incoming.id = ex.book.nextOrderId :=
      (matchOrderWithPolicy_follows hs).1.incoming.id
    rcases settledBook_cases sub s with ⟨status, hb⟩ | ⟨-, -, hgtc, -⟩
    · simp only [hb, ← hid, OrdMap.get?_insert, if_true]
      exact ⟨_, rfl⟩
    · exact absurd hgtc htif

/-- A FOK order that was let in to the match is all or nothing exactly if nothing is left of it. -/
theorem allOrNothing_iff_left {side : Side} {price : Price} {quantity : Quantity}
    {owner : Option OrderOwner} (h : ex.Backed)
    (hrej : ex.rejectsFok ⟨side, price, quantity, .fok, owner⟩ = false)
    (ht : ex.OnTarget ⟨side, price, quantity, .fok, owner⟩) :
    ex.AllOrNothing side price quantity owner ↔
      (ex.walkOf ⟨side, price, quantity, .fok, owner⟩).left = 0 := by
  have hb : (ex.record (.submitLimit side price quantity .fok)).Backed := h.of_book rfl rfl
  -- recording the event changes nothing the match looks at
  have hfilled : ∀ fuel ex₂ r, (ex.record (.submitLimit side price quantity
      .fok)).submitLimitInternalWithOwner fuel ⟨side, price, quantity, .fok, owner⟩ =
      some (ex₂, r) →
      r.filledQuantity + (ex.walkOf ⟨side, price, quantity, .fok, owner⟩).left = quantity := by
    intro fuel ex₂ r hsub
    rcases submit_cases hsub with ⟨hrej', -⟩ | ⟨-, s, hs, -, -, hr⟩
    · exact absurd (hrej.symm.trans hrej') Bool.false_ne_true
    · rw [hr]
      exact filledQuantity_add_left (hb.isWalk ht hs)
  constructor
  · rintro ⟨fuel, ex', r, hret, hres⟩
    rw [submitFok_eq] at hret
    obtain ⟨⟨ex₂, r₂⟩, hsub, hret⟩ := Option.bind_eq_some_iff.mp hret
    obtain ⟨ex₃, hon, heq⟩ := Option.map_eq_some_iff.mp hret
    obtain ⟨rfl, rfl⟩ : ex₃ = ex' ∧ r₂ = r := Prod.ext_iff.mp heq
    have hsum := hfilled fuel ex₂ r₂ hsub
    rcases hres with hall | ⟨-, htrades, hnothing⟩
    · lia
    · have hsame : ex₂ = ex₃ := by simpa [htrades, onTrades] using hon
      have hrej' : (ex.record (.submitLimit side price quantity .fok)).rejectsFok
          ⟨side, price, quantity, .fok, owner⟩ = false := hrej
      obtain ⟨o, ho⟩ := stored_of_submit (fun htif ↦ by cases htif) hrej' hsub
      rw [hsame, hnothing] at ho
      have hlt := (h.wf.book.stored _ o ho).2.2
      exact absurd hlt (Nat.lt_irrefl _)
  · intro hleft
    obtain ⟨fuel, ⟨ex₂, r⟩, ex', hsub, hon⟩ := hb.exists_submit_onTrades fun _ ↦ ht
    have hsum := hfilled fuel ex₂ r hsub
    refine ⟨fuel, ex', r, ?_, .inl (by lia)⟩
    rw [submitFok_eq]
    exact Option.bind_eq_some_iff.mpr ⟨_, hsub, Option.map_eq_some_iff.mpr ⟨_, hon, rfl⟩⟩

/-- On a run in which cancellations hit and totals never saturate, a FOK order whose own
cancellations hit is all or nothing exactly if the check turns it away or it can fill from the
orders of others. -/
theorem fok_allOrNothing_iff (h : Run KeepsTotals create ex) {side : Side} {price : Price}
    {quantity : Quantity} {owner : Option OrderOwner}
    (ht : ex.Sure ⟨side, price, quantity, .fok, owner⟩) :
    ex.AllOrNothing side price quantity owner ↔
      ex.book.availableToFill side price < quantity ∨
        ex.CanFill ⟨side, price, quantity, .fok, owner⟩ := by
  obtain ⟨hb, hx⟩ := h.exact
  have hcheck : ex.rejectsFok ⟨side, price, quantity, .fok, owner⟩ = true ↔
      ex.book.availableToFill side price < quantity := by
    simp [rejectsFok, OrderBook.canFullyFill]
  cases hrej : ex.rejectsFok ⟨side, price, quantity, .fok, owner⟩ with
  | true =>
      refine iff_of_true ⟨0, _, ⟨ex.book.nextOrderId, .cancelled, [], 0, 0, quantity⟩, ?_,
        .inr ⟨rfl, rfl, rfl⟩⟩ (.inl (hcheck.mp hrej))
      have hrej' : (ex.record (.submitLimit side price quantity .fok)).rejectsFok
          ⟨side, price, quantity, .fok, owner⟩ = true := hrej
      rw [submitFok_eq]
      simp only [submitLimitInternalWithOwner, hrej', if_true]
      rfl
  | false =>
      rw [allOrNothing_iff_left hb hrej (ht hrej), left_eq_zero_iff hb hx]
      refine ⟨.inr, fun hor ↦ hor.resolve_left fun hlt ↦ ?_⟩
      rw [hcheck.mpr hlt] at hrej
      cases hrej

/-! ### Concrete runs -/

/-- Nothing triggers where there is no stop order. -/
theorem not_triggerCalls {fuel n : Nat} {ex' : Exchange} (h : ex.stopBook = StopBook.create) :
    ¬ TriggerCalls fuel n ex ex' sub := by
  have hcol : ∀ p, (ex.collectTriggered p).2 = [] := fun p ↦ by
    rw [collectTriggered, h]
    rfl
  intro hcalls
  cases hcalls with
  | @child n ex ex₁ ex₂ p last before after stop _ heq _ =>
      have := hcol p
      rw [heq] at this
      simp at this
  | later hround _ =>
      simp only [triggerRound] at hround
      split at hround
      · cases hround
      · next p _ =>
          rw [hcol p] at hround
          cases hround

section NoStops

variable {op : Op} (hcall : ex.directCall op = some (ex.logged op, sub))
  (hstop : ex.newStop op = none) (hstops : ex.stopBook = StopBook.create)

include hcall hstop hstops

/-- Without stop orders an operation makes its own submission only. -/
theorem calls_of_no_stops {fuel : Nat} {ex' : Exchange} {sub' : Submission}
    (h : ex.Calls fuel op ex' sub') : ex' = ex.logged op ∧ sub' = sub := by
  have hdirect :
    ∀ ex' sub', ex.directCall op = some (ex', sub') → ex' = ex.logged op ∧ sub' = sub :=
    fun ex' sub' hcall' ↦ by
      rw [hcall] at hcall'
      cases hcall'
      exact ⟨rfl, rfl⟩
  cases h with
  | direct hcall' => exact hdirect ex' sub' hcall'
  | trigger htrig hcalls =>
      refine absurd hcalls (not_triggerCalls ?_)
      cases htrig with
      | trades _ hcall' hsub _ =>
          obtain ⟨rfl, rfl⟩ := hdirect _ _ hcall'
          obtain ⟨events, hlog⟩ := ex.logged_eq op
          have hframe := (submit_frame hsub).1
          rw [hlog] at hframe
          exact hframe.trans hstops
      | stop hnew _ =>
          rw [hstop] at hnew
          cases hnew

theorem keepsTotals_of_no_stops (hcancel : ex.cancelCall op = none) (ht : ex.Sure sub)
    (hroom : ex.Room sub) : ex.KeepsTotals op := by
  obtain ⟨events, hlog⟩ := ex.logged_eq op
  refine ⟨⟨fun id hid ↦ ?_, fun ex' sub' hcall' ↦ ?_⟩, fun fuel ex' sub' hcalls _ ↦ ?_⟩
  · rw [hcancel] at hid
    cases hid
  · rw [hcall] at hcall'
    cases hcall'
    rw [hlog]
    exact ht
  · obtain ⟨rfl, rfl⟩ := calls_of_no_stops hcall hstop hstops hcalls
    rw [hlog]
    exact hroom

end NoStops

/-- Whether all orders that are going to be cancelled are recorded in slot `0`. -/
def cancelsAtFront (actions : List Action) : Bool :=
  actions.all fun
    | .cancel o => o.positionInLevel == 0
    | .fill _ _ => true

theorem onTarget_of_cancelsAtFront (h : cancelsAtFront (ex.walkOf sub).actions = true) :
    ex.OnTarget sub := fun _ ho ↦ by
  simpa using List.all_eq_true.mp h _ ho

/-- The submission finds room for what is left of it. -/
theorem room_of_totalAt {total left : Quantity}
    (htotal : ex.book.totalAt sub.side sub.price = total)
    (hleft : (ex.walkOf sub).left = left) (h : total + left ≤ u64Max) : ex.Room sub :=
      fun _ _ _ ↦ by
  rw [htotal, hleft]
  exact h

/-- Under `CancelOldest`, an own sell ahead of another owner's is cancelled, and the FOK buy fills
against the other. -/
theorem fok_allOrNothing_iff_cancelOldest :
    ∃ ex, performAll 5 create [.setStpPolicy .cancelOldest,
        .submitLimitWithOwner .sell 100 4 .gtc 7, .submitLimitWithOwner .sell 100 10 .gtc 8] =
        some ex ∧
      ex.AllOrNothing .buy 100 10 (some 7) := by
  obtain ⟨ex₁, hex₁⟩ : ∃ ex, performAll 5 create [.setStpPolicy .cancelOldest] = some ex := ⟨_, rfl⟩
  obtain ⟨ex₂, hex₂⟩ : ∃ ex, performAll 5 create [.setStpPolicy .cancelOldest,
      .submitLimitWithOwner .sell 100 4 .gtc 7] = some ex := ⟨_, rfl⟩
  obtain ⟨ex, hex⟩ : ∃ ex, performAll 5 create [.setStpPolicy .cancelOldest,
      .submitLimitWithOwner .sell 100 4 .gtc 7, .submitLimitWithOwner .sell 100 10 .gtc 8] =
      some ex :=
    ⟨_, rfl⟩
  have hpolicy : create.KeepsTotals (.setStpPolicy .cancelOldest) := by
    refine ⟨⟨fun _ h ↦ ?_, fun _ _ h ↦ ?_⟩, fun fuel ex' sub hcalls ↦ ?_⟩
    · cases h
    · cases h
    cases hcalls with
    | direct h => cases h
    | trigger htrig _ =>
        cases htrig with
        | trades _ h _ _ => cases h
        | stop h _ => cases h
  have hsell₁ : ex₁.KeepsTotals (.submitLimitWithOwner .sell 100 4 .gtc 7) :=
    keepsTotals_of_no_stops rfl rfl (observe hex₁ stopBook rfl) rfl
      (fun _ ↦ onTarget_of_cancelsAtFront (observe hex₁ (fun ex ↦ cancelsAtFront
        (ex.walkOf ⟨.sell, 100, 4, .gtc, some 7⟩).actions) rfl))
      (room_of_totalAt (observe hex₁ (fun ex ↦ ex.book.totalAt .sell 100) (a := 0) rfl)
        (observe hex₁ (fun ex ↦ (ex.walkOf ⟨.sell, 100, 4, .gtc, some 7⟩).left) (a := 4) rfl)
        (by decide))
  have hsell₂ : ex₂.KeepsTotals (.submitLimitWithOwner .sell 100 10 .gtc 8) :=
    keepsTotals_of_no_stops rfl rfl (observe hex₂ stopBook rfl)
      rfl
      (fun _ ↦ onTarget_of_cancelsAtFront (observe hex₂ (fun ex ↦ cancelsAtFront
        (ex.walkOf ⟨.sell, 100, 10, .gtc, some 8⟩).actions) rfl))
      (room_of_totalAt (observe hex₂ (fun ex ↦ ex.book.totalAt .sell 100) (a := 4) rfl)
        (observe hex₂ (fun ex ↦ (ex.walkOf ⟨.sell, 100, 10, .gtc, some 8⟩).left) (a := 10) rfl)
        (by decide))
  have hrun₁ : Run KeepsTotals create ex₁ :=
    Run.concat .refl (rfl : performAll 5 create [] = some create) hpolicy hex₁
  have hrun₂ : Run KeepsTotals create ex₂ := Run.concat hrun₁ hex₁ hsell₁ hex₂
  have hrun : Run KeepsTotals create ex := Run.concat hrun₂ hex₂ hsell₂ hex
  have hstp := observe hex (fun ex ↦ ex.stpPolicy) (a := .cancelOldest) rfl
  have hforeign := observe hex (fun ex ↦ foreignSum .cancelOldest (some 7)
    ((flatten (ex.book.resting .sell)).filter fun o ↦ pricesCross .buy 100 o.price)) (a := 10) rfl
  have hcancels := observe hex (fun ex ↦ cancelsAtFront
    (ex.walkOf ⟨.buy, 100, 10, .fok, some 7⟩).actions) rfl
  refine ⟨ex, hex, (fok_allOrNothing_iff hrun fun _ ↦ onTarget_of_cancelsAtFront hcancels).mpr
    (.inr ⟨?_, ?_⟩)⟩
  · rw [hstp]
    exact hforeign.ge
  · intro ahead o behind _ _ _ _
    rw [hstp]
    rfl

theorem submitFok_mono {fuel fuel' : Nat} (h : fuel ≤ fuel') {side : Side} {price : Price}
    {quantity : Quantity} {owner : Option OrderOwner} {x : Exchange × SubmitResult}
    (hs : ex.submitFok fuel side price quantity owner = some x) :
    ex.submitFok fuel' side price quantity owner = some x := by
  rw [submitFok_eq] at hs ⊢
  obtain ⟨y, hy, hs⟩ := Option.bind_eq_some_iff.mp hs
  obtain ⟨ex₁, hon, hs⟩ := Option.map_eq_some_iff.mp hs
  exact Option.bind_eq_some_iff.mpr ⟨y, submit_mono h hy,
    Option.map_eq_some_iff.mpr ⟨ex₁, onTrades_mono h hon, hs⟩⟩

/-- Under `CancelNewest`, the check counts an own sell behind another owner's: the FOK buy fills
half and is then cancelled. -/
theorem fok_fills_half :
    ∃ ex, performAll 5 create [.setStpPolicy .cancelNewest,
        .submitLimitWithOwner .sell 100 5 .gtc 8, .submitLimitWithOwner .sell 100 5 .gtc 7] =
        some ex ∧
      Reachable ex ∧
      (ex.submitFok 5 .buy 100 10 (some 7)).map (fun x ↦ x.2.filledQuantity) = some 5 ∧
      ¬ ex.AllOrNothing .buy 100 10 (some 7) := by
  obtain ⟨ex, hex⟩ : ∃ ex, performAll 5 create [.setStpPolicy .cancelNewest,
      .submitLimitWithOwner .sell 100 5 .gtc 8, .submitLimitWithOwner .sell 100 5 .gtc 7] =
      some ex :=
    ⟨_, rfl⟩
  have hhalf := observe hex (fun ex ↦ (ex.submitFok 5 .buy 100 10 (some 7)).map
    fun x ↦ x.2.filledQuantity) (a := some 5) rfl
  refine ⟨ex, hex, reachable_of_performAll hex, hhalf, ?_⟩
  rintro ⟨fuel, ex', r, hret, hres⟩
  obtain ⟨x, hx, hfilled⟩ := Option.map_eq_some_iff.mp hhalf
  have h₁ := submitFok_mono (Nat.le_max_left fuel 5) hret
  rw [submitFok_mono (Nat.le_max_right fuel 5) hx] at h₁
  cases h₁
  rcases hres with hall | ⟨hnone, -⟩
  · rw [hall] at hfilled
    exact absurd hfilled (by decide)
  · rw [hnone] at hfilled
    exact absurd hfilled (by decide)

end Exchange

end Nanobook
