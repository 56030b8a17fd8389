import Nanobook.Alike.Exchange
import Nanobook.StopHistory

/-!
# Memory management

`compact` and `clear_order_history` are meant to free memory and nothing else.  They lead to an
exchange that is alike, so operations that overwrite no slot but their own return the same with and
without them.  A cancellation goes by the slot recorded when its order was added, though, and
`compact` moves the orders behind a tombstone: the same cancellation may then hit another order.
-/

namespace Nanobook

/-- What an operation returns to its caller. -/
inductive Response where
  | submitted (result : SubmitResult)
  | cancelled (result : CancelResult)
  | modified (result : ModifyResult)
  | stopSubmitted (result : StopSubmitResult)
  | applied (result : ApplyResult)
  | removed (count : Nat)
  | unit
deriving DecidableEq, Repr

namespace Exchange

variable {n : OrderId} {ex ex' ex₁ ex₁' : Exchange} {fuel fuel' : Nat} {op : Op} {r r' : Response}

/-- The exchange after an operation, and what the operation returned. -/
def respond (ex : Exchange) (fuel : Nat) : Op → Option (Exchange × Response)
  | .submitLimit side price quantity tif =>
      (ex.submitLimit fuel side price quantity tif).map (Prod.map id .submitted)
  | .submitLimitWithOwner side price quantity tif owner =>
      (ex.submitLimitWithOwner fuel side price quantity tif owner).map (Prod.map id .submitted)
  | .submitMarket side quantity => (ex.submitMarket fuel side quantity).map (Prod.map id .submitted)
  | .cancel orderId => some (Prod.map id .cancelled (ex.cancel orderId))
  | .modify orderId newPrice newQuantity =>
      (ex.modify fuel orderId newPrice newQuantity).map (Prod.map id .modified)
  | .submitStopMarket side stopPrice quantity =>
      (ex.submitStopMarket fuel side stopPrice quantity).map (Prod.map id .stopSubmitted)
  | .submitStopLimit side stopPrice limitPrice quantity tif =>
      (ex.submitStopLimit fuel side stopPrice limitPrice quantity tif).map
        (Prod.map id .stopSubmitted)
  | .submitTrailingStopMarket side initialStopPrice quantity trailMethod =>
      (ex.submitTrailingStopMarket fuel side initialStopPrice quantity trailMethod).map
        (Prod.map id .stopSubmitted)
  | .submitTrailingStopLimit side initialStopPrice limitPrice quantity tif trailMethod =>
      (ex.submitTrailingStopLimit fuel side initialStopPrice limitPrice quantity tif
        trailMethod).map (Prod.map id .stopSubmitted)
  | .apply event => (ex.apply fuel event).map (Prod.map id .applied)
  | .setStpPolicy policy => some (ex.setStpPolicy policy, .unit)
  | .compact => some (ex.compact, .unit)
  | .clearOrderHistory => some (Prod.map id .removed ex.clearOrderHistory)
  | .clearTrades => some (ex.clearTrades, .unit)
  | .clearEvents => some (ex.clearEvents, .unit)

theorem respond_map_fst (ex : Exchange) (fuel : Nat) (op : Op) :
    (ex.respond fuel op).map Prod.fst = ex.perform fuel op := by
  cases op <;> simp only [respond, perform, Option.map_map, Option.map_some] <;> rfl

/-- The operations return `rs`, one after another, and lead from `ex` to `ex'`. -/
inductive Responds : Exchange → List Op → List Response → Exchange → Prop
  | nil {ex : Exchange} : Responds ex [] [] ex
  | cons {ex ex₁ ex' : Exchange} {fuel : Nat} {op : Op} {r : Response} {ops : List Op}
      {rs : List Response} : ex.respond fuel op = some (ex₁, r) → Responds ex₁ ops rs ex' →
      Responds ex (op :: ops) (r :: rs) ex'

theorem step_of_respond (h : ex.respond fuel op = some (ex₁, r)) : ex.Step op ex₁ :=
  ⟨fuel, by rw [← respond_map_fst, h]; rfl⟩

theorem exists_respond (h : ex.Step op ex₁) : ∃ fuel r, ex.respond fuel op = some (ex₁, r) := by
  obtain ⟨fuel, h⟩ := h
  rw [← respond_map_fst] at h
  obtain ⟨⟨ex₂, r⟩, hr, rfl⟩ := Option.map_eq_some_iff.mp h
  exact ⟨fuel, r, hr⟩

/-! ## Continuations -/

/-- The order is stored and active. -/
def Rests (ex : Exchange) (id : OrderId) : Prop :=
  ∃ o, ex.book.orders.get? id = some o ∧ o.isActive = true

/-- A submission, a cancellation of a resting order or a pending stop, or a modification of a
resting order. -/
def Continues (ex : Exchange) (op : Op) : Prop :=
  match op.method with
  | .cancel id => ex.stopBook.containsPending id = true ∨ ex.Rests id
  | .modify id _ _ => ex.Rests id
  | .setStpPolicy _ | .compact | .clearOrderHistory | .clearTrades | .clearEvents => False
  | _ => True

/-- `C` holds of each operation in the state it is performed in. -/
def Along (C : Exchange → Op → Prop) : Exchange → List Op → Prop
  | _, [] => True
  | ex, op :: ops => C ex op ∧ ∀ ex', ex.Step op ex' → Along C ex' ops

/-- Any number of calls of `compact` and `clear_order_history`. -/
def Maintained : Exchange → Exchange → Prop :=
  Run fun _ op ↦ op = .compact ∨ op = .clearOrderHistory

/-! ## One operation -/

namespace Alike

variable (h : Alike n ex ex')

include h

/-- A submission with the triggers of its trades. -/
theorem submit_onTrades {ex₂ ex₂' : Exchange} {sub : Submission} {x x' : SubmitResult}
    (ht : ex.Sure sub) (ht' : ex'.Sure sub)
    (hs : ex.submitLimitInternalWithOwner fuel sub = some (ex₂, x))
    (hs' : ex'.submitLimitInternalWithOwner fuel' sub = some (ex₂', x'))
    (hon : ex₂.onTrades fuel x.trades = some ex₁)
    (hon' : ex₂'.onTrades fuel' x'.trades = some ex₁') : Alike n ex₁ ex₁' ∧ x = x' := by
  obtain ⟨hal, rfl⟩ := h.submit ht ht' hs hs'
  exact ⟨hal.onTrades hon hon', rfl⟩

/-- The public submissions, which differ in what they make of the result. -/
theorem respond_submission {sub : Submission} (wrap : SubmitResult → Response)
    (hc : ex.CancelsHit op) (hc' : ex'.CancelsHit op) (hs : ex.respond fuel op = some (ex₁, r))
    (hs' : ex'.respond fuel' op = some (ex₁', r'))
    (hcall : ∀ ex : Exchange, ex.directCall op = some (ex.logged op, sub))
    (hresp : ∀ (ex : Exchange) fuel, ex.respond fuel op =
      ((ex.logged op).submitLimitInternalWithOwner fuel sub).bind fun x ↦
        (x.1.onTrades fuel x.2.trades).bind fun ex ↦ some (ex, wrap x.2)) :
    Alike n ex₁ ex₁' ∧ r = r' := by
  rw [hresp] at hs hs'
  obtain ⟨⟨ex₂, x⟩, hsub, hs⟩ := Option.bind_eq_some_iff.mp hs
  obtain ⟨⟨ex₂', x'⟩, hsub', hs'⟩ := Option.bind_eq_some_iff.mp hs'
  obtain ⟨ex₃, hon, hs⟩ := Option.bind_eq_some_iff.mp hs
  obtain ⟨ex₃', hon', hs'⟩ := Option.bind_eq_some_iff.mp hs'
  cases hs
  cases hs'
  obtain ⟨hal, rfl⟩ := (h.logged op).submit_onTrades (hc.submit _ _ (hcall ex))
    (hc'.submit _ _ (hcall ex')) hsub hsub' hon hon'
  exact ⟨hal, rfl⟩

/-- The public stop submissions. -/
theorem respond_stop (side : Side) (stopPrice : Price) (limitPrice : Option Price) (q : Quantity)
    (tif : TimeInForce) (trailMethod : Option TrailMethod) (wrap : StopSubmitResult → Response)
    (hs : ex.respond fuel op = some (ex₁, r)) (hs' : ex'.respond fuel' op = some (ex₁', r'))
    (hresp : ∀ (ex : Exchange) fuel, ex.respond fuel op =
      ((ex.logged op).insertStopOrder fuel side stopPrice limitPrice q tif trailMethod).bind
        fun x ↦ some (x.1, wrap x.2)) :
    Alike n ex₁ ex₁' ∧ r = r' := by
  rw [hresp] at hs hs'
  obtain ⟨⟨ex₂, x⟩, hstop, hs⟩ := Option.bind_eq_some_iff.mp hs
  obtain ⟨⟨ex₂', x'⟩, hstop', hs'⟩ := Option.bind_eq_some_iff.mp hs'
  cases hs
  cases hs'
  obtain ⟨hal, rfl⟩ := (h.logged op).insertStopOrder hstop hstop'
  exact ⟨hal, rfl⟩

/-- A cancellation by either method. -/
theorem respond_cancel {id : OrderId} (hop : op.method = .cancel id) (hk : ex.Continues op)
    (hc : ex.CancelsHit op) (hc' : ex'.CancelsHit op) :
    Alike n ((ex.logged op).cancelInternal id).1 ((ex'.logged op).cancelInternal id).1 ∧
      ((ex.logged op).cancelInternal id).2 = ((ex'.logged op).cancelInternal id).2 := by
  obtain ⟨events, hlog⟩ := ex.logged_eq op
  have hcontains : (ex.logged op).stopBook.containsPending id = ex.stopBook.containsPending id := by
    rw [hlog]
  cases hp : ex.stopBook.containsPending id with
  | true => exact (h.logged op).cancelInternal_stop (hcontains.trans hp)
  | false =>
      have hp' : ex'.stopBook.containsPending id = false := h.stopBook.containsPending id ▸ hp
      have hcall : ex.cancelCall op = some id := by simp [cancelCall, hop, hp]
      have hcall' : ex'.cancelCall op = some id := by simp [cancelCall, hop, hp']
      have hrests : ex.Rests id := by
        simpa [Continues, hop, hp] using hk
      obtain ⟨o, ho, ha⟩ := hrests
      refine (h.logged op).cancelInternal (o := o) ?_ ha (hcontains.trans hp)
        (hc.targets_logged hcall) (hc'.targets_logged hcall')
      rw [hlog]
      exact ho

/-- A modification by either method. -/
theorem respond_modify {id : OrderId} {p : Price} {q : Quantity} {x x' : ModifyResult}
    (hop : op.method = .modify id p q) (hk : ex.Continues op) (hc : ex.CancelsHit op)
    (hc' : ex'.CancelsHit op) (hs : (ex.logged op).modifyInternal fuel id p q = some (ex₁, x))
    (hs' : (ex'.logged op).modifyInternal fuel' id p q = some (ex₁', x')) :
    Alike n ex₁ ex₁' ∧ x = x' := by
  have hrests : ex.Rests id := by simpa [Continues, hop] using hk
  obtain ⟨o, ho, ha⟩ := hrests
  have hcall : ∀ ex : Exchange, q ≠ 0 → ex.cancelCall op = some id := fun ex hq ↦ by
    simp [cancelCall, hop, hq]
  refine (h.logged op).modifyInternal (o := o) ?_ ha (fun hq ↦ hc.targets_logged (hcall ex hq))
    (fun hq ↦ hc'.targets_logged (hcall ex' hq)) hs hs'
  obtain ⟨events, hlog⟩ := ex.logged_eq op
  rw [hlog]
  exact ho

omit h in
theorem map_submission {α β : Type} (g : SubmitResult → α) (w : α → β)
    (x : Option (Exchange × SubmitResult)) (fuel : Nat) :
    (x.bind fun y ↦ (y.1.onTrades fuel y.2.trades).bind fun ex ↦ some (ex, g y.2)).map
        (Prod.map id w) =
      x.bind fun y ↦ (y.1.onTrades fuel y.2.trades).bind fun ex ↦ some (ex, w (g y.2)) := by
  cases x with
  | none => rfl
  | some y => cases hon : y.1.onTrades fuel y.2.trades <;> simp [hon]

omit h in
theorem map_stop {α : Type} (w : StopSubmitResult → α) (x : Option (Exchange × StopSubmitResult)) :
    x.map (Prod.map id w) = x.bind fun y ↦ some (y.1, w y.2) := by
  cases x <;> rfl

omit h in
theorem map_appliedStop (x : Option (Exchange × StopSubmitResult)) :
    (x.bind fun y ↦ some (y.1, ApplyResult.mk [])).map (Prod.map id Response.applied) =
      x.bind fun y ↦ some (y.1, .applied ⟨[]⟩) := by
  cases x <;> rfl

/-- The events that are applied, each like the method it is named after. -/
theorem respond_apply {event : Event} (hk : ex.Continues (.apply event))
    (hc : ex.CancelsHit (.apply event)) (hc' : ex'.CancelsHit (.apply event))
    (hs : ex.respond fuel (.apply event) = some (ex₁, r))
    (hs' : ex'.respond fuel' (.apply event) = some (ex₁', r')) : Alike n ex₁ ex₁' ∧ r = r' := by
  cases event with
  | submitLimit side price q tif =>
      exact h.respond_submission (fun x ↦ .applied ⟨x.trades⟩) hc hc' hs hs' (fun _ ↦ rfl)
        fun ex fuel ↦ map_submission (fun x ↦ ApplyResult.mk x.trades) Response.applied _ fuel
  | submitMarket side q =>
      exact h.respond_submission (fun x ↦ .applied ⟨x.trades⟩) hc hc' hs hs' (fun _ ↦ rfl)
        fun ex fuel ↦ map_submission (fun x ↦ ApplyResult.mk x.trades) Response.applied _ fuel
  | cancel id =>
      obtain ⟨hal, -⟩ := h.respond_cancel rfl hk hc hc'
      cases hs
      cases hs'
      exact ⟨hal, rfl⟩
  | modify id p q =>
      obtain ⟨⟨ex₂, x⟩, happly, heq⟩ := Option.map_eq_some_iff.mp hs
      obtain ⟨⟨ex₂', x'⟩, happly', heq'⟩ := Option.map_eq_some_iff.mp hs'
      cases heq
      cases heq'
      obtain ⟨⟨ex₃, y⟩, hmod, happly⟩ := Option.bind_eq_some_iff.mp happly
      obtain ⟨⟨ex₃', y'⟩, hmod', happly'⟩ := Option.bind_eq_some_iff.mp happly'
      obtain ⟨ex₄, hon, happly⟩ := Option.bind_eq_some_iff.mp happly
      obtain ⟨ex₄', hon', happly'⟩ := Option.bind_eq_some_iff.mp happly'
      cases happly
      cases happly'
      obtain ⟨hal, rfl⟩ := h.respond_modify rfl hk hc hc' hmod hmod'
      exact ⟨hal.onTrades hon hon', rfl⟩
  | submitStopMarket side stopPrice q =>
      exact h.respond_stop side stopPrice none q .gtc none (fun _ ↦ .applied ⟨[]⟩) hs hs'
        fun ex fuel ↦ map_appliedStop _
  | submitStopLimit side stopPrice limitPrice q tif =>
      exact h.respond_stop side stopPrice (some limitPrice) q tif none (fun _ ↦ .applied ⟨[]⟩)
        hs hs' fun ex fuel ↦ map_appliedStop _
  | submitTrailingStopMarket side stopPrice q m =>
      exact h.respond_stop side stopPrice none q .gtc (some m) (fun _ ↦ .applied ⟨[]⟩) hs hs'
        fun ex fuel ↦ map_appliedStop
          ((ex.logged (.apply (.submitTrailingStopMarket side stopPrice q m))).insertStopOrder fuel
            side stopPrice none q .gtc (some m))
  | submitTrailingStopLimit side stopPrice limitPrice q tif m =>
      exact h.respond_stop side stopPrice (some limitPrice) q tif (some m) (fun _ ↦ .applied ⟨[]⟩)
        hs hs' fun ex fuel ↦ map_appliedStop
          ((ex.logged (.apply
            (.submitTrailingStopLimit side stopPrice limitPrice q tif m))).insertStopOrder fuel
              side stopPrice (some limitPrice) q tif (some m))

/-- Exchanges that are alike return the same for an operation of a continuation, and stay alike. -/
theorem respond (hk : ex.Continues op) (hc : ex.CancelsHit op) (hc' : ex'.CancelsHit op)
    (hs : ex.respond fuel op = some (ex₁, r)) (hs' : ex'.respond fuel' op = some (ex₁', r')) :
    Alike n ex₁ ex₁' ∧ r = r' := by
  cases op with
  | submitLimit side price q tif =>
      exact h.respond_submission .submitted hc hc' hs hs' (fun _ ↦ rfl)
        fun ex fuel ↦ map_submission id Response.submitted _ fuel
  | submitLimitWithOwner side price q tif owner =>
      exact h.respond_submission .submitted hc hc' hs hs' (fun _ ↦ rfl)
        fun ex fuel ↦ map_submission id Response.submitted _ fuel
  | submitMarket side q =>
      exact h.respond_submission .submitted hc hc' hs hs' (fun _ ↦ rfl)
        fun ex fuel ↦ map_submission id Response.submitted _ fuel
  | cancel id =>
      obtain ⟨hal, heq⟩ := h.respond_cancel rfl hk hc hc'
      cases hs
      cases hs'
      exact ⟨hal, congrArg Response.cancelled heq⟩
  | modify id p q =>
      obtain ⟨⟨ex₂, x⟩, hmod, heq⟩ := Option.map_eq_some_iff.mp hs
      obtain ⟨⟨ex₂', x'⟩, hmod', heq'⟩ := Option.map_eq_some_iff.mp hs'
      cases heq
      cases heq'
      obtain ⟨hal, rfl⟩ := h.respond_modify rfl hk hc hc' hmod hmod'
      exact ⟨hal, rfl⟩
  | submitStopMarket side stopPrice q =>
      exact h.respond_stop side stopPrice none q .gtc none .stopSubmitted hs hs'
        fun ex fuel ↦ map_stop Response.stopSubmitted _
  | submitStopLimit side stopPrice limitPrice q tif =>
      exact h.respond_stop side stopPrice (some limitPrice) q tif none .stopSubmitted hs hs'
        fun ex fuel ↦ map_stop Response.stopSubmitted _
  | submitTrailingStopMarket side stopPrice q m =>
      exact h.respond_stop side stopPrice none q .gtc (some m) .stopSubmitted hs hs'
        fun ex fuel ↦ map_stop Response.stopSubmitted
          ((ex.logged (.submitTrailingStopMarket side stopPrice q m)).insertStopOrder fuel
            side stopPrice none q .gtc (some m))
  | submitTrailingStopLimit side stopPrice limitPrice q tif m =>
      exact h.respond_stop side stopPrice (some limitPrice) q tif (some m) .stopSubmitted hs hs'
        fun ex fuel ↦ map_stop Response.stopSubmitted
          ((ex.logged (.submitTrailingStopLimit side stopPrice limitPrice q tif m)).insertStopOrder
            fuel side stopPrice (some limitPrice) q tif (some m))
  | apply event => exact h.respond_apply hk hc hc' hs hs'
  | setStpPolicy policy => exact hk.elim
  | compact => exact hk.elim
  | clearOrderHistory => exact hk.elim
  | clearTrades => exact hk.elim
  | clearEvents => exact hk.elim

end Alike

/-! ## Runs -/

/-- Calls of the memory management cancel nothing and lead to an exchange that is alike. -/
theorem Maintained.alike (hrun : Run CancelsHit create ex) (hm : Maintained ex ex') :
    Run CancelsHit create ex' ∧ Alike ex.book.nextOrderId ex ex' := by
  induction hm with
  | refl => exact ⟨hrun, hrun.backed.alike_self⟩
  | @tail ex₁ ex₂ _ hlast ih =>
      obtain ⟨op, hop, hs⟩ := hlast
      obtain ⟨hrun₁, hal⟩ := ih
      have hhits : ex₁.CancelsHit op := by
        rcases hop with rfl | rfl <;> exact cancelsHit_of_owner_none rfl fun _ _ h ↦ by cases h
      have hrun₂ : Run CancelsHit create ex₂ := hrun₁.tail ⟨op, hhits, hs⟩
      refine ⟨hrun₂, ?_⟩
      have hbacked := hrun₂.backed
      obtain ⟨fuel, hs⟩ := hs
      rcases hop with rfl | rfl
      · cases hs
        exact ⟨hal.backed, hbacked, hal.book.trans ex₁.book.alike_compact, hal.stopBook, hal.trades,
          hal.lastTradePrice, hal.stpPolicy, hal.le_nextOrderId⟩
      · cases hs
        have hwf : ex₁.stopBook.WF := Reachable.stopBook_wf (hrun₁.mono fun _ _ _ ↦ trivial)
        have hlater : ∀ id, ex.book.nextOrderId ≤ id → ex₁.stopBook.orders.get? id = none := by
          intro id hid
          cases ho : ex₁.stopBook.orders.get? id with
          | none => rfl
          | some o =>
              have hlt := (hal.backed'.wf.stops id o ho).lt
              rw [← hal.book.nextOrderId] at hlt
              exact absurd (hid.trans_lt hlt) (lt_irrefl _)
        exact ⟨hal.backed, hbacked,
          hal.book.trans (OrderBook.alike_clearHistory hal.backed'.wf.book hal.backed'.stocked),
          hal.stopBook.trans (StopBook.alike_clearHistory hwf hlater), hal.trades,
          hal.lastTradePrice, hal.stpPolicy, hal.le_nextOrderId⟩

/-- Exchanges that are alike return the same along a continuation, and stay alike. -/
theorem Alike.responds {ops : List Op} {rs rs' : List Response} (h : Alike n ex ex')
    (hops : Along (fun ex op ↦ ex.Continues op ∧ ex.CancelsHit op) ex ops)
    (hops' : Along CancelsHit ex' ops) (hr : Responds ex ops rs ex₁)
    (hr' : Responds ex' ops rs' ex₁') : Alike n ex₁ ex₁' ∧ rs = rs' := by
  induction hr generalizing ex' rs' with
  | nil =>
      cases hr'
      exact ⟨h, rfl⟩
  | cons hone hrest ih =>
      cases hr' with
      | cons hone' hrest' =>
          obtain ⟨⟨hk, hc⟩, hlater⟩ := hops
          obtain ⟨hc', hlater'⟩ := hops'
          obtain ⟨hal, rfl⟩ := h.respond hk hc hc' hone hone'
          obtain ⟨hal', rfl⟩ := ih hal (hlater _ (step_of_respond hone))
            (hlater' _ (step_of_respond hone')) hrest'
          exact ⟨hal', rfl⟩

/-- On a backed exchange a sequence of operations whose cancellations hit returns. -/
theorem Backed.exists_responds {ops : List Op} (h : ex.Backed) (hops : Along CancelsHit ex ops) :
    ∃ rs ex₁, Responds ex ops rs ex₁ := by
  induction ops generalizing ex with
  | nil => exact ⟨[], ex, .nil⟩
  | cons op ops ih =>
      obtain ⟨hc, hlater⟩ := hops
      obtain ⟨ex₂, hs⟩ := h.exists_step hc
      obtain ⟨fuel, r, hr⟩ := exists_respond hs
      obtain ⟨rs, ex₁, hrest⟩ := ih (hs.backed hc h) (hlater ex₂ hs)
      exact ⟨r :: rs, ex₁, .cons hr hrest⟩

theorem Along.mono {C D : Exchange → Op → Prop} (hCD : ∀ ex op, C ex op → D ex op) {ops : List Op}
    (h : Along C ex ops) : Along D ex ops := by
  induction ops generalizing ex with
  | nil => trivial
  | cons op ops ih => exact ⟨hCD _ _ h.1, fun ex' hs ↦ ih (h.2 ex' hs)⟩

/-- Where every cancellation hits, before the memory management and after it, with it and without
it, what follows returns the same, records the same trades and shows the same book.  The
continuation may be cut short anywhere, so this holds after each of its operations. -/
theorem maintenance_neutral_of_run (hrun : Run CancelsHit create ex) (hm : Maintained ex ex')
    {ops : List Op} (hops : Along (fun ex op ↦ ex.Continues op ∧ ex.CancelsHit op) ex ops)
    (hops' : Along CancelsHit ex' ops) :
    (∃ rs ex₁, Responds ex ops rs ex₁) ∧ (∃ rs ex₁, Responds ex' ops rs ex₁) ∧
      ∀ rs ex₁ rs' ex₁', Responds ex ops rs ex₁ → Responds ex' ops rs' ex₁' →
        rs = rs' ∧ ex₁.trades = ex₁'.trades ∧ ∀ levels, ex₁.depth levels = ex₁'.depth levels := by
  obtain ⟨-, hal⟩ := hm.alike hrun
  refine ⟨hal.backed.exists_responds (hops.mono fun _ _ h ↦ h.2), hal.backed'.exists_responds hops',
    fun rs ex₁ rs' ex₁' hr hr' ↦ ?_⟩
  obtain ⟨hal', heq⟩ := hal.responds hops hops' hr hr'
  exact ⟨heq, hal'.trades, hal'.depth⟩

/-- The last of three sells at one price is cancelled, and its tombstone and its record are cleaned
up; the second is cancelled where it always was. -/
theorem maintenance_neutral_of_run_last :
    ∃ ex ex', performAll 5 create [.submitLimit .sell 100 10 .gtc, .submitLimit .sell 100 20 .gtc,
        .submitLimit .sell 100 30 .gtc, .cancel 3] = some ex ∧
        ex' = ex.compact.clearOrderHistory.1 ∧
      ex.book.level .sell 100 = some ⟨100, [1, 2, 0], 30, 1⟩ ∧
      ex'.book.level .sell 100 = some ⟨100, [1, 2], 30, 0⟩ ∧
      ∃ rs ex₁ ex₁', Responds ex [.cancel 2, .submitLimit .buy 100 15 .gtc] rs ex₁ ∧
        Responds ex' [.cancel 2, .submitLimit .buy 100 15 .gtc] rs ex₁' ∧
        ex₁.trades = ex₁'.trades ∧ ex₁.depth 5 = ex₁'.depth 5 := by
  obtain ⟨ex₀, hex₀⟩ : ∃ ex, performAll 5 create [.submitLimit .sell 100 10 .gtc,
      .submitLimit .sell 100 20 .gtc, .submitLimit .sell 100 30 .gtc] = some ex := ⟨_, rfl⟩
  have hrun₀ : Run CancelsHit create ex₀ := run_of_performAll (fun op hop ex ↦ by
    simp only [List.mem_cons, List.not_mem_nil, or_false] at hop
    rcases hop with rfl | rfl | rfl
    · exact ex.cancelsHit_submitLimit _ _ _ _
    · exact ex.cancelsHit_submitLimit _ _ _ _
    · exact ex.cancelsHit_submitLimit _ _ _ _) hex₀
  have hlast : ex₀.CancelsHit (.cancel 3) := by
    have ho := observe hex₀ (fun ex ↦ ex.book.orders.get? 3)
      (a := some ⟨3, .sell, 100, 30, 30, 0, 3, .gtc, .new, none, 2⟩) rfl
    have hl :=
      observe hex₀ (fun ex ↦ ex.book.level .sell 100) (a := some ⟨100, [1, 2, 3], 60, 0⟩) rfl
    exact cancelsHit_cancel ho hl rfl
  have hrun : Run CancelsHit create (ex₀.cancel 3).1 := hrun₀.tail ⟨_, hlast, 0, rfl⟩
  have hm : Maintained (ex₀.cancel 3).1 (ex₀.cancel 3).1.compact.clearOrderHistory.1 :=
    (Relation.ReflTransGen.single ⟨.compact, .inl rfl, 0, rfl⟩).tail
      ⟨.clearOrderHistory, .inr rfl, 0, rfl⟩
  have ho := observe hex₀ (fun ex ↦ (ex.cancel 3).1.book.orders.get? 2)
    (a := some ⟨2, .sell, 100, 20, 20, 0, 2, .gtc, .new, none, 1⟩) rfl
  have ho' := observe hex₀ (fun ex ↦ (ex.cancel 3).1.compact.clearOrderHistory.1.book.orders.get? 2)
    (a := some ⟨2, .sell, 100, 20, 20, 0, 2, .gtc, .new, none, 1⟩) rfl
  have hl := observe hex₀ (fun ex ↦ (ex.cancel 3).1.book.level .sell 100)
    (a := some ⟨100, [1, 2, 0], 30, 1⟩) rfl
  have hl' := observe hex₀ (fun ex ↦
    (ex.cancel 3).1.compact.clearOrderHistory.1.book.level .sell 100)
      (a := some ⟨100, [1, 2], 30, 0⟩) rfl
  -- the continuation hits with and without the maintenance
  have hops : ∀ (C : Exchange → Op → Prop) (ex : Exchange), C ex (.cancel 2) →
      (∀ ex, C ex (.submitLimit .buy 100 15 .gtc)) →
      Along C ex [.cancel 2, .submitLimit .buy 100 15 .gtc] :=
    fun C ex hfirst hsecond ↦ ⟨hfirst, fun ex' _ ↦ ⟨hsecond ex', fun _ _ ↦ trivial⟩⟩
  obtain ⟨⟨rs, ex₁, hr⟩, ⟨rs', ex₁', hr'⟩, hsame⟩ := maintenance_neutral_of_run hrun hm
    (hops _ _ ⟨.inr ⟨_, ho, rfl⟩, cancelsHit_cancel ho hl rfl⟩
      fun ex ↦ ⟨trivial, ex.cancelsHit_submitLimit _ _ _ _⟩)
    (hops _ _ (cancelsHit_cancel ho' hl' rfl) fun ex ↦ ex.cancelsHit_submitLimit _ _ _ _)
  obtain ⟨rfl, htrades, hdepth⟩ := hsame rs ex₁ rs' ex₁' hr hr'
  refine ⟨_, _, ?_, rfl, hl, hl', rs, ex₁, ex₁', hr, hr', htrades, hdepth 5⟩
  rw [performAll, show [Op.submitLimit .sell 100 10 .gtc, .submitLimit .sell 100 20 .gtc,
    .submitLimit .sell 100 30 .gtc, .cancel 3] = [.submitLimit .sell 100 10 .gtc,
      .submitLimit .sell 100 20 .gtc, .submitLimit .sell 100 30 .gtc] ++ [.cancel 3] from rfl,
    List.foldlM_append, ← performAll, hex₀]
  rfl

/-- The first of four sells at one price is cancelled.  Left alone, the book fills a buy against the
third once the second is cancelled as well.  Compacted before, it cancels the third in the place of
the second, which stays queued with nothing remaining, and fills the buy against the fourth. -/
theorem compact_not_neutral :
    ∃ ex ops rs rs' ex₁ ex₁', performAll 9 create [.submitLimit .sell 100 10 .gtc,
        .submitLimit .sell 100 10 .gtc, .submitLimit .sell 100 10 .gtc,
        .submitLimit .sell 100 10 .gtc, .cancel 1] = some ex ∧ Reachable ex ∧
      Maintained ex ex.compact ∧ Along Continues ex ops ∧
      Responds ex ops rs ex₁ ∧ Responds ex.compact ops rs' ex₁' ∧
      rs ≠ rs' ∧ ex₁.trades ≠ ex₁'.trades ∧ ex₁.depth 1 ≠ ex₁'.depth 1 := by
  obtain ⟨ex, hex⟩ : ∃ ex, performAll 9 create [.submitLimit .sell 100 10 .gtc,
      .submitLimit .sell 100 10 .gtc, .submitLimit .sell 100 10 .gtc,
      .submitLimit .sell 100 10 .gtc, .cancel 1] = some ex := ⟨_, rfl⟩
  have ho := observe hex (fun ex ↦ ex.book.orders.get? 2)
    (a := some ⟨2, .sell, 100, 10, 10, 0, 2, .gtc, .new, none, 1⟩) rfl
  have hbuy := observe hex (fun ex ↦ ((ex.cancel 2).1.respond 9 (.submitLimit .buy 100 10 .gtc)).map
    fun x ↦ (x.2, x.1.trades, (x.1.depth 1).asks))
    (a := some (.submitted ⟨5, .filled, [⟨1, 100, 10, 5, 3, .buy, 6⟩], 10, 0, 0⟩,
      [⟨1, 100, 10, 5, 3, .buy, 6⟩], [⟨100, 10, 1⟩])) rfl
  have hbuy' := observe hex (fun ex ↦
    ((ex.compact.cancel 2).1.respond 9 (.submitLimit .buy 100 10 .gtc)).map
      fun x ↦ (x.2, x.1.trades, (x.1.depth 1).asks))
    (a := some (.submitted ⟨5, .filled, [⟨1, 100, 0, 5, 2, .buy, 6⟩,
      ⟨2, 100, 10, 5, 4, .buy, 7⟩], 10, 0, 0⟩, [⟨1, 100, 0, 5, 2, .buy, 6⟩,
      ⟨2, 100, 10, 5, 4, .buy, 7⟩], [⟨100, 10, 0⟩])) rfl
  obtain ⟨⟨ex₁, r⟩, hr, heq⟩ := Option.map_eq_some_iff.mp hbuy
  obtain ⟨⟨ex₁', r'⟩, hr', heq'⟩ := Option.map_eq_some_iff.mp hbuy'
  obtain ⟨hres, hrest⟩ := Prod.mk.inj heq
  obtain ⟨hres', hrest'⟩ := Prod.mk.inj heq'
  obtain ⟨htrades, hasks⟩ := Prod.mk.inj hrest
  obtain ⟨htrades', hasks'⟩ := Prod.mk.inj hrest'
  refine ⟨ex, [.cancel 2, .submitLimit .buy 100 10 .gtc],
    [.cancelled (ex.cancel 2).2, r], [.cancelled (ex.compact.cancel 2).2, r'], ex₁, ex₁', hex,
    reachable_of_performAll hex, .single ⟨.compact, .inl rfl, 0, rfl⟩,
    ⟨.inr ⟨_, ho, rfl⟩, fun _ _ ↦ ⟨trivial, fun _ _ ↦ trivial⟩⟩,
    .cons (show ex.respond 0 (.cancel 2) = _ from rfl) (.cons hr .nil),
    .cons (show ex.compact.respond 0 (.cancel 2) = _ from rfl) (.cons hr' .nil), ?_, ?_, ?_⟩
  · intro hrs
    have hlast := (List.cons.inj (List.cons.inj hrs).2).1
    rw [show r = _ from hres, show r' = _ from hres'] at hlast
    cases hlast
  · rw [show ex₁.trades = _ from htrades, show ex₁'.trades = _ from htrades']
    decide
  · intro hdepth
    have hasks₁ := congrArg BookSnapshot.asks hdepth
    rw [show (ex₁.depth 1).asks = _ from hasks, show (ex₁'.depth 1).asks = _ from hasks'] at hasks₁
    cases hasks₁

end Exchange

end Nanobook
