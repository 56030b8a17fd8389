import Mathlib.Logic.Relation
import Nanobook.Replay

/-!
# Runs of the exchange

The public operations as one type, the runs made of them, and the internal calls an operation
makes: the submissions, its own and those of the stops it triggers, and the cancellations of book
orders.  A condition on the steps of a run is a condition on these calls, in the state each of
them is made in.
-/

namespace Nanobook

/-- The public operations that change an exchange. -/
inductive Op where
  | submitLimit (side : Side) (price : Price) (quantity : Quantity) (tif : TimeInForce)
  | submitLimitWithOwner (side : Side) (price : Price) (quantity : Quantity) (tif : TimeInForce)
      (owner : OrderOwner)
  | submitMarket (side : Side) (quantity : Quantity)
  | cancel (orderId : OrderId)
  | modify (orderId : OrderId) (newPrice : Price) (newQuantity : Quantity)
  | submitStopMarket (side : Side) (stopPrice : Price) (quantity : Quantity)
  | submitStopLimit (side : Side) (stopPrice limitPrice : Price) (quantity : Quantity)
      (tif : TimeInForce)
  | submitTrailingStopMarket (side : Side) (initialStopPrice : Price) (quantity : Quantity)
      (trailMethod : TrailMethod)
  | submitTrailingStopLimit (side : Side) (initialStopPrice limitPrice : Price)
      (quantity : Quantity) (tif : TimeInForce) (trailMethod : TrailMethod)
  | apply (event : Event)
  | setStpPolicy (policy : StpPolicy)
  | compact
  | clearOrderHistory
  | clearTrades
  | clearEvents

/-- The public method that records an event. -/
def Event.op : Event → Op
  | .submitLimit side price quantity tif => .submitLimit side price quantity tif
  | .submitMarket side quantity => .submitMarket side quantity
  | .cancel orderId => .cancel orderId
  | .modify orderId newPrice newQuantity => .modify orderId newPrice newQuantity
  | .submitStopMarket side stopPrice quantity => .submitStopMarket side stopPrice quantity
  | .submitStopLimit side stopPrice limitPrice quantity tif =>
      .submitStopLimit side stopPrice limitPrice quantity tif
  | .submitTrailingStopMarket side stopPrice quantity trailMethod =>
      .submitTrailingStopMarket side stopPrice quantity trailMethod
  | .submitTrailingStopLimit side stopPrice limitPrice quantity tif trailMethod =>
      .submitTrailingStopLimit side stopPrice limitPrice quantity tif trailMethod

/-- The public method an operation stands for: `apply` does what its event asks for. -/
def Op.method : Op → Op
  | .apply event => event.op
  | op => op

/-- The event an operation records; there is none for an owner. -/
def Op.event : Op → Option Event
  | .submitLimit side price quantity tif => some (.submitLimit side price quantity tif)
  | .submitLimitWithOwner side price quantity tif _ => some (.submitLimit side price quantity tif)
  | .submitMarket side quantity => some (.submitMarket side quantity)
  | .cancel orderId => some (.cancel orderId)
  | .modify orderId newPrice newQuantity => some (.modify orderId newPrice newQuantity)
  | .submitStopMarket side stopPrice quantity => some (.submitStopMarket side stopPrice quantity)
  | .submitStopLimit side stopPrice limitPrice quantity tif =>
      some (.submitStopLimit side stopPrice limitPrice quantity tif)
  | .submitTrailingStopMarket side stopPrice quantity trailMethod =>
      some (.submitTrailingStopMarket side stopPrice quantity trailMethod)
  | .submitTrailingStopLimit side stopPrice limitPrice quantity tif trailMethod =>
      some (.submitTrailingStopLimit side stopPrice limitPrice quantity tif trailMethod)
  | .apply event => some event
  | .setStpPolicy _ | .compact | .clearOrderHistory | .clearTrades | .clearEvents => none

namespace Exchange

/-- The exchange after an operation. -/
def perform (ex : Exchange) (fuel : Nat) : Op → Option Exchange
  | .submitLimit side price quantity tif =>
      (ex.submitLimit fuel side price quantity tif).map Prod.fst
  | .submitLimitWithOwner side price quantity tif owner =>
      (ex.submitLimitWithOwner fuel side price quantity tif owner).map Prod.fst
  | .submitMarket side quantity => (ex.submitMarket fuel side quantity).map Prod.fst
  | .cancel orderId => some (ex.cancel orderId).1
  | .modify orderId newPrice newQuantity =>
      (ex.modify fuel orderId newPrice newQuantity).map Prod.fst
  | .submitStopMarket side stopPrice quantity =>
      (ex.submitStopMarket fuel side stopPrice quantity).map Prod.fst
  | .submitStopLimit side stopPrice limitPrice quantity tif =>
      (ex.submitStopLimit fuel side stopPrice limitPrice quantity tif).map Prod.fst
  | .submitTrailingStopMarket side initialStopPrice quantity trailMethod =>
      (ex.submitTrailingStopMarket fuel side initialStopPrice quantity trailMethod).map Prod.fst
  | .submitTrailingStopLimit side initialStopPrice limitPrice quantity tif trailMethod =>
      (ex.submitTrailingStopLimit fuel side initialStopPrice limitPrice quantity tif
        trailMethod).map Prod.fst
  | .apply event => (ex.apply fuel event).map Prod.fst
  | .setStpPolicy policy => some (ex.setStpPolicy policy)
  | .compact => some ex.compact
  | .clearOrderHistory => some ex.clearOrderHistory.1
  | .clearTrades => some ex.clearTrades
  | .clearEvents => some ex.clearEvents

/-- The operation returns and leads from `ex` to `ex'`. -/
def Step (ex : Exchange) (op : Op) (ex' : Exchange) : Prop := ∃ fuel, ex.perform fuel op = some ex'

/-- `ex'` is reached from `ex` by operations that all returned and all met `C` in the state they
were performed in. -/
def Run (C : Exchange → Op → Prop) : Exchange → Exchange → Prop :=
  Relation.ReflTransGen fun ex ex' ↦ ∃ op, C ex op ∧ ex.Step op ex'

/-- Reachable from `Exchange::new` by any operations. -/
def Reachable (ex : Exchange) : Prop := Run (fun _ _ ↦ True) create ex

/-- A list of operations performed one after another. -/
def performAll (fuel : Nat) (ex : Exchange) (ops : List Op) : Option Exchange :=
  ops.foldlM (fun ex op ↦ ex.perform fuel op) ex

/-- An invariant of the steps of a run holds at its end. -/
theorem Run.invariant {C : Exchange → Op → Prop} {I : Exchange → Prop}
    (hstep : ∀ ex op ex', C ex op → I ex → ex.Step op ex' → I ex') {ex ex' : Exchange}
    (h : Run C ex ex') (hI : I ex) : I ex' := by
  induction h with
  | refl => exact hI
  | tail _ hlast ih =>
      obtain ⟨op, hC, hs⟩ := hlast
      exact hstep _ op _ hC ih hs

theorem Run.mono {C D : Exchange → Op → Prop} (hCD : ∀ ex op, C ex op → D ex op)
    {ex ex' : Exchange} (h : Run C ex ex') : Run D ex ex' := by
  induction h with
  | refl => exact .refl
  | tail _ hlast ih =>
      obtain ⟨op, hC, hs⟩ := hlast
      exact ih.tail ⟨op, hCD _ _ hC, hs⟩

/-- A list of operations that were all performed is a run. -/
theorem run_of_performAll {C : Exchange → Op → Prop} {fuel : Nat} {ops : List Op}
    {ex ex' : Exchange} (hC : ∀ op ∈ ops, ∀ ex, C ex op)
    (h : performAll fuel ex ops = some ex') : Run C ex ex' := by
  induction ops generalizing ex with
  | nil => cases h; exact .refl
  | cons op ops ih =>
      obtain ⟨ex₁, h₁, h₂⟩ := Option.bind_eq_some_iff.mp h
      exact .head ⟨op, hC op List.mem_cons_self ex, fuel, h₁⟩
        (ih (fun op hop ↦ hC op (List.mem_cons_of_mem _ hop)) h₂)

/-- The last of the operations is performed where the others lead. -/
theorem perform_of_performAll {fuel : Nat} {ops : List Op} {op : Op} {ex₀ ex ex' : Exchange}
    (hex : performAll fuel ex₀ ops = some ex) (h : performAll fuel ex₀ (ops ++ [op]) = some ex') :
    ex.perform fuel op = some ex' := by
  rw [performAll, List.foldlM_append] at h
  obtain ⟨ex₁, h₁, h₂⟩ := Option.bind_eq_some_iff.mp h
  obtain rfl : ex₁ = ex := Option.some.inj (h₁.symm.trans hex)
  obtain ⟨ex₂, h₂, h₃⟩ := Option.bind_eq_some_iff.mp h₂
  cases h₃
  exact h₂

/-- A run of operations with one more at its end. -/
theorem Run.concat {C : Exchange → Op → Prop} {fuel : Nat} {ops : List Op} {op : Op}
    {ex ex' : Exchange} (hrun : Run C create ex) (hex : performAll fuel create ops = some ex)
    (hC : C ex op) (h : performAll fuel create (ops ++ [op]) = some ex') : Run C create ex' :=
  hrun.tail ⟨op, hC, fuel, perform_of_performAll hex h⟩

theorem reachable_of_performAll {fuel : Nat} {ops : List Op} {ex : Exchange}
    (h : performAll fuel create ops = some ex) : Reachable ex :=
  run_of_performAll (fun _ _ _ ↦ trivial) h

/-- What is read off a run is read off the exchange it leads to. -/
theorem observe {α : Type} {x : Option Exchange} {ex : Exchange} (h : x = some ex)
    (f : Exchange → α) {a : α} (ha : x.map f = some a) : f ex = a := by
  subst h
  exact Option.some.inj ha

/-! ## Submissions made by an operation -/

/-- `TriggerCalls fuel n ex ex' sub`: within `n` rounds of triggers started in `ex`, a triggered
stop submits `sub` in the state `ex'`. -/
inductive TriggerCalls (fuel : Nat) : Nat → Exchange → Exchange → Submission → Prop
  /-- A stop of this round, after the stops before it. -/
  | child {n : Nat} {ex ex₁ ex₂ : Exchange} {p : Price} {last : Option Price}
      {before after : List StopOrder} {stop : StopOrder} :
      ex.lastTradePrice = some p →
      ex.collectTriggered p = (ex₁, before ++ stop :: after) →
      before.foldlM (submitTriggered fuel) (ex₁, none) = some (ex₂, last) →
      TriggerCalls fuel (n + 1) ex ex₂ stop.submission
  /-- A stop of a later round. -/
  | later {n : Nat} {ex ex₁ ex₂ : Exchange} {sub : Submission} :
      ex.triggerRound fuel = some (.inr ex₁) → TriggerCalls fuel n ex₁ ex₂ sub →
      TriggerCalls fuel (n + 1) ex ex₂ sub

/-- The exchange once an operation has written the event log. -/
def logged (ex : Exchange) (op : Op) : Exchange :=
  match op with
  | .clearEvents => ex.clearEvents
  | op => match op.event with
    | some event => ex.record event
    | none => ex

/-- Only the event log differs. -/
theorem logged_eq (ex : Exchange) (op : Op) :
    ∃ events, ex.logged op = { ex with events := events } := by
  cases op <;> exact ⟨_, rfl⟩

/-- The submission an operation makes itself, and the state it makes it in. -/
def directCall (ex : Exchange) (op : Op) : Option (Exchange × Submission) :=
  match op.method with
  | .submitLimit side price quantity tif =>
      some (ex.logged op, ⟨side, price, quantity, tif, none⟩)
  | .submitLimitWithOwner side price quantity tif owner =>
      some (ex.logged op, ⟨side, price, quantity, tif, some owner⟩)
  | .submitMarket side quantity =>
      some (ex.logged op, ⟨side, side.marketPrice, quantity, .ioc, none⟩)
  | .modify orderId newPrice newQuantity =>
      if newQuantity = 0 then none
      else
        match ex.book.getOrder orderId with
        | some order =>
            if order.isActive then
              some ({ ex.logged op with book := (ex.book.cancelOrder orderId).1 },
                ⟨order.side, newPrice, newQuantity, order.timeInForce, none⟩)
            else none
        | none => none
  | _ => none

/-- The stop order an operation adds. -/
def newStop (ex : Exchange) (op : Op) : Option StopOrder :=
  match op.method with
  | .submitStopMarket side stopPrice quantity =>
      some (ex.nextStop side stopPrice none quantity .gtc none)
  | .submitStopLimit side stopPrice limitPrice quantity tif =>
      some (ex.nextStop side stopPrice (some limitPrice) quantity tif none)
  | .submitTrailingStopMarket side stopPrice quantity trailMethod =>
      some (ex.nextStop side stopPrice none quantity .gtc (some trailMethod))
  | .submitTrailingStopLimit side stopPrice limitPrice quantity tif trailMethod =>
      some (ex.nextStop side stopPrice (some limitPrice) quantity tif (some trailMethod))
  | _ => none

/-- The state in which an operation starts processing triggers, if it gets that far. -/
inductive Triggers (fuel : Nat) (ex : Exchange) (op : Op) : Exchange → Prop
  /-- After the trades of its own submission; `modify` leaves them unprocessed. -/
  | trades {ex₁ ex₂ : Exchange} {sub : Submission} {r : SubmitResult} {t : Trade} :
      (∀ id p q, op ≠ .modify id p q) → ex.directCall op = some (ex₁, sub) →
      ex₁.submitLimitInternalWithOwner fuel sub = some (ex₂, r) → r.trades.getLast? = some t →
      Triggers fuel ex op { ex₂ with lastTradePrice := some t.price }
  /-- After a stop order that the last trade price already triggers. -/
  | stop {order : StopOrder} : ex.newStop op = some order →
      ((ex.logged op).insertStop order).shouldTrigger order = true →
      Triggers fuel ex op ((ex.logged op).insertStop order)

/-- `ex.Calls fuel op ex' sub`: performing `op` from `ex` submits `sub` in the state `ex'`. -/
inductive Calls (fuel : Nat) (ex : Exchange) (op : Op) (ex' : Exchange) (sub : Submission) : Prop
  | direct : ex.directCall op = some (ex', sub) → Calls fuel ex op ex' sub
  | trigger {ex₁ : Exchange} : Triggers fuel ex op ex₁ →
      TriggerCalls fuel maxCascadeDepth ex₁ ex' sub → Calls fuel ex op ex' sub

/-- The book order an operation cancels, when it is not a pending stop. -/
def cancelCall (ex : Exchange) (op : Op) : Option OrderId :=
  match op.method with
  | .cancel orderId => if ex.stopBook.containsPending orderId then none else some orderId
  | .modify orderId _ newQuantity => if newQuantity = 0 then none else some orderId
  | _ => none

end Exchange

end Nanobook
