import Nanobook.Rebalancer.Execution

/-!
# The forceful kill

`kill.rs`: cancel all open orders at a broker and see whether any are left, again and again for a
bounded number of times, and the adapter it runs over.  What the client below the adapter answers is
up to the environment; waiting between two attempts is left out.
-/

namespace Nanobook.Rebalancer

/-! ## Brokers -/

abbrev OrderId := UInt64

inductive OrderState where
  | pending
  | submitted
  | partiallyFilled
  | filled
  | cancelled
  | rejected
deriving DecidableEq, Repr

structure BrokerOrderStatus where
  id : OrderId
  status : OrderState
  filledQuantity : UInt64
  remainingQuantity : UInt64
  avgFillPriceCents : Int64
deriving DecidableEq

/-- The two methods of the trait that a kill calls.  A call may change what the broker answers
next. -/
class Broker (B : Type) where
  openOrders : B → Except BrokerError (List BrokerOrderStatus) × B
  cancelOrder : OrderId → B → Except BrokerError Unit × B

/-! ## Cancelling with retries -/

structure ForcefulCancelReport where
  attempts : Nat
  cancelledOrderIds : List OrderId
  remainingOrderIds : List OrderId
  errors : List String
deriving DecidableEq, Repr

def ForcefulCancelReport.succeeded (report : ForcefulCancelReport) : Bool :=
  report.remainingOrderIds.isEmpty

/-- An order that is still to be cancelled. -/
def BrokerOrderStatus.isCancellable (order : BrokerOrderStatus) : Bool :=
  match order.status with
  | .pending | .submitted | .partiallyFilled => decide (0 < order.remainingQuantity)
  | .filled | .cancelled | .rejected => false

def cancellableOpenOrders (orders : List BrokerOrderStatus) : List BrokerOrderStatus :=
  orders.filter BrokerOrderStatus.isCancellable

/-- What a kill carries from one attempt to the next. -/
structure CancelProgress where
  cancelledOrderIds : List OrderId
  remainingOrderIds : List OrderId
  errors : List String

def CancelProgress.new : CancelProgress := ⟨[], [], []⟩

def CancelProgress.report (st : CancelProgress) (attempts : Nat) : ForcefulCancelReport :=
  ⟨attempts, st.cancelledOrderIds, st.remainingOrderIds, st.errors⟩

/-- How an attempt ends: no order is left to cancel, the query failed, or cancellations were
requested. -/
inductive AttemptOutcome where
  | allGone
  | queryFailed
  | requested
deriving DecidableEq, Repr

section Cancel

variable {B : Type} [Broker B]

/-- Request the cancellation of each order in turn. -/
def cancelOrders (broker : B) (st : CancelProgress) : List BrokerOrderStatus → CancelProgress × B
  | [] => (st, broker)
  | order :: rest =>
      match Broker.cancelOrder order.id broker with
      | (.ok (), broker) =>
          let cancelled :=
            if st.cancelledOrderIds.contains order.id then st.cancelledOrderIds
            else st.cancelledOrderIds ++ [order.id]
          cancelOrders broker { st with cancelledOrderIds := cancelled } rest
      | (.error e, broker) =>
          let message := "cancel order " ++ toString order.id ++ " failed: " ++ e.toText
          cancelOrders broker { st with errors := st.errors ++ [message] } rest

/-- One attempt, the first of which is attempt 0. -/
def cancelAttempt (attempt : Nat) (broker : B) (st : CancelProgress) :
    AttemptOutcome × CancelProgress × B :=
  match Broker.openOrders broker with
  | (.error e, broker) =>
      let message := "open_orders attempt " ++ toString (attempt + 1) ++ " failed: " ++ e.toText
      (.queryFailed, { st with errors := st.errors ++ [message] }, broker)
  | (.ok orders, broker) =>
      let openOrders := cancellableOpenOrders orders
      if openOrders.isEmpty then (.allGone, { st with remainingOrderIds := [] }, broker)
      else
        (.requested, cancelOrders broker
          { st with remainingOrderIds := openOrders.map BrokerOrderStatus.id } openOrders)

/-- The query after the last attempt. -/
def verifyCancelled (broker : B) (st : CancelProgress) : CancelProgress × B :=
  match Broker.openOrders broker with
  | (.ok orders, broker) =>
      ({ st with remainingOrderIds := (cancellableOpenOrders orders).map BrokerOrderStatus.id },
        broker)
  | (.error e, broker) =>
      let message := "final open_orders verification failed: " ++ e.toText
      ({ st with errors := st.errors ++ [message] }, broker)

/-- The attempts from `attempt` on, with the number of them that may follow it. -/
def cancelAttempts (attempt : Nat) (broker : B) (st : CancelProgress) :
    Nat → ForcefulCancelReport × B
  | 0 =>
      match cancelAttempt attempt broker st with
      | (.requested, st, broker) =>
          let (st, broker) := verifyCancelled broker st
          (st.report (attempt + 1), broker)
      | (.queryFailed, st, broker) => (st.report (attempt + 1), broker)
      | (.allGone, st, broker) => (st.report (attempt + 1), broker)
  | retriesLeft + 1 =>
      match cancelAttempt attempt broker st with
      | (.requested, st, broker) => cancelAttempts (attempt + 1) broker st retriesLeft
      | (.queryFailed, st, broker) => cancelAttempts (attempt + 1) broker st retriesLeft
      | (.allGone, st, broker) => (st.report (attempt + 1), broker)

def forcefulCancelOpenOrdersWithRetry (broker : B) (maxRetries : Nat) : ForcefulCancelReport × B :=
  cancelAttempts 0 broker .new maxRetries

end Cancel

/-! ## The adapter -/

/-- What the client answers when it is asked for the open orders. -/
abbrev OpenOrdersResponse := Except BrokerError (List BrokerOrderStatus)

inductive ClientCall where
  | openOrders (response : OpenOrdersResponse)
  | cancelOrder (orderId : Int32) (response : Except BrokerError Unit)

/-- The client: what it is going to answer to queries and to cancellations, and the calls it got
with its answers. -/
structure IbkrClient where
  openOrdersResponses : Nat → OpenOrdersResponse
  cancelResponses : Nat → Except BrokerError Unit
  calls : List ClientCall

namespace IbkrClient

def openOrders (client : IbkrClient) : OpenOrdersResponse × IbkrClient :=
  (client.openOrdersResponses 0,
    { client with
      openOrdersResponses := fun n ↦ client.openOrdersResponses (n + 1)
      calls := client.calls ++ [.openOrders (client.openOrdersResponses 0)] })

def cancelOrder (orderId : Int32) (client : IbkrClient) : Except BrokerError Unit × IbkrClient :=
  (client.cancelResponses 0,
    { client with
      cancelResponses := fun n ↦ client.cancelResponses (n + 1)
      calls := client.calls ++ [.cancelOrder orderId (client.cancelResponses 0)] })

end IbkrClient

/-- The adapter, with a client once it is connected. -/
structure IbkrBroker where
  client : Option IbkrClient

namespace IbkrBroker

/-- A query that the client fails is answered with an empty list. -/
def openOrders (broker : IbkrBroker) : Except BrokerError (List BrokerOrderStatus) × IbkrBroker :=
  match broker.client with
  | none => (.error .notConnected, broker)
  | some client =>
      match client.openOrders with
      | (.ok orders, client) => (.ok orders, ⟨some client⟩)
      | (.error _, client) => (.ok [], ⟨some client⟩)

def cancelOrder (id : OrderId) (broker : IbkrBroker) : Except BrokerError Unit × IbkrBroker :=
  match broker.client with
  | none => (.error .notConnected, broker)
  | some client =>
      match client.cancelOrder id.toUInt32.toInt32 with
      | (response, client) => (response, ⟨some client⟩)

instance : Broker IbkrBroker where
  openOrders := openOrders
  cancelOrder := cancelOrder

/-- The calls that got through to the client. -/
def calls (broker : IbkrBroker) : List ClientCall := (broker.client.map IbkrClient.calls).getD []

end IbkrBroker

/-! ## A kill over the adapter -/

/-- The query succeeded and showed an order that is still to be cancelled. -/
def OpenOrdersResponse.leavesOrders : OpenOrdersResponse → Bool
  | .ok orders => !(cancellableOpenOrders orders).isEmpty
  | .error _ => false

def OpenOrdersResponse.isFailure : OpenOrdersResponse → Bool
  | .ok _ => false
  | .error _ => true

/-- The answer of a call that is a query. -/
def ClientCall.query : ClientCall → Option OpenOrdersResponse
  | openOrders response => some response
  | cancelOrder _ _ => none

section Kill

variable {client client' : IbkrClient} {st : CancelProgress} {orders : List BrokerOrderStatus}

/-- Cancellations are requested from the client one by one; no query is made, and what is thought to
remain stays. -/
theorem cancelOrders_connected (client : IbkrClient) (st : CancelProgress)
    (orders : List BrokerOrderStatus) :
    ∃ client' calls, (cancelOrders (⟨some client⟩ : IbkrBroker) st orders).2 = ⟨some client'⟩ ∧
      client'.openOrdersResponses = client.openOrdersResponses ∧
      client'.calls = client.calls ++ calls ∧ calls.filterMap ClientCall.query = [] := by
  induction orders generalizing client st with
  | nil => exact ⟨client, [], rfl, rfl, (List.append_nil _).symm, rfl⟩
  | cons order rest ih =>
      have hstep : Broker.cancelOrder order.id (⟨some client⟩ : IbkrBroker) =
          (client.cancelResponses 0, ⟨some (client.cancelOrder order.id.toUInt32.toInt32).2⟩) := rfl
      rw [cancelOrders, hstep]
      cases client.cancelResponses 0 with
      | ok u =>
          obtain ⟨client', calls, hbroker, htape, hcalls, hquery⟩ :=
            ih (client.cancelOrder order.id.toUInt32.toInt32).2 _
          exact ⟨client', _, hbroker, htape, hcalls.trans (List.append_assoc _ _ _), hquery⟩
      | error e =>
          obtain ⟨client', calls, hbroker, htape, hcalls, hquery⟩ :=
            ih (client.cancelOrder order.id.toUInt32.toInt32).2 _
          exact ⟨client', _, hbroker, htape, hcalls.trans (List.append_assoc _ _ _), hquery⟩

/-- The adapter over a client that was asked for its open orders. -/
theorem openOrders_connected (client : IbkrClient) :
    ∃ orders, Broker.openOrders (⟨some client⟩ : IbkrBroker) =
        (.ok orders, ⟨some client.openOrders.2⟩) ∧
      (!(cancellableOpenOrders orders).isEmpty) = (client.openOrdersResponses 0).leavesOrders := by
  cases h : client.openOrdersResponses 0 with
  | ok orders =>
      refine ⟨orders, ?_, rfl⟩
      simp only [Broker.openOrders, IbkrBroker.openOrders, IbkrClient.openOrders, h]
  | error e =>
      refine ⟨[], ?_, rfl⟩
      simp only [Broker.openOrders, IbkrBroker.openOrders, IbkrClient.openOrders, h]

/-- An attempt that finds orders requests their cancellation. -/
theorem cancelAttempt_of_leavesOrders (st : CancelProgress) (attempt : Nat)
    (h : (client.openOrdersResponses 0).leavesOrders = true) :
    ∃ st' client' calls, cancelAttempt attempt (⟨some client⟩ : IbkrBroker) st =
        (.requested, st', ⟨some client'⟩) ∧
      client'.openOrdersResponses = (fun n ↦ client.openOrdersResponses (n + 1)) ∧
      client'.calls = client.calls ++ .openOrders (client.openOrdersResponses 0) :: calls ∧
      calls.filterMap ClientCall.query = [] := by
  obtain ⟨orders, hopen, hleaves⟩ := openOrders_connected client
  rw [h, Bool.not_eq_true'] at hleaves
  set st₁ : CancelProgress := { st with
    remainingOrderIds := (cancellableOpenOrders orders).map BrokerOrderStatus.id } with hst₁
  obtain ⟨client', calls, hbroker, htape, hcalls, hquery⟩ :=
    cancelOrders_connected client.openOrders.2 st₁ (cancellableOpenOrders orders)
  refine ⟨(cancelOrders (⟨some client.openOrders.2⟩ : IbkrBroker) st₁
    (cancellableOpenOrders orders)).1, client', calls, ?_, htape, ?_, hquery⟩
  · simp only [cancelAttempt, hopen, hleaves, Bool.false_eq_true, if_false, ← hst₁]
    exact Prod.ext rfl (Prod.ext rfl hbroker)
  · rw [hcalls, List.append_cons]
    rfl

/-- An attempt that finds none, or whose query fails, is the last. -/
theorem cancelAttempt_of_not_leavesOrders (attempt : Nat)
    (h : (client.openOrdersResponses 0).leavesOrders = false) :
    cancelAttempt attempt (⟨some client⟩ : IbkrBroker) st =
      (.allGone, { st with remainingOrderIds := [] }, ⟨some client.openOrders.2⟩) := by
  obtain ⟨orders, hopen, hleaves⟩ := openOrders_connected client
  rw [h, Bool.not_eq_false'] at hleaves
  simp only [cancelAttempt, hopen, hleaves, if_true]

theorem verifyCancelled_connected (client : IbkrClient) (st : CancelProgress) :
    ∃ st', verifyCancelled (⟨some client⟩ : IbkrBroker) st = (st', ⟨some client.openOrders.2⟩) ∧
      st'.remainingOrderIds.isEmpty = !(client.openOrdersResponses 0).leavesOrders := by
  obtain ⟨orders, hopen, hleaves⟩ := openOrders_connected client
  refine ⟨{ st with remainingOrderIds := (cancellableOpenOrders orders).map BrokerOrderStatus.id },
    by simp only [verifyCancelled, hopen], ?_⟩
  rw [← hleaves, Bool.not_not, List.isEmpty_map]

theorem cancelAttempts_of_not_leavesOrders (attempt n : Nat)
    (h : (client.openOrdersResponses 0).leavesOrders = false) :
    cancelAttempts attempt (⟨some client⟩ : IbkrBroker) st n =
      ({ st with remainingOrderIds := [] }.report (attempt + 1), ⟨some client.openOrders.2⟩) := by
  cases n with
  | zero => simp only [cancelAttempts, cancelAttempt_of_not_leavesOrders attempt h]
  | succ n => simp only [cancelAttempts, cancelAttempt_of_not_leavesOrders attempt h]

/-- A kill ends with a query, and succeeds unless that query leaves orders; the queries before it
all did. -/
theorem cancelAttempts_connected (attempt n : Nat) (client : IbkrClient) (st : CancelProgress) :
    ∃ client' before last, (cancelAttempts attempt (⟨some client⟩ : IbkrBroker) st n).2 =
        ⟨some client'⟩ ∧
      client'.calls = client.calls ++ before ++ [.openOrders last] ∧
      before.filterMap ClientCall.query ++ [last] =
        Retry.answers OpenOrdersResponse.leavesOrders (n + 1) client.openOrdersResponses ∧
      (cancelAttempts attempt (⟨some client⟩ : IbkrBroker) st n).1.succeeded =
        !last.leavesOrders := by
  induction n generalizing attempt client st with
  | zero =>
      cases h : (client.openOrdersResponses 0).leavesOrders with
      | true =>
          obtain ⟨st', client', calls, hattempt, htape, hcalls, hquery⟩ :=
            cancelAttempt_of_leavesOrders st attempt h
          obtain ⟨st'', hverify, hempty⟩ := verifyCancelled_connected client' st'
          have hrun : cancelAttempts attempt (⟨some client⟩ : IbkrBroker) st 0 =
              (st''.report (attempt + 1), ⟨some client'.openOrders.2⟩) := by
            simp only [cancelAttempts, hattempt, hverify]
          rw [htape] at hempty
          refine ⟨client'.openOrders.2, .openOrders (client.openOrdersResponses 0) :: calls,
            client.openOrdersResponses 1, by rw [hrun], ?_, ?_, by rw [hrun]; exact hempty⟩
          · simp only [IbkrClient.openOrders, htape, hcalls]
          · rw [Retry.answers_of_again h, List.filterMap_cons, hquery]
            rfl
      | false =>
          rw [cancelAttempts_of_not_leavesOrders attempt 0 h, Retry.answers_of_not_again h]
          refine ⟨client.openOrders.2, [], client.openOrdersResponses 0, rfl, ?_,
            rfl, by rw [h]; rfl⟩
          rw [List.append_nil]
          rfl
  | succ n ih =>
      cases h : (client.openOrdersResponses 0).leavesOrders with
      | true =>
          obtain ⟨st', client', calls, hattempt, htape, hcalls, hquery⟩ :=
            cancelAttempt_of_leavesOrders st attempt h
          obtain ⟨client'', before, last, hbroker, hcalls', hanswers, hsucceeded⟩ :=
            ih (attempt + 1) client' st'
          have hrun : cancelAttempts attempt (⟨some client⟩ : IbkrBroker) st (n + 1) =
              cancelAttempts (attempt + 1) (⟨some client'⟩ : IbkrBroker) st' n := by
            simp only [cancelAttempts, hattempt]
          refine ⟨client'', .openOrders (client.openOrdersResponses 0) :: calls ++ before, last,
            by rw [hrun, hbroker], ?_, ?_, by rw [hrun, hsucceeded]⟩
          · simp only [hcalls', hcalls, List.append_assoc]
          · rw [htape] at hanswers
            rw [Retry.answers_of_again h, ← hanswers, List.filterMap_append, List.filterMap_cons,
              hquery]
            rfl
      | false =>
          rw [cancelAttempts_of_not_leavesOrders attempt (n + 1) h, Retry.answers_of_not_again h]
          refine ⟨client.openOrders.2, [], client.openOrdersResponses 0, rfl, ?_,
            rfl, by rw [h]; rfl⟩
          rw [List.append_nil]
          rfl

/-- Without a client no query is made, and nothing is thought to remain. -/
theorem cancelAttempts_not_connected (attempt n : Nat) (st : CancelProgress) :
    (cancelAttempts attempt (⟨none⟩ : IbkrBroker) st n).2 = ⟨none⟩ ∧
      (cancelAttempts attempt (⟨none⟩ : IbkrBroker) st n).1.remainingOrderIds =
        st.remainingOrderIds := by
  induction n generalizing attempt st with
  | zero => exact ⟨rfl, rfl⟩
  | succ n ih => exact ih (attempt + 1) _

/-- Success rests on a query that succeeded, showed no order that is still to be cancelled, and
comes after the last cancellation. -/
def Truthful (report : ForcefulCancelReport) (calls : List ClientCall) : Prop :=
  report.succeeded = true → ∃ before orders after,
    calls = before ++ .openOrders (.ok orders) :: after ∧ cancellableOpenOrders orders = [] ∧
      ∀ orderId response, ClientCall.cancelOrder orderId response ∉ after

/-- What a client is going to answer to queries and to cancellations. -/
structure ClientResponses where
  openOrders : Nat → OpenOrdersResponse
  cancelOrder : Nat → Except BrokerError Unit

/-- The adapter before any call, connected or not. -/
def IbkrBroker.new (responses : Option ClientResponses) : IbkrBroker :=
  ⟨responses.map fun r ↦ ⟨r.openOrders, r.cancelOrder, []⟩⟩

theorem OpenOrdersResponse.isFailure_of_leavesOrders {r : OpenOrdersResponse}
    (h : r.leavesOrders = true) : r.isFailure = false := by
  cases r with
  | ok orders => rfl
  | error e => cases h

/-- Where every query but the last left orders, success rests on the last. -/
theorem truthful_iff {report : ForcefulCancelReport} {before : List ClientCall}
    {last : OpenOrdersResponse}
    (hbefore : ∀ q ∈ before.filterMap ClientCall.query, q.leavesOrders = true)
    (hsucceeded : report.succeeded = !last.leavesOrders) :
    Truthful report (before ++ [.openOrders last]) ↔ last.isFailure = false := by
  constructor
  · intro h
    by_contra hfail
    have hlast : last.leavesOrders = false :=
      Bool.eq_false_iff.mpr fun hleaves ↦
      hfail (OpenOrdersResponse.isFailure_of_leavesOrders hleaves)
    obtain ⟨before', orders, after, hcalls, hnone, -⟩ := h (by rw [hsucceeded, hlast]; rfl)
    have hmem : ClientCall.openOrders (.ok orders) ∈ before ++ [.openOrders last] := by
      rw [hcalls]
      simp
    rcases List.mem_append.mp hmem with hmem | hmem
    · have := hbefore (.ok orders) (List.mem_filterMap.mpr ⟨_, hmem, rfl⟩)
      simp [OpenOrdersResponse.leavesOrders, hnone] at this
    · cases List.mem_singleton.mp hmem
      exact hfail rfl
  · intro hok hsuccess
    cases last with
    | error e => cases hok
    | ok orders =>
        rw [hsucceeded] at hsuccess
        refine ⟨before, orders, [], rfl, ?_, fun _ _ ↦ List.not_mem_nil⟩
        simpa [OpenOrdersResponse.leavesOrders] using hsuccess

/-- For every number of retries and every sequence of answers, the report is truthful exactly if the
adapter is connected and no query fails that is made: there are at most two more of them than
retries, and each but the first is made after one that left orders. -/
theorem forcefulCancel_truthful_iff (responses : Option ClientResponses) (maxRetries : Nat) :
    Truthful (forcefulCancelOpenOrdersWithRetry (IbkrBroker.new responses) maxRetries).1
        (forcefulCancelOpenOrdersWithRetry (IbkrBroker.new responses) maxRetries).2.calls ↔
      ∃ r, responses = some r ∧ ∀ k ≤ maxRetries + 1,
        (∀ j < k, (r.openOrders j).leavesOrders = true) → (r.openOrders k).isFailure = false := by
  cases responses with
  | none =>
      obtain ⟨hbroker, hremaining⟩ := cancelAttempts_not_connected 0 maxRetries .new
      refine iff_of_false (fun h ↦ ?_) (by simp)
      obtain ⟨before, orders, after, hcalls, -⟩ := h (List.isEmpty_iff.mpr hremaining)
      have hnil :
        (forcefulCancelOpenOrdersWithRetry (IbkrBroker.new none) maxRetries).2.calls = [] :=
        congrArg IbkrBroker.calls hbroker
      simp [hnil] at hcalls
  | some r =>
      obtain ⟨client, before, last, hbroker, hcalls, hanswers, hsucceeded⟩ :=
        cancelAttempts_connected 0 maxRetries ⟨r.openOrders, r.cancelOrder, []⟩ .new
      have hbefore : ∀ q ∈ before.filterMap ClientCall.query, q.leavesOrders = true := by
        intro q hq
        refine Retry.again_of_mem_dropLast (t := r.openOrders) (n := maxRetries + 1) ?_
        rwa [← hanswers, List.dropLast_concat]
      have hrun : (forcefulCancelOpenOrdersWithRetry (IbkrBroker.new (some r)) maxRetries).2.calls =
          before ++ [.openOrders last] := (congrArg IbkrBroker.calls hbroker).trans hcalls
      have hqueries : (∀ q ∈ Retry.answers OpenOrdersResponse.leavesOrders (maxRetries + 1)
            r.openOrders, q.isFailure = false) ↔ ∀ k ≤ maxRetries + 1,
          (∀ j < k, (r.openOrders j).leavesOrders = true) → (r.openOrders k).isFailure = false :=
        Retry.forall_mem_answers (P := fun q ↦ OpenOrdersResponse.isFailure q = false)
      rw [hrun]
      refine (truthful_iff hbefore hsucceeded).trans ?_
      simp only [Option.some.injEq, exists_eq_left', ← hqueries, ← hanswers, List.forall_mem_append,
        List.forall_mem_singleton]
      exact ⟨fun h ↦ ⟨fun q hq ↦ OpenOrdersResponse.isFailure_of_leavesOrders (hbefore q hq), h⟩,
        And.right⟩

/-! ## A network failure that looks like success -/

/-- A client that fails every query and every cancellation. -/
def disconnected : ClientResponses where
  openOrders _ := .error (.connection "failed to request open orders")
  cancelOrder _ := .error (.order "failed to cancel order")

/-- The kill asks once, is told of no order, and reports success. -/
theorem forcefulCancel_untruthful :
    (forcefulCancelOpenOrdersWithRetry (IbkrBroker.new (some disconnected)) 5).1 =
      ⟨1, [], [], []⟩ ∧
    ¬ Truthful (forcefulCancelOpenOrdersWithRetry (IbkrBroker.new (some disconnected)) 5).1
      (forcefulCancelOpenOrdersWithRetry (IbkrBroker.new (some disconnected)) 5).2.calls := by
  refine ⟨rfl, fun h ↦ ?_⟩
  obtain ⟨before, orders, after, hcalls, -⟩ := h rfl
  have hmem : ClientCall.openOrders (.ok orders) ∈
      [ClientCall.openOrders (disconnected.openOrders 0)] := by
    have hrun : (forcefulCancelOpenOrdersWithRetry (IbkrBroker.new (some disconnected)) 5).2.calls =
        [ClientCall.openOrders (disconnected.openOrders 0)] := rfl
    rw [← hrun, hcalls]
    simp
  cases List.mem_singleton.mp hmem

end Kill

end Nanobook.Rebalancer
