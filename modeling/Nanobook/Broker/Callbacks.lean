import Nanobook.Broker.Ibkr

/-!
# Duplicate callbacks

The cache of `execute_limit_order` is a filter in front of a loop that has none (`loop_fresh`).  So
it does not matter what the cache holds as long as the same callbacks get through, and copies of a
callback that come while the cache knows it change nothing (`executeLimitOrder_eq_of_copies`).
-/

namespace Nanobook.Ibkr

open Rebalancer (BrokerError)

variable {F : Type} [F64 F]

/-! ## The cache as a filter -/

section Filter

variable (orderId : Int32) (timeout : Nat)

/-- The key under which the cache looks a delivery up, which it does if this is an order status that
comes in time. -/
def lookupKey (d : Delivery F) : Option OrderCallbackKey :=
  if timeout < d.elapsed then none
  else
    match d.response with
    | .orderStatus status => some (callbackKey orderId status)
    | _ => none

def reader : Dedup.Reader (Delivery F) OrderCallbackKey where
  key := lookupKey orderId timeout
  sweptAt := Delivery.sweptAt
  storedAt := Delivery.storedAt
  ttl := ttl

/-- The deliveries that are not skipped as duplicates. -/
def fresh (cache : Option CallbackDedupCache) (ds : List (Delivery F)) : List (Delivery F) :=
  match cache with
  | none => ds
  | some cache => (reader orderId timeout).fresh cache ds

variable (cancel : Option (Except BrokerError Unit)) (s : Progress F) (d : Delivery F)

theorem step_of_timeout_lt {cache : Option CallbackDedupCache} (h : timeout < d.elapsed) :
    step cancel orderId timeout s cache d = (onTimeout cancel s, cache) :=
  if_pos h

theorem step_none_snd : (step cancel orderId timeout s none d).2 = none := by
  rw [step]
  split
  · rfl
  · cases d.response <;> rfl

/-- What the cache does to a step: nothing, or it makes the loop skip the delivery. -/
theorem step_some (cache : CallbackDedupCache) :
    step cancel orderId timeout s (some cache) d =
      match (reader orderId timeout).step cache d with
      | (true, cache) => (.next s, some cache)
      | (false, cache) => ((step cancel orderId timeout s none d).1, some cache) := by
  by_cases ht : timeout < d.elapsed
  · have hkey : (reader orderId timeout).key d = none := if_pos ht
    rw [step_of_timeout_lt _ _ _ _ _ ht, step_of_timeout_lt _ _ _ _ _ ht, Dedup.Reader.step, hkey]
  · have hkey : (reader orderId timeout).key d =
        match d.response with
        | .orderStatus status => some (callbackKey orderId status)
        | _ => none := if_neg ht
    rw [step, step, if_neg ht, if_neg ht, Dedup.Reader.step, hkey]
    cases d.response with
    | orderStatus status =>
        simp only [isDuplicate, reader]
        rcases Dedup.check ttl d.sweptAt d.storedAt (callbackKey orderId status) cache with
          ⟨_ | _, _⟩ <;> rfl
    | openOrder | executionData | commissionReport | message => rfl

/-- The loop with a cache is the loop without one, run on what is not skipped. -/
theorem loop_fresh (ends : Bool) (s : Progress F) (cache : Option CallbackDedupCache)
    (ds : List (Delivery F)) :
    (loop cancel orderId timeout ends s cache ds).1 =
      (loop cancel orderId timeout ends s none (fresh orderId timeout cache ds)).1 := by
  cases cache with
  | none => rfl
  | some cache =>
      simp only [fresh]
      induction ds generalizing s cache with
      | nil => rfl
      | cons d ds ih =>
          rw [loop, step_some, Dedup.Reader.fresh]
          rcases (reader orderId timeout).step cache d with ⟨_ | _, known⟩
          · have hsnd := step_none_snd orderId timeout cancel s d
            simp only [loop]
            rcases hstep : step cancel orderId timeout s none d with ⟨flow, cache'⟩
            rw [hstep] at hsnd
            obtain rfl : cache' = none := hsnd
            cases flow with
            | next s => exact ih s known
            | stop result => rfl
          · exact ih s known

end Filter

/-! ## Calls with an order that is placed -/

/-- The client places the order under this id, with these responses to come. -/
structure Client.Places (client : Client F) (order : LimitOrder) (orderId : Int32)
    (subscription : Subscription F) : Prop where
  nextValidOrderId : client.nextValidOrderId = .ok orderId
  placeOrder : client.placeOrder orderId order.symbol.asStr order.ibOrder = .ok subscription

variable {client client' : Client F} {order : LimitOrder} {orderId : Int32}
  {sub sub' : Subscription F} {timeout : Nat}

theorem executeLimitOrder_eq (h : client.Places order orderId sub)
    (cache : Option CallbackDedupCache) :
    (executeLimitOrder client order cache).1 =
      (loop (cancelOrder client orderId) orderId order.timeout sub.ends Progress.start none
        (fresh orderId order.timeout cache sub.deliveries)).1.map fun result ↦
          result.bind (finish order.symbol orderId order.timeout sub.endElapsed) := by
  simp only [executeLimitOrder, h.nextValidOrderId, h.placeOrder, ← loop_fresh]

/-! ## Copies -/

/-- The same response in another call, on the same side of the timeout. -/
def SameResponse (timeout : Nat) (d d' : Delivery F) : Prop :=
  d.response = d'.response ∧ (timeout < d.elapsed ↔ timeout < d'.elapsed)

/-- A further copy of an order status, both of them within the timeout. -/
def CopyOf (timeout : Nat) (c d : Delivery F) : Prop :=
  (∃ status, d.response = .orderStatus status) ∧ c.response = d.response ∧
    d.elapsed ≤ timeout ∧ c.elapsed ≤ timeout

/-- The second subscription is the first one with copies of its order statuses, each of which comes
after the status and before the cache forgets it.  The two calls need not read the same from the
clock, as long as they agree on what has timed out and on what the cache has forgotten. -/
structure WithCopies (orderId : Int32) (timeout : Nat) (sub sub' : Subscription F) : Prop where
  inserted : (reader orderId timeout).Inserted (SameResponse timeout) (CopyOf timeout) []
    sub.deliveries sub'.deliveries
  ends : sub.ends = sub'.ends
  endElapsed : sub.endElapsed < timeout ↔ sub'.endElapsed < timeout

theorem SameResponse.lookupKey_eq {d d' : Delivery F} (h : SameResponse timeout d d') :
    lookupKey orderId timeout d = lookupKey orderId timeout d' := by
  simp only [lookupKey, h.1, h.2]

theorem CopyOf.lookupKey_eq {c d : Delivery F} (h : CopyOf timeout c d) :
    ∃ key, lookupKey orderId timeout c = some key ∧ lookupKey orderId timeout d = some key := by
  obtain ⟨⟨status, hd⟩, hc, hdt, hct⟩ := h
  refine ⟨callbackKey orderId status, ?_, ?_⟩
  · rw [lookupKey, if_neg (Nat.not_lt.mpr hct), hc, hd]
  · rw [lookupKey, if_neg (Nat.not_lt.mpr hdt), hd]

theorem loop_congr (cancel : Option (Except BrokerError Unit)) (ends : Bool) (s : Progress F)
    {ds ds' : List (Delivery F)} (h : List.Forall₂ (SameResponse timeout) ds ds') :
    loop cancel orderId timeout ends s none ds = loop cancel orderId timeout ends s none ds' := by
  induction h generalizing s with
  | nil => rfl
  | @cons d d' ds ds' hd _ ih =>
      have hstep :
          step cancel orderId timeout s none d = step cancel orderId timeout s none d' := by
        simp only [step, isDuplicate, hd.1, hd.2]
      have hsnd := step_none_snd orderId timeout cancel s d'
      rw [loop, loop, hstep]
      rcases hd' : step cancel orderId timeout s none d' with ⟨_ | _, cache⟩
      · rw [hd'] at hsnd
        obtain rfl : cache = none := hsnd
        exact ih _
      · rfl

/-- A cache without an entry for the order lets the same through with and without copies. -/
theorem fresh_of_withCopies (h : WithCopies orderId timeout sub sub')
    {cache cache' : CallbackDedupCache} (hcache : ∀ key, key.orderId = orderId → cache key = none)
    (hcache' : ∀ key, key.orderId = orderId → cache' key = none) :
    List.Forall₂ (SameResponse timeout) (fresh orderId timeout (some cache) sub.deliveries)
      (fresh orderId timeout (some cache') sub'.deliveries) := by
  refine Dedup.Reader.fresh_of_inserted (fun d d' hd ↦ hd.lookupKey_eq)
    (fun c d hc ↦ hc.lookupKey_eq) h.inserted sub'.forward fun d key hkey ↦ ?_
  have hid : key.orderId = orderId := by
    change lookupKey orderId timeout d = some key at hkey
    rw [lookupKey] at hkey
    split at hkey
    · cases hkey
    · split at hkey
      · cases hkey
        rfl
      · cases hkey
  exact .unseen nofun (hcache key hid) (hcache' key hid)

/-- Copies of order statuses that come before the cache forgets them do not change the result of a
call. -/
theorem executeLimitOrder_eq_of_copies (h : client.Places order orderId sub)
    (h' : client'.Places order orderId sub')
    (hcancel : client.cancelOrder orderId = client'.cancelOrder orderId)
    (hcopies : WithCopies orderId order.timeout sub sub') {cache cache' : CallbackDedupCache}
    (hcache : ∀ key, key.orderId = orderId → cache key = none)
    (hcache' : ∀ key, key.orderId = orderId → cache' key = none) :
    (executeLimitOrder client order (some cache)).1 =
      (executeLimitOrder client' order (some cache')).1 := by
  have hsame : cancelOrder client orderId = cancelOrder client' orderId := by
    rw [cancelOrder, cancelOrder, hcancel]
  have hfinish : finish (F := F) order.symbol orderId order.timeout sub.endElapsed =
      finish order.symbol orderId order.timeout sub'.endElapsed := by
    funext s
    simp only [finish, hcopies.endElapsed]
  rw [executeLimitOrder_eq h, executeLimitOrder_eq h', hsame, hfinish, hcopies.ends,
    loop_congr _ _ _ (fresh_of_withCopies hcopies hcache hcache')]

/-! ### An order for a hundred shares -/

def hundredShares : LimitOrder where
  symbol := (Rebalancer.Symbol.tryNew "AAPL").getD .unknown
  side := .buy
  shares := 100
  limitPriceCents := 500
  clientOrderId := none
  timeout := 30 * 10 ^ 9

/-- A response that is handled after so many seconds. -/
def deliveredAt (seconds : Nat) (response : PlaceOrder (Option Rat)) : Delivery (Option Rat) where
  response := response
  elapsed := seconds * 10 ^ 9
  sweptAt _ := seconds * 10 ^ 9
  storedAt := seconds * 10 ^ 9

/-- So many shares are filled, at five dollars. -/
def filledShares (status : String) (shares : Int) : PlaceOrder (Option Rat) :=
  .orderStatus { status := status, filled := F64.ofInt shares, averageFillPrice := F64.ofInt 5 }

/-- A client that gives an order the id 7. -/
def clientWith (sub : Subscription (Option Rat)) (cancel : CancelSubscription) :
    Client (Option Rat) where
  nextValidOrderId := .ok 7
  placeOrder _ _ _ := .ok sub
  cancelOrder _ := .ok cancel

theorem clientWith_places (sub : Subscription (Option Rat)) (cancel : CancelSubscription) :
    (clientWith sub cancel).Places hundredShares 7 sub :=
  ⟨rfl, rfl⟩

/-- Forty shares and then all of them are filled. -/
def twoFills : Subscription (Option Rat) where
  deliveries :=
    [deliveredAt 1 (filledShares "Submitted" 0), deliveredAt 2 (filledShares "Submitted" 40),
      deliveredAt 4 (filledShares "Filled" 100)]
  ends := true
  endElapsed := 5 * 10 ^ 9
  forward := by simp [deliveredAt]

/-- The first status comes again after the second. -/
def twoFillsCopied : Subscription (Option Rat) where
  deliveries :=
    [deliveredAt 1 (filledShares "Submitted" 0), deliveredAt 2 (filledShares "Submitted" 40),
      deliveredAt 3 (filledShares "Submitted" 0), deliveredAt 4 (filledShares "Filled" 100)]
  ends := true
  endElapsed := 5 * 10 ^ 9
  forward := by simp [deliveredAt]

theorem withCopies_twoFills : WithCopies 7 hundredShares.timeout twoFills twoFillsCopied where
  inserted := by
    refine .original ⟨rfl, Iff.rfl⟩ nofun (.original ⟨rfl, Iff.rfl⟩ ?_ (.copy ?_ ?_
      (.original ⟨rfl, Iff.rfl⟩ ?_ .nil)))
    · intro e he _ _
      obtain rfl := List.mem_singleton.mp he
      exact Iff.rfl
    · exact ⟨_, List.mem_cons_of_mem _ List.mem_cons_self, ⟨_, rfl⟩, rfl, by decide, by decide⟩
    · simp [Dedup.Reader.Live, reader, deliveredAt, ttl]
    · simp [Dedup.Reader.Live, reader, deliveredAt, ttl]
  ends := rfl
  endElapsed := Iff.rfl

theorem executeLimitOrder_eq_of_copies_twoFills :
    (executeLimitOrder (clientWith twoFills ⟨[], true⟩) hundredShares (some fun _ ↦ none)).1 =
      (executeLimitOrder (clientWith twoFillsCopied ⟨[], true⟩) hundredShares
        (some fun _ ↦ none)).1 :=
  executeLimitOrder_eq_of_copies (clientWith_places twoFills ⟨[], true⟩)
    (clientWith_places twoFillsCopied ⟨[], true⟩) rfl withCopies_twoFills (fun _ _ ↦ rfl)
    (fun _ _ ↦ rfl)

end Nanobook.Ibkr
