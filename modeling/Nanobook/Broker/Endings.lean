import Nanobook.Broker.Callbacks

/-!
# How an order ends

Without a cache the loop of `execute_limit_order` reads up to the first delivery that closes the
order: one that comes after the timeout, or a status that says that the order is filled or cancelled
(`loop_none`).  Of what comes before it notes the quantity that was filled last, and notices make no
difference: those that the connection is lost are looked for behind a guard that excludes their
codes.
-/

namespace Nanobook.Ibkr

open Rebalancer (BrokerError)

variable {F : Type} [F64 F]

/-! ## Closing an order -/

/-- The status says how the order ended. -/
def OrderStatus.final (status : OrderStatus F) : Bool :=
  status.status = "Filled" || status.status = "Cancelled"

/-- The loop is left on this delivery, if it is not skipped. -/
def closing (timeout : Nat) (d : Delivery F) : Bool :=
  timeout < d.elapsed ||
    match d.response with
    | .orderStatus status => status.final
    | _ => false

/-- The deliveries that come before the order is closed. -/
def beforeClosing (timeout : Nat) (ds : List (Delivery F)) : List (Delivery F) :=
  ds.takeWhile fun d ↦ !closing timeout d

def reported (d : Delivery F) : Option F :=
  match d.response with
  | .orderStatus status => some status.filled
  | _ => none

/-- What the last status says is filled. -/
def lastFilled (ds : List (Delivery F)) : F := (ds.filterMap reported).getLast?.getD (F64.ofInt 0)

/-- What the loop notes of a delivery. -/
def Progress.note (s : Progress F) (d : Delivery F) : Progress F :=
  match d.response with
  | .orderStatus status =>
      { s with filled := status.filled, avgPrice := status.averageFillPrice }
  | .commissionReport commission => { s with commission := commission }
  | _ => s

def Progress.notes (s : Progress F) (ds : List (Delivery F)) : Progress F := ds.foldl note s

/-- The cancel is rejected for a reason that says that the order is filled. -/
def saysFilled : Option (Except BrokerError Unit) → Bool
  | some (.error (.cancelReject _ reason)) =>
      containsAny (toLowercase reason) ["filled", "completed", "executed"]
  | _ => false

/-- What the loop is left with on a delivery that closes the order. -/
def closed (cancel : Option (Except BrokerError Unit)) (timeout : Nat) (s : Progress F)
    (d : Delivery F) : Option (Except BrokerError (Progress F)) :=
  if timeout < d.elapsed then
    cancel.map fun _ ↦
      .ok { s with finalStatus := if saysFilled cancel then .filled else s.unfilled }
  else
    match d.response with
    | .orderStatus status =>
        some (.ok { s.note d with
          finalStatus := if status.status = "Filled" then .filled else (s.note d).unfilled })
    | _ => none

section Loop

variable {cancel : Option (Except BrokerError Unit)} {orderId : Int32} {timeout : Nat}
  {s : Progress F} {d : Delivery F} {ds : List (Delivery F)}

/-- No notice leaves the loop: the codes of a lost connection do not pass the guard. -/
theorem onMessage_eq (code : Int32) : onMessage orderId s code = .next s := by
  rw [onMessage]
  split
  · next hguard =>
      refine if_neg fun hlost ↦ ?_
      simp only [isDisconnect, Bool.or_eq_true, decide_eq_true_eq] at hlost
      rcases hlost with (rfl | rfl) | rfl <;> exact absurd hguard (by decide)
  · rfl

theorem onTimeout_eq :
    onTimeout cancel s = .stop (cancel.map fun _ ↦
      .ok { s with finalStatus := if saysFilled cancel then .filled else s.unfilled }) := by
  rcases cancel with _ | e | _
  · rfl
  · cases e with
    | cancelReject oid reason =>
        cases h : containsAny (toLowercase reason) ["filled", "completed", "executed"] <;>
          simp only [onTimeout, reconcileFilledOrder, saysFilled, h, Option.map_some] <;> rfl
    | _ => rfl
  · rfl

theorem step_of_not_closing (h : closing timeout d = false) :
    (step cancel orderId timeout s none d).1 = .next (s.note d) := by
  obtain ⟨htime, hresponse⟩ := Bool.or_eq_false_iff.mp h
  rw [step, if_neg (of_decide_eq_false htime), Progress.note]
  cases hd : d.response with
  | orderStatus status =>
      rw [hd] at hresponse
      obtain ⟨hfilled, hcancelled⟩ := Bool.or_eq_false_iff.mp hresponse
      simp only [isDuplicate, onStatus, if_neg (of_decide_eq_false hfilled),
        if_neg (of_decide_eq_false hcancelled)]
  | message code => exact onMessage_eq code
  | openOrder | executionData | commissionReport => rfl

theorem step_of_closing (h : closing timeout d = true) :
    (step cancel orderId timeout s none d).1 = .stop (closed cancel timeout s d) := by
  by_cases htime : timeout < d.elapsed
  · rw [step_of_timeout_lt _ _ _ _ _ htime, closed, if_pos htime, onTimeout_eq]
  · rw [closing, decide_eq_false htime, Bool.false_or] at h
    rw [step, closed, if_neg htime, if_neg htime]
    cases hd : d.response with
    | orderStatus status =>
        rw [hd] at h
        simp only [isDuplicate, onStatus, Progress.note, hd]
        by_cases hfilled : status.status = "Filled"
        · simp only [if_pos hfilled]
        · have hcancelled : status.status = "Cancelled" := by
            rcases Bool.or_eq_true_iff.mp h with hs | hs
            · exact absurd (of_decide_eq_true hs) hfilled
            · exact of_decide_eq_true hs
          simp only [if_neg hfilled, if_pos hcancelled]
    | _ =>
        rw [hd] at h
        cases h

/-- The loop without a cache reads up to the first delivery that closes the order. -/
theorem loop_none (ends : Bool) :
    (loop cancel orderId timeout ends s none ds).1 =
      match ds.find? (closing timeout) with
      | none => if ends then some (.ok (s.notes ds)) else none
      | some d => closed cancel timeout (s.notes (beforeClosing timeout ds)) d := by
  induction ds generalizing s with
  | nil => rfl
  | cons d ds ih =>
      have hsnd := step_none_snd orderId timeout cancel s d
      rw [loop, List.find?_cons, beforeClosing, List.takeWhile_cons]
      rcases hstep : step cancel orderId timeout s none d with ⟨flow, cache⟩
      rw [hstep] at hsnd
      obtain rfl : cache = none := hsnd
      cases hclosing : closing timeout d with
      | true =>
          obtain rfl : flow = _ := (congrArg Prod.fst hstep).symm.trans (step_of_closing hclosing)
          rfl
      | false =>
          obtain rfl : flow = _ :=
            (congrArg Prod.fst hstep).symm.trans (step_of_not_closing hclosing)
          exact ih

end Loop

/-! ## What is noted -/

omit [F64 F] in
theorem Progress.notes_filled (s : Progress F) (ds : List (Delivery F)) :
    (s.notes ds).filled = (ds.filterMap reported).getLast?.getD s.filled := by
  induction ds generalizing s with
  | nil => rfl
  | cons d ds ih =>
      rw [notes, List.foldl_cons]
      refine (ih (s.note d)).trans ?_
      rw [note]
      cases hd : d.response with
      | orderStatus status =>
          rw [List.filterMap_cons_some (by rw [reported, hd]), List.getLast?_cons]
          rfl
      | _ => rw [List.filterMap_cons_none (by rw [reported, hd])]

theorem start_notes_filled (ds : List (Delivery F)) :
    ((Progress.start : Progress F).notes ds).filled = lastFilled ds :=
  Progress.notes_filled _ ds

omit [F64 F] in
theorem Progress.notes_finalStatus (s : Progress F) (ds : List (Delivery F)) :
    (s.notes ds).finalStatus = s.finalStatus := by
  induction ds generalizing s with
  | nil => rfl
  | cons d ds ih =>
      refine (ih (s.note d)).trans ?_
      rw [note]
      cases d.response <;> rfl

variable {client : Client F} {order : LimitOrder} {orderId : Int32} {sub : Subscription F}
  {cache : Option CallbackDedupCache}

/-- The responses the loop gets to see. -/
def Subscription.seen (sub : Subscription F) (orderId : Int32) (timeout : Nat)
    (cache : Option CallbackDedupCache) : List (Delivery F) :=
  fresh orderId timeout cache sub.deliveries

theorem Subscription.mem_of_mem_seen {timeout : Nat} {d : Delivery F}
    (h : d ∈ sub.seen orderId timeout cache) : d ∈ sub.deliveries := by
  cases cache with
  | none => exact h
  | some cache => exact (Dedup.Reader.fresh_sublist cache sub.deliveries).mem h

/-- What a call returns. -/
theorem executeLimitOrder_fst (h : client.Places order orderId sub) :
    (executeLimitOrder client order cache).1 =
      match (sub.seen orderId order.timeout cache).find? (closing order.timeout) with
      | none =>
          if sub.ends then
            some (finish order.symbol orderId order.timeout sub.endElapsed
              (Progress.start.notes (sub.seen orderId order.timeout cache)))
          else none
      | some d =>
          (closed (cancelOrder client orderId) order.timeout
            (Progress.start.notes
              (beforeClosing order.timeout (sub.seen orderId order.timeout cache))) d).map
            fun result ↦
              result.bind (finish order.symbol orderId order.timeout sub.endElapsed) := by
  rw [executeLimitOrder_eq h, loop_none]
  rw [Subscription.seen]
  cases (fresh orderId order.timeout cache sub.deliveries).find? (closing order.timeout) with
  | some d => rfl
  | none =>
      cases sub.ends <;> rfl

/-! ## What is made of it -/

theorem Progress.unfilled_ne_failed (s : Progress F) : s.unfilled ≠ .failed := by
  rw [unfilled]
  split <;> nofun

theorem Progress.unfilled_ne_filled (s : Progress F) : s.unfilled ≠ .filled := by
  rw [unfilled]
  split <;> nofun

theorem Progress.unfilled_eq_cancelled_iff (s : Progress F) :
    s.unfilled = .cancelled ↔ positive s.filled = false := by
  rw [unfilled]
  cases positive s.filled <;> decide

/-- An order that is closed is neither failed nor an error. -/
theorem closed_eq_some {cancel : Option (Except BrokerError Unit)} {timeout : Nat}
    {s : Progress F} {d : Delivery F} {result : Except BrokerError (Progress F)}
    (h : closed cancel timeout s d = some result) :
    ∃ s', result = .ok s' ∧ s'.finalStatus ≠ .failed := by
  rw [closed] at h
  split at h
  · obtain ⟨_, _, rfl⟩ := Option.map_eq_some_iff.mp h
    refine ⟨_, rfl, ?_⟩
    dsimp only
    split
    · nofun
    · exact s.unfilled_ne_failed
  · split at h
    · cases h
      refine ⟨_, rfl, ?_⟩
      dsimp only
      split
      · nofun
      · exact (s.note d).unfilled_ne_failed
    · cases h

theorem finish_of_ne_failed {symbol : Rebalancer.Symbol} {timeout endElapsed : Nat}
    {s : Progress F} (h : s.finalStatus ≠ .failed) :
    finish symbol orderId timeout endElapsed s = .ok {
      symbol := symbol
      orderId := orderId
      filledShares := asI64 s.filled
      avgFillPrice := s.avgPrice
      commission := s.commission
      status := s.finalStatus } :=
  if_neg fun hlost ↦ h hlost.1

theorem finish_eq_ok {symbol : Rebalancer.Symbol} {timeout endElapsed : Nat} {s : Progress F}
    {result : OrderResult F} (h : finish symbol orderId timeout endElapsed s = .ok result) :
    result.status = s.finalStatus ∧ result.filledShares = asI64 s.filled := by
  rw [finish] at h
  split at h
  · cases h
  · cases h
    exact ⟨rfl, rfl⟩

end Nanobook.Ibkr
