import Nanobook.Broker.Endings

/-!
# Filled orders and their quantities

An order is reported as filled after a status that says so, or after the timeout if the cancel is
rejected because it was filled before.  The quantity is in both cases that of the last status, which
in the second case came before the order was filled.
-/

namespace Nanobook.Ibkr

open Rebalancer (BrokerError)

variable {F : Type} [F64 F] {client : Client F} {order : LimitOrder} {orderId : Int32}
  {sub : Subscription F} {cache : Option CallbackDedupCache}

/-- A status that says that the order is filled carries the whole quantity, and one that says that
it is cancelled carries a quantity that is zero if it is not positive. -/
structure Carries (shares : Int64) (ds : List (Delivery F)) : Prop where
  filled : ∀ d ∈ ds, ∀ status, d.response = .orderStatus status → status.status = "Filled" →
    asI64 status.filled = shares
  cancelled : ∀ d ∈ ds, ∀ status, d.response = .orderStatus status →
    status.status = "Cancelled" → positive status.filled = false → asI64 status.filled = 0

/-- An order that is reported as filled is reported with all of its shares, and one that is reported
as cancelled with none. -/
def ReportsFullQuantity (client : Client F) (order : LimitOrder)
    (cache : Option CallbackDedupCache) : Prop :=
  ∀ result, (executeLimitOrder client order cache).1 = some (.ok result) →
    (result.status = .filled → result.filledShares = order.shares) ∧
      (result.status = .cancelled → result.filledShares = 0)

/-- What is filled before the timeout is what the answer to the cancel makes of the order. -/
def MatchesCancel (cancel : Option (Except BrokerError Unit)) (shares : Int64) (filled : F) :
    Prop :=
  cancel ≠ none →
    if saysFilled cancel then asI64 filled = shares
    else positive filled = true ∨ asI64 filled = 0

/-- The quantity fits the status. -/
def Progress.FullQuantity (s : Progress F) (shares : Int64) : Prop :=
  (s.finalStatus = .filled → asI64 s.filled = shares) ∧
    (s.finalStatus = .cancelled → asI64 s.filled = 0)

/-- A status that closes the order in time carries the quantity that fits it. -/
theorem fullQuantity_of_closed {cancel : Option (Except BrokerError Unit)} {timeout : Nat}
    {shares : Int64} {s s' : Progress F} {d : Delivery F} {ds : List (Delivery F)}
    (hd : closing timeout d = true) (htime : ¬timeout < d.elapsed) (hcarries : Carries shares ds)
    (hmem : d ∈ ds) (h : closed cancel timeout s d = some (.ok s')) : s'.FullQuantity shares := by
  rw [closed, if_neg htime] at h
  rw [closing, decide_eq_false htime, Bool.false_or] at hd
  split at h
  · next status hresponse =>
      rw [hresponse] at hd
      obtain rfl := Except.ok.inj (Option.some.inj h)
      have hnote : (s.note d).filled = status.filled := by rw [Progress.note, hresponse]
      by_cases hfilled : status.status = "Filled"
      · refine ⟨fun _ ↦ ?_, fun hstatus ↦ ?_⟩
        · exact (congrArg asI64 hnote).trans (hcarries.filled d hmem status hresponse hfilled)
        · rw [if_pos hfilled] at hstatus
          cases hstatus
      · have hcancelled : status.status = "Cancelled" := by
          rcases Bool.or_eq_true_iff.mp hd with hs | hs
          · exact absurd (of_decide_eq_true hs) hfilled
          · exact of_decide_eq_true hs
        refine ⟨fun hstatus ↦ ?_, fun hstatus ↦ ?_⟩
        · rw [if_neg hfilled] at hstatus
          exact absurd hstatus (Progress.unfilled_ne_filled _)
        · rw [if_neg hfilled, Progress.unfilled_eq_cancelled_iff, hnote] at hstatus
          exact (congrArg asI64 hnote).trans
            (hcarries.cancelled d hmem status hresponse hcancelled hstatus)
  · cases h

/-- After the timeout the answer to the cancel has to fit. -/
theorem fullQuantity_iff_of_late {cancel : Option (Except BrokerError Unit)} {timeout : Nat}
    {shares : Int64} {s : Progress F} {d : Delivery F} (htime : timeout < d.elapsed) :
    (∀ s', closed cancel timeout s d = some (.ok s') → s'.FullQuantity shares) ↔
      MatchesCancel cancel shares s.filled := by
  rw [closed, if_pos htime]
  cases cancel with
  | none => exact ⟨fun _ hnone ↦ absurd rfl hnone, fun _ _ h ↦ by cases h⟩
  | some answer =>
      simp only [Option.map_some, Option.some.injEq, Except.ok.injEq, forall_eq', MatchesCancel,
        Progress.FullQuantity, ne_eq, reduceCtorEq, not_false_eq_true, forall_const]
      cases saysFilled (some answer) with
      | true => exact ⟨fun h ↦ h.1 rfl, fun h ↦ ⟨fun _ ↦ h, fun hcancelled ↦ by cases hcancelled⟩⟩
      | false =>
          refine Iff.trans ⟨fun h ↦ h.2, fun h ↦ ⟨fun hfilled ↦ ?_, h⟩⟩ ?_
          · exact absurd hfilled s.unfilled_ne_filled
          · rw [if_neg Bool.false_ne_true, s.unfilled_eq_cancelled_iff, if_neg Bool.false_ne_true]
            cases positive s.filled <;> simp

/-- What is returned of a closed order is what the loop is left with. -/
theorem forall_finished_iff {cancel : Option (Except BrokerError Unit)} {symbol : Rebalancer.Symbol}
    {shares : Int64} {timeout endElapsed : Nat} {s : Progress F} {d : Delivery F} :
    (∀ result : OrderResult F,
      ((closed cancel timeout s d).map fun result ↦
        result.bind (finish symbol orderId timeout endElapsed)) = some (.ok result) →
      (result.status = .filled → result.filledShares = shares) ∧
        (result.status = .cancelled → result.filledShares = 0)) ↔
    ∀ s', closed cancel timeout s d = some (.ok s') → s'.FullQuantity shares := by
  constructor
  · intro h s' hs'
    obtain ⟨_, heq, hfailed⟩ := closed_eq_some hs'
    obtain rfl := Except.ok.inj heq
    rw [hs'] at h
    exact h _ (congrArg some (finish_of_ne_failed hfailed))
  · intro h result hresult
    obtain ⟨left, hclosed, hfinish⟩ := Option.map_eq_some_iff.mp hresult
    obtain ⟨s', rfl, -⟩ := closed_eq_some hclosed
    obtain ⟨hstatus, hfilled⟩ := finish_eq_ok hfinish
    rw [hstatus, hfilled]
    exact h s' hclosed

/-- Where the timeout comes first, all depends on the answer to the cancel. -/
theorem reportsFullQuantity_iff_matchesCancel (h : client.Places order orderId sub)
    {d : Delivery F}
    (hfind : (sub.seen orderId order.timeout cache).find? (closing order.timeout) = some d)
    (htime : order.timeout < d.elapsed) :
    ReportsFullQuantity client order cache ↔
      MatchesCancel (cancelOrder client orderId) order.shares
        (lastFilled (beforeClosing order.timeout (sub.seen orderId order.timeout cache))) := by
  rw [ReportsFullQuantity, executeLimitOrder_fst h, hfind]
  rw [forall_finished_iff, fullQuantity_iff_of_late htime, start_notes_filled]

/-- The quantity is right exactly if the order is closed by a status, or by a cancel whose answer
fits what was filled before the timeout. -/
theorem reportsFullQuantity_iff (h : client.Places order orderId sub)
    (hcarries : Carries order.shares sub.deliveries) :
    ReportsFullQuantity client order cache ↔
      ∀ d, (sub.seen orderId order.timeout cache).find? (closing order.timeout) = some d →
        order.timeout < d.elapsed →
          MatchesCancel (cancelOrder client orderId) order.shares
            (lastFilled (beforeClosing order.timeout (sub.seen orderId order.timeout cache))) := by
  cases hfind : (sub.seen orderId order.timeout cache).find? (closing order.timeout) with
  | none =>
      -- The subscription ended while the order was open, and the status says that it failed.
      refine ⟨fun _ _ hd ↦ (by cases hd), fun _ result hresult ↦ ?_⟩
      rw [executeLimitOrder_fst h, hfind] at hresult
      obtain ⟨-, hfinish⟩ := Option.ite_none_right_eq_some.mp hresult
      obtain ⟨hstatus, -⟩ := finish_eq_ok (Option.some.inj hfinish)
      rw [Progress.notes_finalStatus] at hstatus
      rw [hstatus]
      exact ⟨nofun, nofun⟩
  | some d =>
      by_cases htime : order.timeout < d.elapsed
      · rw [reportsFullQuantity_iff_matchesCancel h hfind htime]
        refine ⟨fun hmatches _ _ _ ↦ hmatches, fun hmatches ↦ hmatches d rfl htime⟩
      · refine ⟨fun _ x hx hlate ↦ ?_, fun _ ↦ ?_⟩
        · cases hx
          exact absurd hlate htime
        · rw [ReportsFullQuantity, executeLimitOrder_fst h, hfind]
          exact forall_finished_iff.mpr fun s' hs' ↦
            fullQuantity_of_closed (List.find?_some hfind) htime hcarries
              (Subscription.mem_of_mem_seen (List.mem_of_find?_eq_some hfind)) hs'

/-- So many shares are filled by the time the order is cancelled. -/
def lateOrder (shares : Int) : Subscription (Option Rat) where
  deliveries :=
    [deliveredAt 1 (filledShares "Submitted" shares),
      deliveredAt 31 (filledShares "Submitted" shares)]
  ends := true
  endElapsed := 32 * 10 ^ 9
  forward := by simp [deliveredAt]

/-- The broker says that there is nothing left to cancel. -/
def alreadyFilled : CancelSubscription := ⟨[.notice "Order already filled"], true⟩

theorem cancelOrder_alreadyFilled (sub : Subscription (Option Rat)) :
    cancelOrder (clientWith sub alreadyFilled) 7 =
      some (.error (.cancelReject 7 "Order already filled")) :=
  rfl

theorem lateOrder_carries (shares : Int) :
    Carries hundredShares.shares (lateOrder shares).deliveries := by
  have hstatus : ∀ d ∈ (lateOrder shares).deliveries, ∀ status,
      d.response = .orderStatus status → status.status = "Submitted" := by
    simp [lateOrder, deliveredAt, filledShares]
  refine ⟨fun d hd status hresponse hs ↦ ?_, fun d hd status hresponse hs ↦ ?_⟩
  all_goals
    rw [hstatus d hd status hresponse] at hs
    exact absurd hs (by decide)

theorem reportsFullQuantity_hundred :
    ReportsFullQuantity (clientWith (lateOrder 100) alreadyFilled) hundredShares none := by
  refine (reportsFullQuantity_iff (clientWith_places _ _) (lateOrder_carries 100)).mpr
    fun _ _ _ ↦ ?_
  rw [cancelOrder_alreadyFilled]
  exact fun _ ↦ by decide

/-- Forty shares are filled in time, and then all of them before the cancel. -/
theorem not_reportsFullQuantity :
    Carries hundredShares.shares (lateOrder 40).deliveries ∧
      ¬ReportsFullQuantity (clientWith (lateOrder 40) alreadyFilled) hundredShares none := by
  refine ⟨lateOrder_carries 40, fun h ↦ ?_⟩
  have hmatches := (reportsFullQuantity_iff_matchesCancel (clientWith_places _ _)
    (d := deliveredAt 31 (filledShares "Submitted" 40)) rfl (by decide)).mp h
  rw [cancelOrder_alreadyFilled] at hmatches
  exact absurd (hmatches nofun) (by decide)

end Nanobook.Ibkr
