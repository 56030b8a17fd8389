import Nanobook.Broker.Endings

/-!
# Lost connections

A notice that the connection is lost does not end a call to `execute_limit_order`.  What does is
that the subscription ends before the timeout, and this is reported if something was filled by then
(`executeLimitOrder_error_iff`).
-/

namespace Nanobook.Ibkr

open Rebalancer (BrokerError)

variable {F : Type} [F64 F] {client : Client F} {order : LimitOrder} {orderId : Int32}
  {sub : Subscription F} {cache : Option CallbackDedupCache}

/-- The subscription ends before the timeout while the order is open and partly filled. -/
structure EndsSilently (timeout : Nat) (sub : Subscription F) (seen : List (Delivery F)) :
    Prop where
  ends : sub.ends = true
  early : sub.endElapsed < timeout
  opened : seen.find? (closing timeout) = none
  filled : positive (lastFilled seen) = true

/-- The only error of a placed order is that of a connection that is lost without a notice. -/
theorem executeLimitOrder_error_iff (h : client.Places order orderId sub) {e : BrokerError} :
    (executeLimitOrder client order cache).1 = some (.error e) ↔
      EndsSilently order.timeout sub (sub.seen orderId order.timeout cache) ∧
        e = connectionLost orderId (lastFilled (sub.seen orderId order.timeout cache)) := by
  rw [executeLimitOrder_fst h]
  cases hfind : (sub.seen orderId order.timeout cache).find? (closing order.timeout) with
  | some d =>
      constructor
      · intro hresult
        obtain ⟨result, hclosed, hfinish⟩ := Option.map_eq_some_iff.mp hresult
        obtain ⟨s, rfl, hs⟩ := closed_eq_some hclosed
        rw [Except.bind, finish_of_ne_failed hs] at hfinish
        cases hfinish
      · rintro ⟨hsilent, -⟩
        rw [hsilent.opened] at hfind
        cases hfind
  | none =>
      have hstatus := Progress.notes_finalStatus (Progress.start : Progress F)
        (sub.seen orderId order.timeout cache)
      constructor
      · intro hresult
        obtain ⟨hends, hfinish⟩ := Option.ite_none_right_eq_some.mp hresult
        have hfinish := Option.some.inj hfinish
        rw [finish, start_notes_filled] at hfinish
        split at hfinish
        · next hlost =>
            exact ⟨⟨hends, hlost.2.1, hfind, hlost.2.2⟩, (Except.error.inj hfinish).symm⟩
        · cases hfinish
      · rintro ⟨hsilent, rfl⟩
        rw [if_pos hsilent.ends, finish, start_notes_filled,
          if_pos ⟨hstatus, hsilent.early, hsilent.filled⟩]

/-- A notice that the connection is lost comes after `pre`, in time and while the order is open. -/
def LostAfter (timeout : Nat) (ds pre : List (Delivery F)) : Prop :=
  ∃ d post code, ds = pre ++ d :: post ∧ d.response = .message code ∧ isDisconnect code = true ∧
    ∀ x ∈ pre ++ [d], closing timeout x = false

/-- A notice that the connection is lost is reported, with what was filled by then. -/
def ReportsDisconnect (client : Client F) (order : LimitOrder) (cache : Option CallbackDedupCache)
    (orderId : Int32) (sub : Subscription F) : Prop :=
  ∀ pre, LostAfter order.timeout sub.deliveries pre →
    (executeLimitOrder client order cache).1 =
      some (.error (connectionLost orderId (lastFilled (fresh orderId order.timeout cache pre))))

/-- It is reported exactly if the subscription then ends silently, with the same quantity filled. -/
theorem reportsDisconnect_iff (h : client.Places order orderId sub) :
    ReportsDisconnect client order cache orderId sub ↔
      ∀ pre, LostAfter order.timeout sub.deliveries pre →
        EndsSilently order.timeout sub (sub.seen orderId order.timeout cache) ∧
          asI64 (F64.round (lastFilled (sub.seen orderId order.timeout cache))) =
            asI64 (F64.round (lastFilled (fresh orderId order.timeout cache pre))) := by
  refine forall_congr' fun pre ↦ imp_congr_right fun _ ↦ ?_
  rw [executeLimitOrder_error_iff h, connectionLost, connectionLost,
    BrokerError.connectionLost.injEq, eq_comm (a := orderId), eq_self, true_and,
    eq_comm (a := asI64 _)]

/-- A status and then a notice, and the subscription ends. -/
def lostAfterStatus (shares : Int) : Subscription (Option Rat) where
  deliveries :=
    [deliveredAt 1 (filledShares "Submitted" shares), deliveredAt 2 (.message 1100)]
  ends := true
  endElapsed := 3 * 10 ^ 9
  forward := by simp [deliveredAt]

theorem lostAfter_status (shares : Int) {pre : List (Delivery (Option Rat))} :
    LostAfter hundredShares.timeout (lostAfterStatus shares).deliveries pre ↔
      pre = [deliveredAt 1 (filledShares "Submitted" shares)] := by
  constructor
  · rintro ⟨d, post, code, hds, hd, -, -⟩
    rcases pre with _ | ⟨x, _ | ⟨y, pre⟩⟩
    · obtain ⟨rfl, -⟩ := List.cons.inj hds
      cases hd
    · obtain ⟨rfl, -⟩ := List.cons.inj hds
      rfl
    · have hlength := congrArg List.length hds
      simp [lostAfterStatus] at hlength
  · rintro rfl
    refine ⟨_, [], 1100, rfl, rfl, by decide, fun x hx ↦ ?_⟩
    rcases List.mem_cons.mp hx with rfl | hx
    · rfl
    · obtain rfl := List.mem_singleton.mp hx
      rfl

/-- Forty shares are filled before the notice. -/
theorem reportsDisconnect_forty :
    ReportsDisconnect (clientWith (lostAfterStatus 40) ⟨[], true⟩) hundredShares none 7
      (lostAfterStatus 40) := by
  refine (reportsDisconnect_iff (clientWith_places _ _)).mpr fun pre hpre ↦ ?_
  obtain rfl := (lostAfter_status 40).mp hpre
  exact ⟨⟨rfl, by decide, by decide, by decide⟩, rfl⟩

/-- Nothing is filled before the notice. -/
theorem not_reportsDisconnect :
    ¬ReportsDisconnect (clientWith (lostAfterStatus 0) ⟨[], true⟩) hundredShares none 7
      (lostAfterStatus 0) := by
  intro h
  have hresult := h _ ((lostAfter_status 0).mpr rfl)
  have hpositive := ((executeLimitOrder_error_iff (clientWith_places _ _)).mp hresult).1.filled
  exact absurd hpositive (by decide)

end Nanobook.Ibkr
