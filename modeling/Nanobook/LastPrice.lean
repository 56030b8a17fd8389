import Nanobook.Invariant.StopBook
import Nanobook.Invariant.Exchange

/-!
# The last trade price and the stops it triggers

Applying an event ends with the stops settled: the last trade price is the price of the last
recorded trade, and no pending stop other than a trailing one is reached by it.  A cascade is left
when nothing triggers, when what triggered did not trade, or after `maxCascadeDepth` rounds.  A
round that goes on takes at least one stop off the book, so with no more stops than rounds the third
exit finds nothing pending.
-/

namespace Nanobook

namespace Exchange

variable {ex ex' : Exchange} {fuel : Nat}

/-- The last trade price is the price of the last recorded trade. -/
def Synced (ex : Exchange) : Prop := ex.lastTradePrice = ex.trades.getLast?.map Trade.price

/-- No pending stop other than a trailing one is reached by the last trade price. -/
def AtRest (ex : Exchange) : Prop :=
  ∀ id o p, ex.stopBook.Pending id o → o.trailMethod = none → ex.lastTradePrice = some p →
    StopBook.reachedBy o p = false

/-! ## Cascades -/

/-- The submissions of one round add their trades, and report the price of the last one. -/
theorem foldlM_submitTriggered_spec {triggered : List StopOrder}
    {acc acc' : Exchange × Option Price}
    (h : triggered.foldlM (submitTriggered fuel) acc = some acc') :
    ∃ ts, acc'.1.trades = acc.1.trades ++ ts ∧ acc'.2 = (ts.getLast?.map Trade.price).or acc.2 ∧
      acc'.1.stopBook = acc.1.stopBook ∧ acc'.1.lastTradePrice = acc.1.lastTradePrice := by
  induction triggered generalizing acc with
  | nil =>
      cases h
      exact ⟨[], (List.append_nil _).symm, rfl, rfl, rfl⟩
  | cons stop rest ih =>
      obtain ⟨acc₁, h₁, h₂⟩ := Option.bind_eq_some_iff.mp h
      obtain ⟨⟨ex₁, r⟩, hsub, hacc⟩ := Option.bind_eq_some_iff.mp h₁
      cases hacc
      obtain ⟨hstops, hlast, -, -, htrades, -⟩ := submit_frame hsub
      obtain ⟨ts, hts, hprice, hsb, hlp⟩ := ih h₂
      refine ⟨r.trades ++ ts, ?_, ?_, hsb.trans hstops, hlp.trans hlast⟩
      · rw [hts, htrades, List.append_assoc]
      · rw [hprice, List.getLast?_append]
        cases ts.getLast? <;> rfl

/-- No stop is left that was reached at the price whose stops were triggered. -/
theorem atRest_of_collectTriggered (hw : ex.stopBook.WF) {p : Price}
    (hsb : ex'.stopBook = (ex.collectTriggered p).1.stopBook)
    (hlast : ex'.lastTradePrice = some p) : ex'.AtRest := by
  intro id o q ho _ hq
  rw [hlast] at hq
  cases hq
  rw [hsb] at ho
  exact ((StopBook.updateTrailingStops_spec hw p).1.collects p).left id o ho

/-- What is triggered is not pending any more. -/
theorem length_pendingIds_collectTriggered (hw : ex.stopBook.WF) (p : Price) :
    (ex.collectTriggered p).1.stopBook.pendingIds.length + (ex.collectTriggered p).2.length =
      ex.stopBook.pendingIds.length := by
  obtain ⟨hw₁, hretrails⟩ := StopBook.updateTrailingStops_spec hw p
  rw [← hretrails.pendingIds]
  exact (hw₁.collects p).pendingIds

/-- One round from an exchange that is in step with its trades. -/
theorem triggerRound_settles {x : Exchange ⊕ Exchange} (hw : ex.stopBook.WF) (hs : ex.Synced)
    (h : ex.triggerRound fuel = some x) :
    match x with
    | .inl ex' => ex'.Synced ∧ ex'.AtRest ∧ ex'.stopBook.WF
    | .inr ex' => ex'.Synced ∧ ex'.stopBook.WF ∧
        ex'.stopBook.pendingIds.length < ex.stopBook.pendingIds.length := by
  simp only [triggerRound] at h
  split at h
  · next hnone =>
      cases h
      refine ⟨hs, fun id o p _ _ hp ↦ ?_, hw⟩
      rw [hnone] at hp
      cases hp
  · next p hp =>
      have hcol := (StopBook.updateTrailingStops_spec hw p).1.collects p
      split_ifs at h with hempty
      · cases h
        exact ⟨hs, atRest_of_collectTriggered hw rfl hp, hcol.wf⟩
      · obtain ⟨acc, hfold, h⟩ := Option.bind_eq_some_iff.mp h
        obtain ⟨ts, hts, hprice, hsb, hlp⟩ := foldlM_submitTriggered_spec hfold
        have htrades : acc.1.trades = ex.trades ++ ts := hts
        have hlast : acc.1.lastTradePrice = some p := hlp.trans hp
        have hwf : acc.1.stopBook.WF := hsb ▸ hcol.wf
        rw [Option.or_none] at hprice
        split at h
        · next q hq =>
            cases h
            obtain ⟨t, ht, hpt⟩ := Option.map_eq_some_iff.mp (hprice.symm.trans hq)
            refine ⟨?_, hwf, ?_⟩
            · rw [Synced, htrades, List.getLast?_append, ht, ← hpt]
              rfl
            · have hcount := length_pendingIds_collectTriggered hw p
              have hne : (ex.collectTriggered p).2 ≠ [] := fun hnil ↦ hempty (by rw [hnil]; rfl)
              have hpos : 0 < (ex.collectTriggered p).2.length := List.length_pos_iff.mpr hne
              rw [← hsb] at hcount
              dsimp only
              lia
        · next hq =>
            cases h
            have hnil : ts = [] := by
              rw [hprice, Option.map_eq_none_iff, List.getLast?_eq_none_iff] at hq
              exact hq
            refine ⟨?_, atRest_of_collectTriggered hw hsb hlast, hwf⟩
            rw [Synced, htrades, hnil, List.append_nil, hlast, ← hp]
            exact hs

/-- With no more pending stops than rounds, a cascade leaves none behind. -/
theorem triggerRounds_settles {n : Nat} (hw : ex.stopBook.WF) (hs : ex.Synced)
    (hn : ex.stopBook.pendingIds.length ≤ n) (h : triggerRounds fuel n ex = some ex') :
    ex'.Synced ∧ ex'.AtRest ∧ ex'.stopBook.WF := by
  induction n generalizing ex with
  | zero =>
      cases h
      refine ⟨hs, fun id o p ho ↦ ?_, hw⟩
      have hmem := StopBook.mem_pendingIds.mpr ⟨o, ho⟩
      rw [List.length_eq_zero_iff.mp (Nat.le_zero.mp hn)] at hmem
      cases hmem
  | succ n ih =>
      obtain ⟨x, hx, h⟩ := Option.bind_eq_some_iff.mp h
      have hround := triggerRound_settles hw hs hx
      cases x with
      | inl ex₁ =>
          cases h
          exact hround
      | inr ex₁ =>
          obtain ⟨hs₁, hw₁, hlt⟩ := hround
          exact ih hw₁ hs₁ (by lia) h

/-! ## Events -/

/-- What applying events keeps. -/
structure Settled (ex : Exchange) : Prop where
  wf : ex.WF
  stops : ex.stopBook.WF
  synced : ex.Synced
  quiet : ex.AtRest

/-- An event is applied, and no more than `n` stops are pending at once, the one it adds
included. -/
def AppliesWithin (n : Nat) (ex : Exchange) (op : Op) : Prop :=
  (∃ event, op = .apply event) ∧ ex.stopBook.pendingCount + (ex.newStop op).toList.length ≤ n

theorem Settled.onTrades {ex₁ : Exchange} {sub : Submission} {r : SubmitResult}
    (hw : ex.stopBook.WF) (hs : ex.Synced) (hq : ex.AtRest)
    (hn : ex.stopBook.pendingIds.length ≤ maxCascadeDepth)
    (h₁ : ex.submitLimitInternalWithOwner fuel sub = some (ex₁, r))
    (h₂ : ex₁.onTrades fuel r.trades = some ex') : ex'.Synced ∧ ex'.AtRest ∧ ex'.stopBook.WF := by
  obtain ⟨hstops, hlast, -, -, htrades, -⟩ := submit_frame h₁
  simp only [Exchange.onTrades] at h₂
  split at h₂
  · next hnone =>
      cases h₂
      rw [List.getLast?_eq_none_iff.mp hnone, List.append_nil] at htrades
      refine ⟨?_, fun id o p ho ht hp ↦ ?_, hstops ▸ hw⟩
      · rw [Synced, htrades, hlast]
        exact hs
      · rw [hstops] at ho
        rw [hlast] at hp
        exact hq id o p ho ht hp
  · next last ht =>
      refine triggerRounds_settles ?_ ?_ ?_ h₂
      · exact hstops ▸ hw
      · rw [Synced, htrades, List.getLast?_append, ht]
        rfl
      · dsimp only
        rw [hstops]
        exact hn

/-- A new stop waits or is processed at once. -/
theorem Settled.newStop {op : Op} {order : StopOrder} (h : ex.Settled)
    (hn : ex.stopBook.pendingCount + 1 ≤ maxCascadeDepth) (hstop : ex.newStop op = some order)
    (hp : ex.perform fuel op = some ex') : ex'.Synced ∧ ex'.AtRest ∧ ex'.stopBook.WF := by
  obtain ⟨events, hlog⟩ := ex.logged_eq op
  have horder : order.id = ex.book.nextOrderId ∧ order.status = .pending := by
    simp only [Exchange.newStop] at hstop
    split at hstop <;> cases hstop <;> exact ⟨rfl, rfl⟩
  have hfresh : ex.stopBook.orders.get? order.id = none := by
    cases hget : ex.stopBook.orders.get? order.id with
    | none => rfl
    | some o =>
        have hlt := (h.wf.stops _ _ hget).lt
        rw [horder.1] at hlt
        exact absurd hlt (lt_irrefl _)
  have hw : (ex.stopBook.insert order).WF := h.stops.insert hfresh horder.2
  rw [perform_newStop hstop, hlog] at hp
  split_ifs at hp with hnow
  · refine triggerRounds_settles hw ?_ ?_ hp
    · exact h.synced
    have hcount := StopBook.pendingIds_insert hfresh horder.2
    rw [h.stops.pendingCount_eq] at hn
    simp only [Exchange.insertStop]
    lia
  · cases hp
    refine ⟨h.synced, fun id o p ho ht hlast ↦ ?_, hw⟩
    have horders :
      (ex.stopBook.insert order).orders = ex.stopBook.orders.insert order.id order := by
      simp only [StopBook.insert, StopBook.orders_updateStops]
    have ho' := (StopBook.pending_insert horders id o).mp ho
    split_ifs at ho' with hid
    · -- the new order: it did not trigger, so the price does not reach it
      obtain ⟨rfl, -⟩ := ho'
      have hlast' : ex.lastTradePrice = some p := hlast
      simp only [shouldTrigger, Exchange.insertStop, ht, hlast'] at hnow
      rw [StopBook.reachedBy]
      cases hside : o.side with
      | buy => simpa [hside] using hnow
      | sell => simpa [hside] using hnow
    · exact h.quiet id o p ho' ht hlast

/-- A submission of an event's own, in a state that differs from a settled one in book and log
only. -/
theorem Settled.submit_onTrades {ex₁ ex₂ : Exchange} {sub : Submission} {r : SubmitResult}
    (h : ex.Settled) (hcount : ex.stopBook.pendingIds.length ≤ maxCascadeDepth)
    (hsb : ex₁.stopBook = ex.stopBook) (htr : ex₁.trades = ex.trades)
    (hlp : ex₁.lastTradePrice = ex.lastTradePrice)
    (h₁ : ex₁.submitLimitInternalWithOwner fuel sub = some (ex₂, r))
    (h₂ : ex₂.onTrades fuel r.trades = some ex') :
    ex'.Synced ∧ ex'.AtRest ∧ ex'.stopBook.WF := by
  refine Settled.onTrades ?_ ?_ ?_ ?_ h₁ h₂
  · exact hsb ▸ h.stops
  · rw [Synced, hlp, htr]
    exact h.synced
  · intro id o p ho ht hp
    rw [hsb] at ho
    rw [hlp] at hp
    exact h.quiet id o p ho ht hp
  · rw [hsb]
    exact hcount

/-- A cancelled stop is reached by no price any more, and the others are as they were. -/
theorem Settled.cancelInternal (h : ex.Settled) (id : OrderId) :
    ((ex.record (.cancel id)).cancelInternal id).1.Synced ∧
      ((ex.record (.cancel id)).cancelInternal id).1.AtRest ∧
      ((ex.record (.cancel id)).cancelInternal id).1.stopBook.WF := by
  rcases (ex.record (.cancel id)).cancelInternal_cases id with ⟨hp, heq⟩ | ⟨hp, heq⟩
  · rw [heq]
    refine ⟨h.synced, fun j o p ho ht hlast ↦ ?_, h.stops.cancel id⟩
    obtain ⟨o', ho'⟩ := StopBook.containsPending_iff.mp hp
    have horders : (ex.stopBook.cancel id).orders =
        ex.stopBook.orders.insert id { o' with status := .cancelled } := by
      rw [StopBook.cancel_of_pending (show ex.stopBook.Pending id o' from ho')]
    have hold := (StopBook.pending_insert horders j o).mp ho
    split_ifs at hold with hj
    · cases hold.2
    · exact h.quiet j o p hold ht hlast
  · rw [heq]
    exact ⟨h.synced, h.quiet, h.stops⟩

theorem Settled.step {op : Op} (h : ex.Settled) (hC : ex.AppliesWithin maxCascadeDepth op)
    (hs : ex.Step op ex') : ex'.Settled := by
  obtain ⟨⟨event, rfl⟩, hn⟩ := hC
  have hwf := hs.wf h.wf
  obtain ⟨fuel, hs⟩ := hs
  have hcount : ex.stopBook.pendingIds.length ≤ maxCascadeDepth := by
    rw [← h.stops.pendingCount_eq]
    lia
  suffices hsuf : ex'.Synced ∧ ex'.AtRest ∧ ex'.stopBook.WF from ⟨hwf, hsuf.2.2, hsuf.1, hsuf.2.1⟩
  have hdirect : ∀ {sub : Submission}, (∀ id p q, (Op.apply event).method ≠ .modify id p q) →
      ex.directCall (.apply event) = some (ex.logged (.apply event), sub) →
      ex'.Synced ∧ ex'.AtRest ∧ ex'.stopBook.WF := by
    intro sub hm hcall
    rw [perform_submission hm hcall] at hs
    obtain ⟨⟨ex₂, r⟩, h₁, h₂⟩ := Option.bind_eq_some_iff.mp hs
    refine h.submit_onTrades hcount ?_ ?_ ?_ h₁ h₂ <;> rfl
  cases event with
  | submitLimit side price quantity tif => exact hdirect (by simp [Op.method, Event.op]) rfl
  | submitMarket side quantity => exact hdirect (by simp [Op.method, Event.op]) rfl
  | cancel id =>
      cases hs
      exact h.cancelInternal id
  | modify id p q =>
      obtain ⟨⟨ex₁, r⟩, hr, rfl⟩ := Option.map_eq_some_iff.mp hs
      obtain ⟨⟨ex₂, r₂⟩, h₁, hr⟩ := Option.bind_eq_some_iff.mp hr
      obtain ⟨ex₃, h₂, hr⟩ := Option.bind_eq_some_iff.mp hr
      cases hr
      cases hcall : ex.directCall (.apply (.modify id p q)) with
      | none =>
          obtain ⟨r', htr, hmod⟩ := modifyInternal_of_directCall_none ex
            (ex.logged (.apply (.modify id p q))) (.apply (.modify id p q)) rfl rfl hcall
          cases (hmod fuel).symm.trans h₁
          simp only [htr, Exchange.onTrades, List.getLast?_nil] at h₂
          cases h₂
          exact ⟨h.synced, h.quiet, h.stops⟩
      | some y =>
          obtain ⟨ex₄, sub⟩ := y
          obtain ⟨n, hmod⟩ :=
            modifyInternal_of_directCall_some (.apply (.modify id p q)) rfl rfl rfl hcall
          obtain ⟨o, -, -, -, rfl, -⟩ := directCall_modify rfl hcall
          obtain ⟨⟨ex₅, r₅⟩, hsub, heq⟩ := Option.map_eq_some_iff.mp ((hmod fuel).symm.trans h₁)
          cases heq
          refine h.submit_onTrades hcount ?_ ?_ ?_ hsub h₂ <;> rfl
  | submitStopMarket side stopPrice quantity => exact h.newStop hn rfl hs
  | submitStopLimit side stopPrice limitPrice quantity tif => exact h.newStop hn rfl hs
  | submitTrailingStopMarket side stopPrice quantity trailMethod => exact h.newStop hn rfl hs
  | submitTrailingStopLimit side stopPrice limitPrice quantity tif trailMethod =>
      exact h.newStop hn rfl hs

theorem settled_create (policy : StpPolicy) : (create.withStpPolicy policy).Settled where
  wf := ⟨wf_create.book, wf_create.stops⟩
  stops := StopBook.wf_create
  synced := rfl
  quiet _ _ _ ho := by cases ho.1

/-- After any events applied with at most 100 stops pending at once, the last trade price is the
price of the most recent trade, or `none` before the first, and no pending stop that does not trail
is triggered by it. -/
theorem lastTradePrice_of_run (policy : StpPolicy)
    (h : Run (AppliesWithin 100) (create.withStpPolicy policy) ex) :
    (ex.lastTradePrice = none ↔ ex.trades = []) ∧
      ex.lastTradePrice = ex.trades.getLast?.map Trade.price ∧
      ∀ p id o, ex.lastTradePrice = some p → ex.stopBook.get id = some o → o.status = .pending →
        o.trailMethod = none →
        (o.side = .buy → p < o.stopPrice) ∧ (o.side = .sell → o.stopPrice < p) := by
  have hset : ex.Settled := Run.invariant (I := Settled)
    (fun _ _ _ hC hset hs ↦ hset.step hC hs) h (settled_create policy)
  refine ⟨?_, hset.synced, fun p id o hp ho hs ht ↦ ?_⟩
  · rw [hset.synced, Option.map_eq_none_iff, List.getLast?_eq_none_iff]
  · have hr := hset.quiet id o p ⟨ho, hs⟩ ht hp
    rw [StopBook.reachedBy] at hr
    constructor
    · intro hside
      simpa [hside] using hr
    · intro hside
      simpa [hside] using hr

/-- A trade at 100 triggers a stop, which buys at 102; the other stop waits at 110. -/
theorem lastTradePrice_of_run_cascade :
    ∃ ex, performAll 5 create [.apply (.submitLimit .sell 100 5 .gtc),
        .apply (.submitLimit .sell 102 5 .gtc), .apply (.submitStopMarket .buy 100 5),
        .apply (.submitStopMarket .buy 110 5), .apply (.submitLimit .buy 100 5 .gtc)] = some ex ∧
      ex.trades.map Trade.price = [100, 102] ∧ ex.lastTradePrice = some 102 ∧
      ∃ o, ex.stopBook.get 4 = some o ∧ o.status = .pending ∧ (102 : Price) < o.stopPrice := by
  obtain ⟨ex₁, hex₁⟩ :
    ∃ ex, performAll 5 create [.apply (.submitLimit .sell 100 5 .gtc)] = some ex :=
    ⟨_, rfl⟩
  obtain ⟨ex₂, hex₂⟩ : ∃ ex, performAll 5 create [.apply (.submitLimit .sell 100 5 .gtc),
      .apply (.submitLimit .sell 102 5 .gtc)] = some ex := ⟨_, rfl⟩
  obtain ⟨ex₃, hex₃⟩ : ∃ ex, performAll 5 create [.apply (.submitLimit .sell 100 5 .gtc),
      .apply (.submitLimit .sell 102 5 .gtc), .apply (.submitStopMarket .buy 100 5)] = some ex :=
    ⟨_, rfl⟩
  obtain ⟨ex₄, hex₄⟩ : ∃ ex, performAll 5 create [.apply (.submitLimit .sell 100 5 .gtc),
      .apply (.submitLimit .sell 102 5 .gtc), .apply (.submitStopMarket .buy 100 5),
      .apply (.submitStopMarket .buy 110 5)] = some ex := ⟨_, rfl⟩
  obtain ⟨ex, hex⟩ : ∃ ex, performAll 5 create [.apply (.submitLimit .sell 100 5 .gtc),
      .apply (.submitLimit .sell 102 5 .gtc), .apply (.submitStopMarket .buy 100 5),
      .apply (.submitStopMarket .buy 110 5), .apply (.submitLimit .buy 100 5 .gtc)] = some ex :=
    ⟨_, rfl⟩
  have hwithin : ∀ {ex : Exchange} {event : Event}, ex.stopBook.pendingCount ≤ 2 →
      ex.AppliesWithin 100 (.apply event) := by
    intro ex event hcount
    refine ⟨⟨event, rfl⟩, ?_⟩
    cases ex.newStop (.apply event) <;> simp <;> lia
  have hcount₁ := observe hex₁ (fun ex ↦ ex.stopBook.pendingCount) (a := 0) rfl
  have hcount₂ := observe hex₂ (fun ex ↦ ex.stopBook.pendingCount) (a := 0) rfl
  have hcount₃ := observe hex₃ (fun ex ↦ ex.stopBook.pendingCount) (a := 1) rfl
  have hcount₄ := observe hex₄ (fun ex ↦ ex.stopBook.pendingCount) (a := 2) rfl
  have hrun₁ : Run (AppliesWithin 100) create ex₁ :=
    Run.concat .refl (rfl : performAll 5 create [] = some create) (hwithin (by decide)) hex₁
  have hrun₂ := Run.concat hrun₁ hex₁ (hwithin (by lia)) hex₂
  have hrun₃ := Run.concat hrun₂ hex₂ (hwithin (by lia)) hex₃
  have hrun₄ := Run.concat hrun₃ hex₃ (hwithin (by lia)) hex₄
  have hrun : Run (AppliesWithin 100) create ex := Run.concat hrun₄ hex₄ (hwithin (by lia)) hex
  have hprices := observe hex (fun ex ↦ ex.trades.map Trade.price) (a := [100, 102]) rfl
  have hlast := observe hex lastTradePrice (a := some 102) rfl
  obtain ⟨o, ho, heq⟩ := Option.map_eq_some_iff.mp (observe hex
    (fun ex ↦ (ex.stopBook.get 4).map fun o ↦ (o.status, o.side, o.trailMethod.isSome))
    (a := some (.pending, .buy, false)) rfl)
  simp only [Prod.mk.injEq, Option.isSome_eq_false_iff, Option.isNone_iff_eq_none] at heq
  have hprice := lastTradePrice_of_run .off hrun
  exact ⟨ex, hex, hprices, hlast, o, ho, heq.1,
    (hprice.2.2 102 4 o hlast ho heq.1 heq.2.2).1 heq.2.1⟩

end Exchange

end Nanobook
