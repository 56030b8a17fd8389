import Nanobook.Invariant.StopBook
import Nanobook.Oracle.Market

/-!
# Where the exchange and the oracle agree

A corpus is replayed to the same trades by the exchange and by the oracle as long as no sum of
quantities overflows and no event meets one of three defects: self-trade prevention cancels an order
by a slot that is not its own, in the exchange; an order that was filled in part comes to rest with
its whole quantity, in the oracle; and an order that is cancelled leaves its quantity on its level,
in the oracle.  Until then both books stand for the same market (`Agrees`), and the trades are those
of `Market.submit`.
-/

namespace Nanobook

/-! ## Exchanges without stop orders -/

namespace Exchange

/-- There are no stop orders; prices may have been recorded. -/
structure Stopless (ex : Exchange) : Prop where
  wf : ex.stopBook.WF
  none : ∀ id, ex.stopBook.orders.get? id = Option.none

theorem stopless_create : create.Stopless := ⟨StopBook.wf_create, fun _ ↦ rfl⟩

variable {ex ex' : Exchange}

theorem Stopless.not_pending (h : ex.Stopless) (id : OrderId) (o : StopOrder) :
    ¬ ex.stopBook.Pending id o := by
  rintro ⟨ho, -⟩
  rw [h.none] at ho
  cases ho

/-- A trade triggers nothing. -/
theorem Stopless.collectTriggered (h : ex.Stopless) (p : Price) :
    (ex.collectTriggered p).1.Stopless ∧ (ex.collectTriggered p).2 = [] := by
  obtain ⟨hwf, hretrails⟩ := StopBook.updateTrailingStops_spec h.wf p
  have hcollects := hwf.collects p
  have hnone : ∀ id, (ex.stopBook.updateTrailingStops p).orders.get? id = Option.none := by
    intro id
    cases ho : (ex.stopBook.updateTrailingStops p).orders.get? id with
    | none => rfl
    | some o =>
        obtain ⟨o', ho'⟩ := hretrails.contains id o ho
        rw [h.none] at ho'
        cases ho'
  have hnil : (ex.collectTriggered p).2 = [] := by
    refine List.eq_nil_iff_forall_not_mem.mpr fun x hx ↦ ?_
    obtain ⟨o, ⟨ho, -⟩, -⟩ := hcollects.reached x hx
    rw [hnone] at ho
    cases ho
  have horders := hcollects.orders
  rw [show ((ex.stopBook.updateTrailingStops p).collectTriggered p).2 = [] from hnil, List.map_nil,
    StopBook.trigger_nil] at horders
  refine ⟨⟨hcollects.wf, fun id ↦ ?_⟩, hnil⟩
  exact (congrArg (OrdMap.get? · id) horders).trans (hnone id)

/-- The trades of a submission change what is recorded of prices, and nothing else. -/
theorem Stopless.exists_onTrades (h : ex.Stopless) (trades : List Trade) :
    ∃ ex', (∀ fuel, ex.onTrades fuel trades = some ex') ∧ ex'.Stopless ∧ ex'.book = ex.book ∧
      ex'.trades = ex.trades := by
  simp only [onTrades]
  cases trades.getLast? with
  | none => exact ⟨ex, fun _ ↦ rfl, h, rfl, rfl⟩
  | some last =>
      let ex₁ : Exchange := { ex with lastTradePrice := some last.price }
      have h₁ : ex₁.Stopless := ⟨h.wf, h.none⟩
      obtain ⟨hstopless, hnil⟩ := h₁.collectTriggered last.price
      refine ⟨(ex₁.collectTriggered last.price).1, fun fuel ↦ ?_, hstopless, rfl, rfl⟩
      have hround : ex₁.triggerRound fuel = some (.inl (ex₁.collectTriggered last.price).1) := by
        simp only [triggerRound, ex₁]
        rw [hnil]
        rfl
      exact Option.bind_eq_some_iff.mpr ⟨_, hround, rfl⟩

end Exchange

namespace Oracle

/-! ## More passes -/

theorem Book.matchOrder_mono {fuel fuel' : Nat} (h : fuel ≤ fuel') {b : Book} {incoming : Order}
    {policy : StpPolicy} {s : MatchState} (hs : b.matchOrder fuel incoming policy = some s) :
    b.matchOrder fuel' incoming policy = some s := by
  rw [Book.matchOrder] at hs ⊢
  split_ifs at hs ⊢
  · exact hs
  · obtain ⟨t, ht, hs⟩ := Option.bind_eq_some_iff.mp hs
    exact Option.bind_eq_some_iff.mpr ⟨t, Loop.iterate_mono (fun _ _ hx ↦ hx) h ht, hs⟩

theorem Book.replayEvent_mono {fuel fuel' : Nat} (h : fuel ≤ fuel') {b : Book}
    {event : CorpusEvent} {x : Book × List Trade} (hx : b.replayEvent fuel event = some x) :
    b.replayEvent fuel' event = some x := by
  cases event with
  | submitLimit side price quantity tif owner policy =>
      obtain ⟨s, hs, hx⟩ := Option.bind_eq_some_iff.mp hx
      exact Option.bind_eq_some_iff.mpr ⟨s, Book.matchOrder_mono h hs, hx⟩
  | submitMarket side quantity owner policy =>
      obtain ⟨s, hs, hx⟩ := Option.bind_eq_some_iff.mp hx
      exact Option.bind_eq_some_iff.mpr ⟨s, Book.matchOrder_mono h hs, hx⟩
  | cancel id => exact hx

theorem replayStep_mono {fuel fuel' : Nat} (h : fuel ≤ fuel') {acc acc' : Book × List Trade}
    {event : CorpusEvent} (hx : replayStep fuel acc event = some acc') :
    replayStep fuel' acc event = some acc' := by
  obtain ⟨x, hx, hacc⟩ := Option.bind_eq_some_iff.mp hx
  exact Option.bind_eq_some_iff.mpr ⟨x, Book.replayEvent_mono h hx, hacc⟩

/-! ## One event -/

/-- The submission of an event fits. -/
def Fitting (ex : Exchange) (event : CorpusEvent) : Prop :=
  ∀ sub policy, event.submission = some (sub, policy) → Fits ex.book.market policy sub

/-- The event meets none of the defects: self-trade prevention hits, what comes to rest was not
filled in part, and no order is cancelled that is still active. -/
structure Spared (ex : Exchange) (event : CorpusEvent) : Prop where
  sure : ∀ sub policy, event.submission = some (sub, policy) → (ex.setStpPolicy policy).Sure sub
  whole : ∀ sub policy, event.submission = some (sub, policy) →
    RestsWhole ex.book.market policy sub
  cancel : ∀ id, event = .cancel id → ∀ o, ex.getOrder id = some o → o.isActive = false

/-- The exchange and the oracle stand for the same market. -/
structure Agrees (ex : Exchange) (b : Book) : Prop where
  backed : ex.Backed
  stopless : ex.Stopless
  stocked : b.Stocked b.nextOrderId
  market : b.market = ex.book.market

theorem Book.stocked_create : create.Stocked create.nextOrderId where
  level s _ hl := by
    cases s
    · cases hl
    · cases hl
  sorted s := by cases s <;> exact List.Pairwise.nil
  queued s _ hl := by
    cases s
    · cases hl
    · cases hl
  stored _ _ ho := by cases ho

theorem agrees_create : Agrees Exchange.create Book.create where
  backed := Exchange.backed_create
  stopless := Exchange.stopless_create
  stocked := Book.stocked_create
  market := Market.ext (funext fun s ↦ by cases s <;> rfl) rfl rfl rfl

variable {ex : Exchange} {b : Book} {event : CorpusEvent}

/-- The submission of an event is made under its policy, once the event log is written. -/
theorem directCall_op {sub : Submission} {policy : StpPolicy}
    (hsub : event.submission = some (sub, policy)) (ex : Exchange) :
    ∃ events, (event.prepare ex).directCall event.op =
      some ({ ex with stpPolicy := policy, events := events }, sub) := by
  cases event with
  | submitLimit side price quantity tif owner policy =>
      cases hsub
      cases owner <;> exact ⟨_, rfl⟩
  | submitMarket side quantity owner policy =>
      cases hsub
      cases owner <;> exact ⟨_, rfl⟩
  | cancel id => cases hsub

theorem op_ne_modify (event : CorpusEvent) (id : OrderId) (p : Price) (q : Quantity) :
    event.op.method ≠ .modify id p q := by
  cases event with
  | submitLimit side price quantity tif owner policy => cases owner <;> exact nofun
  | submitMarket side quantity owner policy => cases owner <;> exact nofun
  | cancel id => exact nofun

/-- A submission that fits leaves room in the totals of the exchange, too. -/
theorem Fits.room_exchange {sub : Submission} (h : Fits ex.book.market ex.stpPolicy sub)
    (hb : ex.Backed) : ex.Room sub := by
  intro hgtc hstp hleft
  have hle := h.room (Exchange.rests_market_iff.mpr ⟨hgtc, hstp, hleft⟩)
  rw [OrderBook.totalAt_market (hb.wf.book.side _), Exchange.walkOf_market] at hle
  have hroom : (ex.book.totalAt sub.side sub.price + (ex.walkOf sub).left : Int) ≤ int64Max := hle
  simp only [int64Max] at hroom
  rw [u64Max]
  lia

/-- A submission is replayed to the same trades. -/
theorem Agrees.submission (h : Agrees ex b) {sub : Submission} {policy : StpPolicy}
    (hsub : event.submission = some (sub, policy)) (hfits : Fits ex.book.market policy sub)
    (hsure : (ex.setStpPolicy policy).Sure sub) (hwhole : RestsWhole ex.book.market policy sub) :
    ∃ fuel ex' b' trades, ex.replayEvent fuel event = some ex' ∧
      b.replayEvent fuel event = some (b', trades) ∧ ex'.trades = ex.trades ++ trades ∧
      Agrees ex' b' := by
  obtain ⟨events, hcall⟩ := directCall_op hsub ex
  let ex₀ : Exchange := { ex with stpPolicy := policy, events := events }
  have h₀ : ex₀.Backed := h.backed.of_book rfl rfl
  have hfits₀ : Fits ex₀.book.market ex₀.stpPolicy sub := hfits
  -- the exchange
  obtain ⟨fuel, ⟨ex₁, r⟩, hsubmit⟩ := h₀.exists_submit hsure
  have h₁ : ex₁.Backed := h₀.submit hsure hsubmit
  obtain ⟨hstops, -, -, -, htrades, -⟩ := Exchange.submit_frame hsubmit
  have hdepth : sub.timeInForce = .fok → ex₀.book.depth sub.side sub.price < 2 ^ 64 := by
    intro hfok
    have hle := hfits₀.depth hfok
    rw [Exchange.depth_market] at hle
    simp only [int64Max] at hle
    lia
  have hmarket := h₀.market_submit hsure (fun _ ↦ hfits₀.room_exchange h₀) hdepth hsubmit
  have hstopless : ex₁.Stopless := by
    refine ⟨?_, ?_⟩
    · rw [hstops]
      exact h.stopless.wf
    · rw [hstops]
      exact h.stopless.none
  obtain ⟨ex₂, honTrades, hstopless₂, hbook, htrades₂⟩ := hstopless.exists_onTrades r.trades
  have hex (n : Nat) (hn : fuel ≤ n) : ex.replayEvent n event = some ex₂ := by
    rw [Exchange.replayEvent, Exchange.perform_submission (op_ne_modify event) hcall]
    exact Option.bind_eq_some_iff.mpr ⟨_, Exchange.submit_mono hn hsubmit, honTrades n⟩
  -- the oracle
  rw [← h.market] at hfits hwhole
  obtain ⟨fuel', b', hreplay, hmarket', hst⟩ := h.stocked.exists_submit hfits hwhole hsub
  rw [h.market] at hreplay hmarket'
  refine ⟨max fuel fuel', ex₂, b', r.trades, hex _ (Nat.le_max_left _ _), ?_, ?_, ?_⟩
  · rw [show r.trades = _ from congrArg Prod.snd hmarket]
    exact Book.replayEvent_mono (Nat.le_max_right _ _) hreplay
  · rw [htrades₂, htrades]
  · refine ⟨⟨⟨hbook ▸ h₁.wf.book, fun id o ho ↦ ?_⟩, hbook ▸ h₁.stocked⟩, hstopless₂, hst, ?_⟩
    · rw [hstopless₂.none] at ho
      cases ho
    · rw [hbook, hmarket']
      exact (congrArg Prod.fst hmarket).symm

/-- An order that the oracle has queued is active in the exchange. -/
theorem Agrees.exists_active (h : Agrees ex b) {id : OrderId} {o : Order} {s : Side}
    {level : PriceLevel} (ho : b.orders.get? id = some o) (ha : o.isActive = true)
    (hl : level ∈ b.levels s) (hid : id ∈ level.orders) :
    ∃ o', ex.getOrder id = some o' ∧ o'.isActive = true := by
  have hshown : (level.resting b.orders).unplaced ∈
      (ex.book.resting s).map RestingLevel.unplaced := by
    rw [← OrderBook.levels_market, ← h.market]
    exact List.mem_map_of_mem (List.mem_map_of_mem hl)
  obtain ⟨level', hlevel', heq⟩ := List.mem_map.mp hshown
  have hqueue : level'.queue.map Order.unplaced =
      (activeOrders b.orders level.orders).map Order.unplaced := congrArg RestingLevel.queue heq
  have hmem : o.unplaced ∈ level'.queue.map Order.unplaced := by
    rw [hqueue]
    exact List.mem_map_of_mem (mem_activeOrders.mpr ⟨⟨id, hid, ho⟩, ha⟩)
  obtain ⟨o', ho', hsame⟩ := List.mem_map.mp hmem
  have hflat : o' ∈ flatten (ex.book.resting s) := List.mem_flatMap.mpr ⟨level', hlevel', ho'⟩
  obtain ⟨-, -, -, hget, -⟩ := (h.backed.stocked s).of_mem_flatten hflat
  rw [(Order.of_unplaced_eq hsame).1, h.stocked.stored id o ho] at hget
  exact ⟨o', hget, h.backed.isActive_of_mem_flatten hflat⟩

/-- Cancelling an order that is no longer active in the exchange changes neither market. -/
theorem Agrees.cancel (h : Agrees ex b) {id : OrderId}
    (hinactive : ∀ o, ex.getOrder id = some o → o.isActive = false) :
    ∃ ex', (∀ fuel, ex.replayEvent fuel (.cancel id) = some ex') ∧ ex'.trades = ex.trades ∧
      Agrees ex' (b.cancel id) := by
  have hpending : (ex.record (.cancel id)).stopBook.containsPending id = false := by
    by_contra hne
    obtain ⟨o, ho⟩ := StopBook.containsPending_iff.mp (by simpa using hne)
    exact h.stopless.not_pending id o ho
  have hcancel : ((ex.record (.cancel id)).cancelInternal id).1 = ex.record (.cancel id) := by
    rcases (ex.record (.cancel id)).cancelInternal_cases id with ⟨hp, -⟩ | ⟨-, heq⟩
    · rw [hpending] at hp
      cases hp
    · rw [heq, show (ex.record (.cancel id)).book = ex.book from rfl,
        OrderBook.cancelOrder_of_inactive hinactive]
      rfl
  have hout : ∀ o, b.orders.get? id = some o → o.isActive = true →
      ∀ s, ∀ level ∈ b.levels s, id ∉ level.orders := by
    intro o ho ha s level hl hid
    obtain ⟨o', ho', ha'⟩ := h.exists_active ho ha hl hid
    rw [hinactive o' ho'] at ha'
    cases ha'
  obtain ⟨hmarket, hst⟩ := h.stocked.market_cancel hout
  refine ⟨ex.record (.cancel id), fun fuel ↦ ?_, rfl, ?_⟩
  · exact congrArg some hcancel
  · refine ⟨h.backed.of_book rfl rfl, ⟨h.stopless.wf, h.stopless.none⟩, ?_,
      hmarket.trans h.market⟩
    have hnext : (b.cancel id).nextOrderId = b.nextOrderId := congrArg Market.nextOrderId hmarket
    rw [hnext]
    exact hst

/-- An event is replayed to the same trades, and both still stand for the same market. -/
theorem Agrees.step (h : Agrees ex b) (hfits : Fitting ex event) (hspared : Spared ex event) :
    ∃ fuel ex' b' trades, ex.replayEvent fuel event = some ex' ∧
      b.replayEvent fuel event = some (b', trades) ∧ ex'.trades = ex.trades ++ trades ∧
      Agrees ex' b' := by
  cases hsub : event.submission with
  | some x =>
      exact h.submission hsub (hfits _ _ hsub) (hspared.sure _ _ hsub) (hspared.whole _ _ hsub)
  | none =>
      obtain ⟨id, rfl⟩ : ∃ id, event = .cancel id := by
        cases event with
        | submitLimit side price quantity tif owner policy => cases hsub
        | submitMarket side quantity owner policy => cases hsub
        | cancel id => exact ⟨id, rfl⟩
      obtain ⟨ex', hex, htrades, hagrees⟩ := h.cancel (hspared.cancel id rfl)
      exact ⟨0, ex', b.cancel id, [], hex 0, rfl, by rw [htrades, List.append_nil], hagrees⟩

/-! ## A corpus -/

/-- A condition on the events of a corpus, each in the state of the exchange it is replayed in. -/
def Always (P : Exchange → CorpusEvent → Prop) : List CorpusEvent → Exchange → Prop
  | [], _ => True
  | event :: events, ex =>
      P ex event ∧ ∀ fuel ex', ex.replayEvent fuel event = some ex' → Always P events ex'

/-- From books that stand for the same market a corpus is replayed to the same trades. -/
theorem Agrees.replay (h : Agrees ex b) {events : List CorpusEvent}
    (hfits : Always Fitting events ex) (hspared : Always Spared events ex) :
    ∃ fuel ex' b', events.foldlM (Exchange.replayEvent fuel) ex = some ex' ∧
      events.foldlM (replayStep fuel) (b, ex.trades) = some (b', ex'.trades) := by
  induction events generalizing ex b with
  | nil => exact ⟨0, ex, b, rfl, rfl⟩
  | cons event events ih =>
      obtain ⟨hfit, hfits⟩ := hfits
      obtain ⟨hspare, hspared⟩ := hspared
      obtain ⟨fuel, ex₁, b₁, trades, hex, hb, htrades, h₁⟩ := h.step hfit hspare
      obtain ⟨fuel', ex', b', hex', hb'⟩ := ih h₁ (hfits fuel ex₁ hex) (hspared fuel ex₁ hex)
      have hstep : replayStep fuel (b, ex.trades) event = some (b₁, ex₁.trades) := by
        rw [htrades]
        exact Option.bind_eq_some_iff.mpr ⟨_, hb, rfl⟩
      refine ⟨max fuel fuel', ex', b', ?_, ?_⟩
      · exact Option.bind_eq_some_iff.mpr ⟨ex₁, Exchange.perform_mono (Nat.le_max_left _ _) hex,
          Loop.foldlM_mono (fun _ _ _ hx ↦ Exchange.perform_mono (Nat.le_max_right _ _) hx) hex'⟩
      · exact Option.bind_eq_some_iff.mpr ⟨_, replayStep_mono (Nat.le_max_left _ _) hstep,
          Loop.foldlM_mono (fun _ _ _ hx ↦ replayStep_mono (Nat.le_max_right _ _) hx) hb'⟩

/-- A corpus whose quantities and sums fit, and none of whose events meets a defect, is replayed to
the same trades by the exchange and by the oracle. -/
theorem replayCorpus_eq_replayEvents {events : List CorpusEvent}
    (hfits : Always Fitting events Exchange.create)
    (hspared : Always Spared events Exchange.create) :
    ∃ fuel trades, Exchange.replayCorpus fuel events = some trades ∧
      replayEvents fuel events = some trades := by
  obtain ⟨fuel, ex', b', hex, hb⟩ := agrees_create.replay hfits hspared
  exact ⟨fuel, ex'.trades, Option.map_eq_some_iff.mpr ⟨ex', hex, rfl⟩,
    Option.map_eq_some_iff.mpr ⟨_, hb, rfl⟩⟩

/-! ### Concrete corpora -/

theorem replayCorpus_mono {fuel fuel' : Nat} (h : fuel ≤ fuel') {events : List CorpusEvent}
    {trades : List Trade} (hx : Exchange.replayCorpus fuel events = some trades) :
    Exchange.replayCorpus fuel' events = some trades := by
  obtain ⟨ex, hex, rfl⟩ := Option.map_eq_some_iff.mp hx
  exact Option.map_eq_some_iff.mpr
    ⟨ex, Loop.foldlM_mono (fun _ _ _ hx ↦ Exchange.perform_mono h hx) hex, rfl⟩

theorem replayEvents_mono {fuel fuel' : Nat} (h : fuel ≤ fuel') {events : List CorpusEvent}
    {trades : List Trade} (hx : replayEvents fuel events = some trades) :
    replayEvents fuel' events = some trades := by
  obtain ⟨acc, hacc, rfl⟩ := Option.map_eq_some_iff.mp hx
  exact Option.map_eq_some_iff.mpr
    ⟨acc, Loop.foldlM_mono (fun _ _ _ hx ↦ replayStep_mono h hx) hacc, rfl⟩

section Check

instance (m : Market) (policy : StpPolicy) (sub : Submission) : Decidable (Fits m policy sub) :=
  decidable_of_iff (0 < sub.quantity ∧ (sub.quantity : Int) ≤ int64Max ∧
      (m.Rests policy sub →
        (m.totalAt sub.side sub.price + (m.walkOf policy sub).left : Int) ≤ int64Max) ∧
      (sub.timeInForce = .fok → (m.depth sub.side sub.price : Int) ≤ int64Max))
    ⟨fun ⟨hpos, hle, hroom, hdepth⟩ ↦ ⟨hpos, hle, hroom, hdepth⟩,
      fun h ↦ ⟨h.pos, h.le, h.room, h.depth⟩⟩

instance (m : Market) (policy : StpPolicy) (sub : Submission) :
    Decidable (RestsWhole m policy sub) :=
  inferInstanceAs (Decidable (m.Rests policy sub → (m.walkOf policy sub).left = sub.quantity))

/-- Fitting, as a check. -/
def fits (ex : Exchange) (event : CorpusEvent) : Bool :=
  event.submission.all fun x ↦ decide (Fits ex.book.market x.2 x.1)

/-- Being spared, as a check. -/
def spares (ex : Exchange) (event : CorpusEvent) : Bool :=
  (event.submission.all fun x ↦
    Exchange.cancelsAtFront ((ex.setStpPolicy x.2).walkOf x.1).actions &&
      decide (RestsWhole ex.book.market x.2 x.1)) &&
  match event with
  | .cancel id => (ex.getOrder id).all fun o ↦ !o.isActive
  | _ => true

theorem fitting_of_fits (h : fits ex event = true) : Fitting ex event := by
  intro sub policy hsub
  rw [fits, hsub] at h
  exact of_decide_eq_true h

theorem spared_of_spares (h : spares ex event = true) : Spared ex event := by
  obtain ⟨hsubmission, hcancel⟩ := Bool.and_eq_true_iff.mp h
  refine ⟨fun sub policy hsub ↦ ?_, fun sub policy hsub ↦ ?_, fun id hid o ho ↦ ?_⟩
  · rw [hsub] at hsubmission
    exact fun _ ↦ Exchange.onTarget_of_cancelsAtFront (Bool.and_eq_true_iff.mp hsubmission).1
  · rw [hsub] at hsubmission
    exact of_decide_eq_true (Bool.and_eq_true_iff.mp hsubmission).2
  · subst hid
    dsimp only at hcancel
    rw [ho] at hcancel
    simpa using hcancel

/-- A check of every event of a corpus, in the state it is replayed in. -/
def checkAll (check : Exchange → CorpusEvent → Bool) (fuel : Nat) :
    List CorpusEvent → Exchange → Bool
  | [], _ => true
  | event :: events, ex =>
      check ex event && (ex.replayEvent fuel event).any (checkAll check fuel events)

theorem always_of_checkAll {check : Exchange → CorpusEvent → Bool}
    {P : Exchange → CorpusEvent → Prop} (fuel : Nat)
    (hP : ∀ ex event, check ex event = true → P ex event) {events : List CorpusEvent}
    (h : checkAll check fuel events ex = true) : Always P events ex := by
  induction events generalizing ex with
  | nil => trivial
  | cons event events ih =>
      obtain ⟨hcheck, hrest⟩ := Bool.and_eq_true_iff.mp h
      refine ⟨hP ex event hcheck, fun fuel' ex' hex' ↦ ?_⟩
      obtain ⟨ex₁, hex₁, hchecked⟩ := (Option.any_eq_true _ _).mp hrest
      have hsame : ex₁ = ex' := Exchange.Step.deterministic ⟨fuel, hex₁⟩ ⟨fuel', hex'⟩
      exact ih (hsame ▸ hchecked)

end Check

/-- A FOK order that two levels fill, a late cancellation, an own order that is cancelled, and an
order that rests and is hit. -/
theorem replayCorpus_eq_replayEvents_mixed : ∃ fuel trades,
    Exchange.replayCorpus fuel [.submitLimit .sell 100 10 .gtc (some 1) .off,
      .submitLimit .sell 101 5 .gtc (some 2) .off, .submitLimit .buy 101 12 .fok none .off,
      .cancel 1, .submitLimit .buy 101 4 .ioc (some 2) .cancelOldest,
      .submitLimit .buy 99 7 .gtc none .off, .submitMarket .sell 5 none .off] = some trades ∧
    replayEvents fuel [.submitLimit .sell 100 10 .gtc (some 1) .off,
      .submitLimit .sell 101 5 .gtc (some 2) .off, .submitLimit .buy 101 12 .fok none .off,
      .cancel 1, .submitLimit .buy 101 4 .ioc (some 2) .cancelOldest,
      .submitLimit .buy 99 7 .gtc none .off, .submitMarket .sell 5 none .off] = some trades :=
  replayCorpus_eq_replayEvents
    (always_of_checkAll 4 (fun _ _ ↦ fitting_of_fits) (by decide +kernel))
    (always_of_checkAll 4 (fun _ _ ↦ spared_of_spares) (by decide +kernel))

/-- A buy of 10 that fills 5 rests with 5 in the exchange, and with all 10 in the oracle. -/
theorem replayCorpus_ne_replayEvents :
    Always Fitting [.submitLimit .sell 100 5 .gtc none .off,
      .submitLimit .buy 100 10 .gtc none .off, .submitLimit .sell 100 10 .gtc none .off]
      Exchange.create ∧
    ¬ ∃ fuel trades,
      Exchange.replayCorpus fuel [.submitLimit .sell 100 5 .gtc none .off,
        .submitLimit .buy 100 10 .gtc none .off, .submitLimit .sell 100 10 .gtc none .off] =
          some trades ∧
      replayEvents fuel [.submitLimit .sell 100 5 .gtc none .off,
        .submitLimit .buy 100 10 .gtc none .off, .submitLimit .sell 100 10 .gtc none .off] =
          some trades := by
  refine ⟨always_of_checkAll 4 (fun _ _ ↦ fitting_of_fits) (by decide +kernel), ?_⟩
  rintro ⟨fuel, trades, hex, horacle⟩
  have hex' : (Exchange.replayCorpus 4 [.submitLimit .sell 100 5 .gtc none .off,
      .submitLimit .buy 100 10 .gtc none .off, .submitLimit .sell 100 10 .gtc none .off]) =
        some [⟨1, 100, 5, 2, 1, .buy, 3⟩, ⟨2, 100, 5, 3, 2, .sell, 5⟩] := by decide +kernel
  have horacle' : (replayEvents 4 [.submitLimit .sell 100 5 .gtc none .off,
      .submitLimit .buy 100 10 .gtc none .off, .submitLimit .sell 100 10 .gtc none .off]) =
        some [⟨1, 100, 5, 2, 1, .buy, 3⟩, ⟨2, 100, 10, 3, 2, .sell, 5⟩] := by decide +kernel
  have h₁ := (replayCorpus_mono (Nat.le_max_left fuel 4) hex).symm.trans
    (replayCorpus_mono (Nat.le_max_right fuel 4) hex')
  have h₂ := (replayEvents_mono (Nat.le_max_left fuel 4) horacle).symm.trans
    (replayEvents_mono (Nat.le_max_right fuel 4) horacle')
  have hne := h₁.symm.trans h₂
  simp at hne

end Oracle

end Nanobook
