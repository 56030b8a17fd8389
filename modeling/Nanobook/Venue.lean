import Nanobook.Maintenance
import Nanobook.MarketCancel
import Nanobook.StopQueue

/-!
# What an exchange is for

`Venue` is the exchange without fuel, slots, tombstones, caches, order tables and event log: a
market, a queue of pending stops, the last trade price, the policy and the trades.  Its operations
are total.  `Exchange.venue` reads an exchange as a venue.  Here every part of an operation is shown
to do to the venue what it is for: submissions, the rounds of the stop cascade, new stops,
cancellations.
-/

namespace Nanobook

/-- The operation is an event that is applied, and not a method that is called. -/
def Op.isApplied : Op → Bool
  | .apply _ => true
  | _ => false

structure Venue where
  market : Market
  stops : StopQueue
  lastTradePrice : Option Price
  stpPolicy : StpPolicy
  trades : List Trade

namespace Venue

variable (v : Venue)

def create : Venue where
  market := ⟨fun _ ↦ [], 1, 1, 1⟩
  stops := StopQueue.empty
  lastTradePrice := none
  stpPolicy := .off
  trades := []

/-- A submission, and the trades it makes; no stop is triggered yet. -/
def submit (sub : Submission) : Venue × List Trade :=
  let (market, trades) := v.market.submit v.stpPolicy sub
  ({ v with market := market, trades := v.trades ++ trades }, trades)

/-- The stops a trade at `p` triggers, and the venue without them. -/
def collectTriggered (p : Price) : Venue × List StopOrder :=
  let (stops, triggered) := (v.stops.trail p).trigger p
  ({ v with stops := stops }, triggered)

/-- A triggered stop is submitted; the price of the last trade is kept. -/
def submitTriggered (acc : Venue × Option Price) (stop : StopOrder) : Venue × Option Price :=
  let (v, trades) := acc.1.submit stop.submission
  (v, (trades.getLast?.map Trade.price).or acc.2)

/-- A round of the cascade: `inl` is over, `inr` goes on. -/
def triggerRound : Venue ⊕ Venue :=
  match v.lastTradePrice with
  | none => .inl v
  | some p =>
      let (v, triggered) := v.collectTriggered p
      if triggered.isEmpty then .inl v
      else
        let (v, last) := triggered.foldl submitTriggered (v, none)
        match last with
        | some p => .inr { v with lastTradePrice := some p }
        | none => .inl v

def triggerRounds : Nat → Venue → Venue
  | 0, v => v
  | n + 1, v => v.triggerRound.elim id (triggerRounds n)

def onTrades (trades : List Trade) : Venue :=
  match trades.getLast? with
  | none => v
  | some last => triggerRounds Exchange.maxCascadeDepth { v with lastTradePrice := some last.price }

/-- A submission with the stops it triggers. -/
def submission (sub : Submission) : Venue := (v.submit sub).1.onTrades (v.submit sub).2

/-- An id is that of a pending stop, of a queued order or of neither. -/
def cancel (id : OrderId) : Venue :=
  if v.stops.holds id then { v with stops := v.stops.cancel id }
  else { v with market := v.market.cancel id }

/-- A queued order is cancelled and submitted anew, without its owner and its place in the queue. -/
def modify (id : OrderId) (price : Price) (quantity : Quantity) : Venue × List Trade :=
  if quantity = 0 then (v, [])
  else
    match v.market.order? id with
    | none => (v, [])
    | some o =>
        { v with market := v.market.cancel id }.submit
          ⟨o.side, price, quantity, o.timeInForce, none⟩

/-- The stop order built from the next id and timestamp. -/
def nextStop (side : Side) (stopPrice : Price) (limitPrice : Option Price) (quantity : Quantity)
    (tif : TimeInForce) (trailMethod : Option TrailMethod) : StopOrder where
  id := v.market.nextOrderId
  side := side
  stopPrice := stopPrice
  limitPrice := limitPrice
  quantity := quantity
  timeInForce := tif
  timestamp := v.market.nextTimestamp
  status := .pending
  trailMethod := trailMethod
  watermark := none

def insertStop (order : StopOrder) : Venue :=
  { v with
    market := { v.market with
      nextOrderId := v.market.nextOrderId + 1, nextTimestamp := v.market.nextTimestamp + 1 }
    stops := v.stops.add order }

/-- Trailing stops wait for a trade, others may be reached already. -/
def reached (order : StopOrder) : Bool :=
  order.trailMethod.isNone && v.lastTradePrice.any (StopBook.reachedBy order)

/-- A stop order joins the queue, and triggers at once if the last price reaches it. -/
def enter (order : StopOrder) : Venue :=
  if v.reached order then triggerRounds Exchange.maxCascadeDepth (v.insertStop order)
  else v.insertStop order

/-- The venue after an operation.  The trades of a modification trigger stops if it is applied as an
event, and not if it is called. -/
def perform (op : Op) : Venue :=
  match op.method with
  | .submitLimit side price quantity tif => v.submission ⟨side, price, quantity, tif, none⟩
  | .submitLimitWithOwner side price quantity tif owner =>
      v.submission ⟨side, price, quantity, tif, some owner⟩
  | .submitMarket side quantity =>
      v.submission ⟨side, side.marketPrice, quantity, .ioc, none⟩
  | .cancel id => v.cancel id
  | .modify id price quantity =>
      if op.isApplied then (v.modify id price quantity).1.onTrades (v.modify id price quantity).2
      else (v.modify id price quantity).1
  | .submitStopMarket side stopPrice quantity =>
      v.enter (v.nextStop side stopPrice none quantity .gtc none)
  | .submitStopLimit side stopPrice limitPrice quantity tif =>
      v.enter (v.nextStop side stopPrice (some limitPrice) quantity tif none)
  | .submitTrailingStopMarket side stopPrice quantity trailMethod =>
      v.enter (v.nextStop side stopPrice none quantity .gtc (some trailMethod))
  | .submitTrailingStopLimit side stopPrice limitPrice quantity tif trailMethod =>
      v.enter (v.nextStop side stopPrice (some limitPrice) quantity tif (some trailMethod))
  | .setStpPolicy policy => { v with stpPolicy := policy }
  | .clearTrades => { v with trades := [] }
  | .apply _ | .compact | .clearOrderHistory | .clearEvents => v

/-- Later stops are younger, and the clock is ahead of all of them. -/
structure Aged : Prop where
  younger : v.stops.orders.Pairwise fun o o' ↦ o.timestamp < o'.timestamp
  past : ∀ o ∈ v.stops.orders, o.timestamp < v.market.nextTimestamp

end Venue

theorem Ledger.nextTimestamp_le_acts (g : Ledger) (actions : List Action) :
    g.nextTimestamp ≤ (g.acts actions).nextTimestamp := by
  induction actions generalizing g with
  | nil => exact le_rfl
  | cons a actions ih =>
      refine le_trans ?_ (ih (g.act a))
      cases a with
      | fill o q => exact Nat.le_succ _
      | cancel o => exact le_rfl

theorem Market.nextTimestamp_le_submit (m : Market) (policy : StpPolicy) (sub : Submission) :
    m.nextTimestamp ≤ (m.submit policy sub).1.nextTimestamp := by
  have hrecord : m.nextTimestamp + 1 ≤ (m.record policy sub).nextTimestamp :=
    (m.entry sub).nextTimestamp_le_acts (m.walkOf policy sub).actions
  rw [submit, matched]
  split_ifs
  · exact Nat.le_succ _
  · exact Nat.le_of_succ_le hrecord
  · exact Nat.le_of_succ_le hrecord

/-! ## Reading an exchange as a venue -/

namespace Exchange

variable {ex ex' : Exchange} {sub : Submission} {fuel : Nat} {r : SubmitResult}

/-- The venue an exchange stands for. -/
def venue (ex : Exchange) : Venue where
  market := ex.book.market
  stops := ex.stopBook.queue
  lastTradePrice := ex.lastTradePrice
  stpPolicy := ex.stpPolicy
  trades := ex.trades

theorem venue_create : create.venue = Venue.create := by
  have hmarket : create.book.market = Venue.create.market :=
    Market.ext (funext fun s ↦ by cases s <;> rfl) rfl rfl rfl
  rw [venue, hmarket]
  rfl

/-- What an exchange has to be for its operations to do what they are for. -/
structure Ready (ex : Exchange) : Prop where
  backed : ex.Backed
  exact : ∀ t, ex.book.Exact t
  stops : ex.stopBook.WF
  aged : ex.venue.Aged

/-- The cancellations of a submission hit, its level has room for what is left of it, and what an
all-or-nothing order finds can be counted. -/
structure Admits (ex : Exchange) (sub : Submission) : Prop where
  sure : ex.Sure sub
  room : ex.rejectsFok sub = false → ex.Room sub
  depth : sub.timeInForce = .fok → ex.book.depth sub.side sub.price < 2 ^ 64

theorem ready_create : create.Ready where
  backed := backed_create
  exact t p l hl := by cases t <;> cases hl
  stops := StopBook.wf_create
  aged := ⟨List.Pairwise.nil, fun _ ho ↦ by cases ho⟩

namespace Ready

variable (h : ex.Ready)

include h

/-- Nothing but the event log, the last price, the policy and the trades has changed. -/
theorem of_book (hbook : ex'.book = ex.book) (hstops : ex'.stopBook = ex.stopBook) :
    ex'.Ready where
  backed := h.backed.of_book hbook hstops
  exact := hbook ▸ h.exact
  stops := hstops ▸ h.stops
  aged := by
    have haged := h.aged
    rw [venue] at haged ⊢
    rw [hbook, hstops]
    exact ⟨haged.younger, haged.past⟩

theorem submit (ha : ex.Admits sub)
    (hs : ex.submitLimitInternalWithOwner fuel sub = some (ex', r)) : ex'.Ready ∧
      (ex'.venue, r.trades) = ex.venue.submit sub := by
  obtain ⟨hstops, hlast, hpolicy, -, htrades, -⟩ := submit_frame hs
  have hmarket := h.backed.market_submit ha.sure ha.room ha.depth hs
  have hbook : ex'.book.market = (ex.book.market.submit ex.stpPolicy sub).1 :=
    congrArg Prod.fst hmarket
  have hclock := ex.book.market.nextTimestamp_le_submit ex.stpPolicy sub
  refine ⟨⟨h.backed.submit ha.sure hs, h.backed.exact_submit h.exact ha.sure ha.room hs,
    hstops ▸ h.stops, ?_, fun o ho ↦ ?_⟩, ?_⟩
  · rw [venue, hstops]
    exact h.aged.younger
  · rw [venue, hstops] at ho
    rw [venue, hbook]
    exact (h.aged.past o ho).trans_le hclock
  · rw [Venue.submit, venue, venue]
    simp only [← hmarket, hstops, hlast, hpolicy, htrades]

/-! ### Triggers -/

theorem collectTriggered (p : Price) : (ex.collectTriggered p).1.Ready ∧
    ((ex.collectTriggered p).1.venue, (ex.collectTriggered p).2) =
      ex.venue.collectTriggered p := by
  obtain ⟨hw, -⟩ := StopBook.updateTrailingStops_spec h.stops p
  have htrail := h.stops.queue_updateTrailingStops p
  have hstamp : ∀ (sb : StopBook) o, (sb.trailed p o).timestamp = o.timestamp := fun sb o ↦ by
    rw [StopBook.trailed]
    split
    · rfl
    · dsimp only
      split_ifs <;> rfl
  have hyounger : (ex.stopBook.updateTrailingStops p).queue.orders.Pairwise fun o o' ↦
      o.timestamp < o'.timestamp := by
    rw [htrail, StopQueue.trail, List.pairwise_map]
    simp only [hstamp]
    exact h.aged.younger
  have hpast : ∀ o ∈ (ex.stopBook.updateTrailingStops p).queue.orders,
      o.timestamp < ex.book.market.nextTimestamp := by
    rw [htrail, StopQueue.trail]
    intro o ho
    obtain ⟨o', ho', rfl⟩ := List.mem_map.mp ho
    rw [hstamp]
    exact h.aged.past o' ho'
  have hcol := hw.queue_collectTriggered hyounger p
  have hqueue : ((ex.stopBook.updateTrailingStops p).collectTriggered p).1.queue =
      ((ex.stopBook.updateTrailingStops p).queue.trigger p).1 := congrArg Prod.fst hcol
  have hpath := collectTriggered_path (K := fun _ ↦ True) (P := fun _ _ ↦ False)
    (Q := fun _ _ ↦ False) ex p
  refine ⟨⟨Path.backed (fun _ _ hp ↦ hp.elim) (fun _ _ hq ↦ hq.elim) hpath h.backed, h.exact,
    (hw.collects p).wf, ?_, fun o ho ↦ ?_⟩, ?_⟩
  · rw [venue, Exchange.collectTriggered]
    dsimp only
    rw [hqueue]
    exact hyounger.filter _
  · rw [venue, Exchange.collectTriggered] at ho
    dsimp only at ho
    rw [hqueue] at ho
    exact hpast o (List.mem_filter.mp ho).1
  · rw [Venue.collectTriggered, Exchange.collectTriggered, venue, venue]
    simp only [← htrail, ← hcol]

omit h in
/-- The stops of a round, one after another. -/
theorem foldlM_submitTriggered {triggered : List StopOrder} {acc acc' : Exchange × Option Price}
    (h : acc.1.Ready) (hP : ∀ before stop after ex' last, triggered = before ++ stop :: after →
      before.foldlM (submitTriggered fuel) acc = some (ex', last) → ex'.Admits stop.submission)
    (hs : triggered.foldlM (submitTriggered fuel) acc = some acc') :
    acc'.1.Ready ∧ (acc'.1.venue, acc'.2) =
      triggered.foldl Venue.submitTriggered (acc.1.venue, acc.2) := by
  induction triggered generalizing acc with
  | nil =>
      cases hs
      exact ⟨h, rfl⟩
  | cons stop rest ih =>
      obtain ⟨acc₁, h₁, h₂⟩ := Option.bind_eq_some_iff.mp hs
      obtain ⟨⟨ex₁, r⟩, hsub, hacc⟩ := Option.bind_eq_some_iff.mp h₁
      obtain ⟨hready, hvenue⟩ := h.submit (hP [] stop rest acc.1 acc.2 rfl rfl) hsub
      cases hacc
      have hone : Venue.submitTriggered (acc.1.venue, acc.2) stop =
          (ex₁.venue, (r.trades.getLast?.map Trade.price).or acc.2) := by
        rw [Venue.submitTriggered]
        simp only [← hvenue]
      rw [List.foldl_cons, hone]
      refine ih hready (fun before stop' after ex' last hl hf ↦ ?_) h₂
      refine hP (stop :: before) stop' after ex' last (by rw [hl]; rfl) ?_
      exact Option.bind_eq_some_iff.mpr ⟨_, h₁, hf⟩

theorem triggerRound {n : Nat} {x : Exchange ⊕ Exchange}
    (hP : ∀ ex' sub, TriggerCalls fuel (n + 1) ex ex' sub → ex'.Admits sub)
    (hx : ex.triggerRound fuel = some x) :
    (Sum.elim id id x).Ready ∧ x.map venue venue = ex.venue.triggerRound := by
  cases hp : ex.lastTradePrice with
  | none =>
      have hvenue : ex.venue.triggerRound = .inl ex.venue := by
        simp only [Venue.triggerRound, venue, hp]
      simp only [Exchange.triggerRound, hp] at hx
      cases hx
      exact ⟨h, hvenue.symm⟩
  | some p =>
      obtain ⟨hready, hcol⟩ := h.collectTriggered p
      have hlast : ex.venue.lastTradePrice = some p := hp
      rw [Venue.triggerRound]
      simp only [Exchange.triggerRound, hp] at hx
      simp only [hlast, ← hcol]
      split_ifs at hx ⊢ with hempty
      · cases hx
        exact ⟨hready, rfl⟩
      · obtain ⟨acc, hfold, hx⟩ := Option.bind_eq_some_iff.mp hx
        have hstart : ((ex.collectTriggered p).1, (none : Option Price)).1.Ready := hready
        obtain ⟨hacc, hvenue⟩ := foldlM_submitTriggered hstart
          (fun before stop after ex' last hl hf ↦ hP _ _ (.child hp (Prod.ext rfl hl) hf)) hfold
        simp only [← hvenue]
        cases hq : acc.2 with
        | none =>
            simp only [hq] at hx
            cases hx
            exact ⟨hacc, rfl⟩
        | some q =>
            simp only [hq] at hx
            cases hx
            exact ⟨hacc.of_book rfl rfl, rfl⟩

theorem triggerRounds {n : Nat} (hP : ∀ ex' sub, TriggerCalls fuel n ex ex' sub → ex'.Admits sub)
    (hs : Exchange.triggerRounds fuel n ex = some ex') :
    ex'.Ready ∧ ex'.venue = Venue.triggerRounds n ex.venue := by
  induction n generalizing ex with
  | zero =>
      cases hs
      exact ⟨h, rfl⟩
  | succ n ih =>
      obtain ⟨x, hx, hs⟩ := Option.bind_eq_some_iff.mp hs
      obtain ⟨hready, hvenue⟩ := h.triggerRound hP hx
      rw [Venue.triggerRounds, ← hvenue]
      cases x with
      | inl ex₁ =>
          cases hs
          exact ⟨hready, rfl⟩
      | inr ex₁ => exact ih hready (fun ex' sub hc ↦ hP ex' sub (.later hx hc)) hs

theorem onTrades {trades : List Trade}
    (hP : ∀ t, trades.getLast? = some t → ∀ ex' sub, TriggerCalls fuel maxCascadeDepth
      { ex with lastTradePrice := some t.price } ex' sub → ex'.Admits sub)
    (hs : ex.onTrades fuel trades = some ex') :
    ex'.Ready ∧ ex'.venue = ex.venue.onTrades trades := by
  rw [Venue.onTrades]
  simp only [Exchange.onTrades] at hs
  cases ht : trades.getLast? with
  | none =>
      simp only [ht] at hs
      cases hs
      exact ⟨h, rfl⟩
  | some t =>
      simp only [ht] at hs
      have hready : ({ ex with lastTradePrice := some t.price } : Exchange).Ready :=
        h.of_book rfl rfl
      exact hready.triggerRounds (hP t ht) hs

/-- A submission and the stops it triggers. -/
theorem submission {ex₁ : Exchange} (ha : ex.Admits sub)
    (hP : ∀ t, r.trades.getLast? = some t → ∀ ex' sub', TriggerCalls fuel maxCascadeDepth
      { ex₁ with lastTradePrice := some t.price } ex' sub' → ex'.Admits sub')
    (hs : ex.submitLimitInternalWithOwner fuel sub = some (ex₁, r))
    (hon : ex₁.onTrades fuel r.trades = some ex') :
    ex'.Ready ∧ ex'.venue = ex.venue.submission sub := by
  obtain ⟨hready, hvenue⟩ := h.submit ha hs
  rw [Venue.submission, ← hvenue]
  exact hready.onTrades hP hon

/-! ### Stop orders -/

theorem insertStop {order : StopOrder} (hid : order.id = ex.book.nextOrderId)
    (hstamp : order.timestamp = ex.book.nextTimestamp) (hp : order.status = .pending) :
    (ex.insertStop order).Ready ∧ (ex.insertStop order).venue = ex.venue.insertStop order := by
  have hfresh : ∀ x, ex.stopBook.orders.get? order.id ≠ some x := fun x hx ↦ by
    have hlt := (h.backed.wf.stops _ x hx).lt
    rw [hid] at hlt
    exact absurd hlt (Nat.lt_irrefl _)
  have hnone : ex.stopBook.orders.get? order.id = none :=
    Option.eq_none_iff_forall_ne_some.mpr hfresh
  have hbelow : ∀ x ∈ ex.stopBook.queue.orders, x.id < order.id := fun x hx ↦ by
    rw [hid]
    exact (h.backed.wf.stops _ x ((StopBook.mem_queue h.stops.stored).mp hx).1).lt
  have hqueue := h.stops.queue_insert hbelow hnone hp
  have hmarket : (ex.insertStop order).book.market = { ex.book.market with
      nextOrderId := ex.book.market.nextOrderId + 1
      nextTimestamp := ex.book.market.nextTimestamp + 1 } :=
    Market.ext (funext fun s ↦ by cases s <;> rfl) rfl rfl rfl
  refine ⟨⟨?_, fun t ↦ (h.exact t).of_counters (by cases t <;> rfl) rfl, h.stops.insert hnone hp,
    ?_, fun o ho ↦ ?_⟩, ?_⟩
  · exact Atom.backed (K := fun _ ↦ True) (P := fun _ _ ↦ False) (Q := fun _ _ ↦ False)
      (fun _ _ hp ↦ hp.elim) (fun _ _ hq ↦ hq.elim) (.insertStop hid) h.backed
  · rw [venue, Exchange.insertStop]
    dsimp only
    rw [hqueue]
    refine List.pairwise_append.mpr ⟨h.aged.younger, List.pairwise_singleton _ _,
      fun o ho x hx ↦ ?_⟩
    rw [List.mem_singleton.mp hx, hstamp]
    exact h.aged.past o ho
  · rw [venue, Exchange.insertStop] at ho
    dsimp only at ho
    rw [hqueue] at ho
    refine Nat.lt_succ_of_le ?_
    rcases List.mem_append.mp ho with ho | ho
    · exact (h.aged.past o ho).le
    · rw [List.mem_singleton.mp ho, hstamp]
  · rw [venue, hmarket, Exchange.insertStop]
    dsimp only
    rw [hqueue]
    rfl

/-- A stop order joins the queue, and triggers if the last price reaches it. -/
theorem enter {order : StopOrder} (hid : order.id = ex.book.nextOrderId)
    (hstamp : order.timestamp = ex.book.nextTimestamp) (hp : order.status = .pending)
    (hP : (ex.insertStop order).shouldTrigger order = true → ∀ ex' sub,
      TriggerCalls fuel maxCascadeDepth (ex.insertStop order) ex' sub → ex'.Admits sub)
    (hs : (if (ex.insertStop order).shouldTrigger order then
      (ex.insertStop order).processTradeTriggers fuel else some (ex.insertStop order)) = some ex') :
    ex'.Ready ∧ ex'.venue = ex.venue.enter order := by
  obtain ⟨hready, hvenue⟩ := h.insertStop hid hstamp hp
  have hreached : ex.venue.reached order = (ex.insertStop order).shouldTrigger order := by
    rw [Venue.reached, shouldTrigger, venue, Exchange.insertStop]
    cases order.trailMethod with
    | some m => rfl
    | none =>
        cases ex.lastTradePrice with
        | none => rfl
        | some last =>
            rw [Option.any_some, StopBook.reachedBy]
            cases order.side <;> rfl
  rw [Venue.enter, hreached, ← hvenue]
  split_ifs at hs ⊢ with hnow
  · exact hready.triggerRounds (hP hnow) hs
  · cases hs
    exact ⟨hready, rfl⟩

/-! ### Cancelling and modifying -/

/-- A cancellation of a book order. -/
theorem cancelOrder {id : OrderId} (ht : ex.book.Targets id) :
    ({ ex with book := (ex.book.cancelOrder id).1 } : Exchange).Ready ∧
      ({ ex with book := (ex.book.cancelOrder id).1 } : Exchange).venue =
        { ex.venue with market := ex.book.market.cancel id } := by
  have hmarket := OrderBook.market_cancelOrder h.backed.wf.book h.backed.stocked h.exact ht
  have hatom : Atom (fun _ ↦ True) (fun _ _ ↦ False) (fun ex id ↦ ex.book.Targets id) ex
    { ex with book := (ex.book.cancelOrder id).1 } := .cancelOrder ht
  refine ⟨⟨hatom.backed (fun _ _ hp ↦ hp.elim) (fun _ _ hq ↦ hq) h.backed,
    hatom.exact (fun _ _ hp ↦ hp.elim) (fun _ _ hq ↦ hq) h.backed h.exact, h.stops,
    h.aged.younger, fun o ho ↦ ?_⟩, ?_⟩
  · rw [venue, hmarket]
    exact h.aged.past o ho
  · rw [venue, hmarket]
    rfl

theorem cancel {id : OrderId}
    (ht : ex.stopBook.containsPending id = false → ex.book.Targets id) :
    (ex.cancelInternal id).1.Ready ∧ (ex.cancelInternal id).1.venue = ex.venue.cancel id := by
  have hholds : ex.venue.stops.holds id = ex.stopBook.containsPending id :=
    StopBook.holds_queue h.stops.stored id
  rw [Venue.cancel, hholds]
  rcases ex.cancelInternal_cases id with ⟨hp, hcancel⟩ | ⟨hp, hcancel⟩
  · have hqueue := h.stops.queue_cancel id
    have htame := ex.stopBook.tame_cancel id
    rw [hcancel, hp, if_pos rfl]
    refine ⟨⟨Atom.backed (K := fun _ ↦ True) (P := fun _ _ ↦ False) (Q := fun _ _ ↦ False)
      (fun _ _ hp ↦ hp.elim) (fun _ _ hq ↦ hq.elim) (.stops htame) h.backed, h.exact,
      h.stops.cancel id, ?_, fun o ho ↦ ?_⟩, ?_⟩
    · rw [venue]
      dsimp only
      rw [hqueue]
      exact h.aged.younger.filter _
    · rw [venue] at ho
      dsimp only at ho
      rw [hqueue] at ho
      exact h.aged.past o (List.mem_filter.mp ho).1
    · rw [venue]
      dsimp only
      rw [hqueue]
      rfl
  · rw [hcancel, hp, if_neg (by simp)]
    exact h.cancelOrder (ht hp)

end Ready

end Exchange

end Nanobook
