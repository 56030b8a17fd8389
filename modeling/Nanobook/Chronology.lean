import Nanobook.Invariant.Passes

/-!
# Ids and timestamps

One counter numbers limit and market orders, stop orders, the orders of triggered stops and
replacements, and one clock stamps these and the trades.  The history of a run, the orders in the
order of their creation, is kept beside the exchange: orders are created from the counters as they
stand, also where nothing is stored, as for a FOK order that is turned away.
-/

namespace Nanobook

inductive CreationKind where
  | order
  | stop
  | child
  | replacement
deriving DecidableEq, Repr

/-- An order at its creation. -/
structure Created where
  kind : CreationKind
  id : OrderId
  timestamp : Timestamp
deriving DecidableEq, Repr

namespace Exchange

/-! ## What an operation creates -/

/-- An order created from the counters. -/
def nextCreated (ex : Exchange) (kind : CreationKind) : Created :=
  ⟨kind, ex.book.nextOrderId, ex.book.nextTimestamp⟩

/-- The orders of the stops of one round. -/
def createdByTriggered (fuel : Nat) : List StopOrder → Exchange × Option Price → List Created
  | [], _ => []
  | stop :: rest, acc =>
      acc.1.nextCreated .child ::
        match submitTriggered fuel acc stop with
        | some acc => createdByTriggered fuel rest acc
        | none => []

/-- The orders created within `n` rounds of triggers. -/
def createdInRounds (fuel : Nat) : Nat → Exchange → List Created
  | 0, _ => []
  | n + 1, ex =>
      match ex.lastTradePrice with
      | none => []
      | some p =>
          createdByTriggered fuel (ex.collectTriggered p).2 ((ex.collectTriggered p).1, none) ++
            match ex.triggerRound fuel with
            | some (.inr ex) => createdInRounds fuel n ex
            | _ => []

def createdOnTrades (ex : Exchange) (fuel : Nat) (trades : List Trade) : List Created :=
  match trades.getLast? with
  | none => []
  | some last => createdInRounds fuel maxCascadeDepth { ex with lastTradePrice := some last.price }

/-- The kind of order an operation submits itself. -/
def creationKind (op : Op) : CreationKind :=
  match op.method with
  | .modify _ _ _ => .replacement
  | _ => .order

/-- The triggers of the trades of an operation's own submission; `modify` leaves them
unprocessed. -/
def createdAfter (fuel : Nat) (op : Op) (x : Option (Exchange × SubmitResult)) : List Created :=
  match op, x with
  | .modify _ _ _, _ => []
  | _, some (ex, r) => ex.createdOnTrades fuel r.trades
  | _, none => []

/-- The orders an operation creates, in this order. -/
def created (ex : Exchange) (fuel : Nat) (op : Op) : List Created :=
  match ex.directCall op, ex.newStop op with
  | some (ex₁, sub), _ => ex₁.nextCreated (creationKind op) ::
      createdAfter fuel op (ex₁.submitLimitInternalWithOwner fuel sub)
  | none, some order => ⟨.stop, order.id, order.timestamp⟩ ::
      if ((ex.logged op).insertStop order).shouldTrigger order then
        createdInRounds fuel maxCascadeDepth ((ex.logged op).insertStop order)
      else []
  | none, none => []

/-- A run from `Exchange::new` that does not clear its trades, with the orders it created. -/
inductive HistoryRun : Exchange → List Created → Prop
  | start : HistoryRun create []
  | step {ex ex' : Exchange} {log : List Created} {op : Op} {fuel : Nat} : HistoryRun ex log →
      op ≠ .clearTrades → ex.perform fuel op = some ex' →
      HistoryRun ex' (log ++ ex.created fuel op)

end Exchange

/-! ## Matches -/

/-- `t` was made after both its orders, and its aggressor was created after its passive order. -/
def Trade.Succeeds (t : Trade) (log : List Created) : Prop :=
  ∃ aggressor ∈ log, ∃ passive ∈ log, aggressor.id = t.aggressorOrderId ∧
    passive.id = t.passiveOrderId ∧ passive.id < aggressor.id ∧
    passive.timestamp < aggressor.timestamp ∧ aggressor.timestamp < t.timestamp

theorem Trade.Succeeds.append {t : Trade} {log : List Created} (h : t.Succeeds log)
    (cs : List Created) :
    t.Succeeds (log ++ cs) := by
  obtain ⟨a, ha, p, hp, h⟩ := h
  exact ⟨a, List.mem_append_left _ ha, p, List.mem_append_left _ hp, h⟩

/-- The trades up to now are numbered from `1` on and the clock ran between them. -/
structure Numbered (trades : List Trade) (b : OrderBook) : Prop where
  nextTradeId : b.nextTradeId = trades.length + 1
  ids : trades.map Trade.id = List.range' 1 trades.length
  times : trades.Pairwise fun t t' ↦ t.timestamp < t'.timestamp
  past : ∀ t ∈ trades, t.timestamp < b.nextTimestamp

namespace Numbered

variable {trades : List Trade} {b b' : OrderBook}

theorem congr (h : Numbered trades b) (hid : b'.nextTradeId = b.nextTradeId)
    (hts : b.nextTimestamp ≤ b'.nextTimestamp) : Numbered trades b' :=
  ⟨hid.trans h.nextTradeId, h.ids, h.times, fun t ht ↦ (h.past t ht).trans_le hts⟩

/-- A trade with the next id, made now. -/
theorem concat (h : Numbered trades b) {t : Trade} (hid : t.id = b.nextTradeId)
    (hts : t.timestamp = b.nextTimestamp) (hid' : b'.nextTradeId = b.nextTradeId + 1)
    (hts' : b'.nextTimestamp = b.nextTimestamp + 1) : Numbered (trades ++ [t]) b' where
  nextTradeId := by rw [hid', h.nextTradeId, List.length_append, List.length_singleton]
  ids := by
    rw [List.map_append, h.ids, List.length_append, List.length_singleton, List.range'_concat]
    simp only [List.map_cons, List.map_nil, hid, h.nextTradeId]
    rw [Nat.one_mul, Nat.add_comm]
  times := by
    refine List.pairwise_append.mpr ⟨h.times, List.pairwise_singleton _ _, fun x hx y hy ↦ ?_⟩
    obtain rfl := List.mem_singleton.mp hy
    exact hts ▸ h.past x hx
  past x hx := by
    rw [hts']
    rcases List.mem_append.mp hx with hx | hx
    · exact (h.past x hx).trans (Nat.lt_succ_self _)
    · obtain rfl := List.mem_singleton.mp hx
      exact hts ▸ Nat.lt_succ_self _

end Numbered

/-- The invariant of a match that started after the trades `past`. -/
structure MatchState.Timed (past : List Trade) (s : MatchState) : Prop where
  numbered : Numbered (past ++ s.result.trades) s.book
  incoming : s.incoming.timestamp < s.book.nextTimestamp
  later : ∀ t ∈ s.result.trades, s.incoming.timestamp < t.timestamp

namespace MatchState.Timed

variable {policy : StpPolicy} {past : List Trade} {s s' : MatchState}

theorem pass (h : s.Timed past) (hp : Pass policy s s') : s'.Timed past := by
  cases hp with
  | queues _ _ hid hts =>
      exact ⟨h.numbered.congr hid hts.ge, h.incoming.trans_le hts.ge, h.later⟩
  | cancelIncoming => exact ⟨h.numbered, h.incoming, h.later⟩
  | @cancelResting id =>
      obtain ⟨hid, hts⟩ := s.book.clock_cancelOrder id
      exact ⟨h.numbered.congr hid hts.ge, h.incoming.trans_le hts.ge, h.later⟩
  | @fillResting id o ho _ _ _ _ _ =>
      have hid : (s.fillResting o.price id o.remainingQuantity).book.nextTradeId =
          s.book.nextTradeId + 1 := by simp [MatchState.fillResting]
      have hts : (s.fillResting o.price id o.remainingQuantity).book.nextTimestamp =
          s.book.nextTimestamp + 1 := by simp [MatchState.fillResting]
      refine ⟨?_, ?_, fun t ht ↦ ?_⟩
      · rw [show past ++ (s.fillResting o.price id o.remainingQuantity).result.trades =
          (past ++ s.result.trades) ++ [_] from (List.append_assoc _ _ _).symm]
        exact h.numbered.concat rfl rfl hid hts
      · rw [hts]
        exact h.incoming.trans (Nat.lt_succ_self _)
      · rcases List.mem_append.mp ht with hold | hnew
        · exact h.later t hold
        · obtain rfl := List.mem_singleton.mp hnew
          exact h.incoming

theorem passes (h : s.Timed past) (hp : Passes policy s s') : s'.Timed past := by
  induction hp with
  | refl => exact h
  | tail _ hlast ih => exact ih.pass hlast

end MatchState.Timed

/-! ## The exchange -/

namespace Exchange

variable {ex ex' : Exchange} {log : List Created} {sub : Submission} {fuel : Nat} {r : SubmitResult}

/-- `log` is the history of the orders `ex` has seen. -/
structure Ordered (log : List Created) (ex : Exchange) : Prop where
  wf : ex.WF
  increasing : log.Pairwise fun c c' ↦ c.id < c'.id ∧ c.timestamp < c'.timestamp
  below : ∀ c ∈ log, c.id < ex.book.nextOrderId ∧ c.timestamp < ex.book.nextTimestamp
  orders : ∀ id o, ex.book.orders.get? id = some o →
    ∃ c ∈ log, c.kind ≠ .stop ∧ c.id = id ∧ c.timestamp = o.timestamp
  stops : ∀ id o, ex.stopBook.orders.get? id = some o → ∃ c ∈ log, c.kind = .stop ∧ c.id = id
  numbered : Numbered ex.trades ex.book
  trades : ∀ t ∈ ex.trades, t.Succeeds log

theorem clock_settledBook (sub : Submission) (s : MatchState) :
    (settledBook sub s).nextTradeId = s.book.nextTradeId ∧
      (settledBook sub s).nextTimestamp = s.book.nextTimestamp := by
  rcases settledBook_cases sub s with ⟨status, h⟩ | ⟨-, -, -, h⟩
  · rw [h]
    exact ⟨rfl, rfl⟩
  · rw [h]
    simp [OrderBook.addOrder]

theorem ordered_create : Ordered [] create where
  wf := wf_create
  increasing := .nil
  below _ h := by cases h
  orders _ _ h := by cases h
  stops _ _ h := by cases h
  numbered := ⟨rfl, rfl, .nil, fun _ h ↦ by cases h⟩
  trades _ h := by cases h

namespace Ordered

/-- A transition that creates nothing and records no trade. -/
theorem silent (h : Ordered log ex) (hw : ex'.WF) (hb : ex.book.Shrinks ex'.book)
    (hclock : ex'.book.nextTradeId = ex.book.nextTradeId ∧
      ex'.book.nextTimestamp = ex.book.nextTimestamp)
    (hs : ex.stopBook.Tame ex'.stopBook) (ht : ex'.trades = ex.trades) : Ordered log ex' where
  wf := hw
  increasing := h.increasing
  below c hc := by rw [hb.nextOrderId, hclock.2]; exact h.below c hc
  orders id o' ho' := by
    obtain ⟨o, ho, hso, -⟩ := hb.order id o' ho'
    rw [hso.timestamp]
    exact h.orders id o ho
  stops id o' ho' := by
    obtain ⟨o, ho⟩ := hs id o' ho'
    exact h.stops id o ho
  numbered := by
    rw [ht]
    exact h.numbered.congr hclock.1 hclock.2.ge
  trades := by rw [ht]; exact h.trades

/-- Creating an order from the counters. -/
theorem create (h : Ordered log ex) (kind : CreationKind) :
    (log ++ [ex.nextCreated kind]).Pairwise fun c c' ↦ c.id < c'.id ∧
      c.timestamp < c'.timestamp := by
  refine List.pairwise_append.mpr ⟨h.increasing, List.pairwise_singleton _ _, fun c hc c' hc' ↦ ?_⟩
  obtain rfl := List.mem_singleton.mp hc'
  exact h.below c hc

theorem below_create (h : Ordered log ex) (kind : CreationKind) {c : Created}
    (hc : c ∈ log ++ [ex.nextCreated kind]) :
    c.id < ex.book.nextOrderId + 1 ∧ c.timestamp < ex.book.nextTimestamp + 1 := by
  rcases List.mem_append.mp hc with hc | hc
  · exact (h.below c hc).imp Nat.lt_succ_of_lt Nat.lt_succ_of_lt
  · obtain rfl := List.mem_singleton.mp hc
    exact ⟨Nat.lt_succ_self _, Nat.lt_succ_self _⟩

theorem insertStop (h : Ordered log ex) {order : StopOrder} (hid : order.id = ex.book.nextOrderId)
    (hts : order.timestamp = ex.book.nextTimestamp) :
    Ordered (log ++ [⟨.stop, order.id, order.timestamp⟩]) (ex.insertStop order) := by
  have hc : (⟨.stop, order.id, order.timestamp⟩ : Created) = ex.nextCreated .stop := by
    rw [nextCreated, hid, hts]
  rw [hc]
  refine ⟨h.wf.insertStop hid, h.create .stop, fun c hc ↦ h.below_create .stop hc,
    fun id o ho ↦ ?_, fun id o ho ↦ ?_, h.numbered.congr rfl (Nat.le_succ _),
    fun t ht ↦ (h.trades t ht).append _⟩
  · obtain ⟨c, hc, hkind⟩ := h.orders id o ho
    exact ⟨c, List.mem_append_left _ hc, hkind⟩
  · rw [show (ex.insertStop order).stopBook.orders = ex.stopBook.orders.insert order.id order by
      simp only [Exchange.insertStop, StopBook.insert, StopBook.orders_updateStops],
      OrdMap.get?_insert] at ho
    split_ifs at ho with heq
    · exact ⟨_, List.mem_append_right _ (List.mem_singleton.mpr rfl), rfl, hid.symm.trans heq.symm⟩
    · obtain ⟨c, hc, hkind⟩ := h.stops id o ho
      exact ⟨c, List.mem_append_left _ hc, hkind⟩

theorem submit (h : Ordered log ex) {kind : CreationKind} (hkind : kind ≠ .stop)
    (hs : ex.submitLimitInternalWithOwner fuel sub = some (ex', r)) :
    Ordered (log ++ [ex.nextCreated kind]) ex' := by
  obtain ⟨hstops, -, -, -, -, hid⟩ := submit_frame hs
  have hw' := h.wf.submit hs
  have hold : ∀ id o, ex.book.orders.get? id = some o →
      ∃ c ∈ log ++ [ex.nextCreated kind], c.kind ≠ .stop ∧ c.id = id ∧
      c.timestamp = o.timestamp := by
    intro id o ho
    obtain ⟨c, hc, hrest⟩ := h.orders id o ho
    exact ⟨c, List.mem_append_left _ hc, hrest⟩
  have hstop : ∀ id o, ex'.stopBook.orders.get? id = some o →
      ∃ c ∈ log ++ [ex.nextCreated kind], c.kind = .stop ∧ c.id = id := by
    intro id o ho
    rw [hstops] at ho
    obtain ⟨c, hc, hrest⟩ := h.stops id o ho
    exact ⟨c, List.mem_append_left _ hc, hrest⟩
  have hnew : ex.nextCreated kind ∈ log ++ [ex.nextCreated kind] :=
    List.mem_append_right _ (List.mem_singleton.mpr rfl)
  rcases submit_passes h.wf hs with ⟨-, rfl, rfl⟩ | ⟨s, hp, heq⟩
  · exact ⟨hw', h.create kind, fun c hc ↦ h.below_create kind hc, hold, hstop,
      h.numbered.congr rfl (Nat.le_succ _), fun t ht ↦ (h.trades t ht).append _⟩
  · obtain rfl : ex' = _ := (congrArg Prod.fst heq).trans (settle_fst ex sub s)
    have htimed : s.Timed ex.trades := by
      refine MatchState.Timed.passes ⟨?_, Nat.lt_succ_self _, fun t ht ↦ absurd ht List.not_mem_nil⟩
        hp
      rw [show ex.trades ++ (ex.entry sub).result.trades = ex.trades from List.append_nil _]
      exact h.numbered.congr rfl (Nat.le_succ _)
    have hfol := hp.follows
    obtain ⟨hincid, hinctime⟩ : s.incoming.id = ex.book.nextOrderId ∧
        s.incoming.timestamp = ex.book.nextTimestamp := ⟨hfol.incoming.id, hfol.incoming.timestamp⟩
    obtain ⟨o, horders, hsettled⟩ := orders_settledBook sub s
    obtain ⟨hbid, hbts⟩ := clock_settledBook sub s
    have htick : ex.book.nextTimestamp + 1 ≤ s.book.nextTimestamp := by
      rw [← hinctime]
      exact htimed.incoming
    refine ⟨hw', h.create kind, fun c hc ↦ ?_, fun id x hx ↦ ?_, hstop,
      htimed.numbered.congr hbid hbts.ge, fun t ht ↦ ?_⟩
    · obtain ⟨hlt, hlt'⟩ := h.below_create kind hc
      exact ⟨hid ▸ hlt, hbts ▸ hlt'.trans_le htick⟩
    · simp only [horders, OrdMap.get?_insert] at hx
      split_ifs at hx with heq
      · cases hx
        exact ⟨_, hnew, hkind, (heq.trans hincid).symm, (hsettled.timestamp.trans hinctime).symm⟩
      · obtain ⟨x', hx', hso, -⟩ := hfol.book.order id x hx
        rw [hso.timestamp]
        exact hold id x' hx'
    · rcases List.mem_append.mp ht with ht | ht
      · exact (h.trades t ht).append _
      · -- a trade of this match: its passive order was there before
        obtain ⟨ts, hts, hmem⟩ := hfol.trades
        have ht' : t ∈ ts := by
          rw [hts] at ht
          simpa [entry, OrderBook.matchStart] using ht
        obtain ⟨hagg, p, hp', -⟩ := hmem t ht'
        obtain ⟨c, hc, -, hcid, hcts⟩ := h.orders _ p hp'
        obtain ⟨hlt, hlt'⟩ := h.below c hc
        refine ⟨_, hnew, c, List.mem_append_left _ hc, hagg.symm, hcid, hlt, hlt', ?_⟩
        have := htimed.later t ht
        rwa [hinctime] at this

/-! ### Triggers -/

theorem lastPrice (h : Ordered log ex) (last : Option Price) :
    Ordered log { ex with lastTradePrice := last } :=
  ⟨⟨h.wf.book, h.wf.stops⟩, h.increasing, h.below, h.orders, h.stops, h.numbered, h.trades⟩

theorem collectTriggered (h : Ordered log ex) (p : Price) :
    Ordered log (ex.collectTriggered p).1 := by
  have htame : ex.stopBook.Tame (ex.collectTriggered p).1.stopBook :=
    (ex.stopBook.tame_updateTrailingStops p).trans (StopBook.tame_collectTriggered _ p)
  exact h.silent (h.wf.shrinks (.refl _) htame) (.refl _) ⟨rfl, rfl⟩ htame rfl

theorem foldlM_submitTriggered {triggered : List StopOrder} {acc acc' : Exchange × Option Price}
    (h : Ordered log acc.1) (hf : triggered.foldlM (submitTriggered fuel) acc = some acc') :
    Ordered (log ++ createdByTriggered fuel triggered acc) acc'.1 := by
  induction triggered generalizing acc log with
  | nil =>
      cases hf
      simpa only [createdByTriggered, List.append_nil] using h
  | cons stop rest ih =>
      obtain ⟨acc₁, h₁, h₂⟩ := Option.bind_eq_some_iff.mp hf
      obtain ⟨⟨ex₁, r⟩, hsub, hacc⟩ := Option.bind_eq_some_iff.mp h₁
      have hex : acc₁.1 = ex₁ := by cases hacc; rfl
      have hnext :=
        ih (hex ▸ h.submit (show CreationKind.child ≠ CreationKind.stop by simp) hsub) h₂
      rw [List.append_assoc, List.singleton_append] at hnext
      simpa only [createdByTriggered, h₁] using hnext

theorem triggerRounds {n : Nat} (h : Ordered log ex)
    (hr : Exchange.triggerRounds fuel n ex = some ex') :
    Ordered (log ++ createdInRounds fuel n ex) ex' := by
  induction n generalizing ex log with
  | zero =>
      cases hr
      simpa only [createdInRounds, List.append_nil] using h
  | succ n ih =>
      obtain ⟨x, hx, hr⟩ := Option.bind_eq_some_iff.mp hr
      obtain hnone | ⟨p, hp⟩ := Option.eq_none_or_eq_some ex.lastTradePrice
      · simp only [createdInRounds, hnone]
        simp only [triggerRound, hnone] at hx
        cases hx
        cases hr
        simpa only [List.append_nil] using h
      · simp only [createdInRounds, hx, hp]
        simp only [triggerRound, hp] at hx
        have hcol := h.collectTriggered p
        split_ifs at hx with hempty
        · cases hx
          cases hr
          have hnil : (ex.collectTriggered p).2 = [] := by simpa using hempty
          simpa only [hnil, createdByTriggered, List.append_nil] using hcol
        · obtain ⟨acc, hf, hx⟩ := Option.bind_eq_some_iff.mp hx
          have hacc := hcol.foldlM_submitTriggered hf
          split at hx
          · cases hx
            rw [← List.append_assoc]
            exact ih (hacc.lastPrice _) hr
          · cases hx
            cases hr
            simpa only [List.append_nil] using hacc

theorem onTrades {trades : List Trade} (h : Ordered log ex)
    (ho : ex.onTrades fuel trades = some ex') :
    Ordered (log ++ ex.createdOnTrades fuel trades) ex' := by
  simp only [Exchange.onTrades] at ho
  simp only [createdOnTrades]
  cases hlast : trades.getLast? with
  | none =>
      rw [hlast] at ho
      cases ho
      simpa only [List.append_nil] using h
  | some last =>
      rw [hlast] at ho
      exact (h.lastPrice _).triggerRounds ho

/-! ### Operations -/

theorem logged (h : Ordered log ex) (op : Op) : Ordered log (ex.logged op) := by
  obtain ⟨events, hlog⟩ := ex.logged_eq op
  rw [hlog]
  exact ⟨⟨h.wf.book, h.wf.stops⟩, h.increasing, h.below, h.orders, h.stops, h.numbered, h.trades⟩

theorem cancelOrder (h : Ordered log ex) (id : OrderId) :
    Ordered log { ex with book := (ex.book.cancelOrder id).1 } :=
  h.silent (h.wf.shrinks (ex.book.shrinks_cancelOrder id) (.refl _))
  (ex.book.shrinks_cancelOrder id)
    (ex.book.clock_cancelOrder id) (.refl _) rfl

theorem cancelInternal (h : Ordered log ex) (id : OrderId) :
    Ordered log (ex.cancelInternal id).1 := by
  rcases ex.cancelInternal_cases id with ⟨-, heq⟩ | ⟨-, heq⟩
  · rw [heq]
    have htame := ex.stopBook.tame_cancel id
    exact h.silent (h.wf.shrinks (.refl _) htame) (.refl _) ⟨rfl, rfl⟩ htame rfl
  · rw [heq]
    exact h.cancelOrder id

theorem creationKind_ne_stop (op : Op) : creationKind op ≠ .stop := by
  simp only [creationKind]
  split <;> simp

/-- The public submissions. -/
theorem submission {op : Op} (h : Ordered log ex) (hop : ∀ id p q, op.method ≠ .modify id p q)
    (hcall : ex.directCall op = some (ex.logged op, sub)) (hp : ex.perform fuel op = some ex') :
    Ordered (log ++ ex.created fuel op) ex' := by
  rw [perform_submission hop hcall] at hp
  obtain ⟨⟨ex₂, r⟩, h₁, h₂⟩ := Option.bind_eq_some_iff.mp hp
  have hafter : createdAfter fuel op (some (ex₂, r)) = ex₂.createdOnTrades fuel r.trades := by
    cases op with
    | modify id p q => exact absurd rfl (hop id p q)
    | _ => rfl
  have hsub := (h.logged op).submit (creationKind_ne_stop op) h₁
  have := hsub.onTrades h₂
  rw [List.append_assoc, List.singleton_append] at this
  simpa only [created, hcall, h₁, hafter] using this

/-- The public stop submissions. -/
theorem newStop {op : Op} {order : StopOrder} (h : Ordered log ex) (hnone : ex.directCall op = none)
    (hstop : ex.newStop op = some order) (hid : order.id = (ex.logged op).book.nextOrderId)
    (hts : order.timestamp = (ex.logged op).book.nextTimestamp)
    (hp : ex.perform fuel op = some ex') : Ordered (log ++ ex.created fuel op) ex' := by
  have hins := (h.logged op).insertStop hid hts
  rw [perform_newStop hstop] at hp
  simp only [created, hnone, hstop]
  split_ifs at hp ⊢ with hs
  · have := hins.triggerRounds hp
    rwa [List.append_assoc] at this
  · cases hp
    exact hins

/-- A replacement, with what is created for its trades. -/
theorem modify {op : Op} {id : OrderId} {p : Price} {q : Quantity} {ex₁ : Exchange}
    {r : ModifyResult} (h : Ordered log ex) (hop : op.method = .modify id p q)
    (hm : (ex.logged op).modifyInternal fuel id p q = some (ex₁, r)) :
    (ex.created fuel op = [] ∧ r.trades = [] ∧ Ordered log ex₁) ∨
      ∃ c r₁, Ordered (log ++ [c]) ex₁ ∧ r.trades = r₁.trades ∧
        ex.created fuel op = c :: createdAfter fuel op (some (ex₁, r₁)) := by
  obtain ⟨events, hlog⟩ := ex.logged_eq op
  have hbook : (ex.logged op).book = ex.book := by rw [hlog]
  have hstop : ex.newStop op = none := by simp only [Exchange.newStop, hop]
  cases hcall : ex.directCall op with
  | none =>
      obtain ⟨r', htr, hmod⟩ :=
        modifyInternal_of_directCall_none ex (ex.logged op) op hop hbook hcall
      rw [hmod] at hm
      cases hm
      exact .inl ⟨by simp only [created, hcall, hstop], htr, h.logged op⟩
  | some y =>
      obtain ⟨ex₂, sub⟩ := y
      obtain ⟨n, hmod⟩ := modifyInternal_of_directCall_some op hop rfl hbook hcall
      rw [hmod] at hm
      obtain ⟨⟨ex₃, r₁⟩, hsub, heq⟩ := Option.map_eq_some_iff.mp hm
      cases heq
      obtain ⟨o, -, -, -, hex₂, -⟩ := directCall_modify hop hcall
      have hord : Ordered log ex₂ := by
        rw [hex₂, ← hbook]
        exact (h.logged op).cancelOrder id
      refine .inr ⟨_, r₁, hord.submit (creationKind_ne_stop op) hsub, rfl, ?_⟩
      simp only [created, hcall, hsub]

/-- The two ways to modify, which differ in what happens to the trades. -/
theorem modifyOp {id : OrderId} {p : Price} {q : Quantity} (h : Ordered log ex)
    (hp : ex.perform fuel (.modify id p q) = some ex') :
    Ordered (log ++ ex.created fuel (.modify id p q)) ex' := by
  obtain ⟨⟨ex₁, r⟩, hm, rfl⟩ := Option.map_eq_some_iff.mp hp
  rcases h.modify (show (Op.modify id p q).method = .modify id p q from rfl)
    hm with ⟨hnil, -, hord⟩ | ⟨c, r₁, hord, -, hc⟩
  · rwa [hnil, List.append_nil]
  · rwa [hc]

theorem applyModify {id : OrderId} {p : Price} {q : Quantity} (h : Ordered log ex)
    (hp : ex.perform fuel (.apply (.modify id p q)) = some ex') :
    Ordered (log ++ ex.created fuel (.apply (.modify id p q))) ex' := by
  obtain ⟨⟨ex₂, r₂⟩, hr, rfl⟩ := Option.map_eq_some_iff.mp hp
  obtain ⟨⟨ex₁, r⟩, hm, hr⟩ := Option.bind_eq_some_iff.mp hr
  obtain ⟨ex₃, hon, hr⟩ := Option.bind_eq_some_iff.mp hr
  cases hr
  rcases h.modify (show (Op.apply (.modify id p q)).method = .modify id p q from rfl)
    hm with ⟨hnil, htr, hord⟩ | ⟨c, r₁, hord, htr, hc⟩
  · simp only [htr, Exchange.onTrades, List.getLast?_nil] at hon
    cases hon
    rwa [hnil, List.append_nil]
  · simp only [htr] at hon
    have := hord.onTrades hon
    rw [List.append_assoc, List.singleton_append] at this
    rwa [hc]

/-- Every operation keeps the history. -/
theorem perform {op : Op} (h : Ordered log ex) (hop : op ≠ .clearTrades)
    (hp : ex.perform fuel op = some ex') : Ordered (log ++ ex.created fuel op) ex' := by
  have hcancel : ∀ id, Ordered (log ++ []) ((ex.record (.cancel id)).cancelInternal id).1 := by
    intro id
    rw [List.append_nil]
    exact (h.logged (.cancel id)).cancelInternal id
  cases op with
  | submitLimit side price q tif => exact h.submission (by simp [Op.method]) rfl hp
  | submitLimitWithOwner side price q tif owner => exact h.submission (by simp [Op.method]) rfl hp
  | submitMarket side q => exact h.submission (by simp [Op.method]) rfl hp
  | cancel id => cases hp; exact hcancel id
  | modify id p q => exact h.modifyOp hp
  | submitStopMarket side stopPrice q => exact h.newStop rfl rfl rfl rfl hp
  | submitStopLimit side stopPrice limitPrice q tif => exact h.newStop rfl rfl rfl rfl hp
  | submitTrailingStopMarket side stopPrice q trail => exact h.newStop rfl rfl rfl rfl hp
  | submitTrailingStopLimit side stopPrice limitPrice q tif trail =>
      exact h.newStop rfl rfl rfl rfl hp
  | apply event =>
      cases event with
      | submitLimit side price q tif => exact h.submission (by simp [Op.method, Event.op]) rfl hp
      | submitMarket side q => exact h.submission (by simp [Op.method, Event.op]) rfl hp
      | cancel id => cases hp; exact hcancel id
      | modify id p q => exact h.applyModify hp
      | submitStopMarket side stopPrice q => exact h.newStop rfl rfl rfl rfl hp
      | submitStopLimit side stopPrice limitPrice q tif => exact h.newStop rfl rfl rfl rfl hp
      | submitTrailingStopMarket side stopPrice q trail => exact h.newStop rfl rfl rfl rfl hp
      | submitTrailingStopLimit side stopPrice limitPrice q tif trail =>
          exact h.newStop rfl rfl rfl rfl hp
  | setStpPolicy policy =>
      cases hp
      rw [show ex.created fuel (.setStpPolicy policy) = [] from rfl, List.append_nil]
      exact ⟨⟨h.wf.book, h.wf.stops⟩, h.increasing, h.below, h.orders, h.stops, h.numbered,
        h.trades⟩
  | compact =>
      cases hp
      rw [show ex.created fuel .compact = [] from rfl, List.append_nil]
      exact h.silent (h.wf.shrinks ex.book.shrinks_compact (.refl _)) ex.book.shrinks_compact
        ⟨rfl, rfl⟩ (.refl _) rfl
  | clearOrderHistory =>
      cases hp
      rw [show ex.created fuel .clearOrderHistory = [] from rfl, List.append_nil]
      have htame := ex.stopBook.tame_clearHistory
      exact h.silent (h.wf.shrinks ex.book.shrinks_clearHistory htame) ex.book.shrinks_clearHistory
        ⟨rfl, rfl⟩ htame rfl
  | clearTrades => exact absurd rfl hop
  | clearEvents =>
      cases hp
      rw [show ex.created fuel .clearEvents = [] from rfl, List.append_nil]
      exact ⟨⟨h.wf.book, h.wf.stops⟩, h.increasing, h.below, h.orders, h.stops, h.numbered,
        h.trades⟩

end Ordered

/-! ## Every submission is in the history -/

/-- `c` was created from the counters of `ex`. -/
def CreatedIn (ex : Exchange) (c : Created) : Prop :=
  c.id = ex.book.nextOrderId ∧ c.timestamp = ex.book.nextTimestamp

theorem exists_createdByTriggered {before after : List StopOrder} {stop : StopOrder}
    {acc acc' : Exchange × Option Price}
    (h : before.foldlM (submitTriggered fuel) acc = some acc') :
    ∃ c ∈ createdByTriggered fuel (before ++ stop :: after) acc, acc'.1.CreatedIn c := by
  induction before generalizing acc with
  | nil =>
      cases h
      exact ⟨_, List.mem_cons_self, rfl, rfl⟩
  | cons first before ih =>
      obtain ⟨acc₁, h₁, h₂⟩ := Option.bind_eq_some_iff.mp h
      obtain ⟨c, hc, hin⟩ := ih h₂
      refine ⟨c, ?_, hin⟩
      simp only [List.cons_append, createdByTriggered, h₁]
      exact List.mem_cons_of_mem _ hc

theorem TriggerCalls.exists_created {n : Nat} (h : TriggerCalls fuel n ex ex' sub) :
    ∃ c ∈ createdInRounds fuel n ex, ex'.CreatedIn c := by
  induction h with
  | child hp hcol hfold =>
      obtain ⟨c, hc, hin⟩ := exists_createdByTriggered hfold
      refine ⟨c, ?_, hin⟩
      simp only [createdInRounds, hp, hcol]
      exact List.mem_append_left _ hc
  | @later n ex ex₁ ex₂ sub hround _ ih =>
      obtain ⟨c, hc, hin⟩ := ih
      refine ⟨c, ?_, hin⟩
      cases hp : ex.lastTradePrice with
      | none => simp [triggerRound, hp] at hround
      | some p =>
          simp only [createdInRounds, hp, hround]
          exact List.mem_append_right _ hc

/-- Whatever an operation submits, itself or for a triggered stop, it creates. -/
theorem Calls.exists_created {op : Op} (h : ex.Calls fuel op ex' sub) :
    ∃ c ∈ ex.created fuel op, ex'.CreatedIn c := by
  cases h with
  | direct hcall =>
      simp only [created, hcall]
      exact ⟨_, List.mem_cons_self, rfl, rfl⟩
  | trigger htrig hcalls =>
      obtain ⟨c, hc, hin⟩ := hcalls.exists_created
      refine ⟨c, ?_, hin⟩
      cases htrig with
      | @trades ex₁ ex₂ sub r t hop hcall hsub ht =>
          have hafter :
            createdAfter fuel op (some (ex₂, r)) = ex₂.createdOnTrades fuel r.trades := by
            cases op with
            | modify id p q => exact absurd rfl (hop id p q)
            | _ => rfl
          simp only [created, hcall, hsub, hafter, createdOnTrades, ht]
          exact List.mem_cons_of_mem _ hc
      | @stop order hstop hs =>
          have hnone : ex.directCall op = none := by
            simp only [newStop] at hstop
            simp only [directCall]
            split at hstop
            all_goals first | (next hm => simp only [hm]) | cases hstop
          simp only [created, hnone, hstop, hs, if_true]
          exact List.mem_cons_of_mem _ hc

theorem HistoryRun.ordered (h : HistoryRun ex log) : Ordered log ex := by
  induction h with
  | start => exact ordered_create
  | step _ hop hp ih => exact ih.perform hop hp

/-- In a run that does not clear its trades, these are numbered `1, 2, 3, …` in the order they were
recorded in and stamped with increasing timestamps; the orders created, of whatever kind, have
increasing ids, also where they were stored or are waiting as stops; and every trade has an
aggressor created after its passive order, and is itself later than both. -/
theorem chronology_of_run (h : HistoryRun ex log) :
    ex.trades.map Trade.id = List.range' 1 ex.trades.length ∧
    (ex.trades.Pairwise fun t t' ↦ t.timestamp < t'.timestamp) ∧
    (log.Pairwise fun c c' ↦ c.id < c'.id) ∧
    (∀ id o, ex.book.orders.get? id = some o →
      ∃ c ∈ log, c.kind ≠ .stop ∧ c.id = id ∧ c.timestamp = o.timestamp) ∧
    (∀ id o, ex.stopBook.orders.get? id = some o → ∃ c ∈ log, c.kind = .stop ∧ c.id = id) ∧
    ∀ t ∈ ex.trades, ∃ aggressor ∈ log, ∃ passive ∈ log, aggressor.id = t.aggressorOrderId ∧
      passive.id = t.passiveOrderId ∧ passive.id < aggressor.id ∧
      passive.timestamp < aggressor.timestamp ∧ aggressor.timestamp < t.timestamp ∧
      passive.timestamp < t.timestamp := by
  have ho := h.ordered
  refine ⟨ho.numbered.ids, ho.numbered.times, ho.increasing.imp And.left, ho.orders, ho.stops,
    fun t ht ↦ ?_⟩
  obtain ⟨a, ha, p, hp, hagg, hpas, hid, hts, hlater⟩ := ho.trades t ht
  exact ⟨a, ha, p, hp, hagg, hpas, hid, hts, hlater, hts.trans hlater⟩

/-- An order, a stop, the order that triggers it, its child, and an order with its replacement. -/
theorem chronology_of_run_kinds : ∃ ex log, HistoryRun ex log ∧
    log.map (fun c ↦ (c.kind, c.id)) =
      [(.order, 1), (.stop, 2), (.order, 3), (.child, 4), (.order, 5), (.replacement, 6)] ∧
    ex.trades.map Trade.id = [1, 2] ∧ log.Pairwise fun c c' ↦ c.id < c'.id := by
  obtain ⟨ex, log, hrun, hlog, htrades⟩ : ∃ ex log, HistoryRun ex log ∧
      log.map (fun c ↦ (c.kind, c.id)) =
        [(.order, 1), (.stop, 2), (.order, 3), (.child, 4), (.order, 5), (.replacement, 6)] ∧
      ex.trades.length = 2 :=
    ⟨_, _, @HistoryRun.step _ _ _ (.modify 5 104 4) 5
      (@HistoryRun.step _ _ _ (.submitLimit .sell 105 4 .gtc) 5
        (@HistoryRun.step _ _ _ (.submitLimit .buy 100 3 .gtc) 5
          (@HistoryRun.step _ _ _ (.submitStopMarket .buy 100 2) 5
            (@HistoryRun.step _ _ _ (.submitLimit .sell 100 5 .gtc) 5 .start (by simp) rfl)
            (by simp) rfl) (by simp) rfl) (by simp) rfl) (by simp) rfl, rfl, rfl⟩
  have hc := chronology_of_run hrun
  exact ⟨ex, log, hrun, hlog, by rw [hc.1, htrades]; rfl, hc.2.2.1⟩

end Exchange

end Nanobook
