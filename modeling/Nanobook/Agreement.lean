import Nanobook.Fuel
import Nanobook.Invariant.Exchange

/-!
# The public methods and the replay of their events

Every operation is written twice: as a public method, and as an arm of `apply` for the event the
method records.  The two agree but for `modify`, which leaves the trades of its replacement
unprocessed where `apply` passes them on to the stop triggers.  Replaying a recorded history is
exact as long as no step runs into this and no order has an owner: the log has no room for owners.
-/

namespace Nanobook

namespace Exchange

/-! ## One operation -/

/-- The state and the trades of the public method that records an event. -/
def callReport (ex : Exchange) (fuel : Nat) : Event → Option (Exchange × List Trade)
  | .submitLimit side price quantity tif =>
      (ex.submitLimit fuel side price quantity tif).map fun x ↦ (x.1, x.2.trades)
  | .submitMarket side quantity =>
      (ex.submitMarket fuel side quantity).map fun x ↦ (x.1, x.2.trades)
  | .cancel orderId => some ((ex.cancel orderId).1, [])
  | .modify orderId newPrice newQuantity =>
      (ex.modify fuel orderId newPrice newQuantity).map fun x ↦ (x.1, x.2.trades)
  | .submitStopMarket side stopPrice quantity =>
      (ex.submitStopMarket fuel side stopPrice quantity).map fun x ↦ (x.1, [])
  | .submitStopLimit side stopPrice limitPrice quantity tif =>
      (ex.submitStopLimit fuel side stopPrice limitPrice quantity tif).map fun x ↦ (x.1, [])
  | .submitTrailingStopMarket side stopPrice quantity trailMethod =>
      (ex.submitTrailingStopMarket fuel side stopPrice quantity trailMethod).map fun x ↦ (x.1, [])
  | .submitTrailingStopLimit side stopPrice limitPrice quantity tif trailMethod =>
      (ex.submitTrailingStopLimit fuel side stopPrice limitPrice quantity tif trailMethod).map
        fun x ↦ (x.1, [])

/-- The state and the trades of `apply`. -/
def applyReport (ex : Exchange) (fuel : Nat) (event : Event) : Option (Exchange × List Trade) :=
  (ex.apply fuel event).map fun x ↦ (x.1, x.2.trades)

/-- The public method and `apply` return the same state and the same trades, or neither returns. -/
def Agrees (ex : Exchange) (event : Event) : Prop :=
  ∀ x, (∃ fuel, ex.callReport fuel event = some x) ↔ ∃ fuel, ex.applyReport fuel event = some x

/-- Apart from `modify` the two are the same computation. -/
theorem callReport_eq_applyReport {event : Event} (ex : Exchange) (fuel : Nat)
    (hev : ∀ id p q, event ≠ .modify id p q) :
    ex.callReport fuel event = ex.applyReport fuel event := by
  have hsub : ∀ x : Option (Exchange × SubmitResult),
      ((x.bind fun y ↦ (y.1.onTrades fuel y.2.trades).bind fun ex ↦ some (ex, y.2)).map
        fun y ↦ (y.1, y.2.trades)) =
      (x.bind fun y ↦ (y.1.onTrades fuel y.2.trades).bind
        fun ex ↦ some (ex, ApplyResult.mk y.2.trades)).map fun y ↦ (y.1, y.2.trades) := by
    intro x
    cases x with
    | none => rfl
    | some y => cases h : y.1.onTrades fuel y.2.trades <;> simp [h]
  have hstop : ∀ x : Option (Exchange × StopSubmitResult),
      (x.map fun y ↦ (y.1, ([] : List Trade))) =
        (x.bind fun y ↦ some (y.1, ApplyResult.mk [])).map fun y ↦ (y.1, y.2.trades) := by
    intro x
    cases x <;> rfl
  cases event with
  | modify id p q => exact absurd rfl (hev id p q)
  | submitLimit side price quantity tif => exact hsub _
  | submitMarket side quantity => exact hsub _
  | cancel id => rfl
  | submitStopMarket side stopPrice quantity => exact hstop _
  | submitStopLimit side stopPrice limitPrice quantity tif => exact hstop _
  | submitTrailingStopMarket side stopPrice quantity trailMethod =>
      simp only [callReport, applyReport, submitTrailingStopMarket, apply, applyInternal]
      exact hstop _
  | submitTrailingStopLimit side stopPrice limitPrice quantity tif trailMethod =>
      simp only [callReport, applyReport, submitTrailingStopLimit, apply, applyInternal]
      exact hstop _

/-! ## Triggers that change nothing -/

/-- A trade at `p` finds the last price and the stop book as it would leave them. -/
def Quiet (ex : Exchange) (p : Price) : Prop :=
  ex.lastTradePrice = some p ∧
    (ex.stopBook.updateTrailingStops p).collectTriggered p = (ex.stopBook, [])

/-- Submitting stops that have triggered uses up ids. -/
theorem nextOrderId_lt_of_triggered {fuel : Nat} {triggered : List StopOrder}
    {acc acc' : Exchange × Option Price} (hne : triggered ≠ [])
    (h : triggered.foldlM (submitTriggered fuel) acc = some acc') :
    acc.1.book.nextOrderId < acc'.1.book.nextOrderId := by
  cases triggered with
  | nil => exact absurd rfl hne
  | cons stop rest =>
      obtain ⟨acc₁, h₁, h₂⟩ := Option.bind_eq_some_iff.mp h
      obtain ⟨⟨ex₁, r⟩, hsub, hacc⟩ := Option.bind_eq_some_iff.mp h₁
      cases hacc
      have hid := (submit_frame hsub).2.2.2.2.2
      have hpath :=
        foldlM_submitTriggered_path (K := fun _ ↦ True) (P := fun _ _ ↦ True) (Q := fun _ _ ↦ True)
        (fun _ _ _ _ _ _ _ ↦ trivial) h₂
      exact lt_of_lt_of_le (hid ▸ Nat.lt_succ_self _) hpath.frame.2.2

/-- A round without triggered stops ends the cascade. -/
theorem triggerRounds_of_quiet {ex : Exchange} {p : Price} {fuel n : Nat} (h : ex.Quiet p) :
    triggerRounds fuel (n + 1) ex = some ex := by
  have hcol : ex.collectTriggered p = (ex, []) := by simp only [collectTriggered, h.2]
  simp only [triggerRounds, triggerRound, h.1, hcol]
  rfl

/-- A cascade that leaves the book's counter where it was triggered nothing. -/
theorem triggerRounds_eq_of_nextOrderId {ex ex' : Exchange} {p : Price} {fuel n : Nat}
    (hp : ex.lastTradePrice = some p) (h : triggerRounds fuel (n + 1) ex = some ex')
    (hid : ex'.book.nextOrderId = ex.book.nextOrderId) : ex.collectTriggered p = (ex', []) := by
  obtain ⟨x, hx, h⟩ := Option.bind_eq_some_iff.mp h
  simp only [triggerRound, hp] at hx
  split_ifs at hx with hempty
  · cases hx
    cases h
    exact Prod.ext rfl (by simpa using hempty)
  · -- a triggered stop would have taken an id
    exfalso
    obtain ⟨acc, hacc, hx⟩ := Option.bind_eq_some_iff.mp hx
    have hlt := nextOrderId_lt_of_triggered (by simpa using hempty) hacc
    have hstart : (ex.collectTriggered p).1.book = ex.book := rfl
    rw [hstart] at hlt
    have hle : acc.1.book.nextOrderId ≤ ex'.book.nextOrderId := by
      split at hx
      · cases hx
        exact (triggerRounds_path (K := fun _ ↦ True) (P := fun _ _ ↦ True) (Q := fun _ _ ↦ True)
          (fun _ _ _ ↦ trivial) h).frame.2.2
      · cases hx
        cases h
        exact le_rfl
    lia

/-- Passing a trade on to the triggers leads back to `ex` only if the exchange is quiet there. -/
theorem onTrades_eq_self_iff {ex : Exchange} {trades : List Trade} {t : Trade}
    (ht : trades.getLast? = some t) :
    (∃ fuel, ex.onTrades fuel trades = some ex) ↔ ex.Quiet t.price := by
  constructor
  · rintro ⟨fuel, h⟩
    simp only [onTrades, ht] at h
    have hset : ({ ex with lastTradePrice := some t.price } : Exchange).lastTradePrice =
        some t.price := rfl
    have hcol := triggerRounds_eq_of_nextOrderId hset h rfl
    have hlast : some t.price = ex.lastTradePrice := congrArg (fun x ↦ x.1.lastTradePrice) hcol
    have hstops := congrArg (fun x ↦ x.1.stopBook) hcol
    have htriggered := congrArg Prod.snd hcol
    exact ⟨hlast.symm, Prod.ext hstops htriggered⟩
  · intro h
    refine ⟨0, ?_⟩
    simp only [onTrades, ht]
    rw [show ({ ex with lastTradePrice := some t.price } : Exchange) = ex by rw [← h.1]]
    exact triggerRounds_of_quiet h

/-! ## Where the two differ -/

/-- The event is a `modify` whose replacement, submitted once the old order is cancelled, trades at
a last price the exchange is not quiet at: `modify` skips triggers that `apply` processes. -/
def SkipsTriggers (ex : Exchange) : Event → Prop
  | .modify id p q => ∃ ex₁ sub fuel ex₂ r t, ex.directCall (.modify id p q) = some (ex₁, sub) ∧
      ex₁.submitLimitInternalWithOwner fuel sub = some (ex₂, r) ∧
      r.trades.getLast? = some t ∧ ¬ ex.Quiet t.price
  | _ => False

section Modify

variable {ex ex₁ : Exchange} {id : OrderId} {p : Price} {q : Quantity} {sub : Submission}

/-- The cancellation that precedes the replacement touches the book only. -/
theorem quiet_of_directCall (h : ex.directCall (.modify id p q) = some (ex₁, sub)) (t : Price) :
    ex₁.Quiet t ↔ ex.Quiet t := by
  have hop : (Op.modify id p q).method = .modify id p q := rfl
  obtain ⟨o, -, -, -, rfl, -⟩ := directCall_modify hop h
  exact Iff.rfl

/-- Triggers are skipped at the last trade of the replacement. -/
theorem skipsTriggers_iff {fuel : Nat} {ex₂ : Exchange} {r : SubmitResult}
    (hcall : ex.directCall (.modify id p q) = some (ex₁, sub))
    (hsub : ex₁.submitLimitInternalWithOwner fuel sub = some (ex₂, r)) :
    ex.SkipsTriggers (.modify id p q) ↔ ∃ t, r.trades.getLast? = some t ∧ ¬ ex₂.Quiet t.price := by
  obtain ⟨hstop, hlast, -⟩ := submit_frame hsub
  have hquiet : ∀ t, ex₂.Quiet t ↔ ex.Quiet t := fun t ↦ by
    rw [← quiet_of_directCall hcall]
    simp only [Quiet, hstop, hlast]
  constructor
  · rintro ⟨ex₁', sub', fuel', ex₂', r', t, hcall', hsub', ht, hq⟩
    rw [hcall] at hcall'
    cases hcall'
    have heq := (submit_mono (le_max_left fuel fuel') hsub).symm.trans
      (submit_mono (le_max_right fuel fuel') hsub')
    cases heq
    exact ⟨t, ht, by rwa [hquiet]⟩
  · rintro ⟨t, ht, hq⟩
    exact ⟨ex₁, sub, fuel, ex₂, r, t, hcall, hsub, ht, by rwa [← hquiet]⟩

/-- `apply` does what `modify` does and then processes the trades. -/
theorem applyReport_modify (ex : Exchange) (fuel : Nat) (id : OrderId) (p : Price) (q : Quantity) :
    ex.applyReport fuel (.modify id p q) =
      (ex.modify fuel id p q).bind fun x ↦ (x.1.onTrades fuel x.2.trades).map
        fun ex' ↦ (ex', x.2.trades) := by
  simp only [applyReport, apply, applyInternal, modify]
  cases (ex.record (.modify id p q)).modifyInternal fuel id p q with
  | none => rfl
  | some x => cases h : x.1.onTrades fuel x.2.trades <;> simp [h]

theorem callReport_modify_unique {fuel fuel' : Nat} {x y : Exchange × List Trade}
    (hx : ex.callReport fuel (.modify id p q) = some x)
    (hy : ex.callReport fuel' (.modify id p q) = some y) : x = y := by
  obtain ⟨u, hu, rfl⟩ := Option.map_eq_some_iff.mp hx
  obtain ⟨v, hv, rfl⟩ := Option.map_eq_some_iff.mp hy
  have huv := (modifyInternal_mono (le_max_left fuel fuel') hu).symm.trans
    (modifyInternal_mono (le_max_right fuel fuel') hv)
  rw [Option.some.inj huv]

/-- Where `modify` returns, `apply` agrees with it if processing the trades leads nowhere else. -/
theorem agrees_modify_iff {fuel : Nat} {ex' : Exchange} {r : ModifyResult}
    (h : ex.modify fuel id p q = some (ex', r)) :
    ex.Agrees (.modify id p q) ↔ ∃ fuel, ex'.onTrades fuel r.trades = some ex' := by
  have huniq : ∀ {fuel' y}, ex.modify fuel' id p q = some y → y = (ex', r) := fun {fuel' y} hy ↦
    Option.some.inj ((modifyInternal_mono (le_max_left fuel' fuel) hy).symm.trans
      (modifyInternal_mono (le_max_right fuel' fuel) h))
  have happ : ∀ x, (∃ fuel, ex.applyReport fuel (.modify id p q) = some x) ↔
      ∃ fuel, ex'.onTrades fuel r.trades = some x.1 ∧ x.2 = r.trades := by
    intro x
    simp only [applyReport_modify]
    constructor
    · rintro ⟨fuel', hx⟩
      obtain ⟨y, hy, hx⟩ := Option.bind_eq_some_iff.mp hx
      obtain rfl := huniq hy
      obtain ⟨ex₃, hon, rfl⟩ := Option.map_eq_some_iff.mp hx
      exact ⟨fuel', hon, rfl⟩
    · rintro ⟨fuel', hon, hx⟩
      refine ⟨max fuel fuel', Option.bind_eq_some_iff.mpr
        ⟨_, modifyInternal_mono (le_max_left _ _) h, Option.map_eq_some_iff.mpr
          ⟨x.1, onTrades_mono (le_max_right _ _) hon, ?_⟩⟩⟩
      exact Prod.ext rfl hx.symm
  have hcall : ∀ x, (∃ fuel, ex.callReport fuel (.modify id p q) = some x) ↔
    x = (ex', r.trades) := by
    intro x
    simp only [callReport, Option.map_eq_some_iff]
    constructor
    · rintro ⟨fuel', y, hy, rfl⟩
      rw [huniq hy]
    · rintro rfl
      exact ⟨fuel, _, h, rfl⟩
  constructor
  · intro hag
    obtain ⟨fuel', hon, -⟩ := (happ _).mp ((hag _).mp ((hcall _).mpr rfl))
    exact ⟨fuel', hon⟩
  · rintro ⟨fuel', hon⟩ x
    rw [hcall, happ]
    constructor
    · rintro rfl
      exact ⟨fuel', hon, rfl⟩
    · rintro ⟨fuel'', hon', hx⟩
      refine Prod.ext ?_ hx
      exact Option.some.inj ((onTrades_mono (le_max_right fuel' fuel'') hon').symm.trans
        (onTrades_mono (le_max_left fuel' fuel'') hon))

end Modify

/-- Both methods return, or neither does, with the last trade of the replacement between them. -/
theorem agrees_modify_iff_not_skipsTriggers (ex : Exchange) (id : OrderId) (p : Price)
    (q : Quantity) :
    ex.Agrees (.modify id p q) ↔ ¬ ex.SkipsTriggers (.modify id p q) := by
  cases hcall : ex.directCall (.modify id p q) with
  | none =>
      obtain ⟨r, htr, hmod⟩ := modifyInternal_of_directCall_none ex (ex.record (.modify id p q))
        (.modify id p q) rfl rfl hcall
      refine iff_of_true ((agrees_modify_iff (hmod 0)).mpr ⟨0, by rw [htr]; rfl⟩) ?_
      simp [SkipsTriggers, hcall]
  | some y =>
      obtain ⟨ex₁, sub⟩ := y
      obtain ⟨n, hmod⟩ := modifyInternal_of_directCall_some (.modify id p q) rfl rfl rfl hcall
      by_cases hret : ∃ fuel x, ex₁.submitLimitInternalWithOwner fuel sub = some x
      · obtain ⟨fuel, ⟨ex₂, r⟩, hsub⟩ := hret
        have hmod' := hmod fuel
        rw [hsub] at hmod'
        rw [agrees_modify_iff hmod', skipsTriggers_iff hcall hsub]
        show (∃ fuel, ex₂.onTrades fuel r.trades = some ex₂) ↔ _
        cases ht : r.trades.getLast? with
        | none => simp [onTrades, ht]
        | some t => simp [onTrades_eq_self_iff ht]
      · -- the replacement never returns, and neither method does
        push Not at hret
        refine iff_of_true (fun x ↦ ?_) ?_
        · have hnone : ∀ fuel, ex.modify fuel id p q = none := fun fuel ↦ by
            rw [modify]
            exact (hmod fuel).trans (by rw [Option.eq_none_iff_forall_ne_some.mpr (hret fuel)]; rfl)
          simp [applyReport_modify, callReport, hnone]
        · rintro ⟨ex₁', sub', fuel, ex₂, r, t, hcall', hsub, -⟩
          rw [hcall] at hcall'
          cases hcall'
          exact hret fuel _ hsub

/-- For every state and every event: the public method and `apply` agree unless the event is a
`modify` whose replacement trades where triggers are due. -/
theorem agrees_iff_not_skipsTriggers (ex : Exchange) (event : Event) :
    ex.Agrees event ↔ ¬ ex.SkipsTriggers event := by
  by_cases hev : ∀ id p q, event ≠ .modify id p q
  · have hskip : ¬ ex.SkipsTriggers event := by
      cases event <;> first | exact not_false | exact absurd rfl (hev _ _ _)
    refine iff_of_true (fun x ↦ ?_) hskip
    simp only [callReport_eq_applyReport ex _ hev]
  · push Not at hev
    obtain ⟨id, p, q, rfl⟩ := hev
    exact ex.agrees_modify_iff_not_skipsTriggers id p q

/-- A resting sell, a bid below it and a buy stop at its price; modifying the bid up to the sell
trades.  The method leaves the stop pending and half of the sell on the book, `apply` triggers the
stop, which buys the other half. -/
theorem modify_skips_stop :
    ∃ ex, performAll 5 create [.submitLimit .sell 100 10 .gtc, .submitLimit .buy 90 5 .gtc,
        .submitStopMarket .buy 100 5] = some ex ∧
      ((ex.callReport 5 (.modify 2 100 5)).map fun x ↦ (x.1.book.bestAsk, x.1.lastTradePrice)) =
        some (some 100, none) ∧
      ((ex.applyReport 5 (.modify 2 100 5)).map fun x ↦ (x.1.book.bestAsk, x.1.lastTradePrice)) =
        some (none, some 100) ∧
      ¬ ex.Agrees (.modify 2 100 5) := by
  obtain ⟨ex, hex⟩ : ∃ ex, performAll 5 create [.submitLimit .sell 100 10 .gtc,
      .submitLimit .buy 90 5 .gtc, .submitStopMarket .buy 100 5] = some ex := ⟨_, rfl⟩
  have hcall := observe hex (fun ex ↦ (ex.callReport 5 (.modify 2 100 5)).map
    fun x ↦ (x.1.book.bestAsk, x.1.lastTradePrice)) (a := some (some 100, none)) rfl
  have happ := observe hex (fun ex ↦ (ex.applyReport 5 (.modify 2 100 5)).map
    fun x ↦ (x.1.book.bestAsk, x.1.lastTradePrice)) (a := some (none, some 100)) rfl
  refine ⟨ex, hex, hcall, happ, fun hag ↦ ?_⟩
  obtain ⟨x, hx, hxp⟩ := Option.map_eq_some_iff.mp hcall
  obtain ⟨y, hy, hyp⟩ := Option.map_eq_some_iff.mp happ
  obtain ⟨fuel, hx'⟩ := (hag y).mpr ⟨5, hy⟩
  obtain rfl : x = y := callReport_modify_unique hx hx'
  rw [hxp] at hyp
  exact absurd hyp (by decide)

/-! ## Whole histories -/

/-- The calls whose replay leads to the same state: any recorded call without an owner that does
not skip triggers, and a FOK order with an owner that the feasibility check turns away, which leaves
nothing behind that could carry the owner. -/
def Replayable (ex : Exchange) : Op → Prop
  | .submitLimitWithOwner side price quantity tif owner =>
      ex.rejectsFok ⟨side, price, quantity, tif, some owner⟩ = true
  | .modify id p q => ¬ ex.SkipsTriggers (.modify id p q)
  | .submitLimit .. | .submitMarket .. | .cancel .. | .submitStopMarket .. | .submitStopLimit ..
  | .submitTrailingStopMarket .. | .submitTrailingStopLimit .. => True
  | .apply .. | .setStpPolicy .. | .compact | .clearOrderHistory | .clearTrades | .clearEvents =>
      False

theorem applyEvents_mono {fuel fuel' : Nat} (h : fuel ≤ fuel') {ex ex' : Exchange}
    {events : List Event} (hs : applyEvents fuel ex events = some ex') :
    applyEvents fuel' ex events = some ex' :=
  Loop.foldlM_mono (f := fun (ex : Exchange) (event : Event) ↦ ex.perform fuel (.apply event))
    (fun _ _ _ hx ↦ perform_mono h hx) hs

/-- A FOK order turned away is turned away with or without its owner, and leaves no trace of it. -/
theorem submitLimitWithOwner_of_rejectsFok {ex : Exchange} {side : Side} {price : Price}
    {quantity : Quantity} {tif : TimeInForce} {owner : OrderOwner}
    (h : ex.rejectsFok ⟨side, price, quantity, tif, some owner⟩ = true) (fuel : Nat) :
    ex.perform fuel (.submitLimitWithOwner side price quantity tif owner) =
      ex.perform fuel (.submitLimit side price quantity tif) := by
  have hrej : ∀ owner', (ex.record (.submitLimit side price quantity tif)).rejectsFok
      ⟨side, price, quantity, tif, owner'⟩ = true := fun _ ↦ h
  simp only [perform, submitLimitWithOwner, submitLimit, submitLimitInternal,
    submitLimitInternalWithOwner, hrej, if_true]

theorem perform_op (ex : Exchange) (fuel : Nat) (event : Event) :
    ex.perform fuel event.op = (ex.callReport fuel event).map Prod.fst := by
  cases event <;> simp only [perform, Event.op, callReport, Option.map_map, Option.map_some] <;> rfl

/-- Where the two agree, calling the method is applying the event. -/
theorem Agrees.step {ex ex' : Exchange} {event : Event} (h : ex.Agrees event)
    (hs : ex.Step event.op ex') : ex.Step (.apply event) ex' := by
  obtain ⟨fuel, hs⟩ := hs
  rw [perform_op] at hs
  obtain ⟨x, hx, rfl⟩ := Option.map_eq_some_iff.mp hs
  obtain ⟨fuel', hrep⟩ := (h x).mp ⟨fuel, hx⟩
  obtain ⟨y, hy, rfl⟩ := Option.map_eq_some_iff.mp hrep
  exact ⟨fuel', Option.map_eq_some_iff.mpr ⟨y, hy, rfl⟩⟩

/-- A replayable step is the step its event makes. -/
theorem Replayable.step {ex ex' : Exchange} {op : Op} (hC : ex.Replayable op)
    (h : ex.Step op ex') : ∃ event, op.event = some event ∧ ex.Step (.apply event) ex' := by
  have hcall : ∀ event : Event, (∀ id p q, event ≠ .modify id p q) → ex.Agrees event :=
    fun event hev x ↦ by simp only [callReport_eq_applyReport ex _ hev]
  cases op with
  | submitLimitWithOwner side price quantity tif owner =>
      refine ⟨_, rfl, (hcall (.submitLimit side price quantity tif) (by simp)).step ?_⟩
      obtain ⟨fuel, h⟩ := h
      exact ⟨fuel, (submitLimitWithOwner_of_rejectsFok hC fuel).symm.trans h⟩
  | modify id p q => exact ⟨_, rfl, ((ex.agrees_modify_iff_not_skipsTriggers id p q).mpr hC).step h⟩
  | submitLimit side price quantity tif => exact ⟨_, rfl, (hcall _ (by simp)).step h⟩
  | submitMarket side quantity => exact ⟨_, rfl, (hcall _ (by simp)).step h⟩
  | cancel id => exact ⟨_, rfl, (hcall _ (by simp)).step h⟩
  | submitStopMarket side stopPrice quantity => exact ⟨_, rfl, (hcall _ (by simp)).step h⟩
  | submitStopLimit side stopPrice limitPrice quantity tif =>
      exact ⟨_, rfl, (hcall _ (by simp)).step h⟩
  | submitTrailingStopMarket side stopPrice quantity trailMethod =>
      exact ⟨_, rfl, (hcall (.submitTrailingStopMarket side stopPrice quantity trailMethod)
        (by simp)).step h⟩
  | submitTrailingStopLimit side stopPrice limitPrice quantity tif trailMethod =>
      exact ⟨_, rfl, (hcall (.submitTrailingStopLimit side stopPrice limitPrice quantity tif
        trailMethod) (by simp)).step h⟩
  | _ => exact hC.elim

/-- Applying an event appends it to the log and nothing else does. -/
theorem events_of_apply {ex ex' : Exchange} {event : Event} (h : ex.Step (.apply event) ex') :
    ex'.events = ex.events ++ [event] := by
  obtain ⟨fuel, h⟩ := h
  exact (perform_path (K := fun _ ↦ True) (P := fun _ _ ↦ True) (Q := fun _ _ ↦ True)
    (by simp) trivial
    (fun _ _ _ ↦ trivial)
    (fun _ _ ↦ trivial) h).frame.1

/-- Replaying the log of a run of replayable calls leads to the exchange the run led to. -/
theorem replay_events_of_run {policy : StpPolicy} {ex : Exchange}
    (h : Run Replayable (create.withStpPolicy policy) ex) :
    ∃ fuel, replay fuel policy ex.events = some ex := by
  refine Run.invariant (I := fun ex ↦ ∃ fuel, replay fuel policy ex.events = some ex) ?_ h ⟨0, rfl⟩
  rintro ex op ex' hC ⟨fuel, hrep⟩ hs
  obtain ⟨event, -, hstep⟩ := hC.step hs
  have hev := events_of_apply hstep
  obtain ⟨fuel', happ⟩ := hstep
  refine ⟨max fuel fuel', ?_⟩
  rw [hev, replay, applyEvents, List.foldlM_append]
  exact Option.bind_eq_some_iff.mpr ⟨ex, applyEvents_mono (le_max_left _ _) hrep,
    Option.bind_eq_some_iff.mpr ⟨ex', perform_mono (le_max_right _ _) happ, rfl⟩⟩

/-- A stop that triggers, a cancellation, and an order with an owner that is turned away. -/
theorem replay_events_of_run_with_cascade :
    ∃ ex ex', performAll 5 (create.withStpPolicy .cancelOldest) [.submitLimit .sell 100 10 .gtc,
        .submitStopMarket .buy 100 5, .submitLimit .buy 100 2 .gtc, .cancel 1] = some ex ∧
      ex.perform 5 (.submitLimitWithOwner .buy 100 9 .fok 7) = some ex' ∧
      ex'.trades.map Trade.quantity = [2, 5] ∧
      ∃ fuel, replay fuel .cancelOldest ex'.events = some ex' := by
  obtain ⟨ex, hex⟩ : ∃ ex, performAll 5 (create.withStpPolicy .cancelOldest)
      [.submitLimit .sell 100 10 .gtc, .submitStopMarket .buy 100 5, .submitLimit .buy 100 2 .gtc,
        .cancel 1] = some ex := ⟨_, rfl⟩
  have hfok := observe hex (fun ex ↦ ex.rejectsFok ⟨.buy, 100, 9, .fok, some 7⟩) (a := true) rfl
  have htrades := observe hex (fun ex ↦ (ex.perform 5
    (.submitLimitWithOwner .buy 100 9 .fok 7)).map fun ex ↦ ex.trades.map Trade.quantity)
    (a := some [2, 5]) rfl
  obtain ⟨ex', hex', htrades⟩ := Option.map_eq_some_iff.mp htrades
  refine ⟨ex, ex', hex, hex', htrades, replay_events_of_run ?_⟩
  refine Relation.ReflTransGen.tail (run_of_performAll ?_ hex)
    ⟨.submitLimitWithOwner .buy 100 9 .fok 7, hfok, 5, hex'⟩
  simp [Replayable]

/-- Two orders of one owner under `CancelNewest`: the recorded history has no trade, and its replay,
which knows no owners, always has one. -/
theorem replay_forgets_owner :
    ∃ ex, performAll 5 (create.withStpPolicy .cancelNewest)
        [.submitLimitWithOwner .sell 100 10 .gtc 7, .submitLimitWithOwner .buy 100 10 .gtc 7] =
          some ex ∧
      ex.trades = [] ∧
      (∃ fuel ex', replay fuel .cancelNewest ex.events = some ex') ∧
      ∀ fuel ex', replay fuel .cancelNewest ex.events = some ex' → ex'.trades.length = 1 := by
  obtain ⟨ex, hex⟩ : ∃ ex, performAll 5 (create.withStpPolicy .cancelNewest)
      [.submitLimitWithOwner .sell 100 10 .gtc 7, .submitLimitWithOwner .buy 100 10 .gtc 7] =
        some ex := ⟨_, rfl⟩
  have htrades := observe hex (fun ex ↦ ex.trades) (a := []) rfl
  have hreplay := observe hex (fun ex ↦ (replay 5 .cancelNewest ex.events).map
    fun ex ↦ ex.trades.length) (a := some 1) rfl
  obtain ⟨ex₁, hex₁, hlen⟩ := Option.map_eq_some_iff.mp hreplay
  refine ⟨ex, hex, htrades, ⟨5, ex₁, hex₁⟩, fun fuel ex' hex' ↦ ?_⟩
  have heq := (applyEvents_mono (le_max_left 5 fuel) hex₁).symm.trans
    (applyEvents_mono (le_max_right 5 fuel) hex')
  rw [← Option.some.inj heq]
  exact hlen

end Exchange

end Nanobook
