import Nanobook.Invariant.Passes

/-!
# Conservation of quantity

As long as no history is cleared, what the orders say they filled is what the recorded trades say,
nothing is filled that was not submitted, every trade pairs two stored orders at a price both
accept, and every submission accounts for its whole quantity.

The invariant of a match speaks of the trades recorded before it together with its own, since a
resting order may have been filled by earlier matches.
-/

namespace Nanobook

/-! ## Traded quantities -/

/-- `t` has `id` as aggressor or as passive. -/
def Trade.Involves (t : Trade) (id : OrderId) : Prop :=
  t.aggressorOrderId = id ∨ t.passiveOrderId = id

instance (t : Trade) (id : OrderId) : Decidable (t.Involves id) :=
  inferInstanceAs (Decidable (_ ∨ _))

/-- What the trades that involve an order add up to. -/
def tradedQuantity (trades : List Trade) (id : OrderId) : Quantity :=
  ((trades.filter fun t ↦ t.Involves id).map Trade.quantity).sum

theorem tradedQuantity_concat (trades : List Trade) (t : Trade) (id : OrderId) :
    tradedQuantity (trades ++ [t]) id =
      tradedQuantity trades id + if t.Involves id then t.quantity else 0 := by
  simp only [tradedQuantity, List.filter_append, List.map_append, List.sum_append]
  split_ifs with h <;> simp [h]

theorem tradedQuantity_eq_zero {trades : List Trade} {id : OrderId}
    (h : ∀ t ∈ trades, ¬ t.Involves id) : tradedQuantity trades id = 0 := by
  have hnil : trades.filter (fun t ↦ decide (t.Involves id)) = [] := by
    simpa [List.filter_eq_nil_iff] using h
  simp only [tradedQuantity, hnil, List.map_nil, List.sum_nil]

/-! ## Accounts -/

/-- The quantities of an order agree with the trades: it filled what was traded, and has not more
left than what was not. -/
structure Order.Accounts (o : Order) (trades : List Trade) (id : OrderId) : Prop where
  filled : o.filledQuantity = tradedQuantity trades id
  bounded : o.filledQuantity + o.remainingQuantity ≤ o.originalQuantity

/-- `t` pairs an order of side `side` and limit `limit` with the resting order `passive`. -/
structure Trade.Pairs (t : Trade) (side : Side) (limit : Price) (passive : Order) : Prop where
  aggressorSide : t.aggressorSide = side
  opposite : passive.side = side.opposite
  price : t.price = passive.price
  crosses : pricesCross side limit t.price = true

namespace Order

variable {o : Order} {trades : List Trade} {id : OrderId}

theorem Accounts.cancel (h : o.Accounts trades id) : o.cancel.Accounts trades id :=
  ⟨h.filled, (Nat.le_add_right _ _).trans h.bounded⟩

theorem Accounts.stpDecrement (h : o.Accounts trades id) (q : Quantity) :
    (o.stpDecrement q).Accounts trades id :=
  ⟨h.filled, (Nat.add_le_add_left (Nat.sub_le _ _) _).trans h.bounded⟩

/-- A trade of another order. -/
theorem Accounts.concat (h : o.Accounts trades id) {t : Trade} (ht : ¬ t.Involves id) :
    o.Accounts (trades ++ [t]) id :=
  ⟨by rw [tradedQuantity_concat, if_neg ht]; exact h.filled, h.bounded⟩

/-- A trade of the order itself. -/
theorem Accounts.fill (h : o.Accounts trades id) {t : Trade} (ht : t.Involves id)
    (hq : t.quantity ≤ o.remainingQuantity) : (o.fill t.quantity).Accounts (trades ++ [t]) id where
  filled := by
    rw [tradedQuantity_concat, if_pos ht, ← h.filled]
    rfl
  bounded := by
    have hb := h.bounded
    simp only [Order.fill]
    lia

/-- Only the quantities matter. -/
theorem Accounts.congr (h : o.Accounts trades id) {o' : Order}
    (hf : o'.filledQuantity = o.filledQuantity) (hr : o'.remainingQuantity = o.remainingQuantity)
    (ho : o'.originalQuantity = o.originalQuantity) : o'.Accounts trades id :=
  ⟨hf.trans h.filled, by rw [hf, hr, ho]; exact h.bounded⟩

end Order

/-! ## Matches -/

/-- The invariant of a match that started after the trades `past`. -/
structure MatchState.Balanced (past : List Trade) (s : MatchState) : Prop where
  stored : ∀ id o, s.book.orders.get? id = some o → o.Accounts (past ++ s.result.trades) id
  incoming : s.incoming.Accounts (past ++ s.result.trades) s.incoming.id
  fresh : s.book.orders.get? s.incoming.id = none
  /-- The incoming order only loses quantity to fills until it is cancelled. -/
  whole : s.result.stpCancelled = false →
    s.incoming.filledQuantity + s.incoming.remainingQuantity = s.incoming.originalQuantity
  trades : ∀ t ∈ s.result.trades, t.aggressorOrderId = s.incoming.id ∧
    ∃ o, s.book.orders.get? t.passiveOrderId = some o ∧
      t.Pairs s.incoming.side s.incoming.price o

namespace MatchState.Balanced

variable {policy : StpPolicy} {past : List Trade} {s s' : MatchState}

theorem cancelIncoming (h : s.Balanced past) : s.cancelIncoming.Balanced past where
  stored := h.stored
  incoming := h.incoming.stpDecrement _
  fresh := h.fresh
  whole hstp := by cases hstp
  trades := h.trades

theorem cancelResting (h : s.Balanced past) (id : OrderId) :
    (s.cancelResting id).Balanced past := by
  by_cases hact : ∃ o, s.book.orders.get? id = some o ∧ o.isActive = true
  · obtain ⟨o, ho, ha⟩ := hact
    have horders : (s.cancelResting id).book.orders = s.book.orders.insert id o.cancel :=
      OrderBook.orders_cancelOrder ho ha
    refine ⟨fun j x hx ↦ ?_, h.incoming, ?_, h.whole, fun t ht ↦ ?_⟩
    · rw [horders, OrdMap.get?_insert] at hx
      split_ifs at hx with hj
      · subst hj
        cases hx
        exact (h.stored _ _ ho).cancel
      · exact h.stored j x hx
    · have hne : s.incoming.id ≠ id := fun he ↦ by
        have := h.fresh
        rw [he, ho] at this
        cases this
      change (s.cancelResting id).book.orders.get? s.incoming.id = none
      rw [horders, OrdMap.get?_insert, if_neg hne]
      exact h.fresh
    · obtain ⟨ha, x, hx, hp⟩ := h.trades t ht
      refine ⟨ha, ?_⟩
      rw [horders, OrdMap.get?_insert]
      split_ifs with hj
      · rw [hj, ho] at hx
        cases hx
        exact ⟨_, rfl, hp.aggressorSide, hp.opposite, hp.price, hp.crosses⟩
      · exact ⟨x, hx, hp⟩
  · have hb : s.cancelResting id = s := by
      simp only [MatchState.cancelResting]
      rw [OrderBook.cancelOrder_of_inactive]
      intro o ho
      simpa using fun ha ↦ hact ⟨o, ho, ha⟩
    rwa [hb]

theorem fillResting (h : s.Balanced past) {id : OrderId} {o : Order}
    (ho : s.book.orders.get? id = some o) (hside : o.side = s.incoming.side.opposite)
    (hx : pricesCross s.incoming.side s.incoming.price o.price = true) :
    (s.fillResting o.price id o.remainingQuantity).Balanced past := by
  set q := Nat.min s.incoming.remainingQuantity o.remainingQuantity with hq
  set t : Trade := ⟨s.book.nextTradeId, o.price, q, s.incoming.id, id, s.incoming.side,
    s.book.nextTimestamp⟩ with ht
  have hne : s.incoming.id ≠ id := fun he ↦ by
    have := h.fresh
    rw [he, ho] at this
    cases this
  have horders : (s.fillResting o.price id o.remainingQuantity).book.orders =
      s.book.orders.insert id (o.fill q) := orders_fillResting ho _ _
  have htrades : past ++ (s.fillResting o.price id o.remainingQuantity).result.trades =
      (past ++ s.result.trades) ++ [t] := (List.append_assoc _ _ _).symm
  have hpairs : t.Pairs s.incoming.side s.incoming.price (o.fill q) := ⟨rfl, hside, rfl, hx⟩
  refine ⟨fun j x hj ↦ ?_, ?_, ?_, fun hstp ↦ ?_, fun t' ht' ↦ ?_⟩
  · -- the order that was met traded; any other stored order was not involved
    rw [horders, OrdMap.get?_insert] at hj
    rw [htrades]
    split_ifs at hj with hid
    · subst hid
      cases hj
      exact (h.stored _ _ ho).fill (t := t) (.inr rfl) (Nat.min_le_right _ _)
    · refine (h.stored j x hj).concat ?_
      rintro (hagg | hpas)
      · have hf := h.fresh
        rw [show s.incoming.id = j from hagg, hj] at hf
        cases hf
      · exact hid hpas.symm
  · rw [htrades]
    exact h.incoming.fill (t := t) (.inl rfl) (Nat.min_le_left _ _)
  · change (s.fillResting o.price id o.remainingQuantity).book.orders.get? s.incoming.id = none
    rw [horders, OrdMap.get?_insert, if_neg hne]
    exact h.fresh
  · have hw := h.whole hstp
    have hle : q ≤ s.incoming.remainingQuantity := Nat.min_le_left _ _
    change s.incoming.filledQuantity + q + (s.incoming.remainingQuantity - q) =
      s.incoming.originalQuantity
    lia
  · rw [horders, OrdMap.get?_insert]
    rcases List.mem_append.mp ht' with hold | hnew
    · obtain ⟨ha, x, hx', hp⟩ := h.trades t' hold
      refine ⟨ha, ?_⟩
      split_ifs with hid
      · rw [hid, ho] at hx'
        cases hx'
        exact ⟨_, rfl, hp.aggressorSide, hp.opposite, hp.price, hp.crosses⟩
      · exact ⟨x, hx', hp⟩
    · obtain rfl : t' = t := List.mem_singleton.mp hnew
      exact ⟨rfl, o.fill q, by rw [if_pos rfl], hpairs⟩

theorem pass (h : s.Balanced past) (hp : Pass policy s s') : s'.Balanced past := by
  cases hp with
  | queues _ horders _ _ =>
      refine ⟨?_, h.incoming, ?_, h.whole, ?_⟩
      · simpa only [horders] using h.stored
      · simpa only [horders] using h.fresh
      · simpa only [horders] using h.trades
  | cancelIncoming => exact h.cancelIncoming
  | cancelResting => exact h.cancelResting _
  | fillResting ho hside _ hx _ _ => exact h.fillResting ho hside hx

theorem passes (h : s.Balanced past) (hp : Passes policy s s') : s'.Balanced past := by
  induction hp with
  | refl => exact h
  | tail _ hlast ih => exact ih.pass hlast

end MatchState.Balanced

/-! ## The exchange -/

namespace Exchange

variable {ex ex' : Exchange} {sub : Submission} {fuel : Nat} {r : SubmitResult}

/-- `t` was recorded for two stored orders it pairs. -/
def Paired (ex : Exchange) (t : Trade) : Prop :=
  ∃ aggressor passive, ex.book.orders.get? t.aggressorOrderId = some aggressor ∧
    ex.book.orders.get? t.passiveOrderId = some passive ∧
      t.Pairs aggressor.side aggressor.price passive

structure Conserved (ex : Exchange) : Prop where
  accounts : ∀ id o, ex.book.orders.get? id = some o → o.Accounts ex.trades id
  paired : ∀ t ∈ ex.trades, ex.Paired t

theorem conserved_create : create.Conserved where
  accounts _ _ h := by cases h
  paired _ h := by cases h

/-- Nothing was traded under an id that is not stored. -/
theorem Conserved.tradedQuantity_eq_zero (h : ex.Conserved) {id : OrderId}
    (hid : ex.book.orders.get? id = none) : tradedQuantity ex.trades id = 0 := by
  refine Nanobook.tradedQuantity_eq_zero fun t ht hinv ↦ ?_
  obtain ⟨a, p, ha, hp, -⟩ := h.paired t ht
  rcases hinv with rfl | rfl
  · rw [hid] at ha; cases ha
  · rw [hid] at hp; cases hp

/-- A match of a submission starts balanced. -/
theorem Conserved.balanced_start (h : ex.Conserved) (hw : ex.WF) (sub : Submission) :
    (ex.entry sub).Balanced ex.trades where
  stored id o ho := by
    simp only [entry, OrderBook.matchStart, List.append_nil]
    exact h.accounts id o ho
  incoming := by
    have hfresh :=
      (hw.book.fresh_createOrder sub.side sub.price sub.quantity sub.timeInForce).stored
    refine ⟨?_, (Nat.zero_add _).le⟩
    simp only [entry, OrderBook.matchStart, List.append_nil]
    exact (h.tradedQuantity_eq_zero hfresh).symm
  fresh := (hw.book.fresh_createOrder sub.side sub.price sub.quantity sub.timeInForce).stored
  whole _ := Nat.zero_add _
  trades _ ht := absurd ht List.not_mem_nil

theorem Paired.keeps {t : Trade} (h : ex.Paired t) (hk : ex.book.Keeps ex'.book) :
    ex'.Paired t := by
  obtain ⟨a, p, ha, hp, hpairs⟩ := h
  obtain ⟨a', ha', hsa⟩ := hk _ _ ha
  obtain ⟨p', hp', hsp⟩ := hk _ _ hp
  refine ⟨a', p', ha', hp', ?_⟩
  exact ⟨hpairs.aggressorSide.trans hsa.side.symm,
    by rw [hsa.side, hsp.side]; exact hpairs.opposite,
    hpairs.price.trans hsp.price.symm, by rw [hsa.side, hsa.price]; exact hpairs.crosses⟩

/-- Settling a balanced match records its trades. -/
theorem Conserved.settle (h : ex.Conserved) {s : MatchState} (hs : s.Balanced ex.trades)
    (hk : ex.book.Keeps s.book) : (ex.settle sub s).1.Conserved := by
  rw [settle_fst]
  obtain ⟨o, horders, hsettled⟩ := orders_settledBook sub s
  have hkeeps : s.book.Keeps (settledBook sub s) := by
    refine OrderBook.keeps_insert horders fun x hx ↦ ?_
    rw [hs.fresh] at hx
    cases hx
  refine ⟨fun id x hx ↦ ?_, fun t ht ↦ ?_⟩
  · simp only [horders, OrdMap.get?_insert] at hx
    split_ifs at hx with hid
    · subst hid
      cases hx
      exact hs.incoming.congr hsettled.filledQuantity hsettled.remainingQuantity
        hsettled.originalQuantity
    · exact hs.stored id x hx
  · rcases List.mem_append.mp ht with hold | hnew
    · exact (h.paired t hold).keeps (hk.trans hkeeps)
    · obtain ⟨hagg, p, hp, hpairs⟩ := hs.trades t hnew
      obtain ⟨p', hp', hsame⟩ := hkeeps _ _ hp
      refine ⟨o, p', ?_, hp', ?_⟩
      · simp only [horders, OrdMap.get?_insert, hagg, if_true]
      · rw [hsettled.side, hsettled.price]
        exact ⟨hpairs.aggressorSide, hsame.side.trans hpairs.opposite,
          hpairs.price.trans hsame.price.symm, hpairs.crosses⟩

/-- A submission accounts for its whole quantity. -/
theorem settle_total {s : MatchState} (hle : s.incoming.filledQuantity ≤ sub.quantity)
    (hwhole : s.result.stpCancelled = false →
      s.incoming.filledQuantity + s.incoming.remainingQuantity = sub.quantity) :
    (ex.settle sub s).2.filledQuantity + (ex.settle sub s).2.restingQuantity +
      (ex.settle sub s).2.cancelledQuantity = sub.quantity := by
  cases hstp : s.result.stpCancelled with
  | true =>
      simp only [Exchange.settle, hstp, if_true, Nat.add_zero]
      exact Nat.add_sub_cancel' hle
  | false =>
      have hw := hwhole hstp
      by_cases hrem : s.incoming.remainingQuantity = 0
      · simp only [Exchange.settle, hstp, hrem, Bool.false_eq_true, if_false, if_true, Nat.add_zero]
        rwa [hrem, Nat.add_zero] at hw
      · by_cases htif : sub.timeInForce = .gtc
        · simp only [Exchange.settle, hstp, hrem, htif, Bool.false_eq_true, if_false, if_true]
          exact hw
        · simp only [Exchange.settle, hstp, hrem, htif, Bool.false_eq_true, if_false]
          exact hw

theorem Conserved.submit (h : ex.Conserved) (hw : ex.WF)
    (hs : ex.submitLimitInternalWithOwner fuel sub = some (ex', r)) :
    ex'.Conserved ∧ r.filledQuantity + r.restingQuantity + r.cancelledQuantity = sub.quantity := by
  rcases submit_passes hw hs with ⟨-, rfl, rfl⟩ | ⟨s, hp, heq⟩
  · exact ⟨⟨h.accounts, h.paired⟩, by simp⟩
  · obtain ⟨rfl, rfl⟩ := Prod.mk.inj heq
    have hb : s.Balanced ex.trades := (h.balanced_start hw sub).passes hp
    have horiginal : s.incoming.originalQuantity = sub.quantity :=
      hp.follows.incoming.originalQuantity
    refine ⟨h.settle hb hp.keeps, settle_total ?_ fun hstp ↦ (hb.whole hstp).trans horiginal⟩
    rw [← horiginal]
    exact (Nat.le_add_right _ _).trans hb.incoming.bounded

/-! ## Runs -/

/-- The operations that forget no order and no trade. -/
def KeepsHistory (op : Op) : Prop := op ≠ .clearTrades ∧ op ≠ .clearOrderHistory

/-- A transition that keeps the trades and touches the orders only by cancelling. -/
theorem Conserved.cancelOrder (h : ex.Conserved) (id : OrderId) :
    ({ ex with book := (ex.book.cancelOrder id).1 } : Exchange).Conserved := by
  refine ⟨fun j x hx ↦ ?_, fun t ht ↦ (h.paired t ht).keeps (ex.book.keeps_cancelOrder id)⟩
  by_cases hact : ∃ o, ex.book.orders.get? id = some o ∧ o.isActive = true
  · obtain ⟨o, ho, ha⟩ := hact
    simp only [OrderBook.orders_cancelOrder ho ha, OrdMap.get?_insert] at hx
    split_ifs at hx with hj
    · subst hj
      cases hx
      exact (h.accounts _ _ ho).cancel
    · exact h.accounts j x hx
  · rw [OrderBook.cancelOrder_of_inactive fun o ho ↦ by simpa using fun ha ↦ hact ⟨o, ho, ha⟩] at hx
    exact h.accounts j x hx

theorem Atom.conserved {P : Exchange → Submission → Prop} {Q : Exchange → OrderId → Prop}
    (ha : Atom KeepsHistory P Q ex ex') (hw : ex.WF) (h : ex.Conserved) : ex'.Conserved := by
  cases ha with
  | lastPrice _ => exact ⟨h.accounts, h.paired⟩
  | submit _ hs => exact (h.submit hw hs).1
  | cancelOrder _ => exact h.cancelOrder _
  | stops _ => exact ⟨h.accounts, h.paired⟩
  | insertStop _ => exact ⟨h.accounts, h.paired⟩
  | compact => exact ⟨h.accounts, h.paired⟩
  | clearHistory hK => exact absurd rfl hK.2
  | clearTrades hK => exact absurd rfl hK.1

theorem Path.conserved {P : Exchange → Submission → Prop} {Q : Exchange → OrderId → Prop}
    (hp : Path KeepsHistory P Q ex ex') (hw : ex.WF) (h : ex.Conserved) : ex'.Conserved := by
  induction hp with
  | refl => exact h
  | tail hfirst hlast ih => exact hlast.conserved (Path.wf hfirst hw) ih

theorem Conserved.logged (h : ex.Conserved) (op : Op) : (ex.logged op).Conserved := by
  obtain ⟨events, hlog⟩ := ex.logged_eq op
  rw [hlog]
  exact ⟨h.accounts, h.paired⟩

theorem WF.logged (h : ex.WF) (op : Op) : (ex.logged op).WF := by
  obtain ⟨events, hlog⟩ := ex.logged_eq op
  rw [hlog]
  exact ⟨h.book, h.stops⟩

theorem Step.conserved {op : Op} (hs : ex.Step op ex') (hK : KeepsHistory op) (hw : ex.WF)
    (h : ex.Conserved) : ex'.Conserved := by
  obtain ⟨fuel, hs⟩ := hs
  by_cases hop : ∃ policy, op = .setStpPolicy policy
  · obtain ⟨policy, rfl⟩ := hop
    obtain rfl := Option.some.inj hs
    exact ⟨h.accounts, h.paired⟩
  · exact Path.conserved (P := fun _ _ ↦ True) (Q := fun _ _ ↦ True)
      (perform_path (fun policy hp ↦ hop ⟨policy, hp⟩) hK (fun _ _ _ ↦ trivial)
        (fun _ _ ↦ trivial) hs)
      (hw.logged op) (h.logged op)

theorem Run.conserved (h : Run (fun _ ↦ KeepsHistory) create ex) : ex.WF ∧ ex.Conserved :=
  Run.invariant (I := fun ex ↦ ex.WF ∧ ex.Conserved)
    (fun _ _ _ hK hI hs ↦ ⟨hs.wf hI.1, hs.conserved hK hI.1 hI.2⟩) h ⟨wf_create, conserved_create⟩

/-- Every submission of an operation is made from a conserved state. -/
theorem Calls.conserved {op : Op} {ex₁ : Exchange} (hcalls : ex.Calls fuel op ex₁ sub)
    (hw : ex.WF) (h : ex.Conserved) : ex₁.WF ∧ ex₁.Conserved := by
  have hpath := hcalls.path (K := KeepsHistory) (P := fun _ _ ↦ True) (Q := fun _ _ ↦ True)
    (fun _ _ _ ↦ trivial) fun _ _ ↦ trivial
  exact ⟨hpath.wf (hw.logged op), hpath.conserved (hw.logged op) (h.logged op)⟩

/-- What the public methods return is what their own submission returned. -/
theorem submitLimitWithOwner_total {side : Side} {price : Price} {q : Quantity} {tif : TimeInForce}
    {owner : OrderOwner} (hw : ex.WF) (h : ex.Conserved)
    (hs : ex.submitLimitWithOwner fuel side price q tif owner = some (ex', r)) :
    r.filledQuantity + r.restingQuantity + r.cancelledQuantity = q := by
  obtain ⟨⟨ex₁, r₁⟩, hsub, hs⟩ := Option.bind_eq_some_iff.mp hs
  obtain ⟨ex₂, -, hs⟩ := Option.bind_eq_some_iff.mp hs
  cases hs
  exact ((h.logged (.submitLimit side price q tif)).submit
    (hw.logged (.submitLimit side price q tif)) hsub).2

theorem submitLimit_total {side : Side} {price : Price} {q : Quantity} {tif : TimeInForce}
    (hw : ex.WF) (h : ex.Conserved) (hs : ex.submitLimit fuel side price q tif = some (ex', r)) :
    r.filledQuantity + r.restingQuantity + r.cancelledQuantity = q := by
  obtain ⟨⟨ex₁, r₁⟩, hsub, hs⟩ := Option.bind_eq_some_iff.mp hs
  obtain ⟨ex₂, -, hs⟩ := Option.bind_eq_some_iff.mp hs
  cases hs
  exact ((h.logged (.submitLimit side price q tif)).submit
    (hw.logged (.submitLimit side price q tif)) hsub).2

theorem submitMarket_total {side : Side} {q : Quantity} (hw : ex.WF) (h : ex.Conserved)
    (hs : ex.submitMarket fuel side q = some (ex', r)) :
    r.filledQuantity + r.restingQuantity + r.cancelledQuantity = q := by
  obtain ⟨⟨ex₁, r₁⟩, hsub, hs⟩ := Option.bind_eq_some_iff.mp hs
  obtain ⟨ex₂, -, hs⟩ := Option.bind_eq_some_iff.mp hs
  cases hs
  exact ((h.logged (.submitMarket side q)).submit (hw.logged (.submitMarket side q)) hsub).2

/-- In a run that clears no history, the stored orders agree with the trades, the trades pair stored
orders at prices both accept, and every submission accounts for its whole quantity: those of the
public methods and, within any operation, those of replacements and of triggered stops. -/
theorem quantity_conserved_of_run (h : Run (fun _ ↦ KeepsHistory) create ex) :
    (∀ id o, ex.book.orders.get? id = some o →
      o.filledQuantity = tradedQuantity ex.trades id ∧
        o.filledQuantity + o.remainingQuantity ≤ o.originalQuantity) ∧
    (∀ t ∈ ex.trades, ∃ aggressor passive,
      ex.book.orders.get? t.aggressorOrderId = some aggressor ∧
      ex.book.orders.get? t.passiveOrderId = some passive ∧ t.price = passive.price ∧
      t.aggressorSide = aggressor.side ∧ passive.side = aggressor.side.opposite ∧
      pricesCross aggressor.side aggressor.price t.price = true) ∧
    (∀ fuel side price q tif ex' r, ex.submitLimit fuel side price q tif = some (ex', r) →
      r.filledQuantity + r.restingQuantity + r.cancelledQuantity = q) ∧
    (∀ fuel side price q tif owner ex' r,
      ex.submitLimitWithOwner fuel side price q tif owner = some (ex', r) →
      r.filledQuantity + r.restingQuantity + r.cancelledQuantity = q) ∧
    (∀ fuel side q ex' r, ex.submitMarket fuel side q = some (ex', r) →
      r.filledQuantity + r.restingQuantity + r.cancelledQuantity = q) ∧
    (∀ fuel op ex₁ sub ex₂ r, ex.Calls fuel op ex₁ sub →
      ex₁.submitLimitInternalWithOwner fuel sub = some (ex₂, r) →
      r.filledQuantity + r.restingQuantity + r.cancelledQuantity = sub.quantity) := by
  obtain ⟨hw, hc⟩ := h.conserved
  refine ⟨fun id o ho ↦ ?_, fun t ht ↦ ?_, fun _ _ _ _ _ _ _ hs ↦ submitLimit_total hw hc hs,
    fun _ _ _ _ _ _ _ _ hs ↦ submitLimitWithOwner_total hw hc hs,
    fun _ _ _ _ _ hs ↦ submitMarket_total hw hc hs, fun fuel op ex₁ sub ex₂ r hcalls hs ↦ ?_⟩
  · exact ⟨(hc.accounts id o ho).filled, (hc.accounts id o ho).bounded⟩
  · obtain ⟨a, p, ha, hp, hpairs⟩ := hc.paired t ht
    exact ⟨a, p, ha, hp, hpairs.price, hpairs.aggressorSide, hpairs.opposite, hpairs.crosses⟩
  · obtain ⟨hw₁, hc₁⟩ := hcalls.conserved hw hc
    exact (hc₁.submit hw₁ hs).2

/-- A stop bought by the trade of another order: order `1` filled `3` and `2` in two trades of one
submission, and the order submitted next finds nothing left to trade with. -/
theorem quantity_conserved_of_run_cascade :
    ∃ ex, performAll 5 create [.submitLimit .sell 100 5 .gtc, .submitStopMarket .buy 100 2,
        .submitLimit .buy 100 3 .gtc] = some ex ∧
      ex.trades.map Trade.quantity = [3, 2] ∧
      (∃ o, ex.book.orders.get? 1 = some o ∧ o.filledQuantity = tradedQuantity ex.trades 1 ∧
        tradedQuantity ex.trades 1 = 5) ∧
      ∃ ex' r, ex.submitLimit 5 .buy 100 4 .ioc = some (ex', r) ∧
        r.filledQuantity + r.restingQuantity + r.cancelledQuantity = 4 := by
  obtain ⟨ex, hex⟩ : ∃ ex, performAll 5 create [.submitLimit .sell 100 5 .gtc,
      .submitStopMarket .buy 100 2, .submitLimit .buy 100 3 .gtc] = some ex := ⟨_, rfl⟩
  have hrun : Run (fun _ ↦ KeepsHistory) create ex :=
    run_of_performAll (by simp [KeepsHistory]) hex
  have hc := quantity_conserved_of_run hrun
  obtain ⟨o, ho⟩ := Option.isSome_iff_exists.mp
    (observe hex (fun ex ↦ (ex.book.orders.get? 1).isSome) (a := true) rfl)
  obtain ⟨⟨ex', r⟩, hs⟩ := Option.isSome_iff_exists.mp
    (observe hex (fun ex ↦ (ex.submitLimit 5 .buy 100 4 .ioc).isSome) (a := true) rfl)
  refine ⟨ex, hex, observe hex (fun ex ↦ ex.trades.map Trade.quantity) (a := [3, 2]) rfl,
    ⟨o, ho, (hc.1 1 o ho).1, observe hex (fun ex ↦ tradedQuantity ex.trades 1) (a := 5) rfl⟩,
    ex', r, hs, hc.2.2.1 _ _ _ _ _ _ _ hs⟩

end Exchange

end Nanobook
