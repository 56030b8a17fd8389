import Nanobook.Invariant.WellFormed
import Nanobook.Invariant.Path

/-!
# Well-formed exchanges

What every reachable exchange satisfies: its book is well formed, and the ids of its stop orders
are not in use in the book.  Both come from one counter, so an id that `cancel` finds among the
stops never stands for a book order.
-/

namespace Nanobook

namespace Exchange

/-! ## What a submission does -/

/-- The status an order that did not fill completely is stored with. -/
def leftStatus (idle : OrderStatus) (s : MatchState) : OrderStatus :=
  if s.incoming.filledQuantity > 0 then .partiallyFilled else idle

/-- The book a match is settled into. -/
def settledBook (sub : Submission) (s : MatchState) : OrderBook :=
  let store (status : OrderStatus) : OrderBook :=
    { s.book with
      orders := s.book.orders.insert s.incoming.id { s.incoming with status := status } }
  if s.result.stpCancelled then store (leftStatus .cancelled s)
  else if s.incoming.remainingQuantity = 0 then store .filled
  else if sub.timeInForce = .gtc then
    s.book.addOrder { s.incoming with status := leftStatus .new s }
  else store (leftStatus .cancelled s)

theorem settle_fst (ex : Exchange) (sub : Submission) (s : MatchState) :
    (ex.settle sub s).1 =
      { ex with trades := ex.trades ++ s.result.trades, book := settledBook sub s } := by
  simp only [settle, settledBook, leftStatus]
  split_ifs <;> rfl

theorem settle_snd (ex : Exchange) (sub : Submission) (s : MatchState) :
    (ex.settle sub s).2.trades = s.result.trades ∧
      (ex.settle sub s).2.filledQuantity = s.incoming.filledQuantity := by
  simp only [settle]
  split_ifs <;> exact ⟨rfl, rfl⟩

/-- A submission is turned away by the FOK check, or is matched and settled. -/
theorem submit_cases {ex ex' : Exchange} {fuel : Nat} {sub : Submission} {r : SubmitResult}
    (h : ex.submitLimitInternalWithOwner fuel sub = some (ex', r)) :
    (ex.rejectsFok sub = true ∧ ex' = { ex with book := (ex.incoming sub).2 } ∧
        r = ⟨ex.book.nextOrderId, .cancelled, [], 0, 0, sub.quantity⟩) ∨
      (ex.rejectsFok sub = false ∧ ∃ s,
        (ex.incoming sub).2.matchOrderWithPolicy fuel (ex.incoming sub).1 ex.stpPolicy = some s ∧
        ex' = { ex with trades := ex.trades ++ s.result.trades, book := settledBook sub s } ∧
        r.trades = s.result.trades ∧ r.filledQuantity = s.incoming.filledQuantity) := by
  simp only [submitLimitInternalWithOwner] at h
  split_ifs at h with hrej
  · cases h; exact .inl ⟨hrej, rfl, rfl⟩
  · obtain ⟨s, hs, h⟩ := Option.bind_eq_some_iff.mp h
    have hset := Option.some.inj h
    have hfst := settle_fst ex sub s
    have hsnd := settle_snd ex sub s
    rw [hset] at hfst hsnd
    exact .inr ⟨by simpa using hrej, s, hs, hfst, hsnd⟩

/-- A settled order is only stored, or rests because it is GTC and something is left of it. -/
theorem settledBook_cases (sub : Submission) (s : MatchState) :
    (∃ status, settledBook sub s = { s.book with
        orders := s.book.orders.insert s.incoming.id { s.incoming with status := status } }) ∨
      (s.result.stpCancelled = false ∧ s.incoming.remainingQuantity ≠ 0 ∧
        sub.timeInForce = .gtc ∧
        settledBook sub s = s.book.addOrder { s.incoming with status := leftStatus .new s }) := by
  simp only [settledBook]
  split_ifs with hstp hrem htif
  · exact .inl ⟨_, rfl⟩
  · exact .inl ⟨_, rfl⟩
  · exact .inr ⟨by simpa using hstp, hrem, htif, rfl⟩
  · exact .inl ⟨_, rfl⟩

/-- `o` is `o'` but for its status and its place in a queue. -/
structure SettledAs (o o' : Order) : Prop where
  side : o'.side = o.side
  price : o'.price = o.price
  originalQuantity : o'.originalQuantity = o.originalQuantity
  remainingQuantity : o'.remainingQuantity = o.remainingQuantity
  filledQuantity : o'.filledQuantity = o.filledQuantity
  timestamp : o'.timestamp = o.timestamp
  owner : o'.owner = o.owner

/-- A settled order is stored with the quantities the match left it. -/
theorem orders_settledBook (sub : Submission) (s : MatchState) :
    ∃ o, (settledBook sub s).orders = s.book.orders.insert s.incoming.id o ∧
      SettledAs s.incoming o := by
  rcases settledBook_cases sub s with ⟨status, h⟩ | ⟨-, -, -, h⟩
  · exact ⟨{ s.incoming with status := status }, by rw [h], ⟨rfl, rfl, rfl, rfl, rfl, rfl, rfl⟩⟩
  · refine ⟨s.book.rested { s.incoming with status := leftStatus .new s }, ?_,
      ⟨rfl, rfl, rfl, rfl, rfl, rfl, rfl⟩⟩
    rw [h, OrderBook.orders_addOrder]

/-- What is known of the exchange a submission leaves, whatever the state of the book. -/
theorem submit_frame {ex ex' : Exchange} {fuel : Nat} {sub : Submission} {r : SubmitResult}
    (h : ex.submitLimitInternalWithOwner fuel sub = some (ex', r)) :
    ex'.stopBook = ex.stopBook ∧ ex'.lastTradePrice = ex.lastTradePrice ∧
      ex'.stpPolicy = ex.stpPolicy ∧ ex'.events = ex.events ∧
      ex'.trades = ex.trades ++ r.trades ∧ ex'.book.nextOrderId = ex.book.nextOrderId + 1 := by
  rcases submit_cases h with ⟨-, rfl, rfl⟩ | ⟨-, s, hs, rfl, hsnd, -⟩
  · exact ⟨rfl, rfl, rfl, rfl, (List.append_nil _).symm, rfl⟩
  · obtain ⟨hfol, -⟩ := matchOrderWithPolicy_follows hs
    refine ⟨rfl, rfl, rfl, rfl, by rw [hsnd], ?_⟩
    have hid : s.book.nextOrderId = ex.book.nextOrderId + 1 := hfol.book.nextOrderId
    rcases settledBook_cases sub s with ⟨status, hb⟩ | ⟨-, -, -, hb⟩
    · simpa only [hb] using hid
    · simpa only [hb, OrderBook.nextOrderId_addOrder] using hid

theorem leftStatus_isActive {s : MatchState} : (leftStatus .new s).isActive = true := by
  simp only [leftStatus]
  split_ifs <;> rfl

end Exchange

namespace OrderBook

/-! ## Ids in flight and additions -/

theorem Fresh.of_counters {b b' : OrderBook} {id : OrderId} (hf : b.Fresh id)
    (hside : ∀ s, b'.side s = b.side s) (horders : b'.orders = b.orders)
    (hid : b.nextOrderId ≤ b'.nextOrderId) : b'.Fresh id where
  pos := hf.pos
  lt := hf.lt.trans_le hid
  stored := by rw [horders]; exact hf.stored
  queued s p l hl := by
    simp only [OrderBook.level, hside] at hl
    exact hf.queued s p l hl

theorem Fresh.store {b : OrderBook} {id : OrderId} (hf : b.Fresh id) {o : Order}
    (hne : id ≠ o.id) : ({ b with orders := b.orders.insert o.id o } : OrderBook).Fresh id where
  pos := hf.pos
  lt := hf.lt
  stored := by rw [OrdMap.get?_insert, if_neg hne]; exact hf.stored
  queued s p l hl := hf.queued s p l (by rwa [level_mk] at hl)

theorem Fresh.addOrder {b : OrderBook} {id : OrderId} (hf : b.Fresh id) {o : Order}
    (hpos : o.id ≠ 0) (hne : id ≠ o.id) : (b.addOrder o).Fresh id where
  pos := hf.pos
  lt := by rw [nextOrderId_addOrder]; exact hf.lt
  stored := by rw [orders_addOrder, OrdMap.get?_insert, if_neg hne]; exact hf.stored
  queued s p l hl hmem := by
    rw [level_addOrder] at hl
    split_ifs at hl with h
    · obtain rfl := Option.some.inj hl
      rcases (mem_iter_pushedLevel hpos).mp hmem with ⟨l, hl, hin⟩ | heq
      · exact hf.queued _ _ l hl hin
      · exact hne heq
    · exact hf.queued s p l hl hmem

end OrderBook

namespace Exchange

/-! ## The invariant -/

structure WF (ex : Exchange) : Prop where
  book : ex.book.WF
  stops : ∀ id o, ex.stopBook.orders.get? id = some o → ex.book.Fresh id

theorem wf_create : create.WF := ⟨OrderBook.wf_create, fun _ _ h ↦ by cases h⟩

/-- A transition that only shrinks the book. -/
theorem WF.shrinks {ex ex' : Exchange} (hw : ex.WF) (h : ex.book.Shrinks ex'.book)
    (hs : ex.stopBook.Tame ex'.stopBook) : ex'.WF where
  book := hw.book.shrinks h
  stops id o' ho' := by
    obtain ⟨o, ho⟩ := hs id o' ho'
    exact (hw.stops id o ho).shrinks h

theorem side_incoming (ex : Exchange) (sub : Submission) (s : Side) :
    (ex.incoming sub).2.side s = ex.book.side s :=
  ex.book.side_createOrder sub.side sub.price sub.quantity sub.timeInForce s

theorem WF.incoming {ex : Exchange} (hw : ex.WF) (sub : Submission) : (ex.incoming sub).2.WF :=
  hw.book.createOrder sub.side sub.price sub.quantity sub.timeInForce

/-- Numbering the incoming order leaves the ids of the stops alone. -/
theorem WF.stops_incoming {ex : Exchange} (hw : ex.WF) (sub : Submission) {id : OrderId}
    {o : StopOrder} (ho : ex.stopBook.orders.get? id = some o) : (ex.incoming sub).2.Fresh id :=
  (hw.stops id o ho).of_counters (ex.side_incoming sub) rfl (Nat.le_succ _)

section Submit

variable {ex : Exchange} {sub : Submission} {fuel : Nat} {s : MatchState}

/-- What is known once the match of a submission has returned. -/
structure Matched (ex : Exchange) (sub : Submission) (s : MatchState) : Prop where
  wf : s.book.WF
  fresh : s.book.Fresh s.incoming.id
  sameOrder : (ex.incoming sub).1.SameOrder s.incoming
  stops : ∀ id o, ex.stopBook.orders.get? id = some o → s.book.Fresh id ∧ id ≠ s.incoming.id
  done : s.Done

theorem WF.matched (hw : ex.WF)
    (h : (ex.incoming sub).2.matchOrderWithPolicy fuel (ex.incoming sub).1 ex.stpPolicy = some s) :
    Matched ex sub s := by
  obtain ⟨hfol, hdone⟩ := matchOrderWithPolicy_follows h
  have hid : s.incoming.id = ex.book.nextOrderId := hfol.incoming.id
  have hfresh : (ex.incoming sub).2.Fresh ex.book.nextOrderId :=
    hw.book.fresh_createOrder sub.side sub.price sub.quantity sub.timeInForce
  refine ⟨(hw.incoming sub).shrinks hfol.book, ?_, hfol.incoming, ?_, hdone⟩
  · rw [hid]
    exact hfresh.shrinks hfol.book
  · intro id o ho
    refine ⟨(hw.stops_incoming sub ho).shrinks hfol.book, ?_⟩
    rw [hid]
    exact Nat.ne_of_lt (hw.stops id o ho).lt

/-- Nothing on the other side crosses an order that is about to rest. -/
theorem Matched.not_cross (hm : Matched ex sub s) (hstp : s.result.stpCancelled = false)
    (hrem : s.incoming.remainingQuantity ≠ 0) (p : Price) (l : Level)
    (hl : s.book.level s.incoming.side.opposite p = some l) :
    pricesCross s.incoming.side s.incoming.price p = false := by
  rcases hm.done with h | h | h
  · exact absurd h hrem
  · rw [hstp] at h; cases h
  · exact hm.wf.not_cross h p l hl

theorem settled_left (hrem : s.incoming.remainingQuantity ≠ 0) :
    ({ s.incoming with status := leftStatus .new s } : Order).Settled := by
  simp only [Order.Settled, Order.isActive, leftStatus_isActive, true_iff]
  exact Nat.pos_iff_ne_zero.mpr hrem

/-- Settling a match keeps the exchange well formed. -/
theorem Matched.wf_settle (hm : Matched ex sub s) :
    ({ ex with trades := ex.trades ++ s.result.trades, book := settledBook sub s } : Exchange).WF :=
      by
  rcases settledBook_cases sub s with ⟨status, h⟩ | ⟨hstp, hrem, -, h⟩
  · refine ⟨?_, fun id o ho ↦ ?_⟩
    · simp only [h]
      exact hm.wf.store (o := { s.incoming with status := status }) hm.fresh
    · simp only [h]
      obtain ⟨hf, hne⟩ := hm.stops id o ho
      exact hf.store (o := { s.incoming with status := status }) hne
  · refine ⟨?_, fun id o ho ↦ ?_⟩
    · simp only [h]
      exact hm.wf.addOrder hm.fresh (settled_left hrem) (hm.not_cross hstp hrem)
    · simp only [h]
      obtain ⟨hf, hne⟩ := hm.stops id o ho
      exact hf.addOrder (Nat.pos_iff_ne_zero.mp hm.fresh.pos) hne

theorem WF.submit {ex' : Exchange} {r : SubmitResult} (hw : ex.WF)
    (h : ex.submitLimitInternalWithOwner fuel sub = some (ex', r)) : ex'.WF := by
  rcases submit_cases h with ⟨-, rfl, -⟩ | ⟨-, s, hs, rfl, -⟩
  · exact ⟨hw.incoming sub, fun id o ho ↦ hw.stops_incoming sub ho⟩
  · exact (hw.matched hs).wf_settle

end Submit

theorem WF.insertStop {ex : Exchange} (hw : ex.WF) {order : StopOrder}
    (hid : order.id = ex.book.nextOrderId) : (ex.insertStop order).WF := by
  have hside : ∀ s, (ex.insertStop order).book.side s = ex.book.side s := fun s ↦ by
    cases s <;> rfl
  refine ⟨hw.book.of_counters hside rfl (Nat.le_succ _), fun id o ho ↦ ?_⟩
  rw [show (ex.insertStop order).stopBook.orders = ex.stopBook.orders.insert order.id order by
    simp only [Exchange.insertStop, StopBook.insert, StopBook.orders_updateStops],
    OrdMap.get?_insert] at ho
  split_ifs at ho with h
  · rw [h, hid]
    exact hw.book.fresh_createOrder order.side order.stopPrice order.quantity order.timeInForce
  · exact (hw.stops id o ho).of_counters hside rfl (Nat.le_succ _)

/-- Every elementary transition keeps an exchange well formed, whatever it submits or cancels. -/
theorem Atom.wf {K : Op → Prop} {P : Exchange → Submission → Prop} {Q : Exchange → OrderId → Prop}
    {ex ex' : Exchange} (h : Atom K P Q ex ex') (hw : ex.WF) : ex'.WF := by
  cases h with
  | lastPrice last => exact ⟨hw.book, hw.stops⟩
  | submit _ hsub => exact hw.submit hsub
  | cancelOrder _ => exact hw.shrinks (ex.book.shrinks_cancelOrder _) (.refl _)
  | stops ht => exact hw.shrinks (.refl _) ht
  | insertStop hid => exact hw.insertStop hid
  | compact => exact hw.shrinks ex.book.shrinks_compact (.refl _)
  | clearHistory => exact hw.shrinks ex.book.shrinks_clearHistory (.refl _)
  | clearTrades => exact ⟨hw.book, hw.stops⟩

theorem Path.wf {K : Op → Prop} {P : Exchange → Submission → Prop} {Q : Exchange → OrderId → Prop}
    {ex ex' : Exchange} (h : Path K P Q ex ex') (hw : ex.WF) : ex'.WF := by
  induction h with
  | refl => exact hw
  | tail _ hlast ih => exact hlast.wf ih

/-- Elementary transitions leave the event log and the policy alone and never reuse an id. -/
theorem Atom.frame {K : Op → Prop} {P : Exchange → Submission → Prop}
    {Q : Exchange → OrderId → Prop} {ex ex' : Exchange} (h : Atom K P Q ex ex') :
    ex'.events = ex.events ∧ ex'.stpPolicy = ex.stpPolicy ∧
      ex.book.nextOrderId ≤ ex'.book.nextOrderId := by
  cases h with
  | submit _ hsub =>
      obtain ⟨-, -, hp, he, -, hid⟩ := submit_frame hsub
      exact ⟨he, hp, by lia⟩
  | cancelOrder _ => exact ⟨rfl, rfl, (OrderBook.shrinks_cancelOrder _ _).nextOrderId.ge⟩
  | insertStop _ => exact ⟨rfl, rfl, Nat.le_succ _⟩
  | _ => exact ⟨rfl, rfl, le_rfl⟩

theorem Path.frame {K : Op → Prop} {P : Exchange → Submission → Prop}
    {Q : Exchange → OrderId → Prop} {ex ex' : Exchange} (h : Path K P Q ex ex') :
    ex'.events = ex.events ∧ ex'.stpPolicy = ex.stpPolicy ∧
      ex.book.nextOrderId ≤ ex'.book.nextOrderId := by
  induction h with
  | refl => exact ⟨rfl, rfl, le_rfl⟩
  | tail _ hlast ih =>
      obtain ⟨he, hp, hid⟩ := hlast.frame
      exact ⟨he.trans ih.1, hp.trans ih.2.1, ih.2.2.trans hid⟩

theorem onTrades_nextOrderId_le {fuel : Nat} {ex ex' : Exchange} {trades : List Trade}
    (h : ex.onTrades fuel trades = some ex') : ex.book.nextOrderId ≤ ex'.book.nextOrderId := by
  simp only [onTrades] at h
  split at h
  · cases h; exact le_rfl
  · exact (triggerRounds_path (K := fun _ ↦ True) (P := fun _ _ ↦ True) (Q := fun _ _ ↦ True)
      (fun _ _ _ ↦ trivial) h).frame.2.2

/-- The state an operation submits from has the same id counter. -/
theorem nextOrderId_of_directCall {ex ex₁ : Exchange} {op : Op} {sub : Submission}
    (h : ex.directCall op = some (ex₁, sub)) : ex₁.book.nextOrderId = ex.book.nextOrderId := by
  obtain ⟨events, hlog⟩ := ex.logged_eq op
  simp only [directCall, hlog] at h
  split at h
  · cases h; rfl
  · cases h; rfl
  · cases h; rfl
  · split_ifs at h
    split at h
    · split_ifs at h
      cases h
      exact (OrderBook.shrinks_cancelOrder _ _).nextOrderId
    · cases h
  · cases h

/-- An operation that submits takes the next id. -/
theorem nextOrderId_lt_of_directCall {ex ex' ex₁ : Exchange} {op : Op} {fuel : Nat}
    {sub : Submission} (hcall : ex.directCall op = some (ex₁, sub))
    (h : ex.perform fuel op = some ex') : ex.book.nextOrderId < ex'.book.nextOrderId := by
  have hid := nextOrderId_of_directCall hcall
  have hsub : ∀ x, ex₁.submitLimitInternalWithOwner fuel sub = some x →
      ex.book.nextOrderId < x.1.book.nextOrderId := fun x hx ↦ by
    have := (submit_frame hx).2.2.2.2.2
    lia
  rcases ex.kind op with ⟨sub', hm, hcall'⟩ | ⟨order, hn, -⟩ | ⟨id, hn, -⟩ | ⟨id, p, q, rfl⟩ |
    ⟨id, p, q, rfl⟩ | ⟨policy, rfl⟩ | ⟨ex₁, hn, -⟩
  · rw [perform_submission hm hcall] at h
    obtain ⟨x, hx, hon⟩ := Option.bind_eq_some_iff.mp h
    exact (hsub x hx).trans_le (onTrades_nextOrderId_le hon)
  · rw [hn] at hcall; cases hcall
  · rw [hn] at hcall; cases hcall
  · obtain ⟨n, hmod⟩ := modifyInternal_of_directCall_some (.modify id p q) rfl rfl rfl hcall
    obtain ⟨y, hy, rfl⟩ := Option.map_eq_some_iff.mp h
    have hy' := (hmod fuel).symm.trans hy
    obtain ⟨x, hx, rfl⟩ := Option.map_eq_some_iff.mp hy'
    exact hsub x hx
  · obtain ⟨n, hmod⟩ :=
      modifyInternal_of_directCall_some (.apply (.modify id p q)) rfl rfl rfl hcall
    obtain ⟨y, hy, rfl⟩ := Option.map_eq_some_iff.mp h
    obtain ⟨z, hz, hy⟩ := Option.bind_eq_some_iff.mp hy
    obtain ⟨ex₃, hon, hy⟩ := Option.bind_eq_some_iff.mp hy
    cases hy
    have hz' := (hmod fuel).symm.trans hz
    obtain ⟨x, hx, rfl⟩ := Option.map_eq_some_iff.mp hz'
    exact (hsub x hx).trans_le (onTrades_nextOrderId_le hon)
  · cases hcall
  · rw [hn] at hcall; cases hcall

@[simp] theorem submission_owner (stop : StopOrder) : stop.submission.owner = none := by
  simp only [StopOrder.submission]
  split <;> rfl

/-- A triggered stop is submitted without an owner, with ids handed out after the trigger. -/
theorem TriggerCalls.frame {fuel n : Nat} {ex ex' : Exchange} {sub : Submission}
    (h : TriggerCalls fuel n ex ex' sub) :
    sub.owner = none ∧ ex.book.nextOrderId ≤ ex'.book.nextOrderId := by
  have hpath :=
    h.path (K := fun _ ↦ True) (P := fun _ _ ↦ True) (Q := fun _ _ ↦ True) fun _ _ _ ↦ trivial
  refine ⟨?_, hpath.frame.2.2⟩
  clear hpath
  induction h with
  | child _ _ _ => exact submission_owner _
  | later _ _ ih => exact ih

theorem Step.wf {ex ex' : Exchange} {op : Op} (h : ex.Step op ex') (hw : ex.WF) : ex'.WF := by
  obtain ⟨fuel, h⟩ := h
  by_cases hop : ∃ policy, op = .setStpPolicy policy
  · obtain ⟨policy, rfl⟩ := hop
    obtain rfl := Option.some.inj h
    exact ⟨hw.book, hw.stops⟩
  · have hlog : (ex.logged op).WF := by
      obtain ⟨events, hlog⟩ := ex.logged_eq op
      rw [hlog]
      exact ⟨hw.book, hw.stops⟩
    exact (perform_path (K := fun _ ↦ True) (P := fun _ _ ↦ True) (Q := fun _ _ ↦ True)
      (fun policy hp ↦ hop ⟨policy, hp⟩) trivial (fun _ _ _ ↦ trivial) (fun _ _ ↦ trivial) h).wf
        hlog

theorem Reachable.wf {ex : Exchange} (h : Reachable ex) : ex.WF :=
  Run.invariant (I := WF) (fun _ _ _ _ hw hs ↦ hs.wf hw) h wf_create

end Exchange

end Nanobook
