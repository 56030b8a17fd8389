import Nanobook.StopHistory
import Nanobook.TrailingStops

/-!
# What a plain stop does to the other stops

A stop that the last trade price already triggers runs the triggers once more, at that price.  So
even when nothing trades, the price is recorded again, and the other stops trail it and trigger at
it.  The stop book keeps them, and its price history, exactly when none of this changes anything.
-/

namespace Nanobook

namespace StopBook

variable {sb : StopBook} {id : OrderId} {o : StopOrder} {p : Price}

/-! ## A price seen before -/

/-- The history is full of the change that a trade at `p` records once more. -/
def Recorded (sb : StopBook) (p : Price) : Prop :=
  ∀ q, sb.lastPrice = some q → sb.priceChanges.length = maxPriceHistory ∧
    ∀ c ∈ sb.priceChanges, c = wrapI64 (wrapI64 (p - q)).natAbs

/-- A trade at `p` leaves a trailing stop where it is: its watermark is as good, and the stop price
that trails it is no closer to the market. -/
def Steady (sb : StopBook) (p : Price) (o : StopOrder) : Prop :=
  ∀ m, o.trailMethod = some m → o.watermark = some (bestSeen o p) ∧
    (0 < sb.trailingOffset (bestSeen o p) m →
      closer o.side (stopAt o.side (bestSeen o p) (sb.trailingOffset (bestSeen o p) m))
      o.stopPrice = false)

theorem concat_eq_cons_iff {A : Type} {l : List A} {a b : A} :
    l ++ [a] = b :: l ↔ a = b ∧ ∀ x ∈ l, x = a := by
  induction l generalizing b with
  | nil => simp
  | cons x l ih =>
    rw [List.cons_append, List.cons.injEq, ih]
    constructor
    · rintro ⟨rfl, rfl, hl⟩
      exact ⟨rfl, by simpa using hl⟩
    · rintro ⟨rfl, hl⟩
      obtain ⟨rfl, hl⟩ := List.forall_mem_cons.mp hl
      exact ⟨rfl, rfl, hl⟩

/-- The most recent entries of a list with one more are those of the list if they are all the new
one. -/
theorem drop_concat_eq_iff {A : Type} {l : List A} {a : A} {n : Nat} (hn : 0 < n) :
    (l ++ [a]).drop ((l ++ [a]).length - n) = l ↔ l.length = n ∧ ∀ x ∈ l, x = a := by
  constructor
  · intro h
    have hlength := congrArg List.length h
    simp only [List.length_drop, List.length_append, List.length_cons, List.length_nil] at hlength
    have hl : l.length = n := by lia
    refine ⟨hl, ?_⟩
    have hone : (l ++ [a]).length - n = 1 := by simp [hl]
    rw [hone] at h
    cases l with
    | nil => simp
    | cons b l =>
      have hconcat : l ++ [a] = b :: l := h
      obtain ⟨rfl, hall⟩ := concat_eq_cons_iff.mp hconcat
      exact List.forall_mem_cons.mpr ⟨rfl, hall⟩
  · rintro ⟨hl, hall⟩
    have hone : (l ++ [a]).length - n = 1 := by simp [hl]
    rw [hone]
    cases l with
    | nil => exact absurd hl.symm hn.ne'
    | cons b l =>
      obtain ⟨rfl, hall⟩ := List.forall_mem_cons.mp hall
      exact concat_eq_cons_iff.mpr ⟨rfl, hall⟩

theorem priceChanges_recordPrice_eq_iff :
    (sb.recordPrice p).priceChanges = sb.priceChanges ↔ sb.Recorded p := by
  rw [Recorded, recordPrice]
  cases sb.lastPrice with
  | none => simp
  | some q =>
    simp only [Option.some.injEq, forall_eq']
    exact drop_concat_eq_iff (by decide)

theorem trailed_eq_iff_steady : ((sb.trailed p o).stopPrice = o.stopPrice ∧
    (sb.trailed p o).watermark = o.watermark) ↔ sb.Steady p o := by
  cases hm : o.trailMethod with
  | none => simp [Steady, trailed, hm]
  | some m =>
    have hne (hcloser : closer o.side (stopAt o.side (bestSeen o p)
        (sb.trailingOffset (bestSeen o p) m)) o.stopPrice = true) :
        stopAt o.side (bestSeen o p) (sb.trailingOffset (bestSeen o p) m) ≠ o.stopPrice := by
      intro heq
      rw [heq] at hcloser
      cases hside : o.side <;> simp [closer, hside] at hcloser
    simp only [Steady, hm, Option.some.injEq, forall_eq', trailed_of_some hm]
    split_ifs with hmoves
    · constructor
      · rintro ⟨hstop, -⟩
        exact absurd hstop (hne hmoves.2)
      · rintro ⟨-, hstays⟩
        rw [hstays hmoves.1] at hmoves
        cases hmoves.2
    · refine ⟨fun h ↦ ⟨h.2.symm, fun hoffset ↦ ?_⟩, fun h ↦ ⟨rfl, h.1.symm⟩⟩
      exact Bool.eq_false_iff.mpr fun hcloser ↦ hmoves ⟨hoffset, hcloser⟩

/-- The orders after the trailing stops have been updated and the stops triggered. -/
theorem get?_collectTriggered (hw : sb.WF) (p : Price) (id : OrderId) :
    ((sb.collectTriggered p).1.orders.get? id) = (sb.orders.get? id).map fun o ↦
      if o.status = .pending ∧ reachedBy o p = true then triggered o else o := by
  have hcol := hw.collects p
  rw [hcol.orders, trigger, OrdMap.get?_mapVals]
  cases ho : sb.orders.get? id with
  | none => rfl
  | some o =>
    have hiff : id ∈ (sb.collectTriggered p).2.map StopOrder.id ↔
        o.status = .pending ∧ reachedBy o p = true := by
      constructor
      · intro hid
        obtain ⟨x, hx, rfl⟩ := List.mem_map.mp hid
        obtain ⟨o', ho', hreached, -⟩ := hcol.reached x hx
        obtain rfl := Option.some.inj (ho'.1.symm.trans ho)
        exact ⟨ho'.2, hreached⟩
      · rintro ⟨hs, hreached⟩
        by_contra hid
        have hleft := hcol.left id o (hcol.pending_iff.mpr ⟨⟨ho, hs⟩, hid⟩)
        rw [hreached] at hleft
        cases hleft
    simp only [Option.map_some, hiff]

/-- Both together, order by order. -/
theorem get?_collectTriggered_updateTrailingStops (hw : sb.WF) (p : Price) (id : OrderId) :
    ((sb.updateTrailingStops p).collectTriggered p).1.orders.get? id =
      (sb.orders.get? id).map fun o ↦
      if o.status = .pending then
        if reachedBy ((sb.recordPrice p).trailed p o) p = true then
          triggered ((sb.recordPrice p).trailed p o)
        else (sb.recordPrice p).trailed p o
      else o := by
  obtain ⟨hw', -⟩ := updateTrailingStops_spec hw p
  rw [get?_collectTriggered hw', get?_updateTrailingStops hw, Option.map_map]
  refine congrArg (Option.map · _) (funext fun o ↦ ?_)
  rw [Function.comp_apply]
  by_cases hs : o.status = .pending
  · simp only [hs, status_trailed, if_true, true_and]
  · simp only [hs, if_false, false_and]

/-- Triggering keeps the price history. -/
theorem priceChanges_collectTriggered (sb : StopBook) (p : Price) :
    (sb.collectTriggered p).1.priceChanges = sb.priceChanges := by
  have hkey (side : Side) (acc : StopBook × List StopOrder) (key : Price) :
      (triggerKey side acc key).1.priceChanges = acc.1.priceChanges := by
    rw [triggerKey]
    split
    · rfl
    · next ids _ =>
      refine List.foldlRecOn (motive := fun acc' ↦ acc'.1.priceChanges = acc.1.priceChanges) ids
        triggerId ?_ ?_
      · cases side <;> rfl
      · intro acc' hacc id _
        rw [triggerId]
        split
        · exact hacc
        · split_ifs <;> exact hacc
  have hkeys (side : Side) (keys : List Price) (acc : StopBook × List StopOrder) :
      (keys.foldl (triggerKey side) acc).1.priceChanges = acc.1.priceChanges :=
    List.foldlRecOn (motive := fun acc' ↦ acc'.1.priceChanges = acc.1.priceChanges) keys
    (triggerKey side) rfl
      fun acc' hacc key _ ↦ (hkey side acc' key).trans hacc
  simp only [collectTriggered]
  split_ifs
  · exact (hkeys _ _ _).trans (hkeys _ _ _)
  · exact (hkeys _ _ _).trans (hkeys _ _ _)

/-- Every stop order of `sb` keeps its status, stop price and watermark, and the price history is
kept. -/
structure Undisturbed (sb sb' : StopBook) : Prop where
  stops : ∀ id o, sb.get id = some o → ∃ o', sb'.get id = some o' ∧
    o'.status = o.status ∧ o'.stopPrice = o.stopPrice ∧ o'.watermark = o.watermark
  priceChanges : sb'.priceChanges = sb.priceChanges

/-- A trade at `p` has nothing left to do: its change fills the price history, and no pending stop
is reached by it or trails it. -/
structure Spent (sb : StopBook) (p : Price) : Prop where
  recorded : sb.Recorded p
  unreached : ∀ id o, sb.Pending id o → reachedBy o p = false
  steady : ∀ id o, sb.Pending id o → sb.Steady p o

theorem priceChanges_recordPrice_insert (order : StopOrder) :
    ((sb.insert order).recordPrice p).priceChanges = (sb.recordPrice p).priceChanges := by
  rw [StopBook.insert]
  cases order.side <;> rfl

/-- What becomes of an order when a new stop joins the book and the triggers run. -/
theorem get_collectTriggered_insert {order : StopOrder} (hw : sb.WF)
    (hfresh : sb.get order.id = none) (hp : order.status = .pending) {id : OrderId} {o : StopOrder}
    (ho : sb.get id = some o) :
    (((sb.insert order).updateTrailingStops p).collectTriggered p).1.get id = some
      (if o.status = .pending then
        if reachedBy ((sb.recordPrice p).trailed p o) p = true then
          triggered ((sb.recordPrice p).trailed p o)
        else (sb.recordPrice p).trailed p o
      else o) := by
  -- an order of the old book is not the new one
  have hne : id ≠ order.id := by
    rintro rfl
    rw [hfresh] at ho
    cases ho
  have hold : (sb.insert order).orders.get? id = some o := by
    rw [StopBook.insert, orders_updateStops, OrdMap.get?_insert, if_neg hne]
    exact ho
  refine (get?_collectTriggered_updateTrailingStops (hw.insert hfresh hp) p id).trans ?_
  rw [hold, Option.map_some, trailed_congr (priceChanges_recordPrice_insert order)]

/-- A new stop joins the book, and the triggers run at a price: the others notice unless the price
has nothing left to do. -/
theorem undisturbed_iff_spent {order : StopOrder} (hw : sb.WF) (hfresh : sb.get order.id = none)
    (hp : order.status = .pending) :
    sb.Undisturbed (((sb.insert order).updateTrailingStops p).collectTriggered p).1 ↔
    sb.Spent p := by
  have hinsert : (sb.insert order).WF := hw.insert hfresh hp
  have hchanges : ((((sb.insert order).updateTrailingStops p).collectTriggered p).1).priceChanges =
      (sb.recordPrice p).priceChanges :=
    (priceChanges_collectTriggered _ p).trans
      ((priceChanges_updateTrailingStops hinsert p).trans (priceChanges_recordPrice_insert order))
  have hreached {o : StopOrder} (hstop : ((sb.recordPrice p).trailed p o).stopPrice = o.stopPrice) :
      reachedBy ((sb.recordPrice p).trailed p o) p = reachedBy o p := by
    rw [reachedBy, reachedBy, hstop, side_trailed]
  constructor
  · intro h
    have hrecorded := hchanges.symm.trans h.priceChanges
    have hpending (id : OrderId) (o : StopOrder) (ho : sb.Pending id o) :
        reachedBy o p = false ∧ sb.Steady p o := by
      obtain ⟨o', ho', hstatus, hstop, hwatermark⟩ := h.stops id o ho.1
      rw [get_collectTriggered_insert hw hfresh hp ho.1, if_pos ho.2] at ho'
      split_ifs at ho' with hreaches
      · cases ho'
        rw [ho.2] at hstatus
        cases hstatus
      · cases ho'
        rw [hreached hstop] at hreaches
        rw [trailed_congr hrecorded] at hstop hwatermark
        exact ⟨Bool.eq_false_iff.mpr hreaches, trailed_eq_iff_steady.mp ⟨hstop, hwatermark⟩⟩
    exact ⟨priceChanges_recordPrice_eq_iff.mp hrecorded, fun id o ho ↦ (hpending id o ho).1,
      fun id o ho ↦ (hpending id o ho).2⟩
  · intro h
    have hrecorded := priceChanges_recordPrice_eq_iff.mpr h.recorded
    refine ⟨fun id o ho ↦ ?_, hchanges.trans hrecorded⟩
    by_cases hs : o.status = .pending
    · have hsteady := trailed_eq_iff_steady.mpr (h.steady id o ⟨ho, hs⟩)
      rw [← trailed_congr hrecorded] at hsteady
      have hunreached := (hreached hsteady.1).trans (h.unreached id o ⟨ho, hs⟩)
      refine ⟨_, get_collectTriggered_insert hw hfresh hp ho, ?_⟩
      rw [if_pos hs, if_neg (Bool.eq_false_iff.mp hunreached)]
      exact ⟨status_trailed, hsteady⟩
    · refine ⟨_, get_collectTriggered_insert hw hfresh hp ho, ?_⟩
      rw [if_neg hs]
      exact ⟨rfl, rfl, rfl⟩

end StopBook

namespace Exchange

variable {ex ex' : Exchange} {fuel : Nat} {op : Op}

/-- `submit_stop_market` and `submit_stop_limit`. -/
inductive PlainStop : Op → Prop
  | market (side : Side) (stopPrice : Price) (quantity : Quantity) :
      PlainStop (.submitStopMarket side stopPrice quantity)
  | limit (side : Side) (stopPrice limitPrice : Price) (quantity : Quantity) (tif : TimeInForce) :
      PlainStop (.submitStopLimit side stopPrice limitPrice quantity tif)

/-! ## A call without trades -/

/-- Trades are only ever added. -/
theorem length_trades_triggerRounds {n : Nat} (h : triggerRounds fuel n ex = some ex') :
    ex.trades.length ≤ ex'.trades.length := by
  induction n generalizing ex with
  | zero =>
    cases h
    exact le_rfl
  | succ n ih =>
    obtain ⟨x, hx, h⟩ := Option.bind_eq_some_iff.mp h
    rw [triggerRound] at hx
    split at hx
    · cases hx
      cases h
      exact le_rfl
    · next p _ =>
      dsimp only at hx
      split_ifs at hx
      · cases hx
        cases h
        exact le_rfl
      · obtain ⟨acc, hfold, hx⟩ := Option.bind_eq_some_iff.mp hx
        obtain ⟨ts, hts, -⟩ := foldlM_submitTriggered_spec hfold
        have hlength : ex.trades.length ≤ acc.1.trades.length := by
          rw [hts, List.length_append]
          exact Nat.le_add_right _ _
        split at hx
        · cases hx
          have hrest := ih h
          exact hlength.trans hrest
        · cases hx
          cases h
          exact hlength

/-- Without a trade there is one round, and what it collects is gone from the stop book. -/
theorem stopBook_triggerRounds {n : Nat} {p : Price} (h : triggerRounds fuel (n + 1) ex = some ex')
    (hp : ex.lastTradePrice = some p) (htrades : ex'.trades = ex.trades) :
    ex'.stopBook = ((ex.stopBook.updateTrailingStops p).collectTriggered p).1 := by
  obtain ⟨x, hx, h⟩ := Option.bind_eq_some_iff.mp h
  simp only [triggerRound, hp] at hx
  split_ifs at hx
  · cases hx
    cases h
    rfl
  · obtain ⟨acc, hfold, hx⟩ := Option.bind_eq_some_iff.mp hx
    obtain ⟨ts, hts, hprice, hsb, -⟩ := foldlM_submitTriggered_spec hfold
    split at hx
    · next q hq =>
      cases hx
      -- the round traded, and the trades are still there at the end
      have hlength := length_trades_triggerRounds h
      rw [htrades, hts, List.length_append] at hlength
      have hnil : ts = [] := by
        refine List.eq_nil_of_length_eq_zero ?_
        have hle : ex.trades.length + ts.length ≤ ex.trades.length := hlength
        lia
      rw [hnil] at hprice
      rw [hprice] at hq
      cases hq
    · cases hx
      cases h
      exact hsb

/-- A new stop alone is not noticed. -/
theorem undisturbed_insert {sb : StopBook} {order : StopOrder} (hfresh : sb.get order.id = none) :
    sb.Undisturbed (sb.insert order) := by
  refine ⟨fun id o ho ↦ ⟨o, ?_, rfl, rfl, rfl⟩, ?_⟩
  · have hne : id ≠ order.id := by
      rintro rfl
      rw [hfresh] at ho
      cases ho
    rw [StopBook.get, StopBook.insert, StopBook.orders_updateStops, OrdMap.get?_insert, if_neg hne]
    exact ho
  · rw [StopBook.insert]
    cases order.side <;> rfl

theorem PlainStop.exists_newStop (h : PlainStop op) (ex : Exchange) :
    ∃ order, ex.newStop op = some order ∧
    order.id = ex.book.nextOrderId ∧ order.status = .pending := by
  cases h with
  | market side stopPrice quantity => exact ⟨_, rfl, rfl, rfl⟩
  | limit side stopPrice limitPrice quantity tif => exact ⟨_, rfl, rfl, rfl⟩

/-- While nothing trades, a plain stop leaves the other stops and the price history alone exactly if
it does not trigger at once, or the last trade price has nothing left to do. -/
theorem undisturbed_iff (hreach : Reachable ex) (hplain : PlainStop op) (hstep : ex.Step op ex')
    (htrades : ex'.trades = ex.trades) : ex.stopBook.Undisturbed ex'.stopBook ↔
      ∀ order p, ex.newStop op = some order → ex.shouldTrigger order = true →
        ex.lastTradePrice = some p → ex.stopBook.Spent p := by
  obtain ⟨order, hnew, hid, hp⟩ := hplain.exists_newStop ex
  obtain ⟨fuel, hstep⟩ := hstep
  obtain ⟨events, hlog⟩ := ex.logged_eq op
  have hfresh : ex.stopBook.get order.id = none := by
    cases hget : ex.stopBook.get order.id with
    | none => rfl
    | some o =>
      have hlt := (hreach.wf.stops _ _ hget).lt
      rw [hid] at hlt
      exact absurd hlt (lt_irrefl _)
  rw [perform_newStop hnew, hlog] at hstep
  change (if ex.shouldTrigger order then _ else _) = _ at hstep
  split_ifs at hstep with hnow
  · obtain ⟨p, hlast⟩ : ∃ p, ex.lastTradePrice = some p := by
      cases hlast : ex.lastTradePrice with
      | none => simp [shouldTrigger, hlast] at hnow
      | some p => exact ⟨p, rfl⟩
    have hsb := stopBook_triggerRounds (n := 99) hstep hlast htrades
    rw [hsb]
    refine (StopBook.undisturbed_iff_spent hreach.stopBook_wf hfresh hp).trans ⟨?_, ?_⟩
    · intro hspent order' q _ _ hq
      obtain rfl := Option.some.inj (hq.symm.trans hlast)
      exact hspent
    · intro h
      exact h order p hnew hnow hlast
  · cases hstep
    refine ⟨fun _ order' p hnew' hnow' _ ↦ ?_, fun _ ↦ undisturbed_insert hfresh⟩
    obtain rfl := Option.some.inj (hnew'.symm.trans hnew)
    exact absurd hnow' hnow

/-- With the market at 90 and a trailing sell stop at 95, a buy stop at 110 waits, and the trailing
stop with it. -/
theorem undisturbed_iff_ten : ∃ ex ex' : Exchange,
    performAll 5 create [.submitLimit .sell 90 50 .gtc, .submitLimit .buy 90 50 .gtc,
      .submitTrailingStopMarket .sell 95 50 (.fixed 3)] = some ex ∧
    ex.perform 5 (.submitStopMarket .buy 110 10) =
    some ex' ∧ ex.stopBook.Undisturbed ex'.stopBook := by
  obtain ⟨ex, hex⟩ :
    ∃ ex, performAll 5 create [.submitLimit .sell 90 50 .gtc, .submitLimit .buy 90 50 .gtc,
      .submitTrailingStopMarket .sell 95 50 (.fixed 3)] = some ex := ⟨_, rfl⟩
  have hlast := observe hex lastTradePrice (a := some 90) rfl
  have hwaits (order : StopOrder) (hnew : ex.newStop (.submitStopMarket .buy 110 10) = some order) :
      ex.shouldTrigger order = false := by
    cases hnew
    simp [shouldTrigger, nextStop, hlast]
  obtain ⟨order, hnew, -⟩ := (PlainStop.market .buy 110 10).exists_newStop ex
  have hstep : ex.perform 5 (.submitStopMarket .buy 110 10) =
      some ((ex.logged (.submitStopMarket .buy 110 10)).insertStop order) := by
    rw [perform_newStop hnew]
    exact if_neg (Bool.eq_false_iff.mp (hwaits order hnew))
  refine ⟨ex, _, hex, hstep, (undisturbed_iff (reachable_of_performAll hex) (.market .buy 110 10)
    ⟨5, hstep⟩ rfl).mpr fun order' p hnew' hnow _ ↦ ?_⟩
  rw [hwaits order' hnew'] at hnow
  cases hnow

/-- A buy stop at 80 triggers at once and finds nothing to buy, but the trailing stop at 95 that was
waiting for the market to move triggers with it. -/
theorem not_undisturbed :
    ¬ ∀ (ex : Exchange) (op : Op) (ex' : Exchange), Reachable ex → PlainStop op →
    ex.Step op ex' → ex'.trades = ex.trades → ex.stopBook.Undisturbed ex'.stopBook := by
  intro h
  obtain ⟨ex, hex⟩ :
    ∃ ex, performAll 5 create [.submitLimit .sell 90 50 .gtc, .submitLimit .buy 90 50 .gtc,
      .submitTrailingStopMarket .sell 95 50 (.fixed 3)] = some ex := ⟨_, rfl⟩
  obtain ⟨ex', hex'⟩ :
    ∃ ex', performAll 5 create [.submitLimit .sell 90 50 .gtc, .submitLimit .buy 90 50 .gtc,
      .submitTrailingStopMarket .sell 95 50 (.fixed 3), .submitStopMarket .buy 80 10] =
      some ex' := ⟨_, rfl⟩
  have hstep : ex.perform 5 (.submitStopMarket .buy 80 10) = some ex' :=
    perform_of_performAll hex hex'
  have hbefore :=
    observe hex (fun ex ↦ (ex.stopBook.get 3).map StopOrder.status) (a := some .pending) rfl
  have hafter :=
    observe hex' (fun ex ↦ (ex.stopBook.get 3).map StopOrder.status) (a := some .triggered) rfl
  have htrades : ex'.trades = ex.trades :=
    (observe hex' trades rfl).trans (observe hex trades rfl).symm
  obtain ⟨o, ho, hs⟩ := Option.map_eq_some_iff.mp hbefore
  obtain ⟨o', ho', hs', -⟩ :=
    (h ex _ ex' (reachable_of_performAll hex) (.market .buy 80 10) ⟨5, hstep⟩ htrades).stops 3 o ho
  rw [ho', Option.map_some, hs', hs] at hafter
  cases hafter

end Exchange

end Nanobook
