import Nanobook.Alike.StopBook
import Nanobook.StopRuns

/-!
# Trailing stops

What `update_trailing_stops` makes of every order, each by itself, and the closed form of a stop
that trails by a fixed distance: the best price seen since it came, and the best stop price that has
ever been in force.
-/

namespace Nanobook

namespace StopBook

variable {sb sb' : StopBook} {id : OrderId} {o o' : StopOrder} {p : Price}

/-! ## One order -/

/-- The watermark after a trade. -/
def bestSeen (o : StopOrder) (p : Price) : Price :=
  match o.side with
  | .sell => Max.max (o.watermark.getD p) p
  | .buy => Min.min (o.watermark.getD p) p

/-- The stop price that trails a watermark at a distance. -/
def stopAt (side : Side) (watermark : Price) (offset : Int) : Price :=
  match side with
  | .sell => wrapI64 (watermark - offset)
  | .buy => wrapI64 (watermark + offset)

/-- The first stop price is closer to the market than the second. -/
def closer (side : Side) (newStop oldStop : Price) : Bool :=
  match side with
  | .sell => decide (newStop > oldStop)
  | .buy => decide (newStop < oldStop)

/-- A pending order after a trade, given the price history of the book. -/
def trailed (sb : StopBook) (p : Price) (o : StopOrder) : StopOrder :=
  match o.trailMethod with
  | none => o
  | some trailMethod =>
      let offset := sb.trailingOffset (bestSeen o p) trailMethod
      let newStop := stopAt o.side (bestSeen o p) offset
      if 0 < offset ∧ closer o.side newStop o.stopPrice = true then
        { o with stopPrice := newStop, watermark := some (bestSeen o p) }
      else { o with watermark := some (bestSeen o p) }

theorem trailed_of_some {m : TrailMethod} (hm : o.trailMethod = some m) : sb.trailed p o =
    if 0 < sb.trailingOffset (bestSeen o p) m ∧
        closer o.side (stopAt o.side (bestSeen o p) (sb.trailingOffset (bestSeen o p) m))
        o.stopPrice = true then
      { o with
        stopPrice := stopAt o.side (bestSeen o p) (sb.trailingOffset (bestSeen o p) m)
        watermark := some (bestSeen o p) }
    else { o with watermark := some (bestSeen o p) } := by
  obtain ⟨id, side, stopPrice, limitPrice, quantity, timeInForce, timestamp, status, trailMethod,
    w⟩ := o
  cases hm
  rfl

theorem trailed_congr (h : sb'.priceChanges = sb.priceChanges) :
    sb'.trailed p o = sb.trailed p o := by
  have hoffset : ∀ w m, sb'.trailingOffset w m = sb.trailingOffset w m := by
    intro w m
    cases m <;> simp [trailingOffset, computeSmaAbsChangeOffset, h]
  simp only [trailed, hoffset]

@[simp] theorem status_trailed : (sb.trailed p o).status = o.status := by
  rw [trailed]
  split
  · rfl
  · dsimp only
    split_ifs <;> rfl

@[simp] theorem side_trailed : (sb.trailed p o).side = o.side := by
  rw [trailed]
  split
  · rfl
  · dsimp only
    split_ifs <;> rfl

/-- The update of one trailing stop replaces its record, and keeps the price history. -/
theorem updateTrailingStop_of_pending (ho : sb.Pending id o) (ht : o.trailMethod.isSome = true) :
    (updateTrailingStop p sb id).orders = sb.orders.insert id (sb.trailed p o) ∧
      (updateTrailingStop p sb id).priceChanges = sb.priceChanges := by
  obtain ⟨m, hm⟩ := Option.isSome_iff_exists.mp ht
  -- the watermark, the new stop price and the comparison are those of one order
  have hupdate : updateTrailingStop p sb id =
      if sb.trailingOffset (bestSeen o p) m ≤ 0 then
        { sb with orders := sb.orders.insert id { o with watermark := some (bestSeen o p) } }
      else if closer o.side (stopAt o.side (bestSeen o p) (sb.trailingOffset (bestSeen o p) m))
          o.stopPrice = true then
        { sb.updateStops o.side fun index ↦ pushId (removeId index o.stopPrice id)
            (stopAt o.side (bestSeen o p) (sb.trailingOffset (bestSeen o p) m)) id with
          orders := sb.orders.insert id
            { o with
              stopPrice := stopAt o.side (bestSeen o p) (sb.trailingOffset (bestSeen o p) m)
              watermark := some (bestSeen o p) } }
      else { sb with orders := sb.orders.insert id { o with watermark := some (bestSeen o p) } } :=
        by
    simp only [updateTrailingStop, ho.1, ho.2, hm, orders_updateStops]
    rfl
  have hhistory (f : OrdMap Price (List OrderId) → OrdMap Price (List OrderId)) :
      (sb.updateStops o.side f).priceChanges = sb.priceChanges := by cases o.side <;> rfl
  rw [hupdate, trailed_of_some hm]
  by_cases hoffset : sb.trailingOffset (bestSeen o p) m ≤ 0
  · rw [if_pos hoffset, if_neg fun h ↦ absurd h.1 (not_lt.mpr hoffset)]
    exact ⟨rfl, rfl⟩
  rw [if_neg hoffset]
  by_cases hcloser :
  closer o.side (stopAt o.side (bestSeen o p) (sb.trailingOffset (bestSeen o p) m))
      o.stopPrice = true
  · rw [if_pos hcloser, if_pos ⟨not_le.mp hoffset, hcloser⟩]
    exact ⟨rfl, hhistory _⟩
  · rw [if_neg hcloser, if_neg fun h ↦ hcloser h.2]
    exact ⟨rfl, rfl⟩

/-- A stop that does not trail stays as it is. -/
theorem updateTrailingStop_of_regular (ho : sb.Pending id o) (ht : o.trailMethod = none) :
    updateTrailingStop p sb id = sb := by
  simp only [updateTrailingStop, ho.1, ho.2, ht]

/-! ## All orders -/

/-- The update of one id, order by order. -/
theorem get?_updateTrailingStop (p : Price) (sb : StopBook) (id j : OrderId) :
    (updateTrailingStop p sb id).orders.get? j = (sb.orders.get? j).map (fun o ↦
      if j = id ∧ o.status = .pending then sb.trailed p o else o) ∧
    (updateTrailingStop p sb id).priceChanges = sb.priceChanges := by
  have hsame
    (h : ∀ o, sb.orders.get? j = some o → j = id → o.status = .pending → sb.trailed p o = o) :
      sb.orders.get? j = (sb.orders.get? j).map fun o ↦
        if j = id ∧ o.status = .pending then sb.trailed p o else o := by
    cases hj : sb.orders.get? j with
    | none => rfl
    | some o =>
      rw [Option.map_some]
      split_ifs with hself
      · rw [h o hj hself.1 hself.2]
      · rfl
  by_cases hpending : ∃ o, sb.Pending id o
  · obtain ⟨o, ho⟩ := hpending
    cases ht : o.trailMethod with
    | none =>
      rw [updateTrailingStop_of_regular ho ht]
      refine ⟨hsame fun o' ho' hj _ ↦ ?_, rfl⟩
      obtain rfl := Option.some.inj (ho'.symm.trans (hj ▸ ho.1))
      rw [trailed, ht]
    | some m =>
      obtain ⟨horders, hchanges⟩ := updateTrailingStop_of_pending (p := p) ho (by rw [ht]; rfl)
      refine ⟨?_, hchanges⟩
      rw [horders, OrdMap.get?_insert]
      split_ifs with hj
      · rw [hj, ho.1, Option.map_some, if_pos ⟨rfl, ho.2⟩]
      · cases sb.orders.get? j with
        | none => rfl
        | some o' => rw [Option.map_some, if_neg fun h ↦ hj h.1]
  · rw [updateTrailingStop_of_not_pending (not_exists.mp hpending)]
    refine ⟨hsame fun o ho hj hs ↦ absurd ⟨o, hj ▸ ho, hs⟩ hpending, rfl⟩

theorem get?_foldl_updateTrailingStop (p : Price) {ids : List OrderId} (hnodup : ids.Nodup)
    (sb : StopBook) (j : OrderId) :
    (ids.foldl (updateTrailingStop p) sb).orders.get? j = (sb.orders.get? j).map (fun o ↦
      if j ∈ ids ∧ o.status = .pending then sb.trailed p o else o) ∧
    (ids.foldl (updateTrailingStop p) sb).priceChanges = sb.priceChanges := by
  induction ids generalizing sb with
  | nil => exact ⟨by simp, rfl⟩
  | cons id ids ih =>
    obtain ⟨hid, hnodup⟩ := List.nodup_cons.mp hnodup
    obtain ⟨hrest, hchanges⟩ := ih hnodup (updateTrailingStop p sb id)
    obtain ⟨hone, hchanges'⟩ := get?_updateTrailingStop p sb id j
    refine ⟨?_, hchanges.trans hchanges'⟩
    rw [List.foldl_cons, hrest, hone, Option.map_map]
    refine congrArg (Option.map · _) (funext fun o ↦ ?_)
    simp only [Function.comp_apply, List.mem_cons, trailed_congr hchanges']
    by_cases hj : j = id
    · subst hj
      simp [hid]
    · simp [hj]

/-- The update of all of them: each pending order by itself. -/
theorem get?_updateTrailingStops (hw : sb.WF) (p : Price) (id : OrderId) :
    (sb.updateTrailingStops p).orders.get? id = (sb.orders.get? id).map fun o ↦
      if o.status = .pending then (sb.recordPrice p).trailed p o else o := by
  obtain ⟨hget, -⟩ := get?_foldl_updateTrailingStop p hw.trailingNodup (sb.recordPrice p) id
  refine hget.trans ?_
  cases ho : (sb.recordPrice p).orders.get? id with
  | none =>
    have ho' : sb.orders.get? id = none := ho
    rw [ho']
    rfl
  | some o =>
    have ho' : sb.orders.get? id = some o := ho
    rw [ho', Option.map_some, Option.map_some]
    by_cases hs : o.status = .pending
    · cases ht : o.trailMethod with
      | none =>
        have hself : (sb.recordPrice p).trailed p o = o := by rw [trailed, ht]
        simp only [hself, ite_self]
      | some m =>
        have hid : id ∈ sb.trailingIds := (hw.trailing id).mpr ⟨o, ⟨ho', hs⟩, by rw [ht]; rfl⟩
        rw [if_pos ⟨hid, hs⟩, if_pos hs]
    · rw [if_neg fun h ↦ hs h.2, if_neg hs]

theorem priceChanges_updateTrailingStops (hw : sb.WF) (p : Price) :
    (sb.updateTrailingStops p).priceChanges = (sb.recordPrice p).priceChanges :=
  (get?_foldl_updateTrailingStop p hw.trailingNodup (sb.recordPrice p) 0).2

/-! ## Trailing by a fixed distance -/

/-- The best of the prices for a side, if there are any: the highest for a sell, the lowest for a
buy. -/
def best (side : Side) (prices : List Price) : Option Price :=
  match side with
  | .sell => prices.max?
  | .buy => prices.min?

/-- The stop price that trails the best of the prices, never worse than where it started. -/
def fixedStop (side : Side) (start : Price) (cents : Int) (prices : List Price) : Price :=
  match side with
  | .sell => prices.max?.elim start fun w ↦ max start (w - cents)
  | .buy => prices.min?.elim start fun w ↦ min start (w + cents)

/-- An order that trails by a fixed distance, once the prices have been seen. -/
def fixedTrail (order : StopOrder) (cents : Int) (prices : List Price) : StopOrder :=
  { order with
    stopPrice := fixedStop order.side order.stopPrice cents prices, watermark :=
      best order.side prices }

theorem max?_concat (prices : List Price) (p : Price) :
    (prices ++ [p]).max? = some (max (prices.max?.getD p) p) := by
  cases prices with
  | nil => exact congrArg some (max_self p).symm
  | cons q prices => rw [List.cons_append, List.max?_cons', List.foldl_append, List.max?_cons']; rfl

theorem min?_concat (prices : List Price) (p : Price) :
    (prices ++ [p]).min? = some (min (prices.min?.getD p) p) := by
  cases prices with
  | nil => exact congrArg some (min_self p).symm
  | cons q prices => rw [List.cons_append, List.min?_cons', List.foldl_append, List.min?_cons']; rfl

theorem best_concat (order : StopOrder) (cents : Int) (prices : List Price) (p : Price) :
    best order.side (prices ++ [p]) = some (bestSeen (fixedTrail order cents prices) p) := by
  cases hside : order.side with
  | sell =>
    simp only [best, bestSeen, fixedTrail, hside, max?_concat]
  | buy =>
    simp only [best, bestSeen, fixedTrail, hside, min?_concat]

/-- The best of prices is one of them. -/
theorem best_mem {side : Side} {prices : List Price} {w : Price} (h : best side prices = some w) :
    w ∈ prices := by
  cases side with
  | sell => exact List.max?_mem h
  | buy => exact List.min?_mem h

/-- The closed form moves on to the stop price at the new watermark, if that is closer to the
market. -/
theorem fixedStop_concat (order : StopOrder) (cents : Int) (prices : List Price) (p : Price)
    (hlo : -2 ^ 63 ≤ bestSeen (fixedTrail order cents prices) p - cents)
    (hhi : bestSeen (fixedTrail order cents prices) p + cents < 2 ^ 63) (hcents : 0 < cents) :
    fixedStop order.side order.stopPrice cents (prices ++ [p]) =
      if closer order.side (stopAt order.side (bestSeen (fixedTrail order cents prices) p) cents)
          (fixedStop order.side order.stopPrice cents prices) = true then
        stopAt order.side (bestSeen (fixedTrail order cents prices) p) cents
      else fixedStop order.side order.stopPrice cents prices := by
  have hwrap (x : Int) (hx : -2 ^ 63 ≤ x) (hx' : x < 2 ^ 63) : wrapI64 x = x :=
    Int.bmod_eq_of_le (by omega) (by omega)
  cases hside : order.side with
  | sell =>
    simp only [bestSeen, fixedTrail, best, hside] at hlo hhi
    simp only [fixedStop, stopAt, closer, bestSeen, fixedTrail, best, hside, max?_concat,
      Option.elim_some, decide_eq_true_iff, gt_iff_lt]
    rw [hwrap _ hlo (by lia)]
    cases prices.max? with
    | none =>
      simp only [Option.elim_none, Option.getD_none]
      split_ifs <;> lia
    | some w =>
      simp only [Option.elim_some, Option.getD_some]
      split_ifs <;> lia
  | buy =>
    simp only [bestSeen, fixedTrail, best, hside] at hlo hhi
    simp only [fixedStop, stopAt, closer, bestSeen, fixedTrail, best, hside, min?_concat,
      Option.elim_some, decide_eq_true_iff]
    rw [hwrap _ (by lia) hhi]
    cases prices.min? with
    | none =>
      simp only [Option.elim_none, Option.getD_none]
      split_ifs <;> lia
    | some w =>
      simp only [Option.elim_some, Option.getD_some]
      split_ifs <;> lia

/-- One more price moves the closed form on. -/
theorem trailed_fixedTrail {order : StopOrder} {cents : Int} {prices : List Price} {p : Price}
    (hfixed : order.trailMethod = some (.fixed cents)) (hcents : 0 < cents)
    (hrange : ∀ q ∈ prices ++ [p], -2 ^ 63 ≤ q - cents ∧ q + cents < 2 ^ 63) :
    sb.trailed p (fixedTrail order cents prices) = fixedTrail order cents (prices ++ [p]) := by
  have hbest := best_concat order cents prices p
  obtain ⟨hlo, hhi⟩ := hrange _ (best_mem hbest)
  have hstop := fixedStop_concat order cents prices p hlo hhi hcents
  have hmethod : (fixedTrail order cents prices).trailMethod = some (.fixed cents) := hfixed
  have hnext : fixedTrail order cents (prices ++ [p]) =
      { order with
        stopPrice := fixedStop order.side order.stopPrice cents (prices ++ [p])
        watermark := some (bestSeen (fixedTrail order cents prices) p) } := by
    rw [← hbest]
    rfl
  rw [hnext, hstop, trailed_of_some hmethod]
  by_cases hcloser :
  closer order.side (stopAt order.side (bestSeen (fixedTrail order cents prices) p) cents)
      (fixedStop order.side order.stopPrice cents prices) = true
  · rw [if_pos hcloser]
    exact if_pos (c := _ ∧ _) ⟨hcents, hcloser⟩
  · rw [if_neg hcloser]
    exact if_neg (c := _ ∧ _) fun h ↦ hcloser h.2

/-! ## Runs -/

/-- The price that an operation hands to the trailing stops. -/
def StopOp.prices : StopOp → List Price
  | .updateTrailingStops tradePrice => [tradePrice]
  | _ => []

/-- What an operation on `sb` makes of an order that stays pending. -/
def StopOp.trail (op : StopOp) (sb : StopBook) (o : StopOrder) : StopOrder :=
  match op with
  | .updateTrailingStops tradePrice => (sb.recordPrice tradePrice).trailed tradePrice o
  | _ => o

/-- The runs of a book in which `order` has been inserted and stayed pending, with the prices that
the trailing stops have been updated with since. -/
inductive TrailRun (order : StopOrder) : StopBook → History → List Price → Prop
  | insert {sb : StopBook} {h : History} : StopRun sb h → Allowed h (.insert order) →
      TrailRun order (sb.perform (.insert order)) (h.after sb (.insert order)) []
  | step {sb : StopBook} {h : History} {prices : List Price} (op : StopOp) :
      TrailRun order sb h prices →
      Allowed h op → (∃ o, (sb.perform op).Pending order.id o) →
      TrailRun order (sb.perform op) (h.after sb op) (prices ++ op.prices)

variable {order : StopOrder} {h : History} {prices : List Price}

theorem TrailRun.stopRun (hrun : TrailRun order sb h prices) : StopRun sb h := by
  induction hrun with
  | insert hrun hallowed => exact .step _ hrun hallowed
  | step op _ hallowed _ ih => exact .step op ih hallowed

/-- A price moves an order that stays pending, and the other operations leave it as it is. -/
theorem pending_perform {op : StopOp} (hacc : Accounted sb h) (hallowed : Allowed h op)
    (ho : sb.Pending id o) (hstays : ∃ o', (sb.perform op).Pending id o') :
    (sb.perform op).Pending id (op.trail sb o) := by
  obtain ⟨o', ho'⟩ := hstays
  cases op with
  | insert other =>
    have horders : (sb.insert other).orders = sb.orders.insert other.id other := by
      simp only [StopBook.insert, orders_updateStops]
    have hne : id ≠ other.id := ne_of_mem_of_not_mem (hacc.stored id o ho.1) hallowed.1
    exact (pending_insert horders id o).mpr (by rwa [if_neg hne])
  | cancel other =>
    by_cases hpending : ∃ x, sb.Pending other x
    · obtain ⟨x, hx⟩ := hpending
      have horders : (sb.cancel other).orders =
          sb.orders.insert other { x with status := .cancelled } := by rw [cancel_of_pending hx]
      have hother := (pending_insert horders id o').mp ho'
      split_ifs at hother with heq
      · cases hother.2
      · exact (pending_insert horders id o).mpr (by rwa [if_neg heq])
    · rw [perform, cancel_of_not_pending (not_exists.mp hpending)]
      exact ho
  | updateTrailingStops p =>
    have hget := get?_updateTrailingStops hacc.wf p id
    rw [ho.1, Option.map_some, if_pos ho.2] at hget
    obtain rfl := Option.some.inj (ho'.1.symm.trans hget)
    exact ho'
  | collectTriggered p =>
    have hcollects := hacc.wf.collects p
    exact hcollects.pending_iff.mpr ⟨ho, (hcollects.pending_iff.mp ho').2⟩
  | clearHistory => exact (hacc.wf.clearHistory.2 id o).mpr ho

/-- A stop that trails by a fixed distance is, as long as it is pending, what the prices since its
insertion make of it, whatever else is in the book. -/
theorem fixedTrail_of_run (hrun : TrailRun order sb h prices) {cents : Int}
    (hfixed : order.trailMethod = some (.fixed cents)) (hcents : 0 < cents)
    (hnew : order.watermark = none)
    (hrange : ∀ p ∈ prices, 0 < p ∧ -2 ^ 63 ≤ p - cents ∧ p + cents < 2 ^ 63) :
    sb.Pending order.id (fixedTrail order cents prices) := by
  induction hrun with
  | @insert sb h _ hallowed =>
    have horders : (sb.insert order).orders = sb.orders.insert order.id order := by
      simp only [StopBook.insert, orders_updateStops]
    have hstart : fixedTrail order cents [] = order := by
      rw [fixedTrail]
      cases hside :
        order.side <;> simp only [fixedStop, best, List.max?_nil, List.min?_nil, Option.elim_none]
        <;> rw [← hnew, ← hside]
    rw [hstart]
    exact (pending_insert horders order.id order).mpr (by simpa using hallowed.2)
  | @step sb h prices op hrun hallowed hstays ih =>
    have hacc := hrun.stopRun.accounted
    have hpending := pending_perform hacc hallowed
      (ih fun p hp ↦ hrange p (List.mem_append_left _ hp)) hstays
    cases op with
    | updateTrailingStops p =>
      rw [StopOp.trail, trailed_fixedTrail hfixed hcents fun q hq ↦ (hrange q hq).2] at hpending
      exact hpending
    | insert | cancel | collectTriggered | clearHistory =>
      change (sb.perform _).Pending order.id (fixedTrail order cents (prices ++ []))
      rw [List.append_nil]
      exact hpending

theorem exists_pending (h : (sb.orders.get? id).any (fun o ↦ o.status = .pending) = true) :
    ∃ o, sb.Pending id o := by
  obtain ⟨o, ho, hs⟩ := Option.any_eq_true _ _ |>.mp h
  exact ⟨o, ho, of_decide_eq_true hs⟩

/-- A sell stop at 95 that trails by 5, next to a buy stop that the first of two trades triggers:
after the trades at 110 and 107 it stands at 105. -/
theorem fixedTrail_of_run_seven : ∃ sb h,
    TrailRun ⟨2, .sell, 95, none, 5, .gtc, 2, .pending, some (.fixed 5), none⟩ sb h [110, 107] ∧
      sb.Pending 2 ⟨2, .sell, 105, none, 5, .gtc, 2, .pending, some (.fixed 5), some 110⟩ := by
  obtain ⟨sb, h, hrun⟩ : ∃ sb h,
      TrailRun ⟨2, .sell, 95, none, 5, .gtc, 2, .pending, some (.fixed 5), none⟩ sb h
      [110, 107] := by
    refine ⟨_, _, .step (.collectTriggered 107) (.step (.updateTrailingStops 107)
      (.step (.collectTriggered 110) (.step (.updateTrailingStops 110)
      (.insert (.step (.insert ⟨1, .buy, 105, none, 5, .gtc, 1, .pending, none, none⟩) .start
        ⟨?_, rfl⟩)
        ⟨?_, rfl⟩) trivial ?_) trivial ?_) trivial ?_) trivial ?_⟩
    · decide
    · decide
    · exact exists_pending rfl
    · exact exists_pending rfl
    · exact exists_pending rfl
    · exact exists_pending rfl
  exact ⟨sb, h, hrun, fixedTrail_of_run hrun rfl (by decide) rfl (by decide)⟩

end StopBook

end Nanobook
