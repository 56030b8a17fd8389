import Nanobook.Matching

/-!
# Price-time priority

What a match is for, without queues of ids, tombstones, caches or loops: the resting orders of the
other side are visited level by level and in queue order, and each of them is filled, or cancelled
by self-trade prevention, until the incoming order is used up or stops.

`walk` visits levels that carry a cached total of their own, as the book's levels do, and gives a
level up when its total is used up.  `greedy` visits a plain list of orders.  The two coincide where
the totals are the sums of the remaining quantities (`walk_eq_greedy`).
-/

namespace Nanobook

/-- The quantity remaining in a list of orders. -/
def remainingSum (os : List Order) : Quantity := (os.map Order.remainingQuantity).sum

@[simp] theorem remainingSum_nil : remainingSum [] = 0 := rfl

@[simp] theorem remainingSum_cons (o : Order) (os : List Order) :
    remainingSum (o :: os) = o.remainingQuantity + remainingSum os := rfl

/-- What a match does to one resting order. -/
inductive Action where
  | fill (order : Order) (quantity : Quantity)
  | cancel (order : Order)
deriving DecidableEq, Repr

/-- A level as its price, its cached total and the orders queued there. -/
structure RestingLevel where
  price : Price
  total : Quantity
  queue : List Order
deriving DecidableEq, Repr

/-- The actions of a match, what they leave of the incoming order, whether self-trade prevention
cancelled that remainder, and what they leave of the other side. -/
structure Walk (α : Type) where
  actions : List Action
  left : Quantity
  stp : Bool
  rest : α
deriving DecidableEq, Repr

namespace Walk

variable {α : Type}

/-- The same match with an action before it. -/
def cons (a : Action) (w : Walk α) : Walk α := { w with actions := a :: w.actions }

@[simp] theorem cons_actions (a : Action) (w : Walk α) : (w.cons a).actions = a :: w.actions := rfl

@[simp] theorem cons_left (a : Action) (w : Walk α) : (w.cons a).left = w.left := rfl

@[simp] theorem cons_stp (a : Action) (w : Walk α) : (w.cons a).stp = w.stp := rfl

@[simp] theorem cons_rest (a : Action) (w : Walk α) : (w.cons a).rest = w.rest := rfl

/-- The same match with actions before it. -/
def append (done : List Action) (w : Walk α) : Walk α := { w with actions := done ++ w.actions }

theorem append_nil (w : Walk α) : w.append [] = w := rfl

theorem append_cons (done : List Action) (a : Action) (w : Walk α) :
    (w.cons a).append done = w.append (done ++ [a]) := by
  simp [append, cons]

end Walk

/-- Whether a conflict cancels the incoming order and not the resting one. -/
def cancelsIncoming (policy : StpPolicy) (left remaining : Quantity) : Bool :=
  match policy with
  | .cancelNewest => true
  | .decrementAndCancel => decide (left < remaining)
  | .off | .cancelOldest => false

section

variable (policy : StpPolicy) (owner : Option OrderOwner)

/-- The visit of one queue; the level is given up (`none`) when its total is used up. -/
def walkQueue : Quantity → List Order → Quantity → Walk (Option (Quantity × List Order))
  | total, [], left => ⟨[], left, false, some (total, [])⟩
  | total, o :: queue, left =>
      let next (a : Action) (left : Quantity) : Walk (Option (Quantity × List Order)) :=
        if total - o.remainingQuantity = 0 then ⟨[a], left, false, none⟩
        else (walkQueue (total - o.remainingQuantity) queue left).cons a
      if left = 0 then ⟨[], 0, false, some (total, o :: queue)⟩
      else if stpConflict policy owner o.owner then
        if cancelsIncoming policy left o.remainingQuantity then
          ⟨[], left, true, some (total, o :: queue)⟩
        else next (.cancel o) left
      else if o.remainingQuantity ≤ left then
        next (.fill o o.remainingQuantity) (left - o.remainingQuantity)
      else ⟨[.fill o left], 0, false, some (total - left, o.fill left :: queue)⟩

/-- The visit of the levels an order of `side` at `price` crosses, best first. -/
def walk (side : Side) (price : Price) : List RestingLevel → Quantity → Walk (List RestingLevel)
  | [], left => ⟨[], left, false, []⟩
  | level :: levels, left =>
      if pricesCross side price level.price then
        let w := walkQueue policy owner level.total level.queue left
        match w.rest with
        | some (total, queue) => ⟨w.actions, w.left, w.stp, ⟨level.price, total, queue⟩ :: levels⟩
        | none =>
            let w' := walk side price levels w.left
            { w' with actions := w.actions ++ w'.actions }
      else ⟨[], left, false, level :: levels⟩

/-- The visit of a plain list of resting orders. -/
def greedy (side : Side) (price : Price) : List Order → Quantity → Walk (List Order)
  | [], left => ⟨[], left, false, []⟩
  | o :: os, left =>
      if left = 0 ∨ pricesCross side price o.price = false then ⟨[], left, false, o :: os⟩
      else if stpConflict policy owner o.owner then
        if cancelsIncoming policy left o.remainingQuantity then ⟨[], left, true, o :: os⟩
        else (greedy side price os left).cons (.cancel o)
      else if o.remainingQuantity ≤ left then
        (greedy side price os (left - o.remainingQuantity)).cons (.fill o o.remainingQuantity)
      else ⟨[.fill o left], 0, false, o.fill left :: os⟩

end

section

variable {policy : StpPolicy} {owner : Option OrderOwner} {side : Side} {price : Price}

/-! ## One order at a time -/

/-- The levels left when the first order of the first level goes. -/
def dropFirst (p : Price) (total : Quantity) (o : Order) (queue : List Order)
    (levels : List RestingLevel) : List RestingLevel :=
  if total - o.remainingQuantity = 0 then levels
  else ⟨p, total - o.remainingQuantity, queue⟩ :: levels

/-- The number of resting orders. -/
def queued (levels : List RestingLevel) : Nat := (levels.map fun level ↦ level.queue.length).sum

@[simp] theorem queued_cons (level : RestingLevel) (levels : List RestingLevel) :
    queued (level :: levels) = level.queue.length + queued levels := rfl

theorem queued_dropFirst (p : Price) (total : Quantity) (o : Order) (queue : List Order)
    (levels : List RestingLevel) :
    queued (dropFirst p total o queue levels) < queued (⟨p, total, o :: queue⟩ :: levels) := by
  simp only [dropFirst, queued_cons, List.length_cons]
  split_ifs
  · lia
  · simp only [queued_cons]
    lia

/-- The visit of a level is over: it is gone, or it still comes first. -/
def AtOrPast (p : Price) (levels : List RestingLevel) : Prop :=
  (∃ level ∈ levels.head?, level.price = p) ∨ ∀ level ∈ levels, level.price ≠ p

theorem atOrPast_dropFirst {p : Price} {levels : List RestingLevel}
    (h : ∀ level ∈ levels, level.price ≠ p) (total : Quantity) (o : Order) (queue : List Order) :
    AtOrPast p (dropFirst p total o queue levels) := by
  simp only [dropFirst]
  split_ifs
  · exact .inr h
  · exact .inl ⟨_, rfl, rfl⟩

theorem walk_nil (left : Quantity) : walk policy owner side price [] left = ⟨[], left, false, []⟩ :=
  rfl

theorem walk_of_not_cross {level : RestingLevel} (levels : List RestingLevel) (left : Quantity)
    (h : pricesCross side price level.price = false) :
    walk policy owner side price (level :: levels) left = ⟨[], left, false, level :: levels⟩ := by
  simp [walk, h]

theorem walk_of_queue_nil {level : RestingLevel} (levels : List RestingLevel) (left : Quantity)
    (h : level.queue = []) :
    walk policy owner side price (level :: levels) left = ⟨[], left, false, level :: levels⟩ := by
  obtain ⟨p, total, queue⟩ := level
  obtain rfl : queue = [] := h
  simp [walk, walkQueue]

theorem walk_zero (levels : List RestingLevel) :
    walk policy owner side price levels 0 = ⟨[], 0, false, levels⟩ := by
  rcases levels with - | ⟨⟨p, total, queue⟩, levels⟩
  · rfl
  · rcases queue with - | ⟨o, queue⟩
    · exact walk_of_queue_nil levels 0 rfl
    · simp only [walk, walkQueue, if_true]
      split_ifs <;> rfl

section First

variable {p : Price} (total : Quantity) {o : Order} (queue : List Order)
  (levels : List RestingLevel)
  {left : Quantity}

/-- A resting order that the visit takes out, by a fill or a cancellation. -/
theorem walk_next (hx : pricesCross side price p = true) {a : Action} {left' : Quantity}
    (hq : walkQueue policy owner total (o :: queue) left =
      if total - o.remainingQuantity = 0 then ⟨[a], left', false, none⟩
      else (walkQueue policy owner (total - o.remainingQuantity) queue left').cons a) :
    walk policy owner side price (⟨p, total, o :: queue⟩ :: levels) left =
      (walk policy owner side price (dropFirst p total o queue levels) left').cons a := by
  simp only [walk, hx, if_true, hq, dropFirst]
  split_ifs with h0
  · rfl
  · simp only [walk, hx, if_true, Walk.cons_rest, Walk.cons_actions, Walk.cons_left, Walk.cons_stp]
    cases (walkQueue policy owner (total - o.remainingQuantity) queue left').rest <;> rfl

theorem walk_stp (hx : pricesCross side price p = true) (hl : left ≠ 0)
    (hc : stpConflict policy owner o.owner = true)
    (hi : cancelsIncoming policy left o.remainingQuantity = true) :
    walk policy owner side price (⟨p, total, o :: queue⟩ :: levels) left =
      ⟨[], left, true, ⟨p, total, o :: queue⟩ :: levels⟩ := by
  simp only [walk, walkQueue, hx, hl, hc, hi, if_true, if_false]

theorem walk_cancel (hx : pricesCross side price p = true) (hl : left ≠ 0)
    (hc : stpConflict policy owner o.owner = true)
    (hi : cancelsIncoming policy left o.remainingQuantity = false) :
    walk policy owner side price (⟨p, total, o :: queue⟩ :: levels) left =
      (walk policy owner side price (dropFirst p total o queue levels) left).cons (.cancel o) :=
  walk_next total queue levels hx (by simp only [walkQueue, hl, hc, hi, if_true, if_false]; rfl)

theorem walk_fill (hx : pricesCross side price p = true) (hl : left ≠ 0)
    (hc : stpConflict policy owner o.owner = false) (hr : o.remainingQuantity ≤ left) :
    walk policy owner side price (⟨p, total, o :: queue⟩ :: levels) left =
      (walk policy owner side price (dropFirst p total o queue levels)
        (left - o.remainingQuantity)).cons (.fill o o.remainingQuantity) :=
  walk_next total queue levels hx (by simp only [walkQueue, hl, hc, hr, if_true, if_false]; rfl)

theorem walk_part (hx : pricesCross side price p = true) (hl : left ≠ 0)
    (hc : stpConflict policy owner o.owner = false) (hr : ¬ o.remainingQuantity ≤ left) :
    walk policy owner side price (⟨p, total, o :: queue⟩ :: levels) left =
      ⟨[.fill o left], 0, false, ⟨p, total - left, o.fill left :: queue⟩ :: levels⟩ := by
  simp only [walk, walkQueue, hx, hl, hc, hr, if_true, if_false]
  rfl

end First

/-- Induction on the resting orders a walk visits. -/
theorem walk_induct {motive : List RestingLevel → Quantity → Walk (List RestingLevel) → Prop}
    (stop : ∀ levels left, (left = 0 ∨ ∀ level ∈ levels.head?,
        pricesCross side price level.price = false ∨ level.queue = []) →
      motive levels left ⟨[], left, false, levels⟩)
    (stp : ∀ p total o queue levels left, pricesCross side price p = true → left ≠ 0 →
      stpConflict policy owner o.owner = true →
      cancelsIncoming policy left o.remainingQuantity = true →
      motive (⟨p, total, o :: queue⟩ :: levels) left
        ⟨[], left, true, ⟨p, total, o :: queue⟩ :: levels⟩)
    (cancel : ∀ p total o queue levels left w, pricesCross side price p = true → left ≠ 0 →
      stpConflict policy owner o.owner = true →
      cancelsIncoming policy left o.remainingQuantity = false →
      motive (dropFirst p total o queue levels) left w →
      motive (⟨p, total, o :: queue⟩ :: levels) left (w.cons (.cancel o)))
    (fill : ∀ p total o queue levels left w, pricesCross side price p = true → left ≠ 0 →
      stpConflict policy owner o.owner = false → o.remainingQuantity ≤ left →
      motive (dropFirst p total o queue levels) (left - o.remainingQuantity) w →
      motive (⟨p, total, o :: queue⟩ :: levels) left (w.cons (.fill o o.remainingQuantity)))
    (part : ∀ p total o queue levels left, pricesCross side price p = true → left ≠ 0 →
      stpConflict policy owner o.owner = false → left < o.remainingQuantity →
      motive (⟨p, total, o :: queue⟩ :: levels) left
        ⟨[.fill o left], 0, false, ⟨p, total - left, o.fill left :: queue⟩ :: levels⟩)
    (levels : List RestingLevel) (left : Quantity) :
    motive levels left (walk policy owner side price levels left) := by
  -- each order visited leaves fewer of them queued
  induction hn : queued levels using Nat.strongRecOn generalizing levels left with
  | ind n ih =>
      rcases levels with - | ⟨⟨p, total, queue⟩, levels⟩
      · exact stop [] left (.inr (by simp))
      rcases queue with - | ⟨o, queue⟩
      · rw [walk_of_queue_nil levels left rfl]
        exact stop _ left (.inr (by rintro _ ⟨⟩; exact .inr rfl))
      have hnext := fun left' ↦ ih _ (hn ▸ queued_dropFirst p total o queue levels) _ left' rfl
      by_cases hl : left = 0
      · rw [hl, walk_zero]
        exact stop _ 0 (.inl rfl)
      cases hx : pricesCross side price p with
      | false =>
          rw [walk_of_not_cross _ _ hx]
          exact stop _ left (.inr (by rintro _ ⟨⟩; exact .inl hx))
      | true =>
          cases hc : stpConflict policy owner o.owner with
          | true =>
              cases hi : cancelsIncoming policy left o.remainingQuantity with
              | true =>
                  rw [walk_stp _ _ _ hx hl hc hi]
                  exact stp _ _ _ _ _ _ hx hl hc hi
              | false =>
                  rw [walk_cancel _ _ _ hx hl hc hi]
                  exact cancel _ _ _ _ _ _ _ hx hl hc hi (hnext left)
          | false =>
              by_cases hr : o.remainingQuantity ≤ left
              · rw [walk_fill _ _ _ hx hl hc hr]
                exact fill _ _ _ _ _ _ _ hx hl hc hr (hnext _)
              · rw [walk_part _ _ _ hx hl hc hr]
                exact part _ _ _ _ _ _ hx hl hc (not_le.mp hr)

/-- Self-trade prevention only cancels an incoming order of which something is left. -/
theorem left_ne_zero_of_stp {levels : List RestingLevel} {left : Quantity}
    (h : (walk policy owner side price levels left).stp = true) :
    (walk policy owner side price levels left).left ≠ 0 := by
  revert h
  refine walk_induct (motive := fun _ _ w ↦ w.stp = true → w.left ≠ 0) ?_ ?_ ?_ ?_ ?_ levels left
  · intro levels left _ h
    cases h
  · intro p total o queue levels left _ hl _ _ _
    exact hl
  · intro p total o queue levels left w _ _ _ _ ih
    exact ih
  · intro p total o queue levels left w _ _ _ _ ih
    exact ih
  · intro p total o queue levels left _ _ _ _ h
    cases h

/-- Self-trade prevention only cancels an incoming order that meets a conflict. -/
theorem exists_conflict_of_stp {levels : List RestingLevel} {left : Quantity}
    (h : (walk policy owner side price levels left).stp = true) :
    ∃ o : Order, stpConflict policy owner o.owner = true := by
  revert h
  refine walk_induct (motive := fun _ _ w ↦ w.stp = true →
    ∃ o : Order, stpConflict policy owner o.owner = true) ?_ ?_ ?_ ?_ ?_ levels left
  · intro levels left _ h
    cases h
  · intro p total o queue levels left _ _ hc _ _
    exact ⟨o, hc⟩
  · intro p total o queue levels left w _ _ _ _ ih
    exact ih
  · intro p total o queue levels left w _ _ _ _ ih
    exact ih
  · intro p total o queue levels left _ _ _ _ h
    cases h

/-! ## What is cancelled -/

/-- The resting orders of a list of levels, best first. -/
def flatten (levels : List RestingLevel) : List Order := levels.flatMap RestingLevel.queue

@[simp] theorem flatten_nil : flatten [] = [] := rfl

@[simp] theorem flatten_cons (level : RestingLevel) (levels : List RestingLevel) :
    flatten (level :: levels) = level.queue ++ flatten levels := rfl

theorem mem_of_mem_dropFirst {p : Price} {total : Quantity} {o o' : Order} {queue : List Order}
    {levels : List RestingLevel} (h : o' ∈ flatten (dropFirst p total o queue levels)) :
    o' ∈ queue ++ flatten levels := by
  rw [dropFirst] at h
  split_ifs at h
  · exact List.mem_append_right _ h
  · exact h

/-- Only resting orders of the incoming order's own owner are cancelled. -/
theorem of_cancel_mem_walk {levels : List RestingLevel} {left : Quantity} {o : Order}
    (h : .cancel o ∈ (walk policy owner side price levels left).actions) :
    o ∈ flatten levels ∧ stpConflict policy owner o.owner = true := by
  revert h
  refine walk_induct (motive := fun levels _ w ↦ .cancel o ∈ w.actions →
    o ∈ flatten levels ∧ stpConflict policy owner o.owner = true) ?_ ?_ ?_ ?_ ?_ levels left
  · rintro levels left - h
    cases h
  · rintro p total o' queue levels left - - - - h
    cases h
  · rintro p total o' queue levels left w - - hc - ih h
    rcases List.mem_cons.mp h with heq | h
    · cases heq
      exact ⟨List.mem_cons_self, hc⟩
    · exact (ih h).imp_left fun ho ↦ List.mem_cons_of_mem _ (mem_of_mem_dropFirst ho)
  · rintro p total o' queue levels left w - - - - ih h
    rcases List.mem_cons.mp h with heq | h
    · cases heq
    · exact (ih h).imp_left fun ho ↦ List.mem_cons_of_mem _ (mem_of_mem_dropFirst ho)
  · rintro p total o' queue levels left - - - - h
    simp at h

/-! ## Levels with exact totals -/

/-- A level that holds something and whose total is the sum of what its orders have left. -/
structure RestingLevel.Sound (level : RestingLevel) : Prop where
  nonempty : level.queue ≠ []
  order : ∀ o ∈ level.queue, o.price = level.price ∧ 0 < o.remainingQuantity
  total : level.total = remainingSum level.queue

theorem remainingSum_eq_zero_iff {os : List Order} (h : ∀ o ∈ os, 0 < o.remainingQuantity) :
    remainingSum os = 0 ↔ os = [] := by
  cases os with
  | nil => simp
  | cons o os =>
      have := h o List.mem_cons_self
      simp only [remainingSum_cons, reduceCtorEq, iff_false]
      lia

/-- The levels that are left when the first order of a sound level goes are sound: the level itself
goes exactly when nothing is queued behind the order. -/
theorem dropFirst_sound {p : Price} {total : Quantity} {o : Order} {queue : List Order}
    {levels : List RestingLevel}
      (hs : ∀ level ∈ (⟨p, total, o :: queue⟩ :: levels : List RestingLevel), level.Sound) :
    (∀ level ∈ dropFirst p total o queue levels, level.Sound) ∧
      flatten (dropFirst p total o queue levels) = queue ++ flatten levels := by
  have h := hs _ List.mem_cons_self
  have htotal : total = o.remainingQuantity + remainingSum queue := h.total
  have hpos : ∀ o' ∈ queue, o'.price = p ∧ 0 < o'.remainingQuantity :=
    fun o' ho' ↦ h.order o' (List.mem_cons_of_mem _ ho')
  have hzero := remainingSum_eq_zero_iff fun o' ho' ↦ (hpos o' ho').2
  have hrest : total - o.remainingQuantity = remainingSum queue := by lia
  rw [dropFirst, hrest]
  split_ifs with h0
  · exact ⟨fun level hlevel ↦ hs level (List.mem_cons_of_mem _ hlevel), by rw [hzero.mp h0]; rfl⟩
  · refine ⟨fun level hlevel ↦ ?_, rfl⟩
    rcases List.mem_cons.mp hlevel with rfl | hlevel
    · exact ⟨fun hq ↦ h0 (hzero.mpr hq), hpos, rfl⟩
    · exact hs level (List.mem_cons_of_mem _ hlevel)

/-- A first order that is filled in part. -/
theorem sound_fill {p : Price} {total left : Quantity} {o : Order} {queue : List Order}
    (h : RestingLevel.Sound ⟨p, total, o :: queue⟩) (hl : left < o.remainingQuantity) :
    RestingLevel.Sound ⟨p, total - left, o.fill left :: queue⟩ where
  nonempty := List.cons_ne_nil _ _
  order o' ho' := by
    rcases List.mem_cons.mp ho' with rfl | ho'
    · exact ⟨(h.order o List.mem_cons_self).1, Nat.sub_pos_of_lt hl⟩
    · exact h.order o' (List.mem_cons_of_mem _ ho')
  total := by
    have htotal : total = o.remainingQuantity + remainingSum queue := h.total
    simp only [remainingSum_cons, Order.fill_remainingQuantity]
    lia

/-- The greedy match takes up the first order of a sound level that crosses. -/
theorem greedy_go {p : Price} {total left : Quantity} {o : Order} {queue : List Order}
    {levels : List RestingLevel}
      (hs : ∀ level ∈ (⟨p, total, o :: queue⟩ :: levels : List RestingLevel),
      level.Sound) (hx : pricesCross side price p = true) (hl : left ≠ 0) :
    greedy policy owner side price (flatten (⟨p, total, o :: queue⟩ :: levels)) left =
      if stpConflict policy owner o.owner then
        if cancelsIncoming policy left o.remainingQuantity then
          ⟨[], left, true, flatten (⟨p, total, o :: queue⟩ :: levels)⟩
        else (greedy policy owner side price (queue ++ flatten levels) left).cons (.cancel o)
      else if o.remainingQuantity ≤ left then
        (greedy policy owner side price (queue ++ flatten levels)
          (left - o.remainingQuantity)).cons (.fill o o.remainingQuantity)
      else ⟨[.fill o left], 0, false, o.fill left :: (queue ++ flatten levels)⟩ := by
  have hgo : ¬ (left = 0 ∨ pricesCross side price o.price = false) := by
    rw [((hs _ List.mem_cons_self).order o List.mem_cons_self).1, hx]
    simpa using hl
  simp only [flatten_cons, List.cons_append, greedy, hgo, if_false]

/-- Two matches with the same actions and outcome, one read level by level and one order by
order. -/
structure Walk.Agrees (w : Walk (List RestingLevel)) (g : Walk (List Order)) : Prop where
  actions : w.actions = g.actions
  left : w.left = g.left
  stp : w.stp = g.stp
  rest : flatten w.rest = g.rest
  sound : ∀ level ∈ w.rest, level.Sound

theorem Walk.Agrees.cons {w : Walk (List RestingLevel)} {g : Walk (List Order)} (h : w.Agrees g)
    (a : Action) : (w.cons a).Agrees (g.cons a) :=
  ⟨congrArg (a :: ·) h.actions, h.left, h.stp, h.rest, h.sound⟩

/-- With exact totals, levels make no difference: the walk is the greedy one. -/
theorem walk_eq_greedy {levels : List RestingLevel} (h : ∀ level ∈ levels, level.Sound)
    (left : Quantity) : (walk policy owner side price levels left).Agrees
      (greedy policy owner side price (flatten levels) left) := by
  revert h
  refine walk_induct (motive := fun levels left w ↦ (∀ level ∈ levels, level.Sound) →
    w.Agrees (greedy policy owner side price (flatten levels) left)) ?_ ?_ ?_ ?_ ?_ levels left
  · rintro (- | ⟨⟨p, total, queue⟩, levels⟩) left hstop h
    · exact ⟨rfl, rfl, rfl, rfl, h⟩
    · rcases queue with - | ⟨o, queue⟩
      · exact absurd rfl (h _ List.mem_cons_self).nonempty
      · have hend : left = 0 ∨ pricesCross side price o.price = false := by
          rw [((h _ List.mem_cons_self).order o List.mem_cons_self).1]
          exact hstop.imp_right fun hx ↦ (hx _ rfl).resolve_right (List.cons_ne_nil _ _)
        simp only [flatten_cons, List.cons_append, greedy, hend, if_true]
        exact ⟨rfl, rfl, rfl, rfl, h⟩
  · intro p total o queue levels left hx hl hc hi h
    rw [greedy_go h hx hl]
    simp only [hc, hi, if_true]
    exact ⟨rfl, rfl, rfl, rfl, h⟩
  · intro p total o queue levels left w hx hl hc hi ih h
    obtain ⟨hsound, hflat⟩ := dropFirst_sound h
    rw [greedy_go h hx hl]
    simp only [hc, hi, if_true]
    exact (hflat ▸ ih hsound).cons _
  · intro p total o queue levels left w hx hl hc hr ih h
    obtain ⟨hsound, hflat⟩ := dropFirst_sound h
    rw [greedy_go h hx hl]
    simp only [hc, hr, if_true]
    exact (hflat ▸ ih hsound).cons _
  · intro p total o queue levels left hx hl hc hr h
    rw [greedy_go h hx hl]
    simp only [hc, not_le.mpr hr, if_false]
    refine ⟨rfl, rfl, rfl, rfl, fun level hlevel ↦ ?_⟩
    rcases List.mem_cons.mp hlevel with rfl | hlevel
    · exact sound_fill (h _ List.mem_cons_self) hr
    · exact h level (List.mem_cons_of_mem _ hlevel)

end

end Nanobook
