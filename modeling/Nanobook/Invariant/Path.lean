import Nanobook.Run

/-!
# Operations as sequences of elementary transitions

Every operation is a sequence of a few elementary transitions: submissions, cancellations of book
orders, changes of the stop book, and maintenance.  `perform_path` proves this once, with the
submissions and cancellations named in the state they are made in, and an invariant of the exchange
then has to be checked for the elementary transitions only.
-/

namespace Nanobook

/-! ## Stop books -/

namespace StopBook

/-- `sb'` knows no stop order that `sb` did not. -/
def Tame (sb sb' : StopBook) : Prop :=
  ∀ id o', sb'.orders.get? id = some o' → ∃ o, sb.orders.get? id = some o

theorem Tame.refl (sb : StopBook) : Tame sb sb := fun _ o h ↦ ⟨o, h⟩

theorem Tame.trans {sb sb' sb'' : StopBook} (h : Tame sb sb') (h' : Tame sb' sb'') :
    Tame sb sb'' := fun id o ho ↦ by
  obtain ⟨o', ho'⟩ := h' id o ho
  exact h id o' ho'

theorem tame_of_orders {sb sb' : StopBook} (h : sb'.orders = sb.orders) : Tame sb sb' :=
  fun _ o ho ↦ ⟨o, h ▸ ho⟩

/-- Rewriting a stop order that is there. -/
theorem tame_of_insert {sb sb' : StopBook} {id : OrderId} {o o' : StopOrder}
    (ho : sb.orders.get? id = some o) (h : sb'.orders = sb.orders.insert id o') : Tame sb sb' := by
  intro j x hx
  rw [h, OrdMap.get?_insert] at hx
  split_ifs at hx with hj
  · exact ⟨o, hj ▸ ho⟩
  · exact ⟨x, hx⟩

theorem tame_cancel (sb : StopBook) (id : OrderId) : Tame sb (sb.cancel id) := by
  simp only [cancel]
  split
  · exact .refl sb
  · next o ho =>
      split_ifs
      · exact tame_of_insert ho (by rw [orders_updateStops])
      · exact .refl sb

theorem tame_triggerId (acc : StopBook × List StopOrder) (id : OrderId) :
    Tame acc.1 (triggerId acc id).1 := by
  simp only [triggerId]
  split
  · exact .refl _
  · next o ho =>
      split_ifs
      · exact tame_of_insert ho rfl
      · exact .refl _

/-- A fold of tame steps is tame. -/
theorem tame_foldl {α β : Type} {f : StopBook × α → β → StopBook × α}
    (hf : ∀ acc x, Tame acc.1 (f acc x).1) (l : List β) (acc : StopBook × α) :
    Tame acc.1 (l.foldl f acc).1 := by
  induction l generalizing acc with
  | nil => exact .refl _
  | cons x l ih => exact (hf acc x).trans (ih _)

theorem tame_triggerKey (side : Side) (acc : StopBook × List StopOrder) (key : Price) :
    Tame acc.1 (triggerKey side acc key).1 := by
  simp only [triggerKey]
  split
  · exact .refl _
  · exact (tame_of_orders (orders_updateStops acc.1 side _)).trans
      (tame_foldl tame_triggerId _ _)

theorem tame_collectTriggered (sb : StopBook) (p : Price) : Tame sb (sb.collectTriggered p).1 := by
  have hbuys : Tame sb (sb.triggerBuys p).1 := tame_foldl (tame_triggerKey .buy) _ (sb, [])
  have hsells : Tame sb (triggerSells (sb.triggerBuys p) p).1 :=
    hbuys.trans (tame_foldl (tame_triggerKey .sell) _ _)
  simp only [collectTriggered]
  split_ifs
  · exact hsells
  · exact hsells.trans (tame_of_orders rfl)

theorem tame_updateTrailingStop (p : Price) (sb : StopBook) (id : OrderId) :
    Tame sb (updateTrailingStop p sb id) := by
  simp only [updateTrailingStop]
  split
  · exact .refl sb
  · next o ho =>
      split
      · split_ifs
        · exact tame_of_insert ho rfl
        · exact tame_of_insert ho (by rw [orders_updateStops])
        · exact tame_of_insert ho rfl
      · exact .refl sb

theorem tame_updateTrailingStops (sb : StopBook) (p : Price) :
    Tame sb (sb.updateTrailingStops p) := by
  have hfold : ∀ (ids : List OrderId) (sb : StopBook),
      Tame sb (ids.foldl (updateTrailingStop p) sb) := by
    intro ids
    induction ids with
    | nil => exact .refl
    | cons id ids ih => exact fun sb ↦ (tame_updateTrailingStop p sb id).trans (ih _)
  exact (tame_of_orders rfl).trans (hfold _ _)

theorem tame_clearHistory (sb : StopBook) : Tame sb sb.clearHistory := by
  intro id o h
  simp only [clearHistory, OrdMap.get?_filter, Option.filter_eq_some_iff] at h
  exact ⟨o, h.1⟩

end StopBook

/-! ## Elementary transitions -/

namespace Exchange

/-- The transitions operations are made of once their event is recorded.  Submissions satisfy `P`
and cancellations of book orders satisfy `Q` in the state they are made in, and only the memory
management that `K` allows takes place. -/
inductive Atom (K : Op → Prop) (P : Exchange → Submission → Prop) (Q : Exchange → OrderId → Prop) :
    Exchange → Exchange → Prop
  | lastPrice {ex : Exchange} (last : Option Price) :
      Atom K P Q ex { ex with lastTradePrice := last }
  | submit {ex ex' : Exchange} {fuel : Nat} {sub : Submission} {r : SubmitResult} : P ex sub →
      ex.submitLimitInternalWithOwner fuel sub = some (ex', r) → Atom K P Q ex ex'
  | cancelOrder {ex : Exchange} {id : OrderId} : Q ex id →
      Atom K P Q ex { ex with book := (ex.book.cancelOrder id).1 }
  /-- Cancelling, triggering and trailing stops, and forgetting old ones. -/
  | stops {ex : Exchange} {sb : StopBook} : ex.stopBook.Tame sb →
      Atom K P Q ex { ex with stopBook := sb }
  | insertStop {ex : Exchange} {order : StopOrder} : order.id = ex.book.nextOrderId →
      Atom K P Q ex (ex.insertStop order)
  | compact {ex : Exchange} : Atom K P Q ex ex.compact
  | clearHistory {ex : Exchange} :
      K .clearOrderHistory → Atom K P Q ex { ex with book := ex.book.clearHistory.1 }
  | clearTrades {ex : Exchange} : K .clearTrades → Atom K P Q ex ex.clearTrades

/-- A sequence of elementary transitions. -/
abbrev Path (K : Op → Prop) (P : Exchange → Submission → Prop) (Q : Exchange → OrderId → Prop) :
    Exchange → Exchange → Prop := Relation.ReflTransGen (Atom K P Q)

variable {K : Op → Prop} {P : Exchange → Submission → Prop} {Q : Exchange → OrderId → Prop}
  {fuel : Nat}

theorem collectTriggered_path (ex : Exchange) (p : Price) :
    Path K P Q ex (ex.collectTriggered p).1 :=
  .single (.stops ((ex.stopBook.tame_updateTrailingStops p).trans
    (StopBook.tame_collectTriggered _ p)))

/-- The stops of one round, each submitted in the state the ones before it leave. -/
theorem foldlM_submitTriggered_path {triggered : List StopOrder}
    {acc acc' : Exchange × Option Price}
    (hP : ∀ before stop after ex' last, triggered = before ++ stop :: after →
      before.foldlM (submitTriggered fuel) acc = some (ex', last) → P ex' stop.submission)
    (h : triggered.foldlM (submitTriggered fuel) acc = some acc') : Path K P Q acc.1 acc'.1 := by
  induction triggered generalizing acc with
  | nil => cases h; exact .refl
  | cons stop rest ih =>
      obtain ⟨acc₁, h₁, h₂⟩ := Option.bind_eq_some_iff.mp h
      obtain ⟨⟨ex₁, r⟩, hsub, hacc⟩ := Option.bind_eq_some_iff.mp h₁
      have hP₀ : P acc.1 stop.submission := hP [] stop rest acc.1 acc.2 rfl rfl
      refine .head (.submit hP₀ hsub) ?_
      have hex : acc₁.1 = ex₁ := by cases hacc; rfl
      rw [← hex]
      refine ih (fun before stop' after ex' last hl hf ↦ ?_) h₂
      refine hP (stop :: before) stop' after ex' last (by rw [hl]; rfl) ?_
      exact Option.bind_eq_some_iff.mpr ⟨acc₁, h₁, hf⟩

theorem triggerRound_path {ex : Exchange} {n : Nat} {x : Exchange ⊕ Exchange}
    (hP : ∀ ex' sub, TriggerCalls fuel (n + 1) ex ex' sub → P ex' sub)
    (h : ex.triggerRound fuel = some x) : Path K P Q ex (Sum.elim id id x) := by
  simp only [triggerRound] at h
  split at h
  · cases h; exact .refl
  · next p hp =>
      split at h
      · cases h; exact collectTriggered_path ex p
      · obtain ⟨acc, hf, h⟩ := Option.bind_eq_some_iff.mp h
        have hpath : Path K P Q ex acc.1 := by
          refine (collectTriggered_path ex p).trans (foldlM_submitTriggered_path ?_ hf)
          intro before stop after ex' last hl hf'
          exact hP _ _ (.child hp (Prod.ext rfl hl) hf')
        split at h
        · cases h; exact hpath.tail (.lastPrice _)
        · cases h; exact hpath

theorem triggerRounds_path {n : Nat} {ex ex' : Exchange}
    (hP : ∀ ex' sub, TriggerCalls fuel n ex ex' sub → P ex' sub)
    (h : triggerRounds fuel n ex = some ex') : Path K P Q ex ex' := by
  induction n generalizing ex with
  | zero => cases h; exact .refl
  | succ n ih =>
      obtain ⟨x, hx, h⟩ := Option.bind_eq_some_iff.mp h
      have hround := triggerRound_path (K := K) (Q := Q) hP hx
      cases x with
      | inl ex₁ => cases h; exact hround
      | inr ex₁ => exact hround.trans (ih (fun ex' sub hc ↦ hP ex' sub (.later hx hc)) h)

/-- The transitions that lead up to the submission of a triggered stop. -/
theorem TriggerCalls.path {n : Nat} {ex ex₁ : Exchange} {sub : Submission}
    (h : TriggerCalls fuel n ex ex₁ sub)
    (hP : ∀ ex' sub, TriggerCalls fuel n ex ex' sub → P ex' sub) : Path K P Q ex ex₁ := by
  induction h with
  | @child n ex ex₁ ex₂ p last before after stop hp hcol hfold =>
      have hcollect : Path K P Q ex ex₁ := by
        have := collectTriggered_path (K := K) (P := P) (Q := Q) ex p
        rwa [hcol] at this
      refine hcollect.trans (foldlM_submitTriggered_path ?_ hfold)
      intro before' stop' after' ex' last' hl hf
      have hcol' :
        ex.collectTriggered p = (ex₁, before' ++ stop' :: (after' ++ stop :: after)) := by
        rw [hcol, hl, List.append_assoc]
        rfl
      exact hP _ _ (.child hp hcol' hf)
  | later hround hlater ih =>
      exact (triggerRound_path hP hround).trans (ih fun ex' sub hc ↦ hP ex' sub (.later hround hc))

/-- A submission of the exchange followed by the triggers of its trades. -/
theorem submit_onTrades_path {ex₁ ex₂ ex₃ : Exchange} {sub : Submission} {r : SubmitResult}
    (hsub : P ex₁ sub)
    (hP : ∀ t, r.trades.getLast? = some t → ∀ ex' sub', TriggerCalls fuel maxCascadeDepth
      { ex₂ with lastTradePrice := some t.price } ex' sub' → P ex' sub')
    (h₁ : ex₁.submitLimitInternalWithOwner fuel sub = some (ex₂, r))
    (h₂ : ex₂.onTrades fuel r.trades = some ex₃) : Path K P Q ex₁ ex₃ := by
  refine .head (.submit hsub h₁) ?_
  simp only [onTrades] at h₂
  split at h₂
  · cases h₂; exact .refl
  · next t ht => exact .head (.lastPrice _) (triggerRounds_path (hP t ht) h₂)

/-- What a public submission does to the exchange, whichever method or event it comes from. -/
theorem perform_submission {ex ex₁ : Exchange} {op : Op} {sub : Submission}
    (hop : ∀ id p q, op.method ≠ .modify id p q) (hcall : ex.directCall op = some (ex₁, sub))
    (fuel : Nat) : ex.perform fuel op =
      (ex₁.submitLimitInternalWithOwner fuel sub).bind fun x ↦ x.1.onTrades fuel x.2.trades := by
  have hmap : ∀ {α : Type} (f : SubmitResult → α) (x : Option (Exchange × SubmitResult)),
      (x.bind fun y ↦ (y.1.onTrades fuel y.2.trades).bind fun ex ↦ some (ex, f y.2)).map Prod.fst =
        x.bind fun y ↦ y.1.onTrades fuel y.2.trades := by
    intro α f x
    cases x with
    | none => rfl
    | some y => cases h : y.1.onTrades fuel y.2.trades <;> simp [h]
  cases op with
  | submitLimit side price quantity tif => cases hcall; exact hmap id _
  | submitLimitWithOwner side price quantity tif owner => cases hcall; exact hmap id _
  | submitMarket side quantity => cases hcall; exact hmap id _
  | modify id p q => exact absurd rfl (hop id p q)
  | apply event =>
      cases event with
      | submitLimit side price quantity tif =>
          cases hcall; exact hmap (fun r ↦ ApplyResult.mk r.trades) _
      | submitMarket side quantity => cases hcall; exact hmap (fun r ↦ ApplyResult.mk r.trades) _
      | modify id p q => exact absurd rfl (hop id p q)
      | _ => cases hcall
  | _ => cases hcall

theorem insertStopOrder_map_fst (ex : Exchange) (fuel : Nat) (side : Side) (stopPrice : Price)
    (limitPrice : Option Price) (quantity : Quantity) (tif : TimeInForce)
    (trailMethod : Option TrailMethod) :
    let order := ex.nextStop side stopPrice limitPrice quantity tif trailMethod
    (ex.insertStopOrder fuel side stopPrice limitPrice quantity tif trailMethod).map Prod.fst =
      if (ex.insertStop order).shouldTrigger order then
        (ex.insertStop order).processTradeTriggers fuel
      else some (ex.insertStop order) := by
  simp only [insertStopOrder]
  split_ifs with hs
  · cases (ex.insertStop _).processTradeTriggers fuel <;> rfl
  · rfl

/-- What a stop submission does to the exchange. -/
theorem perform_newStop {ex : Exchange} {op : Op} {order : StopOrder}
    (hstop : ex.newStop op = some order) (fuel : Nat) : ex.perform fuel op =
      if ((ex.logged op).insertStop order).shouldTrigger order then
        ((ex.logged op).insertStop order).processTradeTriggers fuel
      else some ((ex.logged op).insertStop order) := by
  have hmap : ∀ x : Option (Exchange × StopSubmitResult),
      (x.bind fun y ↦ some (y.1, ApplyResult.mk [])).map Prod.fst = x.map Prod.fst := by
    intro x
    cases x <;> rfl
  cases op with
  | submitStopMarket side stopPrice quantity =>
      cases hstop
      exact insertStopOrder_map_fst (ex.logged (.submitStopMarket side stopPrice quantity)) fuel
        side
        stopPrice _ quantity _ _
  | submitStopLimit side stopPrice limitPrice quantity tif =>
      cases hstop
      exact insertStopOrder_map_fst (ex.logged (.submitStopLimit side stopPrice limitPrice quantity
        tif)) fuel side stopPrice _ quantity _ _
  | submitTrailingStopMarket side stopPrice quantity trailMethod =>
      cases hstop
      simp only [perform, submitTrailingStopMarket, submitTrailingStopInternal]
      exact insertStopOrder_map_fst (ex.logged (.submitTrailingStopMarket side stopPrice quantity
        trailMethod)) fuel side stopPrice _ quantity _ _
  | submitTrailingStopLimit side stopPrice limitPrice quantity tif trailMethod =>
      cases hstop
      simp only [perform, submitTrailingStopLimit, submitTrailingStopInternal]
      exact insertStopOrder_map_fst (ex.logged (.submitTrailingStopLimit side stopPrice limitPrice
        quantity tif trailMethod)) fuel side stopPrice _ quantity _ _
  | apply event =>
      cases event with
      | submitStopMarket side stopPrice quantity =>
          cases hstop
          exact (hmap _).trans (insertStopOrder_map_fst (ex.record _) fuel side stopPrice _ quantity
            _ _)
      | submitStopLimit side stopPrice limitPrice quantity tif =>
          cases hstop
          exact (hmap _).trans (insertStopOrder_map_fst (ex.record _) fuel side stopPrice _ quantity
            _ _)
      | submitTrailingStopMarket side stopPrice quantity trailMethod =>
          cases hstop
          simp only [perform, apply, applyInternal, submitTrailingStopInternal]
          exact (hmap _).trans (insertStopOrder_map_fst (ex.record _) fuel side stopPrice _ quantity
            _ _)
      | submitTrailingStopLimit side stopPrice limitPrice quantity tif trailMethod =>
          cases hstop
          simp only [perform, apply, applyInternal, submitTrailingStopInternal]
          exact (hmap _).trans (insertStopOrder_map_fst (ex.record _) fuel side stopPrice _ quantity
            _ _)
      | modify id p q => simp [newStop, Op.method, Event.op] at hstop
      | _ => cases hstop
  | modify id p q => simp [newStop, Op.method] at hstop
  | _ => cases hstop

/-- The replacement of a `modify` that is accepted. -/
theorem directCall_modify {ex ex₁ : Exchange} {op : Op} {id : OrderId} {p : Price} {q : Quantity}
    {sub : Submission} (hop : op.method = .modify id p q)
    (h : ex.directCall op = some (ex₁, sub)) :
    ∃ o, q ≠ 0 ∧ ex.book.getOrder id = some o ∧ o.isActive = true ∧
      ex₁ = { ex.logged op with book := (ex.book.cancelOrder id).1 } ∧
      sub = ⟨o.side, p, q, o.timeInForce, none⟩ := by
  simp only [directCall, hop] at h
  split_ifs at h with hq
  split at h
  · next o ho =>
      split_ifs at h with ha
      cases h
      exact ⟨o, hq, ho, ha, rfl, rfl⟩
  · cases h

/-- An accepted `modify` does what its replacement does. -/
theorem modifyInternal_of_directCall_some {ex ex₁ ex₂ : Exchange} (op : Op) {id : OrderId}
    {p : Price} {q : Quantity} {sub : Submission} (hop : op.method = .modify id p q)
    (hlog : ex.logged op = ex₁) (hbook : ex₁.book = ex.book)
    (h : ex.directCall op = some (ex₂, sub)) :
    ∃ n, ∀ fuel, ex₁.modifyInternal fuel id p q = (ex₂.submitLimitInternalWithOwner fuel sub).map
      fun y ↦ (y.1, .succeeded id y.2.orderId n y.2.trades) := by
  obtain ⟨o, hq, ho, ha, rfl, rfl⟩ := directCall_modify hop h
  refine ⟨o.remainingQuantity, fun fuel ↦ ?_⟩
  have ho' : ex₁.book.getOrder id = some o := hbook ▸ ho
  simp only [modifyInternal, hq, if_false, ho', ha, if_true, hlog]
  rw [hbook, OrderBook.cancelOrder_of_active ho ha, Option.map_eq_bind]
  rfl

/-- A `modify` that is turned away changes nothing. -/
theorem modifyInternal_of_directCall_none (ex ex₁ : Exchange) (op : Op) {id : OrderId}
    {p : Price} {q : Quantity} (hop : op.method = .modify id p q) (hbook : ex₁.book = ex.book)
    (h : ex.directCall op = none) :
    ∃ r : ModifyResult, r.trades = [] ∧ ∀ fuel, ex₁.modifyInternal fuel id p q = some (ex₁, r) := by
  simp only [directCall, hop] at h
  split_ifs at h with hq
  · exact ⟨.failure id .invalidQuantity, rfl, fun fuel ↦ by simp only [modifyInternal, hq, if_true]⟩
  · split at h
    · next o ho =>
        have ho' : ex₁.book.getOrder id = some o := hbook ▸ ho
        split_ifs at h with ha
        refine ⟨.failure id .orderNotActive, rfl, fun fuel ↦ ?_⟩
        simp only [modifyInternal, hq, if_false, ho', ha]
        rfl
    · next ho =>
        have ho' : ex₁.book.getOrder id = none := hbook ▸ ho
        refine ⟨.failure id .orderNotFound, rfl, fun fuel ↦ ?_⟩
        simp only [modifyInternal, hq, if_false, ho']

/-- Inversion of `cancelInternal`. -/
theorem cancelInternal_cases (ex : Exchange) (id : OrderId) :
    (ex.stopBook.containsPending id = true ∧
        (ex.cancelInternal id).1 = { ex with stopBook := ex.stopBook.cancel id }) ∨
      (ex.stopBook.containsPending id = false ∧
        (ex.cancelInternal id).1 = { ex with book := (ex.book.cancelOrder id).1 }) := by
  cases hp : ex.stopBook.containsPending id with
  | true =>
      obtain ⟨o, ho⟩ : ∃ o, ex.stopBook.get id = some o := by
        simp only [StopBook.containsPending] at hp
        cases hg : ex.stopBook.orders.get? id with
        | none => simp [hg] at hp
        | some o => exact ⟨o, hg⟩
      exact .inl ⟨rfl, by simp only [cancelInternal, hp, ho]⟩
  | false =>
      refine .inr ⟨rfl, ?_⟩
      simp only [cancelInternal, hp]
      split
      · next ho =>
          rw [OrderBook.getOrder] at ho
          rw [OrderBook.cancelOrder_of_inactive (by simp [ho])]
      · next o ho =>
          split_ifs with ha
          · rw [OrderBook.cancelOrder_of_active ho ha]
          · rw [OrderBook.cancelOrder_of_inactive]
            intro o' ho'
            obtain rfl : o = o' := Option.some.inj (ho.symm.trans ho')
            simpa using ha

theorem cancelInternal_path {ex : Exchange} {id : OrderId}
    (hQ : ex.stopBook.containsPending id = false → Q ex id) :
    Path K P Q ex (ex.cancelInternal id).1 := by
  rcases ex.cancelInternal_cases id with ⟨-, h⟩ | ⟨hp, h⟩
  · rw [h]; exact .single (.stops (ex.stopBook.tame_cancel id))
  · rw [h]; exact .single (.cancelOrder (hQ hp))

/-- The public submissions. -/
theorem submission_path {ex ex' : Exchange} {op : Op} {sub : Submission}
    (hop : ∀ id p q, op.method ≠ .modify id p q)
    (hcall : ex.directCall op = some (ex.logged op, sub))
    (hP : ∀ ex' sub, ex.Calls fuel op ex' sub → P ex' sub)
    (h : ex.perform fuel op = some ex') : Path K P Q (ex.logged op) ex' := by
  rw [perform_submission hop hcall] at h
  obtain ⟨⟨ex₂, r⟩, h₁, h₂⟩ := Option.bind_eq_some_iff.mp h
  refine submit_onTrades_path (hP _ _ (.direct hcall)) ?_ h₁ h₂
  intro t ht ex' sub' hc
  refine hP _ _ (.trigger (.trades (fun id p q hm ↦ hop id p q ?_) hcall h₁ ht) hc)
  rw [hm]
  rfl

/-- The public stop submissions. -/
theorem newStop_path {ex ex' : Exchange} {op : Op} {order : StopOrder}
    (hstop : ex.newStop op = some order) (hid : order.id = (ex.logged op).book.nextOrderId)
    (hP : ∀ ex' sub, ex.Calls fuel op ex' sub → P ex' sub)
    (h : ex.perform fuel op = some ex') : Path K P Q (ex.logged op) ex' := by
  rw [perform_newStop hstop] at h
  split_ifs at h with hs
  · exact .head (.insertStop hid)
      (triggerRounds_path (fun ex' sub hc ↦ hP _ _ (.trigger (.stop hstop hs) hc)) h)
  · cases h; exact .single (.insertStop hid)

/-- What `modify` itself does; its trades are processed by `apply` only. -/
theorem modifyInternal_path {ex ex₁ ex' : Exchange} (op : Op) {id : OrderId} {p : Price}
    {q : Quantity} {r : ModifyResult} (hop : op.method = .modify id p q)
    (hlog : ex.logged op = ex₁) (hbook : ex₁.book = ex.book)
    (hQ : ∀ id, ex.cancelCall op = some id → Q ex₁ id)
    (h : ex₁.modifyInternal fuel id p q = some (ex', r)) :
    (Path K P Q ex₁ ex' ∧ r.trades = []) ∨ ∃ ex₂ sub r₁, ex.directCall op = some (ex₂, sub) ∧
      Path K P Q ex₁ ex₂ ∧ ex₂.submitLimitInternalWithOwner fuel sub = some (ex', r₁) ∧
      r.trades = r₁.trades := by
  cases hcall : ex.directCall op with
  | none =>
      obtain ⟨r', htr, hmod⟩ := modifyInternal_of_directCall_none ex ex₁ op hop hbook hcall
      rw [hmod] at h
      cases h
      exact .inl ⟨.refl, htr⟩
  | some y =>
      obtain ⟨ex₂, sub⟩ := y
      obtain ⟨n, hmod⟩ := modifyInternal_of_directCall_some op hop hlog hbook hcall
      rw [hmod] at h
      obtain ⟨⟨ex₃, r₁⟩, hsub, heq⟩ := Option.map_eq_some_iff.mp h
      cases heq
      refine .inr ⟨ex₂, sub, r₁, rfl, ?_, hsub, rfl⟩
      obtain ⟨o, hq, -, -, rfl, -⟩ := directCall_modify hop hcall
      rw [hlog, ← hbook]
      refine .single (.cancelOrder (hQ id ?_))
      simp only [cancelCall, hop, hq, if_false]

/-- Applying a `Modify` event passes the trades of the replacement on to the triggers. -/
theorem applyModify_path {ex ex' : Exchange} {id : OrderId} {p : Price} {q : Quantity}
    (hP : ∀ ex' sub, ex.Calls fuel (.apply (.modify id p q)) ex' sub → P ex' sub)
    (hQ : ∀ id', ex.cancelCall (.apply (.modify id p q)) = some id' →
      Q (ex.logged (.apply (.modify id p q))) id')
    (h : ex.perform fuel (.apply (.modify id p q)) = some ex') :
    Path K P Q (ex.logged (.apply (.modify id p q))) ex' := by
  obtain ⟨⟨ex₁, r⟩, hr, rfl⟩ := Option.map_eq_some_iff.mp h
  obtain ⟨⟨ex₂, r₂⟩, h₁, h⟩ := Option.bind_eq_some_iff.mp hr
  obtain ⟨ex₃, h₂, h⟩ := Option.bind_eq_some_iff.mp h
  cases h
  rcases modifyInternal_path (.apply (.modify id p q)) rfl rfl rfl hQ h₁ with
    ⟨hpath, ht⟩ | ⟨ex₄, sub, r₄, hcall, hpath, hsub, ht⟩
  · simp only [ht, onTrades, List.getLast?_nil] at h₂
    cases h₂
    exact hpath
  · simp only [ht] at h₂
    refine hpath.trans (submit_onTrades_path (hP _ _ (.direct hcall)) ?_ hsub h₂)
    intro t ht' ex' sub' hc
    exact hP _ _ (.trigger (.trades (by simp) hcall hsub ht') hc)

theorem cancel_path {ex : Exchange} {op : Op} {id : OrderId} (hop : op.method = .cancel id)
    (hlog : ex.logged op = ex.record (.cancel id))
    (hQ : ∀ id, ex.cancelCall op = some id → Q (ex.logged op) id) :
    Path K P Q (ex.logged op) (ex.cancel id).1 := by
  rw [hlog] at hQ ⊢
  refine cancelInternal_path fun hp ↦ hQ id ?_
  have hp' : ex.stopBook.containsPending id = false := hp
  simp [cancelCall, hop, hp']

/-- The kinds of operations, each with what `perform` does for it. -/
inductive Kind (ex : Exchange) (op : Op) : Prop
  | submission (sub : Submission) : (∀ id p q, op.method ≠ .modify id p q) →
      ex.directCall op = some (ex.logged op, sub) → Kind ex op
  | stop (order : StopOrder) : ex.directCall op = none → ex.newStop op = some order →
      order.id = (ex.logged op).book.nextOrderId → Kind ex op
  | cancel (id : OrderId) : ex.directCall op = none → op.method = .cancel id →
      ex.logged op = ex.record (.cancel id) →
      (∀ fuel, ex.perform fuel op = some (ex.cancel id).1) → Kind ex op
  | modify (id : OrderId) (p : Price) (q : Quantity) : op = .modify id p q → Kind ex op
  | applyModify (id : OrderId) (p : Price) (q : Quantity) : op = .apply (.modify id p q) →
      Kind ex op
  | setStpPolicy (policy : StpPolicy) : op = .setStpPolicy policy → Kind ex op
  | maintenance (ex' : Exchange) : ex.directCall op = none →
      (∀ fuel, ex.perform fuel op = some ex') → 
      (∀ K P Q, K op → Path K P Q (ex.logged op) ex') → Kind ex op

theorem kind (ex : Exchange) (op : Op) : Kind ex op := by
  cases op with
  | submitLimit side price quantity tif => exact .submission _ (by simp [Op.method]) rfl
  | submitLimitWithOwner side price quantity tif owner =>
      exact .submission _ (by simp [Op.method]) rfl
  | submitMarket side quantity => exact .submission _ (by simp [Op.method]) rfl
  | cancel id => exact .cancel id rfl rfl rfl fun _ ↦ rfl
  | modify id p q => exact .modify id p q rfl
  | submitStopMarket side stopPrice quantity => exact .stop _ rfl rfl rfl
  | submitStopLimit side stopPrice limitPrice quantity tif => exact .stop _ rfl rfl rfl
  | submitTrailingStopMarket side stopPrice quantity trailMethod => exact .stop _ rfl rfl rfl
  | submitTrailingStopLimit side stopPrice limitPrice quantity tif trailMethod =>
      exact .stop _ rfl rfl rfl
  | apply event =>
      cases event with
      | submitLimit side price quantity tif =>
          exact .submission _ (by simp [Op.method, Event.op]) rfl
      | submitMarket side quantity => exact .submission _ (by simp [Op.method, Event.op]) rfl
      | cancel id => exact .cancel id rfl rfl rfl fun _ ↦ rfl
      | modify id p q => exact .applyModify id p q rfl
      | submitStopMarket side stopPrice quantity => exact .stop _ rfl rfl rfl
      | submitStopLimit side stopPrice limitPrice quantity tif => exact .stop _ rfl rfl rfl
      | submitTrailingStopMarket side stopPrice quantity trailMethod => exact .stop _ rfl rfl rfl
      | submitTrailingStopLimit side stopPrice limitPrice quantity tif trailMethod =>
          exact .stop _ rfl rfl rfl
  | setStpPolicy policy => exact .setStpPolicy policy rfl
  | compact => exact .maintenance _ rfl (fun _ ↦ rfl) fun _ _ _ _ ↦ .single .compact
  | clearOrderHistory =>
      refine .maintenance _ rfl (fun _ ↦ rfl) fun _ _ _ hK ↦ ?_
      exact (Relation.ReflTransGen.single (.stops ex.stopBook.tame_clearHistory)).tail
        (.clearHistory hK)
  | clearTrades => exact .maintenance _ rfl (fun _ ↦ rfl) fun _ _ _ hK ↦ .single (.clearTrades hK)
  | clearEvents => exact .maintenance _ rfl (fun _ ↦ rfl) fun _ _ _ _ ↦ .refl

/-- An operation other than `set_stp_policy` writes the event log and is then a sequence of
elementary transitions, which make its submissions and cancellations and no others. -/
theorem perform_path {ex ex' : Exchange} {op : Op} (hop : ∀ policy, op ≠ .setStpPolicy policy)
    (hK : K op)
    (hP : ∀ ex' sub, ex.Calls fuel op ex' sub → P ex' sub)
    (hQ : ∀ id, ex.cancelCall op = some id → Q (ex.logged op) id)
    (h : ex.perform fuel op = some ex') : Path K P Q (ex.logged op) ex' := by
  rcases ex.kind op with ⟨sub, hm, hcall⟩ | ⟨order, -, hstop, hid⟩ | ⟨id, -, hc, hlog, hperf⟩ |
    ⟨id, p, q, rfl⟩ | ⟨id, p, q, rfl⟩ | ⟨policy, rfl⟩ | ⟨ex₁, -, hperf, hpath⟩
  · exact submission_path hm hcall hP h
  · exact newStop_path hstop hid hP h
  · rw [hperf] at h
    cases h
    exact cancel_path hc hlog hQ
  · obtain ⟨⟨ex₁, r⟩, hr, rfl⟩ := Option.map_eq_some_iff.mp h
    rcases modifyInternal_path (.modify id p q) rfl rfl rfl hQ hr with
      ⟨hpath, -⟩ | ⟨ex₂, sub, r₁, hcall, hpath, hsub, -⟩
    · exact hpath
    · exact hpath.tail (.submit (hP _ _ (.direct hcall)) hsub)
  · exact applyModify_path hP hQ h
  · exact absurd rfl (hop policy)
  · rw [hperf] at h
    cases h
    exact hpath K P Q hK

/-- The transitions that lead up to a submission of an operation. -/
theorem Calls.path {ex ex₁ : Exchange} {op : Op} {sub : Submission} (h : ex.Calls fuel op ex₁ sub)
    (hP : ∀ ex' sub, ex.Calls fuel op ex' sub → P ex' sub)
    (hQ : ∀ id, ex.cancelCall op = some id → Q (ex.logged op) id) :
    Path K P Q (ex.logged op) ex₁ := by
  have hdirect : ∀ ex₁ sub, ex.directCall op = some (ex₁, sub) → Path K P Q (ex.logged op) ex₁ := by
    intro ex₁ sub hcall
    by_cases hm : ∃ id p q, op.method = .modify id p q
    · obtain ⟨id, p, q, hm⟩ := hm
      obtain ⟨o, hq, -, -, rfl, -⟩ := directCall_modify hm hcall
      obtain ⟨events, hlog⟩ := ex.logged_eq op
      have hbook : (ex.logged op).book = ex.book := by rw [hlog]
      rw [← hbook]
      refine .single (.cancelOrder (hQ id ?_))
      simp only [cancelCall, hm, hq, if_false]
    · rw [directCall] at hcall
      split at hcall
      · cases hcall; exact .refl
      · cases hcall; exact .refl
      · cases hcall; exact .refl
      · next hm' => exact absurd ⟨_, _, _, hm'⟩ hm
      · cases hcall
  cases h with
  | direct hcall => exact hdirect _ _ hcall
  | trigger htrig hcalls =>
      have hlater := hcalls.path (K := K) (Q := Q) fun ex' sub hc ↦ hP ex' sub (.trigger htrig hc)
      cases htrig with
      | trades _ hcall hsub _ =>
          exact ((hdirect _ _ hcall).tail (.submit (hP _ _ (.direct hcall)) hsub)).trans
            (.head (.lastPrice _) hlater)
      | stop hstop _ =>
          refine .head (.insertStop ?_) hlater
          obtain ⟨events, hlog⟩ := ex.logged_eq op
          rw [hlog]
          simp only [newStop] at hstop
          split at hstop <;> cases hstop <;> rfl

end Exchange

end Nanobook
