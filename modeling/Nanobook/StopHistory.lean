import Nanobook.LastPrice
import Nanobook.StopRuns

/-!
# The stop book of an exchange

What an exchange does to its stop book is a run of `Nanobook.StopRuns`: it inserts pending orders
under ids of its counter, which are new to the book, and cancels, trails, triggers and forgets.  So
whatever holds of these runs holds of the stop book of every reachable exchange.
-/

namespace Nanobook

open StopBook (StopOp StopRun History)

namespace Exchange

variable {ex ex' : Exchange} {fuel : Nat}

/-- The stop book was reached by a run that inserted ids of the counter only. -/
def HasStopRun (ex : Exchange) : Prop :=
  ∃ h, StopRun ex.stopBook h ∧ ∀ id ∈ h.inserted, id < ex.book.nextOrderId

theorem hasStopRun_create : create.HasStopRun := ⟨_, .start, fun _ h ↦ by cases h⟩

namespace HasStopRun

theorem of_stopBook (h : ex.HasStopRun) (hsb : ex'.stopBook = ex.stopBook)
    (hid : ex.book.nextOrderId ≤ ex'.book.nextOrderId) : ex'.HasStopRun := by
  obtain ⟨history, hrun, hlt⟩ := h
  exact ⟨history, hsb ▸ hrun, fun id hmem ↦ (hlt id hmem).trans_le hid⟩

/-- An operation that inserts nothing. -/
theorem perform (h : ex.HasStopRun) (op : StopOp) (hop : ∀ order, op ≠ .insert order)
    (hsb : ex'.stopBook = ex.stopBook.perform op)
    (hid : ex.book.nextOrderId ≤ ex'.book.nextOrderId) : ex'.HasStopRun := by
  obtain ⟨history, hrun, hlt⟩ := h
  refine ⟨history.after ex.stopBook op, ?_, fun id hmem ↦ ?_⟩
  · rw [hsb]
    refine hrun.step op ?_
    cases op with
    | insert order => exact absurd rfl (hop order)
    | _ => trivial
  · refine (hlt id ?_).trans_le hid
    cases op with
    | insert order => exact absurd rfl (hop order)
    | cancel j =>
        simp only [History.after] at hmem
        split_ifs at hmem <;> exact hmem
    | updateTrailingStops p => exact hmem
    | collectTriggered p => exact hmem
    | clearHistory => exact hmem

theorem insertStop (h : ex.HasStopRun) {order : StopOrder} (hid : order.id = ex.book.nextOrderId)
    (hp : order.status = .pending) : (ex.insertStop order).HasStopRun := by
  obtain ⟨history, hrun, hlt⟩ := h
  have hnew : order.id ∉ history.inserted := by
    intro hmem
    rw [hid] at hmem
    exact absurd (hlt _ hmem) (lt_irrefl _)
  refine ⟨history.after ex.stopBook (.insert order), hrun.step (.insert order) ⟨hnew, hp⟩,
    fun id hmem ↦ ?_⟩
  · rcases List.mem_append.mp hmem with hold | hlast
    · exact (hlt id hold).trans (Nat.lt_succ_self _)
    · rw [List.mem_singleton.mp hlast, hid]
      exact Nat.lt_succ_self _

theorem submit (h : ex.HasStopRun) {sub : Submission} {r : SubmitResult}
    (hs : ex.submitLimitInternalWithOwner fuel sub = some (ex', r)) : ex'.HasStopRun := by
  obtain ⟨hsb, -, -, -, -, hid⟩ := submit_frame hs
  exact h.of_stopBook hsb (hid ▸ Nat.le_succ _)

theorem collectTriggered (h : ex.HasStopRun) (p : Price) :
    (ex.collectTriggered p).1.HasStopRun := by
  have htrailed :
    ({ ex with stopBook := ex.stopBook.updateTrailingStops p } : Exchange).HasStopRun :=
    h.perform (.updateTrailingStops p) (by simp) rfl le_rfl
  exact htrailed.perform (.collectTriggered p) (by simp) rfl le_rfl

theorem triggerRound (h : ex.HasStopRun) {x : Exchange ⊕ Exchange}
    (hx : ex.triggerRound fuel = some x) : (Sum.elim id id x).HasStopRun := by
  have hid : ex.book.nextOrderId ≤ (Sum.elim id id x).book.nextOrderId :=
    (triggerRound_path (n := 0) (K := fun _ ↦ True) (P := fun _ _ ↦ True) (Q := fun _ _ ↦ True)
      (fun _ _ _ ↦ trivial) hx).frame.2.2
  simp only [Exchange.triggerRound] at hx
  split at hx
  · cases hx
    exact h
  · next p hp =>
      have hcol := h.collectTriggered p
      split_ifs at hx
      · cases hx
        exact hcol
      · obtain ⟨acc, hfold, hx⟩ := Option.bind_eq_some_iff.mp hx
        obtain ⟨-, -, -, hsb, -⟩ := foldlM_submitTriggered_spec hfold
        split at hx <;> cases hx <;> exact hcol.of_stopBook hsb hid

theorem triggerRounds (h : ex.HasStopRun) {n : Nat} (hs : triggerRounds fuel n ex = some ex') :
    ex'.HasStopRun := by
  induction n generalizing ex with
  | zero =>
      cases hs
      exact h
  | succ n ih =>
      obtain ⟨x, hx, hs⟩ := Option.bind_eq_some_iff.mp hs
      have hround := h.triggerRound hx
      cases x with
      | inl ex₁ =>
          cases hs
          exact hround
      | inr ex₁ => exact ih hround hs

theorem onTrades (h : ex.HasStopRun) {trades : List Trade}
    (hs : ex.onTrades fuel trades = some ex') : ex'.HasStopRun := by
  simp only [Exchange.onTrades] at hs
  split at hs
  · cases hs
    exact h
  · next last _ =>
      have hlast : ({ ex with lastTradePrice := some last.price } : Exchange).HasStopRun := h
      exact hlast.triggerRounds hs

theorem logged (h : ex.HasStopRun) (op : Op) : (ex.logged op).HasStopRun := by
  obtain ⟨events, hlog⟩ := ex.logged_eq op
  rw [hlog]
  exact h

theorem cancelInternal (h : ex.HasStopRun) (id : OrderId) :
    (ex.cancelInternal id).1.HasStopRun := by
  rcases ex.cancelInternal_cases id with ⟨-, heq⟩ | ⟨-, heq⟩
  · rw [heq]
    exact h.perform (.cancel id) (by simp) rfl le_rfl
  · rw [heq]
    exact h.of_stopBook rfl (OrderBook.shrinks_cancelOrder _ _).nextOrderId.ge

theorem modifyInternal (h : ex.HasStopRun) {id : OrderId} {p : Price} {q : Quantity}
    {r : ModifyResult} (hs : ex.modifyInternal fuel id p q = some (ex', r)) : ex'.HasStopRun := by
  simp only [Exchange.modifyInternal] at hs
  split_ifs at hs
  · cases hs
    exact h
  · split at hs
    · cases hs
      exact h
    · split_ifs at hs
      · have hcancel : ({ ex with book := (ex.book.cancelOrder id).1 } : Exchange).HasStopRun :=
          h.of_stopBook rfl (OrderBook.shrinks_cancelOrder _ _).nextOrderId.ge
        split at hs
        · next heq =>
            cases hs
            rw [heq] at hcancel
            exact hcancel
        · next heq =>
            obtain ⟨x, hsub, hs⟩ := Option.bind_eq_some_iff.mp hs
            cases hs
            rw [heq] at hcancel
            exact hcancel.submit hsub
      · cases hs
        exact h

end HasStopRun

/-- Every operation extends the run. -/
theorem Step.hasStopRun {op : Op} (hs : ex.Step op ex') (h : ex.HasStopRun) : ex'.HasStopRun := by
  obtain ⟨fuel, hs⟩ := hs
  have hsubmit : ∀ {sub : Submission}, (∀ id p q, op.method ≠ .modify id p q) →
      ex.directCall op = some (ex.logged op, sub) → ex'.HasStopRun := by
    intro sub hm hcall
    rw [perform_submission hm hcall] at hs
    obtain ⟨x, hsub, hon⟩ := Option.bind_eq_some_iff.mp hs
    exact ((h.logged op).submit hsub).onTrades hon
  have hstop : ∀ {order : StopOrder}, ex.newStop op = some order →
      order.id = (ex.logged op).book.nextOrderId → order.status = .pending → ex'.HasStopRun := by
    intro order hnew hid hp
    have hins := (h.logged op).insertStop hid hp
    rw [perform_newStop hnew] at hs
    split_ifs at hs
    · exact hins.triggerRounds hs
    · cases hs
      exact hins
  cases op with
  | submitLimit side price q tif => exact hsubmit (by simp [Op.method]) rfl
  | submitLimitWithOwner side price q tif owner => exact hsubmit (by simp [Op.method]) rfl
  | submitMarket side q => exact hsubmit (by simp [Op.method]) rfl
  | cancel id =>
      cases hs
      exact (h.logged (.cancel id)).cancelInternal id
  | modify id p q =>
      obtain ⟨x, hmod, rfl⟩ := Option.map_eq_some_iff.mp hs
      exact (h.logged (.modify id p q)).modifyInternal hmod
  | submitStopMarket side p q => exact hstop rfl rfl rfl
  | submitStopLimit side p limit q tif => exact hstop rfl rfl rfl
  | submitTrailingStopMarket side p q m => exact hstop rfl rfl rfl
  | submitTrailingStopLimit side p limit q tif m => exact hstop rfl rfl rfl
  | apply event =>
      cases event with
      | submitLimit side price q tif => exact hsubmit (by simp [Op.method, Event.op]) rfl
      | submitMarket side q => exact hsubmit (by simp [Op.method, Event.op]) rfl
      | cancel id =>
          cases hs
          exact (h.logged (.apply (.cancel id))).cancelInternal id
      | modify id p q =>
          obtain ⟨x, happly, rfl⟩ := Option.map_eq_some_iff.mp hs
          obtain ⟨y, hmod, happly⟩ := Option.bind_eq_some_iff.mp happly
          obtain ⟨ex₁, hon, happly⟩ := Option.bind_eq_some_iff.mp happly
          cases happly
          exact ((h.logged (.apply (.modify id p q))).modifyInternal hmod).onTrades hon
      | submitStopMarket side p q => exact hstop rfl rfl rfl
      | submitStopLimit side p limit q tif => exact hstop rfl rfl rfl
      | submitTrailingStopMarket side p q m => exact hstop rfl rfl rfl
      | submitTrailingStopLimit side p limit q tif m => exact hstop rfl rfl rfl
  | setStpPolicy policy =>
      cases hs
      exact h
  | compact =>
      cases hs
      exact h
  | clearOrderHistory =>
      cases hs
      exact h.perform .clearHistory (by simp) rfl le_rfl
  | clearTrades =>
      cases hs
      exact h
  | clearEvents =>
      cases hs
      exact h

/-- The stop book of every reachable exchange is well formed. -/
theorem Reachable.stopBook_wf (h : Reachable ex) : ex.stopBook.WF := by
  obtain ⟨history, hrun, -⟩ :=
    Run.invariant (I := HasStopRun) (fun _ _ _ _ hI hs ↦ hs.hasStopRun hI) h hasStopRun_create
  exact hrun.accounted.wf

end Exchange

end Nanobook
