import Nanobook.Invariant.Path

/-!
# More passes never change a result

An operation that returns within some number of loop passes returns the same result within any
larger number, so `∃ fuel, … = some r` says that the source returns `r`, and says it of one `r`
only.
-/

namespace Nanobook

namespace Exchange

variable {fuel fuel' : Nat} {ex : Exchange}

theorem submit_mono (h : fuel ≤ fuel') {sub : Submission} {x : Exchange × SubmitResult}
    (hs : ex.submitLimitInternalWithOwner fuel sub = some x) :
    ex.submitLimitInternalWithOwner fuel' sub = some x := by
  simp only [submitLimitInternalWithOwner] at hs ⊢
  split_ifs at hs ⊢
  · exact hs
  · obtain ⟨s, hm, hs⟩ := Option.bind_eq_some_iff.mp hs
    exact Option.bind_eq_some_iff.mpr ⟨s, OrderBook.matchOrderWithPolicy_mono h hm, hs⟩

theorem submitTriggered_mono (h : fuel ≤ fuel') {acc acc' : Exchange × Option Price}
    {stop : StopOrder} (hs : submitTriggered fuel acc stop = some acc') :
    submitTriggered fuel' acc stop = some acc' := by
  obtain ⟨x, hx, hs⟩ := Option.bind_eq_some_iff.mp hs
  exact Option.bind_eq_some_iff.mpr ⟨x, submit_mono h hx, hs⟩

theorem triggerRound_mono (h : fuel ≤ fuel') {x : Exchange ⊕ Exchange}
    (hs : ex.triggerRound fuel = some x) : ex.triggerRound fuel' = some x := by
  simp only [triggerRound] at hs ⊢
  split at hs
  · exact hs
  · split_ifs at hs ⊢
    · exact hs
    · obtain ⟨acc, hacc, hs⟩ := Option.bind_eq_some_iff.mp hs
      exact Option.bind_eq_some_iff.mpr
        ⟨acc, Loop.foldlM_mono (fun _ _ _ ht ↦ submitTriggered_mono h ht) hacc, hs⟩

theorem triggerRounds_mono (h : fuel ≤ fuel') {n : Nat} {ex' : Exchange}
    (hs : triggerRounds fuel n ex = some ex') : triggerRounds fuel' n ex = some ex' := by
  induction n generalizing ex with
  | zero => exact hs
  | succ n ih =>
      obtain ⟨x, hx, hs⟩ := Option.bind_eq_some_iff.mp hs
      refine Option.bind_eq_some_iff.mpr ⟨x, triggerRound_mono h hx, ?_⟩
      cases x with
      | inl ex₁ => exact hs
      | inr ex₁ => exact ih hs

theorem onTrades_mono (h : fuel ≤ fuel') {trades : List Trade} {ex' : Exchange}
    (hs : ex.onTrades fuel trades = some ex') : ex.onTrades fuel' trades = some ex' := by
  simp only [onTrades] at hs ⊢
  split at hs
  · exact hs
  · exact triggerRounds_mono h hs

theorem modifyInternal_mono (h : fuel ≤ fuel') {id : OrderId} {p : Price} {q : Quantity}
    {x : Exchange × ModifyResult} (hs : ex.modifyInternal fuel id p q = some x) :
    ex.modifyInternal fuel' id p q = some x := by
  simp only [modifyInternal] at hs ⊢
  split_ifs at hs ⊢
  · exact hs
  · split at hs
    · exact hs
    · split_ifs at hs ⊢
      · split at hs
        · exact hs
        · obtain ⟨y, hy, hs⟩ := Option.bind_eq_some_iff.mp hs
          exact Option.bind_eq_some_iff.mpr ⟨y, submit_mono h hy, hs⟩
      · exact hs

theorem apply_modify_mono (h : fuel ≤ fuel') {id : OrderId} {p : Price} {q : Quantity}
    {x : Exchange × ApplyResult} (hs : ex.apply fuel (.modify id p q) = some x) :
    ex.apply fuel' (.modify id p q) = some x := by
  obtain ⟨y, hy, hs⟩ := Option.bind_eq_some_iff.mp hs
  obtain ⟨z, hz, hs⟩ := Option.bind_eq_some_iff.mp hs
  exact Option.bind_eq_some_iff.mpr
    ⟨y, modifyInternal_mono h hy, Option.bind_eq_some_iff.mpr ⟨z, onTrades_mono h hz, hs⟩⟩

theorem perform_mono (h : fuel ≤ fuel') {op : Op} {ex' : Exchange}
    (hs : ex.perform fuel op = some ex') : ex.perform fuel' op = some ex' := by
  rcases ex.kind op with ⟨sub, hm, hcall⟩ | ⟨order, -, hstop, -⟩ | ⟨id, -, -, -, hperf⟩ |
    ⟨id, p, q, rfl⟩ | ⟨id, p, q, rfl⟩ | ⟨policy, rfl⟩ | ⟨ex₁, -, hperf, -⟩
  · rw [perform_submission hm hcall] at hs ⊢
    obtain ⟨x, hx, hs⟩ := Option.bind_eq_some_iff.mp hs
    exact Option.bind_eq_some_iff.mpr ⟨x, submit_mono h hx, onTrades_mono h hs⟩
  · rw [perform_newStop hstop] at hs ⊢
    split_ifs at hs ⊢
    · exact triggerRounds_mono h hs
    · exact hs
  · rwa [hperf] at hs ⊢
  · obtain ⟨x, hx, rfl⟩ := Option.map_eq_some_iff.mp hs
    exact Option.map_eq_some_iff.mpr ⟨x, modifyInternal_mono h hx, rfl⟩
  · obtain ⟨x, hx, rfl⟩ := Option.map_eq_some_iff.mp hs
    exact Option.map_eq_some_iff.mpr ⟨x, apply_modify_mono h hx, rfl⟩
  · exact hs
  · rwa [hperf] at hs ⊢

/-- An operation leads to one state. -/
theorem Step.deterministic {op : Op} {ex₁ ex₂ : Exchange} (h₁ : ex.Step op ex₁)
    (h₂ : ex.Step op ex₂) : ex₁ = ex₂ := by
  obtain ⟨fuel₁, h₁⟩ := h₁
  obtain ⟨fuel₂, h₂⟩ := h₂
  exact Option.some.inj ((perform_mono (le_max_left fuel₁ fuel₂) h₁).symm.trans
    (perform_mono (le_max_right fuel₁ fuel₂) h₂))

end Exchange

end Nanobook
