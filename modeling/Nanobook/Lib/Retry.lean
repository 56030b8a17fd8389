import Mathlib.Data.List.Basic

/-!
# Bounded retries

A loop that asks an environment again as long as the answer calls for it, and at most so often.
What the environment is going to answer is a tape `t : Nat → A`, so a statement about every tape is
one about every sequence of answers.
-/

namespace Nanobook.Retry

universe u

variable {A : Type u} (again : A → Bool)

/-- The answers a loop gets that may ask `n` times more after the first. -/
def answers : Nat → (Nat → A) → List A
  | 0, t => [t 0]
  | n + 1, t => if again (t 0) then t 0 :: answers n (fun k ↦ t (k + 1)) else [t 0]

variable {again} {t : Nat → A} {n : Nat}

theorem answers_ne_nil : answers again n t ≠ [] := by
  cases n with
  | zero => simp [answers]
  | succ n => rw [answers]; split_ifs <;> simp

theorem answers_of_again (h : again (t 0) = true) :
    answers again (n + 1) t = t 0 :: answers again n (fun k ↦ t (k + 1)) := if_pos h

theorem answers_of_not_again (h : again (t 0) = false) : answers again n t = [t 0] := by
  cases n with
  | zero => rfl
  | succ n => rw [answers, h]; rfl

/-- The answers up to the first that does not call for another. -/
theorem forall_mem_answers {P : A → Prop} : (∀ a ∈ answers again n t, P a) ↔
    ∀ k ≤ n, (∀ j < k, again (t j) = true) → P (t k) := by
  induction n generalizing t with
  | zero => simp [answers]
  | succ n ih =>
      cases h : again (t 0) with
      | true =>
          rw [answers_of_again h, List.forall_mem_cons, ih]
          constructor
          · rintro ⟨hzero, hsucc⟩ k hk hagain
            cases k with
            | zero => exact hzero
            | succ k => exact hsucc k (by omega) fun j hj ↦ hagain (j + 1) (by omega)
          · refine fun hall ↦ ⟨hall 0 (by omega) (by omega), fun k hk hagain ↦ ?_⟩
            refine hall (k + 1) (by omega) fun j hj ↦ ?_
            cases j with
            | zero => exact h
            | succ j => exact hagain j (by omega)
      | false =>
          rw [answers_of_not_again h, List.forall_mem_singleton]
          constructor
          · intro hzero k _ hagain
            cases k with
            | zero => exact hzero
            | succ k => exact absurd (hagain 0 (by omega)) (by rw [h]; decide)
          · exact fun hall ↦ hall 0 (by omega) (by omega)

/-- The answers after which the loop asked again. -/
theorem forall_mem_dropLast_answers {P : A → Prop} : (∀ a ∈ (answers again n t).dropLast, P a) ↔
    ∀ k < n, (∀ j ≤ k, again (t j) = true) → P (t k) := by
  induction n generalizing t with
  | zero => simp [answers]
  | succ n ih =>
      cases h : again (t 0) with
      | true =>
          rw [answers_of_again h, List.dropLast_cons_of_ne_nil answers_ne_nil, List.forall_mem_cons,
            ih]
          constructor
          · rintro ⟨hzero, hsucc⟩ k hk hagain
            cases k with
            | zero => exact hzero
            | succ k => exact hsucc k (by omega) fun j hj ↦ hagain (j + 1) (by omega)
          · refine fun hall ↦ ⟨hall 0 (by omega) fun j hj ↦ ?_, fun k hk hagain ↦ ?_⟩
            · obtain rfl : j = 0 := by omega
              exact h
            · refine hall (k + 1) (by omega) fun j hj ↦ ?_
              cases j with
              | zero => exact h
              | succ j => exact hagain j (by omega)
      | false =>
          rw [answers_of_not_again h]
          refine ⟨fun _ k _ hagain ↦ ?_, fun _ a ha ↦ absurd ha (by simp)⟩
          exact absurd (hagain 0 (by omega)) (by rw [h]; decide)

/-- Every answer but the last called for another. -/
theorem again_of_mem_dropLast {a : A} (h : a ∈ (answers again n t).dropLast) : again a = true := by
  refine forall_mem_dropLast_answers (P := fun a ↦ again a = true).mpr (fun k _ hagain ↦ ?_) a h
  exact hagain k (Nat.le_refl k)

/-! ## One loop after another -/

variable (again n) in
/-- The answers that a number of loops end with, each of which begins where the one before it
ended. -/
def settled : Nat → (Nat → A) → List A
  | 0, _ => []
  | k + 1, t =>
      (answers again n t).getLast answers_ne_nil ::
        settled k fun i ↦ t ((answers again n t).length + i)

theorem getLast_of_again (h : again (t 0) = true) :
    (answers again (n + 1) t).getLast answers_ne_nil =
      (answers again n fun k ↦ t (k + 1)).getLast answers_ne_nil := by
  simp only [answers_of_again h]
  exact List.getLast_cons answers_ne_nil

theorem getLast_of_not_again (h : again (t 0) = false) :
    (answers again n t).getLast answers_ne_nil = t 0 := by
  simp only [answers_of_not_again h]
  rfl

end Nanobook.Retry
