import Mathlib.Algebra.Order.Ring.Int
import Nanobook.Lib.Loop

/-!
# Bisection

The search for the last index that passes a test, among `lo, …, hi`.  The middle is a parameter, so
that a middle computed in machine arithmetic can stand for it wherever it does split the
interval.
-/

namespace Nanobook.Bisect

/-- One pass: either end moves to the middle. -/
def body (middle : Int → Int → Int) (ok : Int → Bool) (bounds : Int × Int) :
    Option (Int ⊕ (Int × Int)) :=
  if bounds.1 < bounds.2 then
    let mid := middle bounds.1 bounds.2
    if ok mid then some (.inr (mid, bounds.2)) else some (.inr (bounds.1, mid - 1))
  else some (.inl bounds.1)

/-- `mid` leaves at most half of the interval on either side of it. -/
structure Splits (lo hi mid : Int) : Prop where
  lower : lo < mid
  upper : mid ≤ hi
  halves : 2 * (hi - mid) ≤ hi - lo
  halves' : 2 * (mid - 1 - lo) ≤ hi - lo

theorem splits_middle {lo hi : Int} (h : lo < hi) : Splits lo hi (lo + (hi - lo + 1) / 2) := by
  constructor <;> omega

variable {middle : Int → Int → Int} {ok : Int → Bool} {lo hi : Int}

/-- What one pass does where the middle splits the interval. -/
theorem body_cases (hsplit : lo < hi → Splits lo hi (middle lo hi)) :
    (hi ≤ lo ∧ body middle ok (lo, hi) = some (.inl lo)) ∨
    ∃ lo' hi', body middle ok (lo, hi) = some (.inr (lo', hi')) ∧ lo < hi ∧ lo ≤ lo' ∧ lo' ≤ hi' ∧
      hi' ≤ hi ∧ 2 * (hi' - lo') ≤ hi - lo ∧ (lo' = lo ∨ ok lo' = true) ∧
      (hi' = hi ∨ ok (hi' + 1) = false) := by
  by_cases hlt : lo < hi
  · obtain ⟨hlower, hupper, hhalf, hhalf'⟩ := hsplit hlt
    cases hok : ok (middle lo hi) with
    | true =>
        exact .inr ⟨_, _, by simp [body, hlt, hok], hlt, hlower.le, hupper, le_rfl, hhalf, .inr hok,
          .inl rfl⟩
    | false =>
        exact .inr ⟨_, _, by simp [body, hlt, hok]; rfl, hlt, le_rfl,
          by omega, by omega, by omega, .inl rfl, .inr (by rwa [Int.sub_add_cancel])⟩
  · exact .inl ⟨not_lt.mp hlt, by simp [body, hlt]⟩

/-- The index found lies in the interval, and passes the test unless it is the lower end. -/
theorem iterate_body (hsplit : ∀ l h, lo ≤ l → l < h → h ≤ hi → Splits l h (middle l h))
    (hle : lo ≤ hi) {n : Nat} {r : Int} (h : Loop.iterate (body middle ok) n (lo, hi) = some r) :
    lo ≤ r ∧ r ≤ hi ∧ (r = lo ∨ ok r = true) := by
  induction n generalizing lo hi with
  | zero => cases h
  | succ n ih =>
      rcases body_cases (hsplit lo hi le_rfl · le_rfl) with
        ⟨-, hb⟩ | ⟨lo', hi', hb, -, hlo, hle', hhi, -, hok, -⟩
      · rw [Loop.iterate_succ_inl hb] at h
        cases h
        exact ⟨le_rfl, hle, .inl rfl⟩
      · rw [Loop.iterate_succ_inr hb] at h
        obtain ⟨hlor, hrhi, hr⟩ :=
          ih (fun l h hl hlt hh ↦ hsplit l h (hlo.trans hl) hlt (hh.trans hhi)) hle' h
        refine ⟨hlo.trans hlor, hrhi.trans hhi, ?_⟩
        rcases hr with rfl | hr
        · exact hok
        · exact .inr hr

/-- No index above the one found passes the test, if a test passed above is passed below as well. -/
theorem iterate_body_last (hsplit : ∀ l h, lo ≤ l → l < h → h ≤ hi → Splits l h (middle l h))
    (hmono : ∀ i j, lo ≤ i → i ≤ j → j ≤ hi → ok j = true → ok i = true)
    (hle : lo ≤ hi) {n : Nat} {r : Int} (h : Loop.iterate (body middle ok) n (lo, hi) = some r) :
    ∀ i, r < i → i ≤ hi → ok i = false := by
  induction n generalizing lo hi with
  | zero => cases h
  | succ n ih =>
      rcases body_cases (hsplit lo hi le_rfl · le_rfl) with
        ⟨hend, hb⟩ | ⟨lo', hi', hb, -, hlo, hle', hhi, -, -, hfail⟩
      · rw [Loop.iterate_succ_inl hb] at h
        cases h
        exact fun i hi hi' ↦ absurd hi (not_lt.mpr (hi'.trans hend))
      · rw [Loop.iterate_succ_inr hb] at h
        have hsplit' : ∀ l h, lo' ≤ l → l < h → h ≤ hi' → Splits l h (middle l h) :=
          fun l h hl hlt hh ↦ hsplit l h (hlo.trans hl) hlt (hh.trans hhi)
        have hrest :=
          ih hsplit' (fun i j hi hij hj ↦ hmono i j (hlo.trans hi) hij (hj.trans hhi)) hle' h
        intro i hri hihi
        by_cases hin : i ≤ hi'
        · exact hrest i hri hin
        · -- the test has failed just above the upper end
          rcases hfail with rfl | hfail
          · exact absurd hihi hin
          · refine Bool.eq_false_iff.mpr fun hok ↦ ?_
            rw [hmono (hi' + 1) i (by omega) (by omega) hihi hok] at hfail
            cases hfail

/-- An interval of fewer than `2 ^ n` indices above its lower end is searched in `n + 1` passes. -/
theorem exists_iterate_body (hsplit : ∀ l h, lo ≤ l → l < h → h ≤ hi → Splits l h (middle l h))
    {n : Nat} (hn : hi - lo < 2 ^ n) :
    ∃ r, Loop.iterate (body middle ok) (n + 1) (lo, hi) = some r := by
  induction n generalizing lo hi with
  | zero =>
      rcases body_cases (hsplit lo hi le_rfl · le_rfl) with ⟨-, hb⟩ | ⟨-, -, -, hlt, -⟩
      · exact ⟨lo, Loop.iterate_succ_inl hb 0⟩
      · omega
  | succ n ih =>
      rcases body_cases (hsplit lo hi le_rfl · le_rfl) with
        ⟨-, hb⟩ | ⟨lo', hi', hb, -, hlo, -, hhi, hhalf, -, -⟩
      · exact ⟨lo, Loop.iterate_succ_inl hb _⟩
      · rw [Loop.iterate_succ_inr hb]
        refine ih (fun l h hl hlt hh ↦ hsplit l h (hlo.trans hl) hlt (hh.trans hhi)) ?_
        rw [pow_succ] at hn
        omega

end Nanobook.Bisect
