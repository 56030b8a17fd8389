import Mathlib.Data.List.Basic
import Mathlib.Order.Basic

/-!
# Runs of a predicate

A predicate on points in time holds over intervals that neither overlap nor touch.  They are found
by going through the points in order, with the start of the interval that has not ended yet.
-/

namespace Nanobook.Runs

/-- The intervals `[start, stop)` before `now` over which a predicate held, and the start of the one
that goes on. -/
structure Sound (held : Nat → Prop) (now : Nat) (closed : List (Nat × Nat)) (going : Option Nat) :
    Prop where
  apart : closed.Pairwise fun r r' ↦ r.2 < r'.1
  closed_lt : ∀ r ∈ closed, r.1 < r.2 ∧ r.2 < now
  going_lt : ∀ start, going = some start → start < now ∧ ∀ r ∈ closed, r.2 < start
  covered : ∀ t < now, held t ↔
    (∃ r ∈ closed, r.1 ≤ t ∧ t < r.2) ∨ ∃ start, going = some start ∧ start ≤ t

variable {held : Nat → Prop} {now start : Nat} {closed : List (Nat × Nat)} {going : Option Nat}

theorem sound_nil (held : Nat → Prop) : Sound held 0 [] none where
  apart := .nil
  closed_lt _ h := absurd h List.not_mem_nil
  going_lt _ h := by cases h
  covered t h := absurd h (Nat.not_lt_zero t)

/-- An interval goes on just where the predicate held last. -/
theorem Sound.isSome_going_iff (h : Sound held (now + 1) closed going) :
    going.isSome ↔ held now := by
  rw [h.covered now (Nat.lt_succ_self now), Option.isSome_iff_exists]
  constructor
  · rintro ⟨start, hstart⟩
    exact .inr ⟨start, hstart, Nat.le_of_lt_succ (h.going_lt start hstart).1⟩
  · rintro (⟨r, hr, -, hlt⟩ | ⟨start, hstart, -⟩)
    · have := (h.closed_lt r hr).2
      omega
    · exact ⟨start, hstart⟩

/-- The intervals that are over stay as they are. -/
theorem Sound.closed_lt_succ (h : Sound held now closed going) :
    ∀ r ∈ closed, r.1 < r.2 ∧ r.2 < now + 1 := fun r hr ↦
  ⟨(h.closed_lt r hr).1, Nat.lt_succ_of_lt (h.closed_lt r hr).2⟩

/-- The predicate begins to hold. -/
theorem Sound.begins (h : Sound held now closed none) (hnow : held now) :
    Sound held (now + 1) closed (some now) where
  apart := h.apart
  closed_lt := h.closed_lt_succ
  going_lt start hstart := by
    cases hstart
    exact ⟨Nat.lt_succ_self now, fun r hr ↦ (h.closed_lt r hr).2⟩
  covered t ht := by
    rcases Nat.lt_succ_iff_lt_or_eq.mp ht with hlt | rfl
    · simp only [h.covered t hlt, Option.some.injEq, exists_eq_left', reduceCtorEq, false_and,
        exists_false, or_false, Nat.not_le.mpr hlt]
    · exact iff_of_true hnow (.inr ⟨t, rfl, Nat.le_refl t⟩)

/-- The predicate goes on to hold. -/
theorem Sound.continues (h : Sound held now closed (some start)) (hnow : held now) :
    Sound held (now + 1) closed (some start) where
  apart := h.apart
  closed_lt := h.closed_lt_succ
  going_lt s hs := ⟨Nat.lt_succ_of_lt (h.going_lt s hs).1, (h.going_lt s hs).2⟩
  covered t ht := by
    rcases Nat.lt_succ_iff_lt_or_eq.mp ht with hlt | rfl
    · exact h.covered t hlt
    · exact iff_of_true hnow (.inr ⟨start, rfl, Nat.le_of_lt (h.going_lt start rfl).1⟩)

/-- The predicate ceases to hold. -/
theorem Sound.ends (h : Sound held now closed (some start)) (hnow : ¬ held now) :
    Sound held (now + 1) (closed ++ [(start, now)]) none where
  apart := by
    refine List.pairwise_append.mpr ⟨h.apart, List.pairwise_singleton _ _, fun r hr r' hr' ↦ ?_⟩
    obtain rfl := List.mem_singleton.mp hr'
    exact (h.going_lt start rfl).2 r hr
  closed_lt r hr := by
    rcases List.mem_append.mp hr with hr | hr
    · exact h.closed_lt_succ r hr
    · obtain rfl := List.mem_singleton.mp hr
      exact ⟨(h.going_lt start rfl).1, Nat.lt_succ_self now⟩
  going_lt _ hs := by cases hs
  covered t ht := by
    rcases Nat.lt_succ_iff_lt_or_eq.mp ht with hlt | rfl
    · simp [h.covered t hlt, hlt, or_and_right, exists_or]
    · refine iff_of_false hnow ?_
      rintro (⟨r, hr, -, hlt⟩ | ⟨s, hs, -⟩)
      · rcases List.mem_append.mp hr with hr | hr
        · have := (h.closed_lt r hr).2
          omega
        · obtain rfl := List.mem_singleton.mp hr
          exact absurd hlt (Nat.lt_irrefl t)
      · cases hs

/-- The predicate goes on not to hold. -/
theorem Sound.rests (h : Sound held now closed none) (hnow : ¬ held now) :
    Sound held (now + 1) closed none where
  apart := h.apart
  closed_lt := h.closed_lt_succ
  going_lt _ hs := by cases hs
  covered t ht := by
    rcases Nat.lt_succ_iff_lt_or_eq.mp ht with hlt | rfl
    · exact h.covered t hlt
    · refine iff_of_false hnow ?_
      rintro (⟨r, hr, -, hlt⟩ | ⟨s, hs, -⟩)
      · have := (h.closed_lt r hr).2
        omega
      · cases hs

/-! ## Spans -/

/-- The intervals that are over, and the one that goes on, which has no end. -/
def spans (closed : List (Nat × Nat)) (going : Option Nat) : List (Nat × Option Nat) :=
  closed.map (fun r ↦ (r.1, some r.2)) ++ (going.map fun start ↦ (start, none)).toList

/-- A span is over before another starts, with time in between. -/
def Before (a b : Nat × Option Nat) : Prop := ∃ stop, a.2 = some stop ∧ stop < b.1

def Covers (span : Nat × Option Nat) (t : Nat) : Prop :=
  span.1 ≤ t ∧ ∀ stop, span.2 = some stop → t < stop

variable {span : Nat × Option Nat} {t : Nat}

theorem mem_spans : span ∈ spans closed going ↔
    (∃ r ∈ closed, (r.1, some r.2) = span) ∨
      ∃ start, going = some start ∧ (start, none) = span := by
  simp only [spans, List.mem_append, List.mem_map, Option.mem_toList, Option.map_eq_some_iff]

theorem Sound.pairwise_spans (h : Sound held now closed going) :
    (spans closed going).Pairwise Before := by
  refine List.pairwise_append.mpr ⟨?_, ?_, fun a ha b hb ↦ ?_⟩
  · rw [List.pairwise_map]
    exact h.apart.imp fun hlt ↦ ⟨_, rfl, hlt⟩
  · cases going with
    | none => exact .nil
    | some start => exact List.pairwise_singleton _ _
  · obtain ⟨r, hr, rfl⟩ := List.mem_map.mp ha
    obtain ⟨start, hstart, rfl⟩ := Option.map_eq_some_iff.mp (Option.mem_toList.mp hb)
    exact ⟨r.2, rfl, (h.going_lt start hstart).2 r hr⟩

theorem Sound.proper (h : Sound held now closed going) (hspan : span ∈ spans closed going) :
    span.1 < now ∧ ∀ stop, span.2 = some stop → span.1 < stop ∧ stop < now := by
  rcases mem_spans.mp hspan with ⟨r, hr, rfl⟩ | ⟨start, hstart, rfl⟩
  · obtain ⟨hlt, hnow⟩ := h.closed_lt r hr
    refine ⟨Nat.lt_trans hlt hnow, fun stop hstop ↦ ?_⟩
    cases hstop
    exact ⟨hlt, hnow⟩
  · exact ⟨(h.going_lt start hstart).1, fun _ hstop ↦ by cases hstop⟩

theorem Sound.held_iff (h : Sound held now closed going) (ht : t < now) :
    held t ↔ ∃ span ∈ spans closed going, Covers span t := by
  rw [h.covered t ht]
  constructor
  · rintro (⟨r, hr, hle, hlt⟩ | ⟨start, hstart, hle⟩)
    · refine ⟨_, mem_spans.mpr (.inl ⟨r, hr, rfl⟩), hle, fun stop hstop ↦ ?_⟩
      cases hstop
      exact hlt
    · exact ⟨_, mem_spans.mpr (.inr ⟨start, hstart, rfl⟩), hle, fun _ hstop ↦ by cases hstop⟩
  · rintro ⟨span, hspan, hle, hlt⟩
    rcases mem_spans.mp hspan with ⟨r, hr, rfl⟩ | ⟨start, hstart, rfl⟩
    · exact .inl ⟨r, hr, hle, hlt r.2 rfl⟩
    · exact .inr ⟨start, hstart, hle⟩

theorem exists_open_iff : (∃ span ∈ spans closed going, span.2 = none) ↔ going.isSome := by
  rw [Option.isSome_iff_exists]
  constructor
  · rintro ⟨span, hspan, hnone⟩
    rcases mem_spans.mp hspan with ⟨r, -, rfl⟩ | ⟨start, hstart, -⟩
    · cases hnone
    · exact ⟨start, hstart⟩
  · rintro ⟨start, hstart⟩
    exact ⟨(start, none), mem_spans.mpr (.inr ⟨start, hstart, rfl⟩), rfl⟩

/-- There is one that goes on just where the predicate held last. -/
theorem Sound.exists_open_iff (h : Sound held now closed going) :
    (∃ span ∈ spans closed going, span.2 = none) ↔ ∃ t, t + 1 = now ∧ held t := by
  rw [Runs.exists_open_iff]
  cases now with
  | zero =>
      refine iff_of_false ?_ fun ⟨t, ht, _⟩ ↦ Nat.succ_ne_zero t ht
      rw [Option.isSome_iff_exists]
      rintro ⟨start, hstart⟩
      exact Nat.not_lt_zero start (h.going_lt start hstart).1
  | succ n =>
      rw [h.isSome_going_iff]
      exact ⟨fun hn ↦ ⟨n, rfl, hn⟩, fun ⟨t, ht, hheld⟩ ↦ Nat.succ.inj ht ▸ hheld⟩

/-- Ordered by their starts, spans that are apart follow one another. -/
theorem Sound.pairwise_of_perm (h : Sound held now closed going) {l : List (Nat × Option Nat)}
    (hperm : l.Perm (spans closed going)) (hsorted : l.Pairwise fun a b ↦ a.1 ≤ b.1) :
    l.Pairwise Before := by
  have heither : l.Pairwise fun a b ↦ Before a b ∨ Before b a :=
    (hperm.pairwise_iff fun hab ↦ hab.symm).mpr (h.pairwise_spans.imp Or.inl)
  refine (heither.and hsorted).imp_of_mem fun {a b} _ hb ⟨hbefore, hle⟩ ↦ ?_
  rcases hbefore with hbefore | ⟨stop, hstop, hlt⟩
  · exact hbefore
  · have hstart := ((h.proper (hperm.mem_iff.mp hb)).2 stop hstop).1
    omega

/-- At most one of spans that follow one another goes on. -/
theorem length_filter_open_le {l : List (Nat × Option Nat)} (h : l.Pairwise Before) :
    (l.filter fun span ↦ span.2 = none).length ≤ 1 := by
  have hopen := h.filter fun span ↦ span.2 = none
  have hall : ∀ span ∈ l.filter fun span ↦ span.2 = none, span.2 = none := fun span hspan ↦
    of_decide_eq_true (List.mem_filter.mp hspan).2
  generalize l.filter (fun span ↦ span.2 = none) = rest at *
  match rest with
  | [] => simp
  | [_] => simp
  | a :: b :: rest =>
      obtain ⟨stop, hstop, -⟩ := List.rel_of_pairwise_cons hopen List.mem_cons_self
      rw [hall a List.mem_cons_self] at hstop
      cases hstop

end Nanobook.Runs
