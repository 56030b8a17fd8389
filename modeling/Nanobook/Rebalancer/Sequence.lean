import Nanobook.Rebalancer.Audit

/-!
# Sequence numbers

The sequence numbers of the checkpoints of a log.  Events that are no checkpoints may carry numbers
as well; these do not count.
-/

namespace Nanobook.Rebalancer

/-- The sequence number of an event that is a checkpoint. -/
def AuditEvent.checkpointSequence (e : AuditEvent) : Option Nat :=
  e.checkpoint.bind fun _ ↦ e.sequenceNumber

/-- The checkpoints of a log. -/
def checkpoints (events : List AuditEvent) : List Checkpoint :=
    events.filterMap AuditEvent.checkpoint

def checkpointSequences (events : List AuditEvent) : List Nat :=
  events.filterMap AuditEvent.checkpointSequence

/-- The highest sequence number of a checkpoint. -/
def maxCheckpointSequence (events : List AuditEvent) : Nat :=
  (checkpointSequences events).max?.getD 0

/-- Every checkpoint has a number, and the numbers increase in the order of the log. -/
structure Increasing (events : List AuditEvent) : Prop where
  numbered : ∀ e ∈ events, e.checkpoint.isSome = true → e.sequenceNumber.isSome = true
  sorted : (checkpointSequences events).Pairwise (· < ·)

section Sequences

variable {events later : List AuditEvent} {e : AuditEvent} {c : Checkpoint} {n : Nat}

theorem checkpointSequence_of_checkpoint (h : e.checkpoint = some c) :
    e.checkpointSequence = e.sequenceNumber := by
  rw [AuditEvent.checkpointSequence, h, Option.bind_some]

theorem checkpointSequence_of_none (h : e.checkpoint = none) : e.checkpointSequence = none := by
  rw [AuditEvent.checkpointSequence, h, Option.bind_none]

@[simp] theorem checkpoints_append :
    checkpoints (events ++ later) = checkpoints events ++ checkpoints later :=
  List.filterMap_append

@[simp] theorem checkpoints_nil : checkpoints [] = [] := rfl

@[simp] theorem checkpoints_checkpointEvent {ts : Timestamp} {data : Json} :
    checkpoints [checkpointEvent c ts n data] = [c] := by
  simp [checkpoints]

@[simp] theorem checkpointSequences_append :
    checkpointSequences (events ++ later) =
      checkpointSequences events ++ checkpointSequences later :=
  List.filterMap_append

theorem le_maxCheckpointSequence (h : n ∈ checkpointSequences events) :
    n ≤ maxCheckpointSequence events :=
  List.le_max?_getD_of_mem h

theorem increasing_nil : Increasing [] := ⟨by simp, List.Pairwise.nil⟩

/-- What comes before the end of a log increases as the log does. -/
theorem Increasing.of_append (h : Increasing (events ++ later)) : Increasing events where
  numbered e he := h.numbered e (List.mem_append_left _ he)
  sorted := by
    have hsorted := h.sorted
    rw [checkpointSequences_append, List.pairwise_append] at hsorted
    exact hsorted.1

theorem Increasing.of_append_right (h : Increasing (events ++ later)) : Increasing later where
  numbered e he := h.numbered e (List.mem_append_right _ he)
  sorted := by
    have hsorted := h.sorted
    rw [checkpointSequences_append, List.pairwise_append] at hsorted
    exact hsorted.2.1

/-- One more event, which is no checkpoint or has a number above all others. -/
theorem increasing_concat_iff : Increasing (events ++ [e]) ↔
    Increasing events ∧ (e.checkpoint.isSome = true →
      ∃ n, e.sequenceNumber = some n ∧ ∀ m ∈ checkpointSequences events, m < n) := by
  constructor
  · intro h
    refine ⟨h.of_append, fun he ↦ ?_⟩
    obtain ⟨n, hn⟩ := Option.isSome_iff_exists.mp (h.numbered e (by simp) he)
    obtain ⟨c, hc⟩ := Option.isSome_iff_exists.mp he
    have hsorted := h.sorted
    rw [checkpointSequences_append, List.pairwise_append] at hsorted
    refine ⟨n, hn, fun m hm ↦ hsorted.2.2 m hm n ?_⟩
    simp [checkpointSequences, checkpointSequence_of_checkpoint hc, hn]
  · rintro ⟨hevents, hlast⟩
    constructor
    · intro e' he' hcheckpoint
      rcases List.mem_append.mp he' with he' | he'
      · exact hevents.numbered e' he' hcheckpoint
      · obtain rfl := List.mem_singleton.mp he'
        obtain ⟨n, hn, -⟩ := hlast hcheckpoint
        exact Option.isSome_iff_exists.mpr ⟨n, hn⟩
    · rw [checkpointSequences_append, List.pairwise_append]
      refine ⟨hevents.sorted, ?_, fun m hm n hn ↦ ?_⟩
      · cases hnumber : e.checkpointSequence with
        | none => simp [checkpointSequences, hnumber]
        | some n => simp [checkpointSequences, hnumber]
      · obtain ⟨e', he', hnumber⟩ := List.mem_filterMap.mp hn
        obtain rfl := List.mem_singleton.mp he'
        obtain ⟨c, hc, hseq⟩ := Option.bind_eq_some_iff.mp hnumber
        obtain ⟨n', hn', hlt⟩ := hlast (Option.isSome_iff_exists.mpr ⟨c, hc⟩)
        rw [hseq, Option.some.injEq] at hn'
        exact hn' ▸ hlt m hm

end Sequences

end Nanobook.Rebalancer
