import Nanobook.Rebalancer.Sequence

/-!
# The checkpoint validator

`validate_checkpoints_from_parsed`, with write-ahead logging: every checkpoint has a sequence
number, the numbers increase, and the first occurrences of some checkpoints stand in an order.
Whether orders are expected is read off the last diff of the log.  Its warnings about intents
without a result are left out.
-/

namespace Nanobook.Rebalancer

/-- The name of a checkpoint in an error. -/
def Checkpoint.debugText : Checkpoint → String
  | runStarted => "RunStarted"
  | positionsIntent => "PositionsIntent"
  | positionsFetched => "PositionsFetched"
  | positionsResult => "PositionsResult"
  | diffComputed => "DiffComputed"
  | riskCheckPassed => "RiskCheckPassed"
  | orderIntent => "OrderIntent"
  | orderSubmitted => "OrderSubmitted"
  | orderFailed => "OrderFailed"
  | orderFilled => "OrderFilled"
  | quotesIntent => "QuotesIntent"
  | quotesResult => "QuotesResult"
  | accountSummaryIntent => "AccountSummaryIntent"
  | accountSummaryResult => "AccountSummaryResult"
  | cancelIntent => "CancelIntent"
  | cancelResult => "CancelResult"
  | runCompleted => "RunCompleted"

/-- Why a log is not valid.  Lines are counted from 1. -/
inductive ValidationError where
  | missingSequenceNumber (line : Nat)
  | notMonotonic (line got last : Nat)
  | missingCheckpoint (checkpoint : Checkpoint)
  | misplaced (message : String)
deriving DecidableEq

def ValidationError.toText : ValidationError → String
  | missingSequenceNumber line =>
      "Checkpoint at line " ++ toString line ++ " missing sequence number"
  | notMonotonic line got last =>
      "Checkpoint sequence not monotonic at line " ++ toString line ++ ": got " ++ toString got ++
        ", expected > " ++ toString last
  | missingCheckpoint checkpoint => "Missing checkpoint: expected " ++ checkpoint.debugText
  | misplaced message => message

/-- The checkpoints from a line on, after one with the number `last`. -/
def scanCheckpoints (line : Nat) (last : Option Nat) :
    List AuditEvent → Except ValidationError (List Checkpoint)
  | [] => .ok []
  | event :: rest =>
      match event.checkpoint with
      | none => scanCheckpoints (line + 1) last rest
      | some checkpoint =>
          match event.sequenceNumber with
          | none => .error (.missingSequenceNumber line)
          | some sequenceNumber =>
              match last with
              | some lastSeq =>
                  if sequenceNumber ≤ lastSeq then
                    .error (.notMonotonic line sequenceNumber lastSeq)
                  else
                    (scanCheckpoints (line + 1) (some sequenceNumber) rest).map (checkpoint :: ·)
              | none =>
                  (scanCheckpoints (line + 1) (some sequenceNumber) rest).map (checkpoint :: ·)

def requireCheckpoint (found : List Checkpoint) (checkpoint : Checkpoint) :
    Except ValidationError Nat :=
  match found.idxOf? checkpoint with
  | some i => .ok i
  | none => .error (.missingCheckpoint checkpoint)

/-- Reject a log for a reason. -/
def rejectIf (c : Prop) [Decidable c] (message : String) : Except ValidationError Unit :=
  if c then .error (.misplaced message) else .ok ()

/-- Reject a log in which a checkpoint stands where it must not. -/
def rejectIfAt (found : List Checkpoint) (checkpoint : Checkpoint) (p : Nat → Prop)
    [DecidablePred p] (message : String) : Except ValidationError Unit :=
  match found.idxOf? checkpoint with
  | some i => rejectIf (p i) message
  | none => .ok ()

/-- Whether the last diff of the log has an array of orders that is empty. -/
def emptyDiffCompletedRun (events : List AuditEvent) : Bool :=
  match ((events.reverse.find? fun event ↦ event.checkpoint = some .diffComputed).bind
      fun event ↦ event.data.get "orders").bind Json.asArray with
  | some orders => orders.isEmpty
  | none => false

/-- The checks after those for the diff, which depend on whether it is empty. -/
def validateExecution (found : List Checkpoint) (diffIdx : Nat) :
    Bool → Except ValidationError Unit
  | false => do
      let riskIdx ← requireCheckpoint found .riskCheckPassed
      let orderIntentIdx ← requireCheckpoint found .orderIntent
      rejectIf (riskIdx ≤ diffIdx) "RiskCheckPassed must come after DiffComputed"
      rejectIf (orderIntentIdx ≤ riskIdx) "OrderIntent must come after RiskCheckPassed"
  | true =>
      rejectIfAt found .runCompleted (· ≤ diffIdx) "RunCompleted must come after empty DiffComputed"

/-- The checks of an intent, where there is one, and its result. -/
def validateCall (found : List Checkpoint) (intent result : Checkpoint) (message : String) :
    Except ValidationError Unit :=
  match found.idxOf? intent with
  | some intentIdx => rejectIfAt found result (· ≤ intentIdx) message
  | none => .ok ()

def validateCheckpointsFromParsed (events : List AuditEvent) : Except ValidationError Unit := do
  let found ← scanCheckpoints 1 none events
  let runStartedIdx ← requireCheckpoint found .runStarted
  let diffIdx ← requireCheckpoint found .diffComputed
  rejectIf (runStartedIdx ≠ 0) "RunStarted must be the first checkpoint"
  let intentIdx ← requireCheckpoint found .positionsIntent
  let positionsCompleteIdx ← requireCheckpoint found .positionsResult
  rejectIf (positionsCompleteIdx ≤ intentIdx) "PositionsResult must come after PositionsIntent"
  rejectIf (positionsCompleteIdx ≤ runStartedIdx) "positions checkpoint must come after RunStarted"
  rejectIf (diffIdx ≤ positionsCompleteIdx) "DiffComputed must come after positions are available"
  validateExecution found diffIdx (emptyDiffCompletedRun events)
  validateCall found .accountSummaryIntent .accountSummaryResult
    "AccountSummaryResult must come after AccountSummaryIntent"
  rejectIfAt found .accountSummaryIntent (· ≤ runStartedIdx)
    "AccountSummaryIntent must come after RunStarted"
  validateCall found .quotesIntent .quotesResult "QuotesResult must come after QuotesIntent"
  validateCall found .cancelIntent .cancelResult "CancelResult must come after CancelIntent"

section Scan

variable {events : List AuditEvent}

/-- Where the numbers increase, all checkpoints are found. -/
theorem scanCheckpoints_of_increasing (h : Increasing events) (line : Nat) (last : Option Nat)
    (hlast : ∀ m ∈ last, ∀ n ∈ checkpointSequences events, m < n) :
    scanCheckpoints line last events = .ok (checkpoints events) := by
  induction events generalizing line last with
  | nil => rfl
  | cons e rest ih =>
      have hrest : Increasing rest := by
        rw [← List.singleton_append] at h
        exact h.of_append_right
      have hsequences : checkpointSequences (e :: rest) =
          checkpointSequences [e] ++ checkpointSequences rest := by
        change checkpointSequences ([e] ++ rest) = _
        exact checkpointSequences_append
      rw [scanCheckpoints]
      cases hc : e.checkpoint with
      | none =>
          rw [checkpoints, List.filterMap_cons_none hc]
          refine ih hrest _ _ fun m hm n hn ↦ hlast m hm n ?_
          rw [hsequences]
          exact List.mem_append_right _ hn
      | some c =>
          obtain ⟨n, hn⟩ := Option.isSome_iff_exists.mp
            (h.numbered e List.mem_cons_self (Option.isSome_iff_exists.mpr ⟨c, hc⟩))
          have hhead : checkpointSequences [e] = [n] := by
            simp [checkpointSequences, checkpointSequence_of_checkpoint hc, hn]
          rw [hhead] at hsequences
          have hsorted := h.sorted
          rw [hsequences, List.singleton_append, List.pairwise_cons] at hsorted
          have hscan : scanCheckpoints (line + 1) (some n) rest =
              .ok (checkpoints rest) :=
            ih hrest _ _ fun m hm ↦ by
              obtain rfl := Option.some.inj hm
              exact hsorted.1
          rw [checkpoints, List.filterMap_cons_some hc, ← checkpoints]
          simp only [hn]
          cases last with
          | none => simp only [hscan, Except.map]
          | some m =>
              have hlt : m < n := hlast m rfl n (by rw [hsequences]; exact List.mem_cons_self)
              simp only [if_neg (Nat.not_le.mpr hlt), hscan, Except.map]

end Scan

/-! ## Errors about numbers -/

/-- Whether an error is about the numbers of the checkpoints. -/
def ValidationError.aboutNumbers : ValidationError → Bool
  | missingSequenceNumber _ | notMonotonic _ _ _ => true
  | missingCheckpoint _ | misplaced _ => false

/-- If a check fails, then not because of the numbers. -/
def PastNumbers {A : Type} (check : Except ValidationError A) : Prop :=
  ∀ e, check = .error e → e.aboutNumbers = false

section PastNumbers

variable {A B : Type} {found : List Checkpoint} {c c' : Checkpoint} {message : String}

theorem PastNumbers.bind {x : Except ValidationError A} {f : A → Except ValidationError B}
    (hx : PastNumbers x) (hf : ∀ a, PastNumbers (f a)) : PastNumbers (x >>= f) := by
  intro e he
  cases x with
  | ok a => exact hf a e he
  | error e' =>
      cases he
      exact hx _ rfl

theorem pastNumbers_requireCheckpoint : PastNumbers (requireCheckpoint found c) := by
  intro e he
  rw [requireCheckpoint] at he
  split at he <;> cases he
  rfl

theorem pastNumbers_rejectIf {p : Prop} [Decidable p] : PastNumbers (rejectIf p message) := by
  intro e he
  rw [rejectIf] at he
  split_ifs at he
  cases he
  rfl

theorem pastNumbers_rejectIfAt {p : Nat → Prop} [DecidablePred p] :
    PastNumbers (rejectIfAt found c p message) := by
  rw [rejectIfAt]
  split
  · exact pastNumbers_rejectIf
  · exact fun e he ↦ by cases he

theorem pastNumbers_validateCall : PastNumbers (validateCall found c c' message) := by
  rw [validateCall]
  split
  · exact pastNumbers_rejectIfAt
  · exact fun e he ↦ by cases he

theorem pastNumbers_validateExecution (diffIdx : Nat) (empty : Bool) :
    PastNumbers (validateExecution found diffIdx empty) := by
  cases empty with
  | false =>
      refine pastNumbers_requireCheckpoint.bind fun _ ↦ pastNumbers_requireCheckpoint.bind fun _ ↦
        ?_
      exact pastNumbers_rejectIf.bind fun _ ↦ pastNumbers_rejectIf
  | true => exact pastNumbers_rejectIfAt

/-- Where the numbers increase, they are not what a log is rejected for. -/
theorem pastNumbers_validateCheckpointsFromParsed {events : List AuditEvent}
    (h : Increasing events) :
    PastNumbers (validateCheckpointsFromParsed events) := by
  rw [validateCheckpointsFromParsed, scanCheckpoints_of_increasing h 1 none (by simp)]
  change PastNumbers (Except.bind (.ok _) _)
  refine pastNumbers_requireCheckpoint.bind fun _ ↦ pastNumbers_requireCheckpoint.bind fun _ ↦ ?_
  refine pastNumbers_rejectIf.bind fun _ ↦ ?_
  refine pastNumbers_requireCheckpoint.bind fun _ ↦ pastNumbers_requireCheckpoint.bind fun _ ↦ ?_
  refine pastNumbers_rejectIf.bind fun _ ↦ pastNumbers_rejectIf.bind fun _ ↦ ?_
  refine pastNumbers_rejectIf.bind fun _ ↦ (pastNumbers_validateExecution _ _).bind fun _ ↦ ?_
  refine pastNumbers_validateCall.bind fun _ ↦ pastNumbers_rejectIfAt.bind fun _ ↦ ?_
  exact pastNumbers_validateCall.bind fun _ ↦ pastNumbers_validateCall

end PastNumbers

end Nanobook.Rebalancer
