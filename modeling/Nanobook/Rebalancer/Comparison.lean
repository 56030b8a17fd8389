import Nanobook.Rebalancer.Kill
import Nanobook.Rebalancer.Log
import Nanobook.Rebalancer.Restart
import Nanobook.Rebalancer.Sequence

/-!
# Comparing with the broker

`compare_broker_state`: one scan after another looks for something the broker and the recovered
state disagree on.  A query that fails is taken for an empty answer, a position that was not
recovered is not looked at, and of the calls only those are reported that never got an answer in the
whole log.
-/

namespace Nanobook.Rebalancer

/-! ## The report -/

inductive Discrepancy where
  | orphanOrder (brokerOrderId : OrderId) (symbol status : String)
  | missingOrder (symbol expectedStatus : String)
  | orderStatusMismatch (symbol brokerStatus expectedStatus : String)
  | positionMismatch (symbol : String) (brokerQty expectedQty : Int64)
  | incompleteIntent (symbol : String) (clientOrderId : Option String)
  | incompletePositionsIntent (targetSpecReference : Option String)
  | incompleteQuotesIntent (targetSpecReference : Option String)
  | incompleteAccountSummaryIntent (targetSpecReference : Option String)
  | incompleteCancelIntent (orderId : Option UInt64) (cancellationReason : Option String)
deriving DecidableEq

structure DiscrepancyReport where
  discrepancies : List Discrepancy
  hasCriticalIssues : Bool

/-- What the broker answers when it is asked for its positions. -/
abbrev PositionsResponse := Except BrokerError (List Position)

def OrderState.toText : OrderState → String
  | pending => "Pending"
  | submitted => "Submitted"
  | partiallyFilled => "PartiallyFilled"
  | filled => "Filled"
  | cancelled => "Cancelled"
  | rejected => "Rejected"

/-- `ibkr_id as u64`. -/
def RecoveredOrder.brokerId (o : RecoveredOrder) : OrderId := o.ibkrId.toInt64.toUInt64

/-- A call that was intended and never answered. -/
def CallLog.unfinished (c : CallLog) : Bool := c.intentLogged && !c.resultLogged

def Call.discrepancy : Call → Discrepancy
  | positions => .incompletePositionsIntent none
  | quotes => .incompleteQuotesIntent none
  | accountSummary => .incompleteAccountSummaryIntent none
  | cancel => .incompleteCancelIntent none none

section Compare

variable (brokerOrders : List BrokerOrderStatus) (brokerPositions : List Position)
  (st : RecoveredState)

/-- An order of the broker under an id that no recovered order has. -/
def orphanOrder (brokerOrder : BrokerOrderStatus) : Option Discrepancy :=
  if st.orders.any fun o ↦ o.brokerId = brokerOrder.id then none
  else some (.orphanOrder brokerOrder.id "UNKNOWN" brokerOrder.status.toText)

/-- An order that was submitted and not filled, and that is not open. -/
def missingOrder (o : RecoveredOrder) : Option Discrepancy :=
  if o.live && !brokerOrders.any fun brokerOrder ↦ o.brokerId = brokerOrder.id then
    some (.missingOrder o.symbol.asStr "Submitted but not filled")
  else none

/-- A position of the broker that was recovered with another quantity. -/
def positionMismatch (brokerPosition : Position) : Option Discrepancy :=
  match st.positions.find? fun p ↦ p.symbol = brokerPosition.symbol with
  | some p =>
      if p.quantity = brokerPosition.quantity then none
      else
        some (.positionMismatch brokerPosition.symbol.asStr brokerPosition.quantity p.quantity)
  | none => none

/-- A recovered position the broker does not show. -/
def missingPosition (p : CurrentPosition) : Option Discrepancy :=
  if brokerPositions.any fun brokerPosition ↦ brokerPosition.symbol = p.symbol then none
  else some (.positionMismatch p.symbol.asStr 0 p.quantity)

def incompleteIntent (o : RecoveredOrder) : Option Discrepancy :=
  if o.incomplete then some (.incompleteIntent o.symbol.asStr o.clientOrderId) else none

def incompleteCall (k : Call) : Option Discrepancy :=
  if (st.call k).unfinished then some k.discrepancy else none

def discrepancies : List Discrepancy :=
  brokerOrders.filterMap (orphanOrder st) ++ st.orders.filterMap (missingOrder brokerOrders) ++
    brokerPositions.filterMap (positionMismatch st) ++
    st.positions.filterMap (missingPosition brokerPositions) ++
    st.orders.filterMap incompleteIntent ++
    [Call.positions, .quotes, .accountSummary, .cancel].filterMap (incompleteCall st)

end Compare

/-- The answers are taken as empty where a query fails. -/
def compareBrokerState (openOrders : OpenOrdersResponse) (positions : PositionsResponse)
    (st : RecoveredState) : DiscrepancyReport :=
  let found := discrepancies (openOrders.toOption.getD []) (positions.toOption.getD []) st
  ⟨found, !found.isEmpty⟩

/-! ## What an empty report means -/

/-- The quantity of a symbol at the broker. -/
def brokerQuantity (positions : List Position) (sym : Symbol) : Int64 :=
  ((positions.find? fun p ↦ p.symbol = sym).map Position.quantity).getD 0

/-- The recovered quantity of a symbol. -/
def recoveredQuantity (positions : List CurrentPosition) (sym : Symbol) : Int64 :=
  ((positions.find? fun p ↦ p.symbol = sym).map CurrentPosition.quantity).getD 0

/-- The scans of the comparison, each of which finds nothing. -/
structure Quiet (brokerOrders : List BrokerOrderStatus) (brokerPositions : List Position)
    (st : RecoveredState) : Prop where
  known : ∀ b ∈ brokerOrders, ∃ o ∈ st.orders, o.brokerId = b.id
  shown : ∀ o ∈ st.orders, o.submitted = true → o.filled = false →
    ∃ b ∈ brokerOrders, o.brokerId = b.id
  matching : ∀ b ∈ brokerPositions, ∀ p, (st.positions.find? fun p ↦ p.symbol = b.symbol) = some p →
    p.quantity = b.quantity
  present : ∀ p ∈ st.positions, ∃ b ∈ brokerPositions, b.symbol = p.symbol
  intents : ∀ o ∈ st.orders, o.incomplete = false
  calls : ∀ k, (st.call k).unfinished = false

/-- The broker answered, and its orders and positions are those that were recovered. -/
def Agrees (openOrders : OpenOrdersResponse) (positions : PositionsResponse) (st : RecoveredState) :
    Prop :=
  ∃ brokerOrders brokerPositions, openOrders = .ok brokerOrders ∧ positions = .ok brokerPositions ∧
    (∀ b ∈ brokerOrders, ∃ o ∈ st.orders, o.brokerId = b.id) ∧
    (∀ o ∈ st.orders, o.submitted = true → o.filled = false →
      ∃ b ∈ brokerOrders, o.brokerId = b.id) ∧
    ∀ sym, brokerQuantity brokerPositions sym = recoveredQuantity st.positions sym

/-- Both queries succeeded, and each symbol of which the broker has a quantity was recovered. -/
def Covered (openOrders : OpenOrdersResponse) (positions : PositionsResponse)
    (st : RecoveredState) :
    Prop :=
  ∃ brokerOrders brokerPositions, openOrders = .ok brokerOrders ∧ positions = .ok brokerPositions ∧
    ∀ sym, brokerQuantity brokerPositions sym ≠ 0 → ∃ p ∈ st.positions, p.symbol = sym

section Clean

variable {brokerOrders : List BrokerOrderStatus} {brokerPositions : List Position}
  {st : RecoveredState} {sym : Symbol}

theorem discrepancies_eq_nil_iff :
    discrepancies brokerOrders brokerPositions st = [] ↔ Quiet brokerOrders brokerPositions st := by
  simp only [discrepancies, List.append_eq_nil_iff, List.filterMap_eq_nil_iff]
  constructor
  · rintro ⟨⟨⟨⟨⟨horphan, hmissing⟩, hmismatch⟩, hposition⟩, hintent⟩, hcall⟩
    refine ⟨fun b hb ↦ ?_, fun o ho hsubmitted hfilled ↦ ?_, fun b hb p hp ↦ ?_, fun p hp ↦ ?_,
      fun o ho ↦ ?_, fun k ↦ ?_⟩
    · simpa [orphanOrder] using horphan b hb
    · simpa [missingOrder, RecoveredOrder.live, hsubmitted, hfilled] using hmissing o ho
    · simpa [positionMismatch, hp] using hmismatch b hb
    · simpa [missingPosition] using hposition p hp
    · simpa [incompleteIntent] using hintent o ho
    · have hk : k ∈ [Call.positions, .quotes, .accountSummary, .cancel] := by cases k <;> simp
      simpa [incompleteCall] using hcall k hk
  · intro h
    refine ⟨⟨⟨⟨⟨fun b hb ↦ ?_, fun o ho ↦ ?_⟩, fun b hb ↦ ?_⟩, fun p hp ↦ ?_⟩, fun o ho ↦ ?_⟩,
      fun k _ ↦ ?_⟩
    · simpa [orphanOrder] using h.known b hb
    · by_cases hlive : o.live = true
      · obtain ⟨hsubmitted, hfilled⟩ := by simpa [RecoveredOrder.live] using hlive
        simpa [missingOrder, hlive] using h.shown o ho hsubmitted hfilled
      · simp [missingOrder, hlive]
    · simp only [positionMismatch]
      split
      · next p hp => rw [if_pos (h.matching b hb p hp)]
      · rfl
    · simpa [missingPosition] using h.present p hp
    · simpa [incompleteIntent] using h.intents o ho
    · simpa [incompleteCall] using h.calls k

theorem recoveredQuantity_of_notMem {positions : List CurrentPosition}
    (h : ¬ ∃ p ∈ positions, p.symbol = sym) : recoveredQuantity positions sym = 0 := by
  have hnone : (positions.find? fun p ↦ p.symbol = sym) = none := by
    rw [List.find?_eq_none]
    exact fun p hp heq ↦ h ⟨p, hp, of_decide_eq_true heq⟩
  rw [recoveredQuantity, hnone]
  rfl

/-- Where the scans find nothing, a symbol that was recovered has the same quantity at the
broker. -/
theorem Quiet.quantity_eq (h : Quiet brokerOrders brokerPositions st)
    (hmem : ∃ p ∈ st.positions, p.symbol = sym) :
    brokerQuantity brokerPositions sym = recoveredQuantity st.positions sym := by
  obtain ⟨p, hp, rfl⟩ := hmem
  obtain ⟨b, hb, hsym⟩ := h.present p hp
  obtain ⟨b', hb'⟩ := Option.isSome_iff_exists.mp
    (List.find?_isSome.mpr ⟨b, hb, decide_eq_true hsym⟩ :
      (brokerPositions.find? fun b ↦ b.symbol = p.symbol).isSome = true)
  obtain ⟨p', hp'⟩ := Option.isSome_iff_exists.mp
    (List.find?_isSome.mpr ⟨p, hp, decide_eq_true rfl⟩ :
      (st.positions.find? fun p' ↦ p'.symbol = p.symbol).isSome = true)
  have hsym' : b'.symbol = p.symbol := by simpa using List.find?_some hb'
  have hquantity := h.matching b' (List.mem_of_find?_eq_some hb') p' (by rw [hsym']; exact hp')
  rw [brokerQuantity, recoveredQuantity, hb', hp', Option.map_some, Option.map_some,
    Option.getD_some, Option.getD_some, hquantity]

/-- Where the scans find nothing, agreement is what they do not look at. -/
theorem agrees_iff_covered {openOrders : OpenOrdersResponse} {positions : PositionsResponse}
    (h : Quiet (openOrders.toOption.getD []) (positions.toOption.getD []) st) :
    Agrees openOrders positions st ↔ Covered openOrders positions st := by
  constructor
  · rintro ⟨brokerOrders, brokerPositions, rfl, rfl, -, -, hquantity⟩
    refine ⟨brokerOrders, brokerPositions, rfl, rfl, fun sym hne ↦ ?_⟩
    by_contra hnone
    exact hne ((hquantity sym).trans (recoveredQuantity_of_notMem hnone))
  · rintro ⟨brokerOrders, brokerPositions, rfl, rfl, hcovered⟩
    refine ⟨brokerOrders, brokerPositions, rfl, rfl, h.known, h.shown, fun sym ↦ ?_⟩
    by_cases hmem : ∃ p ∈ st.positions, p.symbol = sym
    · exact h.quantity_eq hmem
    · rw [recoveredQuantity_of_notMem hmem]
      by_contra hne
      exact hmem (hcovered sym hne)

/-- For every recovered state and every answer to the two queries, that the comparison has no issue
means agreement with the broker exactly if one of the scans finds something, or both queries succeed
and each symbol of which the broker has a quantity was recovered. -/
theorem compareBrokerState_clean_iff (openOrders : OpenOrdersResponse)
    (positions : PositionsResponse) (st : RecoveredState) :
    ((compareBrokerState openOrders positions st).hasCriticalIssues = false →
        Agrees openOrders positions st) ↔
      (Quiet (openOrders.toOption.getD []) (positions.toOption.getD []) st →
        Covered openOrders positions st) := by
  have hclean : (compareBrokerState openOrders positions st).hasCriticalIssues = false ↔
      Quiet (openOrders.toOption.getD []) (positions.toOption.getD []) st := by
    rw [← discrepancies_eq_nil_iff, ← List.isEmpty_iff]
    simp [compareBrokerState]
  rw [hclean]
  exact imp_congr_right fun h ↦ agrees_iff_covered h

/-- A broker that cannot be reached has no issues. -/
theorem compareBrokerState_disconnected :
    (compareBrokerState (.error .notConnected) (.error .notConnected)
      (.new 0)).hasCriticalIssues = false ∧
    ¬ Agrees (.error .notConnected) (.error .notConnected) (.new 0) := by
  refine ⟨rfl, ?_⟩
  rintro ⟨brokerOrders, brokerPositions, h, -⟩
  cases h

end Clean

/-! ## Calls that were not answered -/

/-- No result of a call comes after its last intent. -/
def LastIntentOpen (events : List AuditEvent) (k : Call) : Prop :=
  ∃ before e after, events = before ++ e :: after ∧ e.checkpoint = some k.intent ∧
    ∀ e' ∈ after, e'.checkpoint ≠ some k.intent ∧ e'.checkpoint ≠ some k.result

section Calls

variable {events : List AuditEvent} {e : AuditEvent} {k : Call}

theorem lastIntentOpen_concat : LastIntentOpen (events ++ [e]) k ↔
    if e.checkpoint = some k.intent then True
    else if e.checkpoint = some k.result then False else LastIntentOpen events k := by
  split_ifs with hintent hresult
  · exact iff_true_intro ⟨events, e, [], rfl, hintent, by simp⟩
  · refine iff_false_intro ?_
    rintro ⟨before, e', after, heq, he', hafter⟩
    cases after using List.reverseRecOn with
    | nil =>
        obtain ⟨-, hlast⟩ := List.append_inj' heq rfl
        cases hlast
        exact hintent he'
    | append_singleton after last _ =>
        rw [← List.cons_append, ← List.append_assoc] at heq
        obtain ⟨-, hlast⟩ := List.append_inj' heq rfl
        cases hlast
        exact (hafter e (by simp)).2 hresult
  · constructor
    · rintro ⟨before, e', after, heq, he', hafter⟩
      cases after using List.reverseRecOn with
      | nil =>
          obtain ⟨-, hlast⟩ := List.append_inj' heq rfl
          cases hlast
          exact absurd he' hintent
      | append_singleton after last _ =>
          rw [← List.cons_append, ← List.append_assoc] at heq
          obtain ⟨rfl, -⟩ := List.append_inj' heq rfl
          exact ⟨before, e', after, rfl, he', fun x hx ↦ hafter x (List.mem_append_left _ hx)⟩
    · rintro ⟨before, e', after, rfl, he', hafter⟩
      refine ⟨before, e', after ++ [e], by simp, he', fun x hx ↦ ?_⟩
      rcases List.mem_append.mp hx with hx | hx
      · exact hafter x hx
      · obtain rfl := List.mem_singleton.mp hx
        exact ⟨hintent, hresult⟩

theorem mem_checkpointSequences_of_lastSequence {c : Checkpoint} {n : Nat}
    (h : lastSequence events c = some n) : n ∈ checkpointSequences events := by
  obtain ⟨e, he, hn⟩ := Option.bind_eq_some_iff.mp h
  have hmem := List.mem_filter.mp (List.mem_of_getLast? he)
  refine List.mem_filterMap.mpr ⟨e, hmem.1, ?_⟩
  rw [checkpointSequence_of_checkpoint (of_decide_eq_true hmem.2), hn]

/-- In a log whose numbers increase, the comparison of the last numbers says which comes last. -/
theorem unanswered_iff_lastIntentOpen (h : Increasing events) :
    Unanswered events k ↔ LastIntentOpen events k := by
  have hne : k.intent ≠ k.result := by cases k <;> decide
  induction events using List.reverseRecOn with
  | nil => simp [Unanswered, lastSequence, LastIntentOpen]
  | append_singleton events e ih =>
      obtain ⟨hevents, hlast⟩ := increasing_concat_iff.mp h
      have ih : Unanswered events k ↔ LastIntentOpen events k := ih hevents
      rw [lastIntentOpen_concat, ← ih, Unanswered, lastSequence_concat, lastSequence_concat]
      by_cases hintent : e.checkpoint = some k.intent
      · obtain ⟨n, hn, hlt⟩ := hlast (by rw [hintent]; rfl)
        have hresult : e.checkpoint ≠ some k.result := by
          rw [hintent]
          exact fun heq ↦ hne (Option.some.inj heq)
        rw [if_pos hintent, if_neg hresult, if_pos hintent, hn]
        exact iff_true_intro ⟨n, rfl, fun r hr ↦ hlt r (mem_checkpointSequences_of_lastSequence hr)⟩
      · rw [if_neg hintent, if_neg hintent]
        by_cases hresult : e.checkpoint = some k.result
        · obtain ⟨n, hn, hlt⟩ := hlast (by rw [hresult]; rfl)
          rw [if_pos hresult, if_pos hresult, hn]
          refine iff_false_intro ?_
          rintro ⟨i, hi, hr⟩
          exact absurd (hr n rfl) (hlt i (mem_checkpointSequences_of_lastSequence hi)).le.not_gt
        · rw [if_neg hresult, if_neg hresult]
          rfl

/-- What is logged of a call, whatever the order. -/
theorem logged_reconstruct (now : Timestamp) (events : List AuditEvent) (k : Call) :
    (((reconstruct now events).call k).intentLogged = true ↔
        ∃ e ∈ events, e.checkpoint = some k.intent) ∧
      (((reconstruct now events).call k).resultLogged = true ↔
        ∃ e ∈ events, e.checkpoint = some k.result) := by
  have hne : k.intent ≠ k.result := by cases k <;> decide
  induction events using List.reverseRecOn with
  | nil => cases k <;> simp [reconstruct, RecoveredState.new, RecoveredState.call, CallLog.new]
  | append_singleton events e ih =>
      have h := congrArg (fun p ↦ p.2.1 k)
        (RecoveredState.progress_applyEvent (reconstruct now events) e)
      simp only [RecoveredState.progress] at h
      rw [reconstruct_concat, h]
      by_cases hi : e.checkpoint = some k.intent
      · simp [hi, hne, CallLog.intent, ih.2, or_and_right, exists_or]
      by_cases hr : e.checkpoint = some k.result
      · simp [hr, hne.symm, CallLog.result, ih.1, or_and_right, exists_or]
      · simp [hi, hr, ih, or_and_right, exists_or]

theorem unfinished_reconstruct (now : Timestamp) (events : List AuditEvent) (k : Call) :
    ((reconstruct now events).call k).unfinished = true ↔
      (∃ e ∈ events, e.checkpoint = some k.intent) ∧
        ∀ e ∈ events, e.checkpoint ≠ some k.result := by
  obtain ⟨hintent, hresult⟩ := logged_reconstruct now events k
  rw [CallLog.unfinished, Bool.and_eq_true, Bool.not_eq_true', hintent, ← Bool.not_eq_true, hresult]
  simp

/-- An intent in a log without results is followed by none. -/
theorem lastIntentOpen_of_unfinished (hintent : ∃ e ∈ events, e.checkpoint = some k.intent)
    (hresult : ∀ e ∈ events, e.checkpoint ≠ some k.result) : LastIntentOpen events k := by
  induction events using List.reverseRecOn with
  | nil => simp at hintent
  | append_singleton events e ih =>
      rw [lastIntentOpen_concat, if_neg (hresult e (by simp))]
      by_cases he : e.checkpoint = some k.intent
      · exact (if_pos he).mpr trivial
      · rw [if_neg he]
        obtain ⟨e', he', hintent'⟩ := hintent
        rcases List.mem_append.mp he' with he' | he'
        · exact ih ⟨e', he', hintent'⟩ fun x hx ↦ hresult x (List.mem_append_left _ hx)
        · obtain rfl := List.mem_singleton.mp he'
          exact absurd hintent' he

/-- A call is reported by its own kind of discrepancy, and by nothing else. -/
theorem discrepancy_mem_iff (openOrders : OpenOrdersResponse) (positions : PositionsResponse)
    (st : RecoveredState) (k : Call) :
    k.discrepancy ∈ (compareBrokerState openOrders positions st).discrepancies ↔
      (st.call k).unfinished = true := by
  have horphan : ∀ b, orphanOrder st b ≠ some k.discrepancy := by
    intro b
    simp only [orphanOrder]
    split_ifs <;> cases k <;> simp [Call.discrepancy]
  have hmissing : ∀ bs o, missingOrder bs o ≠ some k.discrepancy := by
    intro bs o
    simp only [missingOrder]
    split_ifs <;> cases k <;> simp [Call.discrepancy]
  have hmismatch : ∀ b, positionMismatch st b ≠ some k.discrepancy := by
    intro b
    simp only [positionMismatch]
    split
    · split_ifs <;> cases k <;> simp [Call.discrepancy]
    · simp
  have hposition : ∀ bs p, missingPosition bs p ≠ some k.discrepancy := by
    intro bs p
    simp only [missingPosition]
    split_ifs <;> cases k <;> simp [Call.discrepancy]
  have hintent : ∀ o, incompleteIntent o ≠ some k.discrepancy := by
    intro o
    simp only [incompleteIntent]
    split_ifs <;> cases k <;> simp [Call.discrepancy]
  have hcall : ∀ j, incompleteCall st j = some k.discrepancy ↔
      j = k ∧ (st.call k).unfinished = true := by
    intro j
    simp only [incompleteCall]
    constructor
    · intro h
      split_ifs at h with hj
      have : j = k := by
        cases j <;> cases k <;> first | rfl | simp [Call.discrepancy] at h
      exact this ▸ ⟨rfl, hj⟩
    · rintro ⟨rfl, hj⟩
      rw [if_pos hj]
  have hall : k ∈ [Call.positions, .quotes, .accountSummary, .cancel] := by cases k <;> simp
  simp only [compareBrokerState, discrepancies, List.mem_append, List.mem_filterMap, horphan,
    hmissing, hmismatch, hposition, hintent, hcall, and_false, exists_false, false_or]
  exact ⟨fun ⟨_, _, _, h⟩ ↦ h, fun h ↦ ⟨k, hall, rfl, h⟩⟩

/-- For every log whose checkpoint numbers increase, the comparison reports exactly the calls whose
last intent no result follows, which are those the recommended action takes for unanswered, exactly
if for none of these calls any result was logged before. -/
theorem incompleteCalls_agree_iff (now : Timestamp) (openOrders : OpenOrdersResponse)
    (positions : PositionsResponse) (h : Increasing events) :
    (∀ k : Call, (k.discrepancy ∈
          (compareBrokerState openOrders positions (reconstruct now events)).discrepancies ↔
        LastIntentOpen events k) ∧
      (LastIntentOpen events k ↔ ((reconstruct now events).call k).incomplete = true)) ↔
      ∀ k : Call, LastIntentOpen events k → ∀ e ∈ events, e.checkpoint ≠ some k.result := by
  refine forall_congr' fun k ↦ ?_
  rw [discrepancy_mem_iff, unfinished_reconstruct, incomplete_reconstruct,
    unanswered_iff_lastIntentOpen h, iff_true_intro (Iff.refl (LastIntentOpen events k)), and_true]
  constructor
  · exact fun heq hopen ↦ (heq.mpr hopen).2
  · refine fun hnone ↦ ⟨fun ⟨hintent, hresult⟩ ↦ lastIntentOpen_of_unfinished hintent hresult,
      fun hopen ↦ ⟨?_, hnone hopen⟩⟩
    obtain ⟨before, e, after, rfl, he, -⟩ := hopen
    exact ⟨e, by simp, he⟩

/-- Positions that are fetched, and a second fetch that is not answered. -/
def refetched : List AuditEvent :=
  [bareEvent .positionsIntent 1, bareEvent .positionsResult 2, bareEvent .positionsIntent 3]

theorem increasing_refetched : Increasing refetched where
  numbered := by decide
  sorted := by decide

/-- The second fetch is not reported. -/
theorem incompleteCalls_refetched :
    Increasing refetched ∧ LastIntentOpen refetched .positions ∧
    Call.positions.discrepancy ∉
      (compareBrokerState (.ok []) (.ok []) (reconstruct 0 refetched)).discrepancies := by
  refine ⟨increasing_refetched, ?_, by decide +kernel⟩
  exact ⟨[bareEvent .positionsIntent 1, bareEvent .positionsResult 2],
    bareEvent .positionsIntent 3, [], rfl, by decide, by simp⟩

/-- A first fetch that is not answered is. -/
theorem incompleteCalls_agree_first :
    (Call.positions.discrepancy ∈ (compareBrokerState (.ok []) (.ok [])
        (reconstruct 0 [bareEvent .positionsIntent 1])).discrepancies ↔
      LastIntentOpen [bareEvent .positionsIntent 1] .positions) ∧
    (LastIntentOpen [bareEvent .positionsIntent 1] .positions ↔
      ((reconstruct 0 [bareEvent .positionsIntent 1]).call .positions).incomplete = true) := by
  have hincreasing : Increasing [bareEvent .positionsIntent 1] := ⟨by decide, by decide⟩
  have hagree := (incompleteCalls_agree_iff 0 (.ok []) (.ok []) hincreasing).mpr fun k _ e he ↦ by
    obtain rfl := List.mem_singleton.mp he
    cases k <;> decide
  exact hagree .positions

end Calls

end Nanobook.Rebalancer
