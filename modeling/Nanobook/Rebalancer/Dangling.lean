import Nanobook.Lib.Keyed
import Nanobook.Rebalancer.Log

/-!
# Dangling orders

`verify_no_dangling_orders`: submissions and fills are collected over the whole log, each submission
under its broker id, and what is submitted under an id that is nowhere filled is reported.  Over
many runs that is not what is still to be filled.
-/

namespace Nanobook.Rebalancer

/-! ## The scan -/

/-- An order that may still be active. -/
structure DanglingOrder where
  symbol : String
  ibkrId : Int32
  action : String
  shares : Int64
  limitPriceCents : Int64
  timestamp : Timestamp
deriving DecidableEq

/-- What was read so far: the submitted orders by their id, and the filled ids. -/
structure DanglingScan where
  submittedOrders : List DanglingOrder
  filledOrderIds : List Int32

/-- The id of an event, with a default. -/
def readIbkrId (data : Json) : Int32 :=
  (((data.get "ibkr_id").bind Json.asI64).getD 0).toInt32

/-- A submission, with a default for whatever is missing.  The limit is taken as it is. -/
def readSubmission (e : AuditEvent) : DanglingOrder where
  symbol := ((e.data.get "symbol").bind Json.asStr).getD "unknown"
  ibkrId := readIbkrId e.data
  action := ((e.data.get "action").bind Json.asStr).getD "unknown"
  shares := ((e.data.get "shares").bind Json.asI64).getD 0
  limitPriceCents := castI64 (((e.data.get "limit").bind Json.asF64).getD 0)
  timestamp := e.ts

def DanglingScan.read (scan : DanglingScan) (e : AuditEvent) : DanglingScan :=
  if e.event = "order_submitted" then
    { scan with
      submittedOrders :=
        Keyed.insert DanglingOrder.ibkrId scan.submittedOrders (readSubmission e) }
  else if e.event = "order_filled" then
    { scan with filledOrderIds := readIbkrId e.data :: scan.filledOrderIds }
  else scan

/-- The order of the result is that of a hash map, and so not to be relied on. -/
def verifyNoDanglingOrders (events : List AuditEvent) : List DanglingOrder :=
  let scan := events.foldl DanglingScan.read ⟨[], []⟩
  scan.submittedOrders.filter fun o ↦ o.ibkrId ∉ scan.filledOrderIds

/-! ## What runs log -/

/-- A line of a run: a submission, the result of an order, or something else. -/
inductive RunLine where
  | submitted (ts : Timestamp) (sequenceNumber : Option Nat) (order : RebalanceOrder)
      (ibkrId : Int32)
  | filled (ts : Timestamp) (sequenceNumber : Option Nat) (result : OrderResult)
  | other (e : AuditEvent) (h : e.event ≠ "order_submitted" ∧ e.event ≠ "order_filled")

namespace RunLine

variable (div : CentDivision)

def toEvent : RunLine → AuditEvent
  | submitted ts n order ibkrId =>
      ⟨"order_submitted", ts, n, none, orderSubmittedData div order ibkrId⟩
  | filled ts n result => ⟨"order_filled", ts, n, none, orderFilledData result⟩
  | other e _ => e

/-- The submission of a line, as it is read. -/
def submission : RunLine → Option DanglingOrder
  | submitted ts n order ibkrId => some (readSubmission (toEvent div (submitted ts n order ibkrId)))
  | filled _ _ _ | other _ _ => none

def filledId : RunLine → Option Int32
  | filled _ _ result => some result.orderId
  | submitted _ _ _ _ | other _ _ => none

/-- A result of an order with an id. -/
def isFillOf (ibkrId : Int32) : RunLine → Bool
  | filled _ _ result => result.orderId = ibkrId
  | submitted _ _ _ _ | other _ _ => false

/-- A result that says that the order with an id was filled. -/
def isFullFillOf (ibkrId : Int32) : RunLine → Bool
  | filled _ _ result => result.orderId = ibkrId ∧ result.status = .filled
  | submitted _ _ _ _ | other _ _ => false

def isSubmissionOf (ibkrId : Int32) : RunLine → Bool
  | submitted _ _ _ id => id = ibkrId
  | filled _ _ _ | other _ _ => false

end RunLine

/-- An order as it was submitted. -/
def submittedOrder (ts : Timestamp) (order : RebalanceOrder) (ibkrId : Int32) : DanglingOrder where
  symbol := order.symbol.asStr
  ibkrId := ibkrId
  action := order.action.toText
  shares := order.shares
  limitPriceCents := order.limitPriceCents
  timestamp := ts

/-- The submissions after which no result says that their order was filled. -/
def unfilled : List RunLine → List DanglingOrder
  | [] => []
  | .submitted ts _ order ibkrId :: rest =>
      if rest.any (RunLine.isFullFillOf ibkrId) then unfilled rest
      else submittedOrder ts order ibkrId :: unfilled rest
  | .filled _ _ _ :: rest => unfilled rest
  | .other _ _ :: rest => unfilled rest

section Scan

variable (div : CentDivision)

theorem readIbkrId_orderFilledData (result : OrderResult) :
    readIbkrId (orderFilledData result) = result.orderId := by
  simp [readIbkrId, orderFilledData, Json.get, List.lookup_cons]

/-- Everything is read back but the limit. -/
theorem readSubmission_submitted (ts : Timestamp) (n : Option Nat) (order : RebalanceOrder)
    (ibkrId : Int32) : readSubmission (RunLine.toEvent div (.submitted ts n order ibkrId)) =
      { submittedOrder ts order ibkrId with
        limitPriceCents := castI64 (div.dollars order.limitPriceCents) } := by
  simp [readSubmission, readIbkrId, RunLine.toEvent, submittedOrder, orderSubmittedData, Json.get,
    List.lookup_cons]

theorem readSubmission_eq_iff (ts : Timestamp) (n : Option Nat) (order : RebalanceOrder)
    (ibkrId : Int32) : readSubmission (RunLine.toEvent div (.submitted ts n order ibkrId)) =
      submittedOrder ts order ibkrId ↔ order.limitPriceCents = 0 := by
  rw [readSubmission_submitted, ← div.castI64_dollars]
  simp [submittedOrder]

/-- The scan is an insertion of the submissions, beside a list of the filled ids. -/
theorem foldl_read (lines : List RunLine) (scan : DanglingScan) :
    (lines.map (RunLine.toEvent div)).foldl DanglingScan.read scan =
      ⟨(lines.filterMap (RunLine.submission div)).foldl (Keyed.insert DanglingOrder.ibkrId)
          scan.submittedOrders,
        (lines.filterMap RunLine.filledId).reverse ++ scan.filledOrderIds⟩ := by
  induction lines generalizing scan with
  | nil => rfl
  | cons line lines ih =>
      cases line with
      | submitted ts n order ibkrId =>
          rw [List.map_cons, List.foldl_cons, ih]
          simp [DanglingScan.read, RunLine.toEvent, RunLine.submission, RunLine.filledId,
            List.filterMap_cons]
      | filled ts n result =>
          rw [List.map_cons, List.foldl_cons, ih]
          simp [DanglingScan.read, RunLine.toEvent, RunLine.submission, RunLine.filledId,
            readIbkrId_orderFilledData, List.filterMap_cons]
      | other e h =>
          rw [List.map_cons, List.foldl_cons, ih]
          simp [DanglingScan.read, RunLine.toEvent, RunLine.submission, RunLine.filledId, h.1, h.2,
            List.filterMap_cons]

theorem verifyNoDanglingOrders_map (lines : List RunLine) :
    verifyNoDanglingOrders (lines.map (RunLine.toEvent div)) =
      (Keyed.lastOfEach DanglingOrder.ibkrId (lines.filterMap (RunLine.submission div))).filter
        fun o ↦ o.ibkrId ∉ lines.filterMap RunLine.filledId := by
  simp only [verifyNoDanglingOrders, foldl_read, Keyed.foldl_insert, List.filter_nil,
    List.nil_append, List.append_nil, List.mem_reverse]

end Scan

/-! ## What is reported and what is unfilled -/

section Exact

variable {div : CentDivision} {lines before after rest : List RunLine}

theorem mem_filledId_iff {ibkrId : Int32} :
    ibkrId ∈ lines.filterMap RunLine.filledId ↔ lines.any (RunLine.isFillOf ibkrId) = true := by
  rw [List.mem_filterMap, List.any_eq_true]
  refine exists_congr fun line ↦ and_congr_right fun _ ↦ ?_
  cases line <;> simp [RunLine.filledId, RunLine.isFillOf]

theorem mem_submission_iff {ibkrId : Int32} :
    ibkrId ∈ (lines.filterMap (RunLine.submission div)).map DanglingOrder.ibkrId ↔
      lines.any (RunLine.isSubmissionOf ibkrId) = true := by
  simp only [List.mem_map, List.mem_filterMap, List.any_eq_true]
  constructor
  · rintro ⟨o, ⟨line, hline, ho⟩, rfl⟩
    refine ⟨line, hline, ?_⟩
    cases line with
    | submitted ts n order ibkrId =>
        cases ho
        simp [RunLine.isSubmissionOf, readSubmission_submitted, submittedOrder]
    | filled ts n result => cases ho
    | other e h => cases ho
  · rintro ⟨line, hline, h⟩
    cases line with
    | submitted ts n order id =>
        refine ⟨_, ⟨_, hline, rfl⟩, ?_⟩
        rw [readSubmission_submitted]
        simpa [RunLine.isSubmissionOf, submittedOrder] using h
    | filled ts n result => cases h
    | other e h' => cases h

/-- A full fill is a fill. -/
theorem any_isFillOf_of_any_isFullFillOf {ibkrId : Int32}
    (h : lines.any (RunLine.isFullFillOf ibkrId) = true) :
    lines.any (RunLine.isFillOf ibkrId) = true := by
  obtain ⟨line, hline, hfill⟩ := List.any_eq_true.mp h
  refine List.any_eq_true.mpr ⟨line, hline, ?_⟩
  cases line with
  | filled ts n result =>
      simp only [RunLine.isFullFillOf, Bool.decide_and, Bool.and_eq_true] at hfill
      exact hfill.1
  | submitted ts n order id => cases hfill
  | other e h' => cases hfill

/-- Whatever may be reported for a submission that is not followed by its fill: no result was logged
under its id, earlier or with another status, the id is not used again, and there is no limit. -/
def ReportedExactly (lines : List RunLine) : Prop :=
  ∀ before ts n order ibkrId after, lines = before ++ .submitted ts n order ibkrId :: after →
    after.any (RunLine.isFullFillOf ibkrId) = false →
    lines.any (RunLine.isFillOf ibkrId) = false ∧
      after.any (RunLine.isSubmissionOf ibkrId) = false ∧ order.limitPriceCents = 0

/-- From some line on, what is reported is what is unfilled. -/
theorem filter_lastOfEach_eq_unfilled (h : ReportedExactly lines)
    (hlines : lines = before ++ rest) :
    (Keyed.lastOfEach DanglingOrder.ibkrId (rest.filterMap (RunLine.submission div))).filter
      (fun o ↦ o.ibkrId ∉ lines.filterMap RunLine.filledId) = unfilled rest := by
  induction rest generalizing before with
  | nil => rfl
  | cons line rest ih =>
      have ih := ih (hlines.trans (List.append_cons before line rest))
      cases line with
      | filled ts n result => exact ih
      | other e h' => exact ih
      | submitted ts n order ibkrId =>
          set o := readSubmission (RunLine.toEvent div (.submitted ts n order ibkrId)) with ho
          have hid : o.ibkrId = ibkrId := by rw [ho, readSubmission_submitted]; rfl
          have hcons : (RunLine.submitted ts n order ibkrId :: rest).filterMap
              (RunLine.submission div) = o :: rest.filterMap (RunLine.submission div) :=
            List.filterMap_cons_some rfl
          rw [hcons]
          cases hfull : rest.any (RunLine.isFullFillOf ibkrId) with
          | true =>
              -- the id is among the filled ones, whether or not it is submitted again
              have hfilled : o.ibkrId ∈ lines.filterMap RunLine.filledId := by
                have hfill := any_isFillOf_of_any_isFullFillOf hfull
                rw [hid, mem_filledId_iff, hlines, List.any_append, List.any_cons, hfill,
                  Bool.or_true, Bool.or_true]
              rw [unfilled, hfull, if_pos rfl, ← ih]
              by_cases hagain : o.ibkrId ∈ (rest.filterMap (RunLine.submission div)).map
                  DanglingOrder.ibkrId
              · rw [Keyed.lastOfEach_of_mem hagain]
              · rw [Keyed.lastOfEach_of_notMem hagain,
                  List.filter_cons_of_neg (by simpa using hfilled)]
          | false =>
              obtain ⟨hfill, hagain, hlimit⟩ := h before ts n order ibkrId rest hlines hfull
              have hnew : o.ibkrId ∉ (rest.filterMap (RunLine.submission div)).map
                  DanglingOrder.ibkrId := by
                rw [hid, mem_submission_iff, hagain]
                exact Bool.false_ne_true
              have hopen : o.ibkrId ∉ lines.filterMap RunLine.filledId := by
                rw [hid, mem_filledId_iff, hfill]
                exact Bool.false_ne_true
              rw [unfilled, hfull, if_neg Bool.false_ne_true, Keyed.lastOfEach_of_notMem hnew,
                List.filter_cons_of_pos (by simpa using hopen), ih,
                ho.trans ((readSubmission_eq_iff div ts n order ibkrId).mpr hlimit)]

/-- A submission with no fill after it is unfilled. -/
theorem mem_unfilled {ts : Timestamp} {n : Option Nat} {order : RebalanceOrder} {ibkrId : Int32}
    (hlines : lines = before ++ .submitted ts n order ibkrId :: after)
    (hfull : after.any (RunLine.isFullFillOf ibkrId) = false) :
    ∃ earlier, unfilled lines = earlier ++ submittedOrder ts order ibkrId :: unfilled after := by
  induction before generalizing lines with
  | nil =>
      subst hlines
      exact ⟨[], by rw [List.nil_append, unfilled, hfull]; rfl⟩
  | cons line before ih =>
      obtain ⟨earlier, hearlier⟩ := ih rfl
      subst hlines
      rw [List.cons_append]
      cases line with
      | filled ts n result => exact ⟨earlier, hearlier⟩
      | other e h => exact ⟨earlier, hearlier⟩
      | submitted ts' n' order' ibkrId' =>
          rw [unfilled, hearlier]
          split_ifs
          · exact ⟨earlier, rfl⟩
          · exact ⟨submittedOrder ts' order' ibkrId' :: earlier, rfl⟩

/-- For every log of submissions, results and other lines, the orders that are reported are the
submissions that no full fill of their id follows, each as it was submitted, exactly if for every
such submission no result at all was logged under its id, the id is not submitted again later, and
the order has no limit. -/
theorem verifyNoDanglingOrders_exact_iff (div : CentDivision) (lines : List RunLine) :
    (verifyNoDanglingOrders (lines.map (RunLine.toEvent div))).Perm (unfilled lines) ↔
      ReportedExactly lines := by
  rw [verifyNoDanglingOrders_map]
  constructor
  · intro hperm before ts n order ibkrId after hlines hfull
    obtain ⟨earlier, hunfilled⟩ := mem_unfilled hlines hfull
    have hmem : submittedOrder ts order ibkrId ∈ unfilled lines := by
      rw [hunfilled]
      exact List.mem_append_right _ List.mem_cons_self
    obtain ⟨hlast, hopen⟩ := List.mem_filter.mp (hperm.mem_iff.mpr hmem)
    have hfill : lines.any (RunLine.isFillOf ibkrId) = false := by
      rw [← Bool.not_eq_true, ← mem_filledId_iff]
      exact of_decide_eq_true hopen
    have hnodup : ((unfilled lines).map DanglingOrder.ibkrId).Nodup := by
      refine (hperm.map _).nodup_iff.mp ?_
      exact (List.filter_sublist.map _).nodup Keyed.nodup_lastOfEach
    have hagain : after.any (RunLine.isSubmissionOf ibkrId) = false := by
      -- a later submission under the id would be unfilled as well
      by_contra hagain
      obtain ⟨line, hline, hsub⟩ := List.any_eq_true.mp (Bool.eq_true_of_not_eq_false hagain)
      cases line with
      | filled ts n result => cases hsub
      | other e h => cases hsub
      | submitted ts' n' order' ibkrId' =>
          obtain rfl : ibkrId' = ibkrId := of_decide_eq_true hsub
          obtain ⟨between, later, rfl⟩ := List.append_of_mem hline
          have hfull' : later.any (RunLine.isFullFillOf ibkrId') = false := by
            rw [List.any_append, List.any_cons] at hfull
            simp only [Bool.or_eq_false_iff] at hfull
            exact hfull.2.2
          obtain ⟨earlier', hunfilled'⟩ := mem_unfilled rfl hfull'
          rw [hunfilled, hunfilled', List.map_append, List.map_cons, List.map_append,
            List.map_cons] at hnodup
          have hcons := (List.nodup_append.mp hnodup).2.1
          exact (List.nodup_cons.mp hcons).1 (List.mem_append_right _ List.mem_cons_self)
    refine ⟨hfill, hagain, ?_⟩
    -- the submission itself is the last under its id
    set o := readSubmission (RunLine.toEvent div (.submitted ts n order ibkrId)) with ho
    have hid : o.ibkrId = ibkrId := by rw [ho, readSubmission_submitted]; rfl
    have hsub : lines.filterMap (RunLine.submission div) =
        before.filterMap (RunLine.submission div) ++
          o :: after.filterMap (RunLine.submission div) := by
      rw [hlines, List.filterMap_append]
      exact congrArg _ (List.filterMap_cons_some rfl)
    have hself : o ∈ Keyed.lastOfEach DanglingOrder.ibkrId
        (lines.filterMap (RunLine.submission div)) := by
      rw [hsub]
      refine Keyed.mem_lastOfEach ?_
      rw [hid, mem_submission_iff, hagain]
      exact Bool.false_ne_true
    exact (readSubmission_eq_iff div ts n order ibkrId).mp
      (Keyed.eq_of_mem_lastOfEach hself hlast hid)
  · intro h
    exact List.Perm.of_eq (filter_lastOfEach_eq_unfilled h (List.nil_append lines).symm)

end Exact

/-! ## A partial fill -/

/-- An order for 10 shares of which 4 are filled. -/
def partialFillLines : List RunLine :=
  [.submitted 0 (some 4) (buyAapl 0).order 7,
    .filled 0 (some 5) ⟨(buyAapl 0).order.symbol, 7, 4, 150, 1, .partialFill⟩]

/-- An order that is still open for 6 shares is not reported. -/
theorem verifyNoDanglingOrders_partialFill :
    verifyNoDanglingOrders (partialFillLines.map (RunLine.toEvent .exact)) = [] ∧
    (unfilled partialFillLines).map DanglingOrder.ibkrId = [7] ∧
    ¬ (verifyNoDanglingOrders (partialFillLines.map (RunLine.toEvent .exact))).Perm
      (unfilled partialFillLines) := by
  have hnone : verifyNoDanglingOrders (partialFillLines.map (RunLine.toEvent .exact)) = [] := by
    decide +kernel
  refine ⟨hnone, rfl, ?_⟩
  rw [hnone]
  exact fun h ↦ absurd h.length_eq (by decide)

end Nanobook.Rebalancer
