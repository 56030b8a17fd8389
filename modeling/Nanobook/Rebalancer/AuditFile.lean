import Nanobook.Lib.Objects
import Nanobook.Persistence
import Nanobook.Rebalancer.Dangling
import Nanobook.Rebalancer.Sequence

/-!
# The file of the audit log

The log is a file that one process after the other appends to, one JSON object a line, and a process
may be stopped within a line; what the next one writes then goes on behind it.  A run reads the file
with `parse_audit_events_from_str`, which refuses it for a line that it cannot read.  A kill looks
for dangling orders in it and passes over such a line.

`SerdeJson` stands for `serde_json`.
-/

namespace Nanobook.Rebalancer

open Persistence (SerdeJson)

/-- The text of an event is an object in one line that begins with the name of the event, and
nothing but an object is read as an event. -/
structure AuditJson (json : SerdeJson AuditEvent) : Prop where
  entry : ∀ e s, json.toString e = .ok s → Objects.Entry s.toList
  unbroken : ∀ e s, json.toString e = .ok s → Lines.Unbroken s.toList
  object : ∀ s e, json.fromStr s = .ok e → Objects.IsObject s.toList

/-! ## Reading -/

section Readers

variable (json : SerdeJson AuditEvent)

/-- The text of the error for a line. -/
def corruptedAt (line : Nat) : String :=
  "Corrupted audit log at line " ++ toString line ++ ": invalid JSON"

/-- The loop of `parse_audit_events_from_str`, on lines that come after `lineNum` others. -/
def readAuditLines (lineNum : Nat) : List (List Char) → Except String (List AuditEvent)
  | [] => .ok []
  | line :: lines =>
      if trim (String.ofList line) = "" then readAuditLines (lineNum + 1) lines
      else
        match json.fromStr (String.ofList line) with
        | .ok event => (readAuditLines (lineNum + 1) lines).map (event :: ·)
        | .error _ => .error (corruptedAt (lineNum + 1))

def parseAuditEventsFromStr (contents : List Char) : Except String (List AuditEvent) :=
  readAuditLines json 0 (Lines.lines contents)

/-- `max_checkpoint_sequence`, on the text of the file, if there is one. -/
def maxCheckpointSequenceIn : Option (List Char) → Except String Nat
  | some contents => (parseAuditEventsFromStr json contents).map maxCheckpointSequence
  | none => .ok 0

/-- The events of the lines that can be read. -/
def readableEvents (contents : List Char) : List AuditEvent :=
  (Lines.lines contents).filterMap fun line ↦ (json.fromStr (String.ofList line)).toOption

/-- `verify_no_dangling_orders`, on the text of the file.  A line of it can be read as an event if
it can be read as a value at all. -/
def verifyNoDanglingOrdersIn (contents : List Char) : List DanglingOrder :=
  verifyNoDanglingOrders (readableEvents json contents)

end Readers

/-! ## Writing -/

/-- An event with its text. -/
structure LogEntry (json : SerdeJson AuditEvent) where
  event : AuditEvent
  text : String
  written : json.Written event text

/-- A line is written, or a process is stopped when it has written some of it, or all but the line
feed. -/
inductive Write (json : SerdeJson AuditEvent) where
  | line (entry : LogEntry json)
  | torn (entry : LogEntry json) (p : List Char) (hp : p <+: entry.text.toList) (hne : p ≠ [])

namespace Write

variable {json : SerdeJson AuditEvent}

def text : Write json → List Char
  | line entry => entry.text.toList ++ ['\n']
  | torn _ p _ _ => p

def event : Write json → AuditEvent
  | line entry | torn entry _ _ _ => entry.event

def isLine : Write json → Bool
  | line _ => true
  | torn _ _ _ _ => false

end Write

variable {json : SerdeJson AuditEvent}

/-- The file that some writes leave. -/
def fileOf (writes : List (Write json)) : List Char := writes.flatMap Write.text

/-- Only the last write was stopped, and only its line feed is missing. -/
def Complete : List (Write json) → Prop
  | [] => True
  | .line _ :: rest => Complete rest
  | .torn entry p _ _ :: rest => rest = [] ∧ p = entry.text.toList

/-- What the next line break ends. -/
def opened : List (Write json) → List (List Char)
  | [] => []
  | .line entry :: _ => [entry.text.toList]
  | .torn _ p _ _ :: rest => p :: opened rest

/-- The writes behind the next line break. -/
def afterLine : List (Write json) → List (Write json)
  | [] => []
  | .line _ :: rest => rest
  | .torn _ _ _ _ :: rest => afterLine rest

/-- The events that have a line to themselves, given whether the first line has been begun. -/
def survivors : Bool → List (Write json) → List AuditEvent
  | _, [] => []
  | false, .line entry :: rest => entry.event :: survivors false rest
  | true, .line _ :: rest => survivors false rest
  | false, .torn entry p _ _ :: rest =>
      (if rest.isEmpty = true ∧ p = entry.text.toList then [entry.event] else []) ++
        survivors true rest
  | true, .torn _ _ _ _ :: rest => survivors true rest

/-! ## The lines of a file -/

section Lines

variable {rest writes : List (Write json)} {entry : LogEntry json} {p : List Char}

@[simp] theorem fileOf_cons (w : Write json) (writes : List (Write json)) :
    fileOf (w :: writes) = w.text ++ fileOf writes := rfl

theorem lines_line (hjson : AuditJson json) (entry : LogEntry json) (rest : List (Write json)) :
    Lines.lines (fileOf (.line entry :: rest)) =
      entry.text.toList :: Lines.lines (fileOf rest) := by
  rw [fileOf_cons, Write.text, List.append_assoc]
  exact Lines.lines_line (hjson.unbroken _ _ entry.written.1) _

theorem opened_eq_nil_iff : opened writes = [] ↔ writes = [] := by
  cases writes with
  | nil => exact iff_of_true rfl rfl
  | cons w rest =>
      refine iff_of_false ?_ (List.cons_ne_nil w rest)
      cases w with
      | line entry => exact List.cons_ne_nil _ _
      | torn entry p hp hne => exact List.cons_ne_nil _ _

theorem piece_of_mem_opened (hjson : AuditJson json) :
    ∀ q ∈ opened writes, Objects.Piece q := by
  induction writes with
  | nil => exact fun q hq ↦ absurd hq List.not_mem_nil
  | cons w rest ih =>
      cases w with
      | line entry =>
          intro q hq
          obtain rfl := List.mem_singleton.mp hq
          exact (hjson.entry _ _ entry.written.1).piece
      | torn entry p hp hne =>
          exact List.forall_mem_cons.mpr ⟨⟨hne, _, hjson.entry _ _ entry.written.1, hp⟩, ih⟩

/-- A line that has been begun goes on to the next line break. -/
theorem lines_opened (hjson : AuditJson json) (hp : Lines.Unbroken p) (hne : p ≠ []) :
    Lines.lines (p ++ fileOf rest) =
      (p ++ (opened rest).flatten) :: Lines.lines (fileOf (afterLine rest)) := by
  induction rest generalizing p with
  | nil =>
      rw [fileOf, List.flatMap_nil, opened, List.flatten_nil, List.append_nil]
      exact Lines.lines_unbroken hp hne
  | cons w rest ih =>
      cases w with
      | line entry =>
          have hwhole : Lines.Unbroken (p ++ entry.text.toList) := fun c hc ↦
            (List.mem_append.mp hc).elim (hp c) (hjson.unbroken _ _ entry.written.1 c)
          have hfile : p ++ fileOf (.line entry :: rest) =
              (p ++ entry.text.toList) ++ '\n' :: fileOf rest := by
            rw [fileOf_cons, Write.text]
            simp
          rw [hfile, Lines.lines_line hwhole, opened, List.flatten_singleton, afterLine]
      | torn entry q hq hqne =>
          have hwhole : Lines.Unbroken (p ++ q) := fun c hc ↦
            (List.mem_append.mp hc).elim (hp c)
              (((hjson.unbroken _ _ entry.written.1).subset hq.subset) c)
          have hfile : p ++ fileOf (.torn entry q hq hqne :: rest) = (p ++ q) ++ fileOf rest := by
            rw [fileOf_cons, Write.text, List.append_assoc]
          rw [hfile, ih hwhole (List.append_ne_nil_of_left_ne_nil hne q), opened, afterLine,
            List.flatten_cons, List.append_assoc]

/-- What goes on behind an unfinished line, or is unfinished, cannot be read. -/
theorem exists_error_of_splice (rest : List (Write json)) (hjson : AuditJson json)
    (hp : p <+: entry.text.toList) (hne : p ≠ [])
    (hsplice : rest ≠ [] ∨ p ≠ entry.text.toList) :
    ∃ e, json.fromStr (String.ofList (p ++ (opened rest).flatten)) = .error e := by
  cases h : json.fromStr (String.ofList (p ++ (opened rest).flatten)) with
  | error e => exact ⟨e, rfl⟩
  | ok event =>
      have hobject := hjson.object _ _ h
      rw [String.toList_ofList] at hobject
      refine absurd hobject (Objects.not_isObject_flatten (hjson.entry _ _ entry.written.1) hp hne
        (piece_of_mem_opened hjson) ?_)
      exact hsplice.imp_left fun hrest hopened ↦ hrest (opened_eq_nil_iff.mp hopened)

/-- It is not blank either. -/
theorem trim_ne_empty (hjson : AuditJson json) (hp : p <+: entry.text.toList) (hne : p ≠ [])
    (more : List Char) : trim (String.ofList (p ++ more)) ≠ "" := by
  obtain ⟨tail, rfl⟩ := Objects.Piece.head ⟨hne, _, hjson.entry _ _ entry.written.1, hp⟩
  intro hblank
  have hall := trimBy_eq_empty_iff.mp hblank '\x7b'
  rw [String.toList_ofList] at hall
  cases hall List.mem_cons_self

end Lines

/-! ## Reading what was written -/

section Files

variable {writes rest : List (Write json)} {entry : LogEntry json} {n : Nat} {p : List Char}

theorem readAuditLines_line (hjson : AuditJson json) (entry : LogEntry json)
    (lines : List (List Char)) : readAuditLines json n (entry.text.toList :: lines) =
      (readAuditLines json (n + 1) lines).map (entry.event :: ·) := by
  have hblank := trim_ne_empty hjson (List.prefix_refl entry.text.toList)
    (hjson.entry _ _ entry.written.1).ne_nil []
  rw [List.append_nil] at hblank
  rw [readAuditLines, if_neg hblank, String.ofList_toList, entry.written.2]

theorem readAuditLines_fileOf (hjson : AuditJson json) (writes : List (Write json)) (n : Nat) :
    (Complete writes →
      readAuditLines json n (Lines.lines (fileOf writes)) = .ok (writes.map Write.event)) ∧
    (¬ Complete writes → readAuditLines json n (Lines.lines (fileOf writes)) =
      .error (corruptedAt (n + (writes.takeWhile Write.isLine).length + 1))) := by
  induction writes generalizing n with
  | nil => exact ⟨fun _ ↦ rfl, fun h ↦ absurd trivial h⟩
  | cons w rest ih =>
      cases w with
      | line entry =>
          rw [lines_line hjson, readAuditLines_line hjson]
          refine ⟨fun h ↦ ?_, fun h ↦ ?_⟩
          · rw [(ih (n + 1)).1 h]
            rfl
          · rw [(ih (n + 1)).2 h, List.takeWhile_cons_of_pos rfl, List.length_cons]
            exact congrArg (fun line ↦ Except.error (corruptedAt line)) (by omega)
      | torn entry p hp hne =>
          have hunbroken := (hjson.unbroken _ _ entry.written.1).subset hp.subset
          rw [fileOf_cons, Write.text, lines_opened hjson hunbroken hne, readAuditLines,
            if_neg (trim_ne_empty hjson hp hne _)]
          refine ⟨?_, fun h ↦ ?_⟩
          · rintro ⟨rfl, rfl⟩
            rw [opened, List.flatten_nil, List.append_nil, String.ofList_toList, entry.written.2]
            rfl
          · obtain ⟨e, he⟩ := exists_error_of_splice rest hjson hp hne
              (not_and_or.mp h)
            rw [he, List.takeWhile_cons_of_neg Bool.false_ne_true]
            rfl

/-- A line that is not finished stays where it is. -/
theorem not_complete_append (h : ¬ Complete writes) (more : List (Write json)) :
    ¬ Complete (writes ++ more) ∧
      (writes ++ more).takeWhile Write.isLine = writes.takeWhile Write.isLine := by
  induction writes with
  | nil => exact absurd trivial h
  | cons w rest ih =>
      cases w with
      | line entry =>
          obtain ⟨hcomplete, hlines⟩ := ih h
          refine ⟨hcomplete, ?_⟩
          rw [List.cons_append, List.takeWhile_cons_of_pos rfl, hlines,
            List.takeWhile_cons_of_pos rfl]
      | torn entry p hp hne =>
          refine ⟨fun hwhole ↦ h ⟨(List.append_eq_nil_iff.mp hwhole.1).1, hwhole.2⟩, ?_⟩
          rw [List.cons_append, List.takeWhile_cons_of_neg Bool.false_ne_true,
            List.takeWhile_cons_of_neg Bool.false_ne_true]

/-- What a run finds in a log that any number of processes have written to.  Unless one was stopped
within a line, it reads every event, in order.  Otherwise it is told of the first line that is not
whole, whatever has been written since, and does not get as far as a sequence number of its own. -/
theorem parseAuditEvents_fileOf (hjson : AuditJson json) (writes : List (Write json)) :
    (Complete writes →
      parseAuditEventsFromStr json (fileOf writes) = .ok (writes.map Write.event)) ∧
    (¬ Complete writes → ∀ more,
      parseAuditEventsFromStr json (fileOf (writes ++ more)) =
          .error (corruptedAt ((writes.takeWhile Write.isLine).length + 1)) ∧
        maxCheckpointSequenceIn json (some (fileOf (writes ++ more))) =
          .error (corruptedAt ((writes.takeWhile Write.isLine).length + 1))) := by
  refine ⟨(readAuditLines_fileOf hjson writes 0).1, fun h more ↦ ?_⟩
  obtain ⟨hcomplete, hlines⟩ := not_complete_append h more
  have hparse := (readAuditLines_fileOf hjson (writes ++ more) 0).2 hcomplete
  rw [hlines, Nat.zero_add] at hparse
  refine ⟨hparse, ?_⟩
  rw [maxCheckpointSequenceIn, parseAuditEventsFromStr, hparse]
  rfl

/-- What a kill finds there: the events that have a line to themselves. -/
theorem readableEvents_fileOf (hjson : AuditJson json) (writes : List (Write json)) :
    readableEvents json (fileOf writes) = survivors false writes ∧
      readableEvents json (fileOf (afterLine writes)) = survivors true writes := by
  induction writes with
  | nil => exact ⟨rfl, rfl⟩
  | cons w rest ih =>
      cases w with
      | line entry =>
          refine ⟨?_, ih.1⟩
          rw [readableEvents, lines_line hjson, List.filterMap_cons, String.ofList_toList,
            entry.written.2]
          exact congrArg (entry.event :: ·) ih.1
      | torn entry p hp hne =>
          refine ⟨?_, ih.2⟩
          have hunbroken := (hjson.unbroken _ _ entry.written.1).subset hp.subset
          rw [readableEvents, fileOf_cons, Write.text, lines_opened hjson hunbroken hne,
            List.filterMap_cons, survivors]
          split_ifs with hwhole
          · obtain ⟨hrest, rfl⟩ := hwhole
            obtain rfl := List.isEmpty_iff.mp hrest
            rw [opened, List.flatten_nil, List.append_nil, String.ofList_toList, entry.written.2]
            rfl
          · obtain ⟨e, he⟩ := exists_error_of_splice rest hjson hp hne
              ((not_and_or.mp hwhole).imp_left fun h hrest ↦ h (List.isEmpty_iff.mpr hrest))
            rw [he]
            exact ih.2

theorem survivors_of_complete (h : Complete writes) :
    survivors false writes = writes.map Write.event := by
  induction writes with
  | nil => rfl
  | cons w rest ih =>
      cases w with
      | line entry => exact congrArg (entry.event :: ·) (ih h)
      | torn entry p hp hne =>
          obtain ⟨rfl, rfl⟩ := h
          rw [survivors, if_pos ⟨rfl, rfl⟩]
          rfl

/-- The orders a kill finds dangling are those of the events that have a line to themselves, which
are all events unless a process was stopped within a line. -/
theorem verifyNoDanglingOrders_fileOf (hjson : AuditJson json) (writes : List (Write json)) :
    verifyNoDanglingOrdersIn json (fileOf writes) =
        verifyNoDanglingOrders (survivors false writes) ∧
      (Complete writes → survivors false writes = writes.map Write.event) := by
  refine ⟨?_, survivors_of_complete⟩
  rw [verifyNoDanglingOrdersIn, (readableEvents_fileOf hjson writes).1]

end Files

/-! ## A submission without its line feed -/

/-- The texts of a submission and of the first line of a kill. -/
def sampleAuditJson : SerdeJson AuditEvent where
  toString e :=
    if e.event = "order_submitted" then .ok submission
    else if e.event = "kill_requested" then .ok request
    else .error "no sample"
  fromStr s :=
    if s = submission then .ok submissionEvent
    else if s = request then .ok requestEvent
    else .error "EOF while parsing an object at line 1 column 120"
where
  submission := "\x7b\"event\":\"order_submitted\",\"ts\":\"1970-01-01T00:00:00Z\"," ++
    "\"sequence_number\":8,\"checkpoint\":\"OrderSubmitted\",\"ibkr_id\":7\x7d"
  request := "\x7b\"event\":\"kill_requested\",\"ts\":\"1970-01-01T00:00:00Z\"\x7d"
  submissionEvent := ⟨"order_submitted", 0, some 8, none, .obj [("ibkr_id", .int 7)]⟩
  requestEvent := ⟨"kill_requested", 0, none, none, .obj []⟩

theorem sampleAuditJson_toString {e : AuditEvent} {s : String}
    (h : sampleAuditJson.toString e = .ok s) :
    s = sampleAuditJson.submission ∨ s = sampleAuditJson.request := by
  simp only [sampleAuditJson] at h
  split_ifs at h
  · exact .inl (Except.ok.inj h).symm
  · exact .inr (Except.ok.inj h).symm

theorem auditJson_sampleAuditJson : AuditJson sampleAuditJson where
  entry e s h := by
    rcases sampleAuditJson_toString h with rfl | rfl
    · exact ⟨by decide +kernel, ⟨'e', rfl, by decide +kernel⟩, by decide +kernel⟩
    · exact ⟨by decide +kernel, ⟨'e', rfl, by decide +kernel⟩, by decide +kernel⟩
  unbroken e s h := by
    have hall : s.toList.all (fun c ↦ c ≠ '\n' && c ≠ '\r') = true := by
      rcases sampleAuditJson_toString h with rfl | rfl
      · decide +kernel
      · decide +kernel
    intro c hc
    simpa using List.all_eq_true.mp hall c hc
  object s e h := by
    simp only [sampleAuditJson] at h
    split_ifs at h with hsubmission hrequest
    · subst hsubmission
      decide +kernel
    · subst hrequest
      decide +kernel

/-- An order that was submitted, and the request to kill the run. -/
def sampleSubmission : LogEntry sampleAuditJson :=
  ⟨sampleAuditJson.submissionEvent, sampleAuditJson.submission, rfl, rfl⟩

def sampleRequest : LogEntry sampleAuditJson :=
  ⟨sampleAuditJson.requestEvent, sampleAuditJson.request, rfl, rfl⟩

/-- The submission without its line feed. -/
def sampleTorn : Write sampleAuditJson :=
  .torn sampleSubmission sampleSubmission.text.toList (List.prefix_refl _)
    (auditJson_sampleAuditJson.entry _ _ sampleSubmission.written.1).ne_nil

/-- The log can be read until a kill writes to it. -/
theorem parseAuditEvents_fileOf_killed :
    parseAuditEventsFromStr sampleAuditJson (fileOf [sampleTorn]) =
        .ok [sampleAuditJson.submissionEvent] ∧
      parseAuditEventsFromStr sampleAuditJson (fileOf [sampleTorn, .line sampleRequest]) =
        .error "Corrupted audit log at line 1: invalid JSON" := by
  refine ⟨(parseAuditEvents_fileOf auditJson_sampleAuditJson [sampleTorn]).1 ⟨rfl, rfl⟩, ?_⟩
  have hsplice : ¬ Complete [sampleTorn, .line sampleRequest] := fun h ↦ nomatch h.1
  exact ((parseAuditEvents_fileOf auditJson_sampleAuditJson _).2 hsplice []).1

/-- The order is dangling, and the kill that looks for it does not find it. -/
theorem verifyNoDanglingOrders_fileOf_killed :
    (verifyNoDanglingOrdersIn sampleAuditJson (fileOf [sampleTorn])).map DanglingOrder.ibkrId =
        [7] ∧
      verifyNoDanglingOrdersIn sampleAuditJson (fileOf [sampleTorn, .line sampleRequest]) = [] := by
  have hverify := verifyNoDanglingOrders_fileOf auditJson_sampleAuditJson
  rw [(hverify [sampleTorn]).1, (hverify [sampleTorn, .line sampleRequest]).1]
  constructor
  · decide +kernel
  · decide +kernel

end Nanobook.Rebalancer
