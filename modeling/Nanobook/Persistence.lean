import Nanobook.Agreement
import Nanobook.Lib.Lines
import Nanobook.Text

/-!
# Saving and loading an exchange

`persistence.rs`: the event log as a file with one JSON object a line.  A save replaces the file and
may stop anywhere, so what a load can find is any beginning of what was to be written.  It then
returns the events of the complete lines, or reports the line that is not complete; for an exchange
that was saved this is a state it has been in.

`SerdeJson` stands for `serde_json`.
-/

namespace Nanobook

namespace Persistence

/-! ## Files -/

inductive ErrorKind where
  | invalidData
  | other
deriving DecidableEq, Repr

structure IoError where
  kind : ErrorKind
  message : String
deriving DecidableEq, Repr

/-- `serde_json::to_string` and `serde_json::from_str`. -/
structure SerdeJson (A : Type) where
  toString : A → Except String String
  fromStr : String → Except String A

namespace SerdeJson

variable {A : Type} (json : SerdeJson A)

/-- What is written is an object without blanks, and no part of an object can be read. -/
structure Lawful : Prop where
  object : ∀ a s, json.toString a = .ok s → s.toList.head? = some '\x7b'
  compact : ∀ a s, json.toString a = .ok s → ∀ c ∈ s.toList, isWhitespace c = false
  incomplete : ∀ a s, json.toString a = .ok s → ∀ p, p <+: s.toList → p ≠ s.toList →
    ∃ e, json.fromStr (String.ofList p) = .error e

/-- A value has this text and is read from it again. -/
def Written (a : A) (s : String) : Prop := json.toString a = .ok s ∧ json.fromStr s = .ok a

/-- A value is read back.  Integers always are, a floating point number only if it is finite and its
decimal digits lead back to it. -/
def ReadsBack (a : A) : Prop := ∃ s, json.Written a s

end SerdeJson

section Files

variable (json : SerdeJson Event)

/-- What `save_events` writes, and how it ends. -/
def saveEvents : List Event → List Char × Except IoError Unit
  | [] => ([], .ok ())
  | event :: events =>
      match json.toString event with
      | .error e => ([], .error ⟨.other, e⟩)
      | .ok line =>
          let (text, result) := saveEvents events
          (line.toList ++ '\n' :: text, result)

/-- The loop of `load_events`, on lines that come after `lineNum` others. -/
def readEvents (lineNum : Nat) : List (List Char) → Except IoError (List Event)
  | [] => .ok []
  | line :: lines =>
      let line := trim (String.ofList line)
      if line = "" then readEvents (lineNum + 1) lines
      else
        match json.fromStr line with
        | .error e =>
            .error ⟨.invalidData, "line " ++ Nat.repr (lineNum + 1) ++ ": " ++ e⟩
        | .ok event => (readEvents (lineNum + 1) lines).map (event :: ·)

/-- `load_events`, on the text of a file. -/
def loadEvents (text : List Char) : Except IoError (List Event) :=
  readEvents json 0 (Lines.lines text)

end Files

/-! ## Lines -/

theorem trim_ofList {l : List Char} (h : ∀ c ∈ l, isWhitespace c = false) :
    trim (String.ofList l) = String.ofList l := by
  have hdrop : ∀ l : List Char, (∀ c ∈ l, isWhitespace c = false) →
      l.dropWhile isWhitespace = l := by
    intro l hl
    cases l with
    | nil => rfl
    | cons c l => rw [List.dropWhile_cons, hl c List.mem_cons_self, if_neg Bool.false_ne_true]
  rw [trim, trimBy, String.toList_ofList, hdrop l h,
    hdrop _ fun c hc ↦ h c (List.mem_reverse.mp hc), List.reverse_reverse]

section Lawful

variable {json : SerdeJson Event} {a : Event} {s : String} {n : Nat} {lines : List (List Char)}
  {events : List Event} {texts : List String}

/-- Nothing in the text of an event ends a line. -/
theorem SerdeJson.Lawful.unbroken (hjson : json.Lawful) (hs : json.toString a = .ok s) :
    Lines.Unbroken s.toList := by
  intro c hc
  have hblank := hjson.compact a s hs c hc
  refine ⟨?_, ?_⟩ <;>
  · rintro rfl
    revert hblank
    decide

/-- A line that is the text of an event. -/
theorem readEvents_line (hjson : json.Lawful) (h : json.Written a s) :
    readEvents json n (s.toList :: lines) = (readEvents json (n + 1) lines).map (a :: ·) := by
  have hne : s ≠ "" := by
    rintro rfl
    have hhead := hjson.object a "" h.1
    cases hhead
  rw [readEvents, trim_ofList (hjson.compact a s h.1), String.ofList_toList]
  simp only [hne, if_false, h.2]

/-- The lines of some events, and those after them. -/
theorem readEvents_append (hjson : json.Lawful) (h : List.Forall₂ json.Written events texts) :
    readEvents json n (texts.map String.toList ++ lines) =
      (readEvents json (n + events.length) lines).map (events ++ ·) := by
  induction h generalizing n with
  | nil =>
      cases hread : readEvents json n lines <;> simp [hread, Except.map]
  | @cons event text events texts hwritten _ ih =>
      rw [List.map_cons, List.cons_append, readEvents_line hjson hwritten, ih, List.length_cons,
        show n + 1 + events.length = n + (events.length + 1) by omega]
      cases readEvents json (n + (events.length + 1)) lines <;> rfl

/-- A line that ends within the text of an event is reported. -/
theorem readEvents_torn (hjson : json.Lawful) (hs : json.toString a = .ok s) {tail : List Char}
    (hne : tail ≠ []) (htail : tail <+: s.toList) (htorn : tail ≠ s.toList) :
    ∃ e, readEvents json n [tail] =
      .error ⟨.invalidData, "line " ++ Nat.repr (n + 1) ++ ": " ++ e⟩ := by
  obtain ⟨e, he⟩ := hjson.incomplete a s hs tail htail htorn
  have hblank : ∀ c ∈ tail, isWhitespace c = false :=
    fun c hc ↦ hjson.compact a s hs c (htail.subset hc)
  have htext : String.ofList tail ≠ "" := by
    intro hempty
    rw [← String.toList_inj, String.toList_ofList] at hempty
    exact hne hempty
  refine ⟨e, ?_⟩
  rw [readEvents, trim_ofList hblank]
  simp only [htext, if_false, he]

/-! ## Files that were saved -/

theorem exists_texts (h : ∀ event ∈ events, json.ReadsBack event) :
    ∃ texts, List.Forall₂ json.Written events texts := by
  induction events with
  | nil => exact ⟨[], .nil⟩
  | cons event events ih =>
      obtain ⟨text, htext⟩ := h event List.mem_cons_self
      obtain ⟨texts, htexts⟩ := ih fun e he ↦ h e (List.mem_cons_of_mem event he)
      exact ⟨text :: texts, .cons htext htexts⟩

/-- The whole log is written, one line an event. -/
theorem saveEvents_of_written (h : List.Forall₂ json.Written events texts) :
    saveEvents json events = (Lines.unlines (texts.map String.toList), .ok ()) := by
  induction h with
  | nil => rfl
  | cons hwritten _ ih =>
      rw [saveEvents, hwritten.1, ih, List.map_cons, Lines.unlines_cons]

theorem unbroken_of_written (hjson : json.Lawful) (h : List.Forall₂ json.Written events texts) :
    ∀ l ∈ texts.map String.toList, Lines.Unbroken l := by
  induction h with
  | nil => exact fun l hl ↦ absurd hl List.not_mem_nil
  | cons hwritten _ ih =>
      rw [List.map_cons]
      exact List.forall_mem_cons.mpr ⟨hjson.unbroken hwritten.1, ih⟩

/-- A load reads the events that were saved, and goes on with what comes after them. -/
theorem loadEvents_append (hjson : json.Lawful) (h : List.Forall₂ json.Written events texts)
    (tail : List Char) :
    loadEvents json (Lines.unlines (texts.map String.toList) ++ tail) =
      (readEvents json events.length (Lines.lines tail)).map (events ++ ·) := by
  rw [loadEvents, Lines.lines_unlines_append (unbroken_of_written hjson h),
    readEvents_append hjson h, Nat.zero_add]

theorem loadEvents_saveEvents (hjson : json.Lawful)
    (h : ∀ event ∈ events, json.ReadsBack event) :
    loadEvents json (saveEvents json events).1 = .ok events := by
  obtain ⟨texts, htexts⟩ := exists_texts h
  have hload := loadEvents_append hjson htexts []
  rw [List.append_nil] at hload
  rw [saveEvents_of_written htexts, hload]
  exact congrArg Except.ok (List.append_nil events)

/-- A file that a save left is made of the lines of some events and of the beginning of the next
line.  A load takes the complete lines, and reports the next one unless nothing or only the line
feed of it is missing. -/
theorem loadEvents_torn (hjson : json.Lawful) (h : ∀ event ∈ events, json.ReadsBack event)
    {file : List Char} (hfile : file <+: (saveEvents json events).1) :
    ∃ done, done <+: events ∧
      (loadEvents json file = .ok done ∧
          ((saveEvents json done).1 = file ∨ (saveEvents json done).1 = file ++ ['\n']) ∨
        (saveEvents json done).1 <+: file ∧ ∃ e, loadEvents json file =
          .error ⟨.invalidData, "line " ++ Nat.repr (done.length + 1) ++ ": " ++ e⟩) := by
  obtain ⟨texts, htexts⟩ := exists_texts h
  rw [saveEvents_of_written htexts] at hfile
  obtain ⟨written, rest, tail, hsplit, rfl, hnext⟩ := Lines.exists_of_prefix_unlines hfile
  obtain ⟨first, left, rfl, rfl, rfl⟩ := List.map_eq_append_iff.mp hsplit
  have hfirst := List.forall₂_take_append _ _ _ htexts
  have hleft := List.forall₂_drop_append _ _ _ htexts
  have hdone := saveEvents_of_written hfirst
  have hload := loadEvents_append hjson hfirst tail
  set done := events.take first.length with hdef
  by_cases hnil : tail = []
  · subst hnil
    refine ⟨done, List.take_prefix _ _, .inl ⟨?_, .inl ?_⟩⟩
    · rw [hload]
      exact congrArg Except.ok (List.append_nil done)
    · rw [hdone, List.append_nil]
  · obtain ⟨l, hl, htail⟩ := hnext.resolve_left hnil
    obtain ⟨text, htext, rfl⟩ : ∃ text, left.head? = some text ∧ text.toList = l := by
      rw [List.head?_map] at hl
      exact Option.map_eq_some_iff.mp hl
    obtain ⟨left, rfl⟩ := List.head?_eq_some_iff.mp htext
    obtain ⟨event, later, hwritten, -, hlater⟩ := List.forall₂_cons_right_iff.mp hleft
    have hlines := Lines.lines_unbroken ((hjson.unbroken hwritten.1).subset htail.subset) hnil
    rw [hlines] at hload
    by_cases hfull : tail = text.toList
    · -- only the line feed is missing
      subst hfull
      refine ⟨done ++ [event], ⟨later, ?_⟩, .inl ⟨?_, .inr ?_⟩⟩
      · rw [List.append_assoc, List.singleton_append, ← hlater]
        exact List.take_append_drop _ _
      · rw [hload, readEvents_line hjson hwritten]
        rfl
      · rw [saveEvents_of_written (List.rel_append hfirst (.cons hwritten .nil)), List.map_append,
          Lines.unlines_append, List.append_assoc, List.map_singleton, Lines.unlines_cons,
          Lines.unlines_nil]
    · obtain ⟨e, he⟩ := readEvents_torn (n := done.length) hjson hwritten.1 hnil htail hfull
      refine ⟨done, List.take_prefix _ _, .inr ⟨?_, e, ?_⟩⟩
      · rw [hdone]
        exact List.prefix_append _ _
      · rw [hload, he]
        rfl

end Lawful

end Persistence

namespace Exchange

open Persistence

variable (json : SerdeJson Event)

/-- `Exchange::save`: the text written, and how it ends. -/
def save (ex : Exchange) : List Char × Except IoError Unit := saveEvents json ex.events

/-- `Exchange::load`, on the text of a file. -/
def load (fuel : Nat) (text : List Char) : Except IoError (Option Exchange) :=
  (loadEvents json text).map (replay fuel .off)

/-! ## Exchanges that were saved -/

/-- Whatever part of the log of a run is replayed leads to an exchange the run came through. -/
theorem replay_prefix_of_run {ex : Exchange} (h : Run Replayable create ex) :
    ∀ done, done <+: ex.events → ∃ ex', Run Replayable create ex' ∧ Run Replayable ex' ex ∧
      ex'.events = done ∧ (done = ex.events → ex' = ex) ∧
      ∃ fuel, replay fuel .off done = some ex' := by
  induction h with
  | refl =>
      intro done hdone
      obtain rfl := List.prefix_nil.mp hdone
      exact ⟨create, .refl, .refl, rfl, fun _ ↦ rfl, 0, rfl⟩
  | @tail ex ex₁ hrun hlast ih =>
      obtain ⟨op, hC, hs⟩ := hlast
      obtain ⟨event, -, hstep⟩ := hC.step hs
      have hevents := events_of_apply hstep
      intro done hdone
      rw [hevents] at hdone
      rcases List.prefix_concat_iff.mp hdone with rfl | hdone
      · obtain ⟨ex', -, -, -, hlast, fuel, hreplay⟩ := ih ex.events (List.prefix_refl _)
        obtain rfl := hlast rfl
        obtain ⟨fuel', happly⟩ := hstep
        refine ⟨ex₁, hrun.tail ⟨op, hC, hs⟩, .refl, hevents, fun _ ↦ rfl, max fuel fuel', ?_⟩
        rw [replay, applyEvents, List.foldlM_append]
        exact Option.bind_eq_some_iff.mpr ⟨ex', applyEvents_mono (le_max_left _ _) hreplay,
          Option.bind_eq_some_iff.mpr ⟨ex₁, perform_mono (le_max_right _ _) happly, rfl⟩⟩
      · obtain ⟨ex', hrun', hto, hex', -, hreplay⟩ := ih done hdone
        refine ⟨ex', hrun', hto.tail ⟨op, hC, hs⟩, hex', fun hall ↦ ?_, hreplay⟩
        have hlen := hdone.length_le
        rw [hall, hevents, List.length_append] at hlen
        exact absurd hlen (by simp)

/-- An exchange that has been saved, by a save that may have stopped anywhere, is loaded as it was
or as it was at some earlier time, or the load names the line that was not finished. -/
theorem load_torn_save {json : SerdeJson Event} (hjson : json.Lawful) {ex : Exchange}
    (h : Run Replayable create ex) (hread : ∀ event ∈ ex.events, json.ReadsBack event)
    {file : List Char} (hfile : file <+: (ex.save json).1) :
    ∃ ex', Run Replayable create ex' ∧ Run Replayable ex' ex ∧
      ((∃ fuel, load json fuel file = .ok (some ex')) ∧
          ((ex'.save json).1 = file ∨ (ex'.save json).1 = file ++ ['\n']) ∧
          (file = (ex.save json).1 → ex' = ex) ∨
        (ex'.save json).1 <+: file ∧ ∃ e, ∀ fuel, load json fuel file =
          .error ⟨.invalidData, "line " ++ Nat.repr (ex'.events.length + 1) ++ ": " ++ e⟩) := by
  obtain ⟨done, hdone, hload⟩ := loadEvents_torn hjson hread hfile
  obtain ⟨ex', hrun, hto, rfl, hlast, fuel, hreplay⟩ := replay_prefix_of_run h done hdone
  refine ⟨ex', hrun, hto, ?_⟩
  rcases hload with ⟨hok, hsave⟩ | ⟨hsave, e, he⟩
  · refine .inl ⟨⟨fuel, ?_⟩, hsave, fun hwhole ↦ hlast ?_⟩
    · rw [load, hok, ← hreplay]
      rfl
    · rw [hwhole, save, loadEvents_saveEvents hjson hread] at hok
      exact (Except.ok.inj hok).symm
  · refine .inr ⟨hsave, e, fun fuel ↦ ?_⟩
    rw [load, he]
    rfl

/-- The texts of a submission and of its cancellation. -/
def sampleJson : SerdeJson Event where
  toString
    | .submitLimit .sell 100 10 .gtc => .ok submission
    | .cancel 1 => .ok cancellation
    | _ => .error "no sample"
  fromStr s :=
    if s = submission then .ok (.submitLimit .sell 100 10 .gtc)
    else if s = cancellation then .ok (.cancel 1)
    else .error "EOF while parsing a value at line 1 column 10"
where
  submission := "\x7b\"SubmitLimit\":\x7b\"side\":\"Sell\",\"price\":100,\"quantity\":10," ++
    "\"time_in_force\":\"GTC\"\x7d\x7d"
  cancellation := "\x7b\"Cancel\":\x7b\"order_id\":1\x7d\x7d"

theorem sampleJson_toString {event : Event} {s : String} (h : sampleJson.toString event = .ok s) :
    s = sampleJson.submission ∨ s = sampleJson.cancellation := by
  simp only [sampleJson] at h
  split at h
  · exact .inl (Except.ok.inj h).symm
  · exact .inr (Except.ok.inj h).symm
  · cases h

theorem lawful_sampleJson : sampleJson.Lawful where
  object event s h := by
    rcases sampleJson_toString h with rfl | rfl <;> decide
  compact event s h := by
    have hall : s.toList.all (fun c ↦ !isWhitespace c) = true := by
      rcases sampleJson_toString h with rfl | rfl <;> rfl
    intro c hc
    exact (Bool.not_eq_true' _).mp (List.all_eq_true.mp hall c hc)
  incomplete event s h p hp hne := by
    have htext : ∀ t : String, String.ofList p = t → p = t.toList := by
      rintro t rfl
      exact String.toList_ofList.symm
    have hparts : ¬ sampleJson.cancellation.toList <+: sampleJson.submission.toList ∧
        ¬ sampleJson.submission.toList <+: sampleJson.cancellation.toList := by
      constructor <;> decide +kernel
    refine ⟨"EOF while parsing a value at line 1 column 10", ?_⟩
    rcases sampleJson_toString h with rfl | rfl
    · exact (if_neg fun heq ↦ hne (htext _ heq)).trans
        (if_neg fun heq ↦ hparts.1 (htext _ heq ▸ hp))
    · exact (if_neg fun heq ↦ hparts.2 (htext _ heq ▸ hp)).trans
        (if_neg fun heq ↦ hne (htext _ heq))

/-- The second line is not finished. -/
theorem load_torn_save_second_line :
    ∃ ex file, performAll 5 create [.submitLimit .sell 100 10 .gtc, .cancel 1] = some ex ∧
      file = sampleJson.submission.toList ++ "\n\x7b\"Cancel\":".toList ∧
      load sampleJson 5 file = .error ⟨.invalidData,
        "line 2: EOF while parsing a value at line 1 column 10"⟩ ∧
      ∃ ex', Run Replayable create ex' ∧ Run Replayable ex' ex ∧
        ((∃ fuel, load sampleJson fuel file = .ok (some ex')) ∧
            ((ex'.save sampleJson).1 = file ∨ (ex'.save sampleJson).1 = file ++ ['\n']) ∧
            (file = (ex.save sampleJson).1 → ex' = ex) ∨
          (ex'.save sampleJson).1 <+: file ∧ ∃ e, ∀ fuel, load sampleJson fuel file =
            .error ⟨.invalidData, "line " ++ Nat.repr (ex'.events.length + 1) ++ ": " ++ e⟩) := by
  obtain ⟨ex, hex⟩ : ∃ ex, performAll 5 create
      [.submitLimit .sell 100 10 .gtc, .cancel 1] = some ex := ⟨_, rfl⟩
  have hevents := observe hex (fun ex ↦ ex.events)
    (a := [.submitLimit .sell 100 10 .gtc, .cancel 1]) rfl
  refine ⟨ex, _, hex, rfl, rfl, load_torn_save lawful_sampleJson
    (run_of_performAll ?_ hex) ?_ ?_⟩
  · simp [Replayable]
  · rw [hevents]
    simp only [List.forall_mem_cons]
    exact ⟨⟨sampleJson.submission, rfl, rfl⟩, ⟨sampleJson.cancellation, rfl, rfl⟩,
      fun event hevent ↦ absurd hevent List.not_mem_nil⟩
  · rw [save, hevents]
    decide

end Exchange

end Nanobook
