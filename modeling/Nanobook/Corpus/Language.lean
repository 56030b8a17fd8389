import Nanobook.Corpus.Schema

/-!
# The two readers of a corpus

`Agree` is what the readers of the exchange and of the oracle owe each other on a file: the same
events or a rejection by both, and no event from a line that is not one.

The reader of the exchange rejects a file with a bad line, the oracle's drops the line.  So they
agree exactly on the files where every line is an event, and the numbers fit where the exchange cuts
them.
-/

namespace Nanobook

open Rebalancer (Json)

/-! ## What the readers owe each other -/

/-- Both accept with the same events, or both reject. -/
def SameOutcome : Except String (List CorpusEvent) → Except Oracle.Exn (List Oracle.Event) → Prop
  | .ok events, .ok events' => List.Forall₂ Same events events'
  | .error _, .error _ => True
  | _, _ => False

/-- The JSON libraries of the two programs.  An empty text is no JSON value. -/
structure JsonLibs where
  fromStr : String → Except String Json
  fromString : String → Except Oracle.Exn Json
  intOfFloat : ℚ → Int
  fromStr_empty : ∀ obj, fromStr "" ≠ .ok obj

namespace JsonLibs

variable (libs : JsonLibs)

def replayReader (lines : List String) : Except String (List CorpusEvent) :=
  readEvents libs.fromStr lines

def oracleReader (lines : List String) : Except Oracle.Exn (List Oracle.Event) :=
  Oracle.parseJsonlFile libs.intOfFloat libs.fromString lines

/-- Both libraries make the same value of a line, with integers that fit into the 63 bits the oracle
has for them. -/
structure SameTree (line : String) : Prop where
  tree : ∀ obj, libs.fromString line = .ok obj ↔ libs.fromStr (trim line) = .ok obj
  small : ∀ obj, libs.fromStr (trim line) = .ok obj → ∀ key n, obj.get key = some (.int n) →
    -2 ^ 62 ≤ n ∧ n < 2 ^ 62

structure Agree (lines : List String) : Prop where
  outcome : SameOutcome (libs.replayReader lines) (libs.oracleReader lines)
  rejects : ∀ line ∈ lines, ∀ obj, libs.fromString line = .ok obj → validEvent obj = false →
    (∀ event, parseEventLine libs.fromStr line ≠ .ok event) ∧
      Oracle.parseJsonlLine libs.intOfFloat libs.fromString line = none

/-- A line that both readers are meant to take: blank, or an event whose numbers are not cut. -/
def Valid (line : String) : Prop :=
  trim line = "" ∨
    ∃ obj, libs.fromString line = .ok obj ∧ validEvent obj = true ∧ inRange obj = true

end JsonLibs

/-! ## Files -/

namespace JsonLibs

variable {libs : JsonLibs} {line : String} {lines : List String}

/-- What is white space to the oracle is white space to the exchange. -/
theorem isWhitespace_of_isSpace {c : Char} (h : Oracle.isSpace c = true) :
    isWhitespace c = true := by
  simp only [Oracle.isSpace, Bool.or_eq_true, decide_eq_true_eq] at h
  rcases h with (((rfl | h) | rfl) | rfl) | rfl
  · decide
  · simp [isWhitespace, h]
  · decide
  · decide
  · decide

theorem trim_eq_empty_of_isSpace (h : trimBy Oracle.isSpace line = "") : trim line = "" :=
  trimBy_eq_empty_iff.mpr fun c hc ↦ isWhitespace_of_isSpace (trimBy_eq_empty_iff.mp h c hc)

/-- The oracle finds no event in a line that is blank to the exchange. -/
theorem parseJsonlLine_of_blank (hs : libs.SameTree line) (h : trim line = "") :
    Oracle.parseJsonlLine libs.intOfFloat libs.fromString line = none := by
  rw [Oracle.parseJsonlLine]
  cases hj : libs.fromString line with
  | error e => rfl
  | ok obj =>
      have := (hs.tree obj).mp hj
      rw [h] at this
      exact absurd this (libs.fromStr_empty obj)

theorem parseEventLine_eq (h : trim line ≠ "") {obj : Json}
    (hj : libs.fromStr (trim line) = .ok obj) :
    parseEventLine libs.fromStr line = parseEvent obj := by
  simp only [parseEventLine, if_neg h, hj]

theorem parseJsonlLine_eq {obj : Json} (hj : libs.fromString line = .ok obj) :
    Oracle.parseJsonlLine libs.intOfFloat libs.fromString line =
      (Oracle.jsonToEvent libs.intOfFloat obj).toOption := by
  rw [Oracle.parseJsonlLine, hj]
  rfl

/-- A line is an event that both readers read, or is blank. -/
def Read (libs : JsonLibs) (line : String) : Prop :=
  trim line = "" ∨ ∃ obj, libs.fromString line = .ok obj ∧ validEvent obj = true

/-- On a file of such lines the readers return the same events exactly if all numbers are in
range. -/
theorem outcome_iff (hs : ∀ line ∈ lines, libs.SameTree line)
    (hr : ∀ line ∈ lines, libs.Read line) :
    ∃ events, libs.replayReader lines = .ok events ∧
      (List.Forall₂ Same events (Oracle.readLines libs.intOfFloat libs.fromString lines) ↔
        ∀ line ∈ lines, libs.Valid line) := by
  induction lines with
  | nil => exact ⟨[], rfl, by simp [Oracle.readLines]⟩
  | cons line lines ih =>
      obtain ⟨events, hevents, hiff⟩ := ih (fun l hl ↦ hs l (List.mem_cons_of_mem _ hl))
        (fun l hl ↦ hr l (List.mem_cons_of_mem _ hl))
      have hsame := hs line List.mem_cons_self
      by_cases hblank : trim line = ""
      · refine ⟨events, ?_, ?_⟩
        · rw [replayReader, readEvents, if_pos hblank]
          exact hevents
        · have hskip : Oracle.readLines libs.intOfFloat libs.fromString (line :: lines) =
              Oracle.readLines libs.intOfFloat libs.fromString lines := by
            rw [Oracle.readLines, parseJsonlLine_of_blank hsame hblank]
            split_ifs <;> rfl
          rw [hskip, hiff, List.forall_mem_cons, and_iff_right (.inl hblank)]
      · obtain ⟨obj, hj, hv⟩ := (hr line List.mem_cons_self).resolve_left hblank
        have hj' := (hsame.tree obj).mp hj
        obtain ⟨e, e', he, he', hee⟩ := event_spec libs.intOfFloat (hsame.small obj hj') hv
        have hvalid : libs.Valid line ↔ inRange obj = true := by
          constructor
          · rintro (h | ⟨obj', hobj, -, h⟩)
            · exact absurd h hblank
            · rw [hj] at hobj
              cases hobj
              exact h
          · exact fun h ↦ .inr ⟨obj, hj, hv, h⟩
        refine ⟨e :: events, ?_, ?_⟩
        · rw [replayReader, readEvents, if_neg hblank, parseEventLine_eq hblank hj', he]
          rw [replayReader] at hevents
          rw [hevents]
          rfl
        · have hspace : trimBy Oracle.isSpace line ≠ "" := fun h ↦
            hblank (trim_eq_empty_of_isSpace h)
          have hkeep : Oracle.readLines libs.intOfFloat libs.fromString (line :: lines) =
              e' :: Oracle.readLines libs.intOfFloat libs.fromString lines := by
            rw [Oracle.readLines, if_neg hspace, parseJsonlLine_eq hj, he']
            rfl
          rw [hkeep, List.forall₂_cons, hee, hiff, List.forall_mem_cons, hvalid]

/-- A file that the exchange's reader accepts has an event it can read in every line. -/
theorem exists_event_of_replayReader {events : List CorpusEvent}
    (h : libs.replayReader lines = .ok events) (hl : line ∈ lines) (hblank : trim line ≠ "") :
    ∃ obj event, libs.fromStr (trim line) = .ok obj ∧
      parseEventLine libs.fromStr line = .ok event := by
  induction lines generalizing events with
  | nil => cases hl
  | cons line' lines ih =>
      rw [replayReader, readEvents] at h
      split_ifs at h with hb
      · rcases List.mem_cons.mp hl with rfl | hl
        · exact absurd hb hblank
        · exact ih h hl
      · cases he : parseEventLine libs.fromStr line' with
        | error e =>
            rw [he] at h
            cases h
        | ok event =>
            rw [he] at h
            cases hes : readEvents libs.fromStr lines with
            | error e =>
                rw [hes] at h
                cases h
            | ok events' =>
                rcases List.mem_cons.mp hl with rfl | hl
                · cases hj : libs.fromStr (trim line) with
                  | error e =>
                      simp only [parseEventLine, if_neg hblank, hj] at he
                      cases he
                  | ok obj => exact ⟨obj, event, rfl, he⟩
                · exact ih hes hl

/-- Libraries that know a few texts. -/
def ofTable (table : List (String × Json)) (h : table.lookup "" = none) : JsonLibs where
  fromStr text := match table.lookup text with
    | some obj => .ok obj
    | none => .error "expected value"
  fromString text := match table.lookup text with
    | some obj => .ok obj
    | none => .error (.jsonError "expected value")
  intOfFloat := Rebalancer.truncate
  fromStr_empty obj := by
    rw [h]
    exact fun he ↦ by cases he

theorem mem_of_lookup {α : Type} {key : String} {v : α} {fields : List (String × α)}
    (h : fields.lookup key = some v) : (key, v) ∈ fields := by
  obtain ⟨l₁, l₂, rfl, -⟩ := List.lookup_eq_some_iff.mp h
  simp

theorem sameTree_ofTable {table : List (String × Json)} (h : table.lookup "" = none)
    (hline : trim line = line) (hsmall : ∀ fields, (line, Json.obj fields) ∈ table →
      ∀ key n, (key, Json.int n) ∈ fields → -2 ^ 62 ≤ n ∧ n < 2 ^ 62) :
    (ofTable table h).SameTree line where
  tree obj := by
    rw [hline]
    simp only [ofTable]
    cases table.lookup line <;> simp
  small obj hobj key n hn := by
    rw [hline] at hobj
    simp only [ofTable] at hobj
    split at hobj
    case h_1 obj' hlookup =>
      cases hobj
      cases obj with
      | obj fields => exact hsmall fields (mem_of_lookup hlookup) key n (mem_of_lookup hn)
      | _ => cases hn
    case h_2 => cases hobj

/-- A cancellation. -/
def cancelLine : String := "\x7b\"type\":\"Cancel\",\"order_id\":1\x7d"

/-- A line of a type that there is not. -/
def helloLine : String := "\x7b\"type\":\"Hello\"\x7d"

def samples : JsonLibs :=
  ofTable [(cancelLine, .obj [("type", .str "Cancel"), ("order_id", .int 1)]),
    (helloLine, .obj [("type", .str "Hello")])] (by decide +kernel)

theorem sameTree_samples (hline : trim line = line) : samples.SameTree line := by
  refine sameTree_ofTable _ hline fun fields hf key n hn ↦ ?_
  simp only [List.mem_cons, List.not_mem_nil, or_false, Prod.mk.injEq, Json.obj.injEq] at hf
  rcases hf with ⟨-, rfl⟩ | ⟨-, rfl⟩
  · obtain ⟨-, rfl⟩ : key = "order_id" ∧ n = 1 := by simpa using hn
    decide
  · simp at hn

end JsonLibs

end Nanobook
