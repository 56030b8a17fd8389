import Mathlib.Data.List.Basic

/-!
# Strings from a deserializer

A deserializer that reads a text in memory lends a string to its visitor where the text has it as it
is, and hands out a copy where the text has escapes.  A visitor that keeps what it is given without
a copy of its own can take only what it is lent.

`SerdeJson` says this of a reader and a writer that are not given.  What is written can then be
taken so exactly if nothing of it had to be escaped.
-/

namespace Nanobook.Serde

/-- How a string is offered to a visitor: lent from the input, shown for the time of the call, or
given away. -/
inductive Offer where
  | borrowed (s : String)
  | transient (s : String)
  | owned (s : String)

namespace Offer

def content : Offer → String
  | borrowed s | transient s | owned s => s

def IsBorrowed : Offer → Prop
  | borrowed _ => True
  | transient _ | owned _ => False

theorem eq_borrowed {o : Offer} (h : o.IsBorrowed) : o = borrowed o.content := by
  cases o with
  | borrowed s => rfl
  | transient s => exact False.elim h
  | owned s => exact False.elim h

end Offer

/-- What a JSON string may not contain as it is. -/
def NeedsEscape (c : Char) : Prop := c = '"' ∨ c = '\\' ∨ c.toNat < 0x20

instance : DecidablePred NeedsEscape := fun c ↦
  inferInstanceAs (Decidable (c = '"' ∨ c = '\\' ∨ c.toNat < 0x20))

def Plain (s : String) : Prop := ∀ c ∈ s.toList, ¬ NeedsEscape c

instance : DecidablePred Plain := fun s ↦
  decidable_of_iff (s.toList.all fun c ↦ !decide (NeedsEscape c)) (by simp [Plain])

theorem not_plain_iff {s : String} : ¬ Plain s ↔ ∃ c ∈ s.toList, NeedsEscape c := by
  rw [Plain]
  push Not
  rfl

/-- Strings in JSON. -/
structure SerdeJson (E : Type) where
  custom : String → E
  /-- The text of a string. -/
  toString : String → String
  /-- How the string of a text is offered. -/
  offer : String → Except E Offer
  /-- `<&str>::deserialize`, of what is offered. -/
  borrow : Offer → Except E String
  offer_toString (s : String) : ∃ o, offer (toString s) = .ok o ∧ o.content = s
  backslash_mem_toString (s : String) :
    '\\' ∈ (toString s).toList ↔ ∃ c ∈ s.toList, NeedsEscape c
  isBorrowed_iff {text : String} {o : Offer} (h : offer text = .ok o) :
    o.IsBorrowed ↔ '\\' ∉ text.toList
  borrow_borrowed (s : String) : borrow (.borrowed s) = .ok s
  borrow_copy {o : Offer} (h : ¬ o.IsBorrowed) : ∃ e, borrow o = .error e

namespace SerdeJson

variable {E : Type} (json : SerdeJson E)

/-- `<&str>::deserialize`. -/
def readStr (text : String) : Except E String := json.offer text >>= json.borrow

theorem offer_toString_isBorrowed_iff {s : String} {o : Offer}
    (h : json.offer (json.toString s) = .ok o) : o.IsBorrowed ↔ Plain s := by
  rw [json.isBorrowed_iff h, json.backslash_mem_toString, ← not_plain_iff, not_not]

theorem readStr_toString {s : String} (h : Plain s) : json.readStr (json.toString s) = .ok s := by
  obtain ⟨o, ho, rfl⟩ := json.offer_toString s
  have hborrowed := Offer.eq_borrowed ((json.offer_toString_isBorrowed_iff ho).mpr h)
  rw [readStr, ho, hborrowed]
  exact json.borrow_borrowed o.content

theorem readStr_toString_error {s : String} (h : ¬ Plain s) :
    ∃ e, json.readStr (json.toString s) = .error e := by
  obtain ⟨o, ho, -⟩ := json.offer_toString s
  obtain ⟨e, he⟩ := json.borrow_copy (mt (json.offer_toString_isBorrowed_iff ho).mp h)
  exact ⟨e, by rw [readStr, ho]; exact he⟩

end SerdeJson

section Lists

variable {A B E : Type} {read : B → Except E A}

/-- A list is read back if its elements are. -/
theorem mapM_read_map {write : A → B} {l : List A} (h : ∀ a ∈ l, read (write a) = .ok a) :
    (l.map write).mapM read = .ok l := by
  induction l with
  | nil => rfl
  | cons a l ih =>
      rw [List.map_cons, List.mapM_cons, h a List.mem_cons_self,
        ih fun b hb ↦ h b (List.mem_cons_of_mem a hb)]
      rfl

theorem exists_read_of_mapM {l : List B} {r : List A} (h : l.mapM read = .ok r) :
    ∀ b ∈ l, ∃ a, read b = .ok a := by
  induction l generalizing r with
  | nil => exact fun b hb ↦ absurd hb List.not_mem_nil
  | cons c l ih =>
      rw [List.mapM_cons] at h
      intro b hb
      cases hc : read c with
      | error e =>
          rw [hc] at h
          cases h
      | ok a =>
          rcases List.mem_cons.mp hb with rfl | hb
          · exact ⟨a, hc⟩
          · cases hl : l.mapM read with
            | error e =>
                rw [hc, hl] at h
                cases h
            | ok r' => exact ih hl b hb

end Lists

/-! ## Quoted strings

Written with the short escapes for quotes and backslashes, and by their number for the control
characters. -/

section Quoted

def hexDigit (n : Nat) : Char := "0123456789abcdef".toList.getD n '0'

def hexVal (c : Char) : Nat := "0123456789abcdef".toList.idxOf c

theorem hexVal_hexDigit : ∀ n < 16, hexVal (hexDigit n) = n := by decide

def escape (c : Char) : List Char :=
  if c = '"' ∨ c = '\\' then ['\\', c]
  else if c.toNat < 0x20 then
    ['\\', 'u', '0', '0', hexDigit (c.toNat / 16), hexDigit (c.toNat % 16)]
  else [c]

def quote (s : String) : String := String.ofList ('"' :: s.toList.flatMap escape ++ ['"'])

/-- What stands before the closing quote, which is the last character. -/
def unescape : List Char → Option (List Char)
  | [] => none
  | ['"'] => some []
  | '"' :: _ => none
  | '\\' :: 'u' :: _ :: _ :: high :: low :: rest =>
      (unescape rest).map (Char.ofNat (16 * hexVal high + hexVal low) :: ·)
  | '\\' :: 'u' :: _ => none
  | '\\' :: c :: rest => (unescape rest).map (c :: ·)
  | c :: rest => (unescape rest).map (c :: ·)

/-- A text that is one quoted string. -/
def unquote (text : String) : Option String :=
  match text.toList with
  | '"' :: rest => (unescape rest).map String.ofList
  | _ => none

theorem unescape_escape (c : Char) (rest : List Char) :
    unescape (escape c ++ rest) = (unescape rest).map (c :: ·) := by
  rw [escape]
  split_ifs with hshort hcontrol
  · rcases hshort with rfl | rfl
    · rfl
    · rfl
  · have hnum : 16 * (c.toNat / 16) + c.toNat % 16 = c.toNat := Nat.div_add_mod _ _
    simp only [List.cons_append, List.nil_append, unescape]
    rw [hexVal_hexDigit _ (by omega), hexVal_hexDigit _ (by omega), hnum, Char.ofNat_toNat]
  · obtain ⟨hquote, hbackslash⟩ := not_or.mp hshort
    rw [List.singleton_append, unescape.eq_def]
    split <;> simp_all

theorem unescape_flatMap (cs : List Char) :
    unescape (cs.flatMap escape ++ ['"']) = some cs := by
  induction cs with
  | nil => rfl
  | cons c cs ih => rw [List.flatMap_cons, List.append_assoc, unescape_escape, ih, Option.map_some]

theorem unquote_quote (s : String) : unquote (quote s) = some s := by
  rw [unquote, quote, String.toList_ofList]
  simp only [List.cons_append, unescape_flatMap, Option.map_some, String.ofList_toList]

theorem backslash_mem_escape (c : Char) : '\\' ∈ escape c ↔ NeedsEscape c := by
  rw [escape, NeedsEscape]
  split_ifs with hshort hcontrol
  · simp only [List.mem_cons, true_or, true_iff]
    rcases hshort with rfl | rfl
    · exact .inl rfl
    · exact .inr (.inl rfl)
  · simp only [List.mem_cons, true_or, true_iff]
    exact .inr (.inr hcontrol)
  · obtain ⟨hquote, hbackslash⟩ := not_or.mp hshort
    rw [List.mem_singleton]
    simp only [hquote, hbackslash, hcontrol, or_self, iff_false]
    exact Ne.symm hbackslash

theorem backslash_mem_quote (s : String) :
    '\\' ∈ (quote s).toList ↔ ∃ c ∈ s.toList, NeedsEscape c := by
  rw [quote, String.toList_ofList, List.mem_append, List.mem_cons, List.mem_flatMap,
    List.mem_singleton]
  simp only [backslash_mem_escape, Char.reduceEq, false_or, or_false]

/-- A string that is lent if its text has no escapes, and shown otherwise. -/
def offerOf (text s : String) : Offer :=
  if '\\' ∈ text.toList then .transient s else .borrowed s

theorem content_offerOf (text s : String) : (offerOf text s).content = s := by
  rw [offerOf]
  split_ifs <;> rfl

theorem isBorrowed_offerOf_iff {text s : String} :
    (offerOf text s).IsBorrowed ↔ '\\' ∉ text.toList := by
  rw [offerOf]
  split_ifs with h
  · exact ⟨False.elim, fun hno ↦ hno h⟩
  · exact ⟨fun _ ↦ h, fun _ ↦ trivial⟩

/-- Quoted strings, with errors for what is no quoted string and for what cannot be lent. -/
def quoted : SerdeJson String where
  custom := id
  toString := quote
  offer text := ((unquote text).map (offerOf text)).elim (.error "expected value") .ok
  borrow
    | .borrowed s => .ok s
    | .transient _ | .owned _ => .error "expected a borrowed string"
  offer_toString s := ⟨offerOf (quote s) s, by rw [unquote_quote]; rfl, content_offerOf _ _⟩
  backslash_mem_toString := backslash_mem_quote
  isBorrowed_iff {text o} h := by
    cases hread : unquote text with
    | none =>
        rw [hread] at h
        cases h
    | some s =>
        rw [hread] at h
        cases h
        exact isBorrowed_offerOf_iff
  borrow_borrowed _ := rfl
  borrow_copy {o} h := by
    cases o with
    | borrowed s => exact absurd trivial h
    | transient s => exact ⟨_, rfl⟩
    | owned s => exact ⟨_, rfl⟩

end Quoted

end Nanobook.Serde
