import Mathlib.Algebra.Group.Nat.Defs
import Mathlib.Data.List.Infix
import Mathlib.Data.List.TakeWhile

/-!
# Text

What the standard library does with texts and their bytes.
-/

namespace Nanobook

/-! ## Characters -/

/-- `char::is_whitespace`: the property `White_Space`. -/
def isWhitespace (c : Char) : Bool :=
  let n := c.toNat
  (9 ≤ n && n ≤ 13) || n = 32 || n = 0x85 || n = 0xA0 || n = 0x1680 || (0x2000 ≤ n && n ≤ 0x200A) ||
    n = 0x2028 || n = 0x2029 || n = 0x202F || n = 0x205F || n = 0x3000

/-- Drop the characters of a kind from both ends. -/
def trimBy (p : Char → Bool) (s : String) : String :=
  String.ofList ((s.toList.dropWhile p).reverse.dropWhile p).reverse

/-- `str::trim`. -/
def trim (s : String) : String := trimBy isWhitespace s

/-- Nothing is left of a text made of such characters alone. -/
theorem trimBy_eq_empty_iff {p : Char → Bool} {s : String} :
    trimBy p s = "" ↔ ∀ c ∈ s.toList, p c = true := by
  have hnil : ∀ l : List Char, l.dropWhile p = [] ↔ ∀ c ∈ l, p c = true := fun l ↦
    List.dropWhile_eq_nil_iff
  rw [trimBy, ← String.toList_inj, String.toList_ofList]
  constructor
  · intro h
    have hall := (hnil _).mp (List.reverse_eq_nil_iff.mp h)
    by_contra hsome
    have hne : s.toList.dropWhile p ≠ [] := fun hd ↦ hsome ((hnil _).mp hd)
    have hhead := List.head_dropWhile_not p hne
    rw [hall _ (List.mem_reverse.mpr (List.head_mem hne))] at hhead
    cases hhead
  · intro h
    rw [(hnil _).mpr h]
    rfl

/-- `char::to_lowercase`, for the characters that have an ASCII letter in their lower case. -/
def toLowercaseChar (c : Char) : List Char :=
  if c.toNat = 0x130 then ['i', Char.ofNat 0x307]
  else if c.toNat = 0x212A then ['k']
  else [c.toLower]

/-- `str::to_lowercase`, for a text in which ASCII is looked for. -/
def toLowercase (s : String) : String := String.ofList (s.toList.flatMap toLowercaseChar)

/-- `str::contains`. -/
def contains (s pattern : String) : Bool := decide (pattern.toList <:+: s.toList)

/-- The value of a list of digits. -/
def ofDigits (base : Nat) (digits : List Nat) : Nat := digits.foldl (fun n d ↦ base * n + d) 0

/-! ## Bytes -/

/-- `char::REPLACEMENT_CHARACTER`. -/
def replacementCharacter : Char := Char.ofNat 0xFFFD

def isContinuation (b : UInt8) : Bool := 0x80 ≤ b && b ≤ 0xBF

/-- Whether `second` may come after `first` where three or four bytes make a character. -/
def isSecondOf (first second : UInt8) : Bool :=
  let low : UInt8 := if first = 0xE0 then 0xA0 else if first = 0xF0 then 0x90 else 0x80
  let high : UInt8 := if first = 0xED then 0x9F else if first = 0xF4 then 0x8F else 0xBF
  low ≤ second && second ≤ high

/-- The first character of a text, with the number of bytes it takes after the first one.  Bytes
that cannot be continued are replaced together. -/
def utf8Char (b : UInt8) (rest : List UInt8) : Char × Nat :=
  let second := rest.getD 0 0
  let third := rest.getD 1 0
  let fourth := rest.getD 2 0
  let low (b : UInt8) : Nat := b.toNat % 64
  if b < 0x80 then (Char.ofNat b.toNat, 0)
  else if 0xC2 ≤ b ∧ b ≤ 0xDF then
    if !isContinuation second then (replacementCharacter, 0)
    else (Char.ofNat (b.toNat % 32 * 64 + low second), 1)
  else if 0xE0 ≤ b ∧ b ≤ 0xEF then
    if !isSecondOf b second then (replacementCharacter, 0)
    else if !isContinuation third then (replacementCharacter, 1)
    else (Char.ofNat (b.toNat % 16 * 64 ^ 2 + low second * 64 + low third), 2)
  else if 0xF0 ≤ b ∧ b ≤ 0xF4 then
    if !isSecondOf b second then (replacementCharacter, 0)
    else if !isContinuation third then (replacementCharacter, 1)
    else if !isContinuation fourth then (replacementCharacter, 2)
    else (Char.ofNat (b.toNat % 8 * 64 ^ 3 + low second * 64 ^ 2 + low third * 64 + low fourth), 3)
  else (replacementCharacter, 0)

/-- The characters after the first `skip` bytes, which belong to the character before. -/
def utf8Chars : Nat → List UInt8 → List Char
  | _, [] => []
  | skip + 1, _ :: rest => utf8Chars skip rest
  | 0, b :: rest =>
      let (c, more) := utf8Char b rest
      c :: utf8Chars more rest

/-- `String::from_utf8_lossy`. -/
def fromUtf8Lossy (bytes : List UInt8) : String := String.ofList (utf8Chars 0 bytes)

/-- ASCII is read byte by byte. -/
theorem utf8Chars_of_ascii {bytes : List UInt8} (h : ∀ b ∈ bytes, b < 0x80) :
    utf8Chars 0 bytes = bytes.map fun b ↦ Char.ofNat b.toNat := by
  induction bytes with
  | nil => rfl
  | cons b rest ih =>
      have hb : b < 0x80 := h b List.mem_cons_self
      rw [utf8Chars, List.map_cons, ← ih fun b hb ↦ h b (List.mem_cons_of_mem _ hb)]
      simp only [utf8Char, hb, if_true]

/-- Two bytes of a character of three are replaced by one character. -/
example : fromUtf8Lossy [0x41, 0xC3, 0xA9, 0xE2, 0x82, 0x42, 0xFF] =
    String.ofList ['A', Char.ofNat 0xE9, replacementCharacter, 'B', replacementCharacter] := by
  decide

end Nanobook
