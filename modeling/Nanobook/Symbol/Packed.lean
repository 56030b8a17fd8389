import Nanobook.Lib.Padding
import Nanobook.Lib.Utf8
import Nanobook.Rebalancer.Types

/-!
# Symbols as they are stored

`Symbol` is eight bytes and a length.  The bytes up to the length are those of a text and the others
are zero, so that a symbol is its text, and the derived order is that of the bytes of the texts.
-/

namespace Nanobook.Packed

open Utf8 (asBytes)
open Padding (pad)

/-- `Symbol`: its fields are private, and what its constructors keep of them goes with it. -/
structure Symbol where
  buf : List UInt8
  len : UInt8
  size : buf.length = 8
  short : len.toNat ≤ 8
  utf8 : Utf8.Valid (buf.take len.toNat)
  padded : buf.drop len.toNat = List.replicate (8 - len.toNat) 0
deriving DecidableEq

namespace Symbol

theorem toNat_ofNat_length {bytes : List UInt8} (hshort : bytes.length ≤ 8) :
    (UInt8.ofNat bytes.length).toNat = bytes.length :=
  UInt8.toNat_ofNat_of_lt' (Nat.lt_of_le_of_lt hshort (Nat.le_add_left 9 247))

/-- Eight zeros, with bytes copied over the first of them. -/
def pack (bytes : List UInt8) (hshort : bytes.length ≤ 8) (hutf8 : Utf8.Valid bytes) : Symbol where
  buf := pad 0 8 bytes
  len := UInt8.ofNat bytes.length
  size := Padding.length_pad hshort
  short := (toNat_ofNat_length hshort).trans_le hshort
  utf8 := by rwa [toNat_ofNat_length hshort, Padding.take_pad]
  padded := by rw [toNat_ofNat_length hshort, Padding.drop_pad]

theorem asBytes_short {s : String} (h : s.utf8ByteSize ≤ 8) : (asBytes s).length ≤ 8 :=
  (Utf8.length_asBytes s).trans_le h

/-- `Symbol::try_new`. -/
def tryNew (s : String) : Option Symbol :=
  if h : s.utf8ByteSize > 8 then none
  else some (pack (asBytes s) (asBytes_short (Nat.le_of_not_lt h)) (Utf8.valid_asBytes s))

/-- How many of the bytes of a text `from_str_truncated` keeps: eight, or as many of them as
`valid_up_to` says if these are not those of a text. -/
def validLen (s : String) : Nat :=
  let len := min s.utf8ByteSize 8
  let truncated := (asBytes s).take len
  if Utf8.Valid truncated then len else Utf8.validUpTo truncated

theorem validLen_eq (s : String) : validLen s = Utf8.validUpTo ((asBytes s).take 8) := by
  have hmin : (asBytes s).take (min s.utf8ByteSize 8) = (asBytes s).take 8 := by
    rw [← Utf8.length_asBytes, Nat.min_comm, ← List.take_take, List.take_length]
  rw [validLen, hmin]
  split_ifs with hvalid
  · rw [Utf8.validUpTo_of_valid hvalid, List.length_take, Utf8.length_asBytes, Nat.min_comm]
  · rfl

theorem validLen_le (s : String) : validLen s ≤ 8 := by
  rw [validLen_eq]
  exact (Utf8.validUpTo_le _).trans (List.length_take_le 8 (asBytes s))

theorem valid_take_validLen (s : String) : Utf8.Valid ((asBytes s).take (validLen s)) := by
  have hvalid := Utf8.valid_take_validUpTo ((asBytes s).take 8)
  rwa [← validLen_eq, List.take_take, Nat.min_eq_left (validLen_le s)] at hvalid

/-- `Symbol::from_str_truncated`. -/
def fromStrTruncated (s : String) : Symbol :=
  pack ((asBytes s).take (validLen s)) ((List.length_take_le _ _).trans (validLen_le s))
    (valid_take_validLen s)

/-- `Symbol::as_str`. -/
def asStr (sym : Symbol) : String := Utf8.ofBytes (sym.buf.take sym.len.toNat) sym.utf8

/-- The derived order: that of the buffers, and then of the lengths. -/
def cmp (sym sym' : Symbol) : Ordering :=
  (compare sym.buf sym'.buf).then (compare sym.len sym'.len)

section Texts

variable (sym : Symbol)

theorem asBytes_asStr : asBytes sym.asStr = sym.buf.take sym.len.toNat :=
  Utf8.asBytes_ofBytes _ sym.utf8

theorem length_asBytes_asStr : (asBytes sym.asStr).length = sym.len.toNat := by
  rw [asBytes_asStr, List.length_take, sym.size, Nat.min_eq_left sym.short]

theorem utf8ByteSize_asStr : sym.asStr.utf8ByteSize ≤ 8 := by
  rw [← Utf8.length_asBytes, length_asBytes_asStr]
  exact sym.short

theorem buf_eq_pad : sym.buf = pad 0 8 (asBytes sym.asStr) := by
  rw [pad, length_asBytes_asStr, ← sym.padded, asBytes_asStr, List.take_append_drop]

@[simp] theorem asBytes_asStr_pack {bytes : List UInt8} (hshort : bytes.length ≤ 8)
    (hutf8 : Utf8.Valid bytes) : asBytes (pack bytes hshort hutf8).asStr = bytes := by
  rw [asBytes_asStr]
  exact (congrArg (List.take · _) (toNat_ofNat_length hshort)).trans Padding.take_pad

theorem asStr_injective {sym sym' : Symbol} (h : sym.asStr = sym'.asStr) : sym = sym' := by
  have hbuf : sym.buf = sym'.buf := by rw [buf_eq_pad sym, h, ← buf_eq_pad sym']
  have hlen : sym.len = sym'.len := by
    rw [← UInt8.toNat_inj, ← length_asBytes_asStr, h, length_asBytes_asStr]
  cases sym; cases sym'; cases hbuf; cases hlen; rfl

theorem tryNew_eq_some_iff {s : String} {sym : Symbol} :
    tryNew s = some sym ↔ sym.asStr = s := by
  rw [tryNew]
  split_ifs with hlong
  · refine ⟨nofun, ?_⟩
    rintro rfl
    exact absurd (utf8ByteSize_asStr sym) (Nat.not_le_of_lt hlong)
  · rw [Option.some_inj]
    have hs (hshort : (asBytes s).length ≤ 8) (hutf8 : Utf8.Valid (asBytes s)) :
        (pack (asBytes s) hshort hutf8).asStr = s := Utf8.asBytes_injective (asBytes_asStr_pack _ _)
    constructor
    · rintro rfl
      exact hs _ _
    · intro h
      exact asStr_injective ((hs _ _).trans h.symm)

theorem exists_tryNew {s : String} (h : s.utf8ByteSize ≤ 8) : ∃ sym, tryNew s = some sym := by
  rw [tryNew, dif_neg (Nat.not_lt_of_le h)]
  exact ⟨_, rfl⟩

/-- The stored symbols are those of the model above them. -/
def toSymbol : Rebalancer.Symbol := ⟨sym.asStr, sym.utf8ByteSize_asStr⟩

theorem toSymbol_injective {sym sym' : Symbol} (h : sym.toSymbol = sym'.toSymbol) : sym = sym' :=
  asStr_injective (congrArg Rebalancer.Symbol.asStr h)

def ofSymbol (sym : Rebalancer.Symbol) : Symbol :=
  pack (asBytes sym.asStr) (asBytes_short sym.short) (Utf8.valid_asBytes sym.asStr)

@[simp] theorem asStr_ofSymbol (sym : Rebalancer.Symbol) : (ofSymbol sym).asStr = sym.asStr :=
  Utf8.asBytes_injective (asBytes_asStr_pack _ _)

@[simp] theorem toSymbol_ofSymbol (sym : Rebalancer.Symbol) : (ofSymbol sym).toSymbol = sym :=
  Rebalancer.Symbol.asStr_injective (asStr_ofSymbol sym)

theorem tryNew_toSymbol (s : String) : (tryNew s).map toSymbol = Rebalancer.Symbol.tryNew s := by
  by_cases hshort : s.utf8ByteSize ≤ 8
  · obtain ⟨sym, hsym⟩ := exists_tryNew hshort
    obtain rfl := tryNew_eq_some_iff.mp hsym
    rw [hsym, Rebalancer.Symbol.tryNew, dif_pos hshort]
    rfl
  · rw [tryNew, dif_pos (Nat.lt_of_not_le hshort), Rebalancer.Symbol.tryNew, dif_neg hshort]
    rfl

end Texts

/-! ## Truncation and order -/

section Faithful

theorem asBytes_fromStrTruncated (s : String) :
    asBytes (fromStrTruncated s).asStr = (asBytes s).take (validLen s) := asBytes_asStr_pack _ _

theorem fromStrTruncated_isPrefix (s : String) :
    (fromStrTruncated s).asStr.toList <+: s.toList := by
  apply Utf8.toList_isPrefix
  rw [asBytes_fromStrTruncated]
  exact List.take_prefix _ _

/-- No text that a text begins with and that is short enough goes on further. -/
theorem fromStrTruncated_longest {s t : String} (ht : t.toList <+: s.toList)
    (hshort : t.utf8ByteSize ≤ 8) : t.toList <+: (fromStrTruncated s).asStr.toList := by
  have hbytes := Utf8.asBytes_isPrefix ht
  have htake : (asBytes s).take t.utf8ByteSize = asBytes t := by
    rw [← Utf8.length_asBytes, ← List.prefix_iff_eq_take.mp hbytes]
  have hlen : t.utf8ByteSize ≤ ((asBytes s).take 8).length := by
    rw [List.length_take, ← Utf8.length_asBytes]
    exact Nat.le_min.mpr ⟨asBytes_short hshort, hbytes.length_le⟩
  -- the bytes of the prefix are those of a text, so that validation goes as far as they do
  have hle : t.utf8ByteSize ≤ validLen s := by
    rw [validLen_eq]
    apply Utf8.le_validUpTo hlen
    rw [List.take_take, Nat.min_eq_left hshort, htake]
    exact Utf8.valid_asBytes t
  apply Utf8.toList_isPrefix
  rw [asBytes_fromStrTruncated, ← htake]
  exact List.take_prefix_take_left hle

theorem tryNew_eq_fromStrTruncated {s : String} (h : s.utf8ByteSize ≤ 8) :
    tryNew s = some (fromStrTruncated s) := by
  rw [tryNew_eq_some_iff, ← String.toList_inj]
  have hprefix := fromStrTruncated_isPrefix s
  exact hprefix.eq_of_length_le (fromStrTruncated_longest (List.prefix_refl _) h).length_le

theorem compare_len (sym sym' : Symbol) :
    compare sym.len sym'.len
      = compare (asBytes sym.asStr).length (asBytes sym'.asStr).length := by
  rw [length_asBytes_asStr, length_asBytes_asStr, UInt8.compare_eq_toNat_compare_toNat]

/-- Zeros are compared with zeros, or with what may not come before them. -/
theorem cmp_eq (sym sym' : Symbol) :
    cmp sym sym' = compare (asBytes sym.asStr) (asBytes sym'.asStr) := by
  have hshort (sym : Symbol) : (asBytes sym.asStr).length ≤ 8 :=
    asBytes_short sym.utf8ByteSize_asStr
  have hleast (b : UInt8) : (compare 0 b).isLE := Std.isLE_compare.mpr (UInt8.zero_le)
  rw [cmp, compare_len, buf_eq_pad sym, buf_eq_pad sym',
    Padding.compare_pad_then hleast (hshort sym) (hshort sym')]

/-- A truncated symbol is the longest prefix of its text that ends between two characters and has at
most eight bytes; it is what `try_new` makes of the text if that fits.  Of texts that fit, the
derived order is the order of their bytes, and only equal ones are equal in it. -/
theorem symbols_faithful :
    (∀ s : String,
      Utf8.Valid ((fromStrTruncated s).buf.take (fromStrTruncated s).len.toNat) ∧
      (fromStrTruncated s).asStr.toList <+: s.toList ∧
      (fromStrTruncated s).asStr.utf8ByteSize ≤ 8 ∧
      (∀ t : String, t.toList <+: s.toList → t.utf8ByteSize ≤ 8 →
        t.toList <+: (fromStrTruncated s).asStr.toList) ∧
      (s.utf8ByteSize ≤ 8 → tryNew s = some (fromStrTruncated s))) ∧
    ∀ s s' : String, s.utf8ByteSize ≤ 8 → s'.utf8ByteSize ≤ 8 →
      ∃ sym sym', tryNew s = some sym ∧ tryNew s' = some sym' ∧
        cmp sym sym' = compare (asBytes s) (asBytes s') ∧
        (cmp sym sym' = .eq ↔ s = s') ∧ (sym = sym' ↔ s = s') := by
  constructor
  · intro s
    exact ⟨(fromStrTruncated s).utf8, fromStrTruncated_isPrefix s, utf8ByteSize_asStr _,
      fun t ↦ fromStrTruncated_longest, tryNew_eq_fromStrTruncated⟩
  · intro s s' hs hs'
    obtain ⟨sym, hsym⟩ := exists_tryNew hs
    obtain ⟨sym', hsym'⟩ := exists_tryNew hs'
    refine ⟨sym, sym', hsym, hsym', ?_⟩
    obtain rfl := tryNew_eq_some_iff.mp hsym
    obtain rfl := tryNew_eq_some_iff.mp hsym'
    refine ⟨cmp_eq sym sym', ?_, congrArg asStr, asStr_injective⟩
    rw [cmp_eq, Std.LawfulEqOrd.compare_eq_iff_eq]
    exact ⟨Utf8.asBytes_injective, congrArg asBytes⟩

example : (fromStrTruncated "abcdefgé").asStr = "abcdefg" := by decide

end Faithful

end Symbol

end Nanobook.Packed
