import Mathlib.Data.List.Basic
import Mathlib.Data.Nat.Find

/-!
# Texts as bytes

The bytes of a text are those of its characters, in UTF-8.  A text is given back by its bytes, and
where bytes that begin those of a text are bytes of a text themselves, they end between two of its
characters.
-/

namespace Nanobook.Utf8

/-- The bytes of a text. -/
def asBytes (s : String) : List UInt8 := s.toList.flatMap String.utf8EncodeChar

theorem toByteArray_eq (s : String) : s.toByteArray = (asBytes s).toByteArray := by
  conv_lhs => rw [← String.ofList_toList (s := s), String.toByteArray_ofList]
  rfl

theorem asBytes_injective {s t : String} (h : asBytes s = asBytes t) : s = t := by
  rw [← String.toByteArray_inj, toByteArray_eq, toByteArray_eq, h]

theorem length_asBytes (s : String) : (asBytes s).length = s.utf8ByteSize := by
  rw [← String.size_toByteArray, toByteArray_eq, List.size_toByteArray]

theorem asBytes_ofList (cs : List Char) :
    asBytes (String.ofList cs) = cs.flatMap String.utf8EncodeChar := by
  rw [asBytes, String.toList_ofList]

/-- Characters that all take as many bytes. -/
theorem utf8ByteSize_ofList {cs : List Char} {n : Nat} (h : ∀ c ∈ cs, c.utf8Size = n) :
    (String.ofList cs).utf8ByteSize = n * cs.length := by
  rw [← length_asBytes, asBytes_ofList]
  induction cs with
  | nil => rfl
  | cons c cs ih =>
      rw [List.flatMap_cons, List.length_append, String.length_utf8EncodeChar,
        h c List.mem_cons_self, ih fun d hd ↦ h d (List.mem_cons_of_mem c hd), List.length_cons,
        Nat.mul_succ, Nat.add_comm]

/-! ## Bytes that are those of a text -/

def Valid (bytes : List UInt8) : Prop := bytes.toByteArray.IsValidUTF8

instance : DecidablePred Valid := fun bytes ↦
  inferInstanceAs (Decidable bytes.toByteArray.IsValidUTF8)

/-- The text that bytes are those of. -/
def ofBytes (bytes : List UInt8) (h : Valid bytes) : String := String.fromUTF8 bytes.toByteArray h

theorem valid_asBytes (s : String) : Valid (asBytes s) := by
  rw [Valid, ← toByteArray_eq]
  exact s.isValidUTF8

theorem valid_nil : Valid [] := valid_asBytes ""

@[simp] theorem asBytes_ofBytes (bytes : List UInt8) (h : Valid bytes) :
    asBytes (ofBytes bytes h) = bytes := by
  rw [← List.toByteArray_inj, ← toByteArray_eq]
  rfl

/-- Of two texts, one begins with the other if its bytes do. -/
theorem toList_isPrefix {s t : String} (h : asBytes t <+: asBytes s) : t.toList <+: s.toList := by
  obtain ⟨rest, hrest⟩ := h
  apply List.isPrefix_of_utf8Encode_append_eq_utf8Encode rest.toByteArray
  exact List.toByteArray_append.symm.trans (congrArg List.toByteArray hrest)

theorem asBytes_isPrefix {s t : String} (h : t.toList <+: s.toList) : asBytes t <+: asBytes s := by
  obtain ⟨rest, hrest⟩ := h
  refine ⟨rest.flatMap String.utf8EncodeChar, ?_⟩
  rw [asBytes, asBytes, ← hrest, List.flatMap_append]

/-! ## How far bytes are those of a text -/

/-- The greatest index such that the bytes up to it are those of a text. -/
def validUpTo (bytes : List UInt8) : Nat :=
  Nat.findGreatest (fun n ↦ Valid (bytes.take n)) bytes.length

theorem validUpTo_le (bytes : List UInt8) : validUpTo bytes ≤ bytes.length :=
  Nat.findGreatest_le bytes.length

theorem valid_take_validUpTo (bytes : List UInt8) : Valid (bytes.take (validUpTo bytes)) :=
  Nat.findGreatest_spec (P := fun n ↦ Valid (bytes.take n)) (Nat.zero_le _) valid_nil

theorem le_validUpTo {bytes : List UInt8} {n : Nat} (hn : n ≤ bytes.length)
    (h : Valid (bytes.take n)) : n ≤ validUpTo bytes :=
  Nat.le_findGreatest hn h

theorem validUpTo_of_valid {bytes : List UInt8} (h : Valid bytes) :
    validUpTo bytes = bytes.length := by
  apply Nat.findGreatest_eq
  rwa [List.take_length]

end Nanobook.Utf8
