import Nanobook.Lib.Utf8
import Nanobook.Broker.Binance
import Nanobook.Rebalancer.Run

/-!
# Where client order ids come from

`ClientOrderId::derive`: a hash of the scope, the symbol, the side and the quantity of an order.
The bytes that are hashed end with eleven of a fixed layout, and before these the symbol is what
follows the last zero, so that they say which order they are of, whatever the scope contains.

The hash is a parameter: 32 bytes for each input.
-/

namespace Nanobook.Binance

open Rebalancer (BrokerSide Primitives RebalanceOrder RunInput Session actionToSide
  deriveClientOrderId)
open Utf8 (asBytes)

/-! ## What is hashed -/

/-- `u64::to_le_bytes`. -/
def toLeBytes (n : UInt64) : List UInt8 :=
  (List.range 8).map fun i ↦ UInt8.ofNat (n.toNat / 256 ^ i)

def sideTag : BrokerSide → UInt8
  | .buy => 'B'.toUInt8
  | .sell => 'S'.toUInt8

/-- The bytes that are fed to the hash. -/
def preimage (scope symbol : String) (side : BrokerSide) (qty : UInt64) : List UInt8 :=
  asBytes scope ++ [0] ++ asBytes symbol ++ [0] ++ [sideTag side] ++ [0] ++ toLeBytes qty

/-- A digit of `{:02x}`. -/
def hexDigit (n : Nat) : Char := "0123456789abcdef".toList.getD n '0'

def hexByte (b : UInt8) : List Char := [hexDigit (b.toNat / 16), hexDigit (b.toNat % 16)]

def hex (bytes : List UInt8) : List Char := bytes.flatMap hexByte

section Bytes

theorem length_toLeBytes (n : UInt64) : (toLeBytes n).length = 8 := by
  rw [toLeBytes, List.length_map, List.length_range]

/-- The bytes of a number are its digits. -/
theorem mod_eq_of_digits {a b : Nat} {k : Nat}
    (h : ∀ i < k, a / 256 ^ i % 256 = b / 256 ^ i % 256) : a % 256 ^ k = b % 256 ^ k := by
  induction k with
  | zero => rw [pow_zero, Nat.mod_one, Nat.mod_one]
  | succ k ih =>
      rw [Nat.mod_pow_succ, Nat.mod_pow_succ, ih fun i hi ↦ h i (Nat.lt_succ_of_lt hi),
        h k (Nat.lt_succ_self k)]

theorem toLeBytes_injective {m n : UInt64} (h : toLeBytes m = toLeBytes n) : m = n := by
  have hdigits (i : Nat) (hi : i < 8) : m.toNat / 256 ^ i % 256 = n.toNat / 256 ^ i % 256 := by
    have hbyte := List.map_inj_left.mp h i (List.mem_range.mpr hi)
    rw [← UInt8.toNat_inj, UInt8.toNat_ofNat', UInt8.toNat_ofNat'] at hbyte
    exact hbyte
  have hmod : m.toNat % 2 ^ 64 = n.toNat % 2 ^ 64 := mod_eq_of_digits hdigits
  rwa [Nat.mod_eq_of_lt m.toNat_lt, Nat.mod_eq_of_lt n.toNat_lt, UInt64.toNat_inj] at hmod

theorem sideTag_injective {side side' : BrokerSide} (h : sideTag side = sideTag side') :
    side = side' := by
  cases side <;> cases side' <;> first | rfl | exact absurd h (by decide)

/-- A list with marks in it is split at the last one. -/
theorem append_cons_inj_of_notMem_right {A : Type} {a : A} {x y x' y' : List A} (hy : a ∉ y)
    (hy' : a ∉ y') (h : x ++ a :: y = x' ++ a :: y') : x = x' ∧ y = y' := by
  rcases List.append_eq_append_iff.mp h with ⟨c, rfl, hc⟩ | ⟨c, rfl, hc⟩
  · rcases List.cons_eq_append_iff.mp hc with ⟨rfl, hc⟩ | ⟨c, rfl, rfl⟩
    · exact ⟨(List.append_nil x).symm, (List.cons.inj hc).2⟩
    · exact absurd (List.mem_append_right c List.mem_cons_self) hy
  · rcases List.cons_eq_append_iff.mp hc with ⟨rfl, hc⟩ | ⟨c, rfl, rfl⟩
    · exact ⟨List.append_nil x', (List.cons.inj hc).2.symm⟩
    · exact absurd (List.mem_append_right c List.mem_cons_self) hy'

/-- The bytes that are hashed are those of one order only. -/
theorem preimage_injective {scope scope' symbol symbol' : String} {side side' : BrokerSide}
    {qty qty' : UInt64} (hsymbol : 0 ∉ asBytes symbol) (hsymbol' : 0 ∉ asBytes symbol')
    (h : preimage scope symbol side qty = preimage scope' symbol' side' qty') :
    scope = scope' ∧ symbol = symbol' ∧ side = side' ∧ qty = qty' := by
  -- the fixed layout is taken off from the end
  obtain ⟨h, hqty⟩ := List.append_inj' h (by rw [length_toLeBytes, length_toLeBytes])
  obtain ⟨h, -⟩ := List.append_inj' h rfl
  obtain ⟨h, hside⟩ := List.append_inj' h rfl
  obtain ⟨h, -⟩ := List.append_inj' h rfl
  rw [List.append_assoc, List.append_assoc] at h
  obtain ⟨hscope, hsym⟩ := append_cons_inj_of_notMem_right hsymbol hsymbol' h
  exact ⟨Utf8.asBytes_injective hscope, Utf8.asBytes_injective hsym,
    sideTag_injective (List.head_eq_of_cons_eq hside), toLeBytes_injective hqty⟩

end Bytes

section Hex

theorem hexDigit_injective : ∀ m < 16, ∀ n < 16, hexDigit m = hexDigit n → m = n := by decide

theorem hexByte_injective {b c : UInt8} (h : hexByte b = hexByte c) : b = c := by
  have hb := b.toNat_lt
  have hc := c.toNat_lt
  obtain ⟨hhigh, hlow⟩ := List.cons.inj h
  have hdiv := hexDigit_injective _ (by omega) _ (by omega) hhigh
  have hmod := hexDigit_injective _ (by omega) _ (by omega) (List.head_eq_of_cons_eq hlow)
  rw [← UInt8.toNat_inj]
  omega

theorem hex_injective {bs cs : List UInt8} (h : hex bs = hex cs) : bs = cs := by
  induction bs generalizing cs with
  | nil =>
      cases cs with
      | nil => rfl
      | cons c cs => cases h
  | cons b bs ih =>
      cases cs with
      | nil => cases h
      | cons c cs =>
          obtain ⟨hbyte, hrest⟩ := List.append_inj h rfl
          rw [hexByte_injective hbyte, ih hrest]

/-- What hexadecimal digits are written with may stand in a query, and takes a byte each. -/
theorem hexDigit_spec : ∀ n < 16, isSafe (hexDigit n) = true ∧ (hexDigit n).utf8Size = 1 := by
  decide

theorem mem_hex {bs : List UInt8} {c : Char} (h : c ∈ hex bs) :
    isSafe c = true ∧ c.utf8Size = 1 := by
  obtain ⟨b, -, hc⟩ := List.mem_flatMap.mp h
  have hb := b.toNat_lt
  rw [hexByte, List.mem_cons, List.mem_singleton] at hc
  rcases hc with rfl | rfl
  · exact hexDigit_spec _ (by omega)
  · exact hexDigit_spec _ (by omega)

theorem length_hex (bs : List UInt8) : (hex bs).length = 2 * bs.length := by
  induction bs with
  | nil => rfl
  | cons b bs ih =>
      rw [hex, List.flatMap_cons, List.length_append, ← hex, ih, List.length_cons]
      exact (Nat.add_comm _ _).trans (Nat.mul_succ 2 bs.length).symm

theorem utf8ByteSize_hex (bs : List UInt8) :
    (String.ofList (hex bs)).utf8ByteSize = 2 * bs.length := by
  rw [Utf8.utf8ByteSize_ofList fun c hc ↦ (mem_hex hc).2, length_hex, Nat.one_mul]

end Hex

/-! ## Ids -/

section Derive

variable (sha256 : List UInt8 → Vector UInt8 32)

/-- The bytes of the digest that make an id. -/
def shortDigest (bytes : List UInt8) : List UInt8 := (sha256 bytes).toList.take 16

theorem length_shortDigest (bytes : List UInt8) : (shortDigest sha256 bytes).length = 16 := by
  rw [shortDigest, List.length_take, Vector.length_toList]
  rfl

theorem utf8ByteSize_shortDigest (bytes : List UInt8) :
    (String.ofList (hex (shortDigest sha256 bytes))).utf8ByteSize = 32 := by
  rw [utf8ByteSize_hex, length_shortDigest]

theorem shortDigest_ne_empty (bytes : List UInt8) :
    String.ofList (hex (shortDigest sha256 bytes)) ≠ "" := by
  intro hnil
  have hsize := utf8ByteSize_shortDigest sha256 bytes
  rw [hnil] at hsize
  exact absurd hsize (by decide)

/-- `ClientOrderId::derive`. -/
def ClientOrderId.derive (scope symbol : String) (side : BrokerSide) (qty : UInt64) :
    ClientOrderId where
  asStr := String.ofList (hex (shortDigest sha256 (preimage scope symbol side qty)))
  nonempty := shortDigest_ne_empty sha256 _
  short := (utf8ByteSize_shortDigest sha256 _).trans_le (Nat.le_add_right 32 4)
  safe := by
    rw [String.toList_ofList, List.all_eq_true]
    exact fun c hc ↦ (mem_hex hc).1

/-- Two inputs with the same truncated digest. -/
def Collide (bytes bytes' : List UInt8) : Prop :=
  bytes ≠ bytes' ∧ shortDigest sha256 bytes = shortDigest sha256 bytes'

variable {W : Type} (prims : Primitives W) (input : RunInput W)

/-- The primitives of a run, with the hash of the client order ids. -/
def withDerivedIds : Primitives W :=
  { prims with
    clientOrderHash := fun scope symbol side qty ↦
      (ClientOrderId.derive sha256 scope symbol side (UInt64.ofNat qty)).asStr }

/-- What is hashed for an order of a run. -/
def orderBytes (order : RebalanceOrder) : List UInt8 :=
  preimage input.target.idempotencyScope order.symbol.asStr (actionToSide order.action)
    (UInt64.ofNat order.shares.toInt.toNat)

/-- A run derives the id of an order that does not have a negative quantity. -/
theorem deriveClientOrderId_eq_ok {order : RebalanceOrder} {s : Session} {id : String}
    (h : (deriveClientOrderId (withDerivedIds sha256 prims) input order s).1 = .ok id) :
    0 ≤ order.shares.toInt ∧
      id = String.ofList (hex (shortDigest sha256 (orderBytes input order))) := by
  rw [deriveClientOrderId] at h
  split_ifs at h with hneg
  · cases h
  · cases h
    rw [Int64.lt_iff_toInt_lt, Int64.toInt_zero] at hneg
    exact ⟨Int.not_lt.mp hneg, rfl⟩

theorem ofNat_toNat_toInt_injective {a b : Int64} (ha : 0 ≤ a.toInt) (hb : 0 ≤ b.toInt)
    (h : UInt64.ofNat a.toInt.toNat = UInt64.ofNat b.toInt.toNat) : a = b := by
  have hlt (a : Int64) : a.toInt.toNat < 2 ^ 64 := by
    have := a.toInt_lt
    omega
  have hnat := congrArg UInt64.toNat h
  rw [UInt64.toNat_ofNat_of_lt' (hlt a), UInt64.toNat_ofNat_of_lt' (hlt b)] at hnat
  exact Int64.toInt_inj.mp (by omega)

/-- The bytes that are hashed are those of one scope, symbol, side and quantity only.  So two orders
of one run share an id only if they agree in all three, or if the truncated hash collides on what is
hashed for them. -/
theorem clientOrderIds_unambiguous :
    (∀ (scope scope' symbol symbol' : String) (side side' : BrokerSide) (qty qty' : UInt64),
      0 ∉ asBytes symbol → 0 ∉ asBytes symbol' →
      preimage scope symbol side qty = preimage scope' symbol' side' qty' →
      scope = scope' ∧ symbol = symbol' ∧ side = side' ∧ qty = qty') ∧
    ∀ (order order' : RebalanceOrder) (s s' : Session) (id : String),
      0 ∉ asBytes order.symbol.asStr → 0 ∉ asBytes order'.symbol.asStr →
      (deriveClientOrderId (withDerivedIds sha256 prims) input order s).1 = .ok id →
      (deriveClientOrderId (withDerivedIds sha256 prims) input order' s').1 = .ok id →
      (order.symbol = order'.symbol ∧ actionToSide order.action = actionToSide order'.action ∧
        order.shares = order'.shares) ∨
      Collide sha256 (orderBytes input order) (orderBytes input order') := by
  refine ⟨fun _ _ _ _ _ _ _ _ ↦ preimage_injective, ?_⟩
  intro order order' s s' id hsymbol hsymbol' h h'
  obtain ⟨hshares, rfl⟩ := deriveClientOrderId_eq_ok sha256 prims input h
  obtain ⟨hshares', hid⟩ := deriveClientOrderId_eq_ok sha256 prims input h'
  have hdigest := hex_injective (String.ofList_injective hid)
  by_cases heq : orderBytes input order = orderBytes input order'
  · obtain ⟨-, hsym, hside, hqty⟩ := preimage_injective hsymbol hsymbol' heq
    exact .inl ⟨Rebalancer.Symbol.asStr_injective hsym, hside,
      ofNat_toNat_toInt_injective hshares hshares' hqty⟩
  · exact .inr ⟨heq, hdigest⟩

end Derive

end Nanobook.Binance
