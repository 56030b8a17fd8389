import Nanobook.Lib.HashMap
import Nanobook.Lib.Serde
import Nanobook.Portfolio.Position
import Nanobook.Symbol.Packed

/-!
# Symbols in JSON

`Serialize` and `Deserialize` of `Symbol`, and of the positions of a portfolio, which are saved as
pairs of a symbol and a position, by symbol.

A symbol is read as a string that the input lends.  So it is read back exactly if nothing in it has
to be escaped, and positions can be loaded again exactly if this holds of all their symbols.
-/

namespace Nanobook.Packed

open Serde (Plain SerdeJson)

variable {E : Type} (json : SerdeJson E)

/-! ## Symbols -/

/-- `Symbol::serialize`. -/
def serialize (sym : Symbol) : String := json.toString sym.asStr

/-- `Symbol::deserialize`. -/
def deserialize (text : String) : Except E Symbol := do
  let s ← json.readStr text
  (Symbol.tryNew s).elim (.error (json.custom "Symbol must be at most 8 bytes")) .ok

theorem deserialize_serialize {sym : Symbol} (h : Plain sym.asStr) :
    deserialize json (serialize json sym) = .ok sym := by
  rw [deserialize, serialize, json.readStr_toString h]
  change (Symbol.tryNew sym.asStr).elim _ _ = _
  rw [Symbol.tryNew_eq_some_iff.mpr rfl]
  rfl

theorem deserialize_serialize_error {sym : Symbol} (h : ¬ Plain sym.asStr) :
    ∃ e, deserialize json (serialize json sym) = .error e := by
  obtain ⟨e, he⟩ := json.readStr_toString_error h
  refine ⟨e, ?_⟩
  rw [deserialize, serialize, he]
  rfl

theorem deserialize_serialize_iff (sym : Symbol) :
    deserialize json (serialize json sym) = .ok sym ↔ Plain sym.asStr := by
  refine ⟨fun h ↦ ?_, deserialize_serialize json⟩
  by_contra hno
  obtain ⟨e, he⟩ := deserialize_serialize_error json hno
  rw [he] at h
  cases h

/-! ## Positions -/

/-- What is saved of a position. -/
structure SavedPosition where
  symbol : String
  quantity : Int
  avgEntryPrice : Int
  realizedPnl : Int
  totalCost : Int

def serializeSymbol (sym : Rebalancer.Symbol) : String := serialize json (Symbol.ofSymbol sym)

def deserializeSymbol (text : String) : Except E Rebalancer.Symbol :=
  (deserialize json text).map Symbol.toSymbol

def serializePosition (pos : Position) : SavedPosition where
  symbol := serializeSymbol json pos.symbol
  quantity := pos.quantity
  avgEntryPrice := pos.avgEntryPrice
  realizedPnl := pos.realizedPnl
  totalCost := pos.totalCost

def deserializePosition (saved : SavedPosition) : Except E Position := do
  let symbol ← deserializeSymbol json saved.symbol
  return {
    symbol
    quantity := saved.quantity
    avgEntryPrice := saved.avgEntryPrice
    realizedPnl := saved.realizedPnl
    totalCost := saved.totalCost }

/-- A pair of a symbol and a position, written and read. -/
def serializePair (e : Rebalancer.Symbol × Position) : String × SavedPosition :=
  (serializeSymbol json e.1, serializePosition json e.2)

@[inherit_doc serializePair] def deserializePair (saved : String × SavedPosition) :
    Except E (Rebalancer.Symbol × Position) := do
  let sym ← deserializeSymbol json saved.1
  let pos ← deserializePosition json saved.2
  return (sym, pos)

/-- `serde_positions::serialize`. -/
def savePositions (order : HashMap.Order Rebalancer.Symbol)
    (positions : HashMap Rebalancer.Symbol Position) : List (String × SavedPosition) :=
  let vec := (positions.iter order).mergeSort fun a b ↦
    (Symbol.cmp (Symbol.ofSymbol a.1) (Symbol.ofSymbol b.1)).isLE
  vec.map (serializePair json)

/-- `serde_positions::deserialize`. -/
def loadPositions (saved : List (String × SavedPosition)) :
    Except E (HashMap Rebalancer.Symbol Position) := do
  let vec ← saved.mapM (deserializePair json)
  return vec.foldl (fun m e ↦ m.insert e.1 e.2) HashMap.empty

section Positions

theorem deserializeSymbol_serializeSymbol {sym : Rebalancer.Symbol} (h : Plain sym.asStr) :
    deserializeSymbol json (serializeSymbol json sym) = .ok sym := by
  have hsym : Plain (Symbol.ofSymbol sym).asStr := by rwa [Symbol.asStr_ofSymbol]
  rw [deserializeSymbol, serializeSymbol, deserialize_serialize json hsym, Except.map,
    Symbol.toSymbol_ofSymbol]

theorem plain_of_deserializeSymbol {sym read : Rebalancer.Symbol}
    (h : deserializeSymbol json (serializeSymbol json sym) = .ok read) : Plain sym.asStr := by
  by_contra hno
  have hsym : ¬ Plain (Symbol.ofSymbol sym).asStr := by rwa [Symbol.asStr_ofSymbol]
  obtain ⟨e, he⟩ := deserialize_serialize_error json hsym
  rw [deserializeSymbol, serializeSymbol, he] at h
  cases h

variable {pair : Rebalancer.Symbol × Position}

theorem deserializePair_serializePair (hsym : Plain pair.1.asStr)
    (hpos : Plain pair.2.symbol.asStr) :
    deserializePair json (serializePair json pair) = .ok pair := by
  rw [deserializePair, serializePair, deserializeSymbol_serializeSymbol json hsym,
    deserializePosition, serializePosition, deserializeSymbol_serializeSymbol json hpos]
  rfl

theorem plain_of_deserializePair {read : Rebalancer.Symbol × Position}
    (h : deserializePair json (serializePair json pair) = .ok read) :
    Plain pair.1.asStr ∧ Plain pair.2.symbol.asStr := by
  rw [deserializePair, serializePair] at h
  cases hsym : deserializeSymbol json (serializeSymbol json pair.1) with
  | error e =>
      rw [hsym] at h
      cases h
  | ok sym =>
      refine ⟨plain_of_deserializeSymbol json hsym, ?_⟩
      cases hpos : deserializeSymbol json (serializeSymbol json pair.2.symbol) with
      | error e =>
          rw [hsym, deserializePosition, serializePosition, hpos] at h
          cases h
      | ok sym' => exact plain_of_deserializeSymbol json hpos

variable (order : HashMap.Order Rebalancer.Symbol)
  (positions : HashMap Rebalancer.Symbol Position)

/-- The entries of a map, by symbol. -/
theorem exists_savePositions : ∃ vec : List (Rebalancer.Symbol × Position),
    vec.Perm (positions.iter order) ∧ savePositions json order positions
      = vec.map (serializePair json) :=
  ⟨_, List.mergeSort_perm _ _, rfl⟩

theorem loadPositions_savePositions
    (h : ∀ sym pos, positions.get? sym = some pos → Plain sym.asStr ∧ Plain pos.symbol.asStr) :
    ∃ loaded, loadPositions json (savePositions json order positions) = .ok loaded ∧
      ∀ sym, loaded.get? sym = positions.get? sym := by
  obtain ⟨vec, hperm, hsave⟩ := exists_savePositions json order positions
  have hread : ∀ e ∈ vec, deserializePair json (serializePair json e) = .ok e := by
    rintro ⟨sym, pos⟩ he
    obtain ⟨hsym, hpos⟩ := h sym pos (HashMap.mem_iter.mp (hperm.mem_iff.mp he))
    exact deserializePair_serializePair json hsym hpos
  refine ⟨_, by rw [hsave, loadPositions, Serde.mapM_read_map hread]; rfl, fun sym ↦ ?_⟩
  exact (HashMap.get?_foldl_insert_perm hperm id sym).trans (congrFun Option.map_id _)

theorem plain_of_loadPositions {loaded : HashMap Rebalancer.Symbol Position}
    (h : loadPositions json (savePositions json order positions) = .ok loaded) :
    ∀ sym pos, positions.get? sym = some pos → Plain sym.asStr ∧ Plain pos.symbol.asStr := by
  obtain ⟨vec, hperm, hsave⟩ := exists_savePositions json order positions
  rw [hsave, loadPositions] at h
  intro sym pos hpos
  have hmem : (sym, pos) ∈ vec := hperm.mem_iff.mpr (HashMap.mem_iter.mpr hpos)
  cases hvec : (vec.map (serializePair json)).mapM (deserializePair json) with
  | error e =>
      rw [hvec] at h
      cases h
  | ok read =>
      obtain ⟨_, hpair⟩ := Serde.exists_read_of_mapM hvec _ (List.mem_map_of_mem hmem)
      exact plain_of_deserializePair json hpair

end Positions

/-! ## What survives -/

/-- A symbol survives JSON exactly if its text has no quotes, backslashes or control characters, and
saved positions exactly if no symbol of theirs has any. -/
theorem survives_iff :
    (∀ s : String, s.utf8ByteSize ≤ 8 → ∃ sym, Symbol.tryNew s = some sym ∧
      (deserialize json (serialize json sym) = .ok sym ↔ Plain s)) ∧
    ∀ (order : HashMap.Order Rebalancer.Symbol) (positions : HashMap Rebalancer.Symbol Position),
      (∃ loaded, loadPositions json (savePositions json order positions) = .ok loaded ∧
        ∀ sym, loaded.get? sym = positions.get? sym) ↔
      ∀ sym pos, positions.get? sym = some pos → Plain sym.asStr ∧ Plain pos.symbol.asStr := by
  constructor
  · intro s hs
    obtain ⟨sym, hsym⟩ := Symbol.exists_tryNew hs
    obtain rfl := Symbol.tryNew_eq_some_iff.mp hsym
    exact ⟨sym, hsym, deserialize_serialize_iff json sym⟩
  · intro order positions
    constructor
    · rintro ⟨loaded, hload, -⟩
      exact plain_of_loadPositions json order positions hload
    · exact loadPositions_savePositions json order positions

theorem survives_aapl : ∃ sym, Symbol.tryNew "AAPL" = some sym ∧
    deserialize Serde.quoted (serialize Serde.quoted sym) = .ok sym := by
  obtain ⟨sym, hsym, hiff⟩ := (survives_iff Serde.quoted).1 "AAPL" (by decide)
  exact ⟨sym, hsym, hiff.mpr (by decide)⟩

/-- A symbol with a quote in it is written with an escape, and so it is not lent to the reader. -/
theorem not_survives :
    (Symbol.tryNew "A\"B").map (fun sym ↦ deserialize Serde.quoted (serialize Serde.quoted sym))
        = some (.error "expected a borrowed string") ∧
      ¬ ∀ s : String, s.utf8ByteSize ≤ 8 → ∃ sym, Symbol.tryNew s = some sym ∧
        deserialize Serde.quoted (serialize Serde.quoted sym) = .ok sym := by
  have hread : (Symbol.tryNew "A\"B").map
      (fun sym ↦ deserialize Serde.quoted (serialize Serde.quoted sym))
        = some (.error "expected a borrowed string") := by rfl
  refine ⟨hread, fun h ↦ ?_⟩
  obtain ⟨sym, hsym, hok⟩ := h "A\"B" (by decide)
  rw [hsym, Option.map_some, hok] at hread
  cases hread

end Nanobook.Packed
