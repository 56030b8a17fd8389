import Nanobook.Lib.Routing
import Nanobook.Portfolio.Lob
import Nanobook.Run

/-!
# One exchange per symbol

`multi_exchange.rs`.  Callers reach the exchange of a symbol through `get_or_create` and `get_mut`
and then call its methods.  Symbols do not interact: whatever the interleaving of the accesses, the
exchange of a symbol is the one its own accesses lead to, and so are the best prices reported.
-/

namespace Nanobook

open Rebalancer (Symbol)

namespace MultiExchange

/-- What a caller does with a symbol. -/
inductive Access where
  /-- `get_or_create`, and nothing else. -/
  | create
  /-- A method of the exchange that `get_or_create` returns. -/
  | perform (op : Op)
  /-- A method of the exchange that `get_mut` returns, if there is one. -/
  | performExisting (op : Op)

variable (fuel : Nat)

def access (exchanges : MultiExchange) (e : Symbol × Access) : Option MultiExchange :=
  match e.2 with
  | .create => some (exchanges.insert e.1 (exchanges.getOrCreate e.1))
  | .perform op => ((exchanges.getOrCreate e.1).perform fuel op).map (exchanges.insert e.1)
  | .performExisting op =>
      match exchanges.get? e.1 with
      | none => some exchanges
      | some ex => (ex.perform fuel op).map (exchanges.insert e.1)

def accessAll (exchanges : MultiExchange) (l : List (Symbol × Access)) : Option MultiExchange :=
  l.foldlM (access fuel) exchanges

/-- The best bid and ask of every symbol, in the order in which the map yields them. -/
def bestPrices (exchanges : MultiExchange) (order : HashMap.Order Symbol) :
    List (Symbol × Option Price × Option Price) :=
  (exchanges.iter order).map fun e ↦ (e.1, e.2.book.bestBid, e.2.book.bestAsk)

/-- What an access does to the exchange of its symbol, if it is there. -/
def accessOne (ex : Option Exchange) : Access → Option (Option Exchange)
  | .create => some (some (ex.getD Exchange.create))
  | .perform op => ((ex.getD Exchange.create).perform fuel op).map some
  | .performExisting op =>
      match ex with
      | none => some none
      | some ex => (ex.perform fuel op).map some

theorem routes : Routes HashMap.get? (accessOne fuel) (access fuel) where
  returns exchanges e s hs := by
    obtain ⟨sym, a⟩ := e
    cases a with
    | create => exact ⟨_, rfl⟩
    | perform op =>
        obtain ⟨ex, hex, -⟩ := Option.map_eq_some_iff.mp hs
        exact ⟨_, Option.map_eq_some_iff.mpr ⟨ex, hex, rfl⟩⟩
    | performExisting op =>
        simp only [accessOne] at hs
        simp only [access]
        cases hget : exchanges.get? sym with
        | none => exact ⟨_, rfl⟩
        | some ex₀ =>
            simp only [hget] at hs
            obtain ⟨ex, hex, -⟩ := Option.map_eq_some_iff.mp hs
            exact ⟨_, Option.map_eq_some_iff.mpr ⟨ex, hex, rfl⟩⟩
  own exchanges e exchanges' hs := by
    obtain ⟨sym, a⟩ := e
    cases a with
    | create =>
        cases hs
        rw [HashMap.get?_insert_self]
        rfl
    | perform op =>
        obtain ⟨ex, hex, rfl⟩ := Option.map_eq_some_iff.mp hs
        rw [HashMap.get?_insert_self]
        exact Option.map_eq_some_iff.mpr ⟨ex, hex, rfl⟩
    | performExisting op =>
        simp only [access] at hs
        cases hget : exchanges.get? sym with
        | none =>
            simp only [hget] at hs
            cases hs
            simp only [accessOne, hget]
        | some ex₀ =>
            simp only [hget] at hs
            obtain ⟨ex, hex, rfl⟩ := Option.map_eq_some_iff.mp hs
            rw [HashMap.get?_insert_self]
            exact Option.map_eq_some_iff.mpr ⟨ex, hex, rfl⟩
  others exchanges e exchanges' hs sym' hne := by
    obtain ⟨sym, a⟩ := e
    cases a with
    | create =>
        cases hs
        exact HashMap.get?_insert_of_ne _ (Ne.symm hne) _
    | perform op =>
        obtain ⟨ex, -, rfl⟩ := Option.map_eq_some_iff.mp hs
        exact HashMap.get?_insert_of_ne _ (Ne.symm hne) _
    | performExisting op =>
        simp only [access] at hs
        cases hget : exchanges.get? sym with
        | none =>
            simp only [hget] at hs
            cases hs
            rfl
        | some ex₀ =>
            simp only [hget] at hs
            obtain ⟨ex, -, rfl⟩ := Option.map_eq_some_iff.mp hs
            exact HashMap.get?_insert_of_ne _ (Ne.symm hne) _

/-- The report has one line for each symbol, with the best prices of its book. -/
theorem mem_bestPrices {exchanges : MultiExchange} {order : HashMap.Order Symbol} {sym : Symbol}
    {bid ask : Option Price} : (sym, bid, ask) ∈ exchanges.bestPrices order ↔
      ∃ ex, exchanges.get? sym = some ex ∧ bid = ex.book.bestBid ∧ ask = ex.book.bestAsk := by
  rw [bestPrices, List.mem_map]
  constructor
  · rintro ⟨⟨sym', ex⟩, he, heq⟩
    cases heq
    exact ⟨ex, HashMap.mem_iter.mp he, rfl, rfl⟩
  · rintro ⟨ex, hget, rfl, rfl⟩
    exact ⟨(sym, ex), HashMap.mem_iter.mpr hget, rfl⟩

theorem nodup_bestPrices (exchanges : MultiExchange) (order : HashMap.Order Symbol) :
    ((exchanges.bestPrices order).map Prod.fst).Nodup := by
  rw [bestPrices, List.map_map]
  exact HashMap.nodup_iter (m := exchanges) (o := order)

/-- Exchanges that agree at every symbol report the same prices, in some order. -/
theorem bestPrices_perm {exchanges exchanges' : MultiExchange}
    (hsame : ∀ sym, exchanges'.get? sym = exchanges.get? sym)
    (order order' : HashMap.Order Symbol) :
    (exchanges'.bestPrices order').Perm (exchanges.bestPrices order) := by
  refine (List.perm_ext_iff_of_nodup (List.Nodup.of_map _ (nodup_bestPrices _ _))
    (List.Nodup.of_map _ (nodup_bestPrices _ _))).mpr fun ⟨sym, bid, ask⟩ ↦ ?_
  rw [mem_bestPrices, mem_bestPrices, hsame]

/-- Two lists of accesses with the same accesses to each symbol, in the same order, lead alike: the
second returns if the first does, every symbol has the exchange that its own accesses lead to, and
the reports of the best prices agree line for line. -/
theorem interleaving_irrelevant {l l' : List (Symbol × Access)} {exchanges : MultiExchange}
    (hsame : ∀ sym, routedTo sym l = routedTo sym l')
    (hrun : accessAll fuel HashMap.empty l = some exchanges) :
    ∃ exchanges', accessAll fuel HashMap.empty l' = some exchanges' ∧
      (∀ sym, exchanges'.get? sym = exchanges.get? sym ∧
        (routedTo sym l).foldlM (accessOne fuel) none = some (exchanges.get? sym)) ∧
      ∀ order order', (exchanges'.bestPrices order').Perm (exchanges.bestPrices order) := by
  obtain ⟨exchanges', hrun', hget⟩ := (routes fuel).foldlM_congr hsame hrun
  exact ⟨exchanges', hrun', fun sym ↦ ⟨hget sym, (routes fuel).foldlM_routedTo hrun sym⟩,
    bestPrices_perm hget⟩

/-- Two sells of one symbol and a buy of another that only looks for its exchange. -/
theorem interleaving_irrelevant_two :
    ∃ exchanges exchanges', accessAll 5 HashMap.empty
        [(⟨"AAPL", by decide⟩, .perform (.submitLimit .sell 150 10 .gtc)),
          (⟨"MSFT", by decide⟩, .performExisting (.submitLimit .buy 300 20 .gtc)),
          (⟨"AAPL", by decide⟩, .perform (.submitLimit .sell 149 10 .gtc))] = some exchanges ∧
      accessAll 5 HashMap.empty
        [(⟨"MSFT", by decide⟩, .performExisting (.submitLimit .buy 300 20 .gtc)),
          (⟨"AAPL", by decide⟩, .perform (.submitLimit .sell 150 10 .gtc)),
          (⟨"AAPL", by decide⟩, .perform (.submitLimit .sell 149 10 .gtc))] = some exchanges' ∧
      (exchanges'.bestPrices .insertion).Perm (exchanges.bestPrices .insertion) := by
  obtain ⟨exchanges, hrun⟩ : ∃ exchanges, accessAll 5 HashMap.empty
      [(⟨"AAPL", by decide⟩, .perform (.submitLimit .sell 150 10 .gtc)),
        (⟨"MSFT", by decide⟩, .performExisting (.submitLimit .buy 300 20 .gtc)),
        (⟨"AAPL", by decide⟩, .perform (.submitLimit .sell 149 10 .gtc))] = some exchanges :=
    ⟨_, rfl⟩
  have hsame : ∀ sym, routedTo sym
      [((⟨"AAPL", by decide⟩ : Symbol), Access.perform (.submitLimit .sell 150 10 .gtc)),
        (⟨"MSFT", by decide⟩, .performExisting (.submitLimit .buy 300 20 .gtc)),
        (⟨"AAPL", by decide⟩, .perform (.submitLimit .sell 149 10 .gtc))] =
      routedTo sym
        [(⟨"MSFT", by decide⟩, .performExisting (.submitLimit .buy 300 20 .gtc)),
          (⟨"AAPL", by decide⟩, .perform (.submitLimit .sell 150 10 .gtc)),
          (⟨"AAPL", by decide⟩, .perform (.submitLimit .sell 149 10 .gtc))] := by
    intro sym
    by_cases hmsft : (⟨"MSFT", by decide⟩ : Symbol) = sym
    · subst hmsft
      rfl
    · rw [routedTo_cons_of_ne hmsft]
      simp only [routedTo, List.filter_cons, hmsft, decide_false, Bool.false_eq_true, if_false]
  obtain ⟨exchanges', hrun', -, hprices⟩ := interleaving_irrelevant 5 hsame hrun
  exact ⟨exchanges, exchanges', hrun, hrun', hprices .insertion .insertion⟩

end MultiExchange

end Nanobook
