import Mathlib.Order.Bounds.Basic
import Nanobook.Invariant.Exchange

/-!
# Best prices

The cached best prices are exact and the book is never crossed, in every reachable exchange: this
does not depend on cancellations hitting the right slot.
-/

namespace Nanobook

namespace PriceLevels

/-- The prices at which a side has a level. -/
def prices (pl : PriceLevels) : Set Price := {p | ∃ l, pl.getLevel p = some l}

theorem mem_prices_iff {pl : PriceLevels} {p : Price} :
    p ∈ pl.prices ↔ p ∈ pl.bestToWorst.map Prod.fst := by
  simp [prices, ← mem_bestToWorst]

/-- The first price from best to worst is at least as good as every other. -/
theorem Cached.bestPrice_eq_some_iff {pl : PriceLevels} (h : pl.Cached) {p : Price} :
    pl.bestPrice = some p ↔ p ∈ pl.prices ∧ ∀ q ∈ pl.prices, ¬ Better pl.side q p := by
  constructor
  · intro hb
    obtain ⟨l, rest, hl⟩ := h.bestToWorst_of_bestPrice hb
    exact ⟨⟨l, getLevel_of_bestToWorst hl⟩, fun q ⟨l', hq⟩ ↦ h.not_better hb hq⟩
  · rintro ⟨⟨l, hl⟩, hmin⟩
    cases hb : pl.bestPrice with
    | none =>
        have hmem := mem_bestToWorst.mpr hl
        rw [h.bestPrice_eq_none_iff.mp hb] at hmem
        cases hmem
    | some q =>
        obtain ⟨l', rest, hq⟩ := h.bestToWorst_of_bestPrice hb
        have h₁ := hmin q ⟨l', getLevel_of_bestToWorst hq⟩
        have h₂ := h.not_better hb hl
        cases hs : pl.side with
        | buy =>
            simp only [hs, Better, not_lt] at h₁ h₂
            rw [le_antisymm h₁ h₂]
        | sell =>
            simp only [hs, Better, not_lt] at h₁ h₂
            rw [le_antisymm h₂ h₁]

theorem Cached.bestPrice_eq_none_iff_prices {pl : PriceLevels} (h : pl.Cached) :
    pl.bestPrice = none ↔ pl.prices = ∅ := by
  rw [h.bestPrice_eq_none_iff, Set.eq_empty_iff_forall_notMem]
  constructor
  · intro he p hp
    rw [mem_prices_iff, he] at hp
    cases hp
  · intro he
    refine List.eq_nil_iff_forall_not_mem.mpr fun e hmem ↦ he e.1 ?_
    rw [mem_prices_iff]
    exact List.mem_map_of_mem hmem

end PriceLevels

open PriceLevels Exchange

/-- In every reachable exchange the cached best bid is the highest price with a bid level, the
cached best ask is the lowest price with an ask level, either is missing exactly when its side has
no level, and the best bid is below the best ask. -/
theorem bestPrice_exact_and_uncrossed {ex : Exchange} (h : Reachable ex) :
    (∀ p, ex.book.bestBid = some p ↔ IsGreatest ex.book.bids.prices p) ∧
      (∀ p, ex.book.bestAsk = some p ↔ IsLeast ex.book.asks.prices p) ∧
      (ex.book.bestBid = none ↔ ex.book.bids.prices = ∅) ∧
      (ex.book.bestAsk = none ↔ ex.book.asks.prices = ∅) ∧
      ∀ bid ask, ex.book.bestBid = some bid → ex.book.bestAsk = some ask → bid < ask := by
  have hw := h.wf.book
  have hbid : ex.book.bids.Cached := hw.cached .buy
  have hask : ex.book.asks.Cached := hw.cached .sell
  have hbids : ex.book.bids.side = .buy := hw.side .buy
  have hasks : ex.book.asks.side = .sell := hw.side .sell
  have hbest : ∀ p, ex.book.bestBid = some p ↔ IsGreatest ex.book.bids.prices p := fun p ↦ by
    refine hbid.bestPrice_eq_some_iff.trans ?_
    simp only [hbids, Better, not_lt]
    exact Iff.rfl
  have hbest' : ∀ p, ex.book.bestAsk = some p ↔ IsLeast ex.book.asks.prices p := fun p ↦ by
    refine hask.bestPrice_eq_some_iff.trans ?_
    simp only [hasks, Better, not_lt]
    exact Iff.rfl
  refine ⟨hbest, hbest', hbid.bestPrice_eq_none_iff_prices, hask.bestPrice_eq_none_iff_prices, ?_⟩
  intro bid ask hb ha
  obtain ⟨l, hl⟩ := ((hbest bid).mp hb).1
  obtain ⟨l', hl'⟩ := ((hbest' ask).mp ha).1
  exact hw.uncrossed bid ask l l' hl hl'

/-- A sell that fills against the best bid, leaving one level on each side. -/
theorem bestPrice_exact_and_uncrossed_after_fill :
    ∃ ex, performAll 5 create [.submitLimit .buy 99 10 .gtc, .submitLimit .buy 98 10 .gtc,
        .submitLimit .sell 101 10 .gtc, .submitLimit .sell 99 10 .gtc] = some ex ∧
      ex.book.bestBid = some 98 ∧ ex.book.bestAsk = some 101 ∧
      IsGreatest ex.book.bids.prices 98 ∧ IsLeast ex.book.asks.prices 101 := by
  obtain ⟨ex, hex⟩ : ∃ ex, performAll 5 create [.submitLimit .buy 99 10 .gtc,
      .submitLimit .buy 98 10 .gtc, .submitLimit .sell 101 10 .gtc,
      .submitLimit .sell 99 10 .gtc] = some ex := ⟨_, rfl⟩
  have hbid := observe hex (fun ex ↦ ex.book.bestBid) (a := some 98) rfl
  have hask := observe hex (fun ex ↦ ex.book.bestAsk) (a := some 101) rfl
  have h := bestPrice_exact_and_uncrossed (reachable_of_performAll hex)
  exact ⟨ex, hex, hbid, hask, (h.1 98).mp hbid, (h.2.1 101).mp hask⟩

end Nanobook
