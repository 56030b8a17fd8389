import Nanobook.Broker.Binance
import Nanobook.Broker.Ibkr
import Nanobook.Rebalancer.Trades

/-!
# What was filled while the connection was lost

`reconcile_partial_fill`: once the connection is restored, the fill of an order is read off the
position of its symbol.  That position also contains what was held before the order, so the fill is
recovered from a flat position, and else only by coincidence.
-/

namespace Nanobook.Ibkr

open Rebalancer (BrokerError BrokerSide OrderOutcome Symbol inI64_toInt toInt_abs_of_fits)

variable {F : Type} [F64 F]

/-- A position, counted in the direction of an order. -/
def signedQty : BrokerSide → Int64 → Int64
  | .buy, currentQty => currentQty
  | .sell, currentQty => -currentQty

/-- The size of the order is only used for the log. -/
def reconcilePartialFill (orderId : Int32) (symbol : Symbol)
    (preDisconnectFilled _expectedTotal : Int64) (currentPositions : List Binance.Position)
    (side : BrokerSide) : Except BrokerError (OrderResult F) :=
  let zero : F := F64.ofInt 0
  match currentPositions.find? fun p ↦ p.symbol = symbol with
  | some pos =>
      let signedCurrentQty := signedQty side pos.quantity
      if preDisconnectFilled < signedCurrentQty.abs then
        .ok ⟨symbol, orderId, signedCurrentQty.abs, zero, zero, .partialFill⟩
      else if signedCurrentQty.abs = preDisconnectFilled then
        .ok ⟨symbol, orderId, preDisconnectFilled, zero, zero,
          if 0 < preDisconnectFilled then .partialFill else .failed⟩
      else
        .ok ⟨symbol, orderId, preDisconnectFilled, zero, zero, .partialFill⟩
  | none =>
      .ok ⟨symbol, orderId, preDisconnectFilled, zero, zero,
        if 0 < preDisconnectFilled then .partialFill else .failed⟩

/-! ## The account -/

/-- The position in a symbol after a fill. -/
def positionAfter : BrokerSide → Int → Int → Int
  | .buy, before, fill => before + fill
  | .sell, before, fill => before - fill

/-- The positions of an account that holds a quantity of a symbol. -/
structure Holding (positions : List Binance.Position) (symbol : Symbol) (quantity : Int) :
    Prop where
  exact : ∀ p ∈ positions, p.symbol = symbol → p.quantity.toInt = quantity
  listed : (∃ p ∈ positions, p.symbol = symbol) ↔ quantity ≠ 0

/-- The reconciled order has `fill` shares filled. -/
def Recovers (result : Except BrokerError (OrderResult F)) (fill : Int64) : Prop :=
  ∃ r, result = .ok r ∧ r.filledShares = fill

/-- The reconciled order has no less filled than before, and no more than was ordered. -/
def WithinOrder (result : Except BrokerError (OrderResult F)) (preDisconnectFilled
    expectedTotal : Int64) : Prop :=
  ∃ r, result = .ok r ∧ preDisconnectFilled ≤ r.filledShares ∧ r.filledShares ≤ expectedTotal

/-- The account was flat before the order, or as far on the other side as it is now on this one; or
nothing was filled without connection, and the position is no larger than the fill before.  The
least `i64` counts as no larger: it is its own absolute value. -/
def ShowsFill (side : BrokerSide) (before preDisconnectFilled fill : Int64) : Prop :=
  before = 0 ∨ positionAfter side before.toInt (2 * fill.toInt) = 0 ∨
    fill = preDisconnectFilled ∧
      (|positionAfter side before.toInt fill.toInt| ≤ preDisconnectFilled.toInt ∨
        positionAfter side before.toInt fill.toInt = Int64.minValue.toInt)

/-! ## What is recovered -/

/-- What is read off the quantity of a position. -/
def readOff (preDisconnectFilled : Int64) (quantity : Option Int64) : Int :=
  match quantity with
  | some quantity =>
      if quantity = Int64.minValue then preDisconnectFilled.toInt
      else max preDisconnectFilled.toInt |quantity.toInt|
  | none => preDisconnectFilled.toInt

/-- The absolute value of a position is the same whichever side it is counted on. -/
theorem toInt_abs_signedQty (side : BrokerSide) {quantity : Int64} (h : InI64 |quantity.toInt|) :
    (signedQty side quantity).abs.toInt = |quantity.toInt| := by
  cases side with
  | buy => exact toInt_abs_of_fits h
  | sell =>
      have hneg : (-quantity).toInt = -quantity.toInt := by
        rw [Int64.toInt_neg]
        have hlow : -i64Max ≤ -quantity.toInt := (neg_le_neg h.2).trans (neg_abs_le_neg _)
        exact wrapI64_eq ⟨le_trans (by decide) hlow, (neg_le_abs _).trans h.2⟩
      rw [signedQty, toInt_abs_of_fits (by rwa [hneg, abs_neg]), hneg, abs_neg]

theorem abs_signedQty_minValue (side : BrokerSide) :
    (signedQty side Int64.minValue).abs = Int64.minValue := by
  cases side <;> rfl

/-- All but the least position have an absolute value. -/
theorem inI64_abs {quantity : Int64} (h : quantity ≠ Int64.minValue) : InI64 |quantity.toInt| := by
  have hne : quantity.toInt ≠ i64Min := fun heq ↦ h (Int64.toInt_inj.mp heq)
  have hrange := inI64_toInt quantity
  simp only [InI64, i64Min, i64Max] at *
  rw [abs_le', le_abs]
  omega

/-- The fill is the larger of the fill before and the absolute position. -/
theorem reconcilePartialFill_eq (orderId : Int32) (symbol : Symbol)
    (preDisconnectFilled expectedTotal : Int64) (positions : List Binance.Position)
    (side : BrokerSide) :
    ∃ r : OrderResult F, reconcilePartialFill orderId symbol preDisconnectFilled expectedTotal
        positions side = .ok r ∧
      r.filledShares.toInt = readOff preDisconnectFilled
        ((positions.find? fun p ↦ p.symbol = symbol).map Binance.Position.quantity) := by
  rw [reconcilePartialFill]
  cases positions.find? fun p ↦ p.symbol = symbol with
  | none => exact ⟨_, rfl, rfl⟩
  | some pos =>
      simp only [Option.map_some, readOff]
      by_cases hmin : pos.quantity = Int64.minValue
      · have hlt : ¬preDisconnectFilled < Int64.minValue := Int64.not_lt.mpr (Int64.minValue_le _)
        rw [if_pos hmin, hmin, abs_signedQty_minValue, if_neg hlt]
        split
        · exact ⟨_, rfl, rfl⟩
        · exact ⟨_, rfl, rfl⟩
      · have habs := toInt_abs_signedQty side (inI64_abs hmin)
        rw [if_neg hmin, ← habs]
        split
        · next hmore =>
            exact ⟨_, rfl, (max_eq_right (Int64.lt_iff_toInt_lt.mp hmore).le).symm⟩
        · next hmore =>
            have hle : (signedQty side pos.quantity).abs.toInt ≤ preDisconnectFilled.toInt :=
              Int64.le_iff_toInt_le.mp (Int64.not_lt.mp hmore)
            split
            · exact ⟨_, rfl, (max_eq_left hle).symm⟩
            · exact ⟨_, rfl, (max_eq_left hle).symm⟩

section Reconcile

variable {orderId : Int32} {symbol : Symbol} {preDisconnectFilled expectedTotal fill : Int64}
  {positions : List Binance.Position} {side : BrokerSide}

/-- What is read off depends on the quantity held alone. -/
theorem Holding.readOff_eq {quantity : Int} (h : Holding positions symbol quantity)
    (hpre : 0 ≤ preDisconnectFilled.toInt) :
    readOff preDisconnectFilled
        ((positions.find? fun p ↦ p.symbol = symbol).map Binance.Position.quantity) =
      if quantity = Int64.minValue.toInt then preDisconnectFilled.toInt
      else max preDisconnectFilled.toInt |quantity| := by
  cases hfind : positions.find? fun p ↦ p.symbol = symbol with
  | none =>
      have hzero : quantity = 0 := by
        by_contra hne
        obtain ⟨p, hp, hsymbol⟩ := h.listed.mpr hne
        exact List.find?_eq_none.mp hfind p hp (decide_eq_true hsymbol)
      rw [hzero, if_neg (by decide), abs_zero, max_eq_left hpre]
      rfl
  | some p =>
      have hsymbol : p.symbol = symbol := by simpa using List.find?_some hfind
      have hquantity := h.exact p (List.mem_of_find?_eq_some hfind) hsymbol
      rw [← hquantity]
      simp only [Option.map_some, readOff, Int64.toInt_inj]

/-- The fill is recovered, and lies within the order, just if the position shows it; it lies within
the order just if the position is no larger than the order. -/
theorem reconcilePartialFill_exact_iff (before : Int64) (hpre : 0 ≤ preDisconnectFilled.toInt)
    (hmore : preDisconnectFilled.toInt ≤ fill.toInt) (hless : fill.toInt ≤ expectedTotal.toInt)
    (hheld : Holding positions symbol (positionAfter side before.toInt fill.toInt)) :
    (Recovers (reconcilePartialFill orderId symbol preDisconnectFilled expectedTotal positions
          side : Except BrokerError (OrderResult F)) fill ∧
        WithinOrder (reconcilePartialFill orderId symbol preDisconnectFilled expectedTotal positions
          side : Except BrokerError (OrderResult F)) preDisconnectFilled expectedTotal ↔
      ShowsFill side before preDisconnectFilled fill) ∧
    (WithinOrder (reconcilePartialFill orderId symbol preDisconnectFilled expectedTotal positions
          side : Except BrokerError (OrderResult F)) preDisconnectFilled expectedTotal ↔
      |positionAfter side before.toInt fill.toInt| ≤ expectedTotal.toInt ∨
        positionAfter side before.toInt fill.toInt = Int64.minValue.toInt) := by
  obtain ⟨r, hr, hfilled⟩ := reconcilePartialFill_eq (F := F) orderId symbol preDisconnectFilled
    expectedTotal positions side
  rw [hheld.readOff_eq hpre] at hfilled
  have hrecovers : Recovers (reconcilePartialFill orderId symbol preDisconnectFilled expectedTotal
      positions side : Except BrokerError (OrderResult F)) fill ↔
        r.filledShares.toInt = fill.toInt := by
    rw [Recovers, hr, Int64.toInt_inj]
    constructor
    · rintro ⟨r', hr', hfill⟩
      obtain rfl := Except.ok.inj hr'
      exact hfill
    · exact fun hfill ↦ ⟨r, rfl, hfill⟩
  have hwithin : WithinOrder (reconcilePartialFill orderId symbol preDisconnectFilled expectedTotal
      positions side : Except BrokerError (OrderResult F)) preDisconnectFilled expectedTotal ↔
        preDisconnectFilled.toInt ≤ r.filledShares.toInt ∧
          r.filledShares.toInt ≤ expectedTotal.toInt := by
    rw [WithinOrder, hr, ← Int64.le_iff_toInt_le, ← Int64.le_iff_toInt_le]
    constructor
    · rintro ⟨r', hr', hle⟩
      obtain rfl := Except.ok.inj hr'
      exact hle
    · exact fun hle ↦ ⟨r, rfl, hle⟩
  rw [hrecovers, hwithin, hfilled, ShowsFill, ← Int64.toInt_inj, ← Int64.toInt_inj]
  have hmin : Int64.minValue.toInt = -2 ^ 63 := rfl
  have hzero : (0 : Int64).toInt = 0 := rfl
  have hbefore := inI64_toInt before
  have hfill := inI64_toInt fill
  simp only [InI64, i64Min, i64Max, hmin, hzero] at *
  cases side with
  | buy =>
      simp only [positionAfter]
      rcases abs_cases (before.toInt + fill.toInt) with h | h <;> omega
  | sell =>
      simp only [positionAfter]
      rcases abs_cases (before.toInt - fill.toInt) with h | h <;> omega

end Reconcile

/-- The positions of an account that holds nothing but a quantity of one symbol. -/
def soleHolding (symbol : Symbol) (quantity : Int64) : List Binance.Position :=
  [⟨symbol, quantity, 0, 0, 0⟩]

theorem holding_soleHolding (symbol : Symbol) {quantity : Int64} (h : quantity.toInt ≠ 0) :
    Holding (soleHolding symbol quantity) symbol quantity.toInt where
  exact p hp _ := by rw [List.mem_singleton.mp hp]
  listed := ⟨fun _ ↦ h, fun _ ↦ ⟨_, List.mem_singleton_self _, rfl⟩⟩

/-- The order of a flat account is recovered: 75 of 100 shares, of which 50 were known. -/
theorem flat_account_recovered :
    Recovers (reconcilePartialFill 12345 .unknown 50 100 (soleHolding .unknown 75) .buy :
        Except BrokerError (OrderResult (Option Rat))) 75 ∧
      WithinOrder (reconcilePartialFill 12345 .unknown 50 100 (soleHolding .unknown 75) .buy :
        Except BrokerError (OrderResult (Option Rat))) 50 100 :=
  (reconcilePartialFill_exact_iff 0 (by decide) (by decide) (by decide)
    (holding_soleHolding .unknown (by decide))).1.mpr (.inl rfl)

/-- A hundred shares were held, and twenty of fifty bought and known: the reconciled order has a
hundred and twenty filled. -/
theorem held_before_counts_as_filled :
    Holding (soleHolding .unknown 120) .unknown (positionAfter .buy 100 20) ∧
      ¬ Recovers (reconcilePartialFill 12345 .unknown 20 50 (soleHolding .unknown 120) .buy :
        Except BrokerError (OrderResult (Option Rat))) 20 ∧
      ¬ WithinOrder (reconcilePartialFill 12345 .unknown 20 50 (soleHolding .unknown 120) .buy :
        Except BrokerError (OrderResult (Option Rat))) 20 50 := by
  refine ⟨holding_soleHolding .unknown (by decide), ?_, ?_⟩
  · rintro ⟨r, hr, hfill⟩
    obtain rfl := Except.ok.inj hr
    exact absurd hfill (by decide)
  · rintro ⟨r, hr, -, hle⟩
    obtain rfl := Except.ok.inj hr
    exact absurd hle (by decide)

end Nanobook.Ibkr
