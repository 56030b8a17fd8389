import Nanobook.Portfolio.Affordable
import Nanobook.Portfolio.Caps
import Nanobook.Portfolio.Cash
import Nanobook.Portfolio.Ledger

/-!
# Executed fills

What a rebalance executes of its plan, and what it says about that.  The two counters are set from
the plan, before any of it is executed; they are right as long as the cash then pays for the
orders.
-/

namespace Nanobook

open Rebalancer (Symbol collected)

variable {F : Type} [F64 F]

namespace Fill

/-- The quantity that is booked; a fill that does not return books none. -/
def booked (f : Fill F) : Shares := (f.found.filledQty f.qty f.price).getD 0

/-- What the cash affords of a buy. -/
def affordable (f : Fill F) : Option Shares :=
  largestAffordableBuyQty f.qty f.found.cash f.found.quantityStep f.effectivePrice f.found.costModel

/-- The value of the quantity asked for, at the price given. -/
def asked (f : Fill F) : Int := notionalOf f.qty f.price

/-- The value of the quantity booked, at the price given. -/
def value (f : Fill F) : Int := notionalOf f.booked f.price

variable {f : Fill F} {p : Portfolio F}

/-- What a fill that returns books is what the cash allows. -/
theorem fills_booked (hqty : InI64 f.qty) (h : f.result = some p) :
    f.found.Fills f.qty f.price f.booked ∧ ∃ count shortfall,
      p = (f.found.withTrims count shortfall).booked f.symbol f.qty f.price f.booked := by
  obtain ⟨count, shortfall, filled, hfilled, hfills, heq⟩ := Portfolio.executeFill_eq_some hqty h
  have hbooked : f.booked = filled := by rw [booked, hfilled, Option.getD_some]
  exact hbooked ▸ ⟨hfills, count, shortfall, heq⟩

/-- A buy that the cash does not pay for is cut down to what it affords. -/
theorem booked_of_short (hin : InI64 f.qty) (h : f.result = some p) (hqty : 0 < f.qty)
    (hshort : f.found.cash < buyCashRequired f.qty f.effectivePrice f.found.costModel) :
    f.affordable = some f.booked := by
  rw [result, Portfolio.executeFill, if_neg hqty.ne'] at h
  obtain ⟨⟨p₁, filled⟩, htrim, -⟩ := Option.bind_eq_some_iff.mp h
  have htrim' := htrim
  rw [Portfolio.trimBuy, if_pos ⟨hqty, hshort⟩] at htrim'
  obtain ⟨affordable, ha, heq⟩ := Option.bind_eq_some_iff.mp htrim'
  cases heq
  have hnonneg := (largestAffordableBuyQty_spec hqty hin.2 hshort ha).1
  have hfilled : f.found.filledQty f.qty f.price = some filled := by
    rw [Portfolio.filledQty, htrim]
    exact if_neg fun h ↦ absurd hnonneg (not_le.mpr h.1)
  rw [booked, hfilled]
  exact ha

/-- An order is filled as it is, or it is a sale that is skipped or a buy that is cut down. -/
theorem booked_cases (hqty : InI64 f.qty) (hzero : f.qty ≠ 0) (h : f.result = some p) :
    (f.found.Fillable f.qty f.price ∧ f.booked = f.qty) ∨
      (¬ f.found.Fillable f.qty f.price ∧ f.qty < 0 ∧ f.booked = 0) ∨
      (¬ f.found.Fillable f.qty f.price ∧ 0 < f.qty ∧ f.affordable = some f.booked) := by
  obtain ⟨hfills, -⟩ := fills_booked hqty h
  by_cases hfull : f.found.Fillable f.qty f.price
  · exact .inl ⟨hfull, hfills.full.mpr hfull⟩
  rcases lt_or_gt_of_ne hzero with hneg | hpos
  · exact .inr
      (.inl ⟨hfull, hneg, (hfills.sell hneg).resolve_left fun heq ↦ hfull (hfills.full.mp heq)⟩)
  · have hshort : f.found.cash < buyCashRequired f.qty f.effectivePrice f.found.costModel :=
      not_le.mp fun hfits ↦ hfull ⟨fun _ ↦ hfits, fun hneg ↦ absurd hneg (not_lt.mpr hpos.le)⟩
    exact .inr (.inr ⟨hfull, hpos, booked_of_short hqty h hpos hshort⟩)

/-- The cash pays for the order, or it is a buy of which the cash affords a part with the
property. -/
def Starts (Q : Shares → Prop) (f : Fill F) : Prop :=
  f.found.Fillable f.qty f.price ∨
    (0 < f.qty ∧ ∃ affordable, f.affordable = some affordable ∧ affordable ≠ 0 ∧ Q affordable)

/-- A fill executes with a property that the whole order has exactly if the cash allows it. -/
theorem executes_iff {Q : Shares → Prop} (hqty : InI64 f.qty) (hzero : f.qty ≠ 0)
    (h : f.result = some p) (hall : Q f.qty) : f.booked ≠ 0 ∧ Q f.booked ↔ f.Starts Q := by
  rcases booked_cases hqty hzero
    h with ⟨hfull, hbooked⟩ | ⟨hfull, hneg, hbooked⟩ | ⟨hfull, hpos, hpart⟩
  · exact iff_of_true (hbooked ▸ ⟨hzero, hall⟩) (.inl hfull)
  · refine iff_of_false (fun h ↦ h.1 hbooked) ?_
    rintro (h | ⟨hpos, -⟩)
    · exact hfull h
    · exact absurd hpos (not_lt.mpr hneg.le)
  · constructor
    · exact fun hstarts ↦ .inr ⟨hpos, f.booked, hpart, hstarts⟩
    · rintro (h | ⟨-, affordable, ha, hstarts⟩)
      · exact absurd h hfull
      · rw [hpart] at ha
        cases ha
        exact hstarts

theorem value_le_asked (hqty : InI64 f.qty) (h : f.result = some p) : f.value ≤ f.asked := by
  obtain ⟨hfills, -⟩ := fills_booked hqty h
  refine notionalOf_mono ?_ f.price
  rcases lt_or_ge f.qty 0 with hneg | hpos
  · rcases hfills.sell hneg with heq | heq
    · rw [heq]
    · rw [heq]
      exact Nat.zero_le _
  · have hbuy := hfills.buy hpos
    lia

end Fill

/-! ## The counters of a rebalance -/

namespace Portfolio

/-- The fills that executed, each with what was booked. -/
def executed (fills : List (Fill F)) : List (Fill F) := fills.filter fun f ↦ f.booked ≠ 0

/-- The condition under which the counters are right: the cash pays for each order, or for part of a
buy, and the values add up. -/
structure Counted (fills : List (Fill F)) : Prop where
  starts : ∀ f ∈ fills, f.Starts fun _ ↦ True
  sums : ((fills.map Fill.asked).sum ≤ i64Max ∧
      ∀ f ∈ fills, f.Starts fun filled ↦ notionalOf filled f.price = f.asked) ∨
    (i64Max < (fills.map Fill.asked).sum ∧ ((executed fills).map Fill.value).sum = i64Max)

/-- Orders that the cash pays for are counted right. -/
theorem counted_of_fillable {fills : List (Fill F)}
    (h : ∀ f ∈ fills, f.found.Fillable f.qty f.price) (hsum : (fills.map Fill.asked).sum ≤ i64Max) :
    Counted fills where
  starts f hf := .inl (h f hf)
  sums := .inl ⟨hsum, fun f hf ↦ .inl (h f hf)⟩

/-- A list of fills in range, of some quantity each, that return. -/
def Returned (fills : List (Fill F)) : Prop :=
  ∀ f ∈ fills, InI64 f.qty ∧ f.qty ≠ 0 ∧ ∃ p, f.result = some p

variable {fills : List (Fill F)}

theorem notionalOf_zero (price : Int) : notionalOf 0 price = 0 := by
  rw [notionalOf, Int.natAbs_zero, Nat.zero_mul, Nat.zero_div]
  decide

/-- What has not executed is worth nothing. -/
theorem sum_value_executed (fills : List (Fill F)) :
    ((executed fills).map Fill.value).sum = (fills.map Fill.value).sum := by
  induction fills with
  | nil => rfl
  | cons f fills ih =>
    rw [executed, List.filter_cons]
    split_ifs with hbooked
    · rw [List.map_cons, List.map_cons, List.sum_cons, List.sum_cons, ← ih, executed]
    · have hzero : f.booked = 0 := by simpa using hbooked
      have hvalue : f.value = 0 := by
        rw [Fill.value, hzero]
        exact notionalOf_zero f.price
      rw [List.map_cons, List.sum_cons, hvalue, Int.zero_add, ← ih, executed]

theorem length_executed_eq_iff :
    (executed fills).length = fills.length ↔ ∀ f ∈ fills, f.booked ≠ 0 := by
  rw [executed, List.length_filter_eq_length_iff]
  simp

/-- Sums of values, each at most its counterpart, are the same if all values are. -/
theorem sum_eq_iff_of_le {A : Type} {v w : A → Int} {l : List A} (hle : ∀ a ∈ l, v a ≤ w a) :
    (l.map v).sum = (l.map w).sum ↔ ∀ a ∈ l, v a = w a := by
  induction l with
  | nil => exact iff_of_true rfl fun _ h ↦ absurd h List.not_mem_nil
  | cons a l ih =>
    obtain ⟨ha, hl⟩ := List.forall_mem_cons.mp hle
    have hrest : (l.map v).sum ≤ (l.map w).sum := List.sum_le_sum hl
    rw [List.forall_mem_cons, ← ih hl, List.map_cons, List.map_cons, List.sum_cons, List.sum_cons]
    omega

theorem counted_iff (h : Returned fills) :
    (fills.length = (executed fills).length ∧
      fills.foldl (fun acc f ↦ satAdd acc f.asked) 0 = ((executed fills).map Fill.value).sum) ↔
    Counted fills := by
  have hstarts : (∀ f ∈ fills, f.booked ≠ 0) ↔ ∀ f ∈ fills, f.Starts fun _ ↦ True := by
    refine forall₂_congr fun f hf ↦ ?_
    obtain ⟨hqty, hzero, p, hp⟩ := h f hf
    rw [← Fill.executes_iff hqty hzero hp trivial, and_true]
  have hle : ∀ f ∈ fills, f.value ≤ f.asked := fun f hf ↦ by
    obtain ⟨hqty, -, p, hp⟩ := h f hf
    exact Fill.value_le_asked hqty hp
  have hsum :
    fills.foldl (fun acc f ↦ satAdd acc f.asked) 0 = min (fills.map Fill.asked).sum i64Max := by
    rw [foldl_satAdd_eq_min (fun f _ ↦ notionalOf_nonneg f.qty f.price) le_rfl (by decide),
      Int.zero_add]
  rw [eq_comm, length_executed_eq_iff, hsum, sum_value_executed]
  constructor
  · rintro ⟨hall, heq⟩
    refine ⟨hstarts.mp hall, ?_⟩
    rcases le_or_gt (fills.map Fill.asked).sum i64Max with hin | hover
    · rw [min_eq_left hin, eq_comm, sum_eq_iff_of_le hle] at heq
      refine .inl ⟨hin, fun f hf ↦ ?_⟩
      obtain ⟨hqty, hzero, p, hp⟩ := h f hf
      exact (Fill.executes_iff (Q := fun filled ↦ notionalOf filled f.price = f.asked) hqty hzero hp
        rfl).mp
        ⟨hall f hf, heq f hf⟩
    · rw [min_eq_right hover.le] at heq
      exact .inr ⟨hover, (sum_value_executed fills).trans heq.symm⟩
  · rintro ⟨hall, hsums⟩
    refine ⟨hstarts.mpr hall, ?_⟩
    rcases hsums with ⟨hin, hsame⟩ | ⟨hover, hmax⟩
    · rw [min_eq_left hin, eq_comm, sum_eq_iff_of_le hle]
      intro f hf
      obtain ⟨hqty, hzero, p, hp⟩ := h f hf
      exact ((Fill.executes_iff (Q := fun filled ↦ notionalOf filled f.price = f.asked) hqty hzero
        hp
        rfl).mpr (hsame f hf)).2
    · rw [min_eq_right hover.le, ← hmax, sum_value_executed]

/-! ## Rebalances -/

variable {p p' : Portfolio F} {orders : List (PlannedOrder F)}

/-- The fills of a rebalance. -/
def rebalanceFills (p : Portfolio F) (prices : PriceMap) (order : HashMap.Order Symbol)
    (targets : List (Symbol × F)) : List (Fill F) :=
  let orders := p.rebalanceOrders prices order targets
  (p.countOrders orders).fillsOf orders

/-- Fills of orders that all return are fills of each of them. -/
theorem returned_fillsOf (hqty : ∀ o ∈ orders, InI64 o.qty ∧ o.qty ≠ 0)
    (h : orders.foldlM executeOrder p = some p') : Returned (p.fillsOf orders) ∧
      (p.fillsOf orders).map (fun f ↦ (f.symbol, f.qty, f.price)) =
        orders.map fun o ↦ (o.symbol, o.qty, o.price) := by
  induction orders generalizing p with
  | nil => exact ⟨fun _ h ↦ absurd h List.not_mem_nil, rfl⟩
  | cons o orders ih =>
    obtain ⟨p₁, hp₁, hrest⟩ := Option.bind_eq_some_iff.mp h
    obtain ⟨ho, horders⟩ := List.forall_mem_cons.mp hqty
    obtain ⟨hreturned, hmap⟩ := ih horders hrest
    rw [fillsOf, hp₁]
    refine ⟨List.forall_mem_cons.mpr ⟨⟨ho.1, ho.2, p₁, hp₁⟩, hreturned⟩, ?_⟩
    rw [List.map_cons, List.map_cons, hmap]

/-- Ten dollars, all of it to be in a share at a dollar; every trade costs a commission. -/
def tenDollars (commission : Int) : Portfolio (Option Rat) := new 1000 (flatCost commission)

end Portfolio

/-! ## Records -/

namespace Fill

/-- What a fill records. -/
def records (f : Fill F) : List ExecutionRecord :=
  f.found.recordsOf f.symbol f.qty f.price f.booked

theorem records_cases (f : Fill F) : (f.booked = 0 ∧ f.records = []) ∨
    (f.booked ≠ 0 ∧ ∃ record, f.records = [record] ∧ record.symbol = f.symbol ∧
      record.quantity = f.booked ∧ record.referenceNotional = f.value) := by
  by_cases hzero : f.booked = 0
  · exact .inl ⟨hzero, if_pos hzero⟩
  · exact .inr ⟨hzero, _, if_neg hzero, rfl, rfl, rfl⟩

end Fill

namespace Portfolio

variable {p p' : Portfolio F} {orders : List (PlannedOrder F)}

/-- The fills that execute are those that are recorded, each at its value. -/
theorem map_referenceNotional_records (fills : List (Fill F)) :
    (fills.flatMap Fill.records).map ExecutionRecord.referenceNotional =
      (executed fills).map Fill.value := by
  induction fills with
  | nil => rfl
  | cons f fills ih =>
    rw [List.flatMap_cons, List.map_append, ih, executed, executed, List.filter_cons]
    rcases f.records_cases with ⟨hzero, hrecords⟩ | ⟨hbooked, record, hrecords, -, -, hvalue⟩
    · rw [hrecords, if_neg (by simpa using hzero)]
      rfl
    · rw [hrecords, if_pos (by simpa using hbooked), List.map_cons, List.map_nil, hvalue]
      rfl

/-- A portfolio that records its fills records what a rebalance executes. -/
theorem executions_fillsOf (hqty : ∀ o ∈ orders, InI64 o.qty)
    (h : orders.foldlM executeOrder p = some p') :
    p'.executions = p.executions.map (· ++ (p.fillsOf orders).flatMap Fill.records) := by
  induction orders generalizing p with
  | nil =>
    cases h
    simp [fillsOf]
  | cons o orders ih =>
    obtain ⟨p₁, hp₁, hrest⟩ := Option.bind_eq_some_iff.mp h
    obtain ⟨ho, horders⟩ := List.forall_mem_cons.mp hqty
    obtain ⟨hfills, count, shortfall, heq⟩ :=
      Fill.fills_booked (f := ⟨p, o.symbol, o.qty, o.price⟩) ho hp₁
    have hrecorded : p₁.executions =
        p.executions.map (· ++ Fill.records ⟨p, o.symbol, o.qty, o.price⟩) := by
      rw [heq]
      exact (recorded_booked (hfills.inI64 ho) count shortfall).executions
    rw [ih horders hrest, hrecorded, fillsOf, hp₁, List.flatMap_cons, Option.map_map]
    exact congrArg (Option.map · p.executions) (funext fun es ↦ List.append_assoc es _ _)

end Portfolio

end Nanobook
