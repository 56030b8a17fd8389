import Nanobook.Lib.Tracking
import Nanobook.Itch.Parser
import Nanobook.Replay
import Nanobook.Resting

/-!
# From ITCH messages to events

`itch_to_event`: what a feed does to an exchange.  The shares of an `OrderCancel` are not looked at,
so that its order is cancelled as a whole, and an execution is not converted at all.  A feed of
orders that never cross therefore keeps what it displays exactly as long as every cancel takes all
that is left of its order and nothing that is still displayed is executed.
-/

namespace Nanobook.Itch

/-- ITCH prices have four decimals and the exchange counts in cents. -/
def nbPrice (price : UInt32) : Price := ((price / 100).toNat : Int)

def itchToEvent : ItchMessage → Option (String × Event)
  | .addOrder _ _ side shares stock price =>
      some (stock, .submitLimit side (nbPrice price) shares.toNat .gtc)
  | .orderCancel _ orderRef _ | .orderDelete _ orderRef => some ("", .cancel orderRef.toNat)
  | .orderReplace _ oldOrderRef _ shares price =>
      some ("", .modify oldOrderRef.toNat (nbPrice price) shares.toNat)
  | _ => none

/-- Feed the event of a message to an exchange. -/
def feed (fuel : Nat) (ex : Exchange) (msg : ItchMessage) : Option Exchange :=
  match itchToEvent msg with
  | none => some ex
  | some (_, event) => (ex.apply fuel event).map Prod.fst

/-! ## The displayed book -/

/-- The shares a feed displays of each order. -/
abbrev Displayed := OrderId → Quantity

/-- What a message says about the displayed shares. -/
def revise (shown : Displayed) : ItchMessage → Displayed
  | .addOrder _ orderRef _ shares _ _ => Function.update shown orderRef.toNat shares.toNat
  | .orderExecuted _ orderRef shares _ | .orderExecutedWithPrice _ orderRef shares _ _ _
  | .orderCancel _ orderRef shares =>
      Function.update shown orderRef.toNat (shown orderRef.toNat - shares.toNat)
  | .orderDelete _ orderRef => Function.update shown orderRef.toNat 0
  | .orderReplace _ oldOrderRef newOrderRef shares _ =>
      Function.update (Function.update shown oldOrderRef.toNat 0) newOrderRef.toNat shares.toNat
  | _ => shown

/-- An added order is referred to by the id that the exchange assigns next, and does not cross the
book; for a replacement both hold of the order that takes the place of the old one. -/
def Fits (ex : Exchange) : ItchMessage → Prop
  | .addOrder _ orderRef side _ _ price =>
      orderRef.toNat = ex.book.nextOrderId ∧ ex.book.crosses side (nbPrice price) = false
  | .orderReplace _ oldOrderRef newOrderRef _ price =>
      newOrderRef.toNat = ex.book.nextOrderId ∧
        ∀ o, ex.getOrder oldOrderRef.toNat = some o →
          ex.book.crosses o.side (nbPrice price) = false
  | _ => True

/-- A message says what its event does: a cancel takes all that is displayed of its order, an
execution takes nothing, and a replacement displays something exactly if the old order does. -/
def AsConverted (shown : Displayed) : ItchMessage → Prop
  | .orderExecuted _ orderRef shares _ | .orderExecutedWithPrice _ orderRef shares _ _ _ =>
      shares.toNat = 0 ∨ shown orderRef.toNat = 0
  | .orderCancel _ orderRef shares => shown orderRef.toNat ≤ shares.toNat
  | .orderReplace _ oldOrderRef _ shares _ => 0 < shown oldOrderRef.toNat ↔ 0 < shares.toNat
  | _ => True

/-- Each order has exactly its displayed shares left. -/
def Displays (ex : Exchange) (shown : Displayed) : Prop := ex.remaining = shown

section Step

variable {ex ex' : Exchange} {event : Event} {msg : ItchMessage} {stock : String} {r : ApplyResult}
  {fuel : Nat}

theorem feed_of_apply (hmsg : itchToEvent msg = some (stock, event))
    (h : ex.apply fuel event = some (ex', r)) : feed fuel ex msg = some ex' := by
  simp only [feed, hmsg, h]
  rfl

theorem feed_of_none (hmsg : itchToEvent msg = none) : feed fuel ex msg = some ex := by
  simp only [feed, hmsg]

/-- Taking all of an order is right exactly if no more was displayed of it. -/
theorem update_zero_eq_iff (shown : Displayed) (id : OrderId) (shares : Quantity) :
    Function.update shown id 0 = Function.update shown id (shown id - shares) ↔
      shown id ≤ shares := by
  rw [(Function.update_injective shown id).eq_iff, eq_comm]
  exact Nat.sub_eq_zero_iff_le

/-- Taking nothing of an order is right exactly if nothing was to be taken. -/
theorem eq_update_sub_iff (shown : Displayed) (id : OrderId) (shares : Quantity) :
    shown = Function.update shown id (shown id - shares) ↔ shares = 0 ∨ shown id = 0 := by
  rw [eq_comm, Function.update_eq_self_iff]
  exact ⟨fun h ↦ by lia, fun h ↦ by lia⟩

/-- Refusing a replacement is right exactly if neither order displays anything. -/
theorem eq_update_update_iff (shown : Displayed) {id newId : OrderId} (hnew : shown newId = 0)
    (shares : Quantity) : shown = Function.update (Function.update shown id 0) newId shares ↔
      shown id = 0 ∧ shares = 0 := by
  constructor
  · intro h
    have hshares : shares = 0 := by
      have := congrFun h newId
      rw [Function.update_self, hnew] at this
      exact this.symm
    refine ⟨?_, hshares⟩
    have := congrFun h id
    by_cases hid : id = newId
    · rw [hid, hnew]
    · rwa [Function.update_of_ne hid, Function.update_self] at this
  · rintro ⟨hid, rfl⟩
    have hold : Function.update shown id 0 = shown := Function.update_eq_self_iff.mpr hid.symm
    rw [hold, Function.update_eq_self_iff.mpr hnew.symm]

/-- The exchange shows what a message displays exactly if the message says what its event does. -/
theorem feed_step {shown : Displayed} (h : ex.Plain) (hshown : Displays ex shown)
    (hfits : Fits ex msg) :
    ∃ ex', feed (fuel + 1) ex msg = some ex' ∧ ex'.Plain ∧
      (Displays ex' (revise shown msg) ↔ AsConverted shown msg) := by
  obtain rfl : ex.remaining = shown := hshown
  cases msg with
  | addOrder _ orderRef side shares stock price =>
      obtain ⟨hid, hx⟩ := hfits
      obtain ⟨ex', r, happly, hplain, hrem⟩ := h.apply_submitLimit hx fuel shares.toNat
      rw [← hid] at hrem
      exact ⟨ex', feed_of_apply rfl happly, hplain, iff_of_true hrem trivial⟩
  | orderCancel _ orderRef shares =>
      obtain ⟨ex', r, happly, hplain, hrem⟩ := h.apply_cancel (fuel + 1) orderRef.toNat
      refine ⟨ex', feed_of_apply rfl happly, hplain, ?_⟩
      rw [Displays, hrem]
      exact update_zero_eq_iff ex.remaining orderRef.toNat shares.toNat
  | orderDelete _ orderRef =>
      obtain ⟨ex', r, happly, hplain, hrem⟩ := h.apply_cancel (fuel + 1) orderRef.toNat
      exact ⟨ex', feed_of_apply rfl happly, hplain, iff_of_true hrem trivial⟩
  | orderReplace _ oldOrderRef newOrderRef shares price =>
      obtain ⟨hid, hx⟩ := hfits
      by_cases hlive : 0 < ex.remaining oldOrderRef.toNat ∧ 0 < shares.toNat
      · obtain ⟨ex', r, happly, hplain, hrem⟩ := h.apply_modify hlive.1 hlive.2 hx fuel
        rw [← hid] at hrem
        exact ⟨ex', feed_of_apply rfl happly, hplain,
          iff_of_true hrem (iff_of_true hlive.1 hlive.2)⟩
      · have hdead : ex.remaining oldOrderRef.toNat = 0 ∨ shares.toNat = 0 := by lia
        obtain ⟨ex', r, happly, hplain, hrem⟩ :=
          h.apply_modify_refused hdead (fuel + 1) (nbPrice price)
        refine ⟨ex', feed_of_apply rfl happly, hplain, ?_⟩
        have hnew : ex.remaining newOrderRef.toNat = 0 := hid ▸ h.remaining_nextOrderId
        rw [Displays, hrem, revise, eq_update_update_iff ex.remaining hnew, AsConverted]
        lia
  | orderExecuted _ orderRef shares _ | orderExecutedWithPrice _ orderRef shares _ _ _ =>
      exact ⟨ex, feed_of_none rfl, h, eq_update_sub_iff ex.remaining orderRef.toNat shares.toNat⟩
  | trade _ _ _ _ _ _ | stockDirectory _ _ | other _ =>
      exact ⟨ex, feed_of_none rfl, h, iff_of_true rfl trivial⟩

end Step

/-- After each of a list of messages that fit it the exchange shows what they display, exactly if
every message says what its event does.  Neither the stock nor the scale of a price matters. -/
theorem displays_iff_asConverted {fuel : Nat} {messages : List ItchMessage}
    (hfits : Tracking.Admissible (feed (fuel + 1)) Fits messages Exchange.create) :
    Tracking.Tracks (feed (fuel + 1)) revise Displays messages Exchange.create (fun _ ↦ 0) ↔
      Tracking.Meets revise AsConverted messages fun _ ↦ 0 :=
  Tracking.tracks_iff (fun _ _ _ h hshown hfits ↦ feed_step h hshown hfits) Exchange.plain_create
    Exchange.remaining_create hfits

def addHundred : ItchMessage := .addOrder 0 1 .buy 100 "AAPL" 10000

theorem admissible_addHundred (msg : ItchMessage) (hmsg : ∀ ex, Fits ex msg) :
    Tracking.Admissible (feed 1) Fits [addHundred, msg] Exchange.create :=
  Tracking.admissible_cons.mpr ⟨⟨rfl, rfl⟩, fun ex _ ↦
    Tracking.admissible_cons.mpr ⟨hmsg ex, fun _ _ ↦ Tracking.admissible_nil⟩⟩

/-- A deleted order. -/
theorem displays_deleted :
    Tracking.Tracks (feed 1) revise Displays [addHundred, .orderDelete 1 1] Exchange.create
      (fun _ ↦ 0) :=
  (displays_iff_asConverted (admissible_addHundred (.orderDelete 1 1) fun _ ↦ trivial)).mpr
    (Tracking.meets_cons.mpr ⟨trivial, Tracking.meets_cons.mpr ⟨trivial, Tracking.meets_nil⟩⟩)

/-- Of a hundred shares, forty are cancelled and none is left, or forty are executed and all are
left. -/
theorem forty_of_hundred :
    (Tracking.Admissible (feed 1) Fits [addHundred, .orderCancel 1 1 40] Exchange.create ∧
      ¬ Tracking.Tracks (feed 1) revise Displays [addHundred, .orderCancel 1 1 40] Exchange.create
        fun _ ↦ 0) ∧
      Tracking.Admissible (feed 1) Fits [addHundred, .orderExecuted 1 1 40 7] Exchange.create ∧
        ¬ Tracking.Tracks (feed 1) revise Displays [addHundred, .orderExecuted 1 1 40 7]
          Exchange.create fun _ ↦ 0 := by
  refine ⟨⟨admissible_addHundred _ fun _ ↦ trivial, fun h ↦ ?_⟩,
    admissible_addHundred _ fun _ ↦ trivial, fun h ↦ ?_⟩
  · obtain ⟨ex, hex, hshown⟩ := h 2 le_rfl
    have hleft : ex.remaining 1 = 0 := Exchange.observe hex (fun ex ↦ ex.remaining 1) rfl
    exact absurd (hleft.symm.trans (congrFun hshown 1)) (by decide)
  · obtain ⟨ex, hex, hshown⟩ := h 2 le_rfl
    have hleft : ex.remaining 1 = 100 := Exchange.observe hex (fun ex ↦ ex.remaining 1) rfl
    exact absurd (hleft.symm.trans (congrFun hshown 1)) (by decide)

end Nanobook.Itch
