import Mathlib.Algebra.Order.BigOperators.Group.List
import Mathlib.Algebra.Order.Ring.Nat
import Mathlib.Data.Finset.Sort
import Nanobook.Lifecycle
import Nanobook.PriceTime
import Nanobook.Snapshot

/-!
# Depth snapshots

A snapshot is made of the cached totals and the queue lengths of the levels.  `OrderBook.depthOf` is
what it should show, read off the table of orders: the prices of the active GTC orders from best to
worst, each with what these orders have left and how many they are.

Without cancellations the two agree, as long as no total saturates.
-/

namespace Nanobook

/-- A GTC order that is still active. -/
def Order.isOpen (o : Order) : Bool := o.timeInForce = .gtc && o.isActive

/-- Adds an order to the exchange, whichever way its trades and stops go. -/
def Op.isSubmission (op : Op) : Bool :=
  match op.method with
  | .submitLimit .. | .submitLimitWithOwner .. | .submitMarket .. | .submitStopMarket ..
  | .submitStopLimit .. | .submitTrailingStopMarket .. | .submitTrailingStopLimit .. => true
  | _ => false

namespace OrderBook

/-! ## What a snapshot should show -/

/-- The open orders of one side. -/
def openOrders (b : OrderBook) (s : Side) : List Order :=
  (b.orders.entries.map Prod.snd).filter fun o ↦ o.isOpen && o.side = s

/-- The open orders of one side and price. -/
def openAt (b : OrderBook) (s : Side) (p : Price) : List Order :=
  (b.openOrders s).filter fun o ↦ o.price = p

/-- The prices of the open orders of one side, from best to worst. -/
def openPrices (b : OrderBook) (s : Side) : List Price :=
  let prices := ((b.openOrders s).map Order.price).toFinset
  match s with
  | .buy => prices.sort (· ≥ ·)
  | .sell => prices.sort (· ≤ ·)

def depthOf (b : OrderBook) (s : Side) (depth : Nat) : List LevelSnapshot :=
  ((b.openPrices s).take depth).map fun p ↦
    ⟨p, remainingSum (b.openAt s p), (b.openAt s p).length⟩

/-- No sum of the open orders of one level overflows a `u64`. -/
def Fits (b : OrderBook) : Prop := ∀ s p, remainingSum (b.openAt s p) ≤ u64Max

variable {b : OrderBook} {s : Side} {p : Price} {l : Level} {o : Order}

theorem remainingSum_le_of_sublist {os os' : List Order} (h : os.Sublist os') :
    remainingSum os ≤ remainingSum os' :=
  (h.map Order.remainingQuantity).sum_le_sum fun _ _ ↦ Nat.zero_le _

/-- Nothing overflows if all stored orders together do not. -/
theorem fits_of_remainingSum_le (h : remainingSum (b.orders.entries.map Prod.snd) ≤ u64Max) :
    b.Fits := fun _ _ ↦
  (remainingSum_le_of_sublist (List.filter_sublist.trans List.filter_sublist)).trans h

theorem mem_openAt (hw : b.WF) : o ∈ b.openAt s p ↔
    b.orders.get? o.id = some o ∧ o.isOpen = true ∧ o.side = s ∧ o.price = p := by
  have hstored : o ∈ b.orders.entries.map Prod.snd ↔ b.orders.get? o.id = some o := by
    rw [List.mem_map]
    constructor
    · rintro ⟨⟨id, o'⟩, he, rfl⟩
      have ho := (OrdMap.get?_eq_some_iff _).mpr he
      rwa [(hw.stored id o' ho).1]
    · exact fun ho ↦ ⟨(o.id, o), (OrdMap.get?_eq_some_iff _).mp ho, rfl⟩
  simp only [openAt, openOrders, List.mem_filter, hstored, Bool.and_eq_true, decide_eq_true_eq,
    and_assoc]

/-- The table holds every order once. -/
theorem nodup_openAt (hw : b.WF) : (b.openAt s p).Nodup := by
  refine List.Nodup.filter _ (List.Nodup.filter _ ?_)
  refine List.Nodup.of_map Order.id ?_
  have hids : (b.orders.entries.map Prod.snd).map Order.id = b.orders.entries.map Prod.fst := by
    rw [List.map_map]
    refine List.map_congr_left fun e he ↦ ?_
    exact (hw.stored e.1 e.2 ((OrdMap.get?_eq_some_iff _).mpr he)).1
  rw [hids]
  exact (List.pairwise_map.mpr (b.orders.sorted.imp fun h ↦ h.ne))

theorem map_id_ordersOf (hst : b.Stocked s) (hl : b.level s p = some l) :
    (ordersOf b.orders l.iter).map Order.id = l.iter := by
  rw [ordersOf, List.map_filterMap]
  refine (List.filterMap_congr fun id hid ↦ ?_).trans (List.filterMap_some (l := l.iter))
  obtain ⟨o, ho, hoid, -⟩ := (hst.level p l hl).order id hid
  rw [ho, Option.map_some, hoid]

theorem nodup_ordersOf (hst : b.Stocked s) (hl : b.level s p = some l) :
    (ordersOf b.orders l.iter).Nodup := by
  refine List.Nodup.of_map Order.id ?_
  rw [map_id_ordersOf hst hl]
  exact (hst.level p l hl).nodup

/-- What is queued at a price is open there. -/
theorem mem_openAt_of_queued (hw : b.WF) (hst : b.Stocked s) (hg : b.GtcOnly)
    (hl : b.level s p = some l) (ho : o ∈ ordersOf b.orders l.iter) : o ∈ b.openAt s p := by
  obtain ⟨hid, hget, hs, hp, hr⟩ := hst.of_mem_queue hl ho
  have hactive : o.isActive = true := ((hw.queued s p l o.id hl hid).2 o hget).2.2.mpr hr
  have hgtc := hg s p l o.id o hl hid hget
  refine (mem_openAt hw).mpr ⟨hget, ?_, hs, hp⟩
  rw [Order.isOpen, hactive, hgtc]
  rfl

/-- A queue has no more left than the open orders of its price. -/
theorem remainingSum_le_openAt (hw : b.WF) (hst : b.Stocked s) (hg : b.GtcOnly)
    (hl : b.level s p = some l) :
    remainingSum (ordersOf b.orders l.iter) ≤ remainingSum (b.openAt s p) := by
  obtain ⟨os, hperm, hsub⟩ := (nodup_ordersOf hst hl).subperm fun o ho ↦
    mem_openAt_of_queued hw hst hg hl ho
  rw [← remainingSum_perm hperm]
  exact remainingSum_le_of_sublist hsub

/-- Where every open order is queued, a queue is the open orders of its price. -/
theorem openAt_perm (hw : b.WF) (hst : b.Stocked s) (hg : b.GtcOnly)
    (hq : b.Queues fun o ↦ o.isOpen = true) (hl : b.level s p = some l) :
    (b.openAt s p).Perm (ordersOf b.orders l.iter) := by
  refine (List.perm_ext_iff_of_nodup (nodup_openAt hw) (nodup_ordersOf hst hl)).mpr fun o ↦
    ⟨fun ho ↦ ?_, mem_openAt_of_queued hw hst hg hl⟩
  obtain ⟨hget, hopen, rfl, rfl⟩ := (mem_openAt hw).mp ho
  obtain ⟨l', hl', hid⟩ := hq o.id o hget hopen
  obtain rfl : l' = l := Option.some.inj (hl'.symm.trans hl)
  exact mem_ordersOf.mpr ⟨o.id, hid, hget⟩

/-- Where every open order is queued, the levels are at the prices of the open orders. -/
theorem openPrices_eq (hw : b.WF) (hst : b.Stocked s) (hg : b.GtcOnly)
    (hq : b.Queues fun o ↦ o.isOpen = true) :
    b.openPrices s = (b.side s).bestToWorst.map Prod.fst := by
  have hprices : ((b.openOrders s).map Order.price).toFinset =
      ((b.side s).bestToWorst.map Prod.fst).toFinset := by
    ext p
    simp only [List.mem_toFinset, List.mem_map]
    constructor
    · rintro ⟨o, ho, rfl⟩
      have hat : o ∈ b.openAt s o.price := List.mem_filter.mpr ⟨ho, by simp⟩
      obtain ⟨hget, hopen, rfl, -⟩ := (mem_openAt hw).mp hat
      obtain ⟨l, hl, -⟩ := hq o.id o hget hopen
      exact ⟨(o.price, l), PriceLevels.mem_bestToWorst.mpr hl, rfl⟩
    · rintro ⟨⟨p, l⟩, he, rfl⟩
      have hl : b.level s p = some l := PriceLevels.mem_bestToWorst.mp he
      obtain ⟨id, ids, hiter⟩ := List.exists_cons_of_ne_nil (hst.level p l hl).nonempty
      obtain ⟨o, ho, -⟩ := (hst.level p l hl).order id (hiter ▸ List.mem_cons_self)
      have hmem : o ∈ ordersOf b.orders l.iter :=
        mem_ordersOf.mpr ⟨id, hiter ▸ List.mem_cons_self, ho⟩
      have hat := mem_openAt_of_queued hw hst hg hl hmem
      exact ⟨o, (List.mem_filter.mp hat).1, ((mem_openAt hw).mp hat).2.2.2⟩
  have hsorted := (b.side s).bestToWorst_pairwise
  rw [hst.side, ← List.pairwise_map (f := Prod.fst) (R := PriceLevels.Better s)] at hsorted
  simp only [openPrices, hprices]
  cases s with
  | buy =>
      have hlt : ((b.side .buy).bestToWorst.map Prod.fst).Pairwise (· > ·) := hsorted
      exact (List.toFinset_sort _ (hlt.imp fun h ↦ h.ne')).mpr (hlt.imp fun h ↦ h.le)
  | sell =>
      have hlt : ((b.side .sell).bestToWorst.map Prod.fst).Pairwise (· < ·) := hsorted
      exact (List.toFinset_sort _ (hlt.imp fun h ↦ h.ne)).mpr (hlt.imp fun h ↦ h.le)

/-- A stocked side with exact totals that queues every open order shows them all. -/
theorem snapshotLevels_eq_depthOf (hw : b.WF) (hst : b.Stocked s) (hx : b.Exact s) (hg : b.GtcOnly)
    (hq : b.Queues fun o ↦ o.isOpen = true) (n : Nat) :
    snapshotLevels (b.side s) n = b.depthOf s n := by
  rw [hst.snapshotLevels_eq hw, depthOf, openPrices_eq hw hst hg hq, resting, ← List.map_take,
    ← List.map_take, List.map_map, List.map_map]
  refine List.map_congr_left fun e he ↦ ?_
  have hl : b.level s e.1 = some e.2 :=
    PriceLevels.mem_bestToWorst.mp (List.mem_of_mem_take he)
  have hperm := openAt_perm hw hst hg hq hl
  simp only [Function.comp_apply, RestingLevel.snapshot, hx e.1 e.2 hl, remainingSum_perm hperm,
    hperm.length_eq]

end OrderBook

namespace Exchange

variable {ex ex' : Exchange} {sub : Submission} {fuel : Nat} {r : SubmitResult}

/-! ## Submissions that fit -/

/-- Whatever the submission leads to has no level that overflows. -/
def FitsAfter (ex : Exchange) (sub : Submission) : Prop :=
  ∀ fuel ex' r, ex.submitLimitInternalWithOwner fuel sub = some (ex', r) → ex'.book.Fits

/-- The invariant: a backed book with exact totals and a queue for every open order, and no
self-trade prevention. -/
structure Listed (ex : Exchange) : Prop where
  backed : ex.Backed
  exact : ∀ t, ex.book.Exact t
  gtcOnly : ex.book.GtcOnly
  queues : ex.book.Queues fun o ↦ o.isOpen = true
  policy : ex.stpPolicy = .off

theorem listed_create : create.Listed where
  backed := backed_create
  exact t p l hl := by cases t <;> cases hl
  gtcOnly s p l id o _ _ ho := by cases ho
  queues id o ho := by cases ho
  policy := rfl

theorem onTarget_of_off (h : ex.stpPolicy = .off) : ex.OnTarget sub := by
  intro o ho
  rw [walkOf_eq, h] at ho
  have hc := (of_cancel_mem_walk ho).2
  rw [stpConflict_off] at hc
  cases hc

theorem stp_walkOf_of_off (h : ex.stpPolicy = .off) : (ex.walkOf sub).stp = false := by
  refine Bool.eq_false_iff.mpr fun hstp ↦ ?_
  rw [walkOf_eq, h] at hstp
  obtain ⟨o, hc⟩ := exists_conflict_of_stp hstp
  rw [stpConflict_off] at hc
  cases hc

namespace Listed

variable (h : ex.Listed)

include h

theorem sure (sub : Submission) : ex.Sure sub := fun _ ↦ onTarget_of_off h.policy

theorem submit_gtcOnly (hs : ex.submitLimitInternalWithOwner fuel sub = some (ex', r)) :
    ex'.book.GtcOnly :=
  Atom.gtcOnly (K := fun _ ↦ True) (P := fun _ _ ↦ True) (Q := fun _ _ ↦ True) (.submit trivial hs)
    h.backed.wf h.gtcOnly

/-- If the sums of the book a submission leaves fit, the level it rests at had room for it: its
queue is the old one with the order at its end. -/
theorem room_of_fits (hs : ex.submitLimitInternalWithOwner fuel sub = some (ex', r))
    (hfits : ex'.book.Fits) (hrej : ex.rejectsFok sub = false) : ex.Room sub := by
  intro htif hstp hleft
  have hb' := h.backed.submit (h.sure sub) hs
  have hg' := h.submit_gtcOnly hs
  rcases submit_cases hs with ⟨hrej', -⟩ | ⟨-, s, hm, rfl, -⟩
  · rw [hrej] at hrej'
    cases hrej'
  have hmatches := h.backed.isWalk (h.sure sub hrej) hm
  have hmd := h.backed.wf.matched hm
  have hnot : s.result.stpCancelled = false := hmatches.stp.trans hstp
  have hrem := Matches.remainingQuantity_eq hmatches hnot
  let o : Order := { s.incoming with status := leftStatus .new s }
  have hbook : settledBook sub s = s.book.addOrder o := by
    rw [settledBook, hnot, if_neg (by simp), if_neg (by rw [hrem]; exact hleft), if_pos htif]
  have hlevel : (s.book.addOrder o).level o.side o.price = some (s.book.pushedLevel o) := by
    rw [OrderBook.level_addOrder, if_pos ⟨rfl, rfl⟩]
  have hfresh : s.book.Fresh o.id := hmd.fresh
  have hsum : remainingSum (ordersOf (s.book.addOrder o).orders (s.book.pushedLevel o).iter) =
      ex.book.totalAt sub.side sub.price + (ex.walkOf sub).left := by
    have htotal : s.book.totalAt o.side o.price = ex.book.totalAt sub.side sub.price :=
      Matches.totalAt_eq hmatches hmd
    rw [(h.backed.exact_match hmatches h.exact o.side).remainingSum_pushedLevel hfresh, htotal,
      ← hrem]
  have hle := OrderBook.remainingSum_le_openAt (b := s.book.addOrder o) (s := o.side) (p := o.price)
    (hbook ▸ hb'.wf.book) (hbook ▸ hb'.stocked o.side) (hbook ▸ hg') hlevel
  rw [hsum] at hle
  exact hle.trans (hbook ▸ hfits o.side o.price)

theorem submit (hfits : ex.FitsAfter sub)
    (hs : ex.submitLimitInternalWithOwner fuel sub = some (ex', r)) : ex'.Listed where
  backed := h.backed.submit (h.sure sub) hs
  exact := h.backed.exact_submit h.exact (h.sure sub) (h.room_of_fits hs (hfits _ _ _ hs)) hs
  gtcOnly := h.submit_gtcOnly hs
  policy := (submit_frame hs).2.2.1.trans h.policy
  queues := by
    rcases submit_cases hs with ⟨-, rfl, -⟩ | ⟨hrej, s, hm, rfl, -⟩
    · exact h.queues.of_counters (ex.side_incoming sub) rfl
    · have hmatches := h.backed.isWalk (h.sure sub hrej) hm
      have hmd := h.backed.wf.matched hm
      have hactive : ∀ o : Order, o.isOpen = true → o.isActive = true := fun o ho ↦
        (Bool.and_eq_true_iff.mp ho).2
      have hq := h.backed.queues_match hactive h.exact h.queues hm hmatches
      have hnot : s.result.stpCancelled = false := hmatches.stp.trans (stp_walkOf_of_off h.policy)
      rw [settledBook, hnot, if_neg (by simp)]
      split_ifs with hrem htif
      · exact OrderBook.Queues.store (o := { s.incoming with status := .filled }) hq
          (by simp [Order.isOpen, Order.isActive, OrderStatus.isActive])
      · exact OrderBook.Queues.addOrder hq hmd.fresh
      · -- an order that is not GTC is not open, whatever its status
        have hnotGtc : s.incoming.timeInForce ≠ .gtc := fun hgtc ↦
          htif (hmd.sameOrder.timeInForce.symm.trans hgtc)
        exact OrderBook.Queues.store (o := { s.incoming with status := leftStatus .cancelled s }) hq
          (by simp [Order.isOpen, hnotGtc])

end Listed

/-! ## Runs of submissions -/

/-- An operation that submits an order and makes no level overflow, neither with this order nor with
one of the stops it triggers. -/
structure Submits (ex : Exchange) (op : Op) : Prop where
  submission : op.isSubmission = true
  fits : ∀ fuel ex' sub, ex.Calls fuel op ex' sub → ex'.FitsAfter sub

theorem cancelCall_eq_none {op : Op} (h : op.isSubmission = true) : ex.cancelCall op = none := by
  rw [Op.isSubmission] at h
  rw [cancelCall]
  split <;> simp_all

/-- A transition that neither submits nor cancels has only the queues to answer for. -/
theorem Listed.of_queues
    (ha : Atom (fun _ ↦ True) (fun _ _ ↦ False) (fun _ _ ↦ False) ex ex') (h : ex.Listed)
    (hq : ex'.book.Queues fun o ↦ o.isOpen = true) : ex'.Listed where
  backed := ha.backed (fun _ _ hf ↦ hf.elim) (fun _ _ hf ↦ hf.elim) h.backed
  exact := ha.exact (fun _ _ hf ↦ hf.elim) (fun _ _ hf ↦ hf.elim) h.backed h.exact
  gtcOnly := ha.gtcOnly h.backed.wf h.gtcOnly
  queues := hq
  policy := ha.frame.2.1.trans h.policy

theorem Listed.atom
    (ha : Atom (fun op ↦ op.isSubmission = true) FitsAfter (fun _ _ ↦ False) ex ex')
    (h : ex.Listed) : ex'.Listed := by
  cases ha with
  | lastPrice last => exact h.of_queues (.lastPrice last) h.queues
  | submit hp hs => exact h.submit hp hs
  | cancelOrder hq => exact hq.elim
  | stops hsb => exact h.of_queues (.stops hsb) h.queues
  | insertStop hid =>
      exact h.of_queues (.insertStop hid) (h.queues.of_counters (fun s ↦ by cases s <;> rfl) rfl)
  | compact => exact h.of_queues .compact h.queues.compact
  | clearHistory hk => cases hk
  | clearTrades hk => cases hk

theorem Listed.step {op : Op} (h : ex.Listed) (hc : ex.Submits op) (hs : ex.Step op ex') :
    ex'.Listed := by
  obtain ⟨fuel, hs⟩ := hs
  have hlog : (ex.logged op).Listed := by
    obtain ⟨events, hlog⟩ := ex.logged_eq op
    rw [hlog]
    exact ⟨h.backed.of_book rfl rfl, h.exact, h.gtcOnly, h.queues, h.policy⟩
  have hpath := perform_path (K := fun op ↦ op.isSubmission = true) (P := FitsAfter)
    (Q := fun _ _ ↦ False) (fun policy hop ↦ by rw [hop] at hc; cases hc.submission) hc.submission
    (hc.fits fuel) (fun id hid ↦ by rw [cancelCall_eq_none hc.submission] at hid; cases hid) hs
  clear hs
  induction hpath with
  | refl => exact hlog
  | tail _ hlast ih => exact ih.atom hlast

/-- Without cancellations and overflows a snapshot shows on each side the best prices of the open
orders, with what these have left and how many they are. -/
theorem snapshot_eq_depth (h : Run Submits create ex) (n : Nat) :
    ex.book.snapshot n =
      ⟨ex.book.depthOf .buy n, ex.book.depthOf .sell n, ex.book.nextOrderId⟩ := by
  have hl : ex.Listed := Run.invariant (I := Listed) (fun _ _ _ hc hl hs ↦ hl.step hc hs) h
    listed_create
  have hside : ∀ s, snapshotLevels (ex.book.side s) n = ex.book.depthOf s n := fun s ↦
    OrderBook.snapshotLevels_eq_depthOf hl.backed.wf.book (hl.backed.stocked s) (hl.exact s)
      hl.gtcOnly hl.queues n
  rw [OrderBook.snapshot, ← hside, ← hside]
  rfl

/-! ### A concrete run -/

/-- What the stored orders have left once a submission has returned. -/
def leftAfter (ex : Exchange) (fuel : Nat) (sub : Submission) : Option Quantity :=
  (ex.submitLimitInternalWithOwner fuel sub).map fun x ↦
    remainingSum (x.1.book.orders.entries.map Prod.snd)

/-- Without stop orders there is one submission to look at. -/
theorem submits_of_no_stops (fuel : Nat) (total : Quantity) {op : Op} (hop : op.isSubmission = true)
    (hcall : ex.directCall op = some (ex.logged op, sub)) (hstop : ex.newStop op = none)
    (hstops : ex.stopBook = StopBook.create)
    (hs : (ex.logged op).leftAfter fuel sub = some total) (htotal : total ≤ u64Max) :
      ex.Submits op where
  submission := hop
  fits fuel' ex₁ sub' hcalls fuel'' ex₂ r hs' := by
    obtain ⟨rfl, rfl⟩ := calls_of_no_stops hcall hstop hstops hcalls
    obtain ⟨x, hx, rfl⟩ := Option.map_eq_some_iff.mp hs
    have hx' := submit_mono (Nat.le_max_left fuel fuel'') hx
    have hs'' := submit_mono (Nat.le_max_right fuel fuel'') hs'
    rw [hx'] at hs''
    cases hs''
    exact OrderBook.fits_of_remainingSum_le htotal

/-- An owner's buy of 2 meets the best of two sells: 3 are left there. -/
theorem snapshot_eq_depth_partial :
    ∃ ex, performAll 5 create [.submitLimit .sell 100 5 .gtc, .submitLimit .sell 101 7 .gtc,
        .submitLimitWithOwner .buy 100 2 .gtc 7] = some ex ∧
      ex.book.snapshot 2 = ⟨ex.book.depthOf .buy 2, ex.book.depthOf .sell 2, ex.book.nextOrderId⟩ ∧
      ex.book.snapshot 2 = ⟨[], [⟨100, 3, 1⟩, ⟨101, 7, 1⟩], 4⟩ := by
  obtain ⟨ex₁, hex₁⟩ : ∃ ex, performAll 5 create [.submitLimit .sell 100 5 .gtc] = some ex :=
    ⟨_, rfl⟩
  obtain ⟨ex₂, hex₂⟩ : ∃ ex, performAll 5 create [.submitLimit .sell 100 5 .gtc,
      .submitLimit .sell 101 7 .gtc] = some ex := ⟨_, rfl⟩
  obtain ⟨ex, hex⟩ : ∃ ex, performAll 5 create [.submitLimit .sell 100 5 .gtc,
      .submitLimit .sell 101 7 .gtc, .submitLimitWithOwner .buy 100 2 .gtc 7] = some ex := ⟨_, rfl⟩
  have hsell₁ : create.Submits (.submitLimit .sell 100 5 .gtc) :=
    submits_of_no_stops 5 5 rfl rfl rfl rfl rfl (by decide)
  have hsell₂ : ex₁.Submits (.submitLimit .sell 101 7 .gtc) :=
    submits_of_no_stops 5 12 rfl rfl rfl (observe hex₁ stopBook rfl)
      (observe hex₁ (fun ex ↦ (ex.logged (.submitLimit .sell 101 7 .gtc)).leftAfter 5
        ⟨.sell, 101, 7, .gtc, none⟩) rfl) (by decide)
  have hbuy : ex₂.Submits (.submitLimitWithOwner .buy 100 2 .gtc 7) :=
    submits_of_no_stops 5 10 rfl rfl rfl (observe hex₂ stopBook rfl)
      (observe hex₂ (fun ex ↦ (ex.logged (.submitLimitWithOwner .buy 100 2 .gtc 7)).leftAfter 5
        ⟨.buy, 100, 2, .gtc, some 7⟩) rfl) (by decide)
  have hrun₁ : Run Submits create ex₁ :=
    Run.concat .refl (rfl : performAll 5 create [] = some create) hsell₁ hex₁
  have hrun₂ : Run Submits create ex₂ := Run.concat hrun₁ hex₁ hsell₂ hex₂
  have hrun : Run Submits create ex := Run.concat hrun₂ hex₂ hbuy hex
  exact ⟨ex, hex, snapshot_eq_depth hrun 2, observe hex (fun ex ↦ ex.book.snapshot 2) rfl⟩

end Exchange

end Nanobook
