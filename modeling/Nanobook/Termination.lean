import Nanobook.Invariant.Submission

/-!
# Termination of matching

Neither loop of the matching engine carries a bound.  The outer one goes on as long as the cached
best price crosses, so a level that stays with nothing to fill in it keeps the engine busy forever,
and a cancellation that misses its slot leaves just such a level behind.  On runs where every
cancellation hits, each pass of either loop brings the match nearer to its end.
-/

namespace Nanobook

/-! ## Passes -/

namespace MatchState

/-- The levels the incoming order trades against. -/
def others (s : MatchState) : List (Price × Level) :=
  (s.book.oppositeSide s.incoming.side).bestToWorst

/-- The number of ids queued on the other side. -/
def queuedIds (s : MatchState) : Nat := (s.others.map fun e ↦ e.2.iter.length).sum

/-- A pass uses up some of the incoming order, takes an id off a queue or removes a level. -/
def Progress (s s' : MatchState) : Prop :=
  s'.incoming.remainingQuantity < s.incoming.remainingQuantity ∨ s'.queuedIds < s.queuedIds ∨
    s'.others.length < s.others.length

/-- The outer loop started in `s` comes back to its head in `t`. -/
def Visits (policy : StpPolicy) : MatchState → MatchState → Prop :=
  Relation.ReflTransGen fun t t' ↦ ∃ fuel, matchOrderBody fuel policy t = some (.inr t')

/-- In `t` the outer loop enters the inner one at price `p`. -/
def Enters (t : MatchState) (p : Price) : Prop :=
  t.incoming.remainingQuantity ≠ 0 ∧ (t.book.oppositeSide t.incoming.side).bestPrice = some p ∧
    pricesCross t.incoming.side t.incoming.price p = true

/-- The match returns, and every pass of its two loops leaves the loop or makes progress. -/
structure Terminates (policy : StpPolicy) (s : MatchState) : Prop where
  returns : ∃ fuel r, Loop.iterate (matchOrderBody fuel policy) fuel s = some r
  outer : ∀ t, Visits policy s t → ∃ fuel, (∃ r, matchOrderBody fuel policy t = some (.inl r)) ∨
    ∃ t', matchOrderBody fuel policy t = some (.inr t') ∧ Progress t t'
  inner : ∀ t p, Visits policy s t → t.Enters p →
    ∀ u, Loop.Reaches (matchAtPriceBody policy p) t u →
      (∃ r, matchAtPriceBody policy p u = some (.inl r)) ∨
        ∃ u', matchAtPriceBody policy p u = some (.inr u') ∧ Progress u u'

theorem queued_eq_queuedIds {s : MatchState} (h : s.book.Stocked s.otherSide) :
    queued (s.book.resting s.otherSide) = s.queuedIds := by
  rw [queued, OrderBook.resting, List.map_map, queuedIds]
  refine congrArg List.sum (List.map_congr_left fun e he ↦ ?_)
  have hst := h.level e.1 e.2 (PriceLevels.mem_bestToWorst.mp he)
  refine List.filterMap_length_eq_length.mpr fun id hid ↦ ?_
  obtain ⟨o, ho, -⟩ := hst.order id hid
  rw [ho]
  rfl

/-- Less to do is progress. -/
theorem progress_of_size {s s' : MatchState} (h : s.book.Stocked s.otherSide)
    (h' : s'.book.Stocked s'.otherSide) (hlt : s'.size < s.size) : Progress s s' := by
  rw [size, size, queued_eq_queuedIds h, queued_eq_queuedIds h'] at hlt
  simp only [Progress]
  lia

end MatchState

section Sim

variable {policy : StpPolicy} {s₀ s : MatchState}

theorem Sim.stocked_self {done : List Action} (h : Sim policy s₀ s done) :
    s.book.Stocked s.otherSide := h.otherSide ▸ h.stocked

/-- Every state the outer loop comes back to is further on in the walk. -/
theorem Sim.visits {done : List Action} (h : Sim policy s₀ s done)
    (hits : Hits (s₀.walkFrom policy))
    {t : MatchState} (hv : MatchState.Visits policy s t) : ∃ done', Sim policy s₀ t done' := by
  induction hv with
  | refl => exact ⟨done, h⟩
  | tail _ hlast ih =>
      obtain ⟨done', hsim⟩ := ih
      obtain ⟨fuel, hbody⟩ := hlast
      rcases hsim.outerPass hits with ⟨fuel', r, hb, -⟩ | ⟨fuel', s', done'', hb, hsim', -⟩
      · have h₁ := matchOrderBody_mono (Nat.le_max_left fuel fuel') hbody
        rw [matchOrderBody_mono (Nat.le_max_right fuel fuel') hb] at h₁
        cases h₁
      · have h₁ := matchOrderBody_mono (Nat.le_max_left fuel fuel') hbody
        rw [matchOrderBody_mono (Nat.le_max_right fuel fuel') hb] at h₁
        cases h₁
        exact ⟨done'', hsim'⟩

/-- Every state the inner loop comes back to is further on in the walk. -/
theorem Sim.reaches {done : List Action} (h : Sim policy s₀ s done)
    (hits : Hits (s₀.walkFrom policy))
    {p : Price} (hx : pricesCross s₀.incoming.side s₀.incoming.price p = true)
    (hp : AtOrPast p (s.book.resting s₀.otherSide)) {u : MatchState}
    (hr : Loop.Reaches (matchAtPriceBody policy p) s u) :
    (∃ done', Sim policy s₀ u done') ∧ AtOrPast p (u.book.resting s₀.otherSide) := by
  refine Loop.Reaches.invariant (I := fun u ↦ (∃ done', Sim policy s₀ u done') ∧
    AtOrPast p (u.book.resting s₀.otherSide)) ?_ hr ⟨⟨done, h⟩, hp⟩
  rintro u u' ⟨⟨done', hsim⟩, hat⟩ hbody
  rcases hsim.innerPass hits hx hat with ⟨hb, -⟩ | ⟨hb, -⟩ | ⟨u'', a, hb, hsim', hat', -⟩
  · rw [hbody] at hb; cases hb
  · rw [hbody] at hb; cases hb
  · rw [hbody] at hb; cases hb; exact ⟨⟨_, hsim'⟩, hat'⟩

/-- On a stocked side, with the orders to be cancelled where they should be, matching terminates. -/
theorem terminates_of_hits (hst : s₀.book.Stocked s₀.otherSide)
    (hstp : s₀.result.stpCancelled = false) (hits : Hits (s₀.walkFrom policy)) :
    s₀.Terminates policy where
  returns := by
    obtain ⟨fuel, r, hr, -⟩ := (Sim.refl hst hstp).outer hits
    exact ⟨fuel, r, hr⟩
  outer t ht := by
    obtain ⟨done, hsim⟩ := (Sim.refl hst hstp).visits hits ht
    rcases hsim.outerPass hits with ⟨fuel, r, hb, -⟩ | ⟨fuel, t', done', hb, hsim', hlt⟩
    · exact ⟨fuel, .inl ⟨r, hb⟩⟩
    · exact ⟨fuel,
        .inr ⟨t', hb, MatchState.progress_of_size hsim.stocked_self hsim'.stocked_self hlt⟩⟩
  inner t p ht hin u hu := by
    obtain ⟨done, hsim⟩ := (Sim.refl hst hstp).visits hits ht
    obtain ⟨-, hbest, hx⟩ := hin
    rw [hsim.incoming.side, hsim.incoming.price] at hx
    have hat : AtOrPast p (t.book.resting s₀.otherSide) := by
      have hbp := hsim.stocked_self.bestPrice_eq
      rw [show (t.book.side t.otherSide).bestPrice = some p from hbest] at hbp
      obtain ⟨level, hlevel, hp⟩ := Option.map_eq_some_iff.mp hbp.symm
      rw [hsim.otherSide] at hlevel
      exact .inl ⟨level, hlevel, hp⟩
    obtain ⟨⟨done', hsim'⟩, hat'⟩ := hsim.reaches hits hx hat hu
    rcases hsim'.innerPass hits hx hat' with ⟨hb, -⟩ | ⟨hb, -⟩ | ⟨u', a, hb, hsim'', -, hprog⟩
    · exact .inl ⟨_, hb⟩
    · exact .inl ⟨_, hb⟩
    · refine .inr ⟨u', hb, MatchState.progress_of_size hsim'.stocked_self hsim''.stocked_self ?_⟩
      rw [MatchState.size, MatchState.size, hsim'.otherSide, hsim''.otherSide]
      lia

end Sim

/-! ## Divergence -/

namespace MatchState

/-- The best level crosses, and stays although nothing is queued in it. -/
def stuck (s : MatchState) : Bool :=
  decide (s.incoming.remainingQuantity ≠ 0) && !s.result.stpCancelled &&
    match (s.book.oppositeSide s.incoming.side).bestPrice with
    | none => false
    | some p => pricesCross s.incoming.side s.incoming.price p &&
        (((s.book.oppositeSide s.incoming.side).getLevel p).bind Level.front).isNone

/-- A pass of the outer loop over such a level only drops tombstones from it. -/
theorem matchOrderBody_of_stuck {policy : StpPolicy} {s : MatchState} (h : s.stuck = true)
    (fuel : Nat) : ∃ s', matchOrderBody (fuel + 1) policy s = some (.inr s') ∧ s'.stuck = true := by
  simp only [stuck, Bool.and_eq_true, decide_eq_true_eq, Bool.not_eq_true'] at h
  obtain ⟨⟨hr, hstp⟩, h⟩ := h
  split at h
  · cases h
  · next p hbest =>
      rw [Bool.and_eq_true, Option.isNone_iff_eq_none] at h
      obtain ⟨hx, hfront⟩ := h
      refine ⟨s.skipTombstones p, ?_, ?_⟩
      · have hinner : matchAtPrice (fuel + 1) policy p s = some (s.skipTombstones p) :=
          Loop.iterate_succ_inl (by simp only [matchAtPriceBody, hr, if_false, hfront]) fuel
        have hstp' : (s.skipTombstones p).result.stpCancelled = false := hstp
        simp only [matchOrderBody, hr, if_false, hbest, hx, if_true, hinner]
        simp [hstp']
      · have hside : (s.skipTombstones p).book.oppositeSide s.incoming.side =
            (s.book.oppositeSide s.incoming.side).updateLevel p Level.skipTombstones := by
          rw [skipTombstones, OrderBook.oppositeSide, OrderBook.side_updateSide, if_pos rfl]
          rfl
        have hbest' :
          ((s.skipTombstones p).book.oppositeSide s.incoming.side).bestPrice = some p := by
          rw [hside]
          exact hbest
        have hfront' : (((s.skipTombstones p).book.oppositeSide s.incoming.side).getLevel p).bind
            Level.front = none := by
          rw [hside, PriceLevels.getLevel_updateLevel, if_pos rfl]
          cases hl : (s.book.oppositeSide s.incoming.side).getLevel p with
          | none => rfl
          | some l =>
              rw [hl, Option.bind_some, Level.front_eq] at hfront
              rw [Option.map_some, Option.bind_some, Level.front_eq, Level.iter_skipTombstones]
              exact hfront
        have hinc : (s.skipTombstones p).incoming = s.incoming := rfl
        have hres : (s.skipTombstones p).result = s.result := rfl
        simp only [stuck, hinc, hres, hbest', hfront']
        simp [hr, hstp, hx]

/-- Matching an order against such a level never returns. -/
theorem iterate_of_stuck {policy : StpPolicy} {s : MatchState} (h : s.stuck = true) (fuel n : Nat) :
    Loop.iterate (matchOrderBody (fuel + 1) policy) n s = none :=
  Loop.iterate_eq_none_of_closed (D := fun s ↦ s.stuck = true)
    (fun _ hs ↦ matchOrderBody_of_stuck hs fuel) n h

end MatchState

/-! ## Operations return -/

namespace Exchange

variable {ex ex' : Exchange}

/-- Every cancellation an operation makes hits the order it is meant for: its own cancellation of a
book order, and those of self-trade prevention in the match it starts. -/
structure CancelsHit (ex : Exchange) (op : Op) : Prop where
  cancel : ∀ id, ex.cancelCall op = some id → ex.book.Targets id
  submit : ∀ ex' sub, ex.directCall op = some (ex', sub) → ex'.Sure sub

theorem Backed.of_book (h : ex.Backed) (hbook : ex'.book = ex.book)
    (hstops : ex'.stopBook = ex.stopBook) : ex'.Backed :=
  ⟨⟨hbook ▸ h.wf.book, by rw [hbook, hstops]; exact h.wf.stops⟩, hbook ▸ h.stocked⟩

theorem Backed.logged (h : ex.Backed) (op : Op) : (ex.logged op).Backed := by
  obtain ⟨events, hlog⟩ := ex.logged_eq op
  rw [hlog]
  exact h.of_book rfl rfl

/-- Triggered stops have no owner, so of the submissions of an operation only its own may cancel. -/
theorem CancelsHit.sure {op : Op} (hc : ex.CancelsHit op) {fuel : Nat} {ex₁ : Exchange}
    {sub : Submission} (h : ex.Calls fuel op ex₁ sub) : ex₁.Sure sub := by
  cases h with
  | direct hcall => exact hc.submit _ _ hcall
  | trigger _ hcalls => exact fun _ ↦ onTarget_of_owner_none hcalls.frame.1

theorem CancelsHit.targets_logged {op : Op} (hc : ex.CancelsHit op) {id : OrderId}
    (hid : ex.cancelCall op = some id) : (ex.logged op).book.Targets id := by
  obtain ⟨events, hlog⟩ := ex.logged_eq op
  rw [hlog]
  exact hc.cancel id hid

theorem Step.backed {op : Op} (hs : ex.Step op ex') (hc : ex.CancelsHit op) (h : ex.Backed) :
    ex'.Backed := by
  obtain ⟨fuel, hs⟩ := hs
  by_cases hop : ∃ policy, op = .setStpPolicy policy
  · obtain ⟨policy, rfl⟩ := hop
    obtain rfl := Option.some.inj hs
    exact h.of_book rfl rfl
  · exact Path.backed (K := fun _ ↦ True) (P := Sure) (Q := fun ex id ↦ ex.book.Targets id)
      (fun _ _ hp ↦ hp)
      (fun _ _ hq ↦ hq) (perform_path (fun policy hp ↦ hop ⟨policy, hp⟩) trivial
        (fun _ _ hcalls ↦ hc.sure hcalls)
        (fun _ hid ↦ hc.targets_logged hid) hs) (h.logged op)

theorem Run.backed (h : Run CancelsHit create ex) : ex.Backed :=
  Run.invariant (I := Backed) (fun _ _ _ hc hb hs ↦ hs.backed hc hb) h backed_create

/-- The state in which an operation makes a submission is backed. -/
theorem Calls.backed {op : Op} {fuel : Nat} {ex₁ : Exchange} {sub : Submission}
    (hcalls : ex.Calls fuel op ex₁ sub) (hc : ex.CancelsHit op) (h : ex.Backed) : ex₁.Backed :=
  Path.backed (K := fun _ ↦ True) (P := Sure) (Q := fun ex id ↦ ex.book.Targets id)
  (fun _ _ hp ↦ hp)
    (fun _ _ hq ↦ hq) (hcalls.path (fun _ _ hcalls ↦ hc.sure hcalls)
      (fun _ hid ↦ hc.targets_logged hid)) (h.logged op)

/-! ### Triggers -/

theorem Backed.exists_triggerRound (h : ex.Backed) :
    ∃ fuel x, ex.triggerRound fuel = some x ∧ (Sum.elim id id x).Backed := by
  suffices hs : ∃ fuel x, ex.triggerRound fuel = some x by
    obtain ⟨fuel, x, hx⟩ := hs
    refine ⟨fuel, x, hx, Path.backed (K := fun _ ↦ True) (P := Sure) (Q := fun _ _ ↦ False)
      (fun _ _ hp ↦ hp)
      (fun _ _ hq ↦ hq.elim) (triggerRound_path (n := 0) (fun ex' sub hc _ ↦ ?_) hx) h⟩
    exact onTarget_of_owner_none hc.frame.1
  cases hp : ex.lastTradePrice with
  | none => exact ⟨0, _, by simp only [triggerRound, hp]; rfl⟩
  | some p =>
      have hcol : (ex.collectTriggered p).1.Backed :=
        Path.backed (K := fun _ ↦ True) (P := fun _ _ ↦ False) (Q := fun _ _ ↦ False)
        (fun _ _ hp ↦ hp.elim)
          (fun _ _ hq ↦ hq.elim) (collectTriggered_path ex p) h
      obtain ⟨fuel, acc, hfold, -⟩ := Loop.exists_foldlM (f := submitTriggered)
        (I := fun acc ↦ acc.1.Backed) (fun _ _ _ _ _ hle ht ↦ submitTriggered_mono hle ht)
        (ex.collectTriggered p).2 (s := ((ex.collectTriggered p).1, none)) (fun acc stop _ hacc ↦ by
          have hsure : acc.1.Sure stop.submission := fun _ ↦
            onTarget_of_owner_none (submission_owner stop)
          obtain ⟨fuel, ⟨ex₁, r⟩, hsub⟩ := hacc.exists_submit hsure
          exact ⟨fuel, _, Option.bind_eq_some_iff.mpr ⟨(ex₁, r), hsub, rfl⟩,
            hacc.submit hsure hsub⟩)
        hcol
      refine ⟨fuel, ?_⟩
      simp only [triggerRound, hp]
      split_ifs
      · exact ⟨_, rfl⟩
      · rw [hfold]
        cases hlast : acc.2 with
        | none => exact ⟨.inl acc.1, by simp [hlast]⟩
        | some p' => exact ⟨.inr { acc.1 with lastTradePrice := some p' }, by simp [hlast]⟩

theorem Backed.exists_triggerRounds (h : ex.Backed) (n : Nat) :
    ∃ fuel ex', triggerRounds fuel n ex = some ex' := by
  induction n generalizing ex with
  | zero => exact ⟨0, ex, rfl⟩
  | succ n ih =>
      obtain ⟨fuel, x, hx, hb⟩ := h.exists_triggerRound
      cases x with
      | inl ex₁ => exact ⟨fuel, ex₁, Option.bind_eq_some_iff.mpr ⟨_, hx, rfl⟩⟩
      | inr ex₁ =>
          obtain ⟨fuel', ex₂, h₂⟩ := ih hb
          exact ⟨max fuel fuel', ex₂, Option.bind_eq_some_iff.mpr
            ⟨_, triggerRound_mono (Nat.le_max_left _ _) hx,
              triggerRounds_mono (Nat.le_max_right _ _) h₂⟩⟩

theorem Backed.exists_onTrades (h : ex.Backed) (trades : List Trade) :
    ∃ fuel ex', ex.onTrades fuel trades = some ex' := by
  simp only [onTrades]
  split
  · exact ⟨0, ex, rfl⟩
  · next last _ =>
      have hb : Backed { ex with lastTradePrice := some last.price } := h.of_book rfl rfl
      exact hb.exists_triggerRounds maxCascadeDepth

/-- A submission with the triggers of its trades. -/
theorem Backed.exists_submit_onTrades {sub : Submission} (h : ex.Backed) (ht : ex.Sure sub) :
    ∃ fuel x ex', ex.submitLimitInternalWithOwner fuel sub = some x ∧
      x.1.onTrades fuel x.2.trades = some ex' := by
  obtain ⟨fuel, ⟨ex₁, r⟩, hsub⟩ := h.exists_submit ht
  obtain ⟨fuel', ex₂, hon⟩ := (h.submit ht hsub).exists_onTrades r.trades
  exact ⟨max fuel fuel', (ex₁, r), ex₂, submit_mono (Nat.le_max_left _ _) hsub,
    onTrades_mono (Nat.le_max_right _ _) hon⟩

/-- On a backed exchange an operation whose cancellations hit returns. -/
theorem Backed.exists_step {op : Op} (h : ex.Backed) (hc : ex.CancelsHit op) :
    ∃ ex', ex.Step op ex' := by
  have hcalls : ∀ ex₁ sub, ex.directCall op = some (ex₁, sub) → ex₁.Backed ∧ ex₁.Sure sub :=
    fun ex₁ sub hcall ↦
      ⟨(Calls.direct hcall : ex.Calls 0 op ex₁ sub).backed hc h, hc.submit _ _ hcall⟩
  rcases ex.kind op with ⟨sub, hm, hcall⟩ | ⟨order, -, hstop, hid⟩ | ⟨id, -, -, -, hperf⟩ |
    ⟨id, p, q, rfl⟩ | ⟨id, p, q, rfl⟩ | ⟨policy, rfl⟩ | ⟨ex₁, -, hperf, -⟩
  · obtain ⟨hb, ht⟩ := hcalls _ _ hcall
    obtain ⟨fuel, x, ex', hsub, hon⟩ := hb.exists_submit_onTrades ht
    refine ⟨ex', fuel, ?_⟩
    rw [perform_submission hm hcall]
    exact Option.bind_eq_some_iff.mpr ⟨x, hsub, hon⟩
  · have hins : ((ex.logged op).insertStop order).Backed :=
      Atom.backed (K := fun _ ↦ True) (P := fun _ _ ↦ False) (Q := fun _ _ ↦ False)
      (fun _ _ hp ↦ hp.elim)
        (fun _ _ hq ↦ hq.elim) (.insertStop hid) (h.logged op)
    obtain ⟨fuel, ex', hrounds⟩ := hins.exists_triggerRounds maxCascadeDepth
    simp only [Step, perform_newStop hstop]
    split_ifs
    · exact ⟨ex', fuel, hrounds⟩
    · exact ⟨_, 0, rfl⟩
  · exact ⟨_, 0, hperf 0⟩
  · cases hcall : ex.directCall (.modify id p q) with
    | none =>
        obtain ⟨r, -, hmod⟩ := modifyInternal_of_directCall_none ex
          (ex.logged (.modify id p q)) (.modify id p q) rfl rfl hcall
        exact ⟨_, 0, Option.map_eq_some_iff.mpr ⟨_, hmod 0, rfl⟩⟩
    | some y =>
        obtain ⟨hb, ht⟩ := hcalls y.1 y.2 hcall
        obtain ⟨n, hmod⟩ := modifyInternal_of_directCall_some (.modify id p q) rfl rfl rfl hcall
        obtain ⟨fuel, x, hsub⟩ := hb.exists_submit ht
        exact ⟨_, fuel, Option.map_eq_some_iff.mpr
          ⟨_, (hmod fuel).trans (Option.map_eq_some_iff.mpr ⟨x, hsub, rfl⟩), rfl⟩⟩
  · cases hcall : ex.directCall (.apply (.modify id p q)) with
    | none =>
        obtain ⟨r, htr, hmod⟩ := modifyInternal_of_directCall_none ex
          (ex.logged (.apply (.modify id p q))) (.apply (.modify id p q)) rfl rfl hcall
        have hon : (ex.logged (.apply (.modify id p q))).onTrades 0 r.trades =
            some (ex.logged (.apply (.modify id p q))) := by
          rw [htr]
          rfl
        exact ⟨_, 0, Option.map_eq_some_iff.mpr ⟨_, Option.bind_eq_some_iff.mpr ⟨_, hmod 0,
          Option.bind_eq_some_iff.mpr ⟨_, hon, rfl⟩⟩, rfl⟩⟩
    | some y =>
        obtain ⟨hb, ht⟩ := hcalls y.1 y.2 hcall
        obtain ⟨n, hmod⟩ :=
          modifyInternal_of_directCall_some (.apply (.modify id p q)) rfl rfl rfl hcall
        obtain ⟨fuel, x, ex', hsub, hon⟩ := hb.exists_submit_onTrades ht
        exact ⟨ex', fuel, Option.map_eq_some_iff.mpr ⟨_, Option.bind_eq_some_iff.mpr
          ⟨_, (hmod fuel).trans (Option.map_eq_some_iff.mpr ⟨x, hsub, rfl⟩),
            Option.bind_eq_some_iff.mpr ⟨ex', hon, rfl⟩⟩, rfl⟩⟩
  · exact ⟨_, 0, rfl⟩
  · exact ⟨_, 0, hperf 0⟩

/-- After a run in which every cancellation hit, an operation whose cancellations hit returns, and
every match it makes, its own or one of a triggered stop, terminates with progress in each pass. -/
theorem terminates_of_run (h : Run CancelsHit create ex) {op : Op} (hc : ex.CancelsHit op) :
    (∃ ex', ex.Step op ex') ∧ ∀ fuel ex₁ sub, ex.Calls fuel op ex₁ sub →
      ex₁.rejectsFok sub = false → (ex₁.entry sub).Terminates ex₁.stpPolicy := by
  have hb := h.backed
  refine ⟨hb.exists_step hc, fun fuel ex₁ sub hcalls hrej ↦ ?_⟩
  have hb₁ := hcalls.backed hc hb
  exact terminates_of_hits (hb₁.stocked_incoming sub _) rfl (hb₁.hits (hc.sure hcalls hrej))

/-- An operation that cancels no book order and submits without an owner. -/
theorem cancelsHit_of_owner_none {op : Op} (hcancel : ex.cancelCall op = none)
    (hsub : ∀ ex' sub, ex.directCall op = some (ex', sub) → sub.owner = none) :
      ex.CancelsHit op where
  cancel id hid := by rw [hcancel] at hid; cases hid
  submit ex' sub hcall _ := onTarget_of_owner_none (hsub ex' sub hcall)

theorem cancelsHit_submitLimit (ex : Exchange) (side : Side) (price : Price) (quantity : Quantity)
    (tif : TimeInForce) : ex.CancelsHit (.submitLimit side price quantity tif) :=
  cancelsHit_of_owner_none rfl fun _ _ h ↦ by cases h; rfl

/-- A cancellation hits an order that is in the slot recorded for it. -/
theorem cancelsHit_cancel {id : OrderId} {o : Order} {l : Level}
    (ho : ex.book.orders.get? id = some o) (hl : ex.book.level o.side o.price = some l)
    (hslot : l.orders[o.positionInLevel]? = some id) : ex.CancelsHit (.cancel id) where
  cancel j hj o' ho' _ l' hl' := by
    obtain rfl : id = j := by
      simp only [cancelCall, Op.method] at hj
      split_ifs at hj
      exact Option.some.inj hj
    obtain rfl := Option.some.inj (ho.symm.trans ho')
    obtain rfl := Option.some.inj (hl.symm.trans hl')
    exact .inl hslot
  submit _ _ hcall := by cases hcall

/-- The second of two sells at one price is cancelled before anything moved, and a buy comes in. -/
theorem terminates_of_run_after_cancel :
    ∃ ex, performAll 5 create [.submitLimit .sell 100 10 .gtc, .submitLimit .sell 100 20 .gtc,
        .cancel 2] = some ex ∧
      (∃ ex', ex.Step (.submitLimit .buy 100 15 .gtc) ex') ∧
      (ex.entry ⟨.buy, 100, 15, .gtc, none⟩).Terminates ex.stpPolicy := by
  obtain ⟨ex₁, hex₁⟩ : ∃ ex, performAll 5 create [.submitLimit .sell 100 10 .gtc,
      .submitLimit .sell 100 20 .gtc] = some ex := ⟨_, rfl⟩
  have hl := observe hex₁ (fun ex ↦ ex.book.level .sell 100) (a := some ⟨100, [1, 2], 30, 0⟩) rfl
  have ho := observe hex₁ (fun ex ↦ ex.book.orders.get? 2)
    (a := some ⟨2, .sell, 100, 20, 20, 0, 2, .gtc, .new, none, 1⟩) rfl
  have hrun₁ : Run CancelsHit create ex₁ := run_of_performAll (fun op hop ex ↦ by
    simp only [List.mem_cons, List.not_mem_nil, or_false] at hop
    rcases hop with rfl | rfl
    · exact ex.cancelsHit_submitLimit _ _ _ _
    · exact ex.cancelsHit_submitLimit _ _ _ _) hex₁
  have hcancel : ex₁.CancelsHit (.cancel 2) := cancelsHit_cancel ho hl rfl
  have hrun : Run CancelsHit create (ex₁.cancel 2).1 := hrun₁.tail ⟨_, hcancel, 0, rfl⟩
  refine ⟨(ex₁.cancel 2).1, ?_, ?_⟩
  · rw [performAll, show [Op.submitLimit .sell 100 10 .gtc, .submitLimit .sell 100 20 .gtc,
      .cancel 2] = [.submitLimit .sell 100 10 .gtc, .submitLimit .sell 100 20 .gtc] ++ [.cancel 2]
      from rfl, List.foldlM_append, ← performAll, hex₁]
    rfl
  · obtain ⟨hstep, hterm⟩ := terminates_of_run hrun
      ((ex₁.cancel 2).1.cancelsHit_submitLimit .buy 100 15 .gtc)
    have hcall : (ex₁.cancel 2).1.directCall (.submitLimit .buy 100 15 .gtc) =
        some ((ex₁.cancel 2).1.logged (.submitLimit .buy 100 15 .gtc),
        ⟨.buy, 100, 15, .gtc, none⟩) :=
      rfl
    have hlogged := hterm 0 _ _ (.direct hcall) rfl
    exact ⟨hstep, hlogged⟩

/-- Once the first of two sells is filled, the recorded slot of the second does not exist.
Cancelling it leaves a level with a total of 20 and no order to fill, and the next buy at that price
never returns. -/
theorem submitLimit_never_returns :
    ∃ ex, performAll 5 create [.submitLimit .sell 100 10 .gtc, .submitLimit .sell 100 20 .gtc,
        .submitLimit .buy 100 10 .gtc, .cancel 2] = some ex ∧ Reachable ex ∧
      ex.book.level .sell 100 = some ⟨100, [2], 20, 0⟩ ∧
      (ex.book.orders.get? 2).map Order.remainingQuantity = some 0 ∧
      (∀ fuel, ex.perform fuel (.submitLimit .buy 100 5 .gtc) = none) ∧
      ¬ (ex.entry ⟨.buy, 100, 5, .gtc, none⟩).Terminates ex.stpPolicy := by
  obtain ⟨ex, hex⟩ : ∃ ex, performAll 5 create [.submitLimit .sell 100 10 .gtc,
      .submitLimit .sell 100 20 .gtc, .submitLimit .buy 100 10 .gtc, .cancel 2] =
      some ex := ⟨_, rfl⟩
  have hlevel := observe hex (fun ex ↦ ex.book.level .sell 100) (a := some ⟨100, [2], 20, 0⟩) rfl
  have hrem := observe hex (fun ex ↦ (ex.book.orders.get? 2).map Order.remainingQuantity)
    (a := some 0) rfl
  -- the first pass pops order 2 without lowering the total, and is stuck from then on
  have hnone : ∀ fuel n, Loop.iterate (matchOrderBody fuel ex.stpPolicy) n
      (ex.entry ⟨.buy, 100, 5, .gtc, none⟩) = none := by
    intro fuel n
    have hmono : ∀ r, Loop.iterate (matchOrderBody fuel ex.stpPolicy) n
        (ex.entry ⟨.buy, 100, 5, .gtc, none⟩) = some r →
        Loop.iterate (matchOrderBody (fuel + 2) ex.stpPolicy) (n + 1)
          (ex.entry ⟨.buy, 100, 5, .gtc, none⟩) = some r := fun r ↦
      Loop.iterate_mono (fun _ _ hb ↦ matchOrderBody_mono (by lia) hb) (by lia)
    have hfirst := observe hex (fun ex ↦ (matchOrderBody (fuel + 2) ex.stpPolicy
      (ex.entry ⟨.buy, 100, 5, .gtc, none⟩)).map (Sum.elim (fun _ ↦ false) MatchState.stuck))
      (a := some true) rfl
    obtain ⟨x, hx, hstuck⟩ := Option.map_eq_some_iff.mp hfirst
    cases x with
    | inl r => cases hstuck
    | inr s =>
        cases hret : Loop.iterate (matchOrderBody fuel ex.stpPolicy) n
            (ex.entry ⟨.buy, 100, 5, .gtc, none⟩) with
        | none => rfl
        | some r =>
            have hret' := hmono r hret
            rw [Loop.iterate_succ_inr hx, MatchState.iterate_of_stuck hstuck] at hret'
            cases hret'
  refine ⟨ex, hex, reachable_of_performAll hex, hlevel, hrem, fun fuel ↦ ?_, fun hterm ↦ ?_⟩
  · have hmatch : (ex.incoming ⟨.buy, 100, 5, .gtc, none⟩).2.matchOrderWithPolicy fuel
        (ex.incoming ⟨.buy, 100, 5, .gtc, none⟩).1 ex.stpPolicy = none := by
      rw [OrderBook.matchOrderWithPolicy]
      exact Option.bind_eq_none_iff.mpr fun a ha ↦ by
        have := (hnone fuel fuel).symm.trans ha
        cases this
    have hsub : (ex.logged (.submitLimit .buy 100 5 .gtc)).submitLimitInternalWithOwner fuel
        ⟨.buy, 100, 5, .gtc, none⟩ = none := by
      simp only [submitLimitInternalWithOwner]
      exact Option.bind_eq_none_iff.mpr fun a ha ↦ by
        have := hmatch.symm.trans ha
        cases this
    rw [perform_submission (by simp [Op.method]) rfl, hsub]
    rfl
  · obtain ⟨fuel, r, hr⟩ := hterm.returns
    rw [hnone] at hr
    cases hr

end Exchange

end Nanobook
