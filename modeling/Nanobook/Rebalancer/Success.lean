import Nanobook.Rebalancer.Lines

/-!
# Runs that succeed

Where everything is answered and every line is written, a run that executes no orders succeeds: one
with an empty plan, and a dry run.
-/

namespace Nanobook.Rebalancer

open Program

/-- Every write succeeds. -/
def Session.Writable (s : Session) : Prop := ∀ i, (s.audit.writer i).1 = .written

/-- Every write succeeds, and no order was given to the broker since. -/
def Session.Ready (broker : BrokerGateway) (s : Session) : Prop := s.Writable ∧ s.broker = broker

/-- All answers are there, the quotes are fresh, and the plan is not too long. -/
structure Unhindered {W : Type} (prims : Primitives W) (input : RunInput W)
    (orders : List RebalanceOrder) : Prop where
  written : ∀ i, (input.env.writer i).1 = .written
  connected : input.env.connection = .ok ()
  clock : input.env.clock.isSome = true
  planned : plannedOrders prims input = some orders
  fresh : ∀ i, ∃ age, input.env.quoteAge i = some age ∧
  age ≤ input.config.quoteStalenessThresholdSec
  few : orders.length ≤ input.config.maxOrdersPerRun

section Success

variable {W : Type} {prims : Primitives W} {input : RunInput W} {orders : List RebalanceOrder}
  {broker : BrokerGateway}

theorem yields_writeLog (event : Timestamp → AuditEvent) :
    Yields (Session.Ready broker) (writeLog fun audit ↦ audit.append event) fun _ ↦ True := by
  intro s hs
  have hwritten : (s.audit.writer 0).1 = .written := hs.1 0
  refine ⟨(), { s with audit := (s.audit.append event).2 }, ?_, trivial, fun i ↦ hs.1 (i + 1), hs.2⟩
  simp only [writeLog, AuditLog.append, hwritten, WriteOutcome.succeeded]

theorem yields_logWithIdempotency (event : String) (n : Option Nat) (windowId : Option String)
    (data : Json) :
    Yields (Session.Ready broker)
    (writeLog fun audit ↦ audit.logWithIdempotency event n windowId data)
      fun _ ↦ True :=
  yields_writeLog _

theorem yields_logNextCheckpoint (checkpoint : Checkpoint) (data : Nat → Json) :
    Yields (Session.Ready broker) (logNextCheckpoint checkpoint data) fun _ ↦ True :=
  fun s hs ↦ yields_writeLog _ { s with checkpointSequence := s.checkpointSequence + 1 } hs

theorem yields_fetchWithWriteAhead {A : Type} {intent result : Checkpoint} {intentData : Nat → Json}
    {answer : Except BrokerError A} {resultData : A → Json} {a : A} (ha : answer = .ok a) :
    Yields (Session.Ready broker) (fetchWithWriteAhead intent result intentData answer resultData)
      (· = a) := by
  subst ha
  exact (yields_logNextCheckpoint _ _).bind fun _ _ ↦
    (yields_logNextCheckpoint _ _).bind fun _ _ ↦ Yields.pure rfl

theorem yields_checkStaleness (hfresh : ∀ i, ∃ age, input.env.quoteAge i = some age ∧
    age ≤ input.config.quoteStalenessThresholdSec) (quotes : List Quote) (i : Nat) :
    Yields (Session.Ready broker) (checkStaleness input i quotes) fun _ ↦ True := by
  induction quotes generalizing i with
  | nil => exact Yields.pure trivial
  | cons quote rest ih =>
      obtain ⟨age, hage, hle⟩ := hfresh i
      rw [checkStaleness, hage]
      simp only [if_neg (Nat.not_lt.mpr hle)]
      exact ih _

/-- The plan is what was to be computed. -/
theorem yields_computePlan (h : Unhindered prims input orders) :
    Yields (Session.Ready broker) (computePlan prims input) fun plan ↦ plan.2.2.2.2 = orders := by
  have hplanned := h.planned
  rw [plannedOrders] at hplanned
  split at hplanned
  · rename_i summary positions hsummary hpositions
    simp only at hplanned
    split at hplanned
    · rename_i quotes hquotes
      obtain rfl := Option.some.inj hplanned
      refine (yields_fetchWithWriteAhead hsummary).bind fun _ hsummary ↦ ?_
      subst hsummary
      refine (yields_fetchWithWriteAhead hpositions).bind fun _ hpositions ↦ ?_
      subst hpositions
      refine (yields_fetchWithWriteAhead hquotes).bind fun _ hquotes ↦ ?_
      subst hquotes
      refine (yields_checkStaleness h.fresh _ 0).bind fun _ _ ↦ ?_
      rw [if_neg (Nat.not_lt.mpr h.few)]
      exact (yields_logNextCheckpoint _ _).bind fun _ _ ↦ Yields.pure rfl
    · cases hplanned
  · cases hplanned

theorem yields_rebalance_of_empty (h : Unhindered prims input []) :
    Yields (Session.Ready broker) (rebalance prims input) (· = .nothingToDo) := by
  refine (yields_computePlan h).bind fun ⟨summary, positions, prices, allSymbols, orders⟩ horders ↦
    ?_
  obtain rfl : orders = [] := horders
  exact Yields.pure rfl

theorem yields_rebalance_of_dryRun (h : Unhindered prims input orders) (hne : orders ≠ [])
    (hdry : input.opts.dryRun = true)
    (hrisk : ∀ equity prices positions, (prims.checkRisk orders equity input.target.targets prices
      positions).hasFailures = false) :
    Yields (Session.Ready broker) (rebalance prims input) (· = .stopped) := by
  refine (yields_computePlan h).bind fun ⟨summary, positions, prices, allSymbols, plan⟩ hplan ↦ ?_
  obtain rfl : plan = orders := hplan
  have hcheck : Yields (Session.Ready broker) (checkRisk prims input summary positions prices plan)
      fun _ ↦ True := by
    simp only [checkRisk, hrisk, Bool.false_eq_true, if_false]
    exact Yields.bind (yields_logWithIdempotency _ _ _ _) fun _ _ ↦ yields_logNextCheckpoint _ _
  have hconfirm : Yields (Session.Ready broker) (confirm input) (· = false) := by
    rw [confirm, if_pos hdry]
    exact Yields.pure rfl
  have hnonempty : plan.isEmpty = false := List.isEmpty_eq_false_iff.mpr hne
  simp only [hnonempty, Bool.false_eq_true, if_false]
  refine hcheck.bind fun _ _ ↦ hconfirm.bind fun confirmed hconfirmed ↦ ?_
  subst hconfirmed
  exact Yields.pure rfl

theorem yields_beginRun (hclock : input.env.clock.isSome = true) :
    Yields (Session.Ready broker) (beginRun prims input) fun _ ↦ True := by
  obtain ⟨now, hnow⟩ := Option.isSome_iff_exists.mp hclock
  have hread : Yields (Session.Ready broker)
      (Program.read fun s : Session ↦ maxCheckpointSequence s.log : Run Nat) fun _ ↦ True :=
    fun s hs ↦ ⟨_, s, rfl, trivial, hs⟩
  refine hread.bind fun existing _ ↦ ?_
  have hmodify : Yields (Session.Ready broker) (Program.modify fun s : Session ↦
      { s with checkpointSequence := max now existing } : Run Unit) fun _ ↦ True :=
    fun s hs ↦ ⟨(), _, rfl, trivial, hs⟩
  simp only [hnow]
  exact hmodify.bind fun _ _ ↦ (yields_logNextCheckpoint _ _).bind fun _ _ ↦
    (Yields.when (yields_logWithIdempotency _ _ _ _) trivial).bind fun _ _ ↦ Yields.pure trivial

theorem yields_finishRun (n : Nat) (outcome : RunOutcome) :
    Yields (Session.Ready broker) (finishRun prims input n outcome) fun _ ↦ True := by
  cases outcome with
  | nothingToDo =>
      exact Yields.bind (yields_logWithIdempotency _ _ _ _) fun _ _ ↦ yields_logNextCheckpoint _ _
  | stopped => exact Yields.pure trivial
  | reconciled counts =>
      exact (Yields.when (yields_logWithIdempotency _ _ _ _) trivial).bind fun _ _ ↦
        yields_logNextCheckpoint _ _

/-- The start of a run succeeds if its window is not rejected. -/
theorem startRun_ok {before : List AuditEvent} (h : Unhindered prims input orders)
    (hwindow : checkWindowAlreadyComplete before (input.target.windowId prims) = none) :
    ∃ n s, startRun prims input (input.session before) = (.ok n, s) ∧
      s.Ready (.new input.env.responses) := by
  have hcheck : Program.when (input.opts.cronMode = true) (checkIdempotency prims input)
      (input.session before) = (.ok (), input.session before) := by
    rw [Program.when]
    split_ifs
    · exact checkIdempotency_of_unmarked hwindow
    · rfl
  have hconnect :
    Yields (Session.Ready (.new input.env.responses)) (connect input) fun _ ↦ True := by
    rw [connect, h.connected]
    exact fun s hs ↦ ⟨(), _, rfl, trivial, hs⟩
  obtain ⟨n, s, hbegun, -, hready⟩ :=
    (hconnect.bind fun _ _ ↦ yields_beginRun h.clock) (input.session before) ⟨h.written, rfl⟩
  exact ⟨n, s, (bind_of_ok hcheck).trans hbegun, hready⟩

/-- A run succeeds if its plan can be carried out or left alone, and its window is not rejected. -/
theorem runOn_ok {before : List AuditEvent} {K : RunOutcome → Prop}
    (h : Unhindered prims input orders)
    (hwindow : checkWindowAlreadyComplete before (input.target.windowId prims) = none)
    (hrebalance : Yields (Session.Ready (.new input.env.responses)) (rebalance prims input) K) :
    (runOn prims input before).1 = .ok () := by
  obtain ⟨n, begun, hstart, hready⟩ := startRun_ok h hwindow
  obtain ⟨_, s, hres, -, -⟩ :=
    (hrebalance.bind fun outcome _ ↦ yields_finishRun n outcome) begun hready
  rw [runOn, run, bind_of_ok hstart, hres]

end Success

/-! ## Inputs on which everything succeeds -/

/-- A target weight asks for all of the equity, and every risk check passes. -/
def plainPrimitives : Primitives Unit where
  div := .exact
  targetValue equityCents _ := equityCents
  windowHash scope _ := scope
  clientOrderHash scope symbol _ _ := scope ++ symbol
  checkRisk _ _ _ _ _ := ⟨[]⟩

/-- A run without positions, on which every broker call and every write succeeds.  No order is
answered. -/
def plainInput (cronMode dryRun : Bool) (targets : List (Symbol × Unit)) : RunInput Unit where
  config := ⟨"U1", 30, 0, 0, 10, 30⟩
  target := ⟨"daily", targets⟩
  opts := ⟨dryRun, true, "target.json", cronMode⟩
  env :=
    { clock := some 1000
      connection := .ok ()
      accountSummary := .ok ⟨100000, 100000⟩
      positions := .ok []
      quotes symbols := .ok (symbols.map fun sym ↦ ⟨sym, 9900, 10100, 10000, ""⟩)
      quoteAge _ := some 0
      confirmation := .ok true
      responses _ := .error .notConnected
      cancellation := .ok ()
      shutdownBefore _ := false
      shutdownAfter _ := false
      finalPositions := .ok []
      finalQuotes _ := .ok []
      finalAccountSummary := .ok ⟨100000, 100000⟩
      timestamp _ := ""
      shutdownSeconds := 0
      writer _ := (.written, 0) }

/-- A run that is to buy AAPL for all of the equity, with what the broker answers. -/
def answeredInput (responses : Nat → Response) : RunInput Unit :=
  let input := plainInput false false [((buyAapl 0).order.symbol, ())]
  { input with env := { input.env with responses := responses } }

/-- Its plan is the same for all answers. -/
theorem exists_plannedOrders_answeredInput : ∃ order : RebalanceOrder, ¬ order.shares < 0 ∧
    ∀ responses, plannedOrders plainPrimitives (answeredInput responses) = some [order] := by
  obtain ⟨orders, hplan, hlength, hshares⟩ : ∃ orders,
      plannedOrders plainPrimitives (answeredInput fun _ ↦ .error .notConnected) = some orders ∧
        orders.length = 1 ∧ ∀ o ∈ orders, ¬ o.shares < 0 :=
    ⟨_, rfl, by decide +kernel, by decide +kernel⟩
  obtain ⟨order, rfl⟩ := List.length_eq_one_iff.mp hlength
  exact ⟨order, hshares order (List.mem_singleton_self _), fun responses ↦ hplan⟩

theorem unhindered_answeredInput {responses : Nat → Response} {orders : List RebalanceOrder}
    (hplan : plannedOrders plainPrimitives (answeredInput responses) = some orders)
    (hfew : orders.length ≤ 10) :
    Unhindered plainPrimitives (answeredInput responses) orders where
  written _ := rfl
  connected := rfl
  clock := rfl
  planned := hplan
  fresh _ := ⟨0, rfl, Nat.zero_le _⟩
  few := hfew

theorem unhindered_plainInput {cronMode dryRun : Bool} {targets : List (Symbol × Unit)}
    {orders : List RebalanceOrder}
    (hplan : plannedOrders plainPrimitives (plainInput cronMode dryRun targets) = some orders)
    (hfew : orders.length ≤ 10) :
    Unhindered plainPrimitives (plainInput cronMode dryRun targets) orders where
  written _ := rfl
  connected := rfl
  clock := rfl
  planned := hplan
  fresh _ := ⟨0, rfl, Nat.zero_le _⟩
  few := hfew

end Nanobook.Rebalancer
