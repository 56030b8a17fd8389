import Nanobook.Rebalancer.Carryover
import Nanobook.Rebalancer.Completed
import Nanobook.Rebalancer.Success

/-!
# The order loop

What a run logs for each order of its plan, and what recovery starts from when it reads these lines.
The log may end anywhere after the plan: a process that stops leaves what was logged before.
-/

namespace Nanobook.Rebalancer

open Program RecoveredState

section Loop

variable {W : Type} (prims : Primitives W) (input : RunInput W)

/-- A run up to its first order, with the orders that are to be executed. -/
def loopStart : Run (Option (List RebalanceOrder)) := do
  let _ ← startRun prims input
  let (summary, positions, prices, _, orders) ← computePlan prims input
  if orders.isEmpty then pure none
  else do
    checkRisk prims input summary positions prices orders
    let confirmed ← confirm input
    pure (if confirmed then some orders else none)

/-- The lines of every order, in the order of the plan; there are none for the orders after the end
of the loop. -/
def orderSegments (i : Nat) (counts : RunCounts) :
    List RebalanceOrder → Session → List (List AuditEvent)
  | [], _ => []
  | order :: rest, s =>
      if input.env.shutdownBefore i then [] :: rest.map fun _ ↦ []
      else
        match processOrder prims input counts order s with
        | (.error _, s') => s'.log.drop s.log.length :: rest.map fun _ ↦ []
        | (.ok (counts, _), s') =>
            s'.log.drop s.log.length ::
              if input.env.shutdownAfter i then rest.map fun _ ↦ []
              else orderSegments (i + 1) counts rest s'

/-- Lines that recovery reads without looking at an order. -/
def AuditEvent.LeavesOrders (e : AuditEvent) : Prop :=
  e.checkpoint ≠ some .diffComputed ∧ ¬ e.isOrderEvent

variable {prims input}

theorem leavesOrders_checkpointEvent {c : Checkpoint}
    (hc : c ∉ Checkpoint.diffComputed :: orderCheckpoints)
    (ts : Timestamp) (n : Nat) (data : Json) : (checkpointEvent c ts n data).LeavesOrders := by
  simp only [orderCheckpoints, List.mem_cons, List.not_mem_nil, or_false, not_or] at hc
  simp [AuditEvent.LeavesOrders, AuditEvent.isOrderEvent, hc]

theorem leavesOrders_of_no_checkpoint {e : AuditEvent} (h : e.checkpoint = none) :
    e.LeavesOrders := by
  simp [AuditEvent.LeavesOrders, AuditEvent.isOrderEvent, h]

theorem orders_foldl_of_leavesOrders {l : List AuditEvent} (h : ∀ e ∈ l, e.LeavesOrders)
    (st : RecoveredState) : (l.foldl applyEvent st).orders = st.orders := by
  induction l generalizing st with
  | nil => rfl
  | cons e l ih =>
      have he := h e List.mem_cons_self
      rw [List.foldl_cons, ih fun e he ↦ h e (List.mem_cons_of_mem _ he)]
      exact orders_applyEvent_of_other he.1 he.2

/-! ## The lines of the loop -/

theorem forall₂_orderLines_nil (div : CentDivision) (orders : List RebalanceOrder) :
    List.Forall₂ (OrderLines div) orders (orders.map fun _ ↦ []) := by
  induction orders with
  | nil => exact .nil
  | cons order rest ih => exact .cons .nothing ih

theorem orderLines_drop (counts : RunCounts) (order : RebalanceOrder) (s : Session) :
    OrderLines prims.div order
    ((processOrder prims input counts order s).2.log.drop s.log.length) := by
  obtain ⟨l, hlog, -, hl, -⟩ := processOrder_lines counts s
  rw [hlog, List.drop_left]
  exact hl

/-- Each order has its own lines. -/
theorem forall₂_orderSegments (orders : List RebalanceOrder) (i : Nat) (counts : RunCounts)
    (s : Session) :
    List.Forall₂ (OrderLines prims.div) orders (orderSegments prims input i counts orders s) := by
  induction orders generalizing i counts s with
  | nil => exact .nil
  | cons order rest ih =>
      rw [orderSegments]
      have hlines := @orderLines_drop W prims input counts order s
      cases hbefore : input.env.shutdownBefore i with
      | true => exact .cons .nothing (forall₂_orderLines_nil _ rest)
      | false =>
          simp only [Bool.false_eq_true, if_false]
          rcases hres : processOrder prims input counts order s with ⟨e | ⟨counts', cancelled⟩, s'⟩
          · rw [hres] at hlines
            exact .cons hlines (forall₂_orderLines_nil _ rest)
          · rw [hres] at hlines
            cases hafter : input.env.shutdownAfter i with
            | true => exact .cons hlines (forall₂_orderLines_nil _ rest)
            | false => exact .cons hlines (ih _ _ _)

theorem orderSegments_singleton {i : Nat} (hbefore : input.env.shutdownBefore i = false)
    (counts : RunCounts) (order : RebalanceOrder) (s : Session) :
    orderSegments prims input i counts [order] s =
      [(processOrder prims input counts order s).2.log.drop s.log.length] := by
  rw [orderSegments, hbefore]
  simp only [Bool.false_eq_true, if_false]
  rcases processOrder prims input counts order s with ⟨e | ⟨counts', cancelled⟩, s'⟩
  · rfl
  · cases hafter : input.env.shutdownAfter i <;> rfl

theorem flatten_map_nil {A B : Type} (xs : List A) :
    (xs.map fun _ ↦ ([] : List B)).flatten = [] := by
  simp

/-- The lines of the orders come first; what is logged after them is about no order. -/
theorem log_executeOrders (orders : List RebalanceOrder) (i : Nat) (counts : RunCounts)
    (s : Session) :
    ∃ l, (executeOrders prims input i counts orders s).2.log =
        s.log ++ (orderSegments prims input i counts orders s).flatten ++ l ∧
      ∀ e ∈ l, e.LeavesOrders := by
  have hkill (ts : Timestamp) (data : Json) :
      AuditEvent.LeavesOrders ⟨"kill_completed", ts, none, none, data⟩ :=
    leavesOrders_of_no_checkpoint (by rfl)
  induction orders generalizing i counts s with
  | nil => exact ⟨[], by simp only [orderSegments, List.flatten_nil, List.append_nil]; rfl, by simp⟩
  | cons order rest ih =>
      rw [executeOrders, orderSegments]
      cases hbefore : input.env.shutdownBefore i with
      | true =>
          have hemits : EmitsOnly Session.log AuditEvent.LeavesOrders NotRejected (do
              logKillCompleted input (rest.length + 1)
              pure (none : Option RunCounts)) :=
            emitsOnly_bind (emitsOnly_logKillCompleted hkill _) fun _ ↦ EmitsOnly.pure trivial
          obtain ⟨l, hlog, hl, -⟩ := hemits s
          refine ⟨l, ?_, hl⟩
          simp only [if_true, List.flatten_cons, flatten_map_nil, List.append_nil]
          exact hlog
      | false =>
          obtain ⟨lines, hlines, -⟩ := @processOrder_lines order W prims input counts s
          simp only [Bool.false_eq_true, if_false]
          rcases hres : processOrder prims input counts order s with ⟨e | ⟨counts', cancelled⟩, s'⟩
          · rw [hres] at hlines
            rw [bind_of_error hres]
            refine ⟨[], ?_, by simp⟩
            simp only [hlines, List.drop_left, List.flatten_cons, flatten_map_nil, List.append_nil]
          · rw [hres] at hlines
            rw [bind_of_ok hres]
            cases hafter : input.env.shutdownAfter i with
            | true =>
                have hemits : EmitsOnly Session.log AuditEvent.LeavesOrders NotRejected (do
                    shutDownAfter input rest.length cancelled
                    pure (none : Option RunCounts)) :=
                  emitsOnly_bind (emitsOnly_shutDownAfter (leavesOrders_checkpointEvent (by decide))
                    (leavesOrders_checkpointEvent (by decide)) hkill _ _) fun _ ↦
                      EmitsOnly.pure trivial
                obtain ⟨l, hlog, hl, -⟩ := hemits s'
                refine ⟨l, ?_, hl⟩
                simp only [hlines, List.drop_left, if_true, List.flatten_cons, flatten_map_nil,
                  List.append_nil] at hlog ⊢
                exact hlog
            | false =>
                obtain ⟨l, hlog, hl⟩ := ih (i + 1) counts' s'
                refine ⟨l, ?_, hl⟩
                simp only [Bool.false_eq_true, if_false, hlines, List.drop_left, List.flatten_cons]
                rw [hlog, hlines, List.append_assoc s.log]

/-! ## The lines of the run -/

/-- What a run does once its orders are executed, or the execution ended it. -/
def afterLoop (input : RunInput W) (prims : Primitives W) (summary : Account)
    (allSymbols : List Symbol) :
    Except RunError (Option RunCounts) → Run RunOutcome
  | .error e => raise e
  | .ok none => pure .stopped
  | .ok (some counts) => do
      reconcile prims input summary allSymbols
      pure (.reconciled counts)

theorem emitsOnly_afterLoop (summary : Account) (allSymbols : List Symbol) (n : Nat)
    {result : Except RunError (Option RunCounts)} (hresult : NotRejected result) :
    EmitsOnly Session.log AuditEvent.LeavesOrders NotRejected
      (afterLoop input prims summary allSymbols result >>= finishRun prims input n) := by
  have hfinish (outcome : RunOutcome) : EmitsOnly Session.log AuditEvent.LeavesOrders NotRejected
      (finishRun prims input n outcome) :=
    emitsOnly_finishRun (fun _ _ ↦ leavesOrders_of_no_checkpoint (by rfl))
      (fun _ _ _ _ ↦ leavesOrders_of_no_checkpoint (by rfl))
        (leavesOrders_checkpointEvent (by decide))
      n outcome
  have hfetches : ∀ c ∈ [Checkpoint.positionsIntent, .positionsResult, .quotesIntent, .quotesResult,
      .accountSummaryIntent, .accountSummaryResult],
      c ∉ Checkpoint.diffComputed :: orderCheckpoints := by
    decide
  refine emitsOnly_bind ?_ hfinish
  match result with
  | .error e => exact emitsOnly_raise hresult
  | .ok none => exact EmitsOnly.pure trivial
  | .ok (some counts) =>
      exact emitsOnly_bind
        (emitsOnly_reconcile (fun c hc ↦ leavesOrders_checkpointEvent (hfetches c hc)) _ _)
        fun _ ↦ EmitsOnly.pure trivial

/-- After the loop, a run logs nothing about an order. -/
theorem log_runOn {events : List AuditEvent} {orders : List RebalanceOrder} {s : Session}
    (hstart : loopStart prims input (input.session events) = (.ok (some orders), s)) :
    ∃ l, (runOn prims input events).2.log =
        s.log ++ (orderSegments prims input 0 ⟨0, 0, 0⟩ orders s).flatten ++ l ∧
      ∀ e ∈ l, e.LeavesOrders := by
  obtain ⟨n, s₁, hbegin, hstart⟩ := bind_eq_ok hstart
  obtain ⟨⟨summary, positions, prices, allSymbols, plan⟩, s₂, hplan, hstart⟩ := bind_eq_ok hstart
  simp only at hstart
  cases hempty : plan.isEmpty with
  | true =>
      rw [hempty] at hstart
      cases hstart
  | false =>
      simp only [hempty, Bool.false_eq_true, if_false] at hstart
      obtain ⟨_, s₃, hrisk, hstart⟩ := bind_eq_ok hstart
      obtain ⟨confirmed, s₄, hconfirm, hstart⟩ := bind_eq_ok hstart
      cases confirmed with
      | false => cases hstart
      | true =>
          cases hstart
          obtain ⟨lines, hlines, hlinesOther⟩ :=
            @log_executeOrders W prims input orders 0 ⟨0, 0, 0⟩ s
          obtain ⟨-, -, -, hresult⟩ := @emitsOnly_executeOrders W prims input orders 0 ⟨0, 0, 0⟩ s
          rcases hexecute : executeOrders prims input 0 ⟨0, 0, 0⟩ orders s with ⟨result, s'⟩
          rw [hexecute] at hlines hresult
          have hrebalance :
            rebalance prims input s₁ = afterLoop input prims summary allSymbols result s' := by
            rw [rebalance, bind_of_ok hplan]
            simp only [hempty, Bool.false_eq_true, if_false]
            rw [bind_of_ok hrisk, bind_of_ok hconfirm]
            simp only [Bool.not_true, Bool.false_eq_true, if_false]
            match result, hexecute with
            | .error e, hexecute => exact bind_of_error hexecute
            | .ok none, hexecute => exact bind_of_ok hexecute
            | .ok (some counts), hexecute => exact bind_of_ok hexecute
          obtain ⟨l, hlog, hl, -⟩ :=
            @emitsOnly_afterLoop W prims input summary allSymbols n _ hresult s'
          refine ⟨lines ++ l, ?_, fun e he ↦ (List.mem_append.mp he).elim (hlinesOther e) (hl e)⟩
          rw [runOn, run, bind_of_ok hbegin, bind_congr_left hrebalance, hlog, hlines,
            List.append_assoc]

/-! ## What recovery starts from -/

/-- A checkpoint that is logged is the last line of the log. -/
theorem ensures_log_logNextCheckpoint (c : Checkpoint) (data : Nat → Json) :
    Ensures (logNextCheckpoint c data) fun s _ s' ↦
      ∃ ts n, s'.log = s.log ++ [checkpointEvent c ts n (data n)] := by
  intro s a s' hres
  obtain ⟨l, hlog, b, hb, hl⟩ := writes_logNextCheckpoint c data s
  rw [hres] at hlog hb
  cases hl with
  | written h =>
      obtain ⟨ts, n, rfl⟩ := h
      exact ⟨ts, n, hlog⟩
  | unsynced h => cases hb
  | failed => cases hb

/-- The plan is the last line of the log once it is computed. -/
theorem ensures_log_computePlan : Ensures (computePlan prims input) fun _ plan s' ↦
    ∃ l ts n, s'.log =
    l ++ [checkpointEvent .diffComputed ts n (diffData prims.div plan.2.2.2.2)] := by
  have hany {A : Type} (m : Run A) : Ensures m fun _ _ _ ↦ True := fun _ _ _ _ ↦ trivial
  refine ((hany _).bind fun summary ↦ (hany _).bind fun positions ↦ (hany _).bind fun quotes ↦
    (hany _).bind fun _ ↦ Ensures.ite (fun _ ↦ Ensures.raise _) fun _ ↦
      (ensures_log_logNextCheckpoint _ _).bind fun _ ↦ Ensures.pure _).mono ?_
  rintro s plan s' ⟨_, _, -, _, _, -, _, _, -, _, _, -, _, s₁, ⟨ts, n, hlog⟩, rfl, rfl⟩
  exact ⟨_, ts, n, hlog⟩

theorem reconstruct_append (now : Timestamp) (events later : List AuditEvent) :
    reconstruct now (events ++ later) = later.foldl applyEvent (reconstruct now events) :=
  List.foldl_append

/-- Before its first order, the orders that recovery knows are those of the plan. -/
theorem orders_loopStart {orders : List RebalanceOrder} {s₀ s : Session} (now : Timestamp)
    (hstart : loopStart prims input s₀ = (.ok (some orders), s)) :
    (reconstruct now s.log).orders = orders.map fun o ↦ recoveredOrder prims.div o none := by
  obtain ⟨n, s₁, hbegin, hstart⟩ := bind_eq_ok hstart
  obtain ⟨⟨summary, positions, prices, allSymbols, plan⟩, s₂, hplan, hstart⟩ := bind_eq_ok hstart
  obtain ⟨l, ts, m, hlog⟩ := ensures_log_computePlan s₁ _ s₂ hplan
  have hemits : EmitsOnly Session.log AuditEvent.LeavesOrders NotRejected (do
      checkRisk prims input summary positions prices plan
      confirm input) :=
    emitsOnly_bind (emitsOnly_checkRisk (fun _ _ ↦ leavesOrders_of_no_checkpoint (by rfl))
      (leavesOrders_checkpointEvent (by decide)) _ _ _ _) fun _ ↦
      emitsOnly_confirm fun _ _ ↦ leavesOrders_of_no_checkpoint (by rfl)
  obtain ⟨l', hlog', hl', -⟩ := hemits s₂
  simp only at hstart
  cases hempty : plan.isEmpty with
  | true =>
      rw [hempty] at hstart
      cases hstart
  | false =>
      simp only [hempty, Bool.false_eq_true, if_false] at hstart
      obtain ⟨_, s₃, hrisk, hstart⟩ := bind_eq_ok hstart
      obtain ⟨confirmed, s₄, hconfirm, hstart⟩ := bind_eq_ok hstart
      rw [bind_of_ok hrisk, hconfirm] at hlog'
      cases confirmed with
      | false => cases hstart
      | true =>
          cases hstart
          rw [hlog', reconstruct_append, orders_foldl_of_leavesOrders hl', hlog, reconstruct_concat,
            applyEvent_checkpointEvent]
          exact congrArg RecoveredState.orders (applyDiff_diffData prims.div _ orders)

/-- The loop is reached where everything is answered and the orders are not to be confirmed. -/
theorem loopStart_ok {orders : List RebalanceOrder} {before : List AuditEvent}
    (h : Unhindered prims input orders) (hne : orders ≠ []) (hdry : input.opts.dryRun = false)
    (hforce : input.opts.force = true)
    (hrisk : ∀ equity prices positions, (prims.checkRisk orders equity input.target.targets prices
      positions).hasFailures = false)
    (hwindow : checkWindowAlreadyComplete before (input.target.windowId prims) = none) :
    ∃ s, loopStart prims input (input.session before) = (.ok (some orders), s) ∧
      s.Ready (.new input.env.responses) := by
  obtain ⟨n, begun, hbegun, hready⟩ := startRun_ok h hwindow
  have hloop : Yields (Session.Ready (.new input.env.responses)) (do
      let (summary, positions, prices, _, orders) ← computePlan prims input
      if orders.isEmpty then pure none
      else do
        checkRisk prims input summary positions prices orders
        let confirmed ← confirm input
        pure (if confirmed then some orders else none)) (· = some orders) := by
    refine (yields_computePlan h).bind fun ⟨summary, positions, prices, allSymbols, plan⟩ hplan ↦ ?_
    obtain rfl : plan = orders := hplan
    have hcheck : Yields (Session.Ready (.new input.env.responses))
        (checkRisk prims input summary positions prices plan) fun _ ↦ True := by
      simp only [checkRisk, hrisk, Bool.false_eq_true, if_false]
      exact Yields.bind (yields_logWithIdempotency _ _ _ _) fun _ _ ↦ yields_logNextCheckpoint _ _
    have hconfirm :
      Yields (Session.Ready (.new input.env.responses)) (confirm input) (· = true) := by
      simp only [confirm, hdry, hforce, Bool.false_eq_true, if_false, if_true]
      exact Yields.pure rfl
    simp only [List.isEmpty_eq_false_iff.mpr hne, Bool.false_eq_true, if_false]
    refine hcheck.bind fun _ _ ↦ hconfirm.bind fun confirmed hconfirmed ↦ ?_
    subst hconfirmed
    exact Yields.pure rfl
  obtain ⟨result, s, hres, rfl, hready'⟩ := hloop begun hready
  exact ⟨s, (bind_of_ok hbegun).trans hres, hready'⟩

/-! ## A log that ends anywhere -/

/-- The parts of a list of lists that are left of its first `k` elements. -/
def cutAll {A : Type} (k : Nat) : List (List A) → List (List A)
  | [] => []
  | l :: ls => l.take k :: cutAll (k - l.length) ls

theorem flatten_cutAll {A : Type} (ls : List (List A)) (k : Nat) :
    (cutAll k ls).flatten = ls.flatten.take k := by
  induction ls generalizing k with
  | nil => rw [cutAll, List.flatten_nil, List.take_nil]
  | cons l ls ih => rw [cutAll, List.flatten_cons, List.flatten_cons, List.take_append, ih]

theorem getElem?_cutAll_zero {A : Type} (ls : List (List A)) (i : Nat) :
    (cutAll 0 ls)[i]?.getD [] = [] := by
  induction ls generalizing i with
  | nil => rfl
  | cons l ls ih =>
      cases i with
      | zero => rfl
      | succ i =>
          rw [cutAll, Nat.zero_sub, List.getElem?_cons_succ]
          exact ih i

/-- The lines of an order, cut off anywhere, are lines of an order. -/
theorem OrderLines.take {div : CentDivision} {order : RebalanceOrder} {l : List AuditEvent}
    (h : OrderLines div order l) (k : Nat) : OrderLines div order (l.take k) := by
  match k, h with
  | 0, h => exact List.take_zero ▸ .nothing
  | k + 1, .nothing => exact .nothing
  | k + 1, .intended hi => rw [List.take_of_length_le (by simp)]; exact .intended hi
  | 1, .failed hi hf => exact .intended hi
  | k + 2, .failed hi hf => rw [List.take_of_length_le (by simp)]; exact .failed hi hf
  | 1, .submitted id hi hs => exact .intended hi
  | k + 2, .submitted id hi hs => rw [List.take_of_length_le (by simp)]; exact .submitted id hi hs
  | 1, .filled result hi hs hf => exact .intended hi
  | 2, .filled result hi hs hf => exact .submitted _ hi hs
  | k + 3, .filled result hi hs hf =>
      rw [List.take_of_length_le (by simp)]
      exact .filled result hi hs hf

theorem forall₂_cutAll {div : CentDivision} {orders : List RebalanceOrder}
    {segments : List (List AuditEvent)} (h : List.Forall₂ (OrderLines div) orders segments)
    (k : Nat) :
    List.Forall₂ (OrderLines div) orders (cutAll k segments) := by
  induction h generalizing k with
  | nil => exact .nil
  | cons hlines _ ih => exact .cons (hlines.take k) (ih _)

/-- A log that ends `k` lines after the plan. -/
def logAt (prims : Primitives W) (input : RunInput W) (events : List AuditEvent) (s : Session)
    (k : Nat) :
    List AuditEvent :=
  (runOn prims input events).2.log.take (s.log.length + k)

/-- What is left of the lines of the orders in that log. -/
def linesAt (prims : Primitives W) (input : RunInput W) (orders : List RebalanceOrder) (s : Session)
    (k : Nat) : List (List AuditEvent) :=
  cutAll k (orderSegments prims input 0 ⟨0, 0, 0⟩ orders s)

/-- Recovery reads the plan, and then the lines of its orders, as far as the log goes. -/
theorem orders_reconstruct_logAt {events : List AuditEvent} {orders : List RebalanceOrder}
    {s : Session} (hstart : loopStart prims input (input.session events) = (.ok (some orders), s))
    (now : Timestamp) (k : Nat) : ∃ st : RecoveredState,
      st.orders = orders.map (fun o ↦ recoveredOrder prims.div o none) ∧
      (reconstruct now (logAt prims input events s k)).orders =
        ((linesAt prims input orders s k).flatten.foldl applyEvent st).orders := by
  obtain ⟨l, hlog, hl⟩ := log_runOn hstart
  refine ⟨reconstruct now s.log, orders_loopStart now hstart, ?_⟩
  rw [logAt, hlog, List.append_assoc, List.take_length_add_append, List.take_append,
    ← List.append_assoc, reconstruct_append, reconstruct_append, linesAt, flatten_cutAll]
  exact orders_foldl_of_leavesOrders (fun e he ↦ hl e (List.mem_of_mem_take he)) _

end Loop

end Nanobook.Rebalancer
