import ExecutionSystem.Machine
import ExecutionSystem.RunnerSteps

/-!
# Executions and commissions

The path of a fill from the gateway to the position book: `_on_exec_details`
of `src/broker/ibkr_broker.py` makes a fill of an execution and hands it to
the callback of the runner, which gives it the order manager's own order id
and applies it. The commission of an execution comes in a message of its
own, by `_on_commission_report`, and goes to `_on_commission` of
`src/app/runner.py`.

Both handlers look the order up in what `place_order` has kept of it, and
both may be called again for the same execution, since the gateway replays
its messages after a reconnection. The handler of commissions keeps the
executions it has seen. The handler of executions does not, so that the
book is the one in which each execution is applied once exactly in the runs
in which none is delivered again.
-/

/-- What the client keeps of an order that it has placed
(`_order_metadata`), with the id it has made up for it. -/
structure OrderMetadata where
  orderId : OrderId
  strategyId : StrategyId
  contract : OptionContract
  side : OrderSide
  deriving DecidableEq

def OrderMetadata.ofPlan (orderId : OrderId) (plan : OrderPlan) : OrderMetadata :=
  ⟨orderId, plan.strategyId, plan.contract, plan.side⟩

/-- An execution, as the gateway reports it. -/
structure Execution where
  execId : String
  orderId : BrokerOrderId
  shares : ℕ
  price : Price
  deriving DecidableEq

/-- Whether a position was entered or exited by an order. -/
def Position.ofOrder (o : OrderId) (pos : Position) : Bool :=
  pos.entryOrderId = o || o ∈ pos.exitOrderIds

/-- A commission is netted. -/
def Position.netted (commission : ℚ) (pos : Position) : Position :=
  { pos with realizedPnl := pos.realizedPnl - commission }

/-- **`_on_commission`**: the first position of the order bears the
commission. -/
def ExecutionRunner.onCommission (s : ExecutionRunner) (o : OrderId) (commission : ℚ) :
    ExecutionRunner :=
  match s.pm.positions.findIdx? fun pos => pos.ofOrder o with
  | some i => { s with pm := ⟨s.pm.positions.modify i (.netted commission)⟩ }
  | none => s

/-- **The runner behind the client**, with what the client keeps. -/
structure ExecutionSession where
  runner : ExecutionRunner
  orderMetadata : List (BrokerOrderId × OrderMetadata) := []
  seenCommissionExecIds : List String := []
  /-- The fills handed on so far, with the executions they were of. -/
  fills : List (String × FillEvent) := []
  /-- The commissions of orders placed, each at its first report. -/
  commissions : List (String × ℚ) := []

namespace ExecutionSession

/-- What happens next. -/
inductive Label where
  /-- Something in the order manager, or a call of it. -/
  | orders (l : OrderManager.Label)
  /-- `place_order` of the client returns to the coroutine that awaits it,
  with the ids of the gateway's and the client's own. -/
  | placed (t : TaskId) (b : BrokerOrderId) (orderId : OrderId)
  /-- An execution is reported, or reported again. -/
  | execDetails (e : Execution)
  /-- The commission of an execution is. -/
  | commissionReport (e : Execution) (commission : ℚ)

/-- What is kept of the order with a broker id. -/
def metadata (s : ExecutionSession) (b : BrokerOrderId) : Option OrderMetadata :=
  s.orderMetadata.lookup b

/-- The client answers only through `placed`. -/
def answersPlaced : OrderManager.Label → Bool
  | .resume _ (.placed _ _) => true
  | _ => false

/-- **`place_order` returns.** -/
def placed (s : ExecutionSession) (t : TaskId) (b : BrokerOrderId) (orderId : OrderId) :
    Option ExecutionSession :=
  (s.runner.om.tasks[t]?.bind (·.placing)).bind fun o =>
    (s.runner.om.placeCalls.find? (·.order = o)).bind fun call =>
      (s.runner.om.step (.resume t (.placed b .new))).map fun om =>
        { s with
          runner := { s.runner with om := om }
          orderMetadata := (b, .ofPlan orderId call.plan) :: s.orderMetadata }

/-- **`_on_exec_details`**: the fill of an execution, unless its order is
unknown or the validators of a fill raise. -/
def onExecDetails (s : ExecutionSession) (e : Execution) : Option FillEvent :=
  (s.metadata e.orderId).bind fun md =>
    if h : 0 < e.shares ∧ 0 < e.price then
      some
        { orderId := md.orderId
          strategyId := md.strategyId
          contract := md.contract
          side := md.side
          filledQuantity := e.shares
          fillPrice := e.price
          timestamp := s.runner.om.clock
          brokerOrderId := some e.orderId
          filled_pos := h.1
          price_pos := h.2 }
    else none

/-- A fill is handed on to the runner. -/
def handOn (env : RunnerEnv) (s : ExecutionSession) (execId : String) (fill : FillEvent) :
    ExecutionSession :=
  { s with
    runner := s.runner.filled env fill
    fills := s.fills ++ [(execId, fill)] }

/-- **`_on_commission_report`.** -/
def onCommissionReport (s : ExecutionSession) (e : Execution) (commission : ℚ) :
    ExecutionSession :=
  if e.execId ≠ "" ∧ e.execId ∈ s.seenCommissionExecIds then s
  else match s.metadata e.orderId with
    | none => s
    | some md =>
      if commission ≤ 0 then s
      else
        { s with
          runner := s.runner.onCommission md.orderId commission
          seenCommissionExecIds :=
            if e.execId ≠ "" then s.seenCommissionExecIds.insert e.execId
            else s.seenCommissionExecIds }

/-- The first report of the commission of an execution is recorded. -/
def recorded (s : ExecutionSession) (e : Execution) (commission : ℚ) : ExecutionSession :=
  if (s.metadata e.orderId).isSome ∧ e.execId ∉ s.commissions.map (·.1) then
    { s with commissions := s.commissions ++ [(e.execId, commission)] }
  else s

/-- **One step.** The handlers are called by the event loop, when no
coroutine runs. -/
def step (env : RunnerEnv) (s : ExecutionSession) : Label → Option ExecutionSession
  | .orders l =>
    if answersPlaced l then none
    else (s.runner.om.step l).map fun om => { s with runner := { s.runner with om := om } }
  | .placed t b orderId => s.placed t b orderId
  | .execDetails e =>
    if s.runner.om.running.isNone then
      some <| match s.onExecDetails e with
        | none => s
        | some fill => s.handOn env e.execId fill
    else none
  | .commissionReport e commission =>
    if s.runner.om.running.isNone then
      some ((s.onCommissionReport e commission).recorded e commission)
    else none

/-- The client as it is. -/
def machine (env : RunnerEnv) : Machine ExecutionSession Label where
  step := step env

/-- No order is placed yet. -/
def initial (start : ExecutionRunner.Startup) : ExecutionSession where
  runner := .initial start

/-! ## Each execution once -/

/-- **What each execution should do**: nothing, where a fill of it was
handed on before. -/
def stepOnce (env : RunnerEnv) (s : ExecutionSession) : Label → Option ExecutionSession
  | .execDetails e =>
    if s.runner.om.running.isNone then
      some <| match s.onExecDetails e with
        | none => s
        | some fill =>
          if e.execId ∈ s.fills.map (·.1) then s else s.handOn env e.execId fill
    else none
  | l => s.step env l

/-- A client that applies each execution once, in the order of first
delivery. -/
def onceMachine (env : RunnerEnv) : Machine ExecutionSession Label where
  step := stepOnce env

/-- **The book is the one in which each execution is applied once**, at
every point of the run. -/
def AppliesOnce (env : RunnerEnv) (s : ExecutionSession) (ls : List Label) : Prop :=
  ∀ ks, ks <+: ls →
    ((machine env).run s ks).map (·.runner.pm) = ((onceMachine env).run s ks).map (·.runner.pm)

/-- **The execution is not delivered again**: no fill of it was handed on
before, or none is now. -/
def FirstDelivery (s : ExecutionSession) : Label → Prop
  | .execDetails e => (s.onExecDetails e).isSome = true → e.execId ∉ s.fills.map (·.1)
  | _ => True

/-! ## A fill changes the book -/

/-- What a fill cannot leave as it is: how much is held, and in which
status. -/
def shape (pm : PositionManager) : List (ℕ × PositionStatus) :=
  pm.positions.map fun pos => (pos.quantity, pos.status)

theorem shape_filled_ne {fill : FillEvent} {pos : Position} (hopen : pos.status.isOpen = true) :
    ((pos.filled fill).quantity, (pos.filled fill).status) ≠ (pos.quantity, pos.status) := by
  have hpos := fill.filled_pos
  intro heq
  have hquantity : (pos.filled fill).quantity = pos.quantity := congrArg Prod.fst heq
  have hstatus : (pos.filled fill).status = pos.status := congrArg Prod.snd heq
  unfold Position.filled at hquantity hstatus
  split_ifs at hquantity hstatus with hside hlt
  · have hadded : (pos.added fill).quantity = pos.quantity + fill.filledQuantity := rfl
    omega
  · have hreduced : (pos.reduced fill).quantity = pos.quantity - fill.filledQuantity := rfl
    omega
  · rw [← hstatus] at hopen
    cases hopen

theorem shape_handleFill_ne (pm : PositionManager) (fill : FillEvent) :
    shape (pm.handleFill fill).1 ≠ shape pm := by
  intro heq
  rcases pm.handleFill_cases fill with ⟨-, hnew⟩ | ⟨i, pos, hpos, hopen, -, hmodified⟩
  · have hlength := congrArg List.length heq
    simp [shape, hnew] at hlength
  · have hget := congrArg (·[i]?) heq
    simp only [shape, hmodified, List.getElem?_map, List.getElem?_modify_eq, hpos] at hget
    exact shape_filled_ne hopen (Option.some.inj hget)

/-- **A fill that is applied changes the book.** -/
theorem pm_filled_ne (env : RunnerEnv) (s : ExecutionRunner) (fill : FillEvent) :
    (s.filled env fill).pm ≠ s.pm := by
  intro heq
  have hshape := congrArg shape heq
  rw [shape, ExecutionRunner.map_filled _ fun _ _ _ _ _ _ => rfl] at hshape
  exact shape_handleFill_ne _ _ hshape

/-! ## Every run -/

variable {env : RunnerEnv} {s t : ExecutionSession} {l : Label} {ls : List Label}

/-- Where an execution is not delivered again, each execution once is what
happens. -/
theorem stepOnce_eq (h : s.FirstDelivery l) : s.stepOnce env l = s.step env l := by
  cases l with
  | execDetails e =>
    unfold stepOnce step
    dsimp only
    cases hfill : s.onExecDetails e with
    | none => rfl
    | some fill =>
      have hnew : e.execId ∉ s.fills.map (·.1) := h (by rw [hfill]; rfl)
      dsimp only
      rw [if_neg hnew]
  | orders | placed | commissionReport => rfl

/-- Where one is, the book is no longer that. -/
theorem stepOnce_ne (hstep : s.step env l = some t) (h : ¬ s.FirstDelivery l) :
    ∃ u, s.stepOnce env l = some u ∧ u.runner.pm ≠ t.runner.pm := by
  cases l with
  | execDetails e =>
    unfold FirstDelivery at h
    rw [not_forall] at h
    obtain ⟨hfill, hseen⟩ := h
    obtain ⟨fill, hfill⟩ := Option.isSome_iff_exists.mp hfill
    unfold step at hstep
    unfold stepOnce
    dsimp only at hstep ⊢
    rw [hfill] at hstep ⊢
    split_ifs at hstep with hrun
    obtain rfl := Option.some.inj hstep
    dsimp only
    rw [if_pos hrun, if_pos (not_not.mp hseen)]
    exact ⟨s, rfl, (pm_filled_ne env s.runner fill).symm⟩
  | orders | placed | commissionReport => exact absurd trivial h

/-- The handler is called at the same points. -/
theorem stepOnce_eq_none (h : s.step env l = none) : s.stepOnce env l = none := by
  cases l with
  | execDetails e =>
    unfold step at h
    unfold stepOnce
    dsimp only at h ⊢
    split_ifs at h ⊢
    rfl
  | orders | placed | commissionReport => exact h

/-- **Each execution is applied once exactly in the runs in which none is
delivered again.** -/
theorem appliesOnce_iff_firstDelivery (env : RunnerEnv) (start : ExecutionRunner.Startup)
    (ls : List Label) :
    AppliesOnce env (initial start) ls
      ↔ (machine env).Along (fun s l _ => s.FirstDelivery l) (initial start) ls := by
  have hagree := @Machine.runs_agree_iff _ _ (machine env) (onceMachine env) _
    (fun s => s.runner.pm) FirstDelivery (fun _ _ h => stepOnce_eq_none h)
    (fun _ _ h => stepOnce_eq h) (fun _ _ _ h hl => stepOnce_ne h hl) (initial start) ls
  exact hagree

/-- An order to buy is placed, and executed once. -/
def sampleExecution : List Label :=
  [.orders (.submit (sampleIntent none true .buy) sampleDecision false none none),
    .placed 0 7 100, .execDetails ⟨"0001", 7, 2, 1⟩]

/-- Executions are not always applied once: the gateway reports the
execution again, and the position is twice as large. -/
theorem not_appliesOnce : ¬ ∀ env start ls, AppliesOnce env (initial start) ls := by
  intro h
  have hrun := h sampleEnv sampleStartup
    (sampleExecution ++ [.execDetails ⟨"0001", 7, 2, 1⟩]) _ List.prefix_rfl
  have hquantities := congrArg
    (Option.map fun pm : PositionManager => pm.positions.map (·.quantity)) hrun
  exact absurd hquantities (by decide +kernel)

end ExecutionSession
