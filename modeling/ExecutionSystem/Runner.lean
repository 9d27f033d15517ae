import ExecutionSystem.ExitManager
import ExecutionSystem.Reconciliation
import ExecutionSystem.RiskEngine

/-!
# The runner

`ExecutionRunner` of `src/app/runner.py` as a machine: its main loop, with
the order manager and the position manager inside. The runner is one more
coroutine of the event loop, so its state has the place in the source
where it stands (`RunnerPc`), and a step of it is one block between two
such places.

Where the runner awaits a coroutine of the order manager it calls it, so
the coroutine starts at once and, when it returns, the runner goes on at
once (`RunnerPc.awaiting`). Where it awaits the broker or a strategy
provider, the answer is a label. Between two awaits it is `busy`, and
nothing else happens.

What the code takes from elsewhere is a parameter (`RunnerEnv`): the time
zone arithmetic of the entry window and of absolute exit times, the risk
engine, the printing of a strike, and the configured intervals.
-/

/-! ## Configuration and inputs -/

/-- One change of a dashboard update: to a parameter the runner reads, to
one that only strategy providers read, or one that is refused. -/
inductive ParamChange where
  | enabled (value : Bool)
  | allowReentry (value : Bool)
  | stopLossPct (value : ℚ)
  | takeProfitPct (value : ℚ)
  | timeExit (value : String)
  | entryTime (value : String)
  | ofProvider
  | refused

/-- A whitelisted change, applied to the live configuration. -/
def StrategyConfig.changed (cfg : StrategyConfig) : ParamChange → StrategyConfig
  | .enabled value => { cfg with enabled := value }
  | .allowReentry value => { cfg with allowReentry := value }
  | .stopLossPct value => { cfg with stopLossPct := some value }
  | .takeProfitPct value => { cfg with takeProfitPct := some value }
  | .timeExit value => { cfg with timeExit := some value }
  | .entryTime value => { cfg with entryTime := some value }
  | .ofProvider | .refused => cfg

/-- `_apply_strategy_update`: the changes up to the first one that is
refused. -/
def StrategyConfig.updated (cfg : StrategyConfig) (changes : List ParamChange) :
    StrategyConfig :=
  (changes.takeWhile fun | .refused => false | _ => true).foldl .changed cfg

/-- A pending command of the control plane. -/
inductive Command where
  | exitPosition (p : PositionId)
  | cancelOrder (o : OrderId)
  | pauseStrategy (strategyId : StrategyId) (paused : Bool)
  | flattenAll
  | fireStraddle (strategyId : Option StrategyId)
  | updateStrategy (strategyId : StrategyId) (changes : List ParamChange)
  | unlockSystem
  | lockSystem
  /-- `restart_runner` and `shutdown_runner`: `stop()` in a task of its
  own. -/
  | stopRunner
  /-- An unknown type, or a payload that cannot be read. -/
  | unknown

/-- **What the runner takes from elsewhere.** -/
structure RunnerEnv where
  tickInterval : Time
  reconciliationInterval : Time
  /-- The exit limits of the risk configuration. -/
  exitMaxSpreadPct : Option ℚ
  exitMaxAgeSeconds : Option Time
  /-- `_default_algo`. -/
  defaultAlgo : Option String
  /-- The New York date of an instant. -/
  nyDate : Time → String
  /-- `_entry_window_closed`. -/
  entryWindowClosed : StrategyConfig → Time → Bool
  /-- The instant of an absolute exit time on the day of a reference. -/
  absoluteExit : String → Time → Option Time
  /-- `risk_engine.evaluate`. -/
  evaluate : StrategySignal → SystemState → RiskDecision
  floatRepr : Price → String

/-- A signal with its decision and the quote it was made with. -/
structure Decided where
  signal : StrategySignal
  decision : RiskDecision
  quote : Option QuoteSnapshot

/-! ## Where the runner stands -/

/-- Who called `_run_reconciliation`. -/
inductive ReconcileSite where
  /-- The main loop, between two ticks. -/
  | periodic
  /-- `_try_auto_resume`. -/
  | autoResume
  /-- The operator's `unlock_system`, with the commands that follow. -/
  | unlockCommand (rest : List Command)

/-- The key by which the legs of one submission are correlated. -/
inductive BatchKey where
  | batch (b : BatchId)
  /-- An untagged order counts by its day. -/
  | day (n : ℤ)
  deriving DecidableEq

/-- The entry orders of one strategy and one batch. -/
structure LegGroup where
  strategyId : StrategyId
  key : BatchKey
  orders : List OrderId

/-- **The place in the source where the runner stands**, with the local
variables it still needs. -/
inductive RunnerPc where
  /-- `_main_loop`, at the head of its loop. -/
  | loopTop
  /-- … waiting while the runner is paused. -/
  | pauseWait
  /-- `_try_auto_resume`, awaiting `is_connected`. -/
  | resumeConnected
  /-- `_run_reconciliation`, awaiting `get_positions`. -/
  | reconcilePositions (site : ReconcileSite) (orders : List OrderId)
      (internal : List Position)
  /-- … awaiting `get_open_orders`. -/
  | reconcileOrders (site : ReconcileSite) (orders : List OrderId)
      (index : OrderIndex) (found : ReconciliationReport)
  /-- `_process_tick`, awaiting `is_connected`. -/
  | tickConnected
  /-- `_process_commands`, about to fetch the pending commands. -/
  | fetchCommands
  | commands (rest : List Command)
  /-- `_manage_active_orders`. -/
  | manage
  | manageSwept
  | rejectionCancels (rest : List OrderId)
  | timeouts (rest : List OrderId) (groups : List LegGroup)
  | legs (groups : List LegGroup) (openPositions : List Position)
  /-- … cancelling the peers of the failed leg. -/
  | legCancels (failed : OrderId) (peers : List OrderId) (group : LegGroup)
      (groups : List LegGroup) (openPositions : List Position)
  /-- `_process_tick`, about to read the traded-today set. -/
  | entryStart
  | entries (rest : List StrategyConfig)
  /-- … awaiting the strategy provider. -/
  | pollAwait (cfg : StrategyConfig) (manual : Bool) (rest : List StrategyConfig)
  /-- … awaiting the quote for a signal. -/
  | quoteAwait (cfg : StrategyConfig) (rest : List StrategyConfig)
      (decided : List Decided) (signal : StrategySignal)
      (pending : List StrategySignal) (state : SystemState)
  /-- … submitting the batch. -/
  | submissions (cfg : StrategyConfig) (rest : List StrategyConfig)
      (batch : BatchId) (decided : List Decided)
  /-- `_check_exits`. -/
  | exits
  /-- … awaiting the quotes; the eligible positions are named by their
  places. -/
  | exitQuotes (eligible : List ℕ)
  /-- … awaiting the strategies' own exits. -/
  | exitCollect (rest : List StrategyId) (eligible : List ℕ)
      (quotes : QuoteMap) (bars : BarMap) (flagged : List PositionId)
  | exitSignals (rest : List ExitSignal)
  /-- … cancelling opposite orders before an exit. -/
  | exitCancels (orders : List OrderId) (signal : ExitSignal)
      (rest : List ExitSignal)
  /-- `_process_tick`, writing the snapshot. -/
  | snapshot
  /-- `_main_loop`, after the tick. -/
  | tickDone
  | sleeping (wakeAt : Time)
  /-- Awaiting a coroutine of the order manager, to go on at `next`. -/
  | awaiting (t : TaskId) (next : RunnerPc)
  /-- The loop has ended. -/
  | exited
  /-- An exception has ended it. -/
  | crashed

/-- What locked the system. -/
inductive LockCause where
  /-- Locked already when the loop started. -/
  | restored
  | operator
  | rejection
  | mismatch
  | disconnect
  deriving DecidableEq

/-- **The state of the runner.** -/
structure ExecutionRunner where
  om : OrderManager
  pm : PositionManager
  strategyConfigs : List StrategyConfig
  /-- `override_manager.state.system_locked`. -/
  systemLocked : Bool
  pausedStrategies : List StrategyId
  lockedByDisconnect : Bool := false
  lastReconciliation : Option Time
  /-- The stop event is set. -/
  stopRequested : Bool := false
  /-- The pause event is cleared. -/
  paused : Bool := false
  /-- The instant of the tick. -/
  now : Time := 0
  manualExits : List PositionId := []
  asymmetricExits : List PositionId := []
  flattenAllActive : Bool := false
  exitAttempts : PositionId → Option (ℕ × Time) := fun _ => none
  persistedTradedToday : List StrategyId := []
  tradedTodayNyDate : Option String := none
  entryRetryAfter : StrategyId → Option Time := fun _ => none
  manualFireRequests : List StrategyId := []
  /-- The next `uuid4().hex` for a batch. -/
  nextBatch : BatchId := 0
  pc : RunnerPc := .loopTop
  /-- The causes raised since the system was last unlocked; the program
  keeps no such record. -/
  lockCauses : List LockCause := []

/-- What a call the runner awaits, or a store it reads, answers. -/
inductive RunnerReply where
  | connected (value : Bool)
  | positions (broker : List Holding)
  | openOrders (broker : List WorkingOrder)
  | commands (pending : List Command)
  | tradedToday (strategies : List StrategyId)
  | signals (signals : List StrategySignal)
  | quotes (quotes : QuoteMap)
  | marketData (quotes : QuoteMap) (bars : BarMap)
  | flagged (positions : List PositionId)
  | done
  | raised

namespace ExecutionRunner

/-! ## Moving on, locking, calling the order manager -/

/-- The runner stands at `pc`. -/
def at' (s : ExecutionRunner) (pc : RunnerPc) : ExecutionRunner := { s with pc := pc }

/-- The system lock is set. -/
def lock (s : ExecutionRunner) (cause : LockCause) : ExecutionRunner :=
  { s with systemLocked := true, lockCauses := s.lockCauses ++ [cause] }

/-- `unlock_system`, and the provenance flag with it. -/
def unlock (s : ExecutionRunner) : ExecutionRunner :=
  { s with systemLocked := false, lockedByDisconnect := false, lockCauses := [] }

/-- Await `cancel_order`. -/
def awaitCancel (s : ExecutionRunner) (o : OrderId) (hard : Bool) (next : RunnerPc) :
    ExecutionRunner :=
  { s with
    om := s.om.call (.cancelStart o hard .outside)
    pc := .awaiting s.om.tasks.length next }

/-- Await `resolve_stuck_cancels`, with its default age. -/
def awaitSweep (s : ExecutionRunner) (next : RunnerPc) : ExecutionRunner :=
  { s with
    om := s.om.call (.sweepLoop s.om.clock 20 (List.range s.om.orders.length))
    pc := .awaiting s.om.tasks.length next }

/-- Await `submit_intent`; where it raises, the exception is logged. -/
def awaitSubmit (env : RunnerEnv) (s : ExecutionRunner) (intent : OrderIntent)
    (decision : RiskDecision) (reprice : RepriceConfig) (next : RunnerPc) :
    ExecutionRunner :=
  match s.om.submitIntent intent decision false (some reprice) env.defaultAlgo with
  | .ok om => { s with om := om, pc := .awaiting s.om.tasks.length next }
  | .error _ => s.at' next

/-- The orders that are active. -/
def activeOrders (s : ExecutionRunner) : List OrderId :=
  (List.range s.om.orders.length).filter fun o => s.om.orders[o]?.any (·.status.active)

/-- Whether an order is one that the runner's sweeps cancel. -/
def cancellable (s : ExecutionRunner) (o : OrderId) : Bool :=
  s.om.orders[o]?.any (·.status.cancellable)

/-! ## Reconciliation -/

/-- `_run_reconciliation` up to its first await. -/
def startReconcile (s : ExecutionRunner) (site : ReconcileSite) : ExecutionRunner :=
  s.at' (.reconcilePositions site s.activeOrders s.pm.getOpenPositions)

/-- The tick begins: its instant is read once. -/
def beginTick (s : ExecutionRunner) : ExecutionRunner :=
  { s with now := s.om.clock, pc := .tickConnected }

/-- The sleep between ticks. -/
def sleep (env : RunnerEnv) (s : ExecutionRunner) : ExecutionRunner :=
  s.at' (.sleeping (s.om.clock + env.tickInterval))

/-- **A broker query raised during a reconciliation**: the exception is
caught around the auto-resume and around a command, and nowhere in the
main loop. -/
def reconcileRaised (s : ExecutionRunner) : ReconcileSite → ExecutionRunner
  | .periodic => s.at' .crashed
  | .autoResume => s.beginTick
  | .unlockCommand rest => s.at' (.commands rest)

/-- **The reconciliation has its report.** Anything but a clean report
locks the system. A clean one unlocks it where an operator or the
auto-resume asked; an auto-resume that fails gives up the provenance. -/
def reconciled (env : RunnerEnv) (s : ExecutionRunner) (report : ReconciliationReport) :
    ReconcileSite → ExecutionRunner
  | .periodic =>
    let s := { s with lastReconciliation := some s.om.clock }
    if report.isClean then s.sleep env else (s.lock .mismatch).sleep env
  | .autoResume =>
    let s := { s with lastReconciliation := some s.om.clock }
    if report.isClean then s.unlock.beginTick
    else { s.lock .mismatch with lockedByDisconnect := false }.beginTick
  | .unlockCommand rest =>
    let s := { s with lastReconciliation := some s.om.clock }
    if report.isClean then s.unlock.at' (.commands rest)
    else (s.lock .mismatch).at' (.commands rest)

/-! ## The main loop -/

/-- What follows the pause: stop, or attempt an auto-resume where the
lock has disconnect provenance, or tick. -/
def afterPause (s : ExecutionRunner) : ExecutionRunner :=
  if s.stopRequested then s.at' .exited
  else if s.systemLocked && s.lockedByDisconnect then s.at' .resumeConnected
  else s.beginTick

/-- What follows the tick: the periodic reconciliation when it is due. -/
def afterTick (env : RunnerEnv) (s : ExecutionRunner) : ExecutionRunner :=
  if s.lastReconciliation.any (env.reconciliationInterval ≤ s.now - ·) then
    s.startReconcile .periodic
  else s.sleep env

/-- **The connectivity check of the tick**: a disconnected broker locks
the system and marks the lock as its own, whoever holds it. -/
def tickConnected (s : ExecutionRunner) : RunnerReply → Option ExecutionRunner
  | .connected true => some (s.at' .fetchCommands)
  | .connected false =>
    some ({ s.lock .disconnect with lockedByDisconnect := true }.at' .tickDone)
  | .raised => some (s.at' .tickDone)
  | _ => none

/-! ## Commands -/

/-- The configuration of a strategy. -/
def config (s : ExecutionRunner) (sid : StrategyId) : Option StrategyConfig :=
  s.strategyConfigs.find? (·.strategyId = sid)

/-- `fire_straddle`: the request is queued unless it is refused. -/
def fireStraddle (env : RunnerEnv) (s : ExecutionRunner) (sid : StrategyId) :
    ExecutionRunner :=
  match s.config sid with
  | none => s
  | some cfg =>
    if cfg.signalSource = "xsp_short_straddle" ∧ cfg.enabled ∧ sid ∉ s.pausedStrategies
        ∧ !env.entryWindowClosed cfg s.now then
      { s with manualFireRequests := s.manualFireRequests.insert sid }
    else s

/-- **One pending command**, and the place where the code goes on with
those that follow. -/
def command (env : RunnerEnv) (s : ExecutionRunner) (rest : List Command) :
    Command → ExecutionRunner
  | .exitPosition p =>
    if s.pm.getOpenPositions.any (·.positionId = p) then
      { s with manualExits := s.manualExits.insert p, pc := .commands rest }
    else s.at' (.commands rest)
  | .cancelOrder o => s.awaitCancel o true (.commands rest)
  | .pauseStrategy sid true =>
    { s with pausedStrategies := s.pausedStrategies.insert sid, pc := .commands rest }
  | .pauseStrategy sid false =>
    { s with pausedStrategies := s.pausedStrategies.erase sid, pc := .commands rest }
  | .flattenAll => { s with flattenAllActive := true, pc := .commands rest }
  | .fireStraddle sid =>
    (s.fireStraddle env (sid.getD "xsp_straddle_manual")).at' (.commands rest)
  | .updateStrategy sid changes =>
    { s with
      strategyConfigs := s.strategyConfigs.map fun cfg =>
        if cfg.strategyId = sid then cfg.updated changes else cfg
      pc := .commands rest }
  | .unlockSystem => s.startReconcile (.unlockCommand rest)
  | .lockSystem => (s.lock .operator).at' (.commands rest)
  -- the task that sets the stop event is the label `stop`
  | .stopRunner => s.at' (.commands rest)
  | .unknown => s.at' (.commands rest)

/-! ## Active orders -/

/-- `metadata.get("entry_batch")`, or the day. -/
def batchKey (x : OrderState) : BatchKey :=
  match x.entryBatch with
  | some b => .batch b
  | none => .day (x.createdAt / 86400).floor

/-- The entry orders by strategy, in insertion order. -/
def entryByStrategy (s : ExecutionRunner) : List (StrategyId × List OrderId) :=
  let entries := (List.range s.om.orders.length).filter
    fun o => s.om.orders[o]?.any (·.isEntry)
  (entries.filterMap fun o => s.om.orders[o]?.map (·.strategyId)).eraseDups.map fun sid =>
    (sid, entries.filter fun o => s.om.orders[o]?.any (·.strategyId = sid))

/-- The entry orders by strategy and then by batch. -/
def legGroups (s : ExecutionRunner) : List LegGroup :=
  let key := fun o => s.om.orders[o]?.map batchKey
  s.entryByStrategy.flatMap fun (sid, orders) =>
    (orders.filterMap key).eraseDups.map fun k =>
      ⟨sid, k, orders.filter fun o => key o = some k⟩

/-- Whether an entry order of a configured strategy has timed out. -/
def timedOut (s : ExecutionRunner) (o : OrderId) : Bool :=
  s.om.orders[o]?.any fun x => x.status.cancellable
    && (s.config x.strategyId).any (·.orderTimeoutSeconds ≤ s.now - x.createdAt)

/-- The orders of a group that were never superseded. -/
def chainTerminals (s : ExecutionRunner) (group : LegGroup) : List OrderId :=
  group.orders.filter fun o => s.om.orders[o]?.any (·.supersededBy = none)

/-- The first leg that failed: dead with no fill. -/
def failedLeg (s : ExecutionRunner) (group : LegGroup) : Option OrderId :=
  (s.chainTerminals group).find? fun o => s.om.orders[o]?.any fun x =>
    (x.status = .cancelled || x.status = .rejected || x.status = .error)
      && x.filledQuantity = 0

/-- The chain of an order: the order and what it was superseded by. A link
always leads to a later order, so as many steps as there are orders are
enough. -/
def ownChain (orders : List OrderState) : ℕ → OrderId → List OrderId
  | 0, o => [o]
  | fuel + 1, o =>
    match orders[o]?.bind (·.supersededBy) with
    | none => [o]
    | some n => o :: ownChain orders fuel n

/-- Whether a position is the filled peer of a failed leg: an entry of the
same batch but of another chain, or, with an unknown entry order, another
contract filled within three minutes. -/
def asymmetric (s : ExecutionRunner) (group : LegGroup) (failed : OrderId)
    (pos : Position) : Bool :=
  pos.strategyId = group.strategyId &&
    match s.om.orders[pos.entryOrderId]? with
    | some x => batchKey x = group.key
        && failed ∉ ownChain s.om.orders s.om.orders.length pos.entryOrderId
    | none => s.om.orders[failed]?.any fun x =>
        |pos.enteredAt - x.createdAt| ≤ 180
          && x.contract.identity ≠ pos.contract.identity

/-- `_manage_active_orders` after the stuck-cancel sweep: **a rejection
locks the system** and cancels everything; otherwise the timeouts are
next. -/
def manageSwept (s : ExecutionRunner) : ExecutionRunner :=
  if s.om.brokerRejectedOrderIds.isEmpty then
    s.at' (.timeouts (s.entryByStrategy.flatMap (·.2)) s.legGroups)
  else
    -- `lock_system` does nothing to a lock that is held, but it is a cause
    (s.lock .rejection).at' (.rejectionCancels (List.range s.om.orders.length))

/-- The cancels after a rejection. -/
def rejectionCancel (s : ExecutionRunner) : List OrderId → ExecutionRunner
  | [] => { s with om := { s.om with brokerRejectedOrderIds := [] }, pc := .entryStart }
  | o :: rest =>
    if s.cancellable o then s.awaitCancel o true (.rejectionCancels rest)
    else s.at' (.rejectionCancels rest)

/-- The timeouts of the entry orders. -/
def timeout (s : ExecutionRunner) (groups : List LegGroup) :
    List OrderId → ExecutionRunner
  | [] => s.at' (.legs groups s.pm.getOpenPositions)
  | o :: rest =>
    if s.timedOut o then s.awaitCancel o true (.timeouts rest groups)
    else s.at' (.timeouts rest groups)

/-- The coordination of the legs of one batch. -/
def leg (s : ExecutionRunner) (openPositions : List Position) :
    List LegGroup → ExecutionRunner
  | [] => s.at' .entryStart
  | group :: groups =>
    match s.failedLeg group with
    | none => s.at' (.legs groups openPositions)
    | some failed => s.at' (.legCancels failed
        ((s.chainTerminals group).filter (· ≠ failed)) group groups openPositions)

/-- The cancels of the peers of a failed leg, and after them the flags of
the positions that have become asymmetric. -/
def legCancel (s : ExecutionRunner) (failed : OrderId) (group : LegGroup)
    (groups : List LegGroup) (openPositions : List Position) :
    List OrderId → ExecutionRunner
  | [] =>
    { s with
      asymmetricExits := s.asymmetricExits.union
        ((openPositions.filter (s.asymmetric group failed)).map (·.positionId))
      pc := .legs groups openPositions }
  | o :: peers =>
    let next := .legCancels failed peers group groups openPositions
    if s.cancellable o then s.awaitCancel o true next else s.at' next

/-! ## Entries -/

/-- `_refresh_traded_today`: the set is reloaded when the date changes. -/
def refreshTradedToday (env : RunnerEnv) (s : ExecutionRunner)
    (stored : List StrategyId) : ExecutionRunner :=
  if s.tradedTodayNyDate = some (env.nyDate s.now) then s
  else
    { s with
      tradedTodayNyDate := some (env.nyDate s.now)
      persistedTradedToday := stored }

/-- The entry phase begins; **it is skipped while the system is locked**. -/
def startEntries (env : RunnerEnv) (s : ExecutionRunner) (stored : List StrategyId) :
    ExecutionRunner :=
  let s := s.refreshTradedToday env stored
  if s.systemLocked then s.at' .exits else s.at' (.entries s.strategyConfigs)

/-- Whether a position of the strategy is open. -/
def occupied (s : ExecutionRunner) (sid : StrategyId) : Bool :=
  s.pm.getOpenPositions.any (·.strategyId = sid)

/-- **The wait-until-flat check**: no open position and no active order of
the strategy. -/
def flat (s : ExecutionRunner) (sid : StrategyId) : Bool :=
  !s.occupied sid && !s.om.orders.any (fun x => x.strategyId = sid && x.status.active)

/-- Whether the schedule holds a strategy back: traded today, or backing
off after a rejected batch. A manual fire passes. -/
def heldBack (s : ExecutionRunner) (cfg : StrategyConfig) (manual : Bool) : Bool :=
  !manual
    && (!cfg.allowReentry && s.persistedTradedToday.contains cfg.strategyId
      || (s.entryRetryAfter cfg.strategyId).any (s.now < ·))

/-- An operator asked for the strategy to be fired now. -/
def manualFire (s : ExecutionRunner) (cfg : StrategyConfig) : Bool :=
  s.manualFireRequests.contains cfg.strategyId

/-- The gates of a strategy that is enabled and not paused. -/
def admits (env : RunnerEnv) (s : ExecutionRunner) (cfg : StrategyConfig) : Bool :=
  !env.entryWindowClosed cfg s.now && !s.heldBack cfg (s.manualFire cfg)
    && s.flat cfg.strategyId

/-- **The gates of one strategy**: past them it is polled. One click is one
attempt, so a manual request is consumed before most of them. -/
def entry (env : RunnerEnv) (s : ExecutionRunner) :
    List StrategyConfig → ExecutionRunner
  | [] => s.at' .exits
  | cfg :: rest =>
    if !cfg.enabled || s.pausedStrategies.contains cfg.strategyId then
      s.at' (.entries rest)
    else
      { s with
        manualFireRequests := s.manualFireRequests.erase cfg.strategyId
        pc := if s.admits env cfg then .pollAwait cfg (s.manualFire cfg) rest
          else .entries rest }

/-- The state of the system as a signal is judged by it. -/
def systemState (s : ExecutionRunner) : SystemState where
  openPositions := s.pm.getOpenPositions.map fun pos =>
    ⟨pos.strategyId, pos.contract.symbol, pos.status, pos.quantity⟩
  openOrderCount := s.activeOrders.length
  dailyPnl := ((s.pm.positions.filter (·.status = .closed)).map (·.realizedPnl)).sum
  quote := none
  currentTime := s.now

/-- The provider answered; a failing one is skipped. -/
def polled (s : ExecutionRunner) (cfg : StrategyConfig) (rest : List StrategyConfig) :
    RunnerReply → Option ExecutionRunner
  | .signals (signal :: pending) =>
    some (s.at' (.quoteAwait cfg rest [] signal pending s.systemState))
  | .signals [] => some (s.at' (.entries rest))
  | .raised => some (s.at' (.entries rest))
  | _ => none

/-- The whole batch is decided: it is submitted, under one fresh tag, if
every leg is approved, and not at all otherwise. -/
def decide (s : ExecutionRunner) (cfg : StrategyConfig) (rest : List StrategyConfig)
    (decided : List Decided) : ExecutionRunner :=
  if decided.all (·.decision.approved) then
    { s with
      nextBatch := s.nextBatch + 1
      pc := .submissions cfg rest s.nextBatch decided }
  else
    { s with
      entryRetryAfter := fun sid =>
        if sid = cfg.strategyId then some (s.now + 30) else s.entryRetryAfter sid
      pc := .entries rest }

/-- The quote for a signal is there, and the risk engine judges it. -/
def quoted (env : RunnerEnv) (s : ExecutionRunner) (cfg : StrategyConfig)
    (rest : List StrategyConfig) (decided : List Decided) (signal : StrategySignal)
    (pending : List StrategySignal) (state : SystemState)
    (quote : Option QuoteSnapshot) : ExecutionRunner :=
  let decision := env.evaluate signal { state with quote := quote }
  let decided := decided ++ [⟨signal, decision, quote⟩]
  match pending with
  | [] => s.decide cfg rest decided
  | next :: pending => s.at' (.quoteAwait cfg rest decided next pending s.systemState)

/-- The limit of an entry: the signal's, otherwise the last trade, the
middle, the ask or the bid of the quote. -/
def entryLimit (signal : StrategySignal) (quote : Option QuoteSnapshot) : Option Price :=
  match signal.limitPrice, quote with
  | some price, _ => some price
  | none, none => none
  | none, some quote =>
    ((quote.last.filter (0 < ·)).or quote.mid).or (quote.ask.or quote.bid)

/-- The side of a signal. -/
def side : SignalDirection → OrderSide
  | .long => .buy
  | .short => .sell

/-- The intent of an entry. -/
def entryIntent (d : Decided) (batch : BatchId) (limit : Price)
    (hquantity : 0 < d.decision.allowedQuantity) (hlimit : 0 < limit) : OrderIntent where
  riskDecisionId := d.decision.riskDecisionId
  positionId := none
  isEntry := true
  strategyId := d.signal.strategyId
  contract := d.signal.contract
  side := side d.signal.direction
  quantity := d.decision.allowedQuantity
  limitPrice := limit
  entryBatch := some batch
  quantity_pos := hquantity
  limit_pos := hlimit

/-- The repricing of an entry. -/
def entryReprice (env : RunnerEnv) (cfg : StrategyConfig) : RepriceConfig where
  enabled := true
  maxAttempts := 6
  repriceIntervalSeconds := 2
  timeoutSeconds := cfg.orderTimeoutSeconds
  crossTouchAfterAttempts := some 4
  crossTouchOffset := 5 / 100
  useInPlaceModify := env.defaultAlgo.isNone

/-- **One leg of a batch is submitted.** A leg without a price is skipped;
an intent that its validator refuses ends the tick. -/
def submission (env : RunnerEnv) (s : ExecutionRunner) (cfg : StrategyConfig)
    (rest : List StrategyConfig) (batch : BatchId) : List Decided → ExecutionRunner
  | [] => s.at' (.entries rest)
  | d :: decided =>
    let next := .submissions cfg rest batch decided
    match entryLimit d.signal d.quote with
    | none => s.at' next
    | some limit =>
      if hlimit : 0 < limit then
        if hquantity : 0 < d.decision.allowedQuantity then
          s.awaitSubmit env (entryIntent d batch limit hquantity hlimit) d.decision
            (entryReprice env cfg) next
        else s.at' .tickDone
      else s.at' next

/-! ## Exits -/

/-- The places of the open positions. -/
def openPlaces (s : ExecutionRunner) : List ℕ :=
  (List.range s.pm.positions.length).filter
    fun i => s.pm.positions[i]?.any (·.status.isOpen)

/-- Whether a position has an active exit order already. -/
def exitPending (s : ExecutionRunner) (p : PositionId) : Bool :=
  s.om.orders.any fun x => !x.isEntry && x.positionId = some p && x.status.active

/-- `_check_exits` up to its first await. -/
def startExits (s : ExecutionRunner) : ExecutionRunner :=
  let ids := s.pm.getOpenPositions.map (·.positionId)
  if ids.isEmpty then
    { s with
      asymmetricExits := []
      manualExits := []
      flattenAllActive := false
      pc := .snapshot }
  else
    let eligible := s.openPlaces.filter
      fun i => s.pm.positions[i]?.any fun pos => !s.exitPending pos.positionId
    { s with
      asymmetricExits := s.asymmetricExits.filter (ids.contains ·)
      manualExits := s.manualExits.filter (ids.contains ·)
      exitAttempts := fun p => if ids.contains p then s.exitAttempts p else none
      pc := if eligible.isEmpty then .snapshot else .exitQuotes eligible }

/-- The positions at some places. -/
def positionsAt (s : ExecutionRunner) (places : List ℕ) : List Position :=
  places.filterMap (s.pm.positions[·]?)

/-- The market data is there: the positions are marked, and the enabled
strategies that have an eligible position are asked for exits. -/
def exitsQuoted (env : RunnerEnv) (s : ExecutionRunner) (eligible : List ℕ)
    (quotes : QuoteMap) (bars : BarMap) : ExecutionRunner :=
  let s := { s with pm := s.pm.updatePositionPrices env.floatRepr quotes s.om.clock }
  let strategies := (s.positionsAt eligible).map (·.strategyId)
  s.at' (.exitCollect ((s.strategyConfigs.filter fun cfg =>
      cfg.enabled && strategies.contains cfg.strategyId).map (·.strategyId))
    eligible quotes bars [])

/-- What `check_exits` is told. -/
def exitPolicy (env : RunnerEnv) (s : ExecutionRunner) (flagged : List PositionId) :
    ExitPolicy where
  currentTime := s.now
  forceFlattenAll := s.flattenAllActive
  strategyExits := s.asymmetricExits ++ s.manualExits ++ flagged
  maxSpreadPct := env.exitMaxSpreadPct
  maxAgeSeconds := env.exitMaxAgeSeconds

/-- All strategies have answered, and the exits are evaluated; an intent
that its validator refuses ends the exit check. -/
def exitsCollected (env : RunnerEnv) (s : ExecutionRunner) (eligible : List ℕ)
    (quotes : QuoteMap) (bars : BarMap) (flagged : List PositionId) : ExecutionRunner :=
  -- a decision id is only compared with that of the decision made from it
  match checkExits env.floatRepr id (s.positionsAt eligible) quotes
      (s.exitPolicy env flagged) bars with
  | .ok signals => s.at' (.exitSignals signals)
  | .error _ => s.at' .snapshot

/-- One strategy has answered, or failed to. -/
def exitsFlagged (s : ExecutionRunner) (rest : List StrategyId) (eligible : List ℕ)
    (quotes : QuoteMap) (bars : BarMap) (flagged : List PositionId) :
    RunnerReply → Option ExecutionRunner
  | .flagged more => some (s.at' (.exitCollect rest eligible quotes bars (flagged ++ more)))
  | .raised => some (s.at' (.exitCollect rest eligible quotes bars flagged))
  | _ => none

/-- Whether the retry throttle holds an exit back. -/
def throttled (s : ExecutionRunner) (p : PositionId) : Bool :=
  (s.exitAttempts p).any fun (attempts, lastAt) =>
    (5 ≤ attempts && s.now - lastAt < 60) || (1 ≤ attempts && s.now - lastAt < 10)

/-- One exit signal: throttled, or counted as an attempt. -/
def exitSignal (s : ExecutionRunner) : List ExitSignal → ExecutionRunner
  | [] => s.at' .snapshot
  | signal :: rest =>
    let p := signal.1.positionId
    if s.throttled p then s.at' (.exitSignals rest)
    else
      let attempts := ((s.exitAttempts p).map (·.1)).getD 0
      { s with
        exitAttempts := fun q => if q = p then some (attempts + 1, s.now) else s.exitAttempts q
        pc := .exitCancels (List.range s.om.orders.length) signal rest }

/-- Whether an order works against an exit on the same contract. -/
def opposes (s : ExecutionRunner) (signal : ExitSignal) (o : OrderId) : Bool :=
  s.om.orders[o]?.any fun x =>
    (x.status = .new || x.status = .submitted || x.status = .partiallyFilled)
      && x.contract = signal.1.contract && x.side ≠ signal.2.1.val.side

/-- The decision that lets an exit through. -/
def exitDecision (intent : OrderIntent) : RiskDecision where
  riskDecisionId := intent.riskDecisionId
  status := .approved
  allowedQuantity := intent.quantity

/-- The repricing of an exit. -/
def exitReprice (env : RunnerEnv) : RepriceConfig where
  enabled := true
  maxAttempts := 20
  repriceIntervalSeconds := 1
  timeoutSeconds := 120
  crossTouchAfterAttempts := some 3
  crossTouchOffset := 5 / 100
  useInPlaceModify := env.defaultAlgo.isNone

/-- The opposite orders on the contract are cancelled, and then the exit is
submitted. -/
def exitCancel (env : RunnerEnv) (s : ExecutionRunner) (signal : ExitSignal)
    (rest : List ExitSignal) : List OrderId → ExecutionRunner
  | [] => s.awaitSubmit env signal.2.1 (exitDecision signal.2.1) (exitReprice env)
      (.exitSignals rest)
  | o :: orders =>
    let next := .exitCancels orders signal rest
    if s.opposes signal o then s.awaitCancel o true next else s.at' next

/-! ## Fills -/

/-- A percentage may be given as a fraction. -/
def fraction (pct : ℚ) : ℚ := if 1 ≤ pct then pct / 100 else pct

/-- The entry price moved against the position, or for it, by a
percentage. -/
def movedAgainst (pos : Position) (pct : ℚ) : Price :=
  match pos.side with
  | .buy => pos.averageEntryPrice * (1 - fraction pct)
  | .sell => pos.averageEntryPrice * (1 + fraction pct)

def movedFor (pos : Position) (pct : ℚ) : Price :=
  match pos.side with
  | .buy => pos.averageEntryPrice * (1 + fraction pct)
  | .sell => pos.averageEntryPrice * (1 - fraction pct)

/-- When the position is to be closed: after a hold, or at a time of the
day. -/
def timeExitFor (env : RunnerEnv) (cfg : StrategyConfig) (reference : Time) :
    Option Time :=
  match cfg.maxHoldSeconds.filter (· ≠ 0) with
  | some hold => some (reference + hold)
  | none => cfg.timeExit.bind (env.absoluteExit · reference)

/-- `_apply_exit_rules`. -/
def applyExitRules (env : RunnerEnv) (s : ExecutionRunner) (pos : Position)
    (reference : Time) : PositionManager :=
  match s.config pos.strategyId with
  | none => s.pm
  | some cfg =>
    let stop := cfg.stopLossPct.map (movedAgainst pos)
    let target := cfg.takeProfitPct.map (movedFor pos)
    let timeExit := timeExitFor env cfg reference
    if pos.status.isOpen && (stop.isSome || target.isSome || timeExit.isSome) then
      s.pm.setExitRules pos.positionId stop target timeExit cfg.useMidForExits s.om.clock
    else s.pm

/-- A fill is attributed to the order manager's own order. -/
def attributed (s : ExecutionRunner) (fill : FillEvent) : FillEvent :=
  match fill.brokerOrderId.bind s.om.findOrderByBrokerId with
  | some o => { fill with orderId := o }
  | none => fill

/-- **The fill callback** that `register_fill_handler` installs. -/
def filled (env : RunnerEnv) (s : ExecutionRunner) (fill : FillEvent) :
    ExecutionRunner :=
  let fill := s.attributed fill
  let handled := s.pm.handleFill fill
  let s :=
    { s with
      pm := handled.1
      persistedTradedToday := s.persistedTradedToday.insert handled.2.strategyId }
  { s with pm := s.applyExitRules env handled.2 fill.timestamp }

/-! ## The machine -/

/-- The runner's next block, where it needs no answer. -/
def block (env : RunnerEnv) (s : ExecutionRunner) : RunnerPc → Option ExecutionRunner
  | .loopTop => some (s.at' (if s.stopRequested then .exited else .pauseWait))
  | .pauseWait => if s.paused then none else some s.afterPause
  | .commands [] => some (s.at' .manage)
  | .commands (c :: rest) => some (s.command env rest c)
  | .manage => some (s.awaitSweep .manageSwept)
  | .manageSwept => some s.manageSwept
  | .rejectionCancels rest => some (s.rejectionCancel rest)
  | .timeouts rest groups => some (s.timeout groups rest)
  | .legs groups openPositions => some (s.leg openPositions groups)
  | .legCancels failed peers group groups openPositions =>
    some (s.legCancel failed group groups openPositions peers)
  | .entries rest => some (s.entry env rest)
  | .submissions cfg rest batch decided => some (s.submission env cfg rest batch decided)
  | .exits => some s.startExits
  | .exitCollect [] eligible quotes bars flagged =>
    some (s.exitsCollected env eligible quotes bars flagged)
  | .exitSignals rest => some (s.exitSignal rest)
  | .exitCancels orders signal rest => some (s.exitCancel env signal rest orders)
  | .tickDone => some (s.afterTick env)
  | .sleeping wakeAt =>
    if s.stopRequested then some (s.at' .exited)
    else if wakeAt ≤ s.om.clock then some (s.at' .loopTop) else none
  | .awaiting t next =>
    match s.om.tasks[t]? with
    | some (.done _) => some (s.at' next)
    | _ => none
  | _ => none

/-- The block that follows an answer: of a call the runner awaits, or of a
store it reads. A read that raises is an empty one. -/
def answered (env : RunnerEnv) (s : ExecutionRunner) (reply : RunnerReply) :
    RunnerPc → Option ExecutionRunner
  | .resumeConnected =>
    match reply with
    | .connected true => some (s.startReconcile .autoResume)
    | .connected false | .raised => some s.beginTick
    | _ => none
  | .reconcilePositions site orders internal =>
    match reply with
    | .positions broker => some (s.at' (.reconcileOrders site orders
        (indexOrders s.om.orders orders) (comparePositions internal broker)))
    | .raised => some (s.reconcileRaised site)
    | _ => none
  | .reconcileOrders site orders index found =>
    match reply with
    | .openOrders broker =>
      some (s.reconciled env (compareOrders found s.om.orders orders index broker) site)
    | .raised => some (s.reconcileRaised site)
    | _ => none
  | .tickConnected => s.tickConnected reply
  | .fetchCommands =>
    match reply with
    | .commands pending => some (s.at' (.commands pending))
    | .raised => some (s.at' .manage)
    | _ => none
  | .entryStart =>
    match reply with
    | .tradedToday stored => some (s.startEntries env stored)
    | .raised => some (s.startEntries env [])
    | _ => none
  | .pollAwait cfg _ rest => s.polled cfg rest reply
  | .quoteAwait cfg rest decided signal pending state =>
    match reply with
    | .quotes quotes => some (s.quoted env cfg rest decided signal pending state
        (quotes (signal.contract.toQuoteSymbol env.floatRepr)))
    | .raised => some (s.quoted env cfg rest decided signal pending state none)
    | _ => none
  | .exitQuotes eligible =>
    match reply with
    | .marketData quotes bars => some (s.exitsQuoted env eligible quotes bars)
    | _ => none
  | .exitCollect (_ :: rest) eligible quotes bars flagged =>
    s.exitsFlagged rest eligible quotes bars flagged reply
  | .snapshot =>
    match reply with
    | .done | .raised => some (s.at' .tickDone)
    | _ => none
  | _ => none

/-- Whether the runner is in a stretch of code without `await`. -/
def busy (s : ExecutionRunner) : Bool :=
  match s.pc with
  | .pauseWait => !s.paused
  | .awaiting t _ =>
    match s.om.tasks[t]? with
    | some (.done _) => true
    | _ => false
  | .resumeConnected | .reconcilePositions .. | .reconcileOrders .. | .tickConnected
  | .pollAwait .. | .quoteAwait .. | .exitQuotes .. | .exitCollect (_ :: _) .. | .snapshot
  | .sleeping _ | .exited | .crashed => false
  | _ => true

/-- What happens to the order manager without the runner: its own
coroutines, the broker's answers to them, callbacks, and time. -/
def background : OrderManager.Label → Bool
  | .submit .. | .cancel .. | .sweep .. => false
  | _ => true

/-- What can happen next. -/
inductive Label where
  /-- Something in the order manager. -/
  | orders (l : OrderManager.Label)
  /-- The broker reports a fill. -/
  | fill (fill : FillEvent)
  /-- Someone calls `stop`, `pause` or `resume`. -/
  | stop
  | pause
  | resume
  /-- The runner gets an answer. -/
  | reply (reply : RunnerReply)
  /-- The runner takes its next block. -/
  | run

/-- **One step of the runner.** While it is busy only its own blocks are
enabled, and while a coroutine of the order manager runs only that. -/
def step (env : RunnerEnv) (s : ExecutionRunner) : Label → Option ExecutionRunner
  | .orders l =>
    if background l ∧ ¬ s.busy then (s.om.step l).map fun om => { s with om := om }
    else none
  | .fill fill =>
    if s.om.running.isNone ∧ ¬ s.busy then some (s.filled env fill) else none
  | .stop =>
    if s.om.running.isNone ∧ ¬ s.busy then some { s with stopRequested := true } else none
  | .pause =>
    if s.om.running.isNone ∧ ¬ s.busy then some { s with paused := true } else none
  | .resume =>
    if s.om.running.isNone ∧ ¬ s.busy then some { s with paused := false } else none
  | .reply reply => if s.om.running.isNone then s.answered env reply s.pc else none
  | .run => if s.om.running.isNone then s.block env s.pc else none

/-- The runner with an arbitrary broker and arbitrary providers. -/
def machine (env : RunnerEnv) : Machine ExecutionRunner Label where
  step := step env

/-- **What the loop starts from**: no orders yet, the positions seeded from
the broker, and the overrides as they were restored and as the first
reconciliation left them. -/
structure Startup where
  clock : Time
  positions : List Position
  strategyConfigs : List StrategyConfig
  systemLocked : Bool
  pausedStrategies : List StrategyId

/-- The state at the start of the main loop. -/
def initial (start : Startup) : ExecutionRunner where
  om := { clock := start.clock }
  pm := ⟨start.positions⟩
  strategyConfigs := start.strategyConfigs
  systemLocked := start.systemLocked
  pausedStrategies := start.pausedStrategies
  lastReconciliation := some start.clock
  lockCauses := if start.systemLocked then [.restored] else []

end ExecutionRunner

/-! ## A runner for runs on fixed inputs -/

/-- A risk engine that approves what is asked for, and no schedule. -/
def sampleEnv : RunnerEnv where
  tickInterval := 1
  reconciliationInterval := 60
  exitMaxSpreadPct := none
  exitMaxAgeSeconds := none
  defaultAlgo := some "adaptive_urgent"
  nyDate _ := "2026-06-12"
  entryWindowClosed _ _ := false
  absoluteExit _ _ := none
  evaluate signal _ := ⟨0, .approved, signal.requestedQuantity, []⟩
  floatRepr _ := ""

/-- One strategy, an empty book, and no lock. -/
def sampleStartup : ExecutionRunner.Startup where
  clock := 0
  positions := []
  strategyConfigs := [{ strategyId := "orb" }]
  systemLocked := false
  pausedStrategies := []
