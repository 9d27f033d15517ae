import ExecutionSystem.Clock
import ExecutionSystem.Commissions
import ExecutionSystem.ExposureLimits
import ExecutionSystem.RunnerSettings

/-!
# What has been traded

The risk engine has a check for the time since a strategy last traded, and
checks for what has been lost in the day, by a strategy and by all. It
reads both off the snapshot of the system, and the runner has no record of
either to put there: `last_trade_times` and `strategy_daily_pnl` are left
at their defaults, and `daily_pnl` is the profit of the positions that are
closed and still in memory, of whatever day.

`RecordedSession` is the runner – the process that dies and starts again
included – together with the record that it does not keep. A fill or a
commission is recorded when it is handled, with what it changes the
realized profit of the book by, on the New York day of that instant; a fill
that the runner is never told of is recorded too. The record is not read by
any step. What the risk engine is told instead, in the step that judges a leg,
is `judging`.
-/

/-- The legs that are approved, and wait for the rest of their batch or for
their submission. -/
def RunnerPc.waiting : RunnerPc → List Decided
  | quoteAwait _ _ decided _ _ _ => decided.filter (·.decision.approved)
  | submissions _ _ _ decided => decided
  | awaiting _ next => next.waiting
  | _ => []

/-- The leg that is judged next, and what the engine is told of the system. -/
def RunnerPc.judging : RunnerPc → Option (StrategySignal × SystemState)
  | quoteAwait _ _ _ signal _ state => some (signal, state)
  | awaiting _ next => next.judging
  | _ => none

/-- The profit realized by a strategy so far. -/
def PositionManager.realizedBy (pm : PositionManager) (sid : StrategyId) : ℚ :=
  ((pm.positions.filter (·.strategyId = sid)).map (·.realizedPnl)).sum

/-- The risk engine as the runner builds it: over its own live
configurations and overrides. -/
def ExecutionRunner.wired (s : ExecutionRunner) (engine : RiskEngine) : RiskEngine :=
  { engine with
    strategies := s.strategyConfigs
    overrides :=
      { engine.overrides with
        pausedStrategies := s.pausedStrategies
        systemLocked := s.systemLocked } }

@[simp] theorem RunnerEnv.judgedBy_evaluate (env : RunnerEnv) (engine : RiskEngine) :
    (env.judgedBy engine).evaluate = engine.evaluate := by
  simp only [RunnerEnv.judgedBy]

/-! ## The record -/

/-- **What a runner would have to keep** for the checks to be about what
they say. -/
structure TradeRecord where
  /-- The profit realized on a day. -/
  dailyPnl : String → ℚ := fun _ => 0
  /-- … by a strategy. -/
  strategyDailyPnl : String → StrategyId → ℚ := fun _ _ => 0
  lastTradeTimes : StrategyId → Option Time := fun _ => none

namespace TradeRecord

/-- On a day, profit is realized: `total` by all, `by' sid` by a
strategy. -/
def realized (r : TradeRecord) (day : String) (total : ℚ) (by' : StrategyId → ℚ) :
    TradeRecord :=
  { r with
    dailyPnl := fun d => if d = day then r.dailyPnl d + total else r.dailyPnl d
    strategyDailyPnl := fun d sid =>
      if d = day then r.strategyDailyPnl d sid + by' sid else r.strategyDailyPnl d sid }

/-- A strategy trades. -/
def traded (r : TradeRecord) (sid : StrategyId) (now : Time) : TradeRecord :=
  { r with
    lastTradeTimes := fun sid' => if sid' = sid then some now else r.lastTradeTimes sid' }

end TradeRecord

/-! ## The session -/

/-- **The runner, and the record that it does not keep.** -/
structure RecordedSession where
  runner : ExecutionRunner
  record : TradeRecord := {}

namespace RecordedSession

/-- What can happen next. -/
inductive Label where
  | runner (l : ExecutionRunner.Label)
  /-- The broker reports a commission. -/
  | commission (o : OrderId) (commission : ℚ)
  /-- A fill that the runner is not told of, with what it realizes. -/
  | missed (strategyId : StrategyId) (pnl : ℚ)
  /-- The process is gone, wherever it stood, and another one starts. -/
  | restart (start : ExecutionRunner.Startup)

/-- Something is traded, or profit or loss is booked. -/
def Label.trades : Label → Bool
  | .runner (.fill _) | .commission .. | .missed .. => true
  | _ => false

/-- The strategy that trades. -/
def Label.trader : Label → Option StrategyId
  | .runner (.fill fill) => some fill.strategyId
  | .missed sid _ => some sid
  | _ => none

/-- The New York day. -/
def today (env : RunnerEnv) (s : RecordedSession) : String := env.nyDate s.runner.om.clock

/-- The runner has gone on, and what that realized is recorded. -/
def booked (env : RunnerEnv) (s : RecordedSession) (runner : ExecutionRunner) :
    RecordedSession where
  runner := runner
  record := s.record.realized (s.today env) (runner.pm.realized - s.runner.pm.realized)
    fun sid => runner.pm.realizedBy sid - s.runner.pm.realizedBy sid

/-- A strategy has traded. -/
def traded (s : RecordedSession) (sid : StrategyId) : RecordedSession :=
  { s with record := s.record.traded sid s.runner.om.clock }

/-- The runner has taken a step. -/
def went (env : RunnerEnv) (s : RecordedSession) (runner : ExecutionRunner) :
    ExecutionRunner.Label → RecordedSession
  | .fill fill => (s.booked env runner).traded fill.strategyId
  | _ => { s with runner := runner }

/-- A process starts, and no tick has begun. -/
def launched (start : ExecutionRunner.Startup) : ExecutionRunner :=
  { ExecutionRunner.initial start with now := start.clock }

/-- One step. -/
def step (env : RunnerEnv) (engine : RiskEngine) (s : RecordedSession) :
    Label → Option RecordedSession
  | .runner l => (s.runner.step (env.judgedBy (s.runner.wired engine)) l).map
    fun runner => s.went env runner l
  | .commission o commission =>
    if s.runner.om.running.isNone ∧ ¬ s.runner.busy then
      some (s.booked env (s.runner.onCommission o commission))
    else none
  | .missed sid pnl =>
    some (({ s with record := s.record.realized (s.today env) pnl fun sid' =>
      if sid' = sid then pnl else 0 } : RecordedSession).traded sid)
  | .restart start =>
    if s.runner.om.clock ≤ start.clock then some { s with runner := launched start } else none

/-- The runner with its risk engine, and its record. -/
def machine (env : RunnerEnv) (engine : RiskEngine) : Machine RecordedSession Label where
  step := step env engine

/-- The main loop starts, and nothing is recorded. -/
def initial (start : ExecutionRunner.Startup) : RecordedSession where
  runner := launched start

/-- **The leg that the step judges**, and what the engine is told of the
system: its state before the quote was asked for. -/
def judging (s : RecordedSession) : Label → Option (StrategySignal × SystemState)
  | .runner (.reply _) => s.runner.pc.judging
  | _ => none

/-! ## What a step does -/

variable {env : RunnerEnv} {engine : RiskEngine} {s t : RecordedSession} {l : Label}

/-- **A step of the runner, of the book, of the record, or a new process.** -/
theorem step_cases (h : s.step env engine l = some t) :
    (∃ k, l = .runner k
        ∧ s.runner.step (env.judgedBy (s.runner.wired engine)) k = some t.runner
        ∧ (l.trades = false → t.record = s.record))
      ∨ (l.trades = true ∧ t.runner.om = s.runner.om ∧ t.runner.pc = s.runner.pc
        ∧ t.runner.strategyConfigs = s.runner.strategyConfigs ∧ t.runner.now = s.runner.now)
      ∨ ∃ start, l = .restart start ∧ s.runner.om.clock ≤ start.clock
        ∧ t = { s with runner := launched start } := by
  cases l with
  | runner k =>
    obtain ⟨runner, hrunner, rfl⟩ := Option.map_eq_some_iff.mp h
    refine .inl ⟨k, rfl, ?_, fun hk => ?_⟩
    · rw [hrunner]
      cases k <;> rfl
    · -- of the runner's steps only a fill is a trade
      cases k with
      | fill fill => cases hk
      | _ => rfl
  | commission o commission =>
    obtain ⟨-, h⟩ := Option.ite_none_right_eq_some.mp h
    obtain rfl := Option.some.inj h
    refine .inr (.inl ⟨rfl, ?_⟩)
    show (s.runner.onCommission o commission).om = _
      ∧ (s.runner.onCommission o commission).pc = _
      ∧ (s.runner.onCommission o commission).strategyConfigs = _
      ∧ (s.runner.onCommission o commission).now = _
    unfold ExecutionRunner.onCommission
    split <;> exact ⟨rfl, rfl, rfl, rfl⟩
  | missed sid pnl =>
    obtain rfl := Option.some.inj h
    exact .inr (.inl ⟨rfl, rfl, rfl, rfl, rfl⟩)
  | restart start =>
    obtain ⟨hclock, h⟩ := Option.ite_none_right_eq_some.mp h
    exact .inr (.inr ⟨start, rfl, hclock, (Option.some.inj h).symm⟩)

/-- Time only passes, whoever takes the step. -/
theorem clock_step (h : s.step env engine l = some t) :
    s.runner.om.clock ≤ t.runner.om.clock := by
  rcases step_cases h with ⟨k, -, hk, -⟩ | ⟨-, hom, -⟩ | ⟨start, -, hclock, rfl⟩
  · exact ExecutionRunner.clock_step hk
  · rw [hom]
  · exact hclock

/-- **The calls of `place_order` are the runner's.** -/
theorem newCall_of_mem (h : s.step env engine l = some t) {call : PlaceCall}
    (hcall : call ∈ ExecutionRunner.newCalls s.runner t.runner) :
    ∃ k, l = .runner k ∧ ExecutionRunner.NewCall (env.judgedBy (s.runner.wired engine))
      s.runner k t.runner call := by
  rcases step_cases h with ⟨k, rfl, hk, -⟩ | ⟨-, hom, -⟩ | ⟨start, -, -, rfl⟩
  · exact ⟨k, rfl, ExecutionRunner.newCall_of_mem hk hcall⟩
  · rw [ExecutionRunner.newCalls_of_eq (congrArg _ hom)] at hcall
    cases hcall
  · rw [ExecutionRunner.newCalls] at hcall
    cases List.mem_of_mem_drop hcall

end RecordedSession

/-! ## Legs that wait -/

namespace RunnerPc

theorem waiting_of_managing {pc : RunnerPc} (h : pc.managing = true) : pc.waiting = [] := by
  cases pc <;> first | rfl | cases h

theorem waiting_of_exiting {pc : RunnerPc} (h : pc.exiting = true) : pc.waiting = [] := by
  cases pc <;> first | rfl | cases h

theorem judging_of_managing {pc : RunnerPc} (h : pc.managing = true) : pc.judging = none := by
  cases pc <;> first | rfl | cases h

theorem judging_of_exiting {pc : RunnerPc} (h : pc.exiting = true) : pc.judging = none := by
  cases pc <;> first | rfl | cases h

end RunnerPc

namespace ExecutionRunner

variable {env : RunnerEnv} {s s' : ExecutionRunner} {l : Label}

/-- What becomes of the legs: none is added to those that wait, and one that is
to be judged is so on the system as it is. -/
structure KeepsLegs (s : ExecutionRunner) (pc pc' : RunnerPc) : Prop where
  waiting : pc'.waiting ⊆ pc.waiting
  judging : ∀ p ∈ pc'.judging, p ∈ pc.judging ∨ p.2 = s.systemState

theorem KeepsLegs.none {pc pc' : RunnerPc} (hwaiting : pc'.waiting = [])
    (hjudging : pc'.judging = Option.none) : KeepsLegs s pc pc' where
  waiting := hwaiting ▸ List.nil_subset _
  judging := fun _ hp => by rw [hjudging] at hp; cases hp

/-- **Where no quote is awaited the legs are kept.** -/
theorem Flow.keepsLegs {pc pc' : RunnerPc} (h : Flow env s l s' pc pc')
    (hpoll : ∀ cfg manual rest, pc ≠ .pollAwait cfg manual rest)
    (hquote : ∀ cfg rest decided signal pending state,
      pc ≠ .quoteAwait cfg rest decided signal pending state) : KeepsLegs s pc pc' := by
  cases h with
  | managed _ hpc' | manageAwaits _ hpc' =>
    have hwaiting := RunnerPc.waiting_of_managing hpc'
    have hjudging := RunnerPc.judging_of_managing hpc'
    exact .none hwaiting hjudging
  | exitsGoOn _ hpc' | exitAwaits _ hpc' =>
    have hwaiting := RunnerPc.waiting_of_exiting hpc'
    have hjudging := RunnerPc.judging_of_exiting hpc'
    exact .none hwaiting hjudging
  | returned => exact ⟨List.Subset.refl _, fun _ => .inl⟩
  | submissionSkipped | submits => exact ⟨List.subset_cons_self _ _, fun _ => .inl⟩
  | signalled => exact (hpoll _ _ _ rfl).elim
  | judged | batched | batchRejected => exact (hquote _ _ _ _ _ _ rfl).elim
  | _ => exact .none rfl rfl

/-- **An answer to a poll** leaves no leg waiting, and the first to be judged on
the system as it is. -/
theorem keepsLegs_polled {cfg : StrategyConfig} {manual : Bool} {rest : List StrategyConfig}
    {reply : RunnerReply} (h : s.answered env reply (.pollAwait cfg manual rest) = some s') :
    KeepsLegs s (.pollAwait cfg manual rest) s'.pc := by
  cases answered_cases h with
  | signalled signal pending =>
    refine ⟨List.nil_subset _, fun p hp => .inr ?_⟩
    obtain rfl := Option.some.inj hp
    rfl
  | pollEnds => exact .none rfl rfl

/-- **A step keeps the legs, or it judges one.** -/
theorem keepsLegs_or_judges (h : s.step env l = some s') :
    KeepsLegs s s.pc s'.pc
      ∨ ∃ reply cfg rest decided signal pending state quote, l = .reply reply
        ∧ s.pc = .quoteAwait cfg rest decided signal pending state
        ∧ s' = s.quoted env cfg rest decided signal pending state quote := by
  rcases step_flow h with ⟨-, hsame⟩ | ⟨hrunner, hflow⟩
  · exact .inl (hsame ▸ ⟨List.Subset.refl _, fun _ => .inl⟩)
  -- the runner's own blocks await no answer
  cases l with
  | run =>
    obtain ⟨-, h⟩ := Option.ite_none_right_eq_some.mp h
    refine .inl (hflow.keepsLegs (fun _ _ _ hpc => ?_) fun _ _ _ _ _ _ hpc => ?_)
    all_goals rw [hpc] at h; cases h
  | reply reply =>
    obtain ⟨-, h⟩ := Option.ite_none_right_eq_some.mp h
    by_cases hpoll : ∃ cfg manual rest, s.pc = .pollAwait cfg manual rest
    · obtain ⟨cfg, manual, rest, hpc⟩ := hpoll
      rw [hpc] at h ⊢
      exact .inl (keepsLegs_polled h)
    by_cases hquote : ∃ cfg rest decided signal pending state,
        s.pc = .quoteAwait cfg rest decided signal pending state
    · obtain ⟨cfg, rest, decided, signal, pending, state, hpc⟩ := hquote
      rw [hpc] at h
      cases answered_cases h with
      | quoted _ _ _ _ _ _ quote =>
        exact .inr ⟨reply, cfg, rest, decided, signal, pending, state, quote, rfl, hpc, rfl⟩
    · exact .inl (hflow.keepsLegs (fun cfg manual rest hpc => hpoll ⟨cfg, manual, rest, hpc⟩)
        fun cfg rest decided signal pending state hpc =>
          hquote ⟨cfg, rest, decided, signal, pending, state, hpc⟩)
  | _ => cases hrunner

/-- A leg that waits once another is judged has waited before, or it is this
one, and approved. -/
theorem waiting_quoted {cfg : StrategyConfig} {rest : List StrategyConfig}
    {decided : List Decided} {signal : StrategySignal} {pending : List StrategySignal}
    {state : SystemState} {quote : Option QuoteSnapshot} {d : Decided}
    (hd : d ∈ (s.quoted env cfg rest decided signal pending state quote).pc.waiting) :
    d ∈ decided.filter (·.decision.approved)
      ∨ d.signal = signal
        ∧ (env.evaluate signal { state with quote := quote }).approved = true := by
  have hmem : d ∈ (decided ++ [⟨signal, env.evaluate signal { state with quote := quote }, quote⟩])
      ∧ d.decision.approved = true := by
    cases pending with
    | nil =>
      unfold quoted decide at hd
      dsimp only at hd
      split_ifs at hd with hall
      · exact ⟨hd, List.all_eq_true.mp hall d hd⟩
      · cases hd
    | cons next pending => exact List.mem_filter.mp hd
  obtain ⟨hmem, happroved⟩ := hmem
  rcases List.mem_append.mp hmem with hmem | hmem
  · exact .inl (List.mem_filter.mpr ⟨hmem, happroved⟩)
  · obtain rfl := List.mem_singleton.mp hmem
    exact .inr ⟨rfl, happroved⟩

/-- **A leg that waits after a step has waited before, or has just been
approved.** -/
theorem waiting_step (h : s.step env l = some s') {d : Decided} (hd : d ∈ s'.pc.waiting) :
    d ∈ s.pc.waiting
      ∨ ∃ reply state quote, l = .reply reply ∧ s.pc.judging = some (d.signal, state)
        ∧ (env.evaluate d.signal { state with quote := quote }).approved = true := by
  rcases keepsLegs_or_judges h with hkeeps
    | ⟨reply, cfg, rest, decided, signal, pending, state, quote, hl, hpc, rfl⟩
  · exact .inl (hkeeps.waiting hd)
  · rw [hpc]
    rcases waiting_quoted hd with hold | ⟨rfl, happroved⟩
    · exact .inl hold
    · exact .inr ⟨reply, state, quote, hl, rfl, happroved⟩

/-- A leg is judged on the system as it was when its quote was asked for. -/
theorem judging_step (h : s.step env l = some s') {p : StrategySignal × SystemState}
    (hp : p ∈ s'.pc.judging) : p ∈ s.pc.judging ∨ p.2 = s.systemState := by
  rcases keepsLegs_or_judges h with hkeeps
    | ⟨reply, cfg, rest, decided, signal, pending, state, quote, -, -, rfl⟩
  · exact hkeeps.judging p hp
  · cases pending with
    | nil =>
      unfold quoted decide at hp
      dsimp only at hp
      split_ifs at hp <;> cases hp
    | cons next pending =>
      obtain rfl := Option.some.inj hp
      exact .inr rfl

end ExecutionRunner

namespace RecordedSession

variable {env : RunnerEnv} {engine : RiskEngine} {s t : RecordedSession} {l : Label}

/-- **A leg that waits after a step has waited before, or has just been
approved**; where a leg waits the configurations stay. -/
theorem waiting_step (h : s.step env engine l = some t) {d : Decided}
    (hd : d ∈ t.runner.pc.waiting) :
    t.runner.strategyConfigs = s.runner.strategyConfigs
      ∧ (d ∈ s.runner.pc.waiting
        ∨ ∃ state quote, s.judging l = some (d.signal, state)
          ∧ ((s.runner.wired engine).evaluate d.signal { state with quote := quote }).approved
            = true) := by
  rcases step_cases h with ⟨k, rfl, hk, -⟩ | ⟨-, -, hpc, hconfigs, -⟩ | ⟨start, -, -, rfl⟩
  · have hwaits := ExecutionRunner.waiting_step hk hd
    refine ⟨?_, hwaits.imp_right ?_⟩
    · -- commands are handled, and exits begin, where no leg waits
      have hnone : s.runner.pc.waiting = [] → s.runner.pc.judging = none → False := by
        intro hwaiting hjudging
        rw [hwaiting, hjudging] at hwaits
        rcases hwaits with hold | ⟨reply, state, quote, -, hnew, -⟩
        · cases hold
        · cases hnew
      cases ExecutionRunner.step_settings hk with
      | same hsame => exact hsame.strategyConfigs
      | commanded c rest hpc => exact (hnone (by rw [hpc]; rfl) (by rw [hpc]; rfl)).elim
      | exitsBegin hpc => exact (hnone (by rw [hpc]; rfl) (by rw [hpc]; rfl)).elim
    · rintro ⟨reply, state, quote, rfl, hjudging, happroved⟩
      rw [RunnerEnv.judgedBy_evaluate] at happroved
      exact ⟨state, quote, hjudging, happroved⟩
  · exact ⟨hconfigs, .inl (hpc ▸ hd)⟩
  · cases hd

/-- A leg is judged by the answer of a quote, and that trades nothing. -/
theorem judging_eq_some {p : StrategySignal × SystemState} (h : s.judging l = some p) :
    s.runner.pc.judging = some p ∧ l.trader = none := by
  unfold judging at h
  split at h
  · exact ⟨h, rfl⟩
  · cases h

/-- **What is traded or booked** leaves the orders, and where the runner
stands. -/
theorem om_of_trades (h : s.step env engine l = some t) (hl : l.trades = true) :
    t.runner.om = s.runner.om ∧ t.runner.pc = s.runner.pc := by
  rcases step_cases h with ⟨k, rfl, hk, -⟩ | ⟨-, hom, hpc, -⟩ | ⟨start, rfl, -, -⟩
  · cases k with
    | fill fill =>
      obtain ⟨-, hk⟩ := Option.ite_none_right_eq_some.mp hk
      obtain hk := Option.some.inj hk
      rw [← hk]
      exact ⟨ExecutionRunner.filled_om fill, rfl⟩
    | _ => cases hl
  · exact ⟨hom, hpc⟩
  · cases hl

/-- Nothing else is recorded. -/
theorem record_of_not_trades (h : s.step env engine l = some t) (hl : l.trades = false) :
    t.record = s.record := by
  rcases step_cases h with ⟨k, -, -, hrecord⟩ | ⟨htrades, -⟩ | ⟨start, -, -, rfl⟩
  · exact hrecord hl
  · exact absurd htrades (hl ▸ Bool.false_ne_true)
  · rfl

end RecordedSession

/-! ## Runs on fixed inputs -/

namespace ExecutionRunner

/-- A strategy that may enter again holds two calls, bought at a price. -/
def heldStartup (entryPrice : Price) : Startup :=
  { sampleStartup with
    positions := [{ samplePosition with positionId := 1, averageEntryPrice := entryPrice }]
    strategyConfigs := [{ strategyId := "orb", allowReentry := true }] }

/-- Beside it there is a strategy that has not traded. -/
def twoStrategies (entryPrice : Price) : Startup :=
  { heldStartup entryPrice with
    strategyConfigs := [{ strategyId := "orb", allowReentry := true }, { strategyId := "late" }] }

/-- A strategy is polled, and has no signal. -/
def silentPoll : List Label := [.run, .reply (.signals [])]

/-- In the first tick the operator exits them, and the exit is filled at
`1`; the other strategies are polled before it. -/
def exitTick (polls : List Label) : List Label :=
  tickStart [.exitPosition 1] ++ [.run, .run, .run, .orders .go, .run, .run, .run, .run]
    ++ [.reply (.tradedToday []), .run] ++ polls
    ++ [ .run, .run, .reply (.marketData (fun _ => some sampleOptionQuote) fun _ => none),
      .reply (.flagged []), .run, .run, .run, .orders (.resume 1 (.placed 0 .submitted)),
      .run, .run, .fill (sampleFill .sell 2 Nat.zero_lt_two) ]

/-- A strategy enters, up to the call of the broker; others are polled before
it. -/
def quotedEntry (polls : List Label) (signal : StrategySignal) : List Label :=
  [.reply (.tradedToday ["orb"])] ++ polls
    ++ [ .run, .reply (.signals [signal]),
      .reply (.quotes fun _ => some sampleOptionQuote), .run ]

/-- The tick ends, and in the next one, after a pause, a strategy enters. -/
def nextEntry (pause : Time) (polls : List Label) (signal : StrategySignal) : List Label :=
  [ .orders (.callback { brokerOrderId := 0, status := .filled, filledQuantity := 2 }),
    .reply .done, .run, .orders (.advance pause), .run ]
    ++ tickStart [] ++ [.run, .run, .orders .go, .orders .go, .run, .run, .run, .run]
    ++ quotedEntry polls signal

/-- In the first tick of a process, with nothing to manage, the strategy
enters. -/
def firstEntry : List Label :=
  tickStart [] ++ [.run, .run, .orders .go, .run, .run, .run, .run]
    ++ quotedEntry [] sampleSignal

end ExecutionRunner

namespace RecordedSession

/-- The strategy exits and enters again. -/
def tradesAgain (pause : Time) : List Label :=
  (ExecutionRunner.exitTick []
    ++ ExecutionRunner.nextEntry pause [] ExecutionRunner.sampleSignal).map .runner

/-- The strategy exits, and a second later the other one enters. -/
def otherEnters : List Label :=
  (ExecutionRunner.exitTick ExecutionRunner.silentPoll
    ++ ExecutionRunner.nextEntry 1 ExecutionRunner.silentPoll
      { ExecutionRunner.sampleSignal with strategyId := "late" }).map .runner

/-- An entry order of a strategy has been submitted. -/
def Submitted (s : RecordedSession) (sid : StrategyId) : Prop :=
  ∃ call ∈ s.runner.om.placeCalls, call.plan.isEntry = true ∧ call.plan.strategyId = sid

instance (s : RecordedSession) (sid : StrategyId) : Decidable (s.Submitted sid) :=
  inferInstanceAs (Decidable (∃ _ ∈ _, _ ∧ _))

end RecordedSession
