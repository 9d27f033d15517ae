import ExecutionSystem.TradeRecord

/-!
# Loss limits

When the losses of a New York day reach a limit, of a strategy or of all,
no further entry order is to go out that day. The checks of the risk engine
are about the day's results, but what the runner tells it are others: of a
strategy always `0`, and of all strategies the profit of the positions that
are closed and still in memory. So what a partial exit has realized is not
counted, nor what an earlier process has, nor, by itself, what a strategy
has lost; and what was closed on an earlier day is.

The engine judges a leg once, when its quote is there. An entry order goes out
after that, and may go out again whenever its repricer replaces it. So the
engine's own checks keep the limits in a run in which they are told of no more
than was realized on the day, and in which no loss is booked while an entry is
under way (`TellsLosses`).
-/

/-! ## The checks -/

namespace RiskEngine

/-- **Results within the limits**, of all and of one strategy. -/
def AllowsLosses (engine : RiskEngine) (all one : ℚ) : Prop :=
  -engine.risk.globalRisk.dailyLossLimit < all
    ∧ -engine.risk.perStrategy.maxDailyLoss < one

variable {engine : RiskEngine} {signal : StrategySignal} {state : SystemState} {all one : ℚ}

/-- **What the engine approves is within the limits**, by what it is told. -/
theorem allowsLosses_of_approved (h : (engine.evaluate signal state).approved = true) :
    engine.AllowsLosses state.dailyPnl (state.strategyDailyPnl signal.strategyId) := by
  have hblocking := approved_iff.mp h
  simp only [blocking, List.append_eq_nil_iff, and_assoc] at hblocking
  obtain ⟨-, -, -, -, -, -, -, -, hall, hone, -⟩ := hblocking
  exact ⟨not_le.mp (reasonIf_eq_nil.mp hall), not_le.mp (reasonIf_eq_nil.mp hone)⟩

/-- Better results are within them too. -/
theorem AllowsLosses.mono {all' one' : ℚ} (h : engine.AllowsLosses all one) (hall : all ≤ all')
    (hone : one ≤ one') : engine.AllowsLosses all' one' :=
  ⟨h.1.trans_le hall, h.2.trans_le hone⟩

/-- Nothing lost is within the limits. -/
theorem allowsLosses_zero (engine : RiskEngine) : engine.AllowsLosses 0 0 :=
  ⟨neg_neg_of_pos engine.risk.globalRisk.loss_pos, neg_neg_of_pos engine.risk.perStrategy.loss_pos⟩

end RiskEngine

/-- **Days come one after the other**: an instant between two of one day is
of that day. -/
def RunnerEnv.DaysInOrder (env : RunnerEnv) : Prop :=
  ∀ u v w, u ≤ v → v ≤ w → env.nyDate u = env.nyDate w → env.nyDate v = env.nyDate w

namespace ExecutionRunner

/-- The strategies with an entry under way: a leg that is approved, or an
outstanding order. -/
def underWay (s : ExecutionRunner) : List StrategyId :=
  s.pc.waiting.map (·.signal.strategyId) ++ s.om.pendingKeys.map (·.1)

end ExecutionRunner

namespace RecordedSession

/-- **The loss limits stop trading**: where an entry order is submitted,
what has been realized that day is above the limits. -/
def StopsOnLoss (env : RunnerEnv) (engine : RiskEngine) (s t : RecordedSession) : Prop :=
  ∀ call ∈ ExecutionRunner.newCalls s.runner t.runner, call.plan.isEntry = true →
    -engine.risk.globalRisk.dailyLossLimit < s.record.dailyPnl (s.today env)
      ∧ -engine.risk.perStrategy.maxDailyLoss
        < s.record.strategyDailyPnl (s.today env) call.plan.strategyId

instance (env : RunnerEnv) (engine : RiskEngine) (s t : RecordedSession) :
    Decidable (s.StopsOnLoss env engine t) :=
  inferInstanceAs (Decidable (∀ _ ∈ _, _ → _ ∧ _))

/-- The results of the day, of all and of a strategy, are within the limits. -/
def AllowsLosses (env : RunnerEnv) (engine : RiskEngine) (s : RecordedSession)
    (sid : StrategyId) : Prop :=
  engine.AllowsLosses (s.record.dailyPnl (s.today env))
    (s.record.strategyDailyPnl (s.today env) sid)

/-- **The engine is told of the losses**: where it judges a leg, of no more than
was realized on the day, by all and by the strategy of the leg; and what is
booked while entries are under way is no loss, to all or to their strategies. -/
structure TellsLosses (env : RunnerEnv) (s : RecordedSession) (l : Label)
    (t : RecordedSession) : Prop where
  told : ∀ p ∈ s.judging l, p.2.dailyPnl ≤ s.record.dailyPnl (s.today env)
    ∧ p.2.strategyDailyPnl p.1.strategyId
      ≤ s.record.strategyDailyPnl (s.today env) p.1.strategyId
  booked : l.trades = true → ∀ sid ∈ s.runner.underWay,
    s.record.dailyPnl (s.today env) ≤ t.record.dailyPnl (s.today env)
      ∧ s.record.strategyDailyPnl (s.today env) sid
        ≤ t.record.strategyDailyPnl (s.today env) sid

instance (env : RunnerEnv) (s : RecordedSession) (l : Label) (t : RecordedSession) :
    Decidable (s.TellsLosses env l t) :=
  decidable_of_iff
    ((∀ p ∈ s.judging l, p.2.dailyPnl ≤ s.record.dailyPnl (s.today env)
        ∧ p.2.strategyDailyPnl p.1.strategyId
          ≤ s.record.strategyDailyPnl (s.today env) p.1.strategyId)
      ∧ (l.trades = true → ∀ sid ∈ s.runner.underWay,
        s.record.dailyPnl (s.today env) ≤ t.record.dailyPnl (s.today env)
          ∧ s.record.strategyDailyPnl (s.today env) sid
            ≤ t.record.strategyDailyPnl (s.today env) sid))
    ⟨fun ⟨h, h'⟩ => ⟨h, h'⟩, fun ⟨h, h'⟩ => ⟨h, h'⟩⟩

/-! ## The days of the record -/

/-- **Nothing is recorded on a day that has not begun.** -/
def Dated (env : RunnerEnv) (s : RecordedSession) : Prop :=
  ∀ day, (∀ u ≤ s.runner.om.clock, env.nyDate u ≠ day) →
    s.record.dailyPnl day = 0 ∧ ∀ sid, s.record.strategyDailyPnl day sid = 0

variable {env : RunnerEnv} {engine : RiskEngine} {s t : RecordedSession} {l : Label}
  {signal : StrategySignal} {state : SystemState} {quote : Option QuoteSnapshot}

theorem realized_other {r : TradeRecord} {day day' : String} {total : ℚ}
    {by' : StrategyId → ℚ} (h : day' ≠ day) :
    (r.realized day total by').dailyPnl day' = r.dailyPnl day'
      ∧ (r.realized day total by').strategyDailyPnl day' = r.strategyDailyPnl day' :=
  ⟨if_neg h, funext fun _ => if_neg h⟩

/-- **A step records on its own day.** -/
theorem record_step (h : s.step env engine l = some t) {day : String} (hday : day ≠ s.today env) :
    t.record.dailyPnl day = s.record.dailyPnl day
      ∧ t.record.strategyDailyPnl day = s.record.strategyDailyPnl day := by
  cases l with
  | runner k =>
    obtain ⟨runner, -, rfl⟩ := Option.map_eq_some_iff.mp h
    cases k with
    | fill fill => exact realized_other hday
    | _ => exact ⟨rfl, rfl⟩
  | commission o commission =>
    obtain ⟨-, h⟩ := Option.ite_none_right_eq_some.mp h
    obtain rfl := Option.some.inj h
    exact realized_other hday
  | missed sid pnl =>
    obtain rfl := Option.some.inj h
    exact realized_other hday
  | restart start =>
    obtain ⟨-, h⟩ := Option.ite_none_right_eq_some.mp h
    obtain rfl := Option.some.inj h
    exact ⟨rfl, rfl⟩

theorem Dated.step (hs : s.Dated env) (h : s.step env engine l = some t) : t.Dated env := by
  intro day hday
  have hbegun : ∀ u ≤ s.runner.om.clock, env.nyDate u ≠ day := fun u hu =>
    hday u (hu.trans (clock_step h))
  obtain ⟨hall, hone⟩ := record_step h (hbegun s.runner.om.clock le_rfl).symm
  obtain ⟨hzero, hzero'⟩ := hs day hbegun
  exact ⟨hall.trans hzero, fun sid => (congrFun hone sid).trans (hzero' sid)⟩

/-- **Where nothing is booked, losses within the limits stay so**: overnight
they are none. -/
theorem Dated.allowsLosses (hdays : env.DaysInOrder) (hs : s.Dated env)
    (h : s.step env engine l = some t) (hrecord : t.record = s.record) {sid : StrategyId}
    (hallows : s.AllowsLosses env engine sid) : t.AllowsLosses env engine sid := by
  unfold AllowsLosses
  rw [hrecord]
  by_cases hday : t.today env = s.today env
  · rw [hday]
    exact hallows
  · have hbegun : ∀ u ≤ s.runner.om.clock, env.nyDate u ≠ t.today env := fun u hu heq =>
      hday (hdays u s.runner.om.clock t.runner.om.clock hu (clock_step h) heq).symm
    obtain ⟨hall, hone⟩ := hs (t.today env) hbegun
    rw [hall, hone]
    exact engine.allowsLosses_zero

/-- **What the engine approves is within the limits**, where it is told of the
losses. -/
theorem allowsLosses_of_judged (hjudged : s.judging l = some (signal, state))
    (htells : s.TellsLosses env l t)
    (happroved : ((s.runner.wired engine).evaluate signal
      { state with quote := quote }).approved = true) :
    s.AllowsLosses env engine signal.strategyId := by
  have hwired := RiskEngine.allowsLosses_of_approved happroved
  -- the wiring leaves the limits
  have htold : engine.AllowsLosses state.dailyPnl (state.strategyDailyPnl signal.strategyId) :=
    hwired
  exact htold.mono (htells.told _ hjudged).1 (htells.told _ hjudged).2

/-! ## Entries under way -/

/-- **The losses speak against no entry that is under way.** -/
structure WithinLosses (env : RunnerEnv) (engine : RiskEngine) (s : RecordedSession) :
    Prop where
  orderly : s.runner.om.Orderly
  dated : s.Dated env
  allows : ∀ sid ∈ s.runner.underWay, s.AllowsLosses env engine sid

theorem mem_underWay_of_waiting {r : ExecutionRunner} {d : Decided} (h : d ∈ r.pc.waiting) :
    d.signal.strategyId ∈ r.underWay :=
  List.mem_append_left _ (List.mem_map_of_mem h)

theorem mem_underWay_of_pending {r : ExecutionRunner} {k : PositionKey}
    (h : k ∈ r.om.pendingKeys) : k.1 ∈ r.underWay :=
  List.mem_append_right _ (List.mem_map_of_mem h)

/-- What is submitted has waited. -/
theorem waiting_of_submitting {r : ExecutionRunner} {k : PositionKey}
    (h : r.submitting = some k) : ∃ d ∈ r.pc.waiting, d.signal.strategyId = k.1 := by
  unfold ExecutionRunner.submitting at h
  split at h
  · rename_i cfg rest batch d decided hpc
    split_ifs at h
    obtain rfl := Option.some.inj h
    refine ⟨d, ?_, rfl⟩
    rw [hpc]
    exact List.mem_cons_self
  · cases h

theorem orderly_step (hs : s.runner.om.Orderly) (h : s.step env engine l = some t) :
    t.runner.om.Orderly := by
  rcases step_cases h with ⟨k, -, hk, -⟩ | ⟨-, hom, -⟩ | ⟨start, -, -, rfl⟩
  · exact ExecutionRunner.orderly_step hs hk
  · exact hom ▸ hs
  · exact OrderManager.orderly_initial start.clock

/-- **An outstanding entry was under way before.** -/
theorem underWay_of_pending (hs : s.runner.om.Orderly) (h : s.step env engine l = some t)
    {k : PositionKey} (hk : k ∈ t.runner.om.pendingKeys) : k.1 ∈ s.runner.underWay := by
  rcases step_cases h with ⟨j, -, hj, -⟩ | ⟨-, hom, -⟩ | ⟨start, -, -, rfl⟩
  · rcases List.mem_append.mp ((ExecutionRunner.pending_step hs hj).keys hk) with hnew | hold
    · obtain ⟨d, hd, hsame⟩ := waiting_of_submitting (Option.mem_toList.mp hnew)
      exact hsame ▸ mem_underWay_of_waiting hd
    · exact mem_underWay_of_pending hold
  · exact mem_underWay_of_pending (hom ▸ hk)
  · cases hk

/-- **An entry under way was so before, or has just been approved.** -/
theorem underWay_step (hs : s.runner.om.Orderly) (h : s.step env engine l = some t)
    {sid : StrategyId} (hsid : sid ∈ t.runner.underWay) :
    sid ∈ s.runner.underWay
      ∨ ∃ signal state quote, signal.strategyId = sid ∧ s.judging l = some (signal, state)
        ∧ ((s.runner.wired engine).evaluate signal { state with quote := quote }).approved
          = true := by
  rcases List.mem_append.mp hsid with hwaits | hpending
  · obtain ⟨d, hd, rfl⟩ := List.mem_map.mp hwaits
    rcases (waiting_step h hd).2 with hold | ⟨state, quote, hjudged, happroved⟩
    · exact .inl (mem_underWay_of_waiting hold)
    · exact .inr ⟨d.signal, state, quote, rfl, hjudged, happroved⟩
  · obtain ⟨k, hk, rfl⟩ := List.mem_map.mp hpending
    exact .inl (underWay_of_pending hs h hk)

/-- **One step in which the engine is told of the losses.** -/
theorem WithinLosses.step (hdays : env.DaysInOrder) (hs : s.WithinLosses env engine)
    (h : s.step env engine l = some t) (htells : s.TellsLosses env l t) :
    t.WithinLosses env engine := by
  refine ⟨orderly_step hs.orderly h, hs.dated.step h, fun sid hsid => ?_⟩
  by_cases htrades : l.trades = true
  · -- what is traded or booked leaves the entries under way, and the clock
    obtain ⟨hom, hpc⟩ := om_of_trades h htrades
    have hold : sid ∈ s.runner.underWay := by
      rw [ExecutionRunner.underWay, hom, hpc] at hsid
      exact hsid
    obtain ⟨hall, hone⟩ := htells.booked htrades sid hold
    have hday : t.today env = s.today env :=
      congrArg (fun om : OrderManager => env.nyDate om.clock) hom
    unfold AllowsLosses
    rw [hday]
    exact (hs.allows sid hold).mono hall hone
  · have hrecord := record_of_not_trades h (Bool.eq_false_of_not_eq_true htrades)
    refine hs.dated.allowsLosses hdays h hrecord ?_
    rcases underWay_step hs.orderly h hsid with hold
      | ⟨signal, state, quote, rfl, hjudged, happroved⟩
    · exact hs.allows sid hold
    · exact allowsLosses_of_judged hjudged htells happroved

/-! ## Every entry order -/

/-- A replacement is of the strategy of the order it replaces. -/
theorem strategyId_of_replacing {env : RunnerEnv} {r r' : ExecutionRunner}
    {ol : OrderManager.Label} {o : OrderId} {x : OrderState} {p : Price}
    (h : r.step env (.orders ol) = some r') (hr : r.om.replacing ol = some (o, x, p))
    {call : PlaceCall} (hcall : call ∈ ExecutionRunner.newCalls r r') :
    call.plan.strategyId = x.strategyId := by
  obtain ⟨-, h⟩ := Option.ite_none_right_eq_some.mp h
  obtain ⟨om, hom, rfl⟩ := Option.map_eq_some_iff.mp h
  obtain ⟨t, c, r, q, hp, -, -, -, hh⟩ := OrderManager.step_replacing hom hr
  rw [ExecutionRunner.newCalls_of_append hh.placeCalls] at hcall
  obtain rfl := List.mem_singleton.mp hcall
  rfl

/-- **An entry order is of a strategy with an entry under way.** -/
theorem underWay_of_newCall (hs : s.runner.om.Orderly) (h : s.step env engine l = some t)
    {call : PlaceCall} (hcall : call ∈ ExecutionRunner.newCalls s.runner t.runner)
    (hentry : call.plan.isEntry = true) : call.plan.strategyId ∈ s.runner.underWay := by
  rcases step_cases h with ⟨k, rfl, hk, -⟩ | ⟨-, hom, -⟩ | ⟨start, -, -, rfl⟩
  · cases ExecutionRunner.newCall_of_mem hk hcall with
    | entered cfg rest batch d decided intent plan hl hpc hstrategy hbatch _ hplan horders =>
      have hwaits : d ∈ s.runner.pc.waiting := by
        rw [hpc]
        exact List.mem_cons_self
      show plan.strategyId ∈ s.runner.underWay
      rw [hplan, hstrategy]
      exact mem_underWay_of_waiting hwaits
    | left plan hleft => exact absurd hentry (hleft ▸ Bool.false_ne_true)
    | replaced ol o x p plan hl hr hsame =>
      subst hl
      obtain ⟨hx, hout⟩ := OrderManager.outstanding_of_replacing hs.owned hr
        (hsame.symm.trans hentry)
      rw [strategyId_of_replacing hk hr hcall]
      exact mem_underWay_of_pending (k := x.key)
        (OrderManager.mem_pendingKeys.mpr ⟨o, x, hx, hout, rfl⟩)
  · rw [ExecutionRunner.newCalls_of_eq (congrArg _ hom)] at hcall
    cases hcall
  · cases List.mem_of_mem_drop hcall

theorem WithinLosses.stopsOnLoss (hs : s.WithinLosses env engine)
    (h : s.step env engine l = some t) : s.StopsOnLoss env engine t := by
  intro call hcall hentry
  exact hs.allows _ (underWay_of_newCall hs.orderly h hcall hentry)

theorem withinLosses_initial (env : RunnerEnv) (engine : RiskEngine)
    (start : ExecutionRunner.Startup) : (initial start).WithinLosses env engine where
  orderly := OrderManager.orderly_initial start.clock
  dated := fun _ _ => ⟨rfl, fun _ => rfl⟩
  allows := fun _ hsid => by cases hsid

/-- **In a run in which the engine is told of the losses they stop trading**,
through partial exits, commissions, restarts and changes of day. -/
theorem stopsOnLoss_of_tellsLosses (env : RunnerEnv) (engine : RiskEngine)
    (start : ExecutionRunner.Startup) (hdays : env.DaysInOrder) (ls : List Label) :
    (machine env engine).Along (TellsLosses env) (initial start) ls →
      (machine env engine).Along (fun s _ t => s.StopsOnLoss env engine t)
        (initial start) ls :=
  Machine.along_of_step (J := WithinLosses env engine)
    (fun _ _ _ hs h htells => hs.step hdays h htells) (fun _ _ _ hs h _ => hs.stopsOnLoss h)
    (withinLosses_initial env engine start)

/-- One strategy has lost half a dollar, where a dollar may be lost, and another
one enters. -/
theorem stopsOnLoss_otherEnters :
    (machine sampleEnv sampleEngine).Along
      (fun s _ t => s.StopsOnLoss sampleEnv sampleEngine t)
      (initial (ExecutionRunner.twoStrategies (401 / 400))) otherEnters
    ∧ ∃ s, (machine sampleEnv sampleEngine).run
        (initial (ExecutionRunner.twoStrategies (401 / 400))) otherEnters = some s
      ∧ s.record.dailyPnl (s.today sampleEnv) = -1 / 2 ∧ s.Submitted "late" := by
  have hrun : ((machine sampleEnv sampleEngine).run
      (initial (ExecutionRunner.twoStrategies (401 / 400))) otherEnters).any (fun s =>
        s.record.dailyPnl (s.today sampleEnv) = -1 / 2 ∧ s.Submitted "late") = true := by
    decide +kernel
  obtain ⟨s, hs, hfacts⟩ := (Option.any_eq_true _ _).mp hrun
  exact ⟨stopsOnLoss_of_tellsLosses sampleEnv sampleEngine
    (ExecutionRunner.twoStrategies (401 / 400)) (fun _ _ _ _ _ _ => rfl) otherEnters
    (by decide +kernel), s, hs, of_decide_eq_true hfacts⟩

/-! ## A restart in the middle of the day -/

/-- The strategy exits its position, the process starts again, and in its
first tick the strategy enters. -/
def restartsAndTrades : List Label :=
  (ExecutionRunner.exitTick []).map .runner
    ++ [.restart { ExecutionRunner.heldStartup 1 with positions := [] }]
    ++ ExecutionRunner.firstEntry.map .runner

/-- **The loss limits do not stop trading in every run**: the exit has lost
1800 dollars, and the process that starts after it knows of none. -/
theorem not_stopsOnLoss : ¬ ∀ (env : RunnerEnv) engine start, env.DaysInOrder → ∀ ls,
    (machine env engine).Along (fun s _ t => s.StopsOnLoss env engine t)
      (initial start) ls := by
  intro h
  have hstops := h sampleEnv sampleEngine (ExecutionRunner.heldStartup 10)
    (fun _ _ _ _ _ _ => rfl) restartsAndTrades
  exact absurd hstops (by decide +kernel)

end RecordedSession
