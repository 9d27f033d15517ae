import ExecutionSystem.RunnerSteps

/-!
# What the operator has set

The pauses, the parameters of the strategies and the flatten latch are the
operator's: a command assigns them, and of the rest of the runner only the
exit phase touches one, when it releases the latch. So a step leaves all
three, or it is a command, or it is the start of the exit phase
(`ExecutionRunner.step_settings`).
-/

namespace ExecutionRunner

/-- The step leaves what the operator has set. -/
structure SameSettings (s s' : ExecutionRunner) : Prop where
  strategyConfigs : s'.strategyConfigs = s.strategyConfigs
  pausedStrategies : s'.pausedStrategies = s.pausedStrategies
  flattenAllActive : s'.flattenAllActive = s.flattenAllActive

/-- **What a step does to the settings.** -/
inductive Settings (env : RunnerEnv) (s : ExecutionRunner) (l : Label)
    (s' : ExecutionRunner) : Prop
  | same (h : SameSettings s s')
  | commanded (c : Command) (rest : List Command) (hpc : s.pc = .commands (c :: rest))
      (hl : l = .run) (h : s' = s.command env rest c)
  | exitsBegin (hpc : s.pc = .exits) (hl : l = .run) (h : s' = s.startExits)

variable {env : RunnerEnv} {s s' : ExecutionRunner} {l : Label}

theorem sameSettings_at (pc : RunnerPc) : SameSettings s (s.at' pc) := ⟨rfl, rfl, rfl⟩

theorem afterPause_settings : SameSettings s s.afterPause := by
  unfold afterPause
  split_ifs <;> exact ⟨rfl, rfl, rfl⟩

theorem afterTick_settings : SameSettings s (s.afterTick env) := by
  unfold afterTick
  split_ifs <;> exact ⟨rfl, rfl, rfl⟩

theorem awaitSubmit_settings (intent : OrderIntent) (decision : RiskDecision)
    (reprice : RepriceConfig) (next : RunnerPc) :
    SameSettings s (s.awaitSubmit env intent decision reprice next) := by
  unfold awaitSubmit
  split <;> exact ⟨rfl, rfl, rfl⟩

/-! ## `_manage_active_orders` -/

theorem manageSwept_settings : SameSettings s s.manageSwept := by
  unfold manageSwept
  split_ifs <;> exact ⟨rfl, rfl, rfl⟩

theorem rejectionCancel_settings (rest : List OrderId) :
    SameSettings s (s.rejectionCancel rest) := by
  cases rest with
  | nil => exact ⟨rfl, rfl, rfl⟩
  | cons o rest => simp only [rejectionCancel]; split_ifs <;> exact ⟨rfl, rfl, rfl⟩

theorem timeout_settings (groups : List LegGroup) (rest : List OrderId) :
    SameSettings s (s.timeout groups rest) := by
  cases rest with
  | nil => exact ⟨rfl, rfl, rfl⟩
  | cons o rest => simp only [timeout]; split_ifs <;> exact ⟨rfl, rfl, rfl⟩

theorem leg_settings (openPositions : List Position) (groups : List LegGroup) :
    SameSettings s (s.leg openPositions groups) := by
  cases groups with
  | nil => exact ⟨rfl, rfl, rfl⟩
  | cons group groups => simp only [leg]; split <;> exact ⟨rfl, rfl, rfl⟩

theorem legCancel_settings (failed : OrderId) (group : LegGroup) (groups : List LegGroup)
    (openPositions : List Position) (peers : List OrderId) :
    SameSettings s (s.legCancel failed group groups openPositions peers) := by
  cases peers with
  | nil => exact ⟨rfl, rfl, rfl⟩
  | cons o peers => simp only [legCancel]; split_ifs <;> exact ⟨rfl, rfl, rfl⟩

/-! ## Entries and exits -/

theorem startEntries_settings (stored : List StrategyId) :
    SameSettings s (s.startEntries env stored) := by
  simp only [startEntries, refreshTradedToday]
  split_ifs <;> exact ⟨rfl, rfl, rfl⟩

theorem entry_settings (rest : List StrategyConfig) : SameSettings s (s.entry env rest) := by
  cases rest with
  | nil => exact ⟨rfl, rfl, rfl⟩
  | cons cfg rest => simp only [entry]; split_ifs <;> exact ⟨rfl, rfl, rfl⟩

theorem quoted_settings (cfg : StrategyConfig) (rest : List StrategyConfig)
    (decided : List Decided) (signal : StrategySignal) (pending : List StrategySignal)
    (state : SystemState) (quote : Option QuoteSnapshot) :
    SameSettings s (s.quoted env cfg rest decided signal pending state quote) := by
  cases pending with
  | nil => simp only [quoted, decide]; split_ifs <;> exact ⟨rfl, rfl, rfl⟩
  | cons next pending => exact ⟨rfl, rfl, rfl⟩

theorem submission_settings (cfg : StrategyConfig) (rest : List StrategyConfig)
    (batch : BatchId) (decided : List Decided) :
    SameSettings s (s.submission env cfg rest batch decided) := by
  cases decided with
  | nil => exact ⟨rfl, rfl, rfl⟩
  | cons d decided =>
    simp only [submission]
    split
    · exact sameSettings_at _
    · split_ifs
      · exact awaitSubmit_settings ..
      · exact sameSettings_at _
      · exact sameSettings_at _

theorem exitsCollected_settings (eligible : List ℕ) (quotes : QuoteMap) (bars : BarMap)
    (flagged : List PositionId) :
    SameSettings s (s.exitsCollected env eligible quotes bars flagged) := by
  unfold exitsCollected
  split <;> exact ⟨rfl, rfl, rfl⟩

theorem exitSignal_settings (rest : List ExitSignal) : SameSettings s (s.exitSignal rest) := by
  cases rest with
  | nil => exact ⟨rfl, rfl, rfl⟩
  | cons signal rest => simp only [exitSignal]; split_ifs <;> exact ⟨rfl, rfl, rfl⟩

theorem exitCancel_settings (signal : ExitSignal) (rest : List ExitSignal)
    (orders : List OrderId) : SameSettings s (s.exitCancel env signal rest orders) := by
  cases orders with
  | nil => exact awaitSubmit_settings ..
  | cons o orders => simp only [exitCancel]; split_ifs <;> exact ⟨rfl, rfl, rfl⟩

/-! ## Reconciliation -/

theorem reconciled_settings (report : ReconciliationReport) (site : ReconcileSite) :
    SameSettings s (s.reconciled env report site) := by
  cases site <;> simp only [reconciled] <;> split_ifs <;> exact ⟨rfl, rfl, rfl⟩

theorem reconcileRaised_settings (site : ReconcileSite) :
    SameSettings s (s.reconcileRaised site) := by
  cases site <;> exact ⟨rfl, rfl, rfl⟩

/-! ## All steps -/

/-- **The runner's own blocks.** -/
theorem block_settings {pc : RunnerPc} (hpc : s.pc = pc) (h : s.block env pc = some s') :
    Settings env s .run s' := by
  cases block_cases h with
  | loopTop | commandsEnd | sleepEnds | wakes | returned => exact .same (sameSettings_at _)
  | pauseWait => exact .same afterPause_settings
  | command c rest => exact .commanded c rest hpc rfl rfl
  | manage => exact .same ⟨rfl, rfl, rfl⟩
  | manageSwept => exact .same manageSwept_settings
  | rejectionCancels rest => exact .same (rejectionCancel_settings rest)
  | timeouts rest groups => exact .same (timeout_settings groups rest)
  | legs groups openPositions => exact .same (leg_settings openPositions groups)
  | legCancels failed peers group groups openPositions =>
    exact .same (legCancel_settings failed group groups openPositions peers)
  | entries rest => exact .same (entry_settings rest)
  | submissions cfg rest batch decided => exact .same (submission_settings cfg rest batch decided)
  | exits => exact .exitsBegin hpc rfl rfl
  | exitsCollected => exact .same (exitsCollected_settings ..)
  | exitSignals rest => exact .same (exitSignal_settings rest)
  | exitCancels orders signal rest => exact .same (exitCancel_settings signal rest orders)
  | tickDone => exact .same afterTick_settings

/-- **An answer leaves the settings.** -/
theorem answered_settings {reply : RunnerReply} {pc : RunnerPc}
    (h : s.answered env reply pc = some s') : SameSettings s s' := by
  cases answered_cases h with
  | positions | tickRaised | connected | fetched | fetchRaised | signalled | pollEnds
  | exitsFlagged | snapshotEnds => exact sameSettings_at _
  | reconnected | resumeEnds | disconnected | exitsQuoted => exact ⟨rfl, rfl, rfl⟩
  | openOrders => exact reconciled_settings _ _
  | positionsRaised | ordersRaised => exact reconcileRaised_settings _
  | tradedToday stored => exact startEntries_settings _
  | quoted => exact quoted_settings ..

/-- **Every step leaves the settings, or is a command, or begins the exit
phase.** -/
theorem step_settings (h : s.step env l = some s') : Settings env s l s' := by
  cases l with
  | orders ol =>
    simp only [step, Option.ite_none_right_eq_some, Option.map_eq_some_iff] at h
    obtain ⟨-, om, -, rfl⟩ := h
    exact .same ⟨rfl, rfl, rfl⟩
  | fill fill | stop | pause | resume =>
    simp only [step, Option.ite_none_right_eq_some] at h
    obtain rfl := Option.some.inj h.2
    exact .same ⟨rfl, rfl, rfl⟩
  | reply reply =>
    simp only [step, Option.ite_none_right_eq_some] at h
    exact .same (answered_settings h.2)
  | run =>
    simp only [step, Option.ite_none_right_eq_some] at h
    exact block_settings rfl h.2

/-! ## One setting at a time -/

/-- A command leaves the pauses, or is a pause or its end. -/
theorem command_pausedStrategies (c : Command) (rest : List Command)
    (hc : ∀ sid paused, c ≠ .pauseStrategy sid paused) :
    (s.command env rest c).pausedStrategies = s.pausedStrategies := by
  cases c with
  | pauseStrategy sid paused => exact absurd rfl (hc sid paused)
  | exitPosition p => simp only [command]; split_ifs <;> rfl
  | fireStraddle sid =>
    simp only [command, fireStraddle]
    split
    · rfl
    · split_ifs <;> rfl
  | _ => rfl

/-- **The flatten latch is set by its command only.** -/
theorem command_flattenAllActive (c : Command) (rest : List Command) (hc : c ≠ .flattenAll) :
    (s.command env rest c).flattenAllActive = s.flattenAllActive := by
  cases c with
  | flattenAll => exact absurd rfl hc
  | pauseStrategy sid paused => cases paused <;> rfl
  | exitPosition p => simp only [command]; split_ifs <;> rfl
  | fireStraddle sid =>
    simp only [command, fireStraddle]
    split
    · rfl
    · split_ifs <;> rfl
  | _ => rfl

end ExecutionRunner
