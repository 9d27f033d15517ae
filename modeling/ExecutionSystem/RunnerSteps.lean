import ExecutionSystem.OrderSteps
import ExecutionSystem.RunnerBlocks

/-!
# What a step of the runner can do

As for the order manager, the step function of the runner is taken apart
once. `ExecutionRunner.step_effect` lists what a step can do to the order
manager, to the positions and to the lock; `ExecutionRunner.step_flow`
lists where the runner can go, with what the code has tested on the way.
Nothing proved of the runner looks into its step function again.
-/

namespace ExecutionRunner

/-! ## Locking -/

/-- **The cause of the lock that a step raises**, if it raises one. -/
def raises (s : ExecutionRunner) (l : Label) : Option LockCause :=
  match s.pc, l with
  | .commands (.lockSystem :: _), .run => some .operator
  | .manageSwept, .run =>
    if s.om.brokerRejectedOrderIds.isEmpty then none else some .rejection
  | .tickConnected, .reply (.connected false) => some .disconnect
  | .reconcileOrders _ orders index found, .reply (.openOrders broker) =>
    if (compareOrders found s.om.orders orders index broker).isClean then none
    else some .mismatch
  | _, _ => none

/-- The runner is reconciling for its auto-resume. -/
def resuming (s : ExecutionRunner) : Bool :=
  match s.pc with
  | .reconcileOrders .autoResume .. => true
  | _ => false

/-- The provenance flag after a cause is raised. -/
def flagAfter (s : ExecutionRunner) (cause : LockCause) : Bool :=
  match cause with
  | .disconnect => true
  | _ => s.lockedByDisconnect && !s.resuming

/-! ## The effects -/

/-- The step leaves the orders, which strategies hold positions, and the
lock. -/
structure Keeps (s s' : ExecutionRunner) : Prop where
  orders : s'.om.Holds s.om.orders s.om.tasks s.om.placeCalls
  occupied : ∀ sid, s'.occupied sid = s.occupied sid
  openKeys : s'.pm.openKeys = s.pm.openKeys
  systemLocked : s'.systemLocked = s.systemLocked
  lockedByDisconnect : s'.lockedByDisconnect = s.lockedByDisconnect
  lockCauses : s'.lockCauses = s.lockCauses
  nextBatch : s'.nextBatch = s.nextBatch

/-- The step is one of the order manager, and leaves everything else. -/
structure Lets (s : ExecutionRunner) (ol : OrderManager.Label) (s' : ExecutionRunner) :
    Prop where
  step : s.om.step ol = some s'.om
  pm : s'.pm = s.pm
  systemLocked : s'.systemLocked = s.systemLocked
  lockedByDisconnect : s'.lockedByDisconnect = s.lockedByDisconnect
  lockCauses : s'.lockCauses = s.lockCauses
  nextBatch : s'.nextBatch = s.nextBatch

/-- **What a step can do.** -/
inductive Effect (env : RunnerEnv) (s : ExecutionRunner) (l : Label)
    (s' : ExecutionRunner) : Prop
  | keeps (h : Keeps s s')
  /-- A batch gets its tag. -/
  | batched (cfg : StrategyConfig) (rest : List StrategyConfig) (decided : List Decided)
      (hpc : s'.pc = .submissions cfg rest s.nextBatch decided)
      (h : Keeps { s with nextBatch := s.nextBatch + 1 } s')
  /-- Something in the order manager. -/
  | background (ol : OrderManager.Label) (hl : l = .orders ol)
      (hol : background ol = true) (hpc : s'.pc = s.pc) (h : Lets s ol s')
  /-- `cancel_order` is called. -/
  | cancels (o : OrderId) (hard : Bool) (hl : l = .run) (h : Lets s (.cancel o hard) s')
  /-- The sweep is called. -/
  | sweeps (maxAge : Time) (hl : l = .run)
      (hpc : s'.pc = .awaiting s.om.tasks.length .manageSwept)
      (h : Lets s (.sweep maxAge) s')
  /-- An entry is submitted. -/
  | enters (cfg : StrategyConfig) (rest : List StrategyConfig) (batch : BatchId)
      (d : Decided) (decided : List Decided) (limit : Price)
      (hquantity : 0 < d.decision.allowedQuantity) (hlimit : 0 < limit) (hl : l = .run)
      (hpc : s.pc = .submissions cfg rest batch (d :: decided))
      (h : Lets s (.submit (entryIntent d batch limit hquantity hlimit) d.decision false
        (some (entryReprice env cfg)) env.defaultAlgo) s')
  /-- An exit is submitted. -/
  | leaves (intent : ExitIntent) (hl : l = .run)
      (h : Lets s (.submit intent (exitDecision intent) false (some (exitReprice env))
        env.defaultAlgo) s')
  /-- A fill is handled. -/
  | filled (fill : FillEvent) (hl : l = .fill fill) (h : s' = s.filled env fill)
  /-- The lock is raised. -/
  | raised (cause : LockCause) (hcause : s.raises l = some cause) (hom : s'.om = s.om)
      (hpm : s'.pm = s.pm) (hlocked : s'.systemLocked = true)
      (hflag : s'.lockedByDisconnect = s.flagAfter cause)
      (hcauses : s'.lockCauses = s.lockCauses ++ [cause])
      (hbatch : s'.nextBatch = s.nextBatch)
  /-- The system is unlocked. -/
  | unlocked (site : ReconcileSite) (orders : List OrderId) (index : OrderIndex)
      (found : ReconciliationReport) (broker : List WorkingOrder)
      (hpc : s.pc = .reconcileOrders site orders index found)
      (hl : l = .reply (.openOrders broker))
      (hclean : (compareOrders found s.om.orders orders index broker).isClean = true)
      (hsite : site = .autoResume ∨ ∃ rest, site = .unlockCommand rest)
      (hom : s'.om = s.om) (hpm : s'.pm = s.pm) (hlocked : s'.systemLocked = false)
      (hflag : s'.lockedByDisconnect = false) (hcauses : s'.lockCauses = [])
      (hbatch : s'.nextBatch = s.nextBatch)

section Pieces

variable {env : RunnerEnv} {s s' : ExecutionRunner} {l : Label}

theorem holds_refl (om : OrderManager) : om.Holds om.orders om.tasks om.placeCalls :=
  ⟨rfl, rfl, rfl⟩

/-- A step that assigns to none of these. -/
theorem keeps_of_eq (hom : s'.om = s.om) (hpm : s'.pm = s.pm)
    (hlocked : s'.systemLocked = s.systemLocked)
    (hflag : s'.lockedByDisconnect = s.lockedByDisconnect)
    (hcauses : s'.lockCauses = s.lockCauses) (hbatch : s'.nextBatch = s.nextBatch) :
    Keeps s s' where
  orders := hom ▸ holds_refl _
  occupied sid := by rw [occupied, hpm, occupied]
  openKeys := by rw [hpm]
  systemLocked := hlocked
  lockedByDisconnect := hflag
  lockCauses := hcauses
  nextBatch := hbatch

theorem keeps_at (pc : RunnerPc) : Keeps s (s.at' pc) :=
  keeps_of_eq rfl rfl rfl rfl rfl rfl

/-- A fill leaves the orders. -/
theorem filled_om (fill : FillEvent) : (s.filled env fill).om = s.om := rfl

/-- Exit rules leave everything else of the positions. -/
theorem map_applyExitRules {α : Type} (f : Position → α)
    (hf : ∀ pos stop target timeExit useMid now,
      f (Position.withExitRules stop target timeExit useMid now pos) = f pos)
    (pos : Position) (reference : Time) :
    (s.applyExitRules env pos reference).positions.map f = s.pm.positions.map f := by
  unfold applyExitRules
  split
  · rfl
  · dsimp only
    split_ifs
    · exact PositionManager.map_setExitRules f hf ..
    · rfl

/-- So does a fill, but for what the position manager does with it. -/
theorem map_filled {α : Type} (f : Position → α)
    (hf : ∀ pos stop target timeExit useMid now,
      f (Position.withExitRules stop target timeExit useMid now pos) = f pos)
    (fill : FillEvent) :
    (s.filled env fill).pm.positions.map f
      = (s.pm.handleFill (s.attributed fill)).1.positions.map f := by
  unfold filled
  exact map_applyExitRules f hf ..

theorem lets_cancel (hrun : s.om.running.isNone = true) (o : OrderId) (hard : Bool)
    (next : RunnerPc) : Lets s (.cancel o hard) (s.awaitCancel o hard next) where
  step := by rw [OrderManager.step, if_pos hrun]; rfl
  pm := rfl
  systemLocked := rfl
  lockedByDisconnect := rfl
  lockCauses := rfl
  nextBatch := rfl

theorem lets_sweep (hrun : s.om.running.isNone = true) (next : RunnerPc) :
    Lets s (.sweep 20) (s.awaitSweep next) where
  step := by rw [OrderManager.step, if_pos hrun]; rfl
  pm := rfl
  systemLocked := rfl
  lockedByDisconnect := rfl
  lockCauses := rfl
  nextBatch := rfl

/-- `submit_intent` either raises or is a step of the order manager. -/
theorem lets_submit (hrun : s.om.running.isNone = true) (intent : OrderIntent)
    (decision : RiskDecision) (reprice : RepriceConfig) (next : RunnerPc) :
    Keeps s (s.awaitSubmit env intent decision reprice next)
      ∨ Lets s (.submit intent decision false (some reprice) env.defaultAlgo)
        (s.awaitSubmit env intent decision reprice next) := by
  unfold awaitSubmit
  cases hsub : s.om.submitIntent intent decision false (some reprice)
      env.defaultAlgo with
  | error e => exact .inl (keeps_at next)
  | ok om =>
    refine .inr ⟨?_, rfl, rfl, rfl, rfl, rfl⟩
    rw [OrderManager.step, if_pos hrun, hsub]
    rfl

/-- A mark leaves which strategies hold positions. -/
theorem occupied_marked (quotes : QuoteMap) (now : Time) (sid : StrategyId) :
    occupied { s with pm := s.pm.updatePositionPrices env.floatRepr quotes now } sid
      = s.occupied sid := by
  have hmark : ∀ pos : Position,
      (pos.marked env.floatRepr quotes now).status = pos.status
        ∧ (pos.marked env.floatRepr quotes now).strategyId = pos.strategyId := by
    intro pos
    unfold Position.marked
    split_ifs <;> try split
    all_goals exact ⟨rfl, rfl⟩
  simp only [occupied, PositionManager.getOpenPositions,
    PositionManager.updatePositionPrices, List.any_filter, List.any_map,
    Function.comp_def, hmark]

/-- … and of what they are. -/
theorem openKeys_marked (quotes : QuoteMap) (now : Time) :
    (s.pm.updatePositionPrices env.floatRepr quotes now).openKeys = s.pm.openKeys := by
  have hmark : ∀ pos : Position,
      (pos.marked env.floatRepr quotes now).status = pos.status
        ∧ (pos.marked env.floatRepr quotes now).key = pos.key := by
    intro pos
    unfold Position.marked
    split_ifs <;> try split
    all_goals exact ⟨rfl, rfl⟩
  simp only [PositionManager.openKeys, PositionManager.getOpenPositions,
    PositionManager.updatePositionPrices, List.filter_map, List.map_map, Function.comp_def,
    hmark]

/-- Going on somewhere else changes nothing. -/
theorem Effect.at (pc : RunnerPc) : Effect env s l (s.at' pc) := .keeps (keeps_at pc)

theorem awaitCancel_effect (hrun : s.om.running.isNone = true) (o : OrderId) (hard : Bool)
    (next : RunnerPc) : Effect env s .run (s.awaitCancel o hard next) :=
  .cancels o hard rfl (lets_cancel hrun o hard next)

theorem afterPause_effect : Effect env s l s.afterPause := by
  unfold afterPause
  split_ifs
  · exact .at _
  · exact .at _
  · exact .keeps (keeps_of_eq rfl rfl rfl rfl rfl rfl)

theorem afterTick_effect : Effect env s l (s.afterTick env) := by
  unfold afterTick
  split_ifs <;> exact .at _

theorem fireStraddle_effect (sid : StrategyId) (next : RunnerPc) :
    Effect env s l ((s.fireStraddle env sid).at' next) := by
  unfold fireStraddle
  split
  · exact .at _
  · split_ifs
    · exact .keeps (keeps_of_eq rfl rfl rfl rfl rfl rfl)
    · exact .at _

/-- What a command does. -/
theorem command_effect (hrun : s.om.running.isNone = true) {c : Command} {rest : List Command}
    (hpc : s.pc = .commands (c :: rest)) : Effect env s .run (s.command env rest c) := by
  cases c with
  | exitPosition p =>
    simp only [command]
    split_ifs
    · exact .keeps (keeps_of_eq rfl rfl rfl rfl rfl rfl)
    · exact .at _
  | cancelOrder o => exact awaitCancel_effect hrun _ _ _
  | pauseStrategy sid paused =>
    cases paused <;> exact .keeps (keeps_of_eq rfl rfl rfl rfl rfl rfl)
  | fireStraddle sid => exact fireStraddle_effect _ _
  | flattenAll | updateStrategy sid changes =>
    exact .keeps (keeps_of_eq rfl rfl rfl rfl rfl rfl)
  | unlockSystem | stopRunner | unknown => exact .at _
  | lockSystem =>
    exact .raised .operator (by simp [raises, hpc]) rfl rfl rfl
      (by simp [flagAfter, resuming, hpc, command, lock, at']) rfl rfl

/-! ### `_manage_active_orders`, block by block -/

theorem manageSwept_effect (hpc : s.pc = .manageSwept) : Effect env s .run s.manageSwept := by
  unfold manageSwept
  split_ifs with hrejected
  · exact .at _
  · exact .raised .rejection (by simp [raises, hpc, hrejected]) rfl rfl rfl
      (by simp [flagAfter, resuming, hpc, lock, at']) rfl rfl

theorem rejectionCancel_effect (hrun : s.om.running.isNone = true) (rest : List OrderId) :
    Effect env s .run (s.rejectionCancel rest) := by
  cases rest with
  | nil => exact .keeps ⟨⟨rfl, rfl, rfl⟩, fun _ => rfl, rfl, rfl, rfl, rfl, rfl⟩
  | cons o rest =>
    simp only [rejectionCancel]
    split_ifs
    · exact awaitCancel_effect hrun _ _ _
    · exact .at _

theorem timeout_effect (hrun : s.om.running.isNone = true) (groups : List LegGroup)
    (rest : List OrderId) : Effect env s .run (s.timeout groups rest) := by
  cases rest with
  | nil => exact .at _
  | cons o rest =>
    simp only [timeout]
    split_ifs
    · exact awaitCancel_effect hrun _ _ _
    · exact .at _

theorem leg_effect (openPositions : List Position) (groups : List LegGroup) :
    Effect env s l (s.leg openPositions groups) := by
  cases groups with
  | nil => exact .at _
  | cons group groups =>
    simp only [leg]
    split <;> exact .at _

theorem legCancel_effect (hrun : s.om.running.isNone = true) (failed : OrderId)
    (group : LegGroup) (groups : List LegGroup) (openPositions : List Position)
    (peers : List OrderId) :
    Effect env s .run (s.legCancel failed group groups openPositions peers) := by
  cases peers with
  | nil => exact .keeps (keeps_of_eq rfl rfl rfl rfl rfl rfl)
  | cons o peers =>
    simp only [legCancel]
    split_ifs
    · exact awaitCancel_effect hrun _ _ _
    · exact .at _

/-! ### Entries and exits -/

theorem entry_effect (rest : List StrategyConfig) : Effect env s l (s.entry env rest) := by
  cases rest with
  | nil => exact .at _
  | cons cfg rest =>
    simp only [entry]
    split_ifs
    · exact .at _
    all_goals exact .keeps (keeps_of_eq rfl rfl rfl rfl rfl rfl)

/-- A leg is submitted, or nothing happens. -/
theorem submission_effect (hrun : s.om.running.isNone = true) {cfg : StrategyConfig}
    {rest : List StrategyConfig} {batch : BatchId} {decided : List Decided}
    (hpc : s.pc = .submissions cfg rest batch decided) :
    Effect env s .run (s.submission env cfg rest batch decided) := by
  cases decided with
  | nil => exact .at _
  | cons d decided =>
    simp only [submission]
    split
    · exact .at _
    · split_ifs with hlimit hquantity
      · rcases @lets_submit env s hrun
          (entryIntent d batch _ hquantity hlimit) d.decision (entryReprice env cfg)
          (.submissions cfg rest batch decided) with hkeeps | hlets
        · exact .keeps hkeeps
        · exact .enters cfg rest batch d decided _ hquantity hlimit rfl hpc hlets
      · exact .at _
      · exact .at _

theorem startExits_effect : Effect env s l s.startExits := by
  unfold startExits
  dsimp only
  split_ifs
  all_goals exact .keeps (keeps_of_eq rfl rfl rfl rfl rfl rfl)

theorem exitsCollected_effect (eligible : List ℕ) (quotes : QuoteMap) (bars : BarMap)
    (flagged : List PositionId) :
    Effect env s l (s.exitsCollected env eligible quotes bars flagged) := by
  unfold exitsCollected
  split <;> exact .at _

theorem exitSignal_effect (rest : List ExitSignal) : Effect env s l (s.exitSignal rest) := by
  cases rest with
  | nil => exact .at _
  | cons signal rest =>
    simp only [exitSignal]
    split_ifs
    · exact .at _
    · exact .keeps (keeps_of_eq rfl rfl rfl rfl rfl rfl)

/-- An opposite order is cancelled, and after the last the exit submitted. -/
theorem exitCancel_effect (hrun : s.om.running.isNone = true) (signal : ExitSignal)
    (rest : List ExitSignal) (orders : List OrderId) :
    Effect env s .run (s.exitCancel env signal rest orders) := by
  cases orders with
  | nil =>
    rcases @lets_submit env s hrun signal.2.1 (exitDecision signal.2.1)
      (exitReprice env) (.exitSignals rest) with hkeeps | hlets
    · exact .keeps hkeeps
    · exact .leaves signal.2.1 rfl hlets
  | cons o orders =>
    simp only [exitCancel]
    split_ifs
    · exact awaitCancel_effect hrun _ _ _
    · exact .at _

/-! ### All blocks and all answers -/

/-- **What the runner's own blocks do.** -/
theorem block_effect (hrun : s.om.running.isNone = true) {pc : RunnerPc}
    (hpc : s.pc = pc) (h : s.block env pc = some s') : Effect env s .run s' := by
  cases block_cases h with
  | loopTop | commandsEnd | sleepEnds | wakes | returned => exact .at _
  | pauseWait => exact afterPause_effect
  | command c rest => exact command_effect hrun hpc
  | manage => exact .sweeps 20 rfl rfl (lets_sweep hrun _)
  | manageSwept => exact manageSwept_effect hpc
  | rejectionCancels rest => exact rejectionCancel_effect hrun _
  | timeouts rest groups => exact timeout_effect hrun _ _
  | legs groups openPositions => exact leg_effect _ _
  | legCancels failed peers group groups openPositions => exact legCancel_effect hrun _ _ _ _ _
  | entries rest => exact entry_effect _
  | submissions cfg rest batch decided => exact submission_effect hrun hpc
  | exits => exact startExits_effect
  | exitsCollected eligible quotes bars flagged => exact exitsCollected_effect _ _ _ _
  | exitSignals rest => exact exitSignal_effect _
  | exitCancels orders signal rest => exact exitCancel_effect hrun _ _ _
  | tickDone => exact afterTick_effect

/-- What a finished reconciliation does. -/
theorem reconciled_effect {site : ReconcileSite} {orders : List OrderId}
    {index : OrderIndex} {found : ReconciliationReport} {broker : List WorkingOrder}
    (hpc : s.pc = .reconcileOrders site orders index found) :
    Effect env s (.reply (.openOrders broker))
      (s.reconciled env (compareOrders found s.om.orders orders index broker) site) := by
  have hcause : (compareOrders found s.om.orders orders index broker).isClean = false →
      s.raises (.reply (.openOrders broker)) = some .mismatch := by
    intro h
    simp [raises, hpc, h]
  cases site with
  | periodic =>
    simp only [reconciled]
    split_ifs with hclean
    · exact .keeps (keeps_of_eq rfl rfl rfl rfl rfl rfl)
    · exact .raised .mismatch (hcause (Bool.not_eq_true _ ▸ hclean)) rfl rfl rfl
        (by simp [flagAfter, resuming, hpc, sleep, lock, at']) rfl rfl
  | autoResume =>
    simp only [reconciled]
    split_ifs with hclean
    · exact .unlocked _ orders index found broker hpc rfl hclean (.inl rfl) rfl rfl rfl rfl
        rfl rfl
    · exact .raised .mismatch (hcause (Bool.not_eq_true _ ▸ hclean)) rfl rfl rfl
        (by simp [flagAfter, resuming, hpc, beginTick]) rfl rfl
  | unlockCommand rest =>
    simp only [reconciled]
    split_ifs with hclean
    · exact .unlocked _ orders index found broker hpc rfl hclean (.inr ⟨rest, rfl⟩) rfl rfl
        rfl rfl rfl rfl
    · exact .raised .mismatch (hcause (Bool.not_eq_true _ ▸ hclean)) rfl rfl rfl
        (by simp [flagAfter, resuming, hpc, lock, at']) rfl rfl

theorem reconcileRaised_effect (site : ReconcileSite) :
    Effect env s l (s.reconcileRaised site) := by
  cases site with
  | autoResume => exact .keeps (keeps_of_eq rfl rfl rfl rfl rfl rfl)
  | periodic | unlockCommand rest => exact .at _

theorem startEntries_effect (stored : List StrategyId) :
    Effect env s l (s.startEntries env stored) := by
  simp only [startEntries, refreshTradedToday]
  split_ifs <;> exact .keeps (keeps_of_eq rfl rfl rfl rfl rfl rfl)

/-- After the last signal of a batch its tag is drawn, if all were approved. -/
theorem quoted_effect (cfg : StrategyConfig) (rest : List StrategyConfig)
    (decided : List Decided) (signal : StrategySignal) (pending : List StrategySignal)
    (state : SystemState) (quote : Option QuoteSnapshot) :
    Effect env s l (s.quoted env cfg rest decided signal pending state quote) := by
  cases pending with
  | nil =>
    simp only [quoted, decide]
    split_ifs
    · exact .batched _ _ _ rfl (keeps_of_eq rfl rfl rfl rfl rfl rfl)
    · exact .keeps (keeps_of_eq rfl rfl rfl rfl rfl rfl)
  | cons next pending => exact .at _

/-- **What an answer does.** -/
theorem answered_effect {reply : RunnerReply} {pc : RunnerPc} (hpc : s.pc = pc)
    (h : s.answered env reply pc = some s') : Effect env s (.reply reply) s' := by
  cases answered_cases h with
  | reconnected | positions | connected | tickRaised | fetched | fetchRaised | signalled
  | pollEnds | exitsFlagged | snapshotEnds => exact .at _
  | resumeEnds => exact .keeps (keeps_of_eq rfl rfl rfl rfl rfl rfl)
  | openOrders => exact reconciled_effect hpc
  | positionsRaised | ordersRaised => exact reconcileRaised_effect _
  | disconnected => exact .raised .disconnect (by simp [raises, hpc]) rfl rfl rfl rfl rfl rfl
  | tradedToday stored => exact startEntries_effect _
  | quoted => exact quoted_effect ..
  | exitsQuoted eligible quotes bars =>
    exact .keeps ⟨holds_refl _, occupied_marked quotes _, openKeys_marked quotes _, rfl, rfl,
      rfl, rfl⟩

/-- **Every step is one of the effects.** -/
theorem step_effect (h : s.step env l = some s') : Effect env s l s' := by
  cases l with
  | orders ol =>
    simp only [step, Option.ite_none_right_eq_some, Option.map_eq_some_iff] at h
    obtain ⟨⟨hol, -⟩, om, hom, rfl⟩ := h
    exact .background ol rfl hol rfl ⟨hom, rfl, rfl, rfl, rfl, rfl⟩
  | fill fill =>
    simp only [step, Option.ite_none_right_eq_some] at h
    exact .filled fill rfl (Option.some.inj h.2).symm
  | stop | pause | resume =>
    simp only [step, Option.ite_none_right_eq_some] at h
    obtain rfl := Option.some.inj h.2
    exact .keeps (keeps_of_eq rfl rfl rfl rfl rfl rfl)
  | reply reply =>
    simp only [step, Option.ite_none_right_eq_some] at h
    exact answered_effect rfl h.2
  | run =>
    simp only [step, Option.ite_none_right_eq_some] at h
    exact block_effect h.1 rfl h.2

end Pieces

end ExecutionRunner

/-! ## Where the runner can go -/

namespace RunnerPc

/-- The reconciliation that awaits the broker. -/
def reconciling : RunnerPc → Option ReconcileSite
  | reconcilePositions site .. | reconcileOrders site .. => some site
  | _ => none

/-- `_manage_active_orders`. -/
def managing : RunnerPc → Bool
  | manage | manageSwept | rejectionCancels _ | timeouts .. | legs .. | legCancels .. => true
  | _ => false

/-- `_check_exits`. -/
def exiting : RunnerPc → Bool
  | exits | exitQuotes _ | exitCollect .. | exitSignals _ | exitCancels .. => true
  | _ => false

end RunnerPc

namespace ExecutionRunner

/-- **Where a block of the runner can lead**, with what it has tested. -/
inductive Flow (env : RunnerEnv) (s : ExecutionRunner) (l : Label)
    (s' : ExecutionRunner) : RunnerPc → RunnerPc → Prop
  -- the main loop
  | loopEnds (hstop : s.stopRequested = true) : Flow env s l s' .loopTop .exited
  | loopGoesOn : Flow env s l s' .loopTop .pauseWait
  | pauseEnds (hstop : s.stopRequested = true) : Flow env s l s' .pauseWait .exited
  | resumes (hlocked : s.systemLocked = true) (hflag : s.lockedByDisconnect = true) :
      Flow env s l s' .pauseWait .resumeConnected
  | ticks (hfree : (s.systemLocked && s.lockedByDisconnect) = false) :
      Flow env s l s' .pauseWait .tickConnected
  | reconcileDue {orders internal} : Flow env s l s' .tickDone
      (.reconcilePositions .periodic orders internal)
  | sleeps {wakeAt} : Flow env s l s' .tickDone (.sleeping wakeAt)
  | wakes {wakeAt} : Flow env s l s' (.sleeping wakeAt) .loopTop
  | sleepEnds {wakeAt} (hstop : s.stopRequested = true) :
      Flow env s l s' (.sleeping wakeAt) .exited
  | returned {t next result} (ht : s.om.tasks[t]? = some (.done result)) :
      Flow env s l s' (.awaiting t next) next
  -- reconciliation
  | reconnected {orders internal} : Flow env s l s' .resumeConnected
      (.reconcilePositions .autoResume orders internal)
  | resumeEnds : Flow env s l s' .resumeConnected .tickConnected
  | reconcileAsks {site orders internal index found} :
      Flow env s l s' (.reconcilePositions site orders internal)
        (.reconcileOrders site orders index found)
  | reconcileCrashes {pc} (hpc : pc.reconciling = some .periodic)
      (hl : l = .reply .raised) : Flow env s l s' pc .crashed
  | periodicEnds {orders index found wakeAt} :
      Flow env s l s' (.reconcileOrders .periodic orders index found) (.sleeping wakeAt)
  | resumeReconciled {pc} (hpc : pc.reconciling = some .autoResume) :
      Flow env s l s' pc .tickConnected
  | unlockReconciled {pc rest} (hpc : pc.reconciling = some (.unlockCommand rest)) :
      Flow env s l s' pc (.commands rest)
  -- commands
  | connected : Flow env s l s' .tickConnected .fetchCommands
  | tickFails : Flow env s l s' .tickConnected .tickDone
  | fetched {pending} : Flow env s l s' .fetchCommands (.commands pending)
  | fetchFails : Flow env s l s' .fetchCommands .manage
  | commandsEnd : Flow env s l s' (.commands []) .manage
  | commanded {c rest} : Flow env s l s' (.commands (c :: rest)) (.commands rest)
  | commandCancels {c rest} : Flow env s l s' (.commands (c :: rest))
      (.awaiting s.om.tasks.length (.commands rest))
  | commandUnlocks {c rest orders internal} : Flow env s l s' (.commands (c :: rest))
      (.reconcilePositions (.unlockCommand rest) orders internal)
  -- active orders
  | managed {pc pc'} (hpc : pc.managing = true) (hpc' : pc'.managing = true) :
      Flow env s l s' pc pc'
  | manageAwaits {pc pc'} (hpc : pc.managing = true) (hpc' : pc'.managing = true) :
      Flow env s l s' pc (.awaiting s.om.tasks.length pc')
  | manageEnds {pc} (hpc : pc.managing = true) : Flow env s l s' pc .entryStart
  -- entries
  | entriesSkipped : Flow env s l s' .entryStart .exits
  | entriesStart {rest} (hfree : s.systemLocked = false) :
      Flow env s l s' .entryStart (.entries rest)
  | entriesEnd : Flow env s l s' (.entries []) .exits
  | entrySkipped {cfg rest} : Flow env s l s' (.entries (cfg :: rest)) (.entries rest)
  | polls {cfg rest manual}
      (hgate : (!cfg.enabled || s.pausedStrategies.contains cfg.strategyId) = false)
      (hadmits : s.admits env cfg = true) :
      Flow env s l s' (.entries (cfg :: rest)) (.pollAwait cfg manual rest)
  | pollEnds {cfg manual rest} : Flow env s l s' (.pollAwait cfg manual rest)
      (.entries rest)
  | signalled {cfg manual rest signal pending state}
      (hl : l = .reply (.signals (signal :: pending))) :
      Flow env s l s' (.pollAwait cfg manual rest)
        (.quoteAwait cfg rest [] signal pending state)
  | judged {cfg rest decided signal next pending state state'} (d : Decided)
      (hd : d.signal = signal) :
      Flow env s l s' (.quoteAwait cfg rest decided signal (next :: pending) state)
        (.quoteAwait cfg rest (decided ++ [d]) next pending state')
  | batched {cfg rest decided signal state} (d : Decided) (hd : d.signal = signal)
      (hbatch : s'.nextBatch = s.nextBatch + 1) :
      Flow env s l s' (.quoteAwait cfg rest decided signal [] state)
        (.submissions cfg rest s.nextBatch (decided ++ [d]))
  | batchRejected {cfg rest decided signal state} :
      Flow env s l s' (.quoteAwait cfg rest decided signal [] state) (.entries rest)
  | submissionsEnd {cfg rest batch} :
      Flow env s l s' (.submissions cfg rest batch []) (.entries rest)
  | submissionSkipped {cfg rest batch d decided} :
      Flow env s l s' (.submissions cfg rest batch (d :: decided))
        (.submissions cfg rest batch decided)
  | submits {cfg rest batch d decided} :
      Flow env s l s' (.submissions cfg rest batch (d :: decided))
        (.awaiting s.om.tasks.length (.submissions cfg rest batch decided))
  | submissionFails {cfg rest batch d decided} :
      Flow env s l s' (.submissions cfg rest batch (d :: decided)) .tickDone
  -- exits
  | exitsGoOn {pc pc'} (hpc : pc.exiting = true) (hpc' : pc'.exiting = true) :
      Flow env s l s' pc pc'
  | exitAwaits {pc pc'} (hpc : pc.exiting = true) (hpc' : pc'.exiting = true) :
      Flow env s l s' pc (.awaiting s.om.tasks.length pc')
  | exitsEnd {pc} (hpc : pc.exiting = true) : Flow env s l s' pc .snapshot
  | snapshotEnds : Flow env s l s' .snapshot .tickDone

section Flows

variable {env : RunnerEnv} {s s' : ExecutionRunner} {l : Label}

/-- Where a submission leads. -/
theorem awaitSubmit_pc (intent : OrderIntent) (decision : RiskDecision)
    (reprice : RepriceConfig) (next : RunnerPc) :
    (s.awaitSubmit env intent decision reprice next).pc = next
      ∨ (s.awaitSubmit env intent decision reprice next).pc
        = .awaiting s.om.tasks.length next := by
  unfold awaitSubmit
  split
  · exact .inr rfl
  · exact .inl rfl

theorem afterPause_flow : Flow env s l s' .pauseWait s.afterPause.pc := by
  unfold afterPause
  split_ifs with hstop hlocked
  · exact .pauseEnds hstop
  · obtain ⟨hlocked, hflag⟩ := Bool.and_eq_true_iff.mp hlocked
    exact .resumes hlocked hflag
  · exact .ticks (Bool.not_eq_true _ ▸ hlocked)

theorem afterTick_flow : Flow env s l s' .tickDone (s.afterTick env).pc := by
  unfold afterTick
  split_ifs
  · exact .reconcileDue
  · exact .sleeps

/-- Where a command leads. -/
theorem command_flow (c : Command) (rest : List Command) :
    Flow env s l s' (.commands (c :: rest)) (s.command env rest c).pc := by
  cases c with
  | exitPosition p =>
    simp only [command]
    split_ifs <;> exact .commanded
  | cancelOrder o => exact .commandCancels
  | pauseStrategy sid paused => cases paused <;> exact .commanded
  | unlockSystem => exact .commandUnlocks
  | _ => exact .commanded

/-! ### Within `_manage_active_orders` -/

theorem manageSwept_flow : Flow env s l s' .manageSwept s.manageSwept.pc := by
  unfold manageSwept
  split_ifs <;> exact .managed rfl rfl

theorem rejectionCancel_flow (rest : List OrderId) :
    Flow env s l s' (.rejectionCancels rest) (s.rejectionCancel rest).pc := by
  cases rest with
  | nil => exact .manageEnds rfl
  | cons o rest =>
    simp only [rejectionCancel]
    split_ifs
    · exact .manageAwaits rfl rfl
    · exact .managed rfl rfl

theorem timeout_flow (groups : List LegGroup) (rest : List OrderId) :
    Flow env s l s' (.timeouts rest groups) (s.timeout groups rest).pc := by
  cases rest with
  | nil => exact .managed rfl rfl
  | cons o rest =>
    simp only [timeout]
    split_ifs
    · exact .manageAwaits rfl rfl
    · exact .managed rfl rfl

theorem leg_flow (openPositions : List Position) (groups : List LegGroup) :
    Flow env s l s' (.legs groups openPositions) (s.leg openPositions groups).pc := by
  cases groups with
  | nil => exact .manageEnds rfl
  | cons group groups =>
    simp only [leg]
    split <;> exact .managed rfl rfl

theorem legCancel_flow (failed : OrderId) (group : LegGroup) (groups : List LegGroup)
    (openPositions : List Position) (peers : List OrderId) :
    Flow env s l s' (.legCancels failed peers group groups openPositions)
      (s.legCancel failed group groups openPositions peers).pc := by
  cases peers with
  | nil => exact .managed rfl rfl
  | cons o peers =>
    simp only [legCancel]
    split_ifs
    · exact .manageAwaits rfl rfl
    · exact .managed rfl rfl

/-! ### Within the entry phase, and within `_check_exits` -/

theorem entry_flow (rest : List StrategyConfig) :
    Flow env s l s' (.entries rest) (s.entry env rest).pc := by
  cases rest with
  | nil => exact .entriesEnd
  | cons cfg rest =>
    simp only [entry]
    split_ifs with hgate hadmits
    · exact .entrySkipped
    · exact .polls (Bool.not_eq_true _ ▸ hgate) hadmits
    · exact .entrySkipped

theorem submission_flow (cfg : StrategyConfig) (rest : List StrategyConfig) (batch : BatchId)
    (decided : List Decided) :
    Flow env s l s' (.submissions cfg rest batch decided)
      (s.submission env cfg rest batch decided).pc := by
  cases decided with
  | nil => exact .submissionsEnd
  | cons d decided =>
    simp only [submission]
    split
    · exact .submissionSkipped
    · split_ifs with hlimit hquantity
      · rcases @awaitSubmit_pc env s
          (entryIntent d batch _ hquantity hlimit) d.decision (entryReprice env cfg)
          (.submissions cfg rest batch decided) with hpc | hpc <;> rw [hpc]
        · exact .submissionSkipped
        · exact .submits
      · exact .submissionFails
      · exact .submissionSkipped

theorem startExits_flow : Flow env s l s' .exits s.startExits.pc := by
  unfold startExits
  dsimp only
  split_ifs
  · exact .exitsEnd rfl
  · exact .exitsEnd rfl
  · exact .exitsGoOn rfl rfl

theorem exitsCollected_flow (eligible : List ℕ) (quotes : QuoteMap) (bars : BarMap)
    (flagged : List PositionId) :
    Flow env s l s' (.exitCollect [] eligible quotes bars flagged)
      (s.exitsCollected env eligible quotes bars flagged).pc := by
  unfold exitsCollected
  split
  · exact .exitsGoOn rfl rfl
  · exact .exitsEnd rfl

theorem exitSignal_flow (rest : List ExitSignal) :
    Flow env s l s' (.exitSignals rest) (s.exitSignal rest).pc := by
  cases rest with
  | nil => exact .exitsEnd rfl
  | cons signal rest =>
    simp only [exitSignal]
    split_ifs <;> exact .exitsGoOn rfl rfl

theorem exitCancel_flow (signal : ExitSignal) (rest : List ExitSignal)
    (orders : List OrderId) :
    Flow env s l s' (.exitCancels orders signal rest)
      (s.exitCancel env signal rest orders).pc := by
  cases orders with
  | nil =>
    simp only [exitCancel]
    rcases @awaitSubmit_pc env s signal.2.1 (exitDecision signal.2.1)
      (exitReprice env) (.exitSignals rest) with hpc | hpc <;> rw [hpc]
    · exact .exitsGoOn rfl rfl
    · exact .exitAwaits rfl rfl
  | cons o orders =>
    simp only [exitCancel]
    split_ifs
    · exact .exitAwaits rfl rfl
    · exact .exitsGoOn rfl rfl

/-! ### From every block and every answer -/

/-- **Where the runner's own blocks lead.** -/
theorem block_flow {pc : RunnerPc} (h : s.block env pc = some s') :
    Flow env s l s' pc s'.pc := by
  cases block_cases h with
  | loopTop =>
    simp only [at']
    split_ifs with hstop
    · exact .loopEnds hstop
    · exact .loopGoesOn
  | pauseWait => exact afterPause_flow
  | commandsEnd => exact .commandsEnd
  | command c rest => exact command_flow c rest
  | manage => exact .manageAwaits rfl rfl
  | manageSwept => exact manageSwept_flow
  | rejectionCancels rest => exact rejectionCancel_flow rest
  | timeouts rest groups => exact timeout_flow groups rest
  | legs groups openPositions => exact leg_flow openPositions groups
  | legCancels failed peers group groups openPositions =>
    exact legCancel_flow failed group groups openPositions peers
  | entries rest => exact entry_flow rest
  | submissions cfg rest batch decided => exact submission_flow cfg rest batch decided
  | exits => exact startExits_flow
  | exitsCollected eligible quotes bars flagged => exact exitsCollected_flow _ _ _ _
  | exitSignals rest => exact exitSignal_flow rest
  | exitCancels orders signal rest => exact exitCancel_flow signal rest orders
  | tickDone => exact afterTick_flow
  | sleepEnds wakeAt hstop => exact .sleepEnds hstop
  | wakes => exact .wakes
  | returned t next ht => exact .returned ht

/-- Where a broker query that raises leads. -/
theorem reconcileRaised_flow {pc : RunnerPc} {site : ReconcileSite}
    (hpc : pc.reconciling = some site) (hl : l = .reply .raised) :
    Flow env s l (s.reconcileRaised site) pc (s.reconcileRaised site).pc := by
  cases site with
  | periodic => exact .reconcileCrashes hpc hl
  | autoResume => exact .resumeReconciled hpc
  | unlockCommand rest => exact .unlockReconciled hpc

theorem reconciled_flow (site : ReconcileSite) (orders : List OrderId) (index : OrderIndex)
    (found report : ReconciliationReport) :
    Flow env s l s' (.reconcileOrders site orders index found)
      (s.reconciled env report site).pc := by
  cases site with
  | periodic => simp only [reconciled]; split_ifs <;> exact .periodicEnds
  | autoResume => simp only [reconciled]; split_ifs <;> exact .resumeReconciled rfl
  | unlockCommand rest => simp only [reconciled]; split_ifs <;> exact .unlockReconciled rfl

theorem startEntries_flow (stored : List StrategyId) :
    Flow env s l s' .entryStart (s.startEntries env stored).pc := by
  simp only [startEntries, refreshTradedToday]
  split_ifs with _ hlocked hlocked
  · exact .entriesSkipped
  · exact .entriesStart (Bool.not_eq_true _ ▸ hlocked)
  · exact .entriesSkipped
  · exact .entriesStart (Bool.not_eq_true _ ▸ hlocked)

theorem quoted_flow (cfg : StrategyConfig) (rest : List StrategyConfig)
    (decided : List Decided) (signal : StrategySignal) (pending : List StrategySignal)
    (state : SystemState) (quote : Option QuoteSnapshot) :
    Flow env s l (s.quoted env cfg rest decided signal pending state quote)
      (.quoteAwait cfg rest decided signal pending state)
      (s.quoted env cfg rest decided signal pending state quote).pc := by
  cases pending with
  | nil =>
    simp only [quoted, decide]
    split_ifs
    · exact .batched _ rfl rfl
    · exact .batchRejected
  | cons next pending => exact .judged _ rfl

/-- **Where an answer leads.** -/
theorem answered_flow {reply : RunnerReply} {pc : RunnerPc} (hl : l = .reply reply)
    (h : s.answered env reply pc = some s') : Flow env s l s' pc s'.pc := by
  cases answered_cases h with
  | reconnected => exact .reconnected
  | resumeEnds => exact .resumeEnds
  | positions => exact .reconcileAsks
  | openOrders => exact reconciled_flow ..
  | positionsRaised | ordersRaised => exact reconcileRaised_flow rfl hl
  | connected => exact .connected
  | disconnected | tickRaised => exact .tickFails
  | fetched => exact .fetched
  | fetchRaised => exact .fetchFails
  | tradedToday stored => exact startEntries_flow _
  | signalled => exact .signalled hl
  | pollEnds => exact .pollEnds
  | quoted => exact quoted_flow ..
  | exitsQuoted | exitsFlagged => exact .exitsGoOn rfl rfl
  | snapshotEnds => exact .snapshotEnds

/-- The label is a block of the runner's own. -/
def Label.ofRunner : Label → Bool
  | .reply _ | .run => true
  | _ => false

/-- **The runner stays where it stands, or follows the flow.** -/
theorem step_flow (h : s.step env l = some s') :
    l.ofRunner = false ∧ s'.pc = s.pc
      ∨ l.ofRunner = true ∧ Flow env s l s' s.pc s'.pc := by
  cases l with
  | orders ol =>
    simp only [step, Option.ite_none_right_eq_some, Option.map_eq_some_iff] at h
    obtain ⟨-, om, -, rfl⟩ := h
    exact .inl ⟨rfl, rfl⟩
  | fill fill | stop | pause | resume =>
    simp only [step, Option.ite_none_right_eq_some] at h
    obtain rfl := Option.some.inj h.2
    exact .inl ⟨rfl, rfl⟩
  | reply reply =>
    simp only [step, Option.ite_none_right_eq_some] at h
    exact .inr ⟨rfl, answered_flow rfl h.2⟩
  | run =>
    simp only [step, Option.ite_none_right_eq_some] at h
    exact .inr ⟨rfl, block_flow h.2⟩

end Flows

end ExecutionRunner

/-! ## What is awaited -/

/-- The runner awaits a coroutine only to go on with the commands, the
active orders, the submissions or the exits. -/
def RunnerPc.wellFormed : RunnerPc → Bool
  | awaiting _ (commands _) | awaiting _ (submissions ..) => true
  | awaiting _ next => next.managing || next.exiting
  | _ => true

namespace ExecutionRunner

variable {env : RunnerEnv} {s s' : ExecutionRunner} {l : Label}

theorem wellFormed_awaiting {t : TaskId} {pc : RunnerPc}
    (hpc : pc.managing = true ∨ pc.exiting = true) :
    (RunnerPc.awaiting t pc).wellFormed = true := by
  cases pc <;> simp_all [RunnerPc.wellFormed]

theorem Flow.wellFormed {pc pc' : RunnerPc} (h : Flow env s l s' pc pc')
    (hpc : pc.wellFormed = true) : pc'.wellFormed = true := by
  cases h with
  | managed _ hpc' => cases pc' <;> first | rfl | cases hpc'
  | exitsGoOn _ hpc' => cases pc' <;> first | rfl | cases hpc'
  | manageAwaits _ hpc' => exact wellFormed_awaiting (.inl hpc')
  | exitAwaits _ hpc' => exact wellFormed_awaiting (.inr hpc')
  | returned ht => cases pc' <;> first | rfl | cases hpc
  | _ => rfl

theorem wellFormed_step (h : s.step env l = some s') (hpc : s.pc.wellFormed = true) :
    s'.pc.wellFormed = true := by
  rcases step_flow h with ⟨-, hpc'⟩ | ⟨-, hflow⟩
  · exact hpc' ▸ hpc
  · exact hflow.wellFormed hpc

end ExecutionRunner

/-! ## The calls of `place_order` -/

namespace ExecutionRunner

/-- The calls of `broker.place_order` that the step starts. -/
def newCalls (s s' : ExecutionRunner) : List PlaceCall :=
  s'.om.placeCalls.drop s.om.placeCalls.length

/-- **Where a call of `place_order` comes from**, with the order it is
for. -/
inductive NewCall (env : RunnerEnv) (s : ExecutionRunner) (l : Label)
    (s' : ExecutionRunner) : PlaceCall → Prop
  /-- The tick submits an entry. -/
  | entered (cfg : StrategyConfig) (rest : List StrategyConfig) (batch : BatchId)
      (d : Decided) (decided : List Decided) (intent : OrderIntent) (plan : OrderPlan)
      (hl : l = .run) (hpc : s.pc = .submissions cfg rest batch (d :: decided))
      (hstrategy : intent.strategyId = d.signal.strategyId)
      (hbatch : intent.entryBatch = some batch) (hentry : plan.isEntry = true)
      (hplan : plan.strategyId = intent.strategyId)
      (horders : s'.om.orders = s.om.orders
        ++ [OrderManager.orderOf intent plan s.om.clock]) :
      NewCall env s l s' ⟨s.om.orders.length, plan, none⟩
  /-- The exit check submits an exit. -/
  | left (plan : OrderPlan) (hentry : plan.isEntry = false) :
      NewCall env s l s' ⟨s.om.orders.length, plan, none⟩
  /-- A repricer submits a replacement. -/
  | replaced (ol : OrderManager.Label) (o : OrderId) (x : OrderState) (p : Price)
      (plan : OrderPlan) (hl : l = .orders ol)
      (hr : s.om.replacing ol = some (o, x, p)) (hentry : plan.isEntry = x.isEntry)
      (horder : s'.om.orders[s.om.orders.length]?
        = some (OrderManager.replacementOf x plan s.om.clock)) :
      NewCall env s l s' ⟨s.om.orders.length, plan, some o⟩

variable {env : RunnerEnv} {s s' : ExecutionRunner} {l : Label}

theorem newCalls_of_eq (h : s'.om.placeCalls = s.om.placeCalls) : newCalls s s' = [] := by
  rw [newCalls, h, List.drop_length]

theorem newCalls_of_append {call : PlaceCall}
    (h : s'.om.placeCalls = s.om.placeCalls ++ [call]) : newCalls s s' = [call] := by
  rw [newCalls, h, List.drop_left]

/-- **Every new call is one of these.** -/
theorem newCall_of_mem (h : s.step env l = some s') {call : PlaceCall}
    (hmem : call ∈ newCalls s s') : NewCall env s l s' call := by
  -- where no call is made there is none to account for
  have hnone : s'.om.placeCalls = s.om.placeCalls → NewCall env s l s' call := by
    intro heq
    rw [newCalls_of_eq heq] at hmem
    cases hmem
  have hcalled : ∀ ol, s.om.step ol = some s'.om → s.om.replacing ol = none →
      ol.submits = false → NewCall env s l s' call := fun ol hstep hr hs =>
    hnone ((OrderManager.step_effect hstep).placeCalls_eq hr hs)
  cases step_effect h with
  | keeps hk => exact hnone hk.orders.placeCalls
  | batched _ _ _ _ hk => exact hnone hk.orders.placeCalls
  | filled fill hl hf =>
    subst hf
    exact hnone (congrArg _ (filled_om fill))
  | raised _ _ hom => exact hnone (congrArg _ hom)
  | unlocked _ _ _ _ _ _ _ _ _ hom => exact hnone (congrArg _ hom)
  | cancels o hard hl hlets => exact hcalled _ hlets.step rfl rfl
  | sweeps maxAge hl hpc hlets => exact hcalled _ hlets.step rfl rfl
  | background ol hl hol hpc hlets =>
    cases hr : s.om.replacing ol with
    | none => exact hcalled ol hlets.step hr (by cases ol <;> first | rfl | cases hol)
    | some replaced =>
      obtain ⟨o, x, p⟩ := replaced
      obtain ⟨t, c, r, q, hp, -, -, -, hh⟩ := OrderManager.step_replacing hlets.step hr
      rw [newCalls_of_append hh.placeCalls] at hmem
      obtain rfl := List.mem_singleton.mp hmem
      refine .replaced ol o x p _ hl hr rfl ?_
      rw [hh.orders]
      exact List.getElem?_append_new _ (List.length_modify ..)
  | enters cfg rest batch d decided limit hquantity hlimit hl hpc hlets =>
    rcases OrderManager.step_submit hlets.step with hh | ⟨q, hh⟩
    · exact hnone hh.placeCalls
    · rw [newCalls_of_append hh.placeCalls] at hmem
      obtain rfl := List.mem_singleton.mp hmem
      exact .entered cfg rest batch d decided _ _ hl hpc rfl rfl rfl rfl hh.orders
  | leaves intent hl hlets =>
    rcases OrderManager.step_submit hlets.step with hh | ⟨q, hh⟩
    · exact hnone hh.placeCalls
    · rw [newCalls_of_append hh.placeCalls] at hmem
      obtain rfl := List.mem_singleton.mp hmem
      exact .left _ intent.property

/-- A replacement is a new call. -/
theorem mem_newCalls_of_replacing {ol : OrderManager.Label} {o : OrderId}
    {x : OrderState} {p : Price} (h : s.step env (.orders ol) = some s')
    (hr : s.om.replacing ol = some (o, x, p)) :
    ∃ call ∈ newCalls s s', call.plan.isEntry = x.isEntry ∧ call.supersedes = some o := by
  simp only [step, Option.ite_none_right_eq_some, Option.map_eq_some_iff] at h
  obtain ⟨-, om, hom, rfl⟩ := h
  obtain ⟨t, c, r, q, hp, -, -, -, hh⟩ := OrderManager.step_replacing hom hr
  exact ⟨_, by rw [newCalls_of_append hh.placeCalls]; exact List.mem_singleton_self _,
    rfl, rfl⟩

end ExecutionRunner

/-! ## Runs on fixed inputs -/

namespace ExecutionRunner

/-- A strategy asks for two calls at `1`. -/
def sampleSignal : StrategySignal where
  strategyId := "orb"
  direction := .long
  contract := sampleContract
  requestedQuantity := 2
  limitPrice := some 1
  requested_pos := Nat.zero_lt_two
  limit_pos := by rintro _ ⟨⟩; decide

/-- The main loop from its head up to the commands of the tick. -/
def tickStart (pending : List Command) : List Label :=
  [.run, .run, .reply (.connected true), .reply (.commands pending)]

/-- The entry phase in which the strategy gives its signal and the batch is
submitted, up to the call of the broker. -/
def sampleEntry : List Label :=
  [ .reply (.tradedToday []), .run, .reply (.signals [sampleSignal]), .reply .raised, .run ]

/-- The first tick submits one entry order, gets the broker's answer, and
sleeps. -/
def entryTick (answer : Reply) : List Label :=
  tickStart [] ++ [.run, .run, .orders .go, .run, .run, .run, .run] ++ sampleEntry
    ++ [.orders (.resume 1 answer), .run, .run, .run, .run, .reply .done, .run]

/-- The second tick, with commands, after one order that is terminal: up to
its entry phase. -/
def nextTick (pending : List Command) : List Label :=
  [.run] ++ tickStart pending ++ pending.map (fun _ => .run)
    ++ [ .run, .run, .orders .go, .orders .go, .run, .run, .run, .run, .run, .run, .run ]

/-- The repricer of that order, placed as `0`, cancels it to replace it at `13`, the broker
acknowledges, and the repricer has still to look. -/
def repricing : List Label :=
  [ .orders (.wake 2), .orders .go, .orders (.advance 2), .orders (.wake 2), .orders .go,
    .orders (.resume 2 (.quote (some sampleOptionQuote))), .orders .go, .orders .go,
    .orders (.resume 2 (.cancelled true)), .orders .go,
    .orders (.callback { brokerOrderId := 0, status := .cancelled, filledQuantity := 0 }),
    .orders (.advance 1) ]

end ExecutionRunner
