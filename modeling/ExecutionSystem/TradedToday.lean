import ExecutionSystem.AttributionRows
import ExecutionSystem.BookRecovery
import ExecutionSystem.ExposureLimits
import ExecutionSystem.LossLimits

/-!
# The strategies that traded today

A strategy is to enter once a day, also across a restart. The runner has the
set of the strategies that traded today in memory
(`_persisted_traded_today`): every fill adds its strategy, and the first tick
of a New York day replaces the set by what the attribution store tells
(`PositionStore.strategies_traded_on`). The store tells it from the entry
times of its rows, so there an exit is no trade, and an entry is one only
once its row is written.

What the table will hold once all writes are done is
`AttributionSession.eventual`: its entries, and those of the positions that
have no row yet. No read and no write of a task changes it, and a fill adds to
it exactly where it opens a position. So in memory and in the table there is
the same (`AttributionSession.InSync`) until a fill is handled that adds to
one of them only, or a tick reads the table before an entry of the day is in
it (`TradedToday.KeepsStep`).
-/

/-! ## What the runner keeps of it -/

/-- What the day of a trade is known from: of a position, and of its row. -/
structure TradeEntry where
  positionId : PositionId
  strategyId : StrategyId
  entryTime : Option Time
  deriving DecidableEq

/-- The trade was entered on a day. -/
def TradeEntry.on (nyDate : Time → String) (day : String) (e : TradeEntry) : Bool :=
  e.entryTime.any (nyDate · = day)

def Position.tradeEntry (pos : Position) : TradeEntry :=
  ⟨pos.positionId, pos.strategyId, some (pos.entryTime.getD pos.createdAt)⟩

def Attribution.tradeEntry (row : Attribution) : TradeEntry :=
  ⟨row.positionId, row.strategyId, row.entryTime⟩

/-- The entries of the table. -/
def PositionStore.tradeEntries (store : PositionStore) : List TradeEntry :=
  store.rows.map Attribution.tradeEntry

/-- **`strategies_traded_on`**: the strategies of the rows that were entered
on a day, closed ones included. -/
def PositionStore.strategiesTradedOn (store : PositionStore) (nyDate : Time → String)
    (day : String) : List StrategyId :=
  ((store.tradeEntries.filter (·.on nyDate day)).map (·.strategyId)).dedup

theorem PositionStore.mem_strategiesTradedOn {store : PositionStore} {nyDate : Time → String}
    {day : String} {sid : StrategyId} : sid ∈ store.strategiesTradedOn nyDate day
      ↔ ∃ e ∈ store.tradeEntries, e.on nyDate day = true ∧ e.strategyId = sid := by
  rw [strategiesTradedOn, List.mem_dedup, List.mem_map]
  simp only [List.mem_filter, and_assoc]

namespace PositionManager

/-- The entries of the book. -/
def tradeEntries (pm : PositionManager) : List TradeEntry :=
  pm.positions.map Position.tradeEntry

/-- A fill enters a new trade. -/
def Enters (pm : PositionManager) (fill : FillEvent) : Prop := pm.target fill none = none

instance (pm : PositionManager) (fill : FillEvent) : Decidable (pm.Enters fill) :=
  inferInstanceAs (Decidable (_ = none))

theorem tradeEntry_filled (fill : FillEvent) (pos : Position) :
    (pos.filled fill).tradeEntry = pos.tradeEntry := by
  unfold Position.filled
  split_ifs <;> rfl

/-- **A fill enters one trade or none.** -/
theorem tradeEntries_handleFill (pm : PositionManager) (fill : FillEvent) :
    (pm.handleFill fill).1.tradeEntries = if pm.Enters fill then
        pm.tradeEntries ++ [⟨pm.freshId, fill.strategyId, some fill.timestamp⟩]
      else pm.tradeEntries := by
  unfold tradeEntries
  rcases pm.handleFill_cases fill with ⟨hnone, heq⟩ | ⟨i, pos, hpos, hopen, hkey, heq⟩
  · have henters : pm.Enters fill := hnone
    rw [if_pos henters, heq, List.map_append]
    rfl
  · have hsome : ¬ pm.Enters fill := fun hnone => by
      have hcand := List.findIdx?_eq_none_iff.mp hnone pos (List.mem_of_getElem? hpos)
      rw [candidate, hopen, hkey, decide_eq_true rfl] at hcand
      cases hcand
    rw [if_neg hsome, heq]
    exact List.map_modify_eq (tradeEntry_filled fill)

/-- The position a fill returns is of the fill's strategy. -/
theorem strategyId_handleFill (pm : PositionManager) (fill : FillEvent) :
    (pm.handleFill fill).2.strategyId = fill.strategyId := by
  unfold handleFill handleFillDrawing
  cases htarget : pm.target fill none with
  | none => rfl
  | some i =>
    obtain ⟨pos, hpos, -, hkey⟩ := candidate_of_target htarget
    rw [Option.bind_some, hpos, Option.map_some]
    show (pos.filled fill).strategyId = fill.strategyId
    calc (pos.filled fill).strategyId
        = pos.strategyId := congrArg TradeEntry.strategyId (tradeEntry_filled fill pos)
      _ = fill.strategyId := congrArg Prod.fst hkey

end PositionManager

namespace ExecutionRunner

/-- **The step leaves the set, its date and the trades**, and the instant
unless a tick begins. -/
structure KeepsTraded (s s' : ExecutionRunner) : Prop where
  tradedToday : s'.persistedTradedToday = s.persistedTradedToday
  date : s'.tradedTodayNyDate = s.tradedTodayNyDate
  entries : s'.pm.tradeEntries = s.pm.tradeEntries
  now : s'.now = s.now ∨ s'.now = s.om.clock ∧ s'.pc = .tickConnected

variable {env : RunnerEnv} {s s' : ExecutionRunner} {l : Label}

theorem keepsTraded_at (pc : RunnerPc) : KeepsTraded s (s.at' pc) := ⟨rfl, rfl, rfl, .inl rfl⟩

theorem keepsTraded_begin : KeepsTraded s s.beginTick := ⟨rfl, rfl, rfl, .inr ⟨rfl, rfl⟩⟩

theorem afterPause_keepsTraded : KeepsTraded s s.afterPause := by
  unfold afterPause
  split_ifs
  · exact keepsTraded_at _
  · exact keepsTraded_at _
  · exact keepsTraded_begin

theorem awaitSubmit_keepsTraded (intent : OrderIntent) (decision : RiskDecision)
    (reprice : RepriceConfig) (next : RunnerPc) :
    KeepsTraded s (s.awaitSubmit env intent decision reprice next) := by
  unfold awaitSubmit
  split <;> exact ⟨rfl, rfl, rfl, .inl rfl⟩

theorem command_keepsTraded (rest : List Command) (c : Command) :
    KeepsTraded s (s.command env rest c) := by
  cases c with
  | exitPosition p => simp only [command]; split_ifs <;> exact ⟨rfl, rfl, rfl, .inl rfl⟩
  | pauseStrategy sid paused => cases paused <;> exact ⟨rfl, rfl, rfl, .inl rfl⟩
  | fireStraddle sid =>
    simp only [command, fireStraddle]
    split
    · exact keepsTraded_at _
    · split_ifs <;> exact ⟨rfl, rfl, rfl, .inl rfl⟩
  | _ => exact ⟨rfl, rfl, rfl, .inl rfl⟩

theorem submission_keepsTraded (cfg : StrategyConfig) (rest : List StrategyConfig)
    (batch : BatchId) (decided : List Decided) :
    KeepsTraded s (s.submission env cfg rest batch decided) := by
  cases decided with
  | nil => exact keepsTraded_at _
  | cons d decided =>
    simp only [submission]
    split
    · exact keepsTraded_at _
    · split_ifs
      · exact awaitSubmit_keepsTraded ..
      · exact keepsTraded_at _
      · exact keepsTraded_at _

/-- **The runner's own blocks leave what traded today.** -/
theorem block_keepsTraded {pc : RunnerPc} (h : s.block env pc = some s') : KeepsTraded s s' := by
  cases block_cases h with
  | loopTop | commandsEnd | sleepEnds | wakes | returned => exact keepsTraded_at _
  | pauseWait => exact afterPause_keepsTraded
  | command c rest => exact command_keepsTraded rest c
  | manage => exact ⟨rfl, rfl, rfl, .inl rfl⟩
  | manageSwept => unfold manageSwept; split_ifs <;> exact ⟨rfl, rfl, rfl, .inl rfl⟩
  | rejectionCancels rest =>
    cases rest with
    | nil => exact ⟨rfl, rfl, rfl, .inl rfl⟩
    | cons o rest => simp only [rejectionCancel]; split_ifs <;> exact ⟨rfl, rfl, rfl, .inl rfl⟩
  | timeouts rest groups =>
    cases rest with
    | nil => exact keepsTraded_at _
    | cons o rest => simp only [timeout]; split_ifs <;> exact ⟨rfl, rfl, rfl, .inl rfl⟩
  | legs groups openPositions =>
    cases groups with
    | nil => exact keepsTraded_at _
    | cons group groups => simp only [leg]; split <;> exact keepsTraded_at _
  | legCancels failed peers group groups openPositions =>
    cases peers with
    | nil => exact ⟨rfl, rfl, rfl, .inl rfl⟩
    | cons o peers => simp only [legCancel]; split_ifs <;> exact ⟨rfl, rfl, rfl, .inl rfl⟩
  | entries rest =>
    cases rest with
    | nil => exact keepsTraded_at _
    | cons cfg rest => simp only [entry]; split_ifs <;> exact ⟨rfl, rfl, rfl, .inl rfl⟩
  | submissions cfg rest batch decided => exact submission_keepsTraded cfg rest batch decided
  | exits =>
    unfold startExits
    dsimp only
    split_ifs <;> exact ⟨rfl, rfl, rfl, .inl rfl⟩
  | exitsCollected => unfold exitsCollected; split <;> exact keepsTraded_at _
  | exitSignals rest =>
    cases rest with
    | nil => exact keepsTraded_at _
    | cons signal rest => simp only [exitSignal]; split_ifs <;> exact ⟨rfl, rfl, rfl, .inl rfl⟩
  | exitCancels orders signal rest =>
    cases orders with
    | nil => exact awaitSubmit_keepsTraded ..
    | cons o orders => simp only [exitCancel]; split_ifs <;> exact ⟨rfl, rfl, rfl, .inl rfl⟩
  | tickDone => unfold afterTick; split_ifs <;> exact keepsTraded_at _

/-- A mark leaves when a position was entered. -/
theorem tradeEntries_marked (quotes : QuoteMap) (now : Time) :
    (s.pm.updatePositionPrices env.floatRepr quotes now).tradeEntries = s.pm.tradeEntries := by
  unfold PositionManager.tradeEntries PositionManager.updatePositionPrices
  rw [List.map_map]
  refine List.map_congr_left fun pos _ => ?_
  show (pos.marked env.floatRepr quotes now).tradeEntry = pos.tradeEntry
  unfold Position.marked
  split_ifs
  · split <;> rfl
  · rfl

/-- So does what follows an answer, but for the answer of the table. -/
theorem answered_keepsTraded {reply : RunnerReply} {pc : RunnerPc}
    (h : s.answered env reply pc = some s') (hpc : pc ≠ .entryStart) : KeepsTraded s s' := by
  cases answered_cases h with
  | positions | tickRaised | connected | fetched | fetchRaised | signalled | pollEnds
  | exitsFlagged | snapshotEnds | reconnected => exact keepsTraded_at _
  | resumeEnds => exact keepsTraded_begin
  | disconnected => exact ⟨rfl, rfl, rfl, .inl rfl⟩
  | openOrders broker site orders index found =>
    cases site <;> simp only [reconciled] <;> split_ifs
    · exact ⟨rfl, rfl, rfl, .inl rfl⟩
    · exact ⟨rfl, rfl, rfl, .inl rfl⟩
    · exact ⟨rfl, rfl, rfl, .inr ⟨rfl, rfl⟩⟩
    · exact ⟨rfl, rfl, rfl, .inr ⟨rfl, rfl⟩⟩
    · exact ⟨rfl, rfl, rfl, .inl rfl⟩
    · exact ⟨rfl, rfl, rfl, .inl rfl⟩
  | positionsRaised site | ordersRaised site =>
    cases site
    · exact keepsTraded_at _
    · exact keepsTraded_begin
    · exact keepsTraded_at _
  | tradedToday => exact absurd rfl hpc
  | quoted cfg rest decided signal pending =>
    cases pending with
    | nil => simp only [quoted, decide]; split_ifs <;> exact ⟨rfl, rfl, rfl, .inl rfl⟩
    | cons next pending => exact keepsTraded_at _
  | exitsQuoted => exact ⟨rfl, rfl, tradeEntries_marked _ _, .inl rfl⟩

/-- **The answer of the table**: the entry phase begins. -/
theorem answered_tradedToday {stored : List StrategyId} {pc : RunnerPc}
    (h : s.answered env (.tradedToday stored) pc = some s') : s' = s.startEntries env stored := by
  cases answered_cases h with
  | tradedToday stored' hreply =>
    rcases hreply with hreply | ⟨hreply, -⟩
    · obtain rfl := RunnerReply.tradedToday.inj hreply
      rfl
    · cases hreply
  | resumeEnds hreply | pollEnds _ _ _ hreply | snapshotEnds hreply =>
    rcases hreply with hreply | hreply <;> cases hreply
  | quoted _ _ _ _ _ _ _ hreply =>
    rcases hreply with ⟨_, hreply, -⟩ | ⟨hreply, -⟩ <;> cases hreply
  | exitsFlagged _ _ _ _ _ _ _ hreply =>
    rcases hreply with hreply | ⟨hreply, -⟩ <;> cases hreply

/-- A date that is not new loads nothing. -/
theorem startEntries_keepsTraded (stored : List StrategyId)
    (hold : s.tradedTodayNyDate = some (env.nyDate s.now)) :
    KeepsTraded s (s.startEntries env stored) := by
  rw [startEntries, refreshTradedToday, if_pos hold]
  split_ifs <;> exact keepsTraded_at _

/-- **A new date loads the set**, and nothing else. -/
theorem startEntries_loads (stored : List StrategyId)
    (hnew : s.tradedTodayNyDate ≠ some (env.nyDate s.now)) :
    (s.startEntries env stored).persistedTradedToday = stored
      ∧ (s.startEntries env stored).tradedTodayNyDate = some (env.nyDate s.now)
      ∧ (s.startEntries env stored).pm = s.pm ∧ (s.startEntries env stored).om = s.om
      ∧ (s.startEntries env stored).now = s.now := by
  rw [startEntries, refreshTradedToday, if_neg hnew]
  dsimp only
  split_ifs <;> exact ⟨rfl, rfl, rfl, rfl, rfl⟩

/-- What the runner does besides handling fills and reading the table. -/
def leavesTraded (s : ExecutionRunner) : Label → Bool
  | .fill _ => false
  | .reply _ =>
    match s.pc with
    | .entryStart => false
    | _ => true
  | _ => true

/-- **Of all the runner does, only fills and the answer of the table change
what traded today.** -/
theorem step_keepsTraded (h : s.step env l = some s') (hl : s.leavesTraded l = true) :
    KeepsTraded s s' := by
  cases l with
  | orders ol =>
    obtain ⟨-, h⟩ := Option.ite_none_right_eq_some.mp h
    obtain ⟨om, -, rfl⟩ := Option.map_eq_some_iff.mp h
    exact ⟨rfl, rfl, rfl, .inl rfl⟩
  | fill fill => cases hl
  | stop | pause | resume =>
    obtain ⟨-, h⟩ := Option.ite_none_right_eq_some.mp h
    obtain rfl := Option.some.inj h
    exact ⟨rfl, rfl, rfl, .inl rfl⟩
  | reply reply =>
    obtain ⟨-, h⟩ := Option.ite_none_right_eq_some.mp h
    refine answered_keepsTraded h fun hpc => ?_
    rw [leavesTraded, hpc] at hl
    cases hl
  | run =>
    obtain ⟨-, h⟩ := Option.ite_none_right_eq_some.mp h
    exact block_keepsTraded h

theorem timestamp_attributed (fill : FillEvent) :
    (s.attributed fill).timestamp = fill.timestamp := by
  unfold attributed
  split <;> rfl

/-- To whose order a fill is attributed does not matter to whether it enters a
trade. -/
theorem enters_attributed (fill : FillEvent) :
    s.pm.Enters (s.attributed fill) ↔ s.pm.Enters fill := by
  unfold PositionManager.Enters PositionManager.target PositionManager.candidate
  rw [key_attributed]

/-- **What a fill does to it.** -/
theorem traded_filled (fill : FillEvent) :
    (s.filled env fill).persistedTradedToday = s.persistedTradedToday.insert fill.strategyId
      ∧ (s.filled env fill).pm.tradeEntries = if s.pm.Enters fill then
          s.pm.tradeEntries ++ [⟨s.pm.freshId, fill.strategyId, some fill.timestamp⟩]
        else s.pm.tradeEntries := by
  have hstrategy : (s.attributed fill).strategyId = fill.strategyId :=
    congrArg Prod.fst (key_attributed fill)
  constructor
  · show s.persistedTradedToday.insert (s.pm.handleFill (s.attributed fill)).2.strategyId = _
    rw [PositionManager.strategyId_handleFill, hstrategy]
  · have hmap : (s.filled env fill).pm.tradeEntries
        = (s.pm.handleFill (s.attributed fill)).1.tradeEntries :=
      map_filled _ (fun _ _ _ _ _ _ => rfl) fill
    rw [hmap, PositionManager.tradeEntries_handleFill, hstrategy, timestamp_attributed]
    exact if_congr (enters_attributed fill) rfl rfl

end ExecutionRunner

/-! ### Where the set is read -/

/-- The runner is in the entry phase of a tick, where the gate is read. -/
def RunnerPc.inEntries : RunnerPc → Bool
  | .entries _ | .pollAwait .. | .quoteAwait .. | .submissions .. => true
  | .awaiting _ next => next.inEntries
  | _ => false

namespace ExecutionRunner

variable {env : RunnerEnv} {s s' : ExecutionRunner} {l : Label}

/-- **The gate is read with the set of the tick's date.** -/
def GateLoaded (env : RunnerEnv) (s : ExecutionRunner) : Prop :=
  s.pc.inEntries = true → s.tradedTodayNyDate = some (env.nyDate s.now)

/-- The entry phase is entered from where the set is loaded. -/
theorem Flow.inEntries {pc pc' : RunnerPc} (h : Flow env s l s' pc pc')
    (hpc' : pc'.inEntries = true) : pc.inEntries = true ∨ pc = .entryStart := by
  cases h with
  | entriesStart => exact .inr rfl
  | returned => exact .inl hpc'
  | entrySkipped | polls | pollEnds | signalled | judged | batched | batchRejected
  | submissionsEnd | submissionSkipped | submits => exact .inl rfl
  | managed _ hmanaging => cases pc' <;> cases hmanaging <;> cases hpc'
  | exitsGoOn _ hexiting => cases pc' <;> cases hexiting <;> cases hpc'
  | @manageAwaits _ next _ hmanaging => cases next <;> cases hmanaging <;> cases hpc'
  | @exitAwaits _ next _ hexiting => cases next <;> cases hexiting <;> cases hpc'
  | _ => cases hpc'

/-- The entry phase begins with the set of the tick's date. -/
theorem date_startEntries (stored : List StrategyId) :
    (s.startEntries env stored).tradedTodayNyDate
      = some (env.nyDate (s.startEntries env stored).now) := by
  by_cases hold : s.tradedTodayNyDate = some (env.nyDate s.now)
  · rw [startEntries, refreshTradedToday, if_pos hold]
    split_ifs <;> exact hold
  · obtain ⟨-, hdate, -, -, hnow⟩ := startEntries_loads stored hold
    rw [hdate, hnow]

/-- **One step.** -/
theorem GateLoaded.step (hs : s.GateLoaded env) (h : s.step env l = some s') :
    s'.GateLoaded env := by
  intro hpc'
  by_cases hl : s.leavesTraded l = true
  · have hkept := step_keepsTraded h hl
    have hnow : s'.now = s.now := hkept.now.resolve_right fun hbegins => by
      rw [hbegins.2] at hpc'
      cases hpc'
    rw [hkept.date, hnow]
    rcases step_flow h with ⟨-, hpc⟩ | ⟨hrunner, hflow⟩
    · exact hs (hpc ▸ hpc')
    · refine hs ((hflow.inEntries hpc').resolve_right fun hstart => ?_)
      -- from the start of the entry phase only an answer leads on
      cases l with
      | run =>
        obtain ⟨-, h⟩ := Option.ite_none_right_eq_some.mp h
        rw [hstart] at h
        cases h
      | reply reply =>
        rw [leavesTraded, hstart] at hl
        cases hl
      | orders | fill | stop | pause | resume => cases hrunner
  · cases l with
    | fill fill =>
      obtain ⟨-, h⟩ := Option.ite_none_right_eq_some.mp h
      obtain rfl := Option.some.inj h
      exact hs hpc'
    | reply reply =>
      obtain ⟨-, h⟩ := Option.ite_none_right_eq_some.mp h
      have hstart : s.pc = .entryStart := by
        rw [leavesTraded] at hl
        split at hl
        · assumption
        · exact absurd rfl hl
      rw [hstart] at h
      cases answered_cases h with
      | tradedToday stored => exact date_startEntries stored
    | orders | stop | pause | resume | run => exact absurd rfl hl

/-- **In every run the gate is read with the set of the tick's date**, so what
is in memory before the first tick of a day holds nobody back. -/
theorem throughout_gateLoaded (env : RunnerEnv) (start : Startup) (ls : List Label) :
    (machine env).Throughout (GateLoaded env) (initial start) ls := by
  intro ks t _ hrun
  have hstep : ∀ (s : ExecutionRunner) (l : Label) (t : ExecutionRunner),
      s.GateLoaded env → (machine env).step s l = some t → t.GateLoaded env :=
    fun _ _ _ hs h => hs.step h
  exact Machine.run_invariant' hstep (fun hpc => by cases hpc) hrun

end ExecutionRunner

/-! ## What the table will hold -/

namespace AttributionSession

/-- All background writes have finished. -/
def Quiet (s : AttributionSession) : Prop := ∀ task ∈ s.tasks, task.stage = .finished

instance (s : AttributionSession) : Decidable s.Quiet :=
  inferInstanceAs (Decidable (∀ _ ∈ _, _))

/-- **The entries that the table will hold once all writes are done.** -/
def eventual (s : AttributionSession) : List TradeEntry :=
  s.store.tradeEntries.withMissing (·.positionId) s.runner.pm.tradeEntries

/-- **Every position has a row, or a write of one under way**, its tasks have
read its own entry, and a row is of its position's strategy. -/
structure Recorded (s : AttributionSession) : Prop where
  wellFormed : s.WellFormed
  own : ∀ task ∈ s.tasks, ∀ pos, task.stage.seen = some pos ∨ task.stage.before = some pos →
    pos.tradeEntry ∈ s.runner.pm.tradeEntries
  agrees : ∀ e ∈ s.runner.pm.tradeEntries, ∀ r ∈ s.store.tradeEntries,
    r.positionId = e.positionId → r.strategyId = e.strategyId
  due : ∀ e ∈ s.runner.pm.tradeEntries, e.positionId ∈ s.store.tradeEntries.map (·.positionId)
    ∨ ∃ task ∈ s.tasks, task.positionId = e.positionId ∧ task.stage ≠ .finished

variable {env : RunnerEnv} {s t : AttributionSession} {i : ℕ} {task : PersistTask}

theorem Recorded.nodup (hs : s.Recorded) :
    (s.runner.pm.tradeEntries.map (·.positionId)).Nodup := by
  rw [PositionManager.tradeEntries, List.map_map]
  exact hs.wellFormed.nodup

/-- **With no write under way the table holds it all.** -/
theorem Recorded.eventual_of_quiet (hs : s.Recorded) (hquiet : s.Quiet) :
    s.eventual = s.store.tradeEntries := by
  refine List.withMissing_eq_self fun e he => ?_
  rcases hs.due e he with hstored | ⟨task, htask, -, hopen⟩
  · exact hstored
  · exact absurd (hquiet task htask) hopen

/-- What a thread sees of a position has its entry. -/
theorem Recorded.tradeEntry_visible (hs : s.Recorded) {p : PositionId} {old : Bool}
    {pos : Position} (h : s.visible p old = some pos) :
    pos.tradeEntry ∈ s.runner.pm.tradeEntries := by
  cases old with
  | false => exact List.mem_map_of_mem (position_eq h).1
  | true =>
    obtain ⟨hfound, -⟩ := Option.filter_eq_some_iff.mp h
    obtain ⟨task, htask, hbefore⟩ := List.exists_of_findSome?_eq_some hfound
    exact hs.own task htask pos (.inr hbefore)

/-- A task goes on, and has not finished. -/
theorem Recorded.goOn (hs : s.Recorded) {task' : PersistTask} {stage : PersistStage}
    (htask : s.tasks[i]? = some task) (hid : task'.positionId = task.positionId)
    (hnew : stage ≠ .finished) (hbefore : stage.before = none)
    (hseen : ∀ seen, stage.seen = some seen → seen.positionId = task.positionId
      ∧ seen.tradeEntry ∈ s.runner.pm.tradeEntries) : (s.goOn i task' stage).Recorded where
  wellFormed := hs.wellFormed.goOn fun seen h => (hseen seen h).1.trans hid.symm
  own other hother pos hpos := by
    rcases List.mem_or_eq_of_mem_set hother with hmem | rfl
    · exact hs.own other hmem pos hpos
    · rcases hpos with hpos | hpos
      · exact (hseen pos hpos).2
      · cases hbefore.symm.trans hpos
  agrees := hs.agrees
  due e he := by
    refine (hs.due e he).imp_right ?_
    rintro ⟨other, hother, hsame, hopen⟩
    obtain ⟨j, hj⟩ := List.mem_iff_getElem?.mp hother
    by_cases hij : i = j
    · subst hij
      obtain rfl := Option.some.inj (htask.symm.trans hj)
      refine ⟨{ task' with stage := stage }, ?_, hid.trans hsame, hnew⟩
      exact List.mem_of_getElem? (List.getElem?_set_self (List.getElem?_eq_some_iff.mp hj).1)
    · exact ⟨other, List.mem_of_getElem? ((List.getElem?_set_ne hij).trans hj), hsame, hopen⟩

/-- The entries of the table after a write. -/
theorem tradeEntries_written (now : Time) (pos : Position) :
    (s.written i task now pos).store.tradeEntries
      = s.store.tradeEntries.upsert (·.positionId) pos.positionId pos.tradeEntry
          fun e => { e with strategyId := pos.strategyId } := by
  have hkey : ∀ row : Attribution, row.tradeEntry.positionId = row.positionId := fun _ => rfl
  exact List.map_upsert hkey fun _ => rfl

/-- **A write leaves what the table will hold.** -/
theorem Recorded.mem_eventual_written (hs : s.Recorded) {now : Time} {pos : Position}
    (hpos : pos.tradeEntry ∈ s.runner.pm.tradeEntries) {e : TradeEntry} :
    e ∈ (s.written i task now pos).eventual ↔ e ∈ s.eventual := by
  rw [eventual, tradeEntries_written]
  refine List.mem_withMissing_upsert hs.nodup hpos fun r hr hsame => ?_
  show TradeEntry.mk r.positionId pos.strategyId r.entryTime = r
  rw [← show r.strategyId = pos.strategyId from hs.agrees _ hpos r hr hsame]

/-- A row is written. -/
theorem Recorded.written (hs : s.Recorded) {now : Time} {pos : Position}
    (htask : s.tasks[i]? = some task) (hid : pos.positionId = task.positionId)
    (hpos : pos.tradeEntry ∈ s.runner.pm.tradeEntries) :
    (s.written i task now pos).Recorded where
  wellFormed := hs.wellFormed.written
  own other hother seen hseen := by
    rcases List.mem_or_eq_of_mem_set hother with hmem | rfl
    · exact hs.own other hmem seen hseen
    · rcases hseen with hseen | hseen <;> cases hseen
  agrees e he r hr hsame := by
    rw [tradeEntries_written] at hr
    rcases List.mem_upsert.mp hr with ⟨hr, -⟩ | ⟨r', hr', hk, rfl⟩ | ⟨-, rfl⟩
    · exact hs.agrees e he r hr hsame
    · have hpe : pos.tradeEntry = e :=
        List.inj_on_of_nodup_map hs.nodup hpos he (hk.symm.trans hsame)
      show pos.tradeEntry.strategyId = e.strategyId
      rw [hpe]
    · exact congrArg TradeEntry.strategyId (List.inj_on_of_nodup_map hs.nodup hpos he hsame)
  due e he := by
    have hids : e.positionId ∈ (s.written i task now pos).store.tradeEntries.map (·.positionId)
        ↔ e.positionId = pos.positionId
          ∨ e.positionId ∈ s.store.tradeEntries.map (·.positionId) := by
      rw [tradeEntries_written]
      refine @List.mem_map_upsert TradeEntry PositionId _ (·.positionId) _ _ _ _ ?_ ?_ _
      · rfl
      · exact fun _ h => h
    rw [hids]
    rcases hs.due e he with hstored | ⟨other, hother, hsame, hopen⟩
    · exact .inl (.inr hstored)
    · obtain ⟨j, hj⟩ := List.mem_iff_getElem?.mp hother
      -- an entry whose write is due is written now, or later by a task of its own
      by_cases hij : i = j
      · subst hij
        obtain rfl := Option.some.inj (htask.symm.trans hj)
        exact .inl (.inl (hsame.symm.trans hid.symm))
      · exact .inr ⟨other, List.mem_of_getElem? ((List.getElem?_set_ne hij).trans hj), hsame,
          hopen⟩

/-- A callback begins, and its task. -/
theorem Recorded.start (hs : s.Recorded) (hwf : t.WellFormed) (hstore : t.store = s.store)
    (htasks : t.tasks = s.tasks ++ [task]) (hopen : task.stage ≠ .finished)
    (hseen : task.stage.seen = none)
    (hbefore : ∀ pos, task.stage.before = some pos → pos.tradeEntry ∈ s.runner.pm.tradeEntries)
    (hentries : ∀ e ∈ t.runner.pm.tradeEntries, e ∈ s.runner.pm.tradeEntries
      ∨ e.positionId ∉ s.store.tradeEntries.map (·.positionId) ∧ e.positionId = task.positionId)
    (hkept : ∀ e ∈ s.runner.pm.tradeEntries, e ∈ t.runner.pm.tradeEntries) : t.Recorded where
  wellFormed := hwf
  own other hother pos hpos := by
    rw [htasks] at hother
    rcases List.mem_append.mp hother with hold | hnew
    · exact hkept _ (hs.own other hold pos hpos)
    · obtain rfl := List.mem_singleton.mp hnew
      rcases hpos with hpos | hpos
      · cases hseen.symm.trans hpos
      · exact hkept _ (hbefore pos hpos)
  agrees e he r hr hsame := by
    rw [hstore] at hr
    rcases hentries e he with hold | ⟨hnew, -⟩
    · exact hs.agrees e hold r hr hsame
    · exact absurd (List.mem_map.mpr ⟨r, hr, hsame⟩) hnew
  due e he := by
    rw [hstore, htasks]
    rcases hentries e he with hold | ⟨-, hid⟩
    · refine (hs.due e hold).imp_right ?_
      rintro ⟨other, hother, hrest⟩
      exact ⟨other, List.mem_append_left _ hother, hrest⟩
    · exact .inr ⟨task, List.mem_append_right _ List.mem_cons_self, hid.symm, hopen⟩

/-! ### What a step does to it -/

/-- The id that is drawn for a position is not one of the table. -/
def FreshFor (s : AttributionSession) (fill : FillEvent) : Prop :=
  s.runner.pm.Enters fill → s.runner.pm.freshId ∉ s.store.tradeEntries.map (·.positionId)

instance (s : AttributionSession) (fill : FillEvent) : Decidable (s.FreshFor fill) :=
  inferInstanceAs (Decidable (_ → _))

/-- The trade a fill enters. -/
def entered (s : AttributionSession) (fill : FillEvent) : TradeEntry :=
  ⟨s.runner.pm.freshId, fill.strategyId, some fill.timestamp⟩

theorem tradeEntries_filled (fill : FillEvent) : (s.filled env fill).runner.pm.tradeEntries
    = if s.runner.pm.Enters fill then s.runner.pm.tradeEntries ++ [s.entered fill]
      else s.runner.pm.tradeEntries :=
  (ExecutionRunner.traded_filled fill).2

/-- **What the table will hold after a fill**: the trade it enters besides. -/
theorem mem_eventual_filled {fill : FillEvent} (hfresh : s.FreshFor fill) {e : TradeEntry} :
    e ∈ (s.filled env fill).eventual
      ↔ e ∈ s.eventual ∨ s.runner.pm.Enters fill ∧ e = s.entered fill := by
  show e ∈ s.store.tradeEntries.withMissing _ (s.filled env fill).runner.pm.tradeEntries ↔ _
  rw [tradeEntries_filled]
  split_ifs with henters
  · rw [List.mem_withMissing_snoc (x := s.entered fill) (hfresh henters)]
    exact or_congr_right (and_iff_right henters).symm
  · exact (or_iff_left fun h => henters h.1).symm

/-- The position a fill returns is the one that was there, or the new one. -/
theorem positionId_handleFill (pm : PositionManager) (fill : FillEvent) :
    pm.Enters fill → (pm.handleFill fill).2.positionId = pm.freshId := by
  intro henters
  unfold PositionManager.handleFill PositionManager.handleFillDrawing
  rw [show pm.target fill none = none from henters]
  rfl

/-- A fill is handled. -/
theorem Recorded.filled (hs : s.Recorded) {fill : FillEvent} (hfresh : s.FreshFor fill)
    (hwf : (s.filled env fill).WellFormed) : (s.filled env fill).Recorded := by
  refine hs.start hwf rfl rfl (fun h => PersistStage.noConfusion h) rfl ?_ ?_ ?_
  · intro pos hpos
    exact List.mem_map_of_mem (position_eq hpos).1
  · intro e he
    rw [tradeEntries_filled] at he
    split_ifs at he with henters
    · rcases List.mem_append.mp he with hold | hnew
      · exact .inl hold
      · obtain rfl := List.mem_singleton.mp hnew
        refine .inr ⟨hfresh henters, ?_⟩
        exact (positionId_handleFill _ _
          ((ExecutionRunner.enters_attributed fill).mpr henters)).symm
    · exact .inl he
  · intro e he
    rw [tradeEntries_filled]
    split_ifs
    · exact List.mem_append_left _ he
    · exact he

/-- A commission leaves when positions were entered. -/
theorem tradeEntries_onCommission (r : ExecutionRunner) (o : OrderId) (amount : ℚ) :
    (r.onCommission o amount).pm.tradeEntries = r.pm.tradeEntries := by
  unfold ExecutionRunner.onCommission
  split
  · exact List.map_modify_eq fun _ => rfl
  · rfl

theorem Recorded.netted (hs : s.Recorded) (o : OrderId) (amount : ℚ) :
    (s.netted o amount).Recorded := by
  have hwf := hs.wellFormed.netted o amount
  revert hwf
  unfold AttributionSession.netted
  split
  · exact fun _ => hs
  · intro hwf
    refine hs.start hwf rfl rfl (fun h => PersistStage.noConfusion h) rfl
      (fun _ h => by cases h) ?_ ?_
    · exact fun e he => .inl ((tradeEntries_onCommission ..).symm ▸ he)
    · exact fun e he => (tradeEntries_onCommission s.runner o amount).symm ▸ he

/-- A task reads the position as it is, or goes on with what it has read of
it: either way the entry is the position's. -/
theorem Recorded.read {i : ℕ} {task : PersistTask} {old : Bool} {pos : Position}
    {stage : PersistStage} (hs : s.Recorded) (htask : s.tasks[i]? = some task)
    (hpos : s.visible task.positionId old = some pos) (hread : task.stage.read pos = some stage) :
    (s.goOn i task stage).Recorded := by
  refine hs.goOn htask rfl ?_ (PersistStage.before_read hread) fun seen hseen => ?_
  · rintro rfl
    exact PersistStage.read_ne_finished hread
  · rcases PersistStage.eq_read (fun pos => (pos.positionId, pos.tradeEntry))
      (fun _ _ _ _ => rfl) hread hseen with heq | ⟨seen', hseen', heq⟩
    · obtain ⟨hid, hentry⟩ := Prod.mk.inj heq
      exact ⟨hid.trans (positionId_visible hpos), hentry ▸ hs.tradeEntry_visible hpos⟩
    · obtain ⟨hid, hentry⟩ := Prod.mk.inj heq
      have htask' := List.mem_of_getElem? htask
      exact ⟨hid.trans (hs.wellFormed.own task htask' seen' hseen'),
        hentry ▸ hs.own task htask' seen' (.inl hseen')⟩

/-- **What a step that is no fill does**: nothing to what the table will
hold. -/
theorem recorded_step {l : Label} (hs : s.Recorded) (h : s.step env l = some t)
    (hl : ∀ fill, l ≠ .fill fill) :
    t.Recorded ∧ (∀ e, e ∈ t.eventual ↔ e ∈ s.eventual)
      ∧ t.runner.pm.tradeEntries = s.runner.pm.tradeEntries := by
  cases step_cases h with
  | orders | exiting =>
    exact ⟨⟨⟨hs.wellFormed.nodup, hs.wellFormed.own⟩, hs.own, hs.agrees, hs.due⟩,
      fun _ => Iff.rfl, rfl⟩
  | fill fill => exact absurd rfl (hl fill)
  | commission o amount =>
    have hentries : (s.netted o amount).runner.pm.tradeEntries = s.runner.pm.tradeEntries := by
      unfold AttributionSession.netted
      split
      · rfl
      · exact tradeEntries_onCommission ..
    have hstore : (s.netted o amount).store = s.store := by
      unfold AttributionSession.netted
      split <;> rfl
    refine ⟨hs.netted o amount, fun e => ?_, hentries⟩
    rw [eventual, hentries, hstore, eventual]
  | starts i now task before htask hstage =>
    exact ⟨hs.goOn htask rfl (fun h => PersistStage.noConfusion h) rfl
      (fun _ hseen => by cases hseen), fun _ => Iff.rfl, rfl⟩
  | writesNow i now task pos htask hstage hpos =>
    have hentry := List.mem_map_of_mem (f := Position.tradeEntry) (position_eq hpos).1
    exact ⟨hs.written htask (position_eq hpos).2 hentry,
      fun _ => hs.mem_eventual_written hentry, rfl⟩
  | reads i old task pos stage htask hpos hread =>
    exact ⟨hs.read htask hpos hread, fun _ => Iff.rfl, rfl⟩
  | writes i now task seen htask hstage =>
    -- what is written is what was read, which is of a position of the book
    have htask' := List.mem_of_getElem? htask
    have hseen : task.stage.seen = some seen := by rw [hstage]; rfl
    have hentry := hs.own task htask' seen (.inl hseen)
    exact ⟨hs.written htask (hs.wellFormed.own task htask' seen hseen) hentry,
      fun _ => hs.mem_eventual_written hentry, rfl⟩
  | retries i task seen htask hstage =>
    exact ⟨hs.goOn htask rfl (fun h => PersistStage.noConfusion h) rfl
      (fun _ hseen => by cases hseen), fun _ => Iff.rfl, rfl⟩

end AttributionSession

/-! ## The gate and the table -/

namespace AttributionSession

/-- The New York date. -/
def today (env : RunnerEnv) (s : AttributionSession) : String := env.nyDate s.runner.om.clock

/-- The set in memory is that of the current date: a tick of this day has
loaded it. -/
def LoadedToday (env : RunnerEnv) (s : AttributionSession) : Prop :=
  s.runner.tradedTodayNyDate = some (s.today env)

instance (env : RunnerEnv) (s : AttributionSession) : Decidable (s.LoadedToday env) :=
  inferInstanceAs (Decidable (_ = _))

/-- What the table tells of the current date. -/
def storedToday (env : RunnerEnv) (s : AttributionSession) : List StrategyId :=
  s.store.strategiesTradedOn env.nyDate (s.today env)

/-- **A restart makes no difference**: the set that is in memory for the
current date is the one the table tells, and whatever is in memory, the next
tick holds the same strategies back as the first tick of a process that is
started now. -/
structure RestartInvariant (env : RunnerEnv) (s : AttributionSession) : Prop where
  loaded : s.LoadedToday env →
    ∀ sid, sid ∈ s.runner.persistedTradedToday ↔ sid ∈ s.storedToday env
  restarted : ∀ startup : ExecutionRunner.Startup, startup.clock = s.runner.om.clock →
    ∀ sid, sid ∈ (s.runner.beginTick.refreshTradedToday env
          (s.storedToday env)).persistedTradedToday
      ↔ sid ∈ ((ExecutionRunner.initial startup).beginTick.refreshTradedToday env
          (s.storedToday env)).persistedTradedToday

/-- The trades of the current date that the table has, or will have. -/
def TradedToday (env : RunnerEnv) (s : AttributionSession) (sid : StrategyId) : Prop :=
  ∃ e ∈ s.eventual, e.on env.nyDate (s.today env) = true ∧ e.strategyId = sid

/-- **In memory there is what the table will have.** -/
def InSync (env : RunnerEnv) (s : AttributionSession) : Prop :=
  s.LoadedToday env → ∀ sid, sid ∈ s.runner.persistedTradedToday ↔ s.TradedToday env sid

/-- **What holds in every run**: the rows are recorded, and the date of the
set has been. -/
structure Consistent (env : RunnerEnv) (s : AttributionSession) : Prop where
  recorded : s.Recorded
  now : s.runner.now ≤ s.runner.om.clock
  loaded : ∀ day, s.runner.tradedTodayNyDate = some day →
    ∃ u ≤ s.runner.om.clock, env.nyDate u = day

variable {env : RunnerEnv} {s t : AttributionSession}

/-- **Once the writes are done a restart makes no difference.** -/
theorem InSync.restartInvariant (hs : s.InSync env) (hrec : s.Recorded) (hquiet : s.Quiet) :
    s.RestartInvariant env := by
  have hloaded : s.LoadedToday env →
      ∀ sid, sid ∈ s.runner.persistedTradedToday ↔ sid ∈ s.storedToday env := by
    intro hload sid
    rw [hs hload sid, storedToday, PositionStore.mem_strategiesTradedOn, TradedToday,
      hrec.eventual_of_quiet hquiet]
  refine ⟨hloaded, fun startup hclock sid => ?_⟩
  have hfirst : (ExecutionRunner.refreshTradedToday env
      (ExecutionRunner.initial startup).beginTick (s.storedToday env)).persistedTradedToday
      = s.storedToday env := rfl
  rw [hfirst]
  by_cases hload : s.LoadedToday env
  · have hsame : s.runner.beginTick.tradedTodayNyDate
        = some (env.nyDate s.runner.beginTick.now) := hload
    rw [ExecutionRunner.refreshTradedToday, if_pos hsame]
    exact hloaded hload sid
  · have hnew : ¬ s.runner.beginTick.tradedTodayNyDate
        = some (env.nyDate s.runner.beginTick.now) := hload
    rw [ExecutionRunner.refreshTradedToday, if_neg hnew]

/-- **What leaves the set and what the table will hold leaves them in sync**,
also overnight: no set is loaded for a day before it has begun. -/
theorem Consistent.inSync_congr (hdays : env.DaysInOrder) (hs : s.Consistent env)
    (hclock : s.runner.om.clock ≤ t.runner.om.clock)
    (htraded : t.runner.persistedTradedToday = s.runner.persistedTradedToday)
    (hdate : t.runner.tradedTodayNyDate = s.runner.tradedTodayNyDate)
    (heventual : ∀ e, e ∈ t.eventual ↔ e ∈ s.eventual) (hsync : s.InSync env) :
    t.InSync env := by
  intro hload sid
  obtain ⟨u, hu, hday⟩ := hs.loaded _ (hdate.symm.trans hload)
  have htoday : s.today env = t.today env := hdays u _ _ hu hclock hday
  have hload' : s.LoadedToday env := by
    rw [LoadedToday, htoday, ← hdate]
    exact hload
  rw [htraded, hsync hload' sid, TradedToday, TradedToday, htoday]
  exact exists_congr fun e => and_congr_left fun _ => (heventual e).symm

end AttributionSession

/-! ## The runner, the table and the background writes -/

namespace TradedToday

open AttributionSession (LoadedToday InSync Consistent Quiet RestartInvariant)

/-- What happens next. -/
inductive Label where
  /-- Anything the runner does besides handling fills and reading the table. -/
  | runner (l : ExecutionRunner.Label)
  /-- A tick comes to its entries, and reads the table if the date is new. -/
  | refresh
  /-- A fill, a commission, a reason to exit, or a step of a write. -/
  | background (l : AttributionSession.Label)

/-- **One step.** Callbacks are called while the runner awaits something, and
`uuid4` draws no id that the table has. -/
def step (env : RunnerEnv) (s : AttributionSession) : Label → Option AttributionSession
  | .runner l =>
    if s.free ∧ s.runner.leavesTraded l then
      (s.runner.step env l).map fun runner => { s with runner := runner }
    else none
  | .refresh =>
    if s.free then
      (s.runner.step env (.reply (.tradedToday
        (s.store.strategiesTradedOn env.nyDate (env.nyDate s.runner.now))))).map
          fun runner => { s with runner := runner }
    else none
  | .background l =>
    match l with
    | .orders _ => none
    | .fill fill =>
      if ¬ s.runner.busy ∧ s.FreshFor fill then AttributionSession.step env s l else none
    | .commission _ _ => if s.runner.busy then none else AttributionSession.step env s l
    | _ => AttributionSession.step env s l

/-- The runner with its table. -/
def machine (env : RunnerEnv) : Machine AttributionSession Label where
  step := step env

/-- **What the process starts from**: positions that are all in the table. -/
structure Start extends AttributionSession.Start where
  stored : ∀ pos ∈ startup.positions,
    ∃ row ∈ store.rows, row.positionId = pos.positionId ∧ row.strategyId = pos.strategyId

/-- No write is under way, and no tick has begun. -/
def initial (start : Start) : AttributionSession where
  runner := { ExecutionRunner.initial start.startup with now := start.startup.clock }
  store := start.store

/-- **The step keeps memory and table in sync**: a fill that is handled while
the set is that of the current date is of a strategy of the set, or enters a
trade of that date; and when the set of the current date is loaded, every
trade of the date that has no row yet is of a strategy that the table has for
that date already. -/
def KeepsStep (env : RunnerEnv) (s : AttributionSession) : Label → Prop
  | .background (.fill fill) => s.LoadedToday env →
    fill.strategyId ∈ s.runner.persistedTradedToday
      ∨ s.runner.pm.Enters fill ∧ env.nyDate fill.timestamp = s.today env
  | .refresh => s.runner.tradedTodayNyDate ≠ some (env.nyDate s.runner.now) →
    env.nyDate s.runner.now = s.today env →
      ∀ e ∈ s.runner.pm.tradeEntries, e.on env.nyDate (s.today env) = true →
        e.positionId ∈ s.store.tradeEntries.map (·.positionId)
          ∨ e.strategyId ∈ s.storedToday env
  | _ => True

instance (env : RunnerEnv) (s : AttributionSession) : ∀ l, Decidable (KeepsStep env s l)
  | .background (.fill _) => inferInstanceAs (Decidable (_ → _ ∨ _ ∧ _))
  | .refresh => inferInstanceAs (Decidable (_ → _ → ∀ _ ∈ _, _ → _ ∨ _))
  | .runner _ | .background (.orders _) | .background (.exiting _ _)
  | .background (.commission _ _) | .background (.handled _ _) | .background (.read _ _)
  | .background (.write _ _) | .background (.locked _) => isTrue trivial

/-! ### One step -/

variable {env : RunnerEnv} {s t : AttributionSession} {l : Label}

/-- The runner moves, and the trades stay. -/
theorem recorded_runner {r : ExecutionRunner} (hs : s.Recorded)
    (hentries : r.pm.tradeEntries = s.runner.pm.tradeEntries) :
    AttributionSession.Recorded { s with runner := r } where
  wellFormed :=
    { nodup := by
        have hnodup := hs.nodup
        rw [← hentries, PositionManager.tradeEntries, List.map_map] at hnodup
        exact hnodup
      own := hs.wellFormed.own }
  own task htask pos hpos := by
    show pos.tradeEntry ∈ r.pm.tradeEntries
    rw [hentries]
    exact hs.own task htask pos hpos
  agrees e he := hs.agrees e (hentries ▸ he)
  due e he := hs.due e (hentries ▸ he)

theorem eventual_runner {r : ExecutionRunner}
    (hentries : r.pm.tradeEntries = s.runner.pm.tradeEntries) (e : TradeEntry) :
    e ∈ AttributionSession.eventual { s with runner := r } ↔ e ∈ s.eventual := by
  show e ∈ s.store.tradeEntries.withMissing _ r.pm.tradeEntries ↔ _
  rw [hentries]
  exact Iff.rfl

/-- Nor does the callback of a commission, or a step of a write, touch the set
or the clock. -/
theorem runner_background {l : AttributionSession.Label}
    (h : AttributionSession.step env s l = some t) (hfill : ∀ fill, l ≠ .fill fill)
    (horders : ∀ ol, l ≠ .orders ol) :
    t.runner.om = s.runner.om ∧ t.runner.persistedTradedToday = s.runner.persistedTradedToday
      ∧ t.runner.tradedTodayNyDate = s.runner.tradedTodayNyDate ∧ t.runner.now = s.runner.now := by
  cases AttributionSession.step_cases h with
  | orders ol => exact absurd rfl (horders ol)
  | fill fill => exact absurd rfl (hfill fill)
  | commission o amount =>
    unfold AttributionSession.netted ExecutionRunner.onCommission
    split
    · exact ⟨rfl, rfl, rfl, rfl⟩
    · split <;> exact ⟨rfl, rfl, rfl, rfl⟩
  | exiting | starts | writesNow | reads | writes | retries => exact ⟨rfl, rfl, rfl, rfl⟩

/-- **What a step does to the set, its date and the trades**: it leaves them,
or a tick loads the set, or a fill is handled. -/
inductive Effect (env : RunnerEnv) (s : AttributionSession) (l : Label) (t : AttributionSession) :
    Prop
  | kept (hrec : t.Recorded) (heventual : ∀ e, e ∈ t.eventual ↔ e ∈ s.eventual)
      (hclock : s.runner.om.clock ≤ t.runner.om.clock)
      (htraded : t.runner.persistedTradedToday = s.runner.persistedTradedToday)
      (hdate : t.runner.tradedTodayNyDate = s.runner.tradedTodayNyDate)
      (hnow : t.runner.now = s.runner.now ∨ t.runner.now = s.runner.om.clock)
      (hkeeps : KeepsStep env s l)
  | loaded (hl : l = .refresh) (hrec : t.Recorded)
      (heventual : ∀ e, e ∈ t.eventual ↔ e ∈ s.eventual)
      (hclock : t.runner.om = s.runner.om) (hnow : t.runner.now = s.runner.now)
      (hold : s.runner.tradedTodayNyDate ≠ some (env.nyDate s.runner.now))
      (hnew : t.runner.tradedTodayNyDate = some (env.nyDate s.runner.now))
      (htraded : t.runner.persistedTradedToday
        = s.store.strategiesTradedOn env.nyDate (env.nyDate s.runner.now))
  | filled (fill : FillEvent) (hl : l = .background (.fill fill)) (hfresh : s.FreshFor fill)
      (hrec : t.Recorded) (ht : t = s.filled env fill)

/-- Where a callback or a write steps. -/
theorem step_background {k : AttributionSession.Label} (h : step env s (.background k) = some t) :
    AttributionSession.step env s k = some t ∧ (∀ ol, k ≠ .orders ol)
      ∧ ∀ fill, k = .fill fill → s.FreshFor fill := by
  cases k with
  | orders ol => cases h
  | fill fill =>
    obtain ⟨⟨-, hfresh⟩, h⟩ := Option.ite_none_right_eq_some.mp h
    refine ⟨h, fun _ heq => ?_, fun fill' heq => ?_⟩ <;> cases heq
    exact hfresh
  | commission o amount =>
    obtain ⟨-, h⟩ := Option.ite_none_left_eq_some.mp h
    refine ⟨h, fun _ heq => ?_, fun _ heq => ?_⟩ <;> cases heq
  | exiting | handled | read | write | locked =>
    refine ⟨h, fun _ heq => ?_, fun _ heq => ?_⟩ <;> cases heq

/-- **Every step is one of these.** -/
theorem step_effect (hs : s.Recorded) (h : step env s l = some t) : Effect env s l t := by
  cases l with
  | runner l =>
    obtain ⟨⟨-, hl⟩, h⟩ := Option.ite_none_right_eq_some.mp h
    obtain ⟨r, hr, rfl⟩ := Option.map_eq_some_iff.mp h
    have hkept := ExecutionRunner.step_keepsTraded hr hl
    exact .kept (recorded_runner hs hkept.entries) (eventual_runner hkept.entries)
      (ExecutionRunner.clock_step hr) hkept.tradedToday hkept.date
      (hkept.now.imp_right And.left) trivial
  | refresh =>
    obtain ⟨-, h⟩ := Option.ite_none_right_eq_some.mp h
    obtain ⟨r, hr, rfl⟩ := Option.map_eq_some_iff.mp h
    obtain ⟨-, hr⟩ := Option.ite_none_right_eq_some.mp hr
    obtain rfl := ExecutionRunner.answered_tradedToday hr
    -- the table is read once a day; later refreshes keep what was read
    by_cases hold : s.runner.tradedTodayNyDate = some (env.nyDate s.runner.now)
    · have hkept := ExecutionRunner.startEntries_keepsTraded
        (s.store.strategiesTradedOn env.nyDate (env.nyDate s.runner.now)) hold
      exact .kept (recorded_runner hs hkept.entries) (eventual_runner hkept.entries)
        (ExecutionRunner.answered_clock hr).ge hkept.tradedToday hkept.date
        (hkept.now.imp_right And.left) fun hnew => absurd hold hnew
    · obtain ⟨htraded, hdate, hpm, hom, hnow⟩ := ExecutionRunner.startEntries_loads
        (s.store.strategiesTradedOn env.nyDate (env.nyDate s.runner.now)) hold
      have hentries := congrArg PositionManager.tradeEntries hpm
      exact .loaded rfl (recorded_runner hs hentries) (eventual_runner hentries) hom hnow hold
        hdate htraded
  | background k =>
    obtain ⟨h, horders, hfresh⟩ := step_background h
    by_cases hfill : ∃ fill, k = .fill fill
    · obtain ⟨fill, rfl⟩ := hfill
      have hwf := AttributionSession.wellFormed_step hs.wellFormed h
      obtain ⟨-, h⟩ := Option.ite_none_right_eq_some.mp h
      obtain rfl := Option.some.inj h
      exact .filled fill rfl (hfresh fill rfl) (hs.filled (hfresh fill rfl) hwf) rfl
    · have hfill' : ∀ fill, k ≠ .fill fill := fun fill heq => hfill ⟨fill, heq⟩
      obtain ⟨hrec, heventual, -⟩ := AttributionSession.recorded_step hs h hfill'
      obtain ⟨hom, htraded, hdate, hnow⟩ := runner_background h hfill' horders
      refine .kept hrec heventual (congrArg OrderManager.clock hom).ge htraded hdate (.inl hnow) ?_
      cases k with
      | fill fill => exact absurd rfl (hfill' fill)
      | _ => trivial

/-- **What holds in every run.** -/
theorem consistent_step (hs : s.Consistent env) (h : step env s l = some t) :
    t.Consistent env := by
  cases step_effect hs.recorded h with
  | kept hrec heventual hclock htraded hdate hnow hkeeps =>
    refine ⟨hrec, ?_, fun day hday => ?_⟩
    · rcases hnow with hnow | hnow
      · exact hnow.trans_le (hs.now.trans hclock)
      · exact hnow.trans_le hclock
    · obtain ⟨u, hu, hon⟩ := hs.loaded day (hdate.symm.trans hday)
      exact ⟨u, hu.trans hclock, hon⟩
  | loaded hl hrec heventual hom hnow hold hnew htraded =>
    refine ⟨hrec, ?_, fun day hday => ?_⟩
    · rw [hom, hnow]
      exact hs.now
    · refine ⟨s.runner.now, ?_, Option.some.inj (hnew.symm.trans hday)⟩
      rw [hom]
      exact hs.now
  | filled fill hl hfresh hrec ht =>
    subst ht
    exact ⟨hrec, hs.now, hs.loaded⟩

/-- **A fill keeps memory and table in sync exactly where it adds to
both**, or to neither. -/
theorem inSync_filled (hsync : s.InSync env) {fill : FillEvent} (hfresh : s.FreshFor fill) :
    (s.filled env fill).InSync env ↔ KeepsStep env s (.background (.fill fill)) := by
  have htraded : ∀ sid, sid ∈ (s.filled env fill).runner.persistedTradedToday
      ↔ sid = fill.strategyId ∨ sid ∈ s.runner.persistedTradedToday := by
    intro sid
    show sid ∈ (s.runner.filled env fill).persistedTradedToday ↔ _
    rw [(ExecutionRunner.traded_filled fill).1]
    exact List.mem_insert_iff
  have htable : ∀ sid, (s.filled env fill).TradedToday env sid ↔ s.TradedToday env sid
      ∨ s.runner.pm.Enters fill ∧ env.nyDate fill.timestamp = s.today env
        ∧ fill.strategyId = sid := by
    intro sid
    constructor
    · rintro ⟨e, he, hon, rfl⟩
      rcases (AttributionSession.mem_eventual_filled hfresh).mp he with hold | ⟨henters, rfl⟩
      · exact .inl ⟨e, hold, hon, rfl⟩
      · exact .inr ⟨henters, of_decide_eq_true hon, rfl⟩
    · rintro (⟨e, he, hon, rfl⟩ | ⟨henters, hon, rfl⟩)
      · exact ⟨e, (AttributionSession.mem_eventual_filled hfresh).mpr (.inl he), hon, rfl⟩
      · exact ⟨s.entered fill, (AttributionSession.mem_eventual_filled hfresh).mpr
          (.inr ⟨henters, rfl⟩), decide_eq_true hon, rfl⟩
  show (s.LoadedToday env → _) ↔ (s.LoadedToday env → _)
  -- both sides gain the strategy of the fill; they stay equal where both do, or it was
  -- there
  refine forall_congr' fun hload => ?_
  simp only [htraded, htable, ← hsync hload]
  constructor
  · intro h
    exact ((h fill.strategyId).mp (.inl rfl)).imp_right fun hnew => ⟨hnew.1, hnew.2.1⟩
  · rintro (hold | ⟨henters, hon⟩) sid
    · constructor
      · rintro (rfl | hmem)
        · exact .inl hold
        · exact .inl hmem
      · rintro (hmem | ⟨-, -, rfl⟩)
        · exact .inr hmem
        · exact .inl rfl
    · rw [or_comm]
      exact or_congr_right ⟨fun heq => ⟨henters, hon, heq.symm⟩, fun hnew => hnew.2.2.symm⟩

/-- **Loading the set keeps memory and table in sync exactly where every trade
of the date is in the table**, or another of its strategy. -/
theorem inSync_loaded (heventual : ∀ e, e ∈ t.eventual ↔ e ∈ s.eventual)
    (hom : t.runner.om = s.runner.om)
    (hold : s.runner.tradedTodayNyDate ≠ some (env.nyDate s.runner.now))
    (hnew : t.runner.tradedTodayNyDate = some (env.nyDate s.runner.now))
    (htraded : t.runner.persistedTradedToday
      = s.store.strategiesTradedOn env.nyDate (env.nyDate s.runner.now)) :
    t.InSync env ↔ KeepsStep env s .refresh := by
  have htoday : t.today env = s.today env := by
    show env.nyDate t.runner.om.clock = env.nyDate s.runner.om.clock
    rw [hom]
  have hload : t.LoadedToday env ↔ env.nyDate s.runner.now = s.today env := by
    rw [LoadedToday, hnew, htoday, Option.some_inj]
  have htable : ∀ sid, t.TradedToday env sid ↔ s.TradedToday env sid := by
    intro sid
    rw [AttributionSession.TradedToday, htoday]
    exact exists_congr fun e => and_congr_left fun _ => heventual e
  constructor
  · intro hsync _ hday e he hon
    -- an entry that is not in the table yet is missed by the load
    by_cases hstored : e.positionId ∈ s.store.tradeEntries.map (·.positionId)
    · exact .inl hstored
    · have hmem := (hsync (hload.mpr hday) e.strategyId).mpr
        ((htable _).mpr ⟨e, List.mem_withMissing.mpr (.inr ⟨he, hstored⟩), hon, rfl⟩)
      rw [htraded, hday] at hmem
      exact .inr hmem
  · intro hkeeps hloaded sid
    have hday := hload.mp hloaded
    rw [htraded, hday, htable, PositionStore.mem_strategiesTradedOn]
    constructor
    · rintro ⟨e, he, hon⟩
      exact ⟨e, List.mem_withMissing.mpr (.inl he), hon⟩
    · rintro ⟨e, he, hon, rfl⟩
      rcases List.mem_withMissing.mp he with hstored | ⟨hbook, hmissing⟩
      · exact ⟨e, hstored, hon, rfl⟩
      · have hmem := (hkeeps hold hday e hbook hon).resolve_left hmissing
        exact PositionStore.mem_strategiesTradedOn.mp hmem

/-- **What a step does to memory and table.** -/
theorem inSync_step (hdays : env.DaysInOrder) (hs : s.Consistent env) (hsync : s.InSync env)
    (h : step env s l = some t) : t.InSync env ↔ KeepsStep env s l := by
  cases step_effect hs.recorded h with
  | kept hrec heventual hclock htraded hdate hnow hkeeps =>
    exact iff_of_true (hs.inSync_congr hdays hclock htraded hdate heventual hsync) hkeeps
  | loaded hl hrec heventual hom hnow hold hnew htraded =>
    subst hl
    exact inSync_loaded heventual hom hold hnew htraded
  | filled fill hl hfresh hrec ht =>
    subst hl ht
    exact inSync_filled hsync hfresh

/-! ### Every run -/

theorem consistent_initial (start : Start) : (initial start).Consistent env where
  recorded :=
    { wellFormed := ⟨start.nodup, List.forall_mem_nil _⟩
      own := fun task htask => by cases htask
      agrees := by
        intro e he r hr hsame
        obtain ⟨pos, hpos, rfl⟩ := List.mem_map.mp he
        obtain ⟨row, hrow, rfl⟩ := List.mem_map.mp hr
        obtain ⟨row', hrow', hid, hstrategy⟩ := start.stored pos hpos
        obtain rfl := PositionStore.eq_of_positionId hrow hrow' (hsame.trans hid.symm)
        exact hstrategy
      due := by
        intro e he
        obtain ⟨pos, hpos, rfl⟩ := List.mem_map.mp he
        obtain ⟨row, hrow, hid, -⟩ := start.stored pos hpos
        exact .inl (List.mem_map.mpr ⟨row.tradeEntry, List.mem_map_of_mem hrow, hid⟩) }
  now := le_rfl
  loaded := fun day hday => by cases hday

/-- Before the first tick nothing is loaded. -/
theorem inSync_initial (start : Start) : (initial start).InSync env := fun hload => by cases hload

/-- **Memory and table are in sync in a run exactly when every step keeps
them so.** -/
theorem along_inSync_iff (hdays : env.DaysInOrder) (start : Start) (ls : List Label) :
    (machine env).Along (fun _ _ t => t.InSync env) (initial start) ls
      ↔ (machine env).Along (fun s l _ => KeepsStep env s l) (initial start) ls :=
  Machine.along_target_iff (fun _ _ _ hs h => consistent_step hs h)
    (fun _ _ _ hs hsync h => inSync_step hdays hs hsync h) (consistent_initial start)
    (inSync_initial start)

/-- **In a run that keeps memory and table in sync a restart makes no
difference**, whenever the background writes have finished. -/
theorem restartInvariant_of_keepsStep (env : RunnerEnv) (hdays : env.DaysInOrder) (start : Start)
    (ls : List Label) :
    (machine env).Along (fun s l _ => KeepsStep env s l) (initial start) ls →
      (machine env).Throughout (fun s => s.Quiet → s.RestartInvariant env) (initial start) ls := by
  intro hkeeps ks t hks hrun hquiet
  obtain ⟨rest, rfl⟩ := hks
  have hpre := (Machine.along_append.mp hkeeps).1
  have hboth : t.Consistent env ∧ t.InSync env := by
    have hstep : ∀ (s : AttributionSession) (l : Label) (t : AttributionSession),
        s.Consistent env ∧ s.InSync env → (machine env).step s l = some t → KeepsStep env s l →
          t.Consistent env ∧ t.InSync env := fun s l t hs h hl =>
      ⟨consistent_step hs.1 h, (inSync_step hdays hs.1 hs.2 h).mpr hl⟩
    exact Machine.run_invariant hstep ⟨consistent_initial start, inSync_initial start⟩ hpre hrun
  exact hboth.2.restartInvariant hboth.1.recorded hquiet

/-! ### From the seeding -/

/-- Every seeded position has a row of its strategy, and an id of its own. -/
structure Seeded (st : Seeding) : Prop where
  nodup : (st.runner.pm.positions.map (·.positionId)).Nodup
  stored : ∀ k ∈ st.runner.pm.positions.map (fun pos => (pos.positionId, pos.strategyId)),
    k ∈ st.store.rows.map fun row => (row.positionId, row.strategyId)

theorem Seeded.seedOnePosition {st : Seeding} (hst : Seeded st) (now : Time)
    (share : Position × Option Attribution) :
    Seeded (st.seedOnePosition env now share.1 share.2) := by
  let pos := st.runner.seededPosition now share.1 share.2
  constructor
  · rw [Seeding.map_seedOnePosition (·.positionId) fun _ _ _ _ _ _ => rfl]
    exact List.nodup_put hst.nodup
  · intro k hk
    rw [Seeding.map_seedOnePosition _ fun _ _ _ _ _ _ => rfl] at hk
    obtain ⟨pos', hpos', rfl⟩ := List.mem_map.mp hk
    rw [List.mem_map]
    show ∃ row ∈ st.store.rows.upsert (·.positionId) pos.positionId
      (.ofPosition now none pos) (.refreshed (.ofPosition now none pos)), _
    rcases List.mem_put.mp hpos' with rfl | ⟨hold, hne⟩
    · by_cases hrow : ∃ row ∈ st.store.rows, row.positionId = pos.positionId
      · obtain ⟨row, hmem, hid⟩ := hrow
        exact ⟨_, List.mem_upsert.mpr (.inr (.inl ⟨row, hmem, hid, rfl⟩)),
          Prod.ext hid rfl⟩
      · refine ⟨_, List.mem_upsert.mpr (.inr (.inr ⟨fun row hmem hid => ?_, rfl⟩)), rfl⟩
        exact hrow ⟨row, hmem, hid⟩
    · obtain ⟨row, hmem, hsame⟩ := List.mem_map.mp (hst.stored _ (List.mem_map_of_mem hold))
      refine ⟨row, List.mem_upsert.mpr (.inl ⟨hmem, fun hid => hne ?_⟩), hsame⟩
      exact (congrArg Prod.fst hsame).symm.trans hid

theorem Seeded.seedPosition {st : Seeding} (hst : Seeded st) (now : Time) (bpos : Position) :
    Seeded (st.seedPosition env now bpos) := by
  unfold Seeding.seedPosition
  split_ifs
  · exact hst
  · exact List.foldlRecOn _ _ hst fun _ hst share _ => hst.seedOnePosition now share

/-- **What the seeding leaves is what the process starts from.** -/
theorem seeded_seedPositionsFromBroker {st : Seeding} (now : Time)
    (hempty : st.runner.pm.positions = []) (broker : Option (List Position)) :
    Seeded (st.seedPositionsFromBroker env now broker) := by
  have hstart : Seeded st := by
    constructor <;> rw [hempty]
    · exact List.nodup_nil
    · exact fun _ hk => by cases hk
  match broker with
  | none | some [] => exact hstart
  | some (b :: bs) =>
    have hfold : Seeded ((b :: bs).foldl (Seeding.seedPosition env now) st) :=
      List.foldlRecOn _ _ hstart fun _ hst bpos _ => hst.seedPosition now bpos
    refine ⟨hfold.nodup, fun k hk => ?_⟩
    obtain ⟨row, hrow, hsame⟩ := List.mem_map.mp (hfold.stored k hk)
    refine List.mem_map.mpr ⟨_, List.mem_map_of_mem hrow, ?_⟩
    rw [← hsame]
    split_ifs <;> rfl

/-- A process that starts after its seeding. -/
def Start.ofSeeding (st : Seeding) (hst : Seeded st) (clock : Time) : Start where
  startup :=
    { clock := clock
      positions := st.runner.pm.positions
      strategyConfigs := st.runner.strategyConfigs
      systemLocked := st.runner.systemLocked
      pausedStrategies := st.runner.pausedStrategies }
  store := st.store
  nodup := hst.nodup
  stored pos hpos := by
    obtain ⟨row, hrow, hsame⟩ := List.mem_map.mp (hst.stored _ (List.mem_map_of_mem hpos))
    exact ⟨row, hrow, Prod.mk.inj hsame⟩

/-! ### Overnight -/

/-- A label of the runner, of its fills or of its reading of the table. -/
def ofRunner : ExecutionRunner.Label → Label
  | .reply (.tradedToday _) => .refresh
  | .fill fill => .background (.fill fill)
  | l => .runner l

/-- The first fill is handled, and its task writes the row. -/
def firstWrite : List Label :=
  [.handled 0 0, .read 0 false, .read 0 false, .read 0 false, .read 0 false, .write 0 1].map
    .background

/-- Nothing is held, and the table is empty. -/
def sampleStart : Start :=
  { AttributionSession.sampleStart with stored := fun _ hpos => by cases hpos }

/-- The first entry of a day is filled, and its row written. -/
def entersAndWrites : List Label :=
  (ExecutionRunner.firstEntry
      ++ [ExecutionRunner.Label.fill (sampleFill .buy 2 Nat.zero_lt_two)]).map ofRunner
    ++ firstWrite

theorem restartInvariant_entersAndWrites :
    (machine sampleEnv).Throughout (fun s => s.Quiet → s.RestartInvariant sampleEnv)
      (initial sampleStart) entersAndWrites :=
  restartInvariant_of_keepsStep sampleEnv (fun _ _ _ _ _ _ => rfl) sampleStart entersAndWrites
    (by decide +kernel)

/-- Two dates. -/
def twoDays : RunnerEnv :=
  { sampleEnv with nyDate := fun t => if t < 86400 then "2026-06-11" else "2026-06-12" }

/-- On the second day, a strategy holds what it entered on the first. -/
def overnightStart : Start where
  startup := { ExecutionRunner.heldStartup 1 with clock := 90000 }
  store := { rows := [{ Seeding.sampleRow 1 "orb" .buy 2 with entryTime := some 0 }] }
  nodup := by decide
  stored := by decide

/-- It exits in the first tick, and the row is written. -/
def exitsAndWrites : List Label := (ExecutionRunner.exitTick []).map ofRunner ++ firstWrite

/-- **A restart makes a difference in some run**: the strategy that exits what
it held overnight has traded today in memory, and not in the table. -/
theorem not_restartInvariant : ¬ ∀ (env : RunnerEnv), env.DaysInOrder → ∀ start ls,
    (machine env).Throughout (fun s => s.Quiet → s.RestartInvariant env) (initial start) ls := by
  intro h
  have hdays : twoDays.DaysInOrder := by
    intro u v w huv hvw hsame
    show (if v < 86400 then _ else _ : String) = if w < 86400 then _ else _
    replace hsame : (if u < 86400 then "2026-06-11" else "2026-06-12")
      = if w < 86400 then "2026-06-11" else "2026-06-12" := hsame
    by_cases hw : w < 86400
    · rw [if_pos hw, if_pos (hvw.trans_lt hw)]
    · by_cases hu : u < 86400
      · rw [if_pos hu, if_neg hw] at hsame
        exact absurd hsame (by decide)
      · rw [if_neg hw, if_neg fun hv => hu (huv.trans_lt hv)]
  have hrun : ((machine twoDays).run (initial overnightStart) exitsAndWrites).any
      (fun s => decide s.Quiet && decide (s.LoadedToday twoDays)
        && s.runner.persistedTradedToday.contains "orb"
        && !(s.storedToday twoDays).contains "orb") = true := by
    decide +kernel
  obtain ⟨t, ht, hall⟩ := (Option.any_eq_true _ _).mp hrun
  rw [Bool.and_eq_true, Bool.and_eq_true, Bool.and_eq_true] at hall
  obtain ⟨⟨⟨hquiet, hload⟩, hmem⟩, hnot⟩ := hall
  have hinv := h twoDays hdays overnightStart exitsAndWrites exitsAndWrites t List.prefix_rfl ht
    (of_decide_eq_true hquiet)
  have hstored := (hinv.loaded (of_decide_eq_true hload) "orb").mp (List.contains_iff_mem.mp hmem)
  rw [List.contains_iff_mem.mpr hstored] at hnot
  cases hnot

end TradedToday
