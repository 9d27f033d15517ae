import ExecutionSystem.RunnerSteps

/-!
# The command queue

The dashboard is another process. It inserts its commands into a table
(`src/control/command_queue.py`), and each tick of the runner drains at most
ten of them, oldest first, through the branches of `_process_commands`. The
table is the only thing the two share: a row is `pending` until the runner
marks it, a runner that is restarted reads the table as it is, and the
fetched rows that a tick has not come to yet are its local variable.

A `CommandSession` is the runner with the table, and with what the claim of
the queue is about: which commands were processed, in order. A branch may
raise, before it has done anything or after it has marked its row, and the
handler then marks the row once more.
-/

/-! ## The table -/

/-- The id of a command: the how-manieth of the table it is. -/
abbrev CommandId := ℕ

/-- `status` of a row. -/
inductive CommandStatus where
  | pending
  | done
  | failed
  deriving DecidableEq

/-- A row of `commands`, its type and payload as `_process_commands` reads
them. The columns `processed_at` and `result` are left out: `mark` writes them
for the display of the dashboard, and the runner reads neither. -/
structure CommandRow where
  commandId : CommandId
  command : Command
  status : CommandStatus
  createdAt : Time

/-- What a row says of the command it is for. -/
def CommandRow.entry (row : CommandRow) : CommandId × Command := (row.commandId, row.command)

/-- **The table of commands**, in the order of insertion. -/
structure CommandQueue where
  rows : List CommandRow := []

namespace CommandQueue

/-- `enqueue`. -/
def enqueue (q : CommandQueue) (command : Command) (createdAt : Time) : CommandQueue :=
  ⟨q.rows ++ [⟨q.rows.length, command, .pending, createdAt⟩]⟩

/-- `fetch_pending`: the oldest pending rows. -/
def fetchPending (q : CommandQueue) (limit : ℕ) : List CommandRow :=
  ((q.rows.filter (·.status = .pending)).mergeSort (·.createdAt ≤ ·.createdAt)).take limit

/-- `mark`, but for the instant and the message that it writes beside. -/
def mark (q : CommandQueue) (id : CommandId) (status : CommandStatus) : CommandQueue :=
  ⟨q.rows.map fun row => if row.commandId = id then { row with status := status } else row⟩

end CommandQueue

/-! ## What a branch answers -/

/-- How a branch of `_process_commands` ends: as it should, by an exception
before it has any effect, or by one after it has marked its row. -/
inductive Outcome where
  | completes
  | raisesBefore
  | raisesAfter
  deriving DecidableEq

/-- The marks that a command gets, one after the other. -/
def Outcome.marks (verdict : CommandStatus) : Outcome → List CommandStatus
  | .completes => [verdict]
  | .raisesBefore => [.failed]
  | .raisesAfter => [verdict, .failed]

/-- The fetched commands that `_process_commands` has not come to yet, where
the runner is in it. -/
def RunnerPc.left : RunnerPc → Option (List Command)
  | commands rest | awaiting _ (commands rest) | reconcilePositions (.unlockCommand rest) ..
  | reconcileOrders (.unlockCommand rest) .. => some rest
  | _ => none

/-- The runner awaits something for a command. -/
def RunnerPc.midCommand : RunnerPc → Bool
  | awaiting _ (commands _) | reconcilePositions (.unlockCommand _) ..
  | reconcileOrders (.unlockCommand _) .. => true
  | _ => false

namespace ExecutionRunner

/-- Whether `fire_straddle` queues the request. -/
def firesStraddle (env : RunnerEnv) (s : ExecutionRunner) (sid : StrategyId) : Bool :=
  (s.config sid).any fun cfg =>
    cfg.signalSource = "xsp_short_straddle" && cfg.enabled
      && !s.pausedStrategies.contains sid && !env.entryWindowClosed cfg s.now

/-- Whether `_apply_strategy_update` applies all changes, and there are
any. -/
def appliesUpdate (s : ExecutionRunner) (sid : StrategyId) (changes : List ParamChange) : Bool :=
  (s.config sid).isSome && !changes.isEmpty
    && changes.all fun | .refused => false | _ => true

/-- What a command is marked that is over at once. -/
def verdictAtOnce (env : RunnerEnv) (s : ExecutionRunner) : Command → CommandStatus
  | .exitPosition p =>
    if s.pm.getOpenPositions.any (·.positionId = p) then .done else .failed
  | .fireStraddle sid =>
    if s.firesStraddle env (sid.getD "xsp_straddle_manual") then .done else .failed
  | .updateStrategy sid changes => if s.appliesUpdate sid changes then .done else .failed
  | .unknown => .failed
  | _ => .done

/-- **What a command is marked by the step that ends it**: at once, with what
`cancel_order` returned, or with what the reconciliation of the unlock
found. -/
def verdict (env : RunnerEnv) (s s' : ExecutionRunner) (l : Label) : CommandStatus :=
  match s.pc, l with
  | .commands (c :: _), _ => s.verdictAtOnce env c
  | .awaiting t _, _ => if s.om.tasks[t]? = some (.done true) then .done else .failed
  | _, .reply (.openOrders _) => if s'.systemLocked then .failed else .done
  | _, _ => .failed

/-- The command that is next, as it comes out: one that raises before it has
any effect has none. -/
def asRead (s : ExecutionRunner) : Outcome → ExecutionRunner
  | .raisesBefore =>
    match s.pc with
    | .commands (_ :: rest) => s.at' (.commands (.unknown :: rest))
    | _ => s
  | _ => s

end ExecutionRunner

/-! ## The session -/

/-- **The runner and its queue.** -/
structure CommandSession where
  runner : ExecutionRunner
  queue : CommandQueue := {}
  /-- The ids of the fetched rows that the tick has not come to yet. -/
  batch : List CommandId := []
  /-- The command that the runner awaits something for. -/
  current : Option CommandId := none
  /-- The commands processed, in order; the program keeps no such record. -/
  processed : List (CommandId × Command) := []

namespace CommandSession

/-- What can happen next. -/
inductive Label where
  /-- The dashboard inserts a command. -/
  | enqueue (command : Command) (createdAt : Time)
  /-- The runner is started anew. -/
  | restart (start : ExecutionRunner.Startup)
  /-- The tick fetches the pending commands. -/
  | fetch
  /-- Anything else of the runner; the outcome is that of the command, if
  one is over with it. -/
  | runner (l : ExecutionRunner.Label) (outcome : Outcome)

/-- A command that is over is marked. -/
def settle (env : RunnerEnv) (before : ExecutionRunner) (l : ExecutionRunner.Label)
    (outcome : Outcome) (s : CommandSession) : CommandSession :=
  match s.current, s.runner.pc with
  | some id, .commands _ =>
    { s with
      queue := (outcome.marks (before.verdict env s.runner l)).foldl (·.mark id ·) s.queue
      current := none }
  | _, _ => s

/-- **One step of the session.** Reads and marks succeed. A restart finds the
table as it is, and is anywhere outside `_process_commands`, between two
ticks for one. -/
def step (env : RunnerEnv) (s : CommandSession) : Label → Option CommandSession
  | .enqueue command createdAt =>
    if s.queue.rows.all (·.createdAt < createdAt) then
      some { s with queue := s.queue.enqueue command createdAt }
    else none
  | .restart start =>
    if s.runner.pc.left.isNone then some { s with runner := .initial start } else none
  | .fetch =>
    match s.runner.pc with
    | .fetchCommands =>
      let pending := s.queue.fetchPending 10
      (s.runner.step env (.reply (.commands (pending.map (·.command))))).map fun r =>
        { s with runner := r, batch := pending.map (·.commandId) }
    | _ => none
  | .runner l outcome =>
    match s.runner.pc with
    | .fetchCommands => none
    | .commands (c :: _) =>
      match s.batch with
      | [] => none
      | id :: batch =>
        ((s.runner.asRead outcome).step env l).map fun r =>
          settle env s.runner l outcome
            { s with
              runner := r
              batch := batch
              current := some id
              processed := s.processed ++ [(id, c)] }
    | _ => (s.runner.step env l).map fun r =>
        settle env s.runner l outcome { s with runner := r }

/-- The runner with its queue and an arbitrary dashboard. -/
def machine (env : RunnerEnv) : Machine CommandSession Label where
  step := step env

/-- An empty queue. -/
def initial (start : ExecutionRunner.Startup) : CommandSession where
  runner := .initial start

/-- The command that a step inserts. -/
def Label.enqueued : Label → Option Command
  | .enqueue command _ => some command
  | _ => none

end CommandSession

/-! ## Reading and marking the table -/

namespace CommandQueue

variable {q : CommandQueue}

/-- **A table that one dashboard fills**: the ids are the places, and the
times ascend. -/
structure Ordered (q : CommandQueue) : Prop where
  ids : ∀ (i : ℕ) (row : CommandRow), q.rows[i]? = some row → row.commandId = i
  times : q.rows.Pairwise (·.createdAt < ·.createdAt)

/-- The rows from the `n`-th on, and only they, are pending. -/
def PendingFrom (q : CommandQueue) (n : ℕ) : Prop :=
  ∀ (i : ℕ) (row : CommandRow), q.rows[i]? = some row → (row.status = .pending ↔ n ≤ i)

theorem Ordered.enqueue (hq : q.Ordered) {command : Command} {createdAt : Time}
    (hlater : ∀ row ∈ q.rows, row.createdAt < createdAt) :
    (q.enqueue command createdAt).Ordered where
  ids i row hrow := by
    rcases List.getElem?_append_cases hrow with hrow | ⟨rfl, rfl⟩
    · exact hq.ids i row hrow
    · rfl
  times := List.pairwise_append.mpr
    ⟨hq.times, List.pairwise_singleton _ _, fun row hrow _ hnew =>
      List.mem_singleton.mp hnew ▸ hlater row hrow⟩

/-- **The pending rows come out in order**, from the first one on. -/
theorem fetchPending_eq (hq : q.Ordered) {n : ℕ} (hn : q.PendingFrom n) (limit : ℕ) :
    q.fetchPending limit = (q.rows.drop n).take limit := by
  have hfilter : q.rows.filter (·.status = .pending) = q.rows.drop n := by
    have htake : (q.rows.take n).filter (·.status = .pending) = [] := by
      refine List.filter_eq_nil_iff.mpr fun row hrow => ?_
      obtain ⟨i, hi⟩ := List.mem_iff_getElem?.mp hrow
      rw [List.getElem?_take] at hi
      split_ifs at hi with hlt
      rw [decide_eq_true_iff, hn i row hi]
      exact Nat.not_le.mpr hlt
    have hdrop : (q.rows.drop n).filter (·.status = .pending) = q.rows.drop n := by
      refine List.filter_eq_self.mpr fun row hrow => ?_
      obtain ⟨i, hi⟩ := List.mem_iff_getElem?.mp hrow
      rw [List.getElem?_drop] at hi
      rw [decide_eq_true_iff, hn _ row hi]
      exact Nat.le_add_right n i
    calc q.rows.filter (·.status = .pending)
        = (q.rows.take n ++ q.rows.drop n).filter (·.status = .pending) := by
          rw [List.take_append_drop]
      _ = q.rows.drop n := by rw [List.filter_append, htake, hdrop, List.nil_append]
  have hsorted : (q.rows.drop n).Pairwise fun r r' => decide (r.createdAt ≤ r'.createdAt) = true :=
    (hq.times.drop).imp fun h => decide_eq_true h.le
  rw [fetchPending, hfilter, List.mergeSort_of_pairwise hsorted]

/-- A mark is seen in the row of its id and nowhere else. -/
theorem mark_lookup (hq : q.Ordered) (id : CommandId) (status : CommandStatus) (i : ℕ) :
    (q.mark id status).rows[i]?
      = q.rows[i]?.map fun row => if i = id then { row with status := status } else row := by
  show (q.rows.map _)[i]? = _
  rw [List.getElem?_map]
  cases hrow : q.rows[i]? with
  | none => rfl
  | some row => rw [Option.map_some, Option.map_some, hq.ids i row hrow]

/-- A mark leaves which commands there are. -/
theorem mark_entries (q : CommandQueue) (id : CommandId) (status : CommandStatus) :
    (q.mark id status).rows.map (·.entry) = q.rows.map (·.entry) := by
  show (q.rows.map _).map _ = _
  rw [List.map_map]
  refine List.map_congr_left fun row _ => ?_
  show CommandRow.entry (if row.commandId = id then _ else row) = row.entry
  split_ifs <;> rfl

theorem Ordered.mark (hq : q.Ordered) (id : CommandId) (status : CommandStatus) :
    (q.mark id status).Ordered where
  ids i row hrow := by
    rw [mark_lookup hq] at hrow
    obtain ⟨old, hold, rfl⟩ := Option.map_eq_some_iff.mp hrow
    rw [← hq.ids i old hold]
    split_ifs <;> rfl
  times := by
    refine List.pairwise_map.mpr (hq.times.imp fun h => ?_)
    split_ifs <;> exact h

/-- The last of two marks counts. -/
theorem mark_mark (q : CommandQueue) (id : CommandId) (first last : CommandStatus) :
    (q.mark id first).mark id last = q.mark id last := by
  show CommandQueue.mk ((q.rows.map _).map _) = CommandQueue.mk (q.rows.map _)
  rw [List.map_map]
  refine congrArg _ (List.map_congr_left fun row _ => ?_)
  by_cases h : row.commandId = id
  · simp only [Function.comp_apply, if_pos h]
  · simp only [Function.comp_apply, if_neg h]

end CommandQueue

/-- What a row is marked last. -/
def Outcome.final (verdict : CommandStatus) : Outcome → CommandStatus
  | .completes => verdict
  | .raisesBefore | .raisesAfter => .failed

/-- All marks of a command are its last one. -/
theorem Outcome.foldl_marks (verdict : CommandStatus) (o : Outcome) (q : CommandQueue)
    (id : CommandId) :
    (o.marks verdict).foldl (·.mark id ·) q = q.mark id (o.final verdict) := by
  cases o with
  | completes | raisesBefore => rfl
  | raisesAfter => exact CommandQueue.mark_mark q id verdict .failed

theorem ExecutionRunner.verdict_ne_pending (env : RunnerEnv) (s s' : ExecutionRunner)
    (l : ExecutionRunner.Label) : s.verdict env s' l ≠ .pending := by
  unfold verdict
  split
  · unfold verdictAtOnce
    split <;> try split_ifs
    all_goals exact CommandStatus.noConfusion
  · split_ifs <;> exact CommandStatus.noConfusion
  · split_ifs <;> exact CommandStatus.noConfusion
  · exact CommandStatus.noConfusion

theorem Outcome.final_ne_pending {verdict : CommandStatus} (h : verdict ≠ .pending)
    (o : Outcome) : o.final verdict ≠ .pending := by
  cases o with
  | completes => exact h
  | raisesBefore | raisesAfter => exact CommandStatus.noConfusion

/-! ## Where the commands go -/

/-- The next step fetches commands, or begins one. -/
def RunnerPc.ready : RunnerPc → Bool
  | fetchCommands | commands (_ :: _) => true
  | _ => false

namespace ExecutionRunner

variable {env : RunnerEnv} {s s' : ExecutionRunner} {l : Label}

/-- Where no command is left none is awaited for. -/
theorem midCommand_of_left {pc : RunnerPc} (h : pc.left = none) : pc.midCommand = false := by
  unfold RunnerPc.midCommand
  split <;> first | rfl | cases h

/-- Within `_manage_active_orders` no command is left. -/
theorem left_of_managing {pc : RunnerPc} (h : pc.managing = true) :
    pc.left = none ∧ pc.midCommand = false := by
  cases pc <;> first | exact ⟨rfl, rfl⟩ | cases h

/-- Nor within `_check_exits`. -/
theorem left_of_exiting {pc : RunnerPc} (h : pc.exiting = true) :
    pc.left = none ∧ pc.midCommand = false := by
  cases pc <;> first | exact ⟨rfl, rfl⟩ | cases h

/-- A reconciliation for the operator stands between two commands. -/
theorem left_of_unlocking {pc : RunnerPc} {rest : List Command}
    (h : pc.reconciling = some (.unlockCommand rest)) : pc.left = some rest := by
  cases pc with
  | reconcilePositions site | reconcileOrders site => obtain rfl := Option.some.inj h; rfl
  | _ => cases h

/-- Any other stands elsewhere. -/
theorem left_of_reconciling {pc : RunnerPc} {site : ReconcileSite}
    (h : pc.reconciling = some site) (hsite : site = .periodic ∨ site = .autoResume) :
    pc.left = none ∧ pc.midCommand = false := by
  cases pc with
  | reconcilePositions site' | reconcileOrders site' =>
    obtain rfl := Option.some.inj h
    obtain rfl | rfl := hsite <;> exact ⟨rfl, rfl⟩
  | _ => cases h

/-- An awaited coroutine leaves the commands that were left. -/
theorem left_awaiting {t : TaskId} {pc : RunnerPc}
    (h : (RunnerPc.awaiting t pc).wellFormed = true) :
    (RunnerPc.awaiting t pc).left = pc.left
      ∧ ((RunnerPc.awaiting t pc).midCommand = true → ∃ rest, pc = .commands rest)
      ∧ pc.midCommand = false := by
  cases pc <;> first
    | exact ⟨rfl, fun _ => ⟨_, rfl⟩, rfl⟩
    | exact ⟨rfl, fun hmid => absurd hmid Bool.false_ne_true, rfl⟩
    | cases h

/-- **A command is begun**: it is no more among those that are left. -/
theorem Flow.begun {c : Command} {rest : List Command} {pc' : RunnerPc}
    (h : Flow env s l s' (.commands (c :: rest)) pc') :
    pc'.left = some rest ∧ (pc'.midCommand = true ∨ pc' = .commands rest) := by
  cases h with
  | commanded => exact ⟨rfl, .inr rfl⟩
  | commandCancels | commandUnlocks => exact ⟨rfl, .inl rfl⟩
  | managed hpc | manageAwaits hpc | manageEnds hpc | exitsGoOn hpc | exitAwaits hpc
  | exitsEnd hpc | reconcileCrashes hpc | resumeReconciled hpc | unlockReconciled hpc => cases hpc

/-- To await a coroutine of `_manage_active_orders` or of `_check_exits` is to
have no commands left. -/
theorem left_awaits {t : TaskId} {pc : RunnerPc} (h : pc.managing = true ∨ pc.exiting = true) :
    (RunnerPc.awaiting t pc).left = none ∧ (RunnerPc.awaiting t pc).midCommand = false := by
  obtain ⟨hleft, hmid, -⟩ := left_awaiting (@wellFormed_awaiting t _ h)
  have hnone : pc.left = none :=
    h.elim (fun h => (left_of_managing h).1) (fun h => (left_of_exiting h).1)
  refine ⟨hleft.trans hnone, Bool.eq_false_iff.mpr fun htrue => ?_⟩
  obtain ⟨rest, rfl⟩ := hmid htrue
  cases hnone

/-- **Any other step leaves the commands that are left**, and ends what is
awaited for one only by going on with them. -/
theorem Flow.apart {pc pc' : RunnerPc} (h : Flow env s l s' pc pc')
    (hpc : pc.wellFormed = true) (hready : pc.ready = false) :
    pc'.left.getD [] = pc.left.getD []
      ∧ (pc'.midCommand = pc.midCommand ∨ ∃ rest, pc' = .commands rest) := by
  have hnone : ∀ {pc pc' : RunnerPc}, (pc.left = none ∧ pc.midCommand = false) →
      (pc'.left = none ∧ pc'.midCommand = false) → pc'.left.getD [] = pc.left.getD []
        ∧ (pc'.midCommand = pc.midCommand ∨ ∃ rest, pc' = .commands rest) := by
    rintro pc pc' ⟨hl, hm⟩ ⟨hl', hm'⟩
    exact ⟨by rw [hl, hl'], .inl (hm'.trans hm.symm)⟩
  cases h with
  | returned ht =>
    obtain ⟨hleft, hmid, hnext⟩ := left_awaiting hpc
    refine ⟨by rw [hleft], ?_⟩
    cases haw : RunnerPc.midCommand (.awaiting _ pc') with
    | true => exact .inr (hmid haw)
    | false => exact .inl hnext
  | managed hpc hpc' => exact hnone (left_of_managing hpc) (left_of_managing hpc')
  | manageAwaits hpc hpc' => exact hnone (left_of_managing hpc) (left_awaits (.inl hpc'))
  | manageEnds hpc => exact hnone (left_of_managing hpc) ⟨rfl, rfl⟩
  | exitsGoOn hpc hpc' => exact hnone (left_of_exiting hpc) (left_of_exiting hpc')
  | exitAwaits hpc hpc' => exact hnone (left_of_exiting hpc) (left_awaits (.inr hpc'))
  | exitsEnd hpc => exact hnone (left_of_exiting hpc) ⟨rfl, rfl⟩
  | reconcileCrashes hpc => exact hnone (left_of_reconciling hpc (.inl rfl)) ⟨rfl, rfl⟩
  | resumeReconciled hpc => exact hnone (left_of_reconciling hpc (.inr rfl)) ⟨rfl, rfl⟩
  | unlockReconciled hpc => exact ⟨by rw [left_of_unlocking hpc]; rfl, .inr ⟨_, rfl⟩⟩
  | reconcileAsks =>
    rename_i site _ _ _ _
    cases site <;> exact ⟨rfl, .inl rfl⟩
  | fetched | fetchFails | commanded | commandCancels | commandUnlocks => cases hready
  | _ => exact ⟨rfl, .inl rfl⟩

end ExecutionRunner

/-! ## What holds along a run -/

namespace CommandSession

/-- How many commands are settled, or given up. -/
def settledCount (s : CommandSession) : ℕ := s.processed.length - s.current.toList.length

/-- **The session keeps to the table**: what was processed and what the tick
has fetched are the first rows of it, and the rows of the commands that are
over are the ones that are not pending. -/
structure Tracked (s : CommandSession) : Prop where
  wellFormed : s.runner.pc.wellFormed = true
  ordered : s.queue.Ordered
  batch : s.batch.length = (s.runner.pc.left.getD []).length
  inOrder : s.processed ++ s.batch.zip (s.runner.pc.left.getD [])
    <+: s.queue.rows.map (·.entry)
  current : ∀ id, s.current = some id → s.processed.length = id + 1
  pending : s.queue.PendingFrom s.settledCount

/-- What is awaited for a command is what is current. -/
def Attends (s : CommandSession) : Prop := s.current.isSome = s.runner.pc.midCommand

variable {env : RunnerEnv} {s t : CommandSession} {l : Label}

theorem Tracked.processed_begin (hs : s.Tracked) :
    s.processed <+: s.queue.rows.map (·.entry) :=
  (List.prefix_append _ _).trans hs.inOrder

theorem Tracked.processed_le (hs : s.Tracked) : s.processed.length ≤ s.queue.rows.length := by
  have h := hs.processed_begin.length_le
  rwa [List.length_map] at h

/-- Outside `_process_commands` nothing fetched is left, and no command is
current. -/
theorem Tracked.idle (hs : s.Tracked) (hattends : s.Attends) (hleft : s.runner.pc.left = none) :
    s.batch = [] ∧ s.current = none := by
  have hmid := ExecutionRunner.midCommand_of_left hleft
  refine ⟨List.eq_nil_of_length_eq_zero ?_, ?_⟩
  · rw [hs.batch, hleft]
    rfl
  · rwa [Attends, hmid, Option.isSome_eq_false_iff, Option.isNone_iff_eq_none] at hattends

/-- **A command that is over is marked**, once and for all. -/
theorem Tracked.settle (hs : s.Tracked)
    (hpc : s.Attends ∨ ∃ rest, s.runner.pc = .commands rest) (before : ExecutionRunner)
    (rl : ExecutionRunner.Label) (outcome : Outcome) :
    (settle env before rl outcome s).Tracked ∧ (settle env before rl outcome s).Attends := by
  cases hcurrent : s.current with
  | none =>
    have hsame : CommandSession.settle env before rl outcome s = s := by
      simp only [CommandSession.settle, hcurrent]
    rw [hsame]
    refine ⟨hs, hpc.elim id ?_⟩
    rintro ⟨rest, hpc⟩
    rw [Attends, hcurrent, hpc]
    rfl
  | some id =>
    -- a command is settled once the runner is back at the commands
    by_cases hrest : ∃ rest, s.runner.pc = .commands rest
    · obtain ⟨rest, hrest⟩ := hrest
      have hlen := hs.current id hcurrent
      have hcount : s.settledCount = id := by
        rw [settledCount, hlen, hcurrent]
        rfl
      simp only [CommandSession.settle, hcurrent, hrest, Outcome.foldl_marks]
      refine ⟨⟨hs.wellFormed, hs.ordered.mark _ _, hs.batch, ?_, by rintro _ ⟨⟩, ?_⟩, ?_⟩
      · show _ <+: (s.queue.mark id _).rows.map (·.entry)
        rw [CommandQueue.mark_entries]
        exact hs.inOrder
      · intro i row hrow
        rw [CommandQueue.mark_lookup hs.ordered] at hrow
        obtain ⟨old, hold, rfl⟩ := Option.map_eq_some_iff.mp hrow
        show _ ↔ s.processed.length ≤ i
        split_ifs with hi
        · refine iff_of_false (Outcome.final_ne_pending
            (ExecutionRunner.verdict_ne_pending env before s.runner rl) outcome) ?_
          omega
        · rw [hs.pending i old hold, hcount, hlen]
          omega
      · rw [Attends, hrest]
        rfl
    · have hsame : CommandSession.settle env before rl outcome s = s := by
        simp only [CommandSession.settle, hcurrent]
        split
        · rename_i rest _ hpc'
          exact absurd ⟨rest, hpc'⟩ hrest
        · rfl
      rw [hsame]
      exact ⟨hs, hpc.resolve_right hrest⟩

/-- The dashboard adds a row. -/
theorem Tracked.enqueue (hs : s.Tracked) {command : Command} {createdAt : Time}
    (hlater : ∀ row ∈ s.queue.rows, row.createdAt < createdAt) :
    Tracked { s with queue := s.queue.enqueue command createdAt } where
  wellFormed := hs.wellFormed
  ordered := hs.ordered.enqueue hlater
  batch := hs.batch
  inOrder := by
    show _ <+: (s.queue.rows ++ _).map _
    rw [List.map_append]
    exact hs.inOrder.trans (List.prefix_append _ _)
  current := hs.current
  pending i row hrow := by
    show _ ↔ s.settledCount ≤ i
    rcases List.getElem?_append_cases hrow with hrow | ⟨rfl, rfl⟩
    · exact hs.pending i row hrow
    · exact iff_of_true rfl ((Nat.sub_le _ _).trans hs.processed_le)

/-- **A fetch finds the rows that come next.** -/
theorem Tracked.fetch (hs : s.Tracked) (hattends : s.Attends)
    (hpc : s.runner.pc = .fetchCommands) :
    Tracked { s with
      runner := s.runner.at' (.commands ((s.queue.fetchPending 10).map (·.command)))
      batch := (s.queue.fetchPending 10).map (·.commandId) } := by
  obtain ⟨hbatch, hcurrent⟩ := hs.idle hattends (by rw [hpc]; rfl)
  have hcount : s.settledCount = s.processed.length := by
    rw [settledCount, hcurrent]
    rfl
  have hprocessed : s.processed = (s.queue.rows.map (·.entry)).take s.processed.length :=
    List.prefix_iff_eq_take.mp hs.processed_begin
  refine ⟨rfl, hs.ordered, ?_, ?_, hs.current, hs.pending⟩
  · show List.length _ = List.length (List.map _ _)
    rw [List.length_map, List.length_map]
  · show s.processed ++ List.zip _ (List.map _ _) <+: _
    have hzip : ((s.queue.fetchPending 10).map (·.commandId)).zip
        ((s.queue.fetchPending 10).map (·.command))
          = (s.queue.fetchPending 10).map (·.entry) := List.zip_map'
    rw [hzip, CommandQueue.fetchPending_eq hs.ordered hs.pending, hcount, List.map_take,
      List.map_drop]
    nth_rewrite 1 [hprocessed]
    rw [← List.take_add]
    exact List.take_prefix _ _

/-- **A command is begun**: the first one that is left. -/
theorem Tracked.begin (hs : s.Tracked) (hattends : s.Attends) {c : Command}
    {rest : List Command} (hpc : s.runner.pc = .commands (c :: rest)) {id : CommandId}
    {batch : List CommandId} (hbatch : s.batch = id :: batch) {r : ExecutionRunner}
    (hwf : r.pc.wellFormed = true) (hleft : r.pc.left = some rest) :
    Tracked { s with
      runner := r
      batch := batch
      current := some id
      processed := s.processed ++ [(id, c)] } := by
  have hcurrent : s.current = none := by
    rwa [Attends, hpc, show (RunnerPc.commands (c :: rest)).midCommand = false from rfl,
      Option.isSome_eq_false_iff, Option.isNone_iff_eq_none] at hattends
  have hcount : s.settledCount = s.processed.length := by
    rw [settledCount, hcurrent]
    rfl
  have hinOrder : s.processed ++ (id, c) :: batch.zip rest <+: s.queue.rows.map (·.entry) := by
    have h := hs.inOrder
    rwa [hbatch, hpc] at h
  have hlen := hs.batch
  rw [hbatch, hpc] at hlen
  -- the queue is processed in order, so the next id is the number processed
  have hid : s.processed.length = id := by
    have hlt : s.processed.length < (s.queue.rows.map (·.entry)).length := by
      refine Nat.lt_of_lt_of_le ?_ hinOrder.length_le
      rw [List.length_append, List.length_cons]
      omega
    have hat : (s.queue.rows.map (·.entry))[s.processed.length]? = some (id, c) := by
      obtain ⟨more, hmore⟩ := hinOrder
      rw [← hmore, List.append_assoc, List.getElem?_append_right (Nat.le_refl _), Nat.sub_self]
      rfl
    rw [List.getElem?_map] at hat
    obtain ⟨row, hrow, hentry⟩ := Option.map_eq_some_iff.mp hat
    rw [← hs.ordered.ids _ row hrow]
    exact congrArg Prod.fst hentry
  refine ⟨hwf, hs.ordered, ?_, ?_, ?_, ?_⟩
  · show batch.length = (r.pc.left.getD []).length
    rw [hleft]
    exact Nat.succ.inj hlen
  · show (s.processed ++ [(id, c)]) ++ batch.zip (r.pc.left.getD []) <+: _
    rw [hleft, List.append_assoc]
    exact hinOrder
  · rintro _ ⟨⟩
    show (s.processed ++ [(id, c)]).length = _
    rw [List.length_append, hid]
    rfl
  · have hsame : (s.processed ++ [(id, c)]).length - 1 = s.settledCount := by
      rw [hcount, List.length_append]
      rfl
    show s.queue.PendingFrom ((s.processed ++ [(id, c)]).length - 1)
    rw [hsame]
    exact hs.pending

/-! ## A step, and a run -/

/-- **What a step of the session is.** -/
inductive Effect (env : RunnerEnv) (s : CommandSession) : Label → CommandSession → Prop
  | enqueued (command : Command) (createdAt : Time)
      (hlater : ∀ row ∈ s.queue.rows, row.createdAt < createdAt) :
      Effect env s (.enqueue command createdAt)
        { s with queue := s.queue.enqueue command createdAt }
  | restarted (start : ExecutionRunner.Startup) (hleft : s.runner.pc.left = none) :
      Effect env s (.restart start) { s with runner := .initial start }
  | fetched (hpc : s.runner.pc = .fetchCommands) :
      Effect env s .fetch { s with
        runner := s.runner.at' (.commands ((s.queue.fetchPending 10).map (·.command)))
        batch := (s.queue.fetchPending 10).map (·.commandId) }
  | begun (rl : ExecutionRunner.Label) (outcome : Outcome) (c : Command)
      (rest : List Command) (id : CommandId) (batch : List CommandId) (r : ExecutionRunner)
      (hpc : s.runner.pc = .commands (c :: rest)) (hbatch : s.batch = id :: batch)
      (hr : (s.runner.asRead outcome).step env rl = some r) :
      Effect env s (.runner rl outcome) (settle env s.runner rl outcome
        { s with
          runner := r
          batch := batch
          current := some id
          processed := s.processed ++ [(id, c)] })
  | ran (rl : ExecutionRunner.Label) (outcome : Outcome) (r : ExecutionRunner)
      (hready : s.runner.pc.ready = false) (hr : s.runner.step env rl = some r) :
      Effect env s (.runner rl outcome)
        (settle env s.runner rl outcome { s with runner := r })

/-- **Every step is one of these.** -/
theorem step_effect (h : s.step env l = some t) : Effect env s l t := by
  cases l with
  | enqueue command createdAt =>
    simp only [step, Option.ite_none_right_eq_some, List.all_eq_true, decide_eq_true_eq] at h
    obtain ⟨hlater, h⟩ := h
    obtain rfl := Option.some.inj h
    exact .enqueued command createdAt hlater
  | restart start =>
    simp only [step, Option.ite_none_right_eq_some, Option.isNone_iff_eq_none] at h
    obtain ⟨hleft, h⟩ := h
    obtain rfl := Option.some.inj h
    exact .restarted start hleft
  | fetch =>
    simp only [step] at h
    split at h
    · rename_i hpc
      obtain ⟨r, hr, rfl⟩ := Option.map_eq_some_iff.mp h
      simp only [ExecutionRunner.step, Option.ite_none_right_eq_some, hpc,
        ExecutionRunner.answered] at hr
      obtain rfl := Option.some.inj hr.2
      exact .fetched hpc
    · cases h
  | runner rl outcome =>
    simp only [step] at h
    split at h
    · cases h
    · rename_i c rest hpc
      split at h
      · cases h
      · rename_i id batch hbatch
        obtain ⟨r, hr, rfl⟩ := Option.map_eq_some_iff.mp h
        exact .begun rl outcome c rest id batch r hpc hbatch hr
    · rename_i hfetch hcommands
      obtain ⟨r, hr, rfl⟩ := Option.map_eq_some_iff.mp h
      refine .ran rl outcome r ?_ hr
      unfold RunnerPc.ready
      split
      · rename_i hpc
        exact absurd hpc hfetch
      · rename_i hpc
        exact absurd hpc (hcommands _ _)
      · rfl

/-- The command that is next is begun, whether it raises or not. -/
theorem begun_pc {c : Command} {rest : List Command} {rl : ExecutionRunner.Label}
    {r : ExecutionRunner} {outcome : Outcome} (hpc : s.runner.pc = .commands (c :: rest))
    (hr : (s.runner.asRead outcome).step env rl = some r) :
    r.pc.wellFormed = true ∧ r.pc.left = some rest
      ∧ (r.pc.midCommand = true ∨ ∃ rest, r.pc = .commands rest) := by
  obtain ⟨c', hread⟩ : ∃ c', (s.runner.asRead outcome).pc = .commands (c' :: rest) := by
    cases outcome with
    | completes | raisesAfter => exact ⟨c, hpc⟩
    | raisesBefore =>
      simp only [ExecutionRunner.asRead, hpc]
      exact ⟨.unknown, rfl⟩
  have hwf := ExecutionRunner.wellFormed_step hr (by rw [hread]; rfl)
  rcases ExecutionRunner.step_flow hr with ⟨hl, hsame⟩ | ⟨-, hflow⟩
  · -- the runner is busy, so nothing else happens
    have hbusy : (s.runner.asRead outcome).busy = true := by
      rw [ExecutionRunner.busy, hread]
    cases rl with
    | reply reply => cases hl
    | run => cases hl
    | orders ol | fill fill | stop | pause | resume =>
      simp [ExecutionRunner.step, hbusy] at hr
  · rw [hread] at hflow
    obtain ⟨hleft, hmid⟩ := hflow.begun
    exact ⟨hwf, hleft, hmid.imp_right fun h => ⟨rest, h⟩⟩

/-- **What every step keeps.** -/
theorem Tracked.step (hs : s.Tracked) (hattends : s.Attends) (h : s.step env l = some t) :
    t.Tracked ∧ t.Attends := by
  cases step_effect h with
  | enqueued command createdAt hlater => exact ⟨hs.enqueue hlater, hattends⟩
  | restarted start hleft =>
    obtain ⟨hbatch, hcurrent⟩ := hs.idle hattends hleft
    refine ⟨⟨rfl, hs.ordered, ?_, ?_, hs.current, hs.pending⟩, ?_⟩
    · show s.batch.length = _
      rw [hbatch]
      rfl
    · show s.processed ++ s.batch.zip _ <+: _
      rw [hbatch]
      exact (List.append_nil s.processed).symm ▸ hs.processed_begin
    · show s.current.isSome = _
      rw [hcurrent]
      rfl
  | fetched hpc =>
    refine ⟨hs.fetch hattends hpc, ?_⟩
    rw [Attends, hpc] at hattends
    exact hattends
  | begun rl outcome c rest id batch r hpc hbatch hr =>
    obtain ⟨hwf, hleft, hmid⟩ := begun_pc hpc hr
    exact (hs.begin hattends hpc hbatch hwf hleft).settle (hmid.imp_left fun h => h.symm)
      s.runner rl outcome
  | ran rl outcome r hready hr =>
    have hwf := ExecutionRunner.wellFormed_step hr hs.wellFormed
    have hgoes : r.pc.left.getD [] = s.runner.pc.left.getD []
        ∧ (r.pc.midCommand = s.runner.pc.midCommand ∨ ∃ rest, r.pc = .commands rest) := by
      rcases ExecutionRunner.step_flow hr with ⟨-, hsame⟩ | ⟨-, hflow⟩
      · rw [hsame]
        exact ⟨rfl, .inl rfl⟩
      · exact hflow.apart hs.wellFormed hready
    obtain ⟨hleft, hmid⟩ := hgoes
    have hkeeps : Tracked { s with runner := r } := by
      refine ⟨hwf, hs.ordered, ?_, ?_, hs.current, hs.pending⟩
      · show s.batch.length = (r.pc.left.getD []).length
        rw [hleft]
        exact hs.batch
      · show s.processed ++ s.batch.zip (r.pc.left.getD []) <+: _
        rw [hleft]
        exact hs.inOrder
    exact hkeeps.settle (hmid.imp_left fun h => hattends.trans h.symm) s.runner rl outcome

theorem tracked_run {start : ExecutionRunner.Startup} {labels : List Label}
    (h : (machine env).run (initial start) labels = some s) : s.Tracked ∧ s.Attends := by
  have hstep : ∀ (s : CommandSession) l t, s.Tracked ∧ s.Attends →
      (machine env).step s l = some t → t.Tracked ∧ t.Attends :=
    fun _ _ _ hs h => hs.1.step hs.2 h
  refine Machine.run_invariant' hstep ?_ h
  refine ⟨⟨rfl, ⟨fun i row hrow => ?_, .nil⟩, rfl, List.prefix_rfl, by rintro _ ⟨⟩,
    fun i row hrow => ?_⟩, rfl⟩
  · cases hrow
  · cases hrow

/-- A command that is over leaves which commands there are. -/
theorem settle_entries (before : ExecutionRunner) (rl : ExecutionRunner.Label)
    (outcome : Outcome) :
    (settle env before rl outcome s).queue.rows.map (·.entry) = s.queue.rows.map (·.entry)
      ∧ (settle env before rl outcome s).processed = s.processed := by
  unfold settle
  split
  · exact ⟨by rw [Outcome.foldl_marks]; exact CommandQueue.mark_entries _ _ _, rfl⟩
  · exact ⟨rfl, rfl⟩

/-- **The table holds what was enqueued.** -/
theorem step_enqueued (h : s.step env l = some t) :
    t.queue.rows.map (·.command) = s.queue.rows.map (·.command) ++ l.enqueued.toList := by
  have hcommands : ∀ {rows rows' : List CommandRow},
      rows'.map (·.entry) = rows.map (·.entry) →
        rows'.map (·.command) = rows.map (·.command) := by
    intro rows rows' h
    have h' := congrArg (List.map Prod.snd) h
    rwa [List.map_map, List.map_map] at h'
  cases step_effect h with
  | enqueued command createdAt hlater => exact List.map_append
  | restarted | fetched => exact (List.append_nil _).symm
  | begun rl outcome c rest id batch r hpc hbatch hr =>
    exact (hcommands (settle_entries s.runner rl outcome).1).trans (List.append_nil _).symm
  | ran rl outcome r hready hr =>
    exact (hcommands (settle_entries s.runner rl outcome).1).trans (List.append_nil _).symm

theorem run_enqueued {labels : List Label} (h : (machine env).run s labels = some t) :
    t.queue.rows.map (·.command)
      = s.queue.rows.map (·.command) ++ labels.filterMap Label.enqueued := by
  induction labels generalizing s with
  | nil =>
    obtain rfl := Option.some.inj h
    exact (List.append_nil _).symm
  | cons l ls ih =>
    obtain ⟨u, hu, h⟩ := Option.bind_eq_some_iff.mp h
    rw [ih h, step_enqueued hu, List.append_assoc, List.filterMap_cons]
    cases l.enqueued <;> rfl

/-- **A row that is marked stays as it is.** -/
theorem Tracked.row_kept (hs : s.Tracked) (hattends : s.Attends) (h : s.step env l = some t)
    {i : ℕ} {row : CommandRow} (hrow : s.queue.rows[i]? = some row)
    (hstatus : row.status ≠ .pending) : t.queue.rows[i]? = some row := by
  have hcount : i < s.settledCount := by
    rw [ne_eq, hs.pending i row hrow] at hstatus
    exact Nat.not_le.mp hstatus
  -- settling marks the current row alone
  have hsettle : ∀ u : CommandSession, u.queue = s.queue →
      (∀ id, u.current = some id → i ≠ id) → ∀ before rl outcome,
        (CommandSession.settle env before rl outcome u).queue.rows[i]? = some row := by
    intro u hqueue hid before rl outcome
    unfold CommandSession.settle
    split
    · rename_i id _ hcurrent _
      rw [Outcome.foldl_marks, hqueue, CommandQueue.mark_lookup hs.ordered, hrow,
        Option.map_some, if_neg (hid id hcurrent)]
    · rw [hqueue, hrow]
  cases step_effect h with
  | enqueued command createdAt hlater =>
    show (s.queue.rows ++ _)[i]? = some row
    rw [List.getElem?_append_left (List.getElem?_eq_some_iff.mp hrow).1, hrow]
  | restarted | fetched => exact hrow
  | begun rl outcome c rest id batch r hpc hbatch hr =>
    obtain ⟨hwf, hleft, -⟩ := begun_pc hpc hr
    refine hsettle _ (by rfl) ?_ _ _ _
    rintro _ ⟨⟩ rfl
    have hlen := (hs.begin hattends hpc hbatch hwf hleft).current i rfl
    rw [show (s.processed ++ [(i, c)]).length = s.processed.length + 1 from
      List.length_append] at hlen
    rw [settledCount, Nat.succ.inj hlen] at hcount
    exact absurd hcount (Nat.not_lt.mpr (Nat.sub_le _ _))
  | ran rl outcome r hready hr =>
    refine hsettle _ (by rfl) ?_ _ _ _
    rintro id hid rfl
    have hid' : s.current = some i := hid
    rw [settledCount, hs.current i hid', hid'] at hcount
    exact absurd hcount (Nat.lt_irrefl i)

theorem run_row_kept {labels : List Label} (hs : s.Tracked) (hattends : s.Attends)
    (h : (machine env).run s labels = some t) {i : ℕ} {row : CommandRow}
    (hrow : s.queue.rows[i]? = some row) (hstatus : row.status ≠ .pending) :
    t.queue.rows[i]? = some row := by
  have hstep : ∀ (s : CommandSession) l t,
      (s.Tracked ∧ s.Attends) ∧ s.queue.rows[i]? = some row →
        (machine env).step s l = some t →
          (t.Tracked ∧ t.Attends) ∧ t.queue.rows[i]? = some row :=
    fun _ _ _ hs h => ⟨hs.1.1.step hs.1.2 h, hs.1.1.row_kept hs.1.2 h hs.2 hstatus⟩
  exact (Machine.run_invariant' hstep ⟨⟨hs, hattends⟩, hrow⟩ h).2

/-- What was processed are the first rows of the table, one by one. -/
theorem Tracked.processed_lookup (hs : s.Tracked) {i : ℕ} {id : CommandId} {c : Command}
    (h : s.processed[i]? = some (id, c)) :
    ∃ row, s.queue.rows[i]? = some row ∧ row.commandId = id ∧ i = id := by
  obtain ⟨more, hmore⟩ := hs.processed_begin
  have hat : (s.queue.rows.map (·.entry))[i]? = some (id, c) := by
    rw [← hmore, List.getElem?_append_left (List.getElem?_eq_some_iff.mp h).1, h]
  rw [List.getElem?_map] at hat
  obtain ⟨row, hrow, hentry⟩ := Option.map_eq_some_iff.mp hat
  have hid : row.commandId = id := congrArg Prod.fst hentry
  exact ⟨row, hrow, hid, (hs.ordered.ids i row hrow).symm.trans hid⟩

theorem Tracked.processed_nodup (hs : s.Tracked) : (s.processed.map (·.1)).Nodup := by
  rw [List.nodup_iff_pairwise_ne, List.pairwise_map, List.pairwise_iff_getElem]
  intro i j hi hj hlt heq
  obtain ⟨_, -, -, hi'⟩ := hs.processed_lookup (List.getElem?_eq_getElem hi)
  obtain ⟨_, -, -, hj'⟩ := hs.processed_lookup (List.getElem?_eq_getElem hj)
  exact absurd (hi'.trans (heq.trans hj'.symm)) hlt.ne

/-- **Commands are executed once and in order.** Along every run what was
processed is a prefix of what was enqueued, and no command occurs in it
twice; wherever the runner is out of `_process_commands` every processed
command is done or failed; and its row is never changed afterwards. -/
theorem executed_in_order {start : ExecutionRunner.Startup} {labels : List Label}
    (h : (machine env).run (initial start) labels = some s) :
    s.processed.map (·.2) <+: labels.filterMap Label.enqueued
      ∧ (s.processed.map (·.1)).Nodup
      ∧ (s.runner.pc.left = none → ∀ id c, (id, c) ∈ s.processed →
          ∃ row, s.queue.rows[id]? = some row ∧ row.commandId = id
            ∧ (row.status = .done ∨ row.status = .failed))
      ∧ ∀ labels' t, (machine env).run s labels' = some t → ∀ (i : ℕ) (row : CommandRow),
          s.queue.rows[i]? = some row → row.status ≠ .pending →
            t.queue.rows[i]? = some row := by
  obtain ⟨hs, hattends⟩ := tracked_run h
  refine ⟨?_, hs.processed_nodup, fun hleft id c hmem => ?_,
    fun labels' t ht i row hrow hstatus => run_row_kept hs hattends ht hrow hstatus⟩
  · have hrows := run_enqueued h
    rw [show (initial start).queue.rows = [] from rfl, List.map_nil, List.nil_append] at hrows
    have hpre := hs.processed_begin.map Prod.snd
    rwa [List.map_map, show (Prod.snd ∘ fun row : CommandRow => row.entry) = (·.command) from rfl,
      hrows] at hpre
  · obtain ⟨i, hi⟩ := List.mem_iff_getElem?.mp hmem
    obtain ⟨row, hrow, hid, rfl⟩ := hs.processed_lookup hi
    refine ⟨row, hrow, hid, ?_⟩
    have hcount : i < s.settledCount := by
      rw [settledCount, (hs.idle hattends hleft).2]
      exact (List.getElem?_eq_some_iff.mp hi).1
    have hstatus : row.status ≠ .pending := fun hpending =>
      absurd ((hs.pending i row hrow).mp hpending) (Nat.not_le.mpr hcount)
    cases hcase : row.status with
    | pending => exact absurd hcase hstatus
    | done => exact .inl rfl
    | failed => exact .inr rfl

/-- A flatten and a command that cannot be read, enqueued before a tick and
while it drains them. -/
def sampleDrain : List Label :=
  [ .enqueue .flattenAll 1, .runner .run .completes, .runner .run .completes,
    .runner (.reply (.connected true)) .completes, .fetch, .enqueue .unknown 2,
    .runner .run .raisesAfter, .runner .run .completes ]

/-- The first of the two is processed in that tick, and stays as it is
marked. -/
theorem drained_in_order : ∃ s, (machine sampleEnv).run (initial sampleStartup) sampleDrain
      = some s ∧ s.processed.map (·.1) = [0]
    ∧ s.processed.map (·.2) <+: sampleDrain.filterMap Label.enqueued
    ∧ ∃ row, s.queue.rows[0]? = some row ∧ row.commandId = 0
      ∧ (row.status = .done ∨ row.status = .failed) := by
  have hrun : ((machine sampleEnv).run (initial sampleStartup) sampleDrain).any
      (fun s => s.runner.pc.left.isNone && s.processed.map (·.1) = [0]) = true := by
    decide +kernel
  obtain ⟨s, hs, hend⟩ := (Option.any_eq_true _ _).mp hrun
  obtain ⟨hleft, hids⟩ := Bool.and_eq_true_iff.mp hend
  obtain ⟨hpre, -, hmarked, -⟩ := executed_in_order hs
  have hids' : s.processed.map (·.1) = [0] := of_decide_eq_true hids
  refine ⟨s, hs, hids', hpre, ?_⟩
  obtain ⟨⟨id, c⟩, hmem, hid⟩ : ∃ e ∈ s.processed, e.1 = 0 :=
    List.mem_map.mp (hids' ▸ List.mem_singleton_self 0)
  exact hid ▸ hmarked (Option.isNone_iff_eq_none.mp hleft) id c hmem

end CommandSession
