import ExecutionSystem.Executions
import ExecutionSystem.NetQuantity
import ExecutionSystem.PositionStore
import ExecutionSystem.WriteBehind
import Mathlib.Data.List.MinMax

/-!
# The rows of positions, written in the background

The fill callback of `src/app/runner.py` starts a task for every fill
(`_persist_bg`), and the task runs `PositionStore.upsert_position` of
`src/storage/position_store.py` in a thread. The thread shares the position
object with the event loop. It reads the fields one after the other, at any
time after the fill, and writes the row some time later; where the database
is locked it sleeps and begins again. `_on_commission` writes the row too, on
the loop itself.

So a task is known here by what it has read (`PersistStage`), and the
threads take their steps between any two steps of the loop, also while a
fill callback is still assigning: a field of its position then has its old
or its new value. Nothing orders the tasks of a position, and the row has no
version. The rows are a store that is written behind
(`AttributionSession.background`), so what a row holds when all tasks have
finished is what the last of them has read.
-/

/-! ## What a row tells of a position -/

/-- The columns of a row that fills and commissions change. -/
structure AttributionColumns where
  quantity : ℕ
  status : String
  avgEntryPrice : Price
  realizedPnl : Option ℚ
  deriving DecidableEq

def Position.columns (pos : Position) : AttributionColumns :=
  ⟨pos.quantity, pos.status.value, pos.averageEntryPrice, some pos.realizedPnl⟩

def Attribution.columns (row : Attribution) : AttributionColumns :=
  ⟨row.quantity, row.status, row.avgEntryPrice, row.realizedPnl⟩

/-! ## The tasks -/

/-- **Where the write of a row stands**, with the position as far as it has
been read. -/
inductive PersistStage where
  /-- The fill callback is still running, on a position that was `before`. -/
  | filling (before : Option Position)
  /-- `_on_commission` is about to write the row itself. -/
  | netting
  /-- Nothing is read. -/
  | started
  | readStatus (seen : Position)
  | readQuantity (seen : Position)
  | readAverage (seen : Position)
  /-- All is read. -/
  | built (seen : Position)
  | finished
  deriving DecidableEq

namespace PersistStage

/-- What has been read. -/
def seen : PersistStage → Option Position
  | readStatus seen | readQuantity seen | readAverage seen | built seen => some seen
  | _ => none

/-- The next field is read, in the order of the arguments of the
statement. -/
def read (pos : Position) : PersistStage → Option PersistStage
  | started => some (readStatus pos)
  | readStatus seen => some (readQuantity { seen with quantity := pos.quantity })
  | readQuantity seen =>
    some (readAverage { seen with averageEntryPrice := pos.averageEntryPrice })
  | readAverage seen => some (built { seen with realizedPnl := pos.realizedPnl })
  | _ => none

/-- Whether the callback that writes, or is to start the task, still runs. -/
def onLoop : PersistStage → Bool
  | filling _ | netting => true
  | _ => false

/-- The position as it was before the fill that is being handled. -/
def before : PersistStage → Option Position
  | filling before => before
  | _ => none

/-- **A read leaves what is not read**: where it shows in nothing that a row
copies, it is of the position, or of what had been read of it. -/
theorem eq_read {α : Type} (f : Position → α)
    (hf : ∀ (pos : Position) quantity average realized,
      f { pos with
        quantity := quantity, averageEntryPrice := average, realizedPnl := realized } = f pos)
    {stage stage' : PersistStage} {pos seen : Position}
    (h : stage.read pos = some stage') (hseen : stage'.seen = some seen) :
    f seen = f pos ∨ ∃ seen', stage.seen = some seen' ∧ f seen = f seen' := by
  cases stage with
  | started =>
    obtain rfl := Option.some.inj h
    obtain rfl := Option.some.inj hseen
    exact .inl rfl
  | readStatus seen' | readQuantity seen' | readAverage seen' =>
    obtain rfl := Option.some.inj h
    obtain rfl := Option.some.inj hseen
    exact .inr ⟨seen', rfl, hf seen' _ _ _⟩
  | filling | netting | built | finished => cases h

/-- Nor is a stage that has been read one of a callback. -/
theorem before_read {stage stage' : PersistStage} {pos : Position}
    (h : stage.read pos = some stage') : stage'.before = none := by
  cases stage with
  | started | readStatus | readQuantity | readAverage =>
    obtain rfl := Option.some.inj h
    rfl
  | filling | netting | built | finished => cases h

/-- Nothing is finished by a read. -/
theorem read_ne_finished {stage : PersistStage} {pos : Position} :
    stage.read pos ≠ some finished := by
  cases stage with
  | started | readStatus | readQuantity | readAverage =>
    exact fun h => PersistStage.noConfusion (Option.some.inj h)
  | filling | netting | built | finished => intro h; cases h

end PersistStage

/-- **A write of the row of a position.** -/
structure PersistTask where
  positionId : PositionId
  closeReason : Option String := none
  attempt : ℕ := 0
  stage : PersistStage

/-- **The runner, the table and the tasks.** -/
structure AttributionSession where
  runner : ExecutionRunner
  store : PositionStore
  /-- `_exit_reasons`. -/
  exitReasons : PositionId → Option String := fun _ => none
  tasks : List PersistTask := []

namespace AttributionSession

/-- What happens next. -/
inductive Label where
  /-- Something in the order manager, or a call of it. -/
  | orders (l : OrderManager.Label)
  /-- An exit is submitted, with its reason. -/
  | exiting (p : PositionId) (reason : String)
  /-- A fill is reported. -/
  | fill (fill : FillEvent)
  /-- The commission of an order is. -/
  | commission (o : OrderId) (amount : ℚ)
  /-- The callback is done: a fill starts its task, and a commission writes
  the row. -/
  | handled (i : ℕ) (now : Time)
  /-- A task reads its next field, `old` where a fill that is being handled
  has not assigned it yet. -/
  | read (i : ℕ) (old : Bool)
  /-- A task writes its row. -/
  | write (i : ℕ) (now : Time)
  /-- A task finds the database locked, and will try again. -/
  | locked (i : ℕ)

/-- No callback is running. -/
def free (s : AttributionSession) : Bool := s.tasks.all fun task => !task.stage.onLoop

/-- A callback may be called. -/
def idle (s : AttributionSession) : Bool := s.runner.om.running.isNone && s.free

/-- The position of an id. -/
def position (s : AttributionSession) (p : PositionId) : Option Position :=
  s.runner.pm.positions.find? (·.positionId = p)

/-- What a thread sees of a position. -/
def visible (s : AttributionSession) (p : PositionId) : Bool → Option Position
  | false => s.position p
  | true => (s.tasks.findSome? (·.stage.before)).filter (·.positionId = p)

/-- A task goes on to a stage. -/
def goOn (s : AttributionSession) (i : ℕ) (task : PersistTask) (stage : PersistStage) :
    AttributionSession :=
  { s with tasks := s.tasks.set i { task with stage := stage } }

/-- A row is written. -/
def written (s : AttributionSession) (i : ℕ) (task : PersistTask) (now : Time)
    (pos : Position) : AttributionSession :=
  { s.goOn i task .finished with store := s.store.upsertPosition now pos task.closeReason }

/-- **A fill**: the reason is taken where the position is closed by it. -/
def filled (env : RunnerEnv) (s : AttributionSession) (fill : FillEvent) :
    AttributionSession :=
  let pos := (s.runner.pm.handleFill (s.runner.attributed fill)).2
  let closed : Bool := pos.status = .closed
  { s with
    runner := s.runner.filled env fill
    exitReasons := fun p =>
      if closed ∧ p = pos.positionId then none else s.exitReasons p
    tasks := s.tasks ++
      [{ positionId := pos.positionId
         closeReason := if closed then s.exitReasons pos.positionId else none
         stage := .filling (s.position pos.positionId) }] }

/-- **A commission**, where a position of the order is found. -/
def netted (s : AttributionSession) (o : OrderId) (amount : ℚ) : AttributionSession :=
  match (s.runner.pm.positions.findIdx? fun pos => pos.ofOrder o).bind
      (s.runner.pm.positions[·]?) with
  | none => s
  | some pos =>
    { s with
      runner := s.runner.onCommission o amount
      tasks := s.tasks ++ [{ positionId := pos.positionId, stage := .netting }] }

/-- **One step.** A third attempt that finds the database locked fails the
write, and is left out as every other failure is. -/
def step (env : RunnerEnv) (s : AttributionSession) : Label → Option AttributionSession
  | .orders l =>
    if s.free then
      (s.runner.om.step l).map fun om => { s with runner := { s.runner with om := om } }
    else none
  | .exiting p reason =>
    if s.free then
      some { s with exitReasons := fun q => if q = p then some reason else s.exitReasons q }
    else none
  | .fill fill => if s.idle then some (s.filled env fill) else none
  | .commission o amount => if s.idle then some (s.netted o amount) else none
  | .handled i now =>
    s.tasks[i]?.bind fun task =>
      match task.stage with
      | .filling _ => some (s.goOn i task .started)
      | .netting => (s.position task.positionId).map (s.written i task now)
      | _ => none
  | .read i old =>
    s.tasks[i]?.bind fun task => (s.visible task.positionId old).bind fun pos =>
      (task.stage.read pos).map (s.goOn i task)
  | .write i now =>
    s.tasks[i]?.bind fun task =>
      match task.stage with
      | .built seen => some (s.written i task now seen)
      | _ => none
  | .locked i =>
    s.tasks[i]?.bind fun task =>
      match task.stage with
      | .built _ =>
        if task.attempt < 2 then
          some (s.goOn i { task with attempt := task.attempt + 1 } .started)
        else none
      | _ => none

/-- The rows as they are written. -/
def machine (env : RunnerEnv) : Machine AttributionSession Label where
  step := step env

/-- **What the session starts from**: any positions under different ids, and
any table. -/
structure Start where
  startup : ExecutionRunner.Startup
  store : PositionStore
  nodup : (startup.positions.map (·.positionId)).Nodup

/-- No task is under way. -/
def initial (start : Start) : AttributionSession where
  runner := .initial start.startup
  store := start.store

/-! ## Convergence -/

/-- No write of the position's row is under way, and there was one. -/
def Settled (s : AttributionSession) (p : PositionId) : Prop :=
  (∃ task ∈ s.tasks, task.positionId = p)
    ∧ ∀ task ∈ s.tasks, task.positionId = p → task.stage = .finished

/-- **The rows have converged**: where all writes of a position's row have
finished, the row has the position's quantity, status, average price and
realized profit. -/
def Converged (s : AttributionSession) : Prop :=
  ∀ pos ∈ s.runner.pm.positions, s.Settled pos.positionId →
    ∃ row ∈ s.store.rows, row.positionId = pos.positionId ∧ row.columns = pos.columns

instance (s : AttributionSession) (p : PositionId) : Decidable (s.Settled p) :=
  inferInstanceAs (Decidable (_ ∧ _))

instance (s : AttributionSession) : Decidable s.Converged :=
  inferInstanceAs (Decidable (∀ pos ∈ s.runner.pm.positions, _))

/-- **The task that is the last of its position to write has read what the
position has when it writes.** -/
def LastWriteCurrent (s : AttributionSession) : Label → Prop
  | .write i _ => ∀ task seen, s.tasks[i]? = some task → task.stage = .built seen →
      (∀ (j : ℕ) (other : PersistTask), s.tasks[j]? = some other → j ≠ i →
        other.positionId = task.positionId → other.stage = .finished) →
      ∀ pos ∈ s.runner.pm.positions, pos.positionId = task.positionId →
        seen.columns = pos.columns
  | _ => True

/-! ## Rows that are written behind -/

/-- The tasks as writers of what a position is stored under its id. -/
def background (s : AttributionSession) : WriteBehind PositionId AttributionColumns where
  live := s.runner.pm.positions.valueAt (·.positionId) Position.columns
  saved := s.store.rows.valueAt (·.positionId) Attribution.columns
  writers := s.tasks.map fun task => ⟨task.positionId, task.stage = .finished⟩

/-- **Every position has an id of its own, and a task reads its own
position.** -/
structure WellFormed (s : AttributionSession) : Prop where
  nodup : (s.runner.pm.positions.map (·.positionId)).Nodup
  own : ∀ task ∈ s.tasks, ∀ seen, task.stage.seen = some seen →
    seen.positionId = task.positionId

variable {env : RunnerEnv} {s t : AttributionSession} {l : Label}

theorem settled_background {p : PositionId} : s.background.Settled p ↔ s.Settled p := by
  show (∃ w ∈ s.tasks.map _, _) ∧ (∀ w ∈ s.tasks.map _, _) ↔ _ ∧ _
  rw [List.forall_mem_map]
  refine and_congr ?_ (forall_congr' fun task => forall_congr' fun _ =>
    forall_congr' fun _ => decide_eq_true_iff)
  simp only [List.mem_map, exists_exists_and_eq_and]

theorem converged_background (hs : s.WellFormed) : s.background.Converged ↔ s.Converged := by
  constructor
  · intro h pos hpos hsettled
    have hlive : s.background.live pos.positionId = some pos.columns :=
      (List.valueAt_eq_some_iff hs.nodup).mpr ⟨pos, hpos, rfl, rfl⟩
    have hsaved := h _ _ hlive (settled_background.mpr hsettled)
    exact (List.valueAt_eq_some_iff s.store.nodup).mp hsaved
  · intro h p v hlive hsettled
    obtain ⟨pos, hpos, rfl, rfl⟩ := (List.valueAt_eq_some_iff hs.nodup).mp hlive
    exact (List.valueAt_eq_some_iff s.store.nodup).mpr
      (h pos hpos (settled_background.mp hsettled))

/-! ### What the book holds -/

theorem freshId_not_mem (pm : PositionManager) :
    pm.freshId ∉ pm.positions.map (·.positionId) := by
  intro hmem
  have hle : pm.freshId ≤ (pm.positions.map (·.positionId)).foldr max 0 :=
    List.le_max_of_le hmem le_rfl
  exact absurd hle (Nat.not_succ_le_self _)

@[simp] theorem positionId_filled {fill : FillEvent} {pos : Position} :
    (pos.filled fill).positionId = pos.positionId := by
  unfold Position.filled
  split_ifs <;> rfl

/-- **A fill changes one position**, the one it returns. -/
theorem valueAt_handleFill {pm : PositionManager} (fill : FillEvent)
    (hnodup : (pm.positions.map (·.positionId)).Nodup) :
    (pm.handleFill fill).1.positions.valueAt (·.positionId) Position.columns
        = Function.update (pm.positions.valueAt (·.positionId) Position.columns)
          (pm.handleFill fill).2.positionId (some (pm.handleFill fill).2.columns)
      ∧ ((pm.handleFill fill).1.positions.map (·.positionId)).Nodup := by
  unfold PositionManager.handleFill PositionManager.handleFillDrawing
  cases htarget : pm.target fill none with
  | none =>
    refine ⟨List.valueAt_append_new (freshId_not_mem pm), ?_⟩
    show ((pm.positions ++ [_]).map _).Nodup
    rw [List.map_append, List.nodup_append_comm]
    exact List.nodup_cons.mpr ⟨(freshId_not_mem pm), hnodup⟩
  | some i =>
    obtain ⟨pos, hpos, -⟩ := PositionManager.candidate_of_target htarget
    rw [Option.bind_some, hpos, Option.map_some]
    refine ⟨?_, ?_⟩
    · show (pm.positions.modify i _).valueAt _ _ = Function.update _ (pos.filled fill).positionId _
      rw [positionId_filled]
      exact List.valueAt_modify hnodup hpos positionId_filled
    · show ((pm.positions.modify i _).map _).Nodup
      rwa [List.map_modify_eq fun _ => positionId_filled]

/-- The exit rules that a fill may set are in no column. -/
theorem valueAt_filled (fill : FillEvent) (hs : s.WellFormed) :
    (s.runner.filled env fill).pm.positions.valueAt (·.positionId) Position.columns
        = Function.update (s.runner.pm.positions.valueAt (·.positionId) Position.columns)
          (s.runner.pm.handleFill (s.runner.attributed fill)).2.positionId
          (some (s.runner.pm.handleFill (s.runner.attributed fill)).2.columns)
      ∧ ((s.runner.filled env fill).pm.positions.map (·.positionId)).Nodup := by
  obtain ⟨hvalue, hnodup⟩ := valueAt_handleFill (s.runner.attributed fill) hs.nodup
  refine ⟨?_, ?_⟩
  · rw [List.valueAt_congr (ExecutionRunner.map_filled
      (fun pos => (pos.positionId, pos.columns)) (fun _ _ _ _ _ _ => rfl) fill)]
    exact hvalue
  · rw [ExecutionRunner.map_filled (·.positionId) (fun _ _ _ _ _ _ => rfl) fill]
    exact hnodup

theorem position_eq {p : PositionId} {pos : Position} (h : s.position p = some pos) :
    pos ∈ s.runner.pm.positions ∧ pos.positionId = p := by
  have hid := List.find?_some h
  exact ⟨List.mem_of_find?_eq_some h, of_decide_eq_true hid⟩

/-- What a thread sees of a position is of that position. -/
theorem positionId_visible {p : PositionId} {old : Bool} {pos : Position}
    (h : s.visible p old = some pos) : pos.positionId = p := by
  cases old with
  | false => exact (position_eq h).2
  | true => exact of_decide_eq_true (Option.filter_eq_some_iff.mp h).2

/-! ### What a step does to them -/

section Steps

variable {i : ℕ} {task : PersistTask}

/-- A task that goes on, and has not finished. -/
theorem background_goOn {task' : PersistTask} {stage : PersistStage}
    (htask : s.tasks[i]? = some task) (hid : task'.positionId = task.positionId)
    (hold : task.stage ≠ .finished) (hnew : stage ≠ .finished) :
    (s.goOn i task' stage).background = s.background := by
  unfold background
  congr 1
  refine List.map_set_eq htask ?_
  show BackgroundWriter.mk task'.positionId _ = _
  rw [hid, decide_eq_false hnew, decide_eq_false hold]

/-- A row is written. -/
theorem background_written {now : Time} {pos : Position} (hid : pos.positionId = task.positionId) :
    (s.written i task now pos).background
      = s.background.finish i ⟨task.positionId, false⟩ pos.columns := by
  unfold background WriteBehind.finish
  congr 1
  · show (List.upsert _ _ _ _ _ : List Attribution).valueAt _ _ = _
    rw [← hid]
    exact List.valueAt_upsert rfl rfl fun row hrow => ⟨hrow, rfl⟩
  · show (s.tasks.set i _).map _ = (s.tasks.map _).set i _
    rw [List.map_set]
    rfl

/-- **A fill changes a position and starts its task.** -/
theorem background_filled (hs : s.WellFormed) (fill : FillEvent) :
    ∃ p v, (s.filled env fill).background = s.background.change p v := by
  let pos := (s.runner.pm.handleFill (s.runner.attributed fill)).2
  refine ⟨pos.positionId, pos.columns, ?_⟩
  unfold background WriteBehind.change filled
  congr 1
  · exact (valueAt_filled fill hs).1
  · exact List.map_append

/-- **A commission changes a position and is to be written**, where one is
found. -/
theorem background_netted (hs : s.WellFormed) (o : OrderId) (amount : ℚ) :
    (s.netted o amount).background = s.background
      ∨ ∃ p v, (s.netted o amount).background = s.background.change p v := by
  unfold netted
  split
  · exact .inl rfl
  · rename_i pos hfound
    obtain ⟨i, hi, hpos⟩ := Option.bind_eq_some_iff.mp hfound
    refine .inr ⟨pos.positionId, (pos.netted amount).columns, ?_⟩
    unfold background WriteBehind.change
    congr 1
    · show (s.runner.onCommission o amount).pm.positions.valueAt _ _ = _
      unfold ExecutionRunner.onCommission
      rw [hi]
      exact List.valueAt_modify hs.nodup hpos rfl
    · exact List.map_append

/-- **What a step can do**: positions, table and tasks stay, a callback
begins, a task goes on with what it has read of its own position, or a row is
written, on the loop with what the position is or by a thread with what it
has read. -/
inductive Effect (env : RunnerEnv) (s : AttributionSession) (l : Label)
    (t : AttributionSession) : Prop
  | kept (hpm : t.runner.pm = s.runner.pm) (hstore : t.store = s.store)
      (htasks : t.tasks = s.tasks)
  | filled (fill : FillEvent) (h : t = s.filled env fill)
  | netted (o : OrderId) (amount : ℚ) (h : t = s.netted o amount)
  | wentOn (i : ℕ) (task task' : PersistTask) (stage : PersistStage)
      (htask : s.tasks[i]? = some task) (hid : task'.positionId = task.positionId)
      (hold : task.stage ≠ .finished) (hnew : stage ≠ .finished)
      (hseen : ∀ seen, stage.seen = some seen → seen.positionId = task.positionId)
      (h : t = s.goOn i task' stage)
  | wroteNow (i : ℕ) (task : PersistTask) (now : Time) (pos : Position)
      (htask : s.tasks[i]? = some task) (hold : task.stage ≠ .finished)
      (hpos : s.position task.positionId = some pos) (h : t = s.written i task now pos)
  | wrote (i : ℕ) (task : PersistTask) (now : Time) (seen : Position) (hl : l = .write i now)
      (htask : s.tasks[i]? = some task) (hstage : task.stage = .built seen)
      (h : t = s.written i task now seen)

/-- **How a step is taken**: the callback of a fill starts its task, that of a
commission writes what the position is, and a task reads its next field,
writes what it has read, or finds the database locked and begins again. -/
inductive Move (env : RunnerEnv) (s : AttributionSession) : Label → AttributionSession → Prop
  | orders (l : OrderManager.Label) (om : OrderManager) (hfree : s.free = true)
      (hom : s.runner.om.step l = some om) :
      Move env s (.orders l) { s with runner := { s.runner with om := om } }
  | exiting (p : PositionId) (reason : String) (hfree : s.free = true) :
      Move env s (.exiting p reason)
        { s with exitReasons := fun q => if q = p then some reason else s.exitReasons q }
  | fill (fill : FillEvent) (hidle : s.idle = true) : Move env s (.fill fill) (s.filled env fill)
  | commission (o : OrderId) (amount : ℚ) (hidle : s.idle = true) :
      Move env s (.commission o amount) (s.netted o amount)
  | starts (i : ℕ) (now : Time) (task : PersistTask) (before : Option Position)
      (htask : s.tasks[i]? = some task) (hstage : task.stage = .filling before) :
      Move env s (.handled i now) (s.goOn i task .started)
  | writesNow (i : ℕ) (now : Time) (task : PersistTask) (pos : Position)
      (htask : s.tasks[i]? = some task) (hstage : task.stage = .netting)
      (hpos : s.position task.positionId = some pos) :
      Move env s (.handled i now) (s.written i task now pos)
  | reads (i : ℕ) (old : Bool) (task : PersistTask) (pos : Position) (stage : PersistStage)
      (htask : s.tasks[i]? = some task) (hpos : s.visible task.positionId old = some pos)
      (hread : task.stage.read pos = some stage) : Move env s (.read i old) (s.goOn i task stage)
  | writes (i : ℕ) (now : Time) (task : PersistTask) (seen : Position)
      (htask : s.tasks[i]? = some task) (hstage : task.stage = .built seen) :
      Move env s (.write i now) (s.written i task now seen)
  | retries (i : ℕ) (task : PersistTask) (seen : Position) (htask : s.tasks[i]? = some task)
      (hstage : task.stage = .built seen) (hattempt : task.attempt < 2) :
      Move env s (.locked i) (s.goOn i { task with attempt := task.attempt + 1 } .started)

theorem step_cases (h : s.step env l = some t) : Move env s l t := by
  cases l with
  | orders l =>
    obtain ⟨hfree, h⟩ := Option.ite_none_right_eq_some.mp h
    obtain ⟨om, hom, rfl⟩ := Option.map_eq_some_iff.mp h
    exact .orders l om hfree hom
  | exiting p reason =>
    obtain ⟨hfree, h⟩ := Option.ite_none_right_eq_some.mp h
    obtain rfl := Option.some.inj h
    exact .exiting p reason hfree
  | fill fill =>
    obtain ⟨hidle, h⟩ := Option.ite_none_right_eq_some.mp h
    obtain rfl := Option.some.inj h
    exact .fill fill hidle
  | commission o amount =>
    obtain ⟨hidle, h⟩ := Option.ite_none_right_eq_some.mp h
    obtain rfl := Option.some.inj h
    exact .commission o amount hidle
  | handled i now =>
    obtain ⟨task, htask, h⟩ := Option.bind_eq_some_iff.mp h
    split at h
    · rename_i before hstage
      obtain rfl := Option.some.inj h
      exact .starts i now task before htask hstage
    · rename_i hstage
      obtain ⟨pos, hpos, rfl⟩ := Option.map_eq_some_iff.mp h
      exact .writesNow i now task pos htask hstage hpos
    · cases h
  | read i old =>
    obtain ⟨task, htask, h⟩ := Option.bind_eq_some_iff.mp h
    obtain ⟨pos, hpos, h⟩ := Option.bind_eq_some_iff.mp h
    obtain ⟨stage, hread, rfl⟩ := Option.map_eq_some_iff.mp h
    exact .reads i old task pos stage htask hpos hread
  | write i now =>
    obtain ⟨task, htask, h⟩ := Option.bind_eq_some_iff.mp h
    split at h
    · rename_i seen hstage
      obtain rfl := Option.some.inj h
      exact .writes i now task seen htask hstage
    · cases h
  | locked i =>
    obtain ⟨task, htask, h⟩ := Option.bind_eq_some_iff.mp h
    split at h
    · rename_i seen hstage
      obtain ⟨hattempt, h⟩ := Option.ite_none_right_eq_some.mp h
      obtain rfl := Option.some.inj h
      exact .retries i task seen htask hstage hattempt
    · cases h

/-- **Every step is one of these.** -/
theorem step_effect (hs : s.WellFormed) (h : s.step env l = some t) : s.Effect env l t := by
  cases step_cases h with
  | orders | exiting => exact .kept rfl rfl rfl
  | fill fill => exact .filled fill rfl
  | commission o amount => exact .netted o amount rfl
  | starts i now task before htask hstage =>
    exact .wentOn i task task .started htask rfl (by simp [hstage]) (by simp)
      (fun seen hseen => by cases hseen) rfl
  | writesNow i now task pos htask hstage hpos =>
    exact .wroteNow i task now pos htask (by simp [hstage]) hpos rfl
  | reads i old task pos stage htask hpos hread =>
    refine .wentOn i task task stage htask rfl ?_ ?_ (fun seen hseen => ?_) rfl
    · intro hfinished
      rw [hfinished] at hread
      cases hread
    · rintro rfl
      exact PersistStage.read_ne_finished hread
    · -- what the task has seen is the row it reads now, or one it had read before
      rcases PersistStage.eq_read (·.positionId) (fun _ _ _ _ => rfl) hread hseen with
        hid | ⟨seen', hseen', hid⟩
      · exact hid.trans (positionId_visible hpos)
      · exact hid.trans (hs.own task (List.mem_of_getElem? htask) seen' hseen')
  | writes i now task seen htask hstage => exact .wrote i task now seen rfl htask hstage rfl
  | retries i task seen htask hstage =>
    exact .wentOn i task { task with attempt := task.attempt + 1 } .started htask rfl
      (by simp [hstage]) (by simp) (fun seen hseen => by cases hseen) rfl

/-- **What a step does to the rows as they are written behind**: nothing, a
change of a position with a task for it, or a write – of what the position
is, unless a thread writes. -/
theorem background_step (hs : s.WellFormed) (h : s.step env l = some t) :
    t.background = s.background
      ∨ (∃ p v, t.background = s.background.change p v)
      ∨ ∃ i task seen, s.tasks[i]? = some task ∧ task.stage ≠ .finished
        ∧ t.background = s.background.finish i ⟨task.positionId, false⟩ seen.columns
        ∧ (s.position task.positionId = some seen ∨ ∃ now, l = .write i now) := by
  cases step_effect hs h with
  | kept hpm hstore htasks =>
    refine .inl ?_
    unfold background
    rw [hpm, hstore, htasks]
  | filled fill h => exact .inr (.inl (h ▸ background_filled hs fill))
  | netted o amount h => exact h ▸ (background_netted hs o amount).imp_right .inl
  | wentOn i task task' stage htask hid hold hnew hseen h =>
    exact .inl (h ▸ background_goOn htask hid hold hnew)
  | wroteNow i task now pos htask hold hpos h =>
    exact .inr (.inr ⟨i, task, pos, htask, hold, h ▸ background_written (position_eq hpos).2,
      .inl hpos⟩)
  | wrote i task now seen hl htask hstage h =>
    have hid := hs.own task (List.mem_of_getElem? htask) seen (by rw [hstage]; rfl)
    exact .inr (.inr ⟨i, task, seen, htask, by simp [hstage], h ▸ background_written hid,
      .inr ⟨now, hl⟩⟩)

/-! ### Every run -/

/-- A task that goes on with what it has read of its own position. -/
theorem WellFormed.goOn (hs : s.WellFormed) {stage : PersistStage}
    (hstage : ∀ seen, stage.seen = some seen → seen.positionId = task.positionId) :
    (s.goOn i task stage).WellFormed where
  nodup := hs.nodup
  own task' htask' seen hseen := by
    rcases List.mem_or_eq_of_mem_set htask' with hmem | rfl
    · exact hs.own task' hmem seen hseen
    · exact hstage seen hseen

/-- A task that has written. -/
theorem WellFormed.written (hs : s.WellFormed) {now : Time} {pos : Position} :
    (s.written i task now pos).WellFormed :=
  ⟨hs.nodup, (hs.goOn fun seen hseen => by cases hseen).own⟩

/-- A task more, that has read nothing. -/
theorem WellFormed.start (hs : s.WellFormed) {runner : ExecutionRunner}
    (hnodup : (runner.pm.positions.map (·.positionId)).Nodup)
    (hstage : task.stage.seen = none) (reasons : PositionId → Option String) :
    WellFormed { s with runner := runner, exitReasons := reasons, tasks := s.tasks ++ [task] } where
  nodup := hnodup
  own task' htask' seen hseen := by
    rcases List.mem_append.mp htask' with hmem | hmem
    · exact hs.own task' hmem seen hseen
    · rw [List.mem_singleton.mp hmem, hstage] at hseen
      cases hseen

/-- A commission leaves which positions there are. -/
theorem ids_onCommission (r : ExecutionRunner) (o : OrderId) (amount : ℚ) :
    (r.onCommission o amount).pm.positions.map (·.positionId)
      = r.pm.positions.map (·.positionId) := by
  unfold ExecutionRunner.onCommission
  split
  · exact List.map_modify_eq fun _ => rfl
  · rfl

theorem WellFormed.netted (hs : s.WellFormed) (o : OrderId) (amount : ℚ) :
    (s.netted o amount).WellFormed := by
  unfold AttributionSession.netted
  split
  · exact hs
  · exact hs.start (by rw [ids_onCommission]; exact hs.nodup) rfl _

/-- **One step.** -/
theorem wellFormed_step (hs : s.WellFormed) (h : s.step env l = some t) : t.WellFormed := by
  cases step_effect hs h with
  | kept hpm hstore htasks => exact ⟨hpm ▸ hs.nodup, htasks ▸ hs.own⟩
  | filled fill h => exact h ▸ hs.start (valueAt_filled fill hs).2 rfl _
  | netted o amount h => exact h ▸ hs.netted o amount
  | wentOn i task task' stage htask hid hold hnew hseen h =>
    exact h ▸ hs.goOn fun seen hseen' => (hseen seen hseen').trans hid.symm
  | wroteNow i task now pos htask hold hpos h => exact h ▸ hs.written
  | wrote i task now seen hl htask hstage h => exact h ▸ hs.written

theorem lastOf_background {p : PositionId} : s.background.LastOf i p
    ↔ ∀ (j : ℕ) (other : PersistTask), s.tasks[j]? = some other → j ≠ i →
        other.positionId = p → other.stage = .finished := by
  constructor
  · intro h j other hother hne hid
    exact of_decide_eq_true (h j ⟨other.positionId, other.stage = .finished⟩
      (by rw [background, List.getElem?_map, hother]; rfl) hne hid)
  · intro h j w hw hne hid
    rw [background, List.getElem?_map] at hw
    obtain ⟨other, hother, rfl⟩ := Option.map_eq_some_iff.mp hw
    exact decide_eq_true (h j other hother hne hid)

/-- What is live under the id of a position is what it is. -/
theorem live_background (hs : s.WellFormed) {p : PositionId} {c : AttributionColumns} :
    (∀ v, s.background.live p = some v → c = v)
      ↔ ∀ pos ∈ s.runner.pm.positions, pos.positionId = p → c = pos.columns := by
  constructor
  · exact fun h pos hpos hid =>
      h _ ((List.valueAt_eq_some_iff hs.nodup).mpr ⟨pos, hpos, hid, rfl⟩)
  · intro h v hv
    obtain ⟨pos, hpos, hid, rfl⟩ := (List.valueAt_eq_some_iff hs.nodup).mp hv
    exact h pos hpos hid

/-- A task that has not finished, as a writer. -/
theorem writers_background (htask : s.tasks[i]? = some task) (h : task.stage ≠ .finished) :
    s.background.writers[i]? = some ⟨task.positionId, false⟩ := by
  show (s.tasks.map _)[i]? = _
  rw [List.getElem?_map, htask, Option.map_some, decide_eq_false h]

/-- A step that no thread writes in keeps the rows converged. -/
theorem converged_of_not_write (hs : s.WellFormed) (hconv : s.background.Converged)
    (h : s.step env l = some t) (hl : ∀ i now, l ≠ .write i now) : t.background.Converged := by
  rcases background_step hs h with heq | ⟨p, v, heq⟩
    | ⟨i, task, seen, htask, hold, heq, hnow | ⟨now, hwrite⟩⟩
  · rwa [heq]
  · rw [heq]
    exact hconv.change p v
  · rw [heq, WriteBehind.converged_finish_iff hconv (writers_background htask hold)]
    intro _
    rw [live_background hs]
    intro pos hpos hid
    have hseen := position_eq hnow
    rw [List.inj_on_of_nodup_map hs.nodup hseen.1 hpos (hseen.2.trans hid.symm)]
  · exact absurd hwrite (hl i now)

/-- **The rows stay converged where the task that writes last is up to
date.** -/
theorem converged_step (hs : s.WellFormed) (hconv : s.Converged) (h : s.step env l = some t) :
    t.Converged ↔ s.LastWriteCurrent l := by
  rw [← converged_background (wellFormed_step hs h)]
  rw [← converged_background hs] at hconv
  cases l with
  | write i now =>
    cases step_cases h with
    | writes _ _ task seen htask hstage =>
      have hold : task.stage ≠ .finished := by simp [hstage]
      have hid := hs.own task (List.mem_of_getElem? htask) seen (by rw [hstage]; rfl)
      rw [background_written hid,
        WriteBehind.converged_finish_iff hconv (writers_background htask hold),
        lastOf_background, live_background hs]
      constructor
      · intro hlast task' seen' htask' hstage'
        obtain rfl := Option.some.inj (htask.symm.trans htask')
        obtain rfl := PersistStage.built.inj (hstage.symm.trans hstage')
        exact hlast
      · exact fun hlast => hlast task seen htask hstage
  | orders | exiting | fill | commission | handled | read | locked =>
    exact iff_of_true (converged_of_not_write hs hconv h fun i now heq => by cases heq) trivial

end Steps

theorem wellFormed_initial (start : Start) : (initial start).WellFormed :=
  ⟨start.nodup, List.forall_mem_nil _⟩

/-- With no write there is nothing to converge. -/
theorem converged_initial (start : Start) : (initial start).Converged := by
  rintro pos - ⟨⟨task, htask, -⟩, -⟩
  cases htask

/-- **The rows converge in a run exactly when of each position the task that
writes last is up to date.** -/
theorem along_converged_iff (env : RunnerEnv) (start : Start) (ls : List Label) :
    (machine env).Along (fun _ _ t => t.Converged) (initial start) ls
      ↔ (machine env).Along (fun s l _ => s.LastWriteCurrent l) (initial start) ls :=
  Machine.along_target_iff (fun _ _ _ hs h => wellFormed_step hs h)
    (fun _ _ _ hs hconv h => converged_step hs hconv h) (wellFormed_initial start)
    (converged_initial start)

/-- Nothing is held, and the table is empty. -/
def sampleStart : Start where
  startup := sampleStartup
  store := {}
  nodup := List.nodup_nil

/-- The task of the opening fill has read the position when the fill that
closes it arrives; it writes after the task of that fill. -/
def lateWrite : List Label :=
  [ .fill (sampleFill .buy 2 Nat.zero_lt_two), .handled 0 0,
    .read 0 false, .read 0 false, .read 0 false, .read 0 false,
    .fill (sampleFill .sell 2 Nat.zero_lt_two), .handled 1 1,
    .read 1 false, .read 1 false, .read 1 false, .read 1 false, .write 1 2, .write 0 3 ]

/-- **The rows do not always converge**: the position is closed, and its row
says that two contracts are open. -/
theorem not_along_converged : ¬ ∀ env start ls,
    (machine env).Along (fun _ _ t => t.Converged) (initial start) ls := by
  intro h
  have hrun : ((machine sampleEnv).run (initial sampleStart) lateWrite).map
      (fun s => decide s.Converged) = some false := by
    decide +kernel
  obtain ⟨t, ht, hconv⟩ := Option.map_eq_some_iff.mp hrun
  have hall := Machine.throughout_iff_along.mpr
    ⟨converged_initial sampleStart, h sampleEnv sampleStart lateWrite⟩
  exact of_decide_eq_false hconv (hall lateWrite t List.prefix_rfl ht)

end AttributionSession
