import ExecutionSystem.Persistence
import ExecutionSystem.RunnerSettings

/-!
# The overrides and their file

`OverrideManager` of `src/control/overrides.py`, in the runner that owns
it. The pauses, the reduce-only flags and the system lock are kept in
memory, and every method of the manager that changes one of them writes
all of them to `configs/overrides.yaml`. A restart loads that file.

Two places go round the methods. A broker that is found disconnected, and
a reconciliation with discrepancies, assign `state.system_locked`
themselves. A severe discrepancy has been locked and written by the
reconciliation engine before; any other, and a disconnect, is a lock that
only memory knows. `lock_system` does not help afterwards: it finds the
flag set and writes nothing.

So the file is what is in memory after every step of a run exactly when no
step assigns the flag while the system is unlocked
(`OverrideSession.along_saved_iff`).

What the runner itself reads of the overrides, its lock and its pauses, is
what the manager holds (`OverrideSession.tracks_of_run`), so what a
restart loses is what the runner acted on.
-/

/-! ## The overrides -/

deriving instance DecidableEq for OverridesConfig

/-- The keys of a document that are looked up. -/
structure OverridesFields where
  pausedStrategies : Option (List StrategyId) := none
  disabledSymbols : Option (List String) := none
  reduceOnly : Option Bool := none
  systemLocked : Option Bool := none
  reduceOnlyStrategies : Option (List StrategyId) := none

/-- A document of `overrides.yaml`: empty, with a top-level `overrides`
key, or flat. -/
inductive OverridesDocument where
  | empty
  | overrides (fields : OverridesFields)
  | flat (fields : OverridesFields)

namespace OverridesConfig

/-- `model_validate`: a missing key has its default. -/
def ofFields (fields : OverridesFields) : OverridesConfig where
  pausedStrategies := fields.pausedStrategies.getD []
  disabledSymbols := fields.disabledSymbols.getD []
  reduceOnly := fields.reduceOnly.getD false
  systemLocked := fields.systemLocked.getD false
  reduceOnlyStrategies := fields.reduceOnlyStrategies.getD []

/-- What `_save` writes. -/
def document (o : OverridesConfig) : OverridesDocument :=
  .overrides {
    pausedStrategies := some o.pausedStrategies
    disabledSymbols := some o.disabledSymbols
    reduceOnly := some o.reduceOnly
    systemLocked := some o.systemLocked
    reduceOnlyStrategies := some o.reduceOnlyStrategies }

/-! ### The methods, each with the new state where it changes -/

def pauseStrategy (sid : StrategyId) (o : OverridesConfig) : Option OverridesConfig :=
  if sid ∈ o.pausedStrategies then none
  else some { o with pausedStrategies := o.pausedStrategies ++ [sid] }

def resumeStrategy (sid : StrategyId) (o : OverridesConfig) : Option OverridesConfig :=
  if sid ∈ o.pausedStrategies then
    some { o with pausedStrategies := o.pausedStrategies.erase sid }
  else none

def disableSymbol (symbol : String) (o : OverridesConfig) : Option OverridesConfig :=
  if symbol ∈ o.disabledSymbols then none
  else some { o with disabledSymbols := o.disabledSymbols ++ [symbol] }

def enableSymbol (symbol : String) (o : OverridesConfig) : Option OverridesConfig :=
  if symbol ∈ o.disabledSymbols then
    some { o with disabledSymbols := o.disabledSymbols.erase symbol }
  else none

def setReduceOnly (enabled : Bool) (strategyId : Option StrategyId) (o : OverridesConfig) :
    Option OverridesConfig :=
  match strategyId with
  | some sid =>
    if enabled then
      if sid ∈ o.reduceOnlyStrategies then none
      else some { o with reduceOnlyStrategies := o.reduceOnlyStrategies ++ [sid] }
    else
      if sid ∈ o.reduceOnlyStrategies then
        some { o with reduceOnlyStrategies := o.reduceOnlyStrategies.erase sid }
      else none
  | none => if o.reduceOnly = enabled then none else some { o with reduceOnly := enabled }

def lockSystem (o : OverridesConfig) : Option OverridesConfig :=
  if o.systemLocked then none else some { o with systemLocked := true }

def unlockSystem (o : OverridesConfig) : Option OverridesConfig :=
  if o.systemLocked then some { o with systemLocked := false } else none

end OverridesConfig

/-! ## The manager -/

/-- What the runner and the manual controls do to the overrides. -/
inductive OverrideCall where
  | pauseStrategy (sid : StrategyId)
  | resumeStrategy (sid : StrategyId)
  | disableSymbol (symbol : String)
  | enableSymbol (symbol : String)
  | setReduceOnly (enabled : Bool) (strategyId : Option StrategyId)
  | lockSystem
  | unlockSystem
  /-- `state.system_locked = True`. -/
  | assignLocked

/-- The calls that `ManualControlService` makes. -/
def OverrideCall.manual : OverrideCall → Bool
  | pauseStrategy _ | resumeStrategy _ | disableSymbol _ | enableSymbol _
  | setReduceOnly true _ | lockSystem => true
  | _ => false

section Manager

variable {Text : Type} (yaml : YamlCodec OverridesDocument Text)

/-- **`load_overrides_config`.** -/
def loadOverridesConfig (text : Text) : Option OverridesConfig :=
  (yaml.safeLoad text).map fun
    | .empty => {}
    | .overrides fields => .ofFields fields
    | .flat fields => .ofFields fields

/-- **What is written is what a restart loads.** -/
theorem load_document (o : OverridesConfig) :
    loadOverridesConfig yaml (yaml.dump o.document) = some o := by
  rw [loadOverridesConfig, yaml.safeLoad_dump]
  rfl

end Manager

/-- The overrides in memory, beside their file. -/
abbrev OverrideManager (Text : Type) := Persisted OverridesConfig Text

namespace OverrideManager

variable {Text : Type} (yaml : YamlCodec OverridesDocument Text)

/-- A method that changes the state saves it. -/
def mutate (m : OverrideManager Text) (changed : Option OverridesConfig) :
    OverrideManager Text :=
  match changed with
  | none => m
  | some o => m.store o (yaml.dump o.document)

/-- **One call.** -/
def call (m : OverrideManager Text) : OverrideCall → OverrideManager Text
  | .pauseStrategy sid => mutate yaml m (m.memory.pauseStrategy sid)
  | .resumeStrategy sid => mutate yaml m (m.memory.resumeStrategy sid)
  | .disableSymbol symbol => mutate yaml m (m.memory.disableSymbol symbol)
  | .enableSymbol symbol => mutate yaml m (m.memory.enableSymbol symbol)
  | .setReduceOnly enabled sid => mutate yaml m (m.memory.setReduceOnly enabled sid)
  | .lockSystem => mutate yaml m m.memory.lockSystem
  | .unlockSystem => mutate yaml m m.memory.unlockSystem
  | .assignLocked => m.assign { m.memory with systemLocked := true }

/-- The calls of one block, in their order. -/
def calls (m : OverrideManager Text) (cs : List OverrideCall) : OverrideManager Text :=
  cs.foldl (call yaml) m

variable {yaml} {m : OverrideManager Text}

theorem saved_mutate (hm : m.Saved (loadOverridesConfig yaml))
    (changed : Option OverridesConfig) :
    (mutate yaml m changed).Saved (loadOverridesConfig yaml) := by
  cases changed with
  | none => exact hm
  | some o => exact @Persisted.saved_store _ _ _ m _ _ (load_document yaml o)

/-- **A method of the manager keeps the file.** -/
theorem saved_call (hm : m.Saved (loadOverridesConfig yaml)) {c : OverrideCall}
    (hc : c ≠ .assignLocked) : (call yaml m c).Saved (loadOverridesConfig yaml) := by
  cases c with
  | assignLocked => exact absurd rfl hc
  | _ => exact saved_mutate hm _

/-- **The assignment keeps it where the system is locked already.** -/
theorem saved_assignLocked_iff (hm : m.Saved (loadOverridesConfig yaml)) :
    (call yaml m .assignLocked).Saved (loadOverridesConfig yaml)
      ↔ m.memory.systemLocked = true := by
  refine hm.assign_iff.trans ⟨fun h => ?_, fun h => ?_⟩
  · rw [← h]
  · rw [← h]

theorem systemLocked_lockSystem :
    (call yaml m .lockSystem).memory.systemLocked = true := by
  simp only [call, OverridesConfig.lockSystem]
  split_ifs with h
  · exact h
  · rfl

theorem systemLocked_unlockSystem :
    (call yaml m .unlockSystem).memory.systemLocked = false := by
  simp only [call, OverridesConfig.unlockSystem]
  split_ifs with h
  · rfl
  · exact Bool.not_eq_true _ ▸ h

end OverrideManager

/-! ## What a block of the runner calls -/

/-- A discrepancy was found, and none that locks the system by itself. -/
def ReconciliationReport.warnOnly (report : ReconciliationReport) : Bool :=
  !report.isClean && !report.severe

theorem ReconciliationReport.not_severe_of_isClean {report : ReconciliationReport}
    (h : report.isClean = true) : report.severe = false := by
  rw [severe, List.isEmpty_iff.mp h]
  rfl

/-- **A reconciliation**: the engine locks on a severe discrepancy, and
then the runner assigns the flag on any. -/
def ReconciliationReport.overrideCalls (report : ReconciliationReport) : List OverrideCall :=
  (if report.severe then [.lockSystem] else [])
    ++ if report.isClean then [] else [.assignLocked]

/-- Whether a clean reconciliation unlocks. -/
def ReconcileSite.unlocks : ReconcileSite → Bool
  | periodic => false
  | autoResume | unlockCommand _ => true

/-- What a command calls. -/
def Command.overrideCalls : Command → List OverrideCall
  | .pauseStrategy sid true => [.pauseStrategy sid]
  | .pauseStrategy sid false => [.resumeStrategy sid]
  | .lockSystem => [.lockSystem]
  | _ => []

namespace ExecutionRunner

/-- What a block of the runner's own calls. -/
def blockCalls (s : ExecutionRunner) : RunnerPc → List OverrideCall
  | .commands (c :: _) => c.overrideCalls
  | .manageSwept => if s.om.brokerRejectedOrderIds.isEmpty then [] else [.lockSystem]
  | _ => []

/-- What the block that follows an answer calls. -/
def answerCalls (s : ExecutionRunner) (reply : RunnerReply) : RunnerPc → List OverrideCall
  | .tickConnected =>
    match reply with
    | .connected false => [.assignLocked]
    | _ => []
  | .reconcileOrders site orders index found =>
    match reply with
    | .openOrders broker =>
      let report := compareOrders found s.om.orders orders index broker
      report.overrideCalls ++ if report.isClean && site.unlocks then [.unlockSystem] else []
    | _ => []
  | _ => []

/-- **What the block that a label leads to calls.** -/
def overrideCalls (s : ExecutionRunner) : Label → List OverrideCall
  | .run => s.blockCalls s.pc
  | .reply reply => s.answerCalls reply s.pc
  | _ => []

/-- Whether the block that follows an answer assigns the lock itself, and
nobody has locked and written it in the same block before. -/
def answerAssigns (s : ExecutionRunner) (reply : RunnerReply) : RunnerPc → Bool
  | .tickConnected =>
    match reply with
    | .connected false => true
    | _ => false
  | .reconcileOrders _ orders index found =>
    match reply with
    | .openOrders broker => (compareOrders found s.om.orders orders index broker).warnOnly
    | _ => false
  | _ => false

/-- **The block assigns the lock itself**: a disconnect does, and a
reconciliation that finds no severe discrepancy but another one. -/
def assignsLock (s : ExecutionRunner) : Label → Bool
  | .reply reply => s.answerAssigns reply s.pc
  | _ => false

/-- What a manual control changes for the runner. -/
def controlled (s : ExecutionRunner) : OverrideCall → ExecutionRunner
  | .pauseStrategy sid => { s with pausedStrategies := s.pausedStrategies.insert sid }
  | .resumeStrategy sid => { s with pausedStrategies := s.pausedStrategies.erase sid }
  | .lockSystem => s.lock .operator
  | _ => s

end ExecutionRunner

namespace OverrideManager

variable {Text : Type} {yaml : YamlCodec OverridesDocument Text} {m : OverrideManager Text}

/-- Calls of the methods keep the file. -/
theorem saved_calls (hm : m.Saved (loadOverridesConfig yaml)) {cs : List OverrideCall}
    (hcs : .assignLocked ∉ cs) : (calls yaml m cs).Saved (loadOverridesConfig yaml) := by
  induction cs generalizing m with
  | nil => exact hm
  | cons c cs ih =>
    rw [List.mem_cons, not_or] at hcs
    exact ih (saved_call hm (Ne.symm hcs.1)) hcs.2

/-- **A reconciliation keeps the file exactly when it finds nothing, or a
severe discrepancy, or the system locked.** -/
theorem saved_reconciliation_iff (hm : m.Saved (loadOverridesConfig yaml))
    (report : ReconciliationReport) :
    (calls yaml m report.overrideCalls).Saved (loadOverridesConfig yaml)
      ↔ (report.warnOnly = true → m.memory.systemLocked = true) := by
  unfold ReconciliationReport.overrideCalls ReconciliationReport.warnOnly
  cases hclean : report.isClean with
  | true =>
    rw [ReconciliationReport.not_severe_of_isClean hclean]
    exact iff_of_true hm fun h => Bool.noConfusion h
  | false =>
    cases hsevere : report.severe with
    | true =>
      have hlocked : (call yaml m .lockSystem).Saved (loadOverridesConfig yaml) :=
        saved_call hm (by rintro ⟨⟩)
      exact iff_of_true ((saved_assignLocked_iff hlocked).mpr systemLocked_lockSystem)
        fun h => Bool.noConfusion h
    | false => exact (saved_assignLocked_iff hm).trans ⟨fun h _ => h, fun h => h rfl⟩

theorem saved_commandCalls (hm : m.Saved (loadOverridesConfig yaml)) (c : Command) :
    (calls yaml m c.overrideCalls).Saved (loadOverridesConfig yaml) := by
  cases c with
  | pauseStrategy sid paused =>
    cases paused <;> exact saved_calls hm (by simp [Command.overrideCalls])
  | _ => exact saved_calls hm (by simp [Command.overrideCalls])

/-- The runner's own blocks keep the file. -/
theorem saved_blockCalls (hm : m.Saved (loadOverridesConfig yaml)) (s : ExecutionRunner)
    (pc : RunnerPc) : (calls yaml m (s.blockCalls pc)).Saved (loadOverridesConfig yaml) := by
  cases pc with
  | commands rest =>
    cases rest with
    | nil => exact hm
    | cons c rest => exact saved_commandCalls hm c
  | manageSwept =>
    refine saved_calls hm ?_
    simp only [ExecutionRunner.blockCalls]
    split_ifs <;> simp
  | _ => exact hm

/-- **An answer keeps the file exactly when the block does not assign the
lock while the system is unlocked.** -/
theorem saved_answerCalls_iff (hm : m.Saved (loadOverridesConfig yaml)) (s : ExecutionRunner)
    (reply : RunnerReply) (pc : RunnerPc) :
    (calls yaml m (s.answerCalls reply pc)).Saved (loadOverridesConfig yaml)
      ↔ (s.answerAssigns reply pc = true → m.memory.systemLocked = true) := by
  cases pc with
  | tickConnected =>
    cases reply with
    | connected value =>
      cases value with
      | false => exact (saved_assignLocked_iff hm).trans ⟨fun h _ => h, fun h => h rfl⟩
      | true => exact iff_of_true hm fun h => Bool.noConfusion h
    | _ => exact iff_of_true hm fun h => Bool.noConfusion h
  | reconcileOrders site orders index found =>
    cases reply with
    | openOrders broker =>
      simp only [ExecutionRunner.answerCalls, ExecutionRunner.answerAssigns]
      cases hclean : (compareOrders found s.om.orders orders index broker).isClean with
      | false =>
        rw [Bool.false_and, if_neg Bool.false_ne_true, List.append_nil]
        exact saved_reconciliation_iff hm _
      | true =>
        refine iff_of_true (saved_calls hm ?_) ?_
        · simp only [ReconciliationReport.overrideCalls, hclean,
            ReconciliationReport.not_severe_of_isClean hclean]
          cases site.unlocks <;> simp
        · simp [ReconciliationReport.warnOnly, hclean]
    | _ => exact iff_of_true hm fun h => Bool.noConfusion h
  | _ => exact iff_of_true hm fun h => Bool.noConfusion h

/-- **A block keeps the file exactly when it does not assign the lock while
the system is unlocked.** -/
theorem saved_overrideCalls_iff (hm : m.Saved (loadOverridesConfig yaml))
    (s : ExecutionRunner) (l : ExecutionRunner.Label) :
    (calls yaml m (s.overrideCalls l)).Saved (loadOverridesConfig yaml)
      ↔ (s.assignsLock l = true → m.memory.systemLocked = true) := by
  cases l with
  | run => exact iff_of_true (saved_blockCalls hm s s.pc) fun h => Bool.noConfusion h
  | reply reply => exact saved_answerCalls_iff hm s reply s.pc
  | _ => exact iff_of_true hm fun h => Bool.noConfusion h

end OverrideManager

/-! ## The process and its restarts -/

/-- **The file, and the process that has loaded it**, while there is
one. -/
structure OverrideSession (Text : Type) where
  file : Text
  process : Option (ExecutionRunner × OverridesConfig) := none

namespace OverrideSession

variable {Text : Type}

/-- What can happen next. -/
inductive Label where
  /-- A process starts, and its first reconciliation has this report. -/
  | start (startup : ExecutionRunner.Startup) (report : ReconciliationReport)
  | runner (l : ExecutionRunner.Label)
  /-- Someone uses a manual control. -/
  | control (c : OverrideCall)
  /-- The process ends, in whatever way. -/
  | die

section Step

variable (yaml : YamlCodec OverridesDocument Text) (env : RunnerEnv)

/-- The session after a process has started: the overrides are loaded, and
reconciled before the main loop begins. -/
def started (file : Text) (startup : ExecutionRunner.Startup) (report : ReconciliationReport)
    (o : OverridesConfig) : OverrideSession Text :=
  let m := OverrideManager.calls yaml ⟨o, file⟩ report.overrideCalls
  { file := m.file
    process := some (.initial { startup with
      systemLocked := m.memory.systemLocked
      pausedStrategies := m.memory.pausedStrategies }, m.memory) }

/-- **One step.** A file that cannot be loaded starts no process. -/
def step (s : OverrideSession Text) : Label → Option (OverrideSession Text)
  | .start startup report =>
    match s.process with
    | none => (loadOverridesConfig yaml s.file).map (started yaml s.file startup report)
    | some _ => none
  | .runner l =>
    s.process.bind fun (r, o) => (r.step env l).map fun r' =>
      let m := OverrideManager.calls yaml ⟨o, s.file⟩ (r.overrideCalls l)
      { file := m.file, process := some (r', m.memory) }
  | .control c =>
    s.process.bind fun (r, o) =>
      if c.manual ∧ r.om.running.isNone ∧ ¬ r.busy then
        let m := OverrideManager.call yaml ⟨o, s.file⟩ c
        some { file := m.file, process := some (r.controlled c, m.memory) }
      else none
  | .die => some { s with process := none }

/-- Processes one after the other on one file. -/
def machine : Machine (OverrideSession Text) Label where
  step := step yaml env

/-- **The overrides on disk are those in memory.** -/
def Saved (s : OverrideSession Text) : Prop :=
  ∀ p ∈ s.process, loadOverridesConfig yaml s.file = some p.2

/-- **The lock is assigned while the system is unlocked**, by the runner, or
by the first reconciliation of a process. -/
def AssignsLock (s : OverrideSession Text) : Label → Prop
  | .start _ report => report.warnOnly = true
      ∧ ∀ o ∈ loadOverridesConfig yaml s.file, o.systemLocked = false
  | .runner l => ∃ p ∈ s.process, p.1.assignsLock l = true ∧ p.2.systemLocked = false
  | .control _ | .die => False

end Step

variable {yaml : YamlCodec OverridesDocument Text} {env : RunnerEnv}
  {s t : OverrideSession Text} {l : Label}

theorem saved_of_process_eq_none (h : s.process = none) : s.Saved yaml := by
  intro p hp
  rw [h] at hp
  cases hp

/-- **A step keeps the file exactly when it does not assign the lock while
the system is unlocked.** -/
theorem saved_step_iff (hs : s.Saved yaml) (h : s.step yaml env l = some t) :
    t.Saved yaml ↔ ¬ AssignsLock yaml s l := by
  cases l with
  | start startup report =>
    simp only [step] at h
    split at h
    · obtain ⟨o, ho, rfl⟩ := Option.map_eq_some_iff.mp h
      have hm : (Persisted.mk o s.file).Saved (loadOverridesConfig yaml) := ho
      refine Iff.trans ?_ ((OverrideManager.saved_reconciliation_iff hm report).trans ?_)
      · exact ⟨fun hsaved => hsaved _ rfl, fun hsaved p hp => by cases hp; exact hsaved⟩
      · simp [AssignsLock, ho]
    · cases h
  | runner l =>
    obtain ⟨⟨r, o⟩, hp, h⟩ := Option.bind_eq_some_iff.mp h
    obtain ⟨r', hr, rfl⟩ := Option.map_eq_some_iff.mp h
    have hm : (Persisted.mk o s.file).Saved (loadOverridesConfig yaml) := hs _ hp
    refine Iff.trans ?_ ((OverrideManager.saved_overrideCalls_iff hm r l).trans ?_)
    · exact ⟨fun hsaved => hsaved _ rfl, fun hsaved p hp => by cases hp; exact hsaved⟩
    · simp [AssignsLock, hp]
  | control c =>
    obtain ⟨⟨r, o⟩, hp, h⟩ := Option.bind_eq_some_iff.mp h
    simp only [Option.ite_none_right_eq_some, Option.some.injEq] at h
    obtain ⟨⟨hc, -⟩, rfl⟩ := h
    have hm : (Persisted.mk o s.file).Saved (loadOverridesConfig yaml) := hs _ hp
    refine iff_of_true (fun p hp => ?_) id
    cases hp
    exact OverrideManager.saved_call hm (by rintro rfl; cases hc)
  | die =>
    obtain rfl := Option.some.inj h
    exact iff_of_true (saved_of_process_eq_none rfl) id

/-! ## The runner reads what the manager holds -/

/-- The runner's lock and pauses are those in memory. -/
def Tracks (r : ExecutionRunner) (o : OverridesConfig) : Prop :=
  r.systemLocked = o.systemLocked ∧ r.pausedStrategies.Perm o.pausedStrategies

variable {r r' : ExecutionRunner} {o : OverridesConfig} {file : Text}

theorem raises_eq_none_of_overrideCalls {rl : ExecutionRunner.Label}
    (h : r.overrideCalls rl = []) : r.raises rl = none := by
  unfold ExecutionRunner.raises
  split
  · rename_i hpc
    rw [ExecutionRunner.overrideCalls, hpc] at h
    cases h
  · rename_i hpc
    rw [ExecutionRunner.overrideCalls, hpc] at h
    simp only [ExecutionRunner.blockCalls, ite_eq_left_iff, List.cons_ne_nil, imp_false,
      not_not] at h
    rw [if_pos h]
  · rename_i hpc
    rw [ExecutionRunner.overrideCalls, hpc] at h
    cases h
  · rename_i hpc
    rw [ExecutionRunner.overrideCalls, hpc] at h
    have hreport := (List.append_eq_nil_iff.mp h).1
    split_ifs with hclean
    · rfl
    · rw [ReconciliationReport.overrideCalls, if_neg hclean] at hreport
      exact absurd (List.append_eq_nil_iff.mp hreport).2 (List.cons_ne_nil _ _)
  · rfl

/-- **A block that calls nothing leaves the lock and the pauses.** -/
theorem Tracks.of_quiet {rl : ExecutionRunner.Label} (hr : Tracks r o)
    (h : r.step env rl = some r') (hcalls : r.overrideCalls rl = []) : Tracks r' o := by
  have hlocked : r'.systemLocked = r.systemLocked := by
    cases ExecutionRunner.step_effect h with
    | keeps h | batched _ _ _ _ h => exact h.systemLocked
    | background _ _ _ _ h | cancels _ _ _ h | sweeps _ _ _ h | leaves _ _ h
    | enters _ _ _ _ _ _ _ _ _ _ h => exact h.systemLocked
    | filled fill _ h => rw [h]; rfl
    | raised cause hcause =>
      rw [raises_eq_none_of_overrideCalls hcalls] at hcause
      cases hcause
    | unlocked site orders index found broker hpc hl hclean hsite =>
      subst hl
      rw [ExecutionRunner.overrideCalls, hpc] at hcalls
      -- an unlock would be a call of the override manager
      have hunlock := (List.append_eq_nil_iff.mp hcalls).2
      rcases hsite with rfl | ⟨rest, rfl⟩ <;>
        simp [hclean, ReconcileSite.unlocks] at hunlock
  have hpaused : r'.pausedStrategies = r.pausedStrategies := by
    cases ExecutionRunner.step_settings h with
    | same h => exact h.pausedStrategies
    | commanded c rest hpc hl hset =>
      subst hl hset
      refine ExecutionRunner.command_pausedStrategies c rest ?_
      rintro sid paused rfl
      rw [ExecutionRunner.overrideCalls, hpc] at hcalls
      cases paused <;> cases hcalls
    | exitsBegin hpc hl hset =>
      rw [hset, ExecutionRunner.startExits]
      dsimp only
      split_ifs <;> rfl
  exact ⟨hlocked.trans hr.1, hpaused ▸ hr.2⟩

/-- A pause is the same pause, and so is its end. -/
theorem tracks_pause (hr : Tracks r o) (sid : StrategyId) (r' : ExecutionRunner)
    (hlocked : r'.systemLocked = r.systemLocked)
    (hpaused : r'.pausedStrategies = r.pausedStrategies.insert sid) :
    Tracks r' (OverrideManager.call yaml ⟨o, file⟩ (.pauseStrategy sid)).memory := by
  simp only [OverrideManager.call, OverridesConfig.pauseStrategy]
  split_ifs with hmem
  · refine ⟨hlocked.trans hr.1, ?_⟩
    rw [hpaused, List.insert_of_mem (hr.2.mem_iff.mpr hmem)]
    exact hr.2
  · refine ⟨hlocked.trans hr.1, ?_⟩
    rw [hpaused, List.insert_of_not_mem fun h => hmem (hr.2.mem_iff.mp h)]
    exact (hr.2.cons sid).trans (List.perm_append_singleton sid _).symm

theorem tracks_resume (hr : Tracks r o) (sid : StrategyId) (r' : ExecutionRunner)
    (hlocked : r'.systemLocked = r.systemLocked)
    (hpaused : r'.pausedStrategies = r.pausedStrategies.erase sid) :
    Tracks r' (OverrideManager.call yaml ⟨o, file⟩ (.resumeStrategy sid)).memory := by
  simp only [OverrideManager.call, OverridesConfig.resumeStrategy]
  split_ifs with hmem
  · exact ⟨hlocked.trans hr.1, hpaused ▸ hr.2.erase sid⟩
  · refine ⟨hlocked.trans hr.1, ?_⟩
    rw [hpaused, List.erase_of_not_mem fun h => hmem (hr.2.mem_iff.mp h)]
    exact hr.2

/-- The calls on the lock leave the pauses. -/
theorem pausedStrategies_lockSystem (m : OverrideManager Text) :
    (OverrideManager.call yaml m .lockSystem).memory.pausedStrategies
      = m.memory.pausedStrategies := by
  simp only [OverrideManager.call, OverridesConfig.lockSystem]
  split_ifs <;> rfl

theorem pausedStrategies_unlockSystem (m : OverrideManager Text) :
    (OverrideManager.call yaml m .unlockSystem).memory.pausedStrategies
      = m.memory.pausedStrategies := by
  simp only [OverrideManager.call, OverridesConfig.unlockSystem]
  split_ifs <;> rfl

/-- What a reconciliation calls leaves the pauses, and locks on any
discrepancy. -/
theorem memory_reconciliation (report : ReconciliationReport) :
    let m := OverrideManager.calls yaml ⟨o, file⟩ report.overrideCalls
    m.memory.systemLocked = (o.systemLocked || !report.isClean)
      ∧ m.memory.pausedStrategies = o.pausedStrategies := by
  unfold ReconciliationReport.overrideCalls
  cases hclean : report.isClean with
  | true =>
    rw [ReconciliationReport.not_severe_of_isClean hclean]
    exact ⟨(Bool.or_false _).symm, rfl⟩
  | false =>
    cases report.severe with
    | true => exact ⟨(Bool.or_true _).symm, pausedStrategies_lockSystem _⟩
    | false => exact ⟨(Bool.or_true _).symm, rfl⟩

/-- A pause, its end or a lock that was commanded. -/
theorem tracks_command (hr : Tracks r o) (c : Command) (rest : List Command)
    (hcalls : c.overrideCalls ≠ []) :
    Tracks (r.command env rest c)
      (OverrideManager.calls yaml ⟨o, file⟩ c.overrideCalls).memory := by
  cases c with
  | pauseStrategy sid paused =>
    cases paused with
    | true => exact tracks_pause hr sid _ rfl rfl
    | false => exact tracks_resume hr sid _ rfl rfl
  | lockSystem =>
    refine ⟨OverrideManager.systemLocked_lockSystem.symm, ?_⟩
    exact (pausedStrategies_lockSystem _).symm ▸ hr.2
  | _ => exact absurd rfl hcalls

theorem tracks_block (hr : Tracks r o) {pc : RunnerPc} (h : r.block env pc = some r')
    (hcalls : r.blockCalls pc ≠ []) :
    Tracks r' (OverrideManager.calls yaml ⟨o, file⟩ (r.blockCalls pc)).memory := by
  cases ExecutionRunner.block_cases h with
  | command c rest => exact tracks_command hr c rest hcalls
  | manageSwept =>
    simp only [ExecutionRunner.blockCalls, ExecutionRunner.manageSwept] at hcalls ⊢
    split_ifs at hcalls ⊢
    · exact absurd rfl hcalls
    · refine ⟨OverrideManager.systemLocked_lockSystem.symm, ?_⟩
      exact (pausedStrategies_lockSystem _).symm ▸ hr.2
  | _ => exact absurd rfl hcalls

/-- The lock after a reconciliation, at each place where one is run. -/
theorem tracks_reconciled (hr : Tracks r o) (report : ReconciliationReport)
    (site : ReconcileSite) :
    Tracks (r.reconciled env report site)
      (OverrideManager.calls yaml ⟨o, file⟩ (report.overrideCalls
        ++ if report.isClean && site.unlocks then [.unlockSystem] else [])).memory := by
  obtain ⟨hlocked, hpaused⟩ := @memory_reconciliation Text yaml o file report
  rw [OverrideManager.calls, List.foldl_append]
  change Tracks _ (OverrideManager.calls yaml
    (OverrideManager.calls yaml ⟨o, file⟩ report.overrideCalls) _).memory
  -- what the calls of the report leave matters only by its lock and its pauses
  generalize OverrideManager.calls yaml ⟨o, file⟩ report.overrideCalls = m at hlocked hpaused
  have hkept : (r.reconciled env report site).pausedStrategies = r.pausedStrategies :=
    (ExecutionRunner.reconciled_settings report site).pausedStrategies
  cases hclean : report.isClean with
  | false =>
    rw [hclean] at hlocked
    refine ⟨?_, hkept ▸ hpaused ▸ hr.2⟩
    rw [Bool.false_and, if_neg Bool.false_ne_true]
    refine Eq.trans ?_ (hlocked.trans (Bool.or_true _)).symm
    cases site <;> simp only [ExecutionRunner.reconciled, hclean] <;> rfl
  | true =>
    rw [hclean] at hlocked
    cases site with
    | periodic =>
      refine ⟨?_, hkept ▸ hpaused ▸ hr.2⟩
      simp only [ExecutionRunner.reconciled, hclean]
      exact hr.1.trans (hlocked.trans (Bool.or_false _)).symm
    | autoResume | unlockCommand rest =>
      refine ⟨?_, hkept ▸ (pausedStrategies_unlockSystem m).symm ▸ hpaused ▸ hr.2⟩
      refine Eq.trans ?_ OverrideManager.systemLocked_unlockSystem.symm
      simp only [ExecutionRunner.reconciled, hclean]
      rfl

theorem tracks_answer (hr : Tracks r o) {reply : RunnerReply} {pc : RunnerPc}
    (h : r.answered env reply pc = some r') (hcalls : r.answerCalls reply pc ≠ []) :
    Tracks r' (OverrideManager.calls yaml ⟨o, file⟩ (r.answerCalls reply pc)).memory := by
  cases ExecutionRunner.answered_cases h with
  | disconnected => exact ⟨rfl, hr.2⟩
  | openOrders broker site => exact tracks_reconciled hr _ site
  | _ => exact absurd rfl hcalls

/-- **What the manager holds after a block is what the runner reads.** -/
theorem Tracks.step {rl : ExecutionRunner.Label} (hr : Tracks r o)
    (h : r.step env rl = some r') :
    Tracks r' (OverrideManager.calls yaml ⟨o, file⟩ (r.overrideCalls rl)).memory := by
  by_cases hcalls : r.overrideCalls rl = []
  · rw [hcalls]
    exact hr.of_quiet h hcalls
  · cases rl with
    | run =>
      simp only [ExecutionRunner.step, Option.ite_none_right_eq_some] at h
      exact tracks_block hr h.2 hcalls
    | reply reply =>
      simp only [ExecutionRunner.step, Option.ite_none_right_eq_some] at h
      exact tracks_answer hr h.2 hcalls
    | _ => exact absurd rfl hcalls

/-- A manual control changes both alike. -/
theorem tracks_controlled (hr : Tracks r o) {c : OverrideCall} (hc : c.manual = true) :
    Tracks (r.controlled c) (OverrideManager.call yaml ⟨o, file⟩ c).memory := by
  cases c with
  | pauseStrategy sid => exact tracks_pause hr sid _ rfl rfl
  | resumeStrategy sid => exact tracks_resume hr sid _ rfl rfl
  | lockSystem =>
    refine ⟨OverrideManager.systemLocked_lockSystem.symm, ?_⟩
    exact (pausedStrategies_lockSystem _).symm ▸ hr.2
  | disableSymbol symbol =>
    simp only [OverrideManager.call, OverridesConfig.disableSymbol]
    split_ifs <;> exact hr
  | enableSymbol symbol =>
    simp only [OverrideManager.call, OverridesConfig.enableSymbol]
    split_ifs <;> exact hr
  | setReduceOnly enabled sid =>
    simp only [OverrideManager.call, OverridesConfig.setReduceOnly]
    cases sid <;> dsimp only <;> split_ifs <;> exact hr
  | unlockSystem | assignLocked => cases hc

/-- **In every run the lock and the pauses that the runner reads are those
that its manager holds.** -/
theorem tracks_of_run {file : Text} {ls : List Label} {t : OverrideSession Text}
    (h : (machine yaml env).run { file := file } ls = some t) :
    ∀ p ∈ t.process, Tracks p.1 p.2 := by
  refine Machine.run_invariant' (J := fun s => ∀ p ∈ s.process, Tracks p.1 p.2)
    (fun s l t hs h p hp => ?_) (fun p hp => by cases hp) h
  cases l with
  | start startup report =>
    simp only [machine, step] at h
    split at h
    · obtain ⟨o, ho, rfl⟩ := Option.map_eq_some_iff.mp h
      cases hp
      exact ⟨rfl, .refl _⟩
    · cases h
  | runner l =>
    obtain ⟨⟨r, o⟩, hr, h⟩ := Option.bind_eq_some_iff.mp h
    obtain ⟨r', hstep, rfl⟩ := Option.map_eq_some_iff.mp h
    cases hp
    exact Tracks.step (hs _ hr) hstep
  | control c =>
    obtain ⟨⟨r, o⟩, hr, h⟩ := Option.bind_eq_some_iff.mp h
    simp only [Option.ite_none_right_eq_some, Option.some.injEq] at h
    obtain ⟨⟨hc, -⟩, rfl⟩ := h
    cases hp
    exact tracks_controlled (hs _ hr) hc
  | die =>
    obtain rfl := Option.some.inj h
    cases hp

/-! ## What survives -/

/-- **The overrides survive a restart at every point of a run exactly when
no step of it assigns the lock while the system is unlocked.** -/
theorem along_saved_iff (yaml : YamlCodec OverridesDocument Text) (env : RunnerEnv)
    (file : Text) (ls : List Label) :
    (machine yaml env).Along (fun _ _ t => t.Saved yaml) { file := file } ls
      ↔ (machine yaml env).Along (fun s l _ => ¬ AssignsLock yaml s l) { file := file } ls :=
  Machine.along_target_iff (J := fun _ => True) (fun _ _ _ _ _ => trivial)
    (fun _ _ _ _ hs h => saved_step_iff hs h) trivial (saved_of_process_eq_none rfl)


/-- A process starts on a file without overrides, and its first tick finds
the broker away. -/
def lockedByDisconnect : List Label :=
  [ .start sampleStartup ⟨0, []⟩, .runner .run, .runner .run,
    .runner (.reply (.connected false)) ]

/-- **A lock that the runner assigns is not on disk.** -/
theorem not_along_saved :
    ¬ ∀ (Text : Type) (yaml : YamlCodec OverridesDocument Text) (env : RunnerEnv)
      (file : Text) (ls : List Label),
      (machine yaml env).Along (fun _ _ t => t.Saved yaml) { file := file } ls := by
  intro h
  have hrun : ((machine (.plain _) sampleEnv).run { file := .empty } lockedByDisconnect).map
      (fun t => (loadOverridesConfig (.plain _) t.file, t.process.map (·.2)))
        = some (some {}, some { systemLocked := true }) := by
    decide +kernel
  obtain ⟨t, ht, hstate⟩ := Option.map_eq_some_iff.mp hrun
  obtain ⟨hfile, hmemory⟩ := Prod.mk.inj hstate
  obtain ⟨p, hp, ho⟩ := Option.map_eq_some_iff.mp hmemory
  have hsaved : t.Saved (.plain _) :=
    Machine.throughout_iff_along.mpr ⟨saved_of_process_eq_none rfl,
      h _ (.plain _) sampleEnv .empty lockedByDisconnect⟩ _ t List.prefix_rfl ht
  have := hsaved p hp
  rw [hfile, ho] at this
  revert this
  decide

/-- The operator's lock on top of it is not written either: at the next
turn of the loop the broker is away for the auto-resume and back for the
tick, the operator locks the system, and a restart finds it unlocked. -/
example : (((machine (.plain _) sampleEnv).run { file := .empty } (lockedByDisconnect
    ++ [ExecutionRunner.Label.run, .orders (.advance 1), .run, .run, .run,
        .reply (.connected false), .reply (.connected true),
        .reply (.commands [.lockSystem]), .run].map .runner
    ++ [.die, .start sampleStartup ⟨0, []⟩])).bind (·.process)).map (·.2.systemLocked)
      = some false := by
  decide +kernel

end OverrideSession
