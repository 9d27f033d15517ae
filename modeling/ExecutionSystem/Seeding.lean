import ExecutionSystem.NetQuantity
import ExecutionSystem.PositionStore
import ExecutionSystem.RunnerSteps

/-!
# Seeding the book at startup

`_seed_positions_from_broker` of `src/app/runner.py`. The position book is
in memory only, so after a restart it is rebuilt from the positions of the
broker, which has one net quantity of a contract, and the open rows of the
attribution store, which tell whose it is. A contract with several rows is
split into one position for each of them; rows of contracts that the broker
does not hold are closed.

Of a position and of a row only its *entry* matters for who holds what.
Every write of the seeding, to the book and to the store, is a write of one
entry under its id, and the id tells which contract and which strategy the
entry is for (`Owns`): the ids of rows are a primary key, and those the
broker client makes up are fresh.
-/

/-- Who holds how much of a contract, under which id. -/
structure BookEntry where
  positionId : PositionId
  strategyId : StrategyId
  contract : StoreKey
  side : OrderSide
  quantity : ℕ
  deriving DecidableEq

def Position.entry (pos : Position) : BookEntry :=
  ⟨pos.positionId, pos.strategyId, pos.contract.storeKey, pos.side, pos.quantity⟩

def Attribution.entry (row : Attribution) : BookEntry :=
  ⟨row.positionId, row.strategyId, row.key, row.side, row.quantity⟩

/-- The signed quantity of an entry: bought is positive. -/
def BookEntry.signed (e : BookEntry) : ℤ := e.side.sign * e.quantity

/-- The positions with one stored under its id. -/
def PositionManager.put (pm : PositionManager) (pos : Position) : PositionManager :=
  ⟨pm.positions.put (·.positionId) pos⟩

/-- **The runner at startup**, with the attribution store. -/
structure Seeding where
  runner : ExecutionRunner
  store : PositionStore

namespace ExecutionRunner

/-- The row a position is attributed by: it must name a configured
strategy. -/
def adopted (s : ExecutionRunner) (attr : Option Attribution) : Option Attribution :=
  attr.filter fun row => (s.config row.strategyId).isSome

/-- The fallback: the first enabled strategy that trades the underlying. -/
def strategyFor (s : ExecutionRunner) (symbol : String) : Option StrategyId :=
  (s.strategyConfigs.find? fun cfg => cfg.enabled && cfg.underlying = symbol).map
    (·.strategyId)

/-- The strategy a seeded position is attributed to. -/
def matchedStrategy (s : ExecutionRunner) (bpos : Position) (attr : Option Attribution) :
    Option StrategyId :=
  match s.adopted attr with
  | some row => some row.strategyId
  | none => s.strategyFor bpos.contract.symbol

/-- The true entry time where the store has it, and else now. -/
def seededSince (s : ExecutionRunner) (now : Time) (attr : Option Attribution) : Time :=
  ((s.adopted attr).bind (·.entryTime)).getD now

/-- The position that is registered for one of the broker's. -/
def seededPosition (s : ExecutionRunner) (now : Time) (bpos : Position)
    (attr : Option Attribution) : Position :=
  { bpos with
    positionId := ((s.adopted attr).map (·.positionId)).getD bpos.positionId
    strategyId := (s.matchedStrategy bpos attr).getD "unknown"
    status := .opened
    entryTime := some (s.seededSince now attr)
    createdAt := s.seededSince now attr
    updatedAt := now }

end ExecutionRunner

namespace Seeding

/-- **`_seed_one_position`.** -/
def seedOnePosition (env : RunnerEnv) (now : Time) (st : Seeding) (bpos : Position)
    (attr : Option Attribution) : Seeding :=
  let pos := st.runner.seededPosition now bpos attr
  let runner := { st.runner with pm := st.runner.pm.put pos }
  { runner :=
      if (st.runner.matchedStrategy bpos attr).isSome then
        { runner with
          pm := runner.applyExitRules env pos (st.runner.seededSince now attr) }
      else runner
    store := st.store.upsertPosition now pos }

/-- A broker position is split if several strategies hold its contract:
each keeps its own quantity and price. -/
def shares (bpos : Position) : List Attribution → List (Position × Option Attribution)
  | [] => [(bpos, none)]
  | [row] => [(bpos, some row)]
  | rows => rows.map fun row =>
    ({ bpos with quantity := row.quantity, averageEntryPrice := row.avgEntryPrice }, some row)

/-- One turn of the loop over the broker's positions. Flat ones are
skipped. -/
def seedPosition (env : RunnerEnv) (now : Time) (st : Seeding) (bpos : Position) :
    Seeding :=
  if bpos.quantity = 0 then st
  else
    (shares bpos (st.store.findAllOpenAttributions bpos.contract.storeKey)).foldl
      (fun st share => st.seedOnePosition env now share.1 share.2) st

/-- The contracts of which the broker holds a quantity. -/
def heldKeys (broker : List Position) : List StoreKey :=
  (broker.filter (·.quantity ≠ 0)).map (·.contract.storeKey)

/-- **`_seed_positions_from_broker`**, with what `get_positions` returned or
`none` where it raised. -/
def seedPositionsFromBroker (env : RunnerEnv) (now : Time) (st : Seeding) :
    Option (List Position) → Seeding
  | none | some [] => st
  | some broker =>
    let st := broker.foldl (seedPosition env now) st
    { st with store := st.store.markClosedIfAbsent (heldKeys broker) now }

/-- The entries of the book. -/
def entries (st : Seeding) : List BookEntry := st.runner.pm.positions.map Position.entry

/-- The entry a share is seeded as. -/
def seededEntry (s : ExecutionRunner) (share : Position × Option Attribution) : BookEntry :=
  (s.seededPosition 0 share.1 share.2).entry

/-! ## What seeding one position writes -/

section One

variable {env : RunnerEnv} {now : Time} {st : Seeding} {share : Position × Option Attribution}

/-- The parts of the runner that attribution reads. -/
@[simp] theorem strategyConfigs_seedOnePosition (bpos : Position) (attr : Option Attribution) :
    (st.seedOnePosition env now bpos attr).runner.strategyConfigs
      = st.runner.strategyConfigs := by
  unfold seedOnePosition
  dsimp only
  split_ifs <;> rfl

/-- Attribution reads nothing of the runner but its configuration. -/
theorem seededEntry_congr {s s' : ExecutionRunner} (h : s.strategyConfigs = s'.strategyConfigs)
    (share : Position × Option Attribution) : seededEntry s share = seededEntry s' share := by
  simp only [seededEntry, Position.entry, ExecutionRunner.seededPosition,
    ExecutionRunner.matchedStrategy, ExecutionRunner.adopted, ExecutionRunner.config,
    ExecutionRunner.strategyFor, h]

/-- What is seen of the positions once one is seeded. -/
theorem map_seedOnePosition {α : Type} (f : Position → α)
    (hf : ∀ pos stop target timeExit useMid now,
      f (Position.withExitRules stop target timeExit useMid now pos) = f pos) :
    (st.seedOnePosition env now share.1 share.2).runner.pm.positions.map f
      = (st.runner.pm.put (st.runner.seededPosition now share.1 share.2)).positions.map f := by
  unfold seedOnePosition
  dsimp only
  split_ifs
  · exact ExecutionRunner.map_applyExitRules f hf ..
  · rfl

/-- **One seeded position in the book**: its entry is put under its id. -/
theorem entries_seedOnePosition :
    (st.seedOnePosition env now share.1 share.2).entries
      = st.entries.put (·.positionId) (seededEntry st.runner share) := by
  rw [entries, map_seedOnePosition _ fun _ _ _ _ _ _ => rfl]
  have hkey : ∀ pos : Position, (Position.entry pos).positionId = pos.positionId := fun _ => rfl
  exact List.map_put hkey _

/-- Seeded positions are open. -/
theorem status_seedOnePosition (h : ∀ pos ∈ st.runner.pm.positions, pos.status = .opened) :
    ∀ pos ∈ (st.seedOnePosition env now share.1 share.2).runner.pm.positions,
      pos.status = .opened := by
  have hmap := @map_seedOnePosition env now st share _ Position.status fun _ _ _ _ _ _ => rfl
  intro pos hpos
  have hstatus := hmap ▸ List.mem_map_of_mem (f := Position.status) hpos
  obtain ⟨x, hx, heq⟩ := List.mem_map.mp hstatus
  rcases List.mem_put.mp hx with rfl | ⟨hx, -⟩
  · exact heq.symm
  · exact heq ▸ h x hx

/-- **One seeded position in the store**: a row that shows its entry, open,
is written under its id. -/
theorem rows_seedOnePosition :
    ∃ row : Attribution, row.entry = seededEntry st.runner share ∧ row.status = "OPEN"
      ∧ (st.seedOnePosition env now share.1 share.2).store.rows
        = st.store.rows.upsert (·.positionId) row.positionId row (.refreshed row) :=
  ⟨.ofPosition now none (st.runner.seededPosition now share.1 share.2), rfl, rfl, rfl⟩

end One

end Seeding
