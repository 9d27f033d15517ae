import ExecutionSystem.ListFacts
import ExecutionSystem.Models
import Mathlib.Data.List.Sort

/-!
# The attribution store

`PositionStore` of `src/storage/position_store.py`: the table that tells,
after a restart, which strategy a position of the broker belongs to. A row
is written for every position and its columns are texts and numbers, so a
contract is compared column by column. The position's id is the primary
key, and a row that is written again keeps its contract and its side.
-/

/-- The columns by which a contract is found. -/
abbrev StoreKey := String × String × Price × String

instance : LawfulBEq StoreKey := inferInstance

/-- The text stored for a status. -/
def PositionStatus.value : PositionStatus → String
  | .opening => "OPENING"
  | .opened => "OPEN"
  | .partiallyClosed => "PARTIALLY_CLOSED"
  | .closed => "CLOSED"
  | .forceClosed => "FORCE_CLOSED"

/-- A contract as the store looks for it. -/
def OptionContract.storeKey (c : OptionContract) : StoreKey :=
  (c.symbol, c.expiry, c.strike, c.right.value)

/-- **A row of `position_attribution`.** An entry time that is missing or
cannot be parsed is `none`. -/
structure Attribution where
  positionId : PositionId
  strategyId : StrategyId
  symbol : String
  expiry : String
  strike : Price
  right : String
  side : OrderSide
  quantity : ℕ
  avgEntryPrice : Price
  entryTime : Option Time := none
  status : String
  updatedAt : Time
  realizedPnl : Option ℚ := none
  closeReason : Option String := none
  closedAt : Option Time := none
  deriving DecidableEq

namespace Attribution

def key (row : Attribution) : StoreKey :=
  (row.symbol, row.expiry, row.strike, row.right)

/-- `status IN ('OPEN', 'OPENING', 'open', 'opening')`. -/
def isOpen (row : Attribution) : Bool :=
  row.status ∈ ["OPEN", "OPENING", "open", "opening"]

/-- The row that is inserted for a position. -/
def ofPosition (now : Time) (closeReason : Option String) (pos : Position) :
    Attribution where
  positionId := pos.positionId
  strategyId := pos.strategyId
  symbol := pos.contract.symbol
  expiry := pos.contract.expiry
  strike := pos.contract.strike
  right := pos.contract.right.value
  side := pos.side
  quantity := pos.quantity
  avgEntryPrice := pos.averageEntryPrice
  entryTime := some (pos.entryTime.getD pos.createdAt)
  status := pos.status.value
  updatedAt := now
  realizedPnl := some pos.realizedPnl
  closeReason := closeReason
  closedAt := if pos.status = .closed then some now else none

/-- What `ON CONFLICT(position_id) DO UPDATE` makes of the row that is
there. -/
def refreshed (new old : Attribution) : Attribution :=
  { old with
    strategyId := new.strategyId
    quantity := new.quantity
    avgEntryPrice := new.avgEntryPrice
    status := new.status
    updatedAt := new.updatedAt
    realizedPnl := new.realizedPnl
    closeReason := new.closeReason <|> old.closeReason
    closedAt := new.closedAt <|> old.closedAt }

/-- The row is marked closed. -/
def markedClosed (now : Time) (row : Attribution) : Attribution :=
  { row with status := "CLOSED", updatedAt := now }

@[simp] theorem positionId_refreshed (new old : Attribution) :
    (refreshed new old).positionId = old.positionId := rfl

@[simp] theorem key_refreshed (new old : Attribution) :
    (refreshed new old).key = old.key := rfl

end Attribution

/-- **The table**, `position_id TEXT PRIMARY KEY`. -/
structure PositionStore where
  rows : List Attribution := []
  nodup : (rows.map (·.positionId)).Nodup := by decide

namespace PositionStore

/-- `upsert_position`. -/
def upsertPosition (store : PositionStore) (now : Time) (pos : Position)
    (closeReason : Option String := none) : PositionStore :=
  let row := Attribution.ofPosition now closeReason pos
  { rows := store.rows.upsert (·.positionId) pos.positionId row (.refreshed row)
    nodup := List.nodup_upsert rfl (fun _ h => h) store.nodup }

/-- The open rows of a contract. -/
def openRows (store : PositionStore) (k : StoreKey) : List Attribution :=
  store.rows.filter fun row => row.isOpen && row.key = k

/-- `find_all_open_attributions`: the open rows, the last updated first. -/
def findAllOpenAttributions (store : PositionStore) (k : StoreKey) : List Attribution :=
  (store.openRows k).insertionSort fun a b => b.updatedAt ≤ a.updatedAt

/-- `mark_closed_if_absent`. -/
def markClosedIfAbsent (store : PositionStore) (keys : List StoreKey) (now : Time) :
    PositionStore where
  rows := store.rows.map fun row =>
    if row.isOpen ∧ row.key ∉ keys then row.markedClosed now else row
  nodup := by
    rw [List.map_map, List.map_congr_left (g := (·.positionId))]
    · exact store.nodup
    · intro row _
      show (ite _ _ _ : Attribution).positionId = row.positionId
      split_ifs <;> rfl

theorem mem_findAllOpenAttributions {store : PositionStore} {k : StoreKey}
    {row : Attribution} : row ∈ store.findAllOpenAttributions k ↔ row ∈ store.openRows k :=
  List.mem_insertionSort _

theorem mem_openRows {store : PositionStore} {k : StoreKey} {row : Attribution} :
    row ∈ store.openRows k ↔ row ∈ store.rows ∧ row.isOpen = true ∧ row.key = k := by
  simp [openRows]

/-- A row is found by its id. -/
theorem eq_of_positionId {store : PositionStore} {row row' : Attribution}
    (h : row ∈ store.rows) (h' : row' ∈ store.rows)
    (heq : row.positionId = row'.positionId) : row = row' :=
  List.inj_on_of_nodup_map store.nodup h h' heq

end PositionStore
