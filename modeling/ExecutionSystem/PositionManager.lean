import ExecutionSystem.ListFacts
import ExecutionSystem.Quotes

/-!
# The position manager

`PositionManager` of `src/portfolio/position_manager.py`: the internal
book of positions, driven by fills. The dictionary of positions is the
list of its values in insertion order; a position is never removed, and
the object that a method finds and assigns to is named by its place in
the list.
-/

/-- What a position or a fill counts for: the strategy, and the option
contract up to its multiplier. -/
abbrev PositionKey := StrategyId × String × String × Price × OptionRight

def Position.key (pos : Position) : PositionKey :=
  (pos.strategyId, pos.contract.identity)

def FillEvent.key (fill : FillEvent) : PositionKey :=
  (fill.strategyId, fill.contract.identity)

/-! ## One position -/

namespace Position

/-- The profit on `quantity` contracts that leave the position at
`price`. -/
def pnl (pos : Position) (price : Price) (quantity multiplier : ℕ) : ℚ :=
  match pos.side with
  | .buy => (price - pos.averageEntryPrice) * quantity * multiplier
  | .sell => (pos.averageEntryPrice - price) * quantity * multiplier

/-- The position a fill opens. -/
def opened (pid : PositionId) (fill : FillEvent) : Position where
  positionId := pid
  strategyId := fill.strategyId
  contract := fill.contract
  side := fill.side
  quantity := fill.filledQuantity
  filledQuantity := fill.filledQuantity
  averageEntryPrice := fill.fillPrice
  status := .opened
  entryOrderId := fill.orderId
  entryTime := some fill.timestamp
  createdAt := fill.timestamp
  updatedAt := fill.timestamp

/-- A fill on the position's side adds to it. -/
def added (fill : FillEvent) (pos : Position) : Position :=
  let quantity := pos.quantity + fill.filledQuantity
  { pos with
    averageEntryPrice :=
      (pos.averageEntryPrice * pos.quantity + fill.fillPrice * fill.filledQuantity)
        / quantity
    quantity := quantity
    filledQuantity := quantity
    updatedAt := fill.timestamp }

/-- The order of a fill among the exits of the position. -/
def exitOrders (fill : FillEvent) (pos : Position) : List OrderId :=
  if fill.orderId ∈ pos.exitOrderIds then pos.exitOrderIds
  else pos.exitOrderIds ++ [fill.orderId]

/-- A smaller fill on the other side exits part of it. -/
def reduced (fill : FillEvent) (pos : Position) : Position :=
  { pos with
    quantity := pos.quantity - fill.filledQuantity
    realizedPnl := pos.realizedPnl
      + pos.pnl fill.fillPrice fill.filledQuantity fill.contract.multiplier
    exitOrderIds := pos.exitOrders fill
    updatedAt := fill.timestamp }

/-- Any other fill on the other side closes it, however large it is. -/
def closedBy (fill : FillEvent) (pos : Position) : Position :=
  { pos with
    realizedPnl := pos.realizedPnl
      + pos.pnl fill.fillPrice pos.quantity fill.contract.multiplier
    quantity := 0
    status := .closed
    exitTime := some fill.timestamp
    exitOrderIds := pos.exitOrders fill
    updatedAt := fill.timestamp }

/-- **A fill for an existing position.** -/
def filled (fill : FillEvent) (pos : Position) : Position :=
  if fill.side = pos.side then pos.added fill
  else if fill.filledQuantity < pos.quantity then pos.reduced fill
  else pos.closedBy fill

/-- Closed by force at a price. -/
def forceClosed (exitPrice : Price) (timestamp : Time) (pos : Position) : Position :=
  { pos with
    realizedPnl := pos.realizedPnl
      + pos.pnl exitPrice pos.quantity pos.contract.multiplier
    quantity := 0
    status := .closed
    exitTime := some timestamp
    updatedAt := timestamp }

/-- The exit parameters are set. -/
def withExitRules (stopPrice targetPrice : Option Price)
    (timeExitUtc : Option Time) (useMidForExits : Bool) (now : Time)
    (pos : Position) : Position :=
  { pos with
    stopPrice := stopPrice
    targetPrice := targetPrice
    timeExitUtc := timeExitUtc
    useMidForExits := useMidForExits
    updatedAt := now }

/-- The position is marked at a price. -/
def markedAt (price : Price) (now : Time) (pos : Position) : Position :=
  { pos with
    currentPrice := some price
    unrealizedPnl := some (pos.pnl price pos.quantity pos.contract.multiplier)
    updatedAt := now }

/-- What `update_position_prices` does to one position. -/
def marked (floatRepr : Price → String) (quotes : QuoteMap) (now : Time)
    (pos : Position) : Position :=
  if pos.status.isOpen then
    match (pos.contract.lookup floatRepr quotes).bind QuoteSnapshot.valuation with
    | some price => pos.markedAt price now
    | none => pos
  else pos

end Position

/-! ## The book -/

/-- **The positions**, in insertion order. -/
structure PositionManager where
  positions : List Position := []

namespace PositionManager

/-- All currently open positions. -/
def getOpenPositions (pm : PositionManager) : List Position :=
  pm.positions.filter (·.status.isOpen)

/-- The strategies and contracts of the open positions. -/
def openKeys (pm : PositionManager) : List PositionKey :=
  pm.getOpenPositions.map Position.key

/-- The place of the position with an id. -/
def indexOf (pm : PositionManager) (pid : PositionId) : Option ℕ :=
  pm.positions.findIdx? (·.positionId = pid)

/-- Whether a position is an open candidate for a fill. -/
def candidate (fill : FillEvent) (pos : Position) : Bool :=
  pos.status.isOpen && pos.key = fill.key

/-- The position a fill is for: the one named, or the first open one of
its strategy and contract. -/
def target (pm : PositionManager) (fill : FillEvent) : Option PositionId → Option ℕ
  | some pid => pm.indexOf pid
  | none => pm.positions.findIdx? (candidate fill)

/-- **`handle_fill`**: the book afterwards, and the position returned. A position
that is opened has the id that `uuid4()` has `drawn` for it. -/
def handleFillDrawing (pm : PositionManager) (drawn : PositionId) (fill : FillEvent)
    (positionId : Option PositionId := none) : PositionManager × Position :=
  let existing := (pm.target fill positionId).bind fun i =>
    pm.positions[i]?.map fun pos => (i, pos)
  match existing with
  | some (i, pos) =>
    (⟨pm.positions.modify i (.filled fill)⟩, pos.filled fill)
  | none =>
    let pos := Position.opened (positionId.getD drawn) fill
    (⟨pm.positions ++ [pos]⟩, pos)

/-- An id that no position of the book has. -/
def freshId (pm : PositionManager) : PositionId :=
  (pm.positions.map (·.positionId)).foldr max 0 + 1

/-- `handle_fill` of the runner's own book. What `uuid4()` draws is new; which of
the new ids it is makes no difference within one book, and this one stands for it. -/
def handleFill (pm : PositionManager) (fill : FillEvent)
    (positionId : Option PositionId := none) : PositionManager × Position :=
  pm.handleFillDrawing pm.freshId fill positionId

/-- `force_close_position`. -/
def forceClosePosition (pm : PositionManager) (pid : PositionId)
    (exitPrice : Price) (timestamp : Time) : PositionManager :=
  match pm.indexOf pid with
  | none => pm
  | some i => ⟨pm.positions.modify i fun pos =>
      if pos.status = .closed then pos else pos.forceClosed exitPrice timestamp⟩

/-- `set_exit_rules`. -/
def setExitRules (pm : PositionManager) (pid : PositionId)
    (stopPrice targetPrice : Option Price) (timeExitUtc : Option Time)
    (useMidForExits : Bool) (now : Time) : PositionManager :=
  match pm.indexOf pid with
  | none => pm
  | some i => ⟨pm.positions.modify i
      (.withExitRules stopPrice targetPrice timeExitUtc useMidForExits now)⟩

/-- `update_position_prices`. -/
def updatePositionPrices (floatRepr : Price → String) (pm : PositionManager)
    (quotes : QuoteMap) (now : Time) : PositionManager :=
  ⟨pm.positions.map (Position.marked floatRepr quotes now)⟩

/-! ## Whose position a fill is for -/

section Fill

variable {pm : PositionManager} {fill : FillEvent} {pos : Position}

@[simp] theorem key_filled : (pos.filled fill).key = pos.key := by
  unfold Position.filled
  split_ifs <;> rfl

theorem isOpen_of_filled (h : (pos.filled fill).status.isOpen = true) :
    pos.status.isOpen = true := by
  unfold Position.filled at h
  split_ifs at h
  · exact h
  · exact h
  · cases h

/-- A fill for which there is an open position. -/
theorem candidate_of_target {i : ℕ} (h : pm.target fill none = some i) :
    ∃ pos, pm.positions[i]? = some pos ∧ pos.status.isOpen = true
      ∧ pos.key = fill.key := by
  obtain ⟨hlt, hcand, -⟩ := List.findIdx?_eq_some_iff_getElem.mp h
  refine ⟨_, List.getElem?_eq_getElem hlt, ?_⟩
  simpa [candidate] using hcand

/-- **What a fill does to the book**: it opens a position where there is no
open one of its strategy and contract, and else goes into that one. -/
theorem handleFill_cases (pm : PositionManager) (fill : FillEvent) :
    (pm.target fill none = none ∧ (pm.handleFill fill).1.positions
        = pm.positions ++ [Position.opened pm.freshId fill])
      ∨ ∃ i pos, pm.positions[i]? = some pos ∧ pos.status.isOpen = true
        ∧ pos.key = fill.key
        ∧ (pm.handleFill fill).1.positions = pm.positions.modify i (.filled fill) := by
  unfold handleFill handleFillDrawing
  cases ht : pm.target fill none with
  | none => exact .inl ⟨rfl, rfl⟩
  | some i =>
    obtain ⟨pos, hpos, hopen, hkey⟩ := candidate_of_target ht
    refine .inr ⟨i, pos, hpos, hopen, hkey, ?_⟩
    rw [Option.bind_some, hpos, Option.map_some]

/-- A fill for which there is no open position. -/
theorem not_mem_openKeys_of_target (h : pm.target fill none = none) :
    fill.key ∉ pm.openKeys := by
  intro hmem
  obtain ⟨pos, hpos, hkey⟩ := List.mem_map.mp hmem
  obtain ⟨hmem, hopen⟩ := List.mem_filter.mp hpos
  have := List.findIdx?_eq_none_iff.mp h pos hmem
  exact absurd this (by simp [candidate, hopen, show pos.key = fill.key from hkey])

/-- **What a fill does to the open positions**: it opens one where there was
none of its strategy and contract, and else opens none. -/
theorem openKeys_handleFill (pm : PositionManager) (fill : FillEvent) :
    (fill.key ∉ pm.openKeys ∧ (pm.handleFill fill).1.openKeys = pm.openKeys ++ [fill.key])
      ∨ (pm.handleFill fill).1.openKeys.Sublist pm.openKeys := by
  rcases pm.handleFill_cases fill with ⟨htarget, heq⟩ | ⟨i, pos, hpos, -, hkey, heq⟩
  · refine .inl ⟨not_mem_openKeys_of_target htarget, ?_⟩
    rw [openKeys, getOpenPositions, heq, List.filter_append, List.map_append]
    rfl
  · refine .inr ?_
    rw [openKeys, getOpenPositions, heq]
    exact List.map_filter_modify_sublist _ _ (fun _ => key_filled)
      (fun _ => isOpen_of_filled) _ _

/-- The open positions stay of different strategies or contracts. -/
theorem nodup_openKeys_handleFill (h : pm.openKeys.Nodup) :
    (pm.handleFill fill).1.openKeys.Nodup := by
  rcases pm.openKeys_handleFill fill with ⟨hnew, heq⟩ | hsub
  · rw [heq, List.nodup_append_comm]
    exact List.nodup_cons.mpr ⟨hnew, h⟩
  · exact h.sublist hsub

/-- A fill leaves the positions of every other strategy. -/
theorem any_handleFill {p : Position → Bool}
    (hp : ∀ pos : Position, pos.strategyId = fill.strategyId → p pos = false) :
    (pm.handleFill fill).1.positions.any p = pm.positions.any p := by
  rcases pm.handleFill_cases fill with ⟨-, heq⟩ | ⟨i, pos, hpos, -, hkey, heq⟩
  · simp [heq, hp (Position.opened _ fill) rfl]
  · have hstrategy : pos.strategyId = fill.strategyId := congrArg Prod.fst hkey
    have hfilled : (pos.filled fill).strategyId = fill.strategyId :=
      (congrArg Prod.fst (@key_filled fill pos)).trans hstrategy
    rw [heq]
    refine List.any_modify_eq fun pos' hpos' => ?_
    obtain rfl := Option.some.inj (hpos'.symm.trans hpos)
    rw [hp _ hstrategy, hp _ hfilled]

/-- Exit rules leave what does not read them. -/
theorem any_setExitRules {p : Position → Bool} {pid : PositionId}
    {stop target : Option Price} {timeExit : Option Time} {useMid : Bool} {now : Time}
    (hp : ∀ pos : Position, p (pos.withExitRules stop target timeExit useMid now) = p pos) :
    (pm.setExitRules pid stop target timeExit useMid now).positions.any p
      = pm.positions.any p := by
  unfold setExitRules
  split
  · rfl
  · exact List.any_modify_eq fun pos _ => hp pos

/-- Exit rules change nothing else of what positions are there. -/
theorem map_setExitRules {α : Type} (f : Position → α)
    (hf : ∀ pos stop target timeExit useMid now,
      f (Position.withExitRules stop target timeExit useMid now pos) = f pos)
    (pm : PositionManager) (pid : PositionId) (stop target : Option Price)
    (timeExit : Option Time) (useMid : Bool) (now : Time) :
    (pm.setExitRules pid stop target timeExit useMid now).positions.map f
      = pm.positions.map f := by
  unfold setExitRules
  split
  · rfl
  · exact List.map_modify_eq fun pos => hf pos stop target timeExit useMid now

end Fill

end PositionManager
