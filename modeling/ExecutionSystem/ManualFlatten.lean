import ExecutionSystem.AttributionRows
import ExecutionSystem.MockPositions
import ExecutionSystem.ProfitAndLoss
import Mathlib.Algebra.BigOperators.Group.Finset.Piecewise

/-!
# Flattening by hand

`ManualControlService` of `src/control/manual_control.py` flattens a position,
the positions of a strategy, or all. It closes them in the book, at a price that
the operator gives, and sends no order: what the broker holds stays.

From then on the book and the broker differ, in each contract, by what was
written off of it (`FlattenSession.netHolding_broker`), and whatever is filled
afterwards they go on to differ by that. So a reconciliation is clean exactly
when the write-offs of every contract cancel out, and locks the system exactly
when the book holds, still or again, a contract in which they do not
(`FlattenSession.reconcile_drift`). Flattening everything therefore never locks
(`FlattenSession.flattenAll_not_severe`). The profit of a write-off is that of a
sale at the operator's price (`FlattenSession.value_writeOffs`).

Of the broker only this is assumed, that its positions of a contract sum up to
the fills of it: how many rows it has of a contract, and of which strategies,
does not matter. Of a reconciliation only the comparison of the positions is
meant; flattening leaves the orders.
-/

/-! ## The service -/

/-- An event of the log, as flattening writes it. -/
inductive ControlEvent where
  /-- `position_forced_closed`. -/
  | forcedClosed (positionId : PositionId) (exitPrice : Price) (realizedPnl : ℚ)
      (timestamp : Time)
  /-- `manual_override`, with the parameters `exit_price` and `count`. -/
  | manualOverride (command : String) (target : Option String) (exitPrice : Price)
      (count : Option ℕ) (result : String)
  deriving DecidableEq

/-- What a forced close takes off the book. -/
structure WriteOff where
  contract : OptionContract
  signed : ℤ
  exitPrice : Price

/-- What closing the position writes off. -/
def Position.writeOff (exitPrice : Price) (pos : Position) : WriteOff :=
  ⟨pos.contract, pos.signed, exitPrice⟩

/-- **The service**, with the book and the log. -/
structure ManualControlService where
  positionManager : PositionManager := {}
  events : List ControlEvent := []
  /-- The write-offs so far; the program keeps no such record. -/
  writeOffs : List WriteOff := []

/-- The position that a forced close would close. -/
def PositionManager.closable (pm : PositionManager) (pid : PositionId) : Option Position :=
  ((pm.indexOf pid).bind fun i => pm.positions[i]?).filter (·.status ≠ .closed)

namespace ManualControlService

/-- What was written off of a contract, bought being positive. -/
def writtenOff (s : ManualControlService) (c : ContractKey) : ℤ :=
  ((s.writeOffs.filter (·.contract.key = c)).map WriteOff.signed).sum

/-- `force_close_position`, with what it logs. -/
def forceClose (s : ManualControlService) (pid : PositionId) (exitPrice : Price)
    (timestamp : Time) : ManualControlService where
  positionManager := s.positionManager.forceClosePosition pid exitPrice timestamp
  events := s.events ++ (s.positionManager.closable pid).toList.map fun pos =>
    .forcedClosed pid exitPrice (pos.pnl exitPrice pos.quantity pos.contract.multiplier) timestamp
  writeOffs := s.writeOffs
    ++ (s.positionManager.closable pid).toList.map (Position.writeOff exitPrice)

/-- `_log_action`. -/
def logAction (s : ManualControlService) (command : String) (target : Option String)
    (exitPrice : Price) (count : Option ℕ) (result : String) : ManualControlService :=
  { s with events := s.events ++ [.manualOverride command target exitPrice count result] }

/-- **`flatten_position`**: a position that is closed already is reported as
flattened. -/
def flattenPosition (s : ManualControlService) (pid : PositionId) (exitPrice : Price)
    (now : Time) : ManualControlService × String :=
  let result := if (s.positionManager.indexOf pid).isNone
    then "position_not_found_or_already_closed" else "flattened"
  ((s.forceClose pid exitPrice now).logAction "flatten-position" (some (toString pid)) exitPrice
    none result, result)

/-- The positions are closed one after the other. -/
def flattenEach (s : ManualControlService) (command : String) (target : Option String)
    (positions : List Position) (exitPrice : Price) (now : Time) :
    ManualControlService × String :=
  if positions = [] then
    (s.logAction command target exitPrice none "no_open_positions", "no_open_positions")
  else
    let flattened := positions.length
    let result := s!"flattened_{flattened}_positions"
    ((positions.foldl (fun s pos => s.forceClose pos.positionId exitPrice now) s).logAction
      command target exitPrice (some flattened) result, result)

/-- **`flatten_strategy`.** -/
def flattenStrategy (s : ManualControlService) (strategyId : StrategyId) (exitPrice : Price)
    (now : Time) : ManualControlService × String :=
  s.flattenEach "flatten-strategy" (some strategyId)
    (s.positionManager.getOpenPositions.filter (·.strategyId = strategyId)) exitPrice now

/-- **`flatten_all`.** -/
def flattenAll (s : ManualControlService) (exitPrice : Price) (now : Time) :
    ManualControlService × String :=
  s.flattenEach "flatten-all" none s.positionManager.getOpenPositions exitPrice now

end ManualControlService

/-! ## Fills and flattening -/

/-- The service, and the fills that the book has taken. -/
structure FlattenSession where
  service : ManualControlService := {}
  fills : List FillEvent := []

namespace FlattenSession

/-- What can happen next. -/
inductive Label where
  | fill (fill : FillEvent)
  | flattenPosition (pid : PositionId) (exitPrice : Price) (now : Time)
  | flattenStrategy (strategyId : StrategyId) (exitPrice : Price) (now : Time)
  | flattenAll (exitPrice : Price) (now : Time)

/-- The book of the session. -/
abbrev book (s : FlattenSession) : PositionManager := s.service.positionManager

/-- **One step.** -/
def step (s : FlattenSession) : Label → FlattenSession
  | .fill fill =>
    { service := { s.service with positionManager := (s.book.handleFill fill).1 }
      fills := s.fills ++ [fill] }
  | .flattenPosition pid exitPrice now =>
    { s with service := (s.service.flattenPosition pid exitPrice now).1 }
  | .flattenStrategy strategyId exitPrice now =>
    { s with service := (s.service.flattenStrategy strategyId exitPrice now).1 }
  | .flattenAll exitPrice now =>
    { s with service := (s.service.flattenAll exitPrice now).1 }

/-- Fills and flattening in any order. -/
def machine : Machine FlattenSession Label where
  step s l := some (s.step l)

/-- A fill exits no more than the book has open. -/
def WithinBook (s : FlattenSession) : Label → Prop
  | .fill fill => ∀ pos ∈ s.book.getOpenPositions, pos.key = fill.key →
      fill.side ≠ pos.side → fill.filledQuantity ≤ pos.quantity
  | _ => True

instance (s : FlattenSession) : ∀ l, Decidable (s.WithinBook l)
  | .fill fill => inferInstanceAs (Decidable (∀ pos ∈ s.book.getOpenPositions,
      pos.key = fill.key → fill.side ≠ pos.side → fill.filledQuantity ≤ pos.quantity))
  | .flattenPosition .. | .flattenStrategy .. | .flattenAll .. => instDecidableTrue

end FlattenSession

/-! ## Books of fills and forced closes -/

/-- Modifying an element rests on what is done to it. -/
theorem List.modify_congr_of_getElem? {α : Type*} {f g : α → α} {xs : List α} {i : ℕ} {x : α}
    (hx : xs[i]? = some x) (h : f x = g x) : xs.modify i f = xs.modify i g := by
  refine List.ext_getElem? fun j => ?_
  rw [List.getElem?_modify, List.getElem?_modify]
  by_cases hij : i = j
  · subst hij
    simp [hx, h]
  · simp [hij]

namespace PositionManager

/-- What the open positions hold of a contract. -/
def contractNet (pm : PositionManager) (c : ContractKey) : ℤ :=
  ((pm.positions.filter (fun pos => pos.status.isOpen && pos.contract.key = c)).map
    Position.signed).sum

/-- **A book that only fills and forced closes have changed**: its positions are
open, or closed with nothing left. -/
structure Settled (pm : PositionManager) : Prop where
  onePerKey : pm.OnePerKey
  nodup : (pm.positions.map (·.positionId)).Nodup
  opened_or_closed : ∀ pos ∈ pm.positions,
    pos.status = .opened ∨ pos.status = .closed ∧ pos.quantity = 0

variable {pm : PositionManager} {fill : FillEvent} {pid : PositionId} {exitPrice : Price}
  {timestamp : Time} {c : ContractKey}

/-- What is held of a contract is what is compared with the broker. -/
theorem Settled.netHolding_eq (h : pm.Settled) (c : ContractKey) :
    netHolding (pm.getOpenPositions.map Position.holding) c = pm.contractNet c := by
  have hcounted : countedHoldings (pm.getOpenPositions.map Position.holding)
      = pm.getOpenPositions.map Position.holding := by
    refine List.filter_eq_self.mpr fun holding hmem => ?_
    obtain ⟨pos, hpos, rfl⟩ := List.mem_map.mp hmem
    obtain ⟨hpos, hopen⟩ := List.mem_filter.mp hpos
    exact decide_eq_true (h.onePerKey.positive pos hpos hopen)
  rw [netHolding, hcounted, List.filter_map, List.map_map, getOpenPositions, List.filter_filter,
    contractNet]
  refine congrArg (fun ps => (List.map _ ps).sum) (List.filter_congr fun pos _ => ?_)
  exact Bool.and_comm ..

theorem settled_empty : ({} : PositionManager).Settled where
  onePerKey := onePerKey_empty
  nodup := List.nodup_nil
  opened_or_closed _ hpos := absurd hpos List.not_mem_nil

theorem Settled.handleFill (h : pm.Settled) (fill : FillEvent) :
    (pm.handleFill fill).1.Settled where
  onePerKey := h.onePerKey.handleFill
  nodup := (AttributionSession.valueAt_handleFill fill h.nodup).2
  opened_or_closed pos hpos := by
    rcases pm.handleFill_cases fill with ⟨-, heq⟩ | ⟨i, x, hx, hopen, -, heq⟩
    · rw [heq] at hpos
      rcases List.mem_append.mp hpos with hpos | hpos
      · exact h.opened_or_closed pos hpos
      · exact .inl (congrArg Position.status (List.mem_singleton.mp hpos))
    · rw [heq] at hpos
      rcases List.mem_of_mem_modify hpos with hpos | ⟨y, hy, rfl⟩
      · exact h.opened_or_closed pos hpos
      · have hopened := h.opened_or_closed y (List.mem_of_getElem? hy)
        obtain rfl := Option.some.inj (hx.symm.trans hy)
        have hstatus : x.status = .opened := hopened.resolve_right fun hclosed => by
          rw [hclosed.1] at hopen
          cases hopen
        unfold Position.filled
        split_ifs
        · exact .inl hstatus
        · exact .inl hstatus
        · exact .inr ⟨rfl, rfl⟩

/-- A fill that exits no more than there is does not pass through zero. -/
theorem signed_filled_of_le {pos : Position} (hpos : 0 < pos.quantity)
    (hopen : pos.status.isOpen = true)
    (hle : fill.side ≠ pos.side → fill.filledQuantity ≤ pos.quantity) :
    (if (pos.filled fill).status.isOpen then (pos.filled fill).signed else 0)
      = pos.signed + fill.signed := by
  rw [signed_filled fill hpos hopen, stopAtZero_eq_add]
  have ha : (0 : ℤ) ≤ pos.quantity := Int.natCast_nonneg _
  rw [Position.signed, FillEvent.signed, not_lt]
  by_cases hside : fill.side = pos.side
  · rw [hside, OrderSide.sign_mul_add]
    exact mul_nonneg ha (add_nonneg ha (Int.natCast_nonneg _))
  · have hb : (fill.filledQuantity : ℤ) ≤ pos.quantity := by exact_mod_cast hle hside
    rw [OrderSide.sign_of_ne (Ne.symm hside), neg_mul_comm, OrderSide.sign_mul_add]
    exact mul_nonneg ha (by linarith)

/-- **Such a fill adds to what is held of its contract.** -/
theorem Settled.contractNet_handleFill (h : pm.Settled)
    (hwithin : ∀ pos ∈ pm.getOpenPositions, pos.key = fill.key →
      fill.side ≠ pos.side → fill.filledQuantity ≤ pos.quantity) :
    (pm.handleFill fill).1.contractNet c
      = pm.contractNet c + if fill.contract.key = c then fill.signed else 0 := by
  unfold contractNet
  rcases pm.handleFill_cases fill with ⟨-, heq⟩ | ⟨i, pos, hpos, hopen, hkey, heq⟩
  · rw [heq, List.filter_append, List.map_append, List.sum_append]
    by_cases hc : fill.contract.key = c
    · simp [Position.opened, PositionStatus.isOpen, Position.signed, FillEvent.signed, hc]
    · simp [Position.opened, PositionStatus.isOpen, hc]
  · have hmem := List.mem_of_getElem? hpos
    have hsum := List.sum_map_filter_modify
      (fun pos : Position => pos.status.isOpen && decide (pos.contract.key = c))
      Position.signed (Position.filled fill) hpos
    have hcontract : pos.contract.key = fill.contract.key := congrArg contractKeyOf hkey
    have hfilled : (pos.filled fill).contract.key = fill.contract.key :=
      (congrArg contractKeyOf key_filled).trans hcontract
    have hsigned := signed_filled_of_le (h.onePerKey.positive pos hmem hopen) hopen
      (hwithin pos (List.mem_filter.mpr ⟨hmem, hopen⟩) hkey)
    simp only [hcontract, hfilled, hopen, Bool.true_and, Bool.and_eq_true,
      decide_eq_true_eq] at hsum
    rw [heq]
    by_cases hc : fill.contract.key = c
    · simp only [hc, and_true, if_true] at hsum ⊢
      rw [hsigned] at hsum
      linarith
    · simpa only [hc, and_false, if_false, add_zero] using hsum

/-- **What a forced close can do**: nothing, or the position is closed. -/
theorem forceClosePosition_cases (pm : PositionManager) (pid : PositionId) (exitPrice : Price)
    (timestamp : Time) :
    (pm.closable pid = none ∧ pm.forceClosePosition pid exitPrice timestamp = pm)
      ∨ ∃ i pos, pm.positions[i]? = some pos ∧ pos.positionId = pid ∧ pos.status ≠ .closed
        ∧ pm.closable pid = some pos
        ∧ (pm.forceClosePosition pid exitPrice timestamp).positions
          = pm.positions.modify i (.forceClosed exitPrice timestamp) := by
  unfold closable forceClosePosition
  cases hi : pm.indexOf pid with
  | none => exact .inl ⟨rfl, rfl⟩
  | some i =>
    obtain ⟨hlt, hid, -⟩ := List.findIdx?_eq_some_iff_getElem.mp hi
    have hpos : pm.positions[i]? = some pm.positions[i] := List.getElem?_eq_getElem hlt
    dsimp only [Option.bind_some]
    rw [hpos]
    by_cases hclosed : pm.positions[i].status = .closed
    · refine .inl ⟨by simp [hclosed], congrArg mk ?_⟩
      refine (List.modify_congr_of_getElem? (g := id) hpos ?_).trans (List.modify_id ..)
      exact if_pos hclosed
    · refine .inr ⟨i, _, hpos, of_decide_eq_true hid, hclosed, by simp [hclosed], ?_⟩
      refine List.modify_congr_of_getElem? hpos ?_
      exact if_neg hclosed

/-- What is open after a forced close was open before, and has another id. -/
theorem Settled.mem_open_forceClosePosition (h : pm.Settled) {pos : Position}
    (hpos : pos ∈ (pm.forceClosePosition pid exitPrice timestamp).getOpenPositions) :
    pos ∈ pm.getOpenPositions ∧ pos.positionId ≠ pid := by
  obtain ⟨hmem, hopen⟩ := List.mem_filter.mp hpos
  rcases pm.forceClosePosition_cases pid exitPrice timestamp with
    ⟨hnone, heq⟩ | ⟨i, x, hx, hid, -, -, heq⟩
  · rw [heq] at hmem
    refine ⟨List.mem_filter.mpr ⟨hmem, hopen⟩, fun hid => ?_⟩
    -- else it could have been closed
    unfold closable at hnone
    cases hi : pm.indexOf pid with
    | none =>
      have hall := List.findIdx?_eq_none_iff.mp hi pos hmem
      exact absurd hid (of_decide_eq_false hall)
    | some i =>
      obtain ⟨hlt, hfirst, -⟩ := List.findIdx?_eq_some_iff_getElem.mp hi
      have hsame : pm.positions[i] = pos :=
        List.inj_on_of_nodup_map h.nodup (List.getElem_mem hlt) hmem
          ((of_decide_eq_true hfirst).trans hid.symm)
      have hstatus : pos.status ≠ .closed := fun hclosed => by
        rw [hclosed] at hopen
        cases hopen
      rw [hi, Option.bind_some, List.getElem?_eq_getElem hlt, hsame] at hnone
      simp [hstatus] at hnone
  · rw [heq] at hmem
    obtain ⟨j, hj⟩ := List.mem_iff_getElem?.mp hmem
    obtain ⟨old, hold, rfl⟩ := List.getElem?_modify_iff.mp hj
    by_cases hij : i = j
    · rw [if_pos hij] at hopen
      cases hopen
    · rw [if_neg hij] at hopen ⊢
      have hmem := List.mem_of_getElem? hold
      refine ⟨List.mem_filter.mpr ⟨hmem, hopen⟩, fun heq => hij ?_⟩
      refine List.index_eq_of_filterMap_nodup (f := (some ·.positionId)) ?_ hx hold rfl
        (congrArg some (heq.trans hid.symm))
      rw [List.filterMap_eq_map']
      exact h.nodup

/-- **A forced close leaves a settled book.** -/
theorem Settled.forceClosePosition (h : pm.Settled) (pid : PositionId) (exitPrice : Price)
    (timestamp : Time) : (pm.forceClosePosition pid exitPrice timestamp).Settled := by
  rcases pm.forceClosePosition_cases pid exitPrice timestamp with
    ⟨-, heq⟩ | ⟨i, x, hx, -, -, -, heq⟩
  · rw [heq]
    exact h
  · refine ⟨⟨?_, fun pos hpos hopen => ?_⟩, ?_, fun pos hpos => ?_⟩
    · rw [getOpenPositions, heq]
      refine h.onePerKey.nodup.sublist ?_
      exact List.map_filter_modify_sublist (f := Position.forceClosed exitPrice timestamp) _ _
        (fun _ => rfl) (fun _ hopen => absurd hopen Bool.false_ne_true) _ _
    · rw [heq] at hpos
      rcases List.mem_of_mem_modify hpos with hpos | ⟨y, -, rfl⟩
      · exact h.onePerKey.positive pos hpos hopen
      · cases hopen
    · have hids : (pm.positions.modify i (.forceClosed exitPrice timestamp)).map (·.positionId)
          = pm.positions.map (·.positionId) := List.map_modify_eq fun _ => rfl
      rw [heq, hids]
      exact h.nodup
    · rw [heq] at hpos
      rcases List.mem_of_mem_modify hpos with hpos | ⟨y, -, rfl⟩
      · exact h.opened_or_closed pos hpos
      · exact .inr ⟨rfl, rfl⟩

/-- What the book is worth, at a price for each contract. -/
def worth (p : OptionContract → Price) (pm : PositionManager) : ℚ :=
  (pm.positions.map fun pos => pos.value (p pos.contract)).sum

end PositionManager

/-- What was written off is worth, at a price for each contract: the gain since. -/
def WriteOff.value (p : OptionContract → Price) (w : WriteOff) : ℚ :=
  w.signed * (w.exitPrice - p w.contract) * w.contract.multiplier

/-- A forced close realizes the gain at the operator's price. -/
theorem Position.value_forceClosed (p : OptionContract → Price) (exitPrice : Price)
    (timestamp : Time) (pos : Position) :
    (pos.forceClosed exitPrice timestamp).value (p pos.contract)
      = pos.value (p pos.contract) + (pos.writeOff exitPrice).value p := by
  simp only [value, forceClosed, pnl_eq, writeOff, WriteOff.value, signed]
  push_cast
  ring

namespace ManualControlService

variable {s t u : ManualControlService} {pid : PositionId} {exitPrice : Price} {now : Time}

/-- What all write-offs are worth. -/
def writtenOffWorth (s : ManualControlService) (p : OptionContract → Price) : ℚ :=
  (s.writeOffs.map (WriteOff.value p)).sum

/-- **The book is flattened only**: of each contract it holds less by what is
written off, and it is worth more by what the write-offs are worth. -/
structure Flattens (s t : ManualControlService) : Prop where
  contracts : t.positionManager.positions.map (·.contract)
    = s.positionManager.positions.map (·.contract)
  settled : s.positionManager.Settled → t.positionManager.Settled
  contractNet : s.positionManager.Settled → ∀ c,
    t.positionManager.contractNet c + t.writtenOff c
      = s.positionManager.contractNet c + s.writtenOff c
  worth : ∀ p, t.positionManager.worth p + s.writtenOffWorth p
    = s.positionManager.worth p + t.writtenOffWorth p

theorem Flattens.refl (s : ManualControlService) : Flattens s s :=
  ⟨rfl, id, fun _ _ => rfl, fun _ => rfl⟩

theorem Flattens.trans (h : Flattens s t) (h' : Flattens t u) : Flattens s u where
  contracts := h'.contracts.trans h.contracts
  settled hs := h'.settled (h.settled hs)
  contractNet hs c := (h'.contractNet (h.settled hs) c).trans (h.contractNet hs c)
  worth p := by
    have := h.worth p
    have := h'.worth p
    linarith

theorem flattens_logAction (s : ManualControlService) (command : String) (target : Option String)
    (exitPrice : Price) (count : Option ℕ) (result : String) :
    Flattens s (s.logAction command target exitPrice count result) :=
  ⟨rfl, id, fun _ _ => rfl, fun _ => rfl⟩

/-- **A forced close flattens.** -/
theorem flattens_forceClose (s : ManualControlService) (pid : PositionId) (exitPrice : Price)
    (now : Time) : Flattens s (s.forceClose pid exitPrice now) := by
  refine ⟨?_, fun h => h.forceClosePosition pid exitPrice now, fun h c => ?_, fun p => ?_⟩
  · rcases s.positionManager.forceClosePosition_cases pid exitPrice now with
      ⟨-, heq⟩ | ⟨i, x, -, -, -, -, heq⟩
    · exact congrArg (fun pm => pm.positions.map (·.contract)) heq
    · exact (congrArg (List.map (·.contract)) heq).trans (List.map_modify_eq fun _ => rfl)
  · rcases s.positionManager.forceClosePosition_cases pid exitPrice now with
      ⟨hnone, heq⟩ | ⟨i, x, hx, -, hopen, hsome, heq⟩
    · simp only [forceClose, writtenOff, hnone, heq, Option.toList_none, List.map_nil,
        List.append_nil]
    · have hx' : x.status.isOpen = true := by
        rw [(h.opened_or_closed x (List.mem_of_getElem? hx)).resolve_right fun hc => hopen hc.1]
        rfl
      have hsum := List.sum_map_filter_modify
        (fun pos : Position => pos.status.isOpen && decide (pos.contract.key = c))
        Position.signed (Position.forceClosed exitPrice now) hx
      have hclosed : (x.forceClosed exitPrice now).status.isOpen = false := rfl
      simp only [hx', hclosed, Bool.true_and, decide_eq_true_eq, Bool.false_and,
        Bool.false_eq_true, if_false, add_zero] at hsum
      simp only [forceClose, writtenOff, PositionManager.contractNet, hsome, heq,
        Option.toList_some, List.map_singleton, List.filter_append, List.map_append,
        List.sum_append]
      by_cases hc : x.contract.key = c
      · simp only [hc, if_true] at hsum
        simp [Position.writeOff, hc]
        linarith
      · simp only [hc, if_false, add_zero] at hsum
        simp [Position.writeOff, hc, hsum]
  · rcases s.positionManager.forceClosePosition_cases pid exitPrice now with
      ⟨hnone, heq⟩ | ⟨i, x, hx, -, hopen, hsome, heq⟩
    · simp only [forceClose, writtenOffWorth, hnone, heq, Option.toList_none, List.map_nil,
        List.append_nil]
    · have hsum := List.sum_map_modify (fun pos : Position => pos.value (p pos.contract))
        (Position.forceClosed exitPrice now) hx
      have hvalue := x.value_forceClosed p exitPrice now
      simp only [forceClose, writtenOffWorth, PositionManager.worth, hsome, heq,
        Option.toList_some, List.map_singleton, List.map_append, List.sum_append,
        List.sum_singleton]
      have hcontract : (x.forceClosed exitPrice now).contract = x.contract := rfl
      rw [hcontract] at hsum
      linarith

/-- **So do all of them**, one after the other. -/
theorem flattens_foldl (s : ManualControlService) (positions : List Position) (exitPrice : Price)
    (now : Time) :
    Flattens s (positions.foldl (fun s pos => s.forceClose pos.positionId exitPrice now) s) := by
  induction positions generalizing s with
  | nil => exact .refl s
  | cons pos positions ih => exact (s.flattens_forceClose _ _ _).trans (ih _)

theorem flattens_flattenEach (s : ManualControlService) (command : String)
    (target : Option String) (positions : List Position) (exitPrice : Price) (now : Time) :
    Flattens s (s.flattenEach command target positions exitPrice now).1 := by
  unfold flattenEach
  split_ifs
  · exact s.flattens_logAction ..
  · exact (s.flattens_foldl positions exitPrice now).trans (flattens_logAction ..)

/-- Of what was open, what is left after some were closed is of other ids. -/
theorem mem_open_foldl (h : s.positionManager.Settled) (positions : List Position) {pos : Position}
    (hpos : pos ∈ (positions.foldl (fun s pos => s.forceClose pos.positionId exitPrice now)
      s).positionManager.getOpenPositions) :
    pos ∈ s.positionManager.getOpenPositions
      ∧ pos.positionId ∉ positions.map (·.positionId) := by
  induction positions generalizing s with
  | nil => exact ⟨hpos, List.not_mem_nil⟩
  | cons closed positions ih =>
    obtain ⟨hmem, hnot⟩ := ih (h.forceClosePosition _ _ _) hpos
    obtain ⟨hold, hne⟩ := h.mem_open_forceClosePosition hmem
    exact ⟨hold, List.not_mem_cons_of_ne_of_not_mem hne hnot⟩

/-- **After all are flattened none is open.** -/
theorem getOpenPositions_flattenAll (h : s.positionManager.Settled) :
    (s.flattenAll exitPrice now).1.positionManager.getOpenPositions = [] := by
  unfold flattenAll flattenEach
  split_ifs with hnone
  · exact hnone
  · refine List.eq_nil_iff_forall_not_mem.mpr fun pos hpos => ?_
    obtain ⟨hmem, hnot⟩ := mem_open_foldl h _ hpos
    exact hnot (List.mem_map_of_mem hmem)

end ManualControlService

/-! ## Runs -/

/-- **A fill that exits no more than is open changes what the book is worth by
its own worth.** -/
theorem PositionManager.worth_handleFill {pm : PositionManager} {fill : FillEvent}
    (p : OptionContract → Price)
    (hcontract : ∀ pos ∈ pm.positions, pos.key = fill.key → pos.contract = fill.contract)
    (hwithin : ∀ pos ∈ pm.getOpenPositions, pos.key = fill.key →
      fill.side ≠ pos.side → fill.filledQuantity ≤ pos.quantity) :
    (pm.handleFill fill).1.worth p = pm.worth p + fill.value (p fill.contract) := by
  unfold worth
  rcases pm.handleFill_cases fill with ⟨-, heq⟩ | ⟨i, pos, hpos, hopen, hkey, heq⟩
  · rw [heq, List.map_append, List.sum_append, List.map_singleton, List.sum_singleton]
    exact congrArg _ (Position.value_opened _ _ _)
  · have hmem := List.mem_of_getElem? hpos
    have hsame := hcontract pos hmem hkey
    have hvalue := Position.value_filled (p := p fill.contract) hsame
      (hwithin pos (List.mem_filter.mpr ⟨hmem, hopen⟩) hkey)
    have hfilled : (pos.filled fill).contract = pos.contract := by
      unfold Position.filled
      split_ifs <;> rfl
    have hsum := List.sum_map_modify (fun pos : Position => pos.value (p pos.contract))
      (Position.filled fill) hpos
    rw [hfilled, hsame] at hsum
    rw [heq]
    linarith

/-- What the fills of a contract add up to. -/
def contractFills (c : ContractKey) (fills : List FillEvent) : ℤ :=
  ((fills.filter (·.contract.key = c)).map FillEvent.signed).sum

/-- Summed over keys of which each has one name, a sum by keys is a sum by
names. -/
theorem sum_fibers {α κ γ : Type*} [DecidableEq κ] [DecidableEq γ] (key : α → κ) (name : κ → γ)
    (w : α → ℤ) (c : γ) {keys : Finset κ} {xs : List α} (hkeys : ∀ x ∈ xs, key x ∈ keys) :
    ∑ k ∈ keys with name k = c, ((xs.filter (key · = k)).map w).sum
      = ((xs.filter fun x => name (key x) = c).map w).sum := by
  induction xs with
  | nil => exact Finset.sum_const_zero
  | cons x xs ih =>
    have hx := hkeys x List.mem_cons_self
    have hcons : ∀ k, (((x :: xs).filter (key · = k)).map w).sum
        = (if key x = k then w x else 0) + ((xs.filter (key · = k)).map w).sum := fun k => by
      by_cases hk : key x = k <;> simp [hk]
    rw [Finset.sum_congr rfl fun k _ => hcons k, Finset.sum_add_distrib,
      ih fun y hy => hkeys y (List.mem_cons_of_mem x hy), Finset.sum_ite_eq]
    by_cases hc : name (key x) = c <;> simp [hc, hx]

/-- **A broker that holds the fills by strategy holds them by contract.** -/
theorem HoldsNets.netHolding_signedFills {broker : List Position} {fills : List FillEvent}
    (h : HoldsNets broker (signedFills · fills)) (c : ContractKey) :
    netHolding (broker.map Position.holding) c = contractFills c fills := by
  have hkeys : ∀ k ∈ broker.map Position.key,
      k ∈ (broker.map Position.key ++ fills.map FillEvent.key).toFinset :=
    fun k hk => List.mem_toFinset.mpr (List.mem_append_left _ hk)
  rw [h.netHolding_eq hkeys]
  exact sum_fibers FillEvent.key contractKeyOf FillEvent.signed c fun fill hfill =>
    List.mem_toFinset.mpr (List.mem_append_right _ (List.mem_map_of_mem hfill))

namespace FlattenSession

variable {s t : FlattenSession} {l : Label} {ls : List Label} {broker : List Holding}
  {exitPrice : Price} {now : Time}

/-- **What was written off of a contract**: the difference between the broker and
the book. -/
def drift (s : FlattenSession) (c : ContractKey) : ℤ := s.service.writtenOff c

/-- **What a step can do**: the book takes a fill, or is flattened. -/
theorem step_cases (s : FlattenSession) (l : Label) :
    (∃ fill, l = .fill fill)
      ∨ s.service.Flattens (s.step l).service ∧ (s.step l).fills = s.fills := by
  cases l with
  | fill fill => exact .inl ⟨fill, rfl⟩
  | flattenPosition pid exitPrice now =>
    exact .inr ⟨(s.service.flattens_forceClose pid exitPrice now).trans
      (ManualControlService.flattens_logAction ..), rfl⟩
  | flattenStrategy strategyId exitPrice now =>
    exact .inr ⟨s.service.flattens_flattenEach .., rfl⟩
  | flattenAll exitPrice now => exact .inr ⟨s.service.flattens_flattenEach .., rfl⟩

/-- **Book and write-offs add up to the fills.** -/
structure Balanced (s : FlattenSession) : Prop where
  settled : s.book.Settled
  contractNet : ∀ c, s.book.contractNet c + s.drift c = contractFills c s.fills

theorem Balanced.step (hs : s.Balanced) (hwithin : s.WithinBook l) : (s.step l).Balanced := by
  rcases s.step_cases l with ⟨fill, rfl⟩ | ⟨hflattens, hfills⟩
  · refine ⟨hs.settled.handleFill fill, fun c => ?_⟩
    have hfill : contractFills c (s.fills ++ [fill])
        = contractFills c s.fills + if fill.contract.key = c then fill.signed else 0 := by
      by_cases hc : fill.contract.key = c <;> simp [contractFills, hc]
    show (s.book.handleFill fill).1.contractNet c + s.drift c = contractFills c (s.fills ++ [fill])
    rw [hs.settled.contractNet_handleFill hwithin, hfill, ← hs.contractNet c]
    ring
  · refine ⟨hflattens.settled hs.settled, fun c => ?_⟩
    rw [hfills, ← hs.contractNet c]
    exact hflattens.contractNet hs.settled c

theorem balanced_initial : ({} : FlattenSession).Balanced where
  settled := PositionManager.settled_empty
  contractNet _ := rfl

theorem balanced_of_run (hwithin : machine.Along (fun s l _ => s.WithinBook l) {} ls)
    (hrun : machine.run {} ls = some s) : s.Balanced := by
  refine Machine.run_invariant (J := Balanced) (fun s l t hs hstep hl => ?_) balanced_initial
    hwithin hrun
  obtain rfl := Option.some.inj hstep
  exact hs.step hl

/-- **Book and broker differ by what was written off.** -/
theorem netHolding_broker (hs : s.Balanced)
    (hbroker : ∀ c, netHolding broker c = contractFills c s.fills) (c : ContractKey) :
    netHolding broker c
      = netHolding (s.book.getOpenPositions.map Position.holding) c + s.drift c := by
  rw [hbroker, hs.settled.netHolding_eq, hs.contractNet]

/-- **A reconciliation after flattening by hand.** Let fills and flattening come in
any order, no fill exiting more than the book has open, and let the positions of
the broker sum up to the fills. They are compared clean exactly when the write-offs
of every contract cancel; and the system is locked exactly when the book holds a
contract in which they do not. -/
theorem reconcile_drift (hwithin : machine.Along (fun s l _ => s.WithinBook l) {} ls)
    (hrun : machine.run {} ls = some s)
    (hbroker : ∀ c, netHolding broker c = contractFills c s.fills) :
    ((comparePositions s.book.getOpenPositions broker).details = [] ↔ ∀ c, s.drift c = 0)
      ∧ ((comparePositions s.book.getOpenPositions broker).severe = true
        ↔ ∃ c, s.drift c ≠ 0
          ∧ netHolding (s.book.getOpenPositions.map Position.holding) c ≠ 0) := by
  have hdiffer := netHolding_broker (balanced_of_run hwithin hrun) hbroker
  rw [comparePositions_details_eq_nil, comparePositions_severe]
  constructor
  · refine forall_congr' fun c => ?_
    rw [hdiffer, left_eq_add]
  · refine exists_congr fun c => ?_
    rw [hdiffer]
    constructor
    · rintro ⟨hheld, hne⟩
      exact ⟨fun hzero => hne (by rw [hzero, add_zero]), hheld⟩
    · rintro ⟨hdrift, hheld⟩
      exact ⟨hheld, fun heq => hdrift (left_eq_add.mp heq)⟩

/-- A position is flattened while its exit still works at the broker. -/
def flattensLate : List Label :=
  [.fill (sampleFill .buy 2 Nat.zero_lt_two), .flattenStrategy "orb" 3 0,
    .fill (sampleFill .sell 2 Nat.zero_lt_two)]

theorem withinBook_flattensLate :
    machine.Along (fun s l _ => s.WithinBook l) {} flattensLate := by decide +kernel

/-- The late exit leaves the book short and the broker flat, in two rows that
cancel: the system is locked. -/
theorem reconcile_drift_flattensLate : ∃ s broker, machine.run {} flattensLate = some s
    ∧ broker = [⟨sampleContract, .buy, 2⟩, ⟨sampleContract, .sell, 2⟩]
    ∧ s.drift sampleContract.key = 2
    ∧ ((comparePositions s.book.getOpenPositions broker).details = [] ↔ ∀ c, s.drift c = 0)
    ∧ ((comparePositions s.book.getOpenPositions broker).severe = true
      ↔ ∃ c, s.drift c ≠ 0
        ∧ netHolding (s.book.getOpenPositions.map Position.holding) c ≠ 0) := by
  refine ⟨_, _, rfl, rfl, by decide +kernel,
    reconcile_drift withinBook_flattensLate rfl fun c => ?_⟩
  show netHolding _ c = contractFills c
    [sampleFill .buy 2 Nat.zero_lt_two, sampleFill .sell 2 Nat.zero_lt_two]
  by_cases hc : sampleContract.key = c <;>
    simp [netHolding, countedHoldings, contractFills, sampleFill, FillEvent.signed, hc]

/-- **Flattening everything never locks the system**: the book is empty, and what a
comparison of the positions finds is, once for each contract that was not filled
flat, that only the broker holds it. -/
theorem flattenAll_not_severe (hwithin : machine.Along (fun s l _ => s.WithinBook l) {} ls)
    (hrun : machine.run {} (ls ++ [.flattenAll exitPrice now]) = some s)
    (hbroker : ∀ c, netHolding broker c = contractFills c s.fills) :
    s.book.getOpenPositions = []
      ∧ (comparePositions s.book.getOpenPositions broker).severe = false
      ∧ (comparePositions s.book.getOpenPositions broker).details.Nodup
      ∧ ∀ m, m ∈ (comparePositions s.book.getOpenPositions broker).details
        ↔ ∃ c, contractFills c s.fills ≠ 0
          ∧ m = .brokerOnlyPosition c (contractFills c s.fills) := by
  obtain ⟨t, ht, hstep⟩ := Machine.run_snoc.mp hrun
  obtain rfl := Option.some.inj hstep
  have hfills : (t.step (.flattenAll exitPrice now)).fills = t.fills := rfl
  rw [hfills] at hbroker ⊢
  have hempty : (t.step (.flattenAll exitPrice now)).book.getOpenPositions = [] :=
    ManualControlService.getOpenPositions_flattenAll (balanced_of_run hwithin ht).settled
  have hcompare : ∀ c, comparePosition [] broker c
      = if contractFills c t.fills = 0 then none
        else some (.brokerOnlyPosition c (contractFills c t.fills)) := by
    intro c
    have hnil : netHolding (([] : List Position).map Position.holding) c = 0 := rfl
    unfold comparePosition
    rw [hnil, hbroker]
    by_cases hc : contractFills c t.fills = 0
    · simp [hc]
    · simp [hc, Ne.symm hc]
  have hmem : ∀ m, m ∈ (comparePositions [] broker).details
      ↔ ∃ c, contractFills c t.fills ≠ 0
        ∧ m = .brokerOnlyPosition c (contractFills c t.fills) := by
    intro m
    show m ∈ (heldContracts [] _).filterMap _ ↔ _
    rw [List.mem_filterMap]
    constructor
    · rintro ⟨c, -, hm⟩
      rw [hcompare, Option.ite_none_left_eq_some] at hm
      exact ⟨c, hm.1, (Option.some.inj hm.2).symm⟩
    · rintro ⟨c, hc, rfl⟩
      refine ⟨c, mem_heldContracts ?_, by rw [hcompare, if_neg hc]⟩
      rw [hbroker]
      exact Ne.symm hc
  rw [hempty]
  refine ⟨rfl, ?_, comparePositions_details_nodup [] broker, hmem⟩
  refine Bool.eq_false_of_not_eq_true fun hsevere => ?_
  obtain ⟨m, hm, hm'⟩ := List.any_eq_true.mp hsevere
  obtain ⟨c, -, rfl⟩ := (hmem m).mp hm
  cases hm'

/-- Two contracts bought are left at the broker. -/
theorem flattenAll_not_severe_sampleFill : ∃ s broker,
    machine.run {} ([.fill (sampleFill .buy 2 Nat.zero_lt_two)] ++ [.flattenAll 3 0]) = some s
      ∧ broker = [⟨sampleContract, .buy, 1⟩, ⟨sampleContract, .buy, 1⟩]
      ∧ s.book.getOpenPositions = []
      ∧ (comparePositions s.book.getOpenPositions broker).severe = false
      ∧ (comparePositions s.book.getOpenPositions broker).details.Nodup
      ∧ ∀ m, m ∈ (comparePositions s.book.getOpenPositions broker).details
        ↔ ∃ c, contractFills c s.fills ≠ 0
          ∧ m = .brokerOnlyPosition c (contractFills c s.fills) := by
  have hwithin : machine.Along (fun s l _ => s.WithinBook l) {}
      [.fill (sampleFill .buy 2 Nat.zero_lt_two)] := by decide +kernel
  refine ⟨_, _, rfl, rfl, flattenAll_not_severe hwithin rfl fun c => ?_⟩
  show netHolding _ c = contractFills c [sampleFill .buy 2 Nat.zero_lt_two]
  by_cases hc : sampleContract.key = c <;>
    simp [netHolding, countedHoldings, contractFills, sampleFill, FillEvent.signed, hc]

/-! ### Profit and loss -/

/-- Contracts of one identity are the same, multiplier included. -/
def Consistent (fills : List FillEvent) : Prop :=
  ∀ f ∈ fills, ∀ g ∈ fills, f.contract.identity = g.contract.identity → f.contract = g.contract

/-- **The book is worth what the fills and the write-offs are worth.** -/
structure Accounted (s : FlattenSession) : Prop where
  contracts : ∀ c ∈ s.book.positions.map (·.contract), ∃ fill ∈ s.fills, c = fill.contract
  worth : ∀ p, s.book.worth p = (s.fills.map fun fill => fill.value (p fill.contract)).sum
    + s.service.writtenOffWorth p

theorem accounted_initial : ({} : FlattenSession).Accounted where
  contracts _ hc := absurd hc List.not_mem_nil
  worth _ := (add_zero (0 : ℚ)).symm

theorem Accounted.step (hs : s.Accounted) (hwithin : s.WithinBook l)
    (hconsistent : Consistent (s.step l).fills) : (s.step l).Accounted := by
  rcases s.step_cases l with ⟨fill, rfl⟩ | ⟨hflattens, hfills⟩
  · have hfill : fill ∈ s.fills ++ [fill] := List.mem_append_right _ (List.mem_singleton_self fill)
    have hcontract : ∀ pos ∈ s.book.positions, pos.key = fill.key →
        pos.contract = fill.contract := by
      intro pos hpos hkey
      obtain ⟨g, hg, heq⟩ := hs.contracts _ (List.mem_map_of_mem hpos)
      have hidentity : pos.contract.identity = fill.contract.identity := congrArg Prod.snd hkey
      rw [heq] at hidentity ⊢
      exact hconsistent g (List.mem_append_left _ hg) fill hfill hidentity
    refine ⟨fun c hc => ?_, fun p => ?_⟩
    · obtain ⟨pos, (hpos : pos ∈ (s.book.handleFill fill).1.positions), rfl⟩ :=
        List.mem_map.mp hc
      show ∃ g ∈ s.fills ++ [fill], _
      have hold : ∀ pos ∈ s.book.positions, ∃ g ∈ s.fills ++ [fill],
          pos.contract = g.contract := fun pos hpos => by
        obtain ⟨g, hg, heq⟩ := hs.contracts _ (List.mem_map_of_mem hpos)
        exact ⟨g, List.mem_append_left _ hg, heq⟩
      rcases s.book.handleFill_cases fill with ⟨-, heq⟩ | ⟨i, x, hx, -, -, heq⟩
      · rw [heq] at hpos
        rcases List.mem_append.mp hpos with hpos | hpos
        · exact hold pos hpos
        · obtain rfl := List.mem_singleton.mp hpos
          exact ⟨fill, hfill, rfl⟩
      · rw [heq] at hpos
        rcases List.mem_of_mem_modify hpos with hpos | ⟨y, hy, rfl⟩
        · exact hold pos hpos
        · have hsame : (y.filled fill).contract = y.contract := by
            unfold Position.filled
            split_ifs <;> rfl
          rw [hsame]
          exact hold y (List.mem_of_getElem? hy)
    · show (s.book.handleFill fill).1.worth p
        = ((s.fills ++ [fill]).map fun fill => fill.value (p fill.contract)).sum
          + s.service.writtenOffWorth p
      rw [PositionManager.worth_handleFill p hcontract hwithin, hs.worth p, List.map_append,
        List.sum_append, List.map_singleton, List.sum_singleton]
      ring
  · refine ⟨fun c hc => ?_, fun p => ?_⟩
    · rw [hfills]
      exact hs.contracts c (hflattens.contracts ▸ hc)
    · have hworth := hflattens.worth p
      have hbefore := hs.worth p
      rw [hfills]
      linarith

/-- **A write-off is a sale at the operator's price.** Let fills and flattening come
in any order, no fill exiting more than the book has open. At any prices the book
is worth what its fills are worth and what its write-offs are; and once it is flat,
that is what it has realized. -/
theorem value_writeOffs (hwithin : machine.Along (fun s l _ => s.WithinBook l) {} ls)
    (hrun : machine.run {} ls = some s) (hconsistent : Consistent s.fills)
    (p : OptionContract → Price) :
    s.book.worth p = (s.fills.map fun fill => fill.value (p fill.contract)).sum
        + s.service.writtenOffWorth p
      ∧ (s.book.getOpenPositions = [] → (s.book.positions.map (·.realizedPnl)).sum
        = (s.fills.map fun fill => fill.value (p fill.contract)).sum
          + s.service.writtenOffWorth p) := by
  have haccounted : Consistent s.fills → s.Accounted := by
    refine Machine.run_invariant (J := fun s => Consistent s.fills → s.Accounted)
      (fun s l t hs hstep hl hconsistent => ?_) (fun _ => accounted_initial) hwithin hrun
    obtain rfl := Option.some.inj hstep
    refine (hs fun f hf g hg => hconsistent f ?_ g ?_).step hl hconsistent
    · rcases s.step_cases l with ⟨fill, rfl⟩ | ⟨-, hfills⟩
      · exact List.mem_append_left _ hf
      · exact hfills ▸ hf
    · rcases s.step_cases l with ⟨fill, rfl⟩ | ⟨-, hfills⟩
      · exact List.mem_append_left _ hg
      · exact hfills ▸ hg
  have hworth := (haccounted hconsistent).worth p
  refine ⟨hworth, fun hflat => ?_⟩
  rw [← hworth]
  refine congrArg List.sum (List.map_congr_left fun pos hpos => ?_)
  -- what is closed has nothing left
  have hclosed := (balanced_of_run hwithin hrun).settled.opened_or_closed pos hpos
  have hzero : pos.quantity = 0 := by
    rcases hclosed with hopened | ⟨-, hzero⟩
    · have hmem : pos ∈ s.book.getOpenPositions :=
        List.mem_filter.mpr ⟨hpos, by rw [hopened]; rfl⟩
      rw [hflat] at hmem
      cases hmem
    · exact hzero
  rw [Position.value, hzero, Nat.cast_zero, mul_zero, zero_mul, add_zero]

theorem value_writeOffs_flattensLate : ∃ s, machine.run {} flattensLate = some s
    ∧ s.book.worth (fun _ => 2)
      = (s.fills.map fun fill => fill.value 2).sum + s.service.writtenOffWorth (fun _ => 2)
    ∧ (s.book.getOpenPositions = [] → (s.book.positions.map (·.realizedPnl)).sum
      = (s.fills.map fun fill => fill.value 2).sum + s.service.writtenOffWorth fun _ => 2) := by
  refine ⟨_, rfl, value_writeOffs withinBook_flattensLate rfl ?_ fun _ => 2⟩
  intro f hf g hg _
  have hall : ∀ f ∈ [sampleFill .buy 2 Nat.zero_lt_two, sampleFill .sell 2 Nat.zero_lt_two],
      f.contract = sampleContract := by decide +kernel
  exact (hall f hf).trans (hall g hg).symm

end FlattenSession
