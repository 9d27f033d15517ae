import ExecutionSystem.Machine
import ExecutionSystem.NetQuantity
import ExecutionSystem.RunnerSteps

/-!
# Exit rules while a position is reduced

The fill handler derives stop, target and time exit from the configuration
of the strategy, whatever the side of the fill: `_apply_exit_rules` reads
the configuration as it is then, the average entry price, which an exit
leaves, and the timestamp of the fill. So an exit of a part of the position
sets its rules anew.

They stay what they were exactly when every such fill derives them again
(`rules_kept_iff`): no edit of the dashboard has changed what the percentages
come to, and the fill is of a time that gives the same time exit – which the
fill of a position with a maximal holding time never is, unless it is of the
time of the entry.
-/

/-- **The exit rules of a position**: stop, target, and time exit. -/
structure ExitRules where
  stopPrice : Option Price := none
  targetPrice : Option Price := none
  timeExitUtc : Option Time := none
  deriving DecidableEq

/-- The rules that a position has. -/
def Position.rules (pos : Position) : ExitRules where
  stopPrice := pos.stopPrice
  targetPrice := pos.targetPrice
  timeExitUtc := pos.timeExitUtc

/-- The rules that a configuration gives to a position, from a reference
time. -/
def StrategyConfig.rulesFor (env : RunnerEnv) (cfg : StrategyConfig) (pos : Position)
    (reference : Time) : ExitRules where
  stopPrice := cfg.stopLossPct.map (ExecutionRunner.movedAgainst pos)
  targetPrice := cfg.takeProfitPct.map (ExecutionRunner.movedFor pos)
  timeExitUtc := ExecutionRunner.timeExitFor env cfg reference

namespace PositionManager

variable {pm pm' : PositionManager} {p : PositionId} {i : ℕ} {pos : Position}

/-- The position with an id. -/
def position (pm : PositionManager) (p : PositionId) : Option Position :=
  (pm.indexOf p).bind (pm.positions[·]?)

/-- A change that keeps the ids keeps the places. -/
theorem indexOf_modify {f : Position → Position}
    (hf : ∀ pos, (f pos).positionId = pos.positionId) (i : ℕ) :
    (⟨pm.positions.modify i f⟩ : PositionManager).indexOf p = pm.indexOf p := by
  show (pm.positions.modify i f).findIdx? ((fun q => decide (q = p)) ∘ Position.positionId)
    = pm.positions.findIdx? ((fun q => decide (q = p)) ∘ Position.positionId)
  rw [← List.findIdx?_map, ← List.findIdx?_map, List.map_modify_eq hf]

/-- A change of the position with an id. -/
theorem position_modify {f : Position → Position}
    (hf : ∀ pos, (f pos).positionId = pos.positionId) (hi : pm.indexOf p = some i) :
    (⟨pm.positions.modify i f⟩ : PositionManager).position p = (pm.position p).map f := by
  rw [position, indexOf_modify hf, hi, position, hi, Option.bind_some, Option.bind_some,
    List.getElem?_modify_eq]
  rfl

theorem position_setExitRules (stop target : Option Price) (timeExit : Option Time)
    (useMid : Bool) (now : Time) (hi : pm.indexOf p = some i) :
    (pm.setExitRules p stop target timeExit useMid now).position p
      = (pm.position p).map (.withExitRules stop target timeExit useMid now) := by
  unfold setExitRules
  rw [hi]
  exact position_modify (fun _ => rfl) hi

/-- The position that is found has the id. -/
theorem positionId_of_position (h : pm.position p = some pos) : pos.positionId = p := by
  obtain ⟨i, hi, hpos⟩ := Option.bind_eq_some_iff.mp h
  obtain ⟨hlt, hid, -⟩ := List.findIdx?_eq_some_iff_getElem.mp hi
  rw [List.getElem?_eq_getElem hlt] at hpos
  obtain rfl := Option.some.inj hpos
  exact of_decide_eq_true hid

end PositionManager

namespace ExecutionRunner

/-! ## Reductions -/

/-- What happens to a position while it is reduced. -/
inductive ReductionLabel where
  /-- The broker reports a fill. -/
  | fill (fill : FillEvent)
  /-- The operator edits the parameters of a strategy. -/
  | update (strategyId : StrategyId) (changes : List ParamChange)

/-- **A fill exits a part of a position**: `handle_fill` finds the position,
and the fill is on the other side and smaller. -/
def exitsPart (s : ExecutionRunner) (p : PositionId) (fill : FillEvent) : Bool :=
  s.pm.target (s.attributed fill) none = s.pm.indexOf p
    && (s.pm.position p).any fun pos =>
      fill.side ≠ pos.side && fill.filledQuantity < pos.quantity

/-- **The reduction of a position**, fill by fill, with edits of the
dashboard in between. -/
def reduction (env : RunnerEnv) (p : PositionId) :
    Machine ExecutionRunner ReductionLabel where
  step s
    | .fill fill => if s.exitsPart p fill then some (s.filled env fill) else none
    | .update sid changes => some (s.command env [] (.updateStrategy sid changes))

/-- The rules of the position with an id. -/
def rulesOf (s : ExecutionRunner) (p : PositionId) : Option ExitRules :=
  (s.pm.position p).map Position.rules

/-- **A fill derives the rules again that the position has**, or none at
all. -/
def RulesAgain (env : RunnerEnv) (p : PositionId) (s : ExecutionRunner) (l : ReductionLabel) :
    Prop :=
  ∀ fill, l = .fill fill → ∀ pos ∈ s.pm.position p, ∀ cfg ∈ s.config pos.strategyId,
    cfg.rulesFor env pos fill.timestamp = pos.rules
      ∨ cfg.rulesFor env pos fill.timestamp = {}

/-! ## One fill -/

variable {env : RunnerEnv} {p : PositionId} {s t : ExecutionRunner} {fill : FillEvent}
  {l : ReductionLabel} {pos : Position} {i : ℕ}

theorem attributed_timestamp (s : ExecutionRunner) (fill : FillEvent) :
    (s.attributed fill).timestamp = fill.timestamp := by
  unfold attributed
  split <;> rfl

theorem attributed_side (s : ExecutionRunner) (fill : FillEvent) :
    (s.attributed fill).side = fill.side := by
  unfold attributed
  split <;> rfl

theorem attributed_filledQuantity (s : ExecutionRunner) (fill : FillEvent) :
    (s.attributed fill).filledQuantity = fill.filledQuantity := by
  unfold attributed
  split <;> rfl

/-- **A fill that exits a part finds the position, which is open, and
reduces it.** -/
theorem exists_of_exitsPart (h : s.exitsPart p fill = true) :
    ∃ i pos, s.pm.indexOf p = some i ∧ s.pm.position p = some pos ∧ pos.status.isOpen = true
      ∧ pos.filled (s.attributed fill) = pos.reduced (s.attributed fill)
      ∧ s.pm.handleFill (s.attributed fill)
        = (⟨s.pm.positions.modify i (.filled (s.attributed fill))⟩,
          pos.reduced (s.attributed fill)) := by
  unfold exitsPart at h
  rw [Bool.and_eq_true, decide_eq_true_iff, Option.any_eq_true] at h
  obtain ⟨htarget, pos, hpos, hpart⟩ := h
  rw [Bool.and_eq_true, decide_eq_true_iff, decide_eq_true_iff] at hpart
  obtain ⟨i, hi, hget⟩ := Option.bind_eq_some_iff.mp hpos
  rw [hi] at htarget
  obtain ⟨first, hfirst, hopen, -⟩ := PositionManager.candidate_of_target htarget
  obtain rfl := Option.some.inj (hfirst.symm.trans hget)
  have hreduced : first.filled (s.attributed fill) = first.reduced (s.attributed fill) := by
    rw [Position.filled, attributed_side, if_neg hpart.1, attributed_filledQuantity,
      if_pos hpart.2]
  refine ⟨i, first, hi, hpos, hopen, hreduced, ?_⟩
  rw [PositionManager.handleFill, PositionManager.handleFillDrawing, htarget, Option.bind_some,
    hfirst, Option.map_some]
  dsimp only
  rw [hreduced]

/-- A configuration gives no rules where it has none of them. -/
theorem rulesFor_eq_iff (cfg : StrategyConfig) (reference : Time) :
    cfg.rulesFor env pos reference = {}
      ↔ ((cfg.stopLossPct.map (movedAgainst pos)).isSome
          || (cfg.takeProfitPct.map (movedFor pos)).isSome
          || (timeExitFor env cfg reference).isSome) = false := by
  rw [Bool.or_eq_false_iff, Bool.or_eq_false_iff, Option.isSome_eq_false_iff,
    Option.isSome_eq_false_iff, Option.isSome_eq_false_iff, Option.isNone_iff_eq_none,
    Option.isNone_iff_eq_none, Option.isNone_iff_eq_none, StrategyConfig.rulesFor,
    ExitRules.mk.injEq, and_assoc]

/-- **The rules that are applied to a position** are those that the
configuration gives, if it gives any. -/
theorem rules_applyExitRules {s : ExecutionRunner} {pos : Position} (reference : Time)
    (hpos : s.pm.position p = some pos) (hopen : pos.status.isOpen = true) :
    ((s.applyExitRules env pos reference).position p).map Position.rules
      = some (match s.config pos.strategyId with
        | none => pos.rules
        | some cfg =>
          if cfg.rulesFor env pos reference = {} then pos.rules
          else cfg.rulesFor env pos reference) := by
  obtain ⟨i, hi, hget⟩ := Option.bind_eq_some_iff.mp hpos
  unfold applyExitRules
  cases hcfg : s.config pos.strategyId with
  | none => rw [hpos, Option.map_some]
  | some cfg =>
    dsimp only
    rw [hopen, Bool.true_and]
    -- the rules of the position are overwritten only where there is one to write
    by_cases hrules : cfg.rulesFor env pos reference = {}
    · rw [if_pos hrules, (rulesFor_eq_iff cfg reference).mp hrules, if_neg Bool.false_ne_true,
        hpos, Option.map_some]
    · have hsome := Bool.eq_true_of_not_eq_false (mt (rulesFor_eq_iff cfg reference).mpr hrules)
      rw [if_neg hrules, hsome, if_pos rfl, PositionManager.positionId_of_position hpos,
        PositionManager.position_setExitRules _ _ _ _ _ hi, hpos]
      rfl

/-- **The rules after such a fill.** -/
theorem rulesOf_filled (h : s.exitsPart p fill = true) (hpos : s.pm.position p = some pos) :
    (s.filled env fill).rulesOf p = some (match s.config pos.strategyId with
      | none => pos.rules
      | some cfg =>
        if cfg.rulesFor env pos fill.timestamp = {} then pos.rules
        else cfg.rulesFor env pos fill.timestamp) := by
  obtain ⟨i, pos', hi, hpos', hopen, hreduced, hhandled⟩ := exists_of_exitsPart h
  obtain rfl := Option.some.inj (hpos'.symm.trans hpos)
  -- the book is reduced first, and the rules are derived from the reduced position
  have hbook : PositionManager.position
      ⟨s.pm.positions.modify i (.filled (s.attributed fill))⟩ p
      = some (pos'.reduced (s.attributed fill)) := by
    rw [PositionManager.position_modify (fun pos => ?_) hi, hpos, Option.map_some, hreduced]
    unfold Position.filled
    split_ifs <;> rfl
  unfold rulesOf filled
  dsimp only
  rw [hhandled, attributed_timestamp]
  exact rules_applyExitRules fill.timestamp hbook hopen

/-- **A fill keeps the rules exactly where it derives them again.** -/
theorem rulesOf_filled_iff (h : s.exitsPart p fill = true) :
    (s.filled env fill).rulesOf p = s.rulesOf p ↔ s.RulesAgain env p (.fill fill) := by
  obtain ⟨-, pos, -, hpos, -⟩ := exists_of_exitsPart h
  rw [rulesOf_filled h hpos, rulesOf, hpos, Option.map_some, Option.some.injEq]
  constructor
  · rintro hkept _ ⟨⟩ pos' hpos' cfg hcfg
    obtain rfl := Option.some.inj (hpos.symm.trans hpos')
    rw [Option.mem_def.mp hcfg] at hkept
    dsimp only at hkept
    split_ifs at hkept with hrules
    · exact .inr hrules
    · exact .inl hkept
  · intro hagain
    cases hcfg : s.config pos.strategyId with
    | none => rfl
    | some cfg =>
      dsimp only
      rcases hagain fill rfl pos hpos cfg hcfg with heq | heq
      · rw [heq, ite_self]
      · rw [if_pos heq]

/-! ## The whole reduction -/

/-- **The exit rules of a position stay what they are while it is reduced,
exactly when every fill derives them again.** -/
theorem rules_kept_iff (env : RunnerEnv) (p : PositionId) (s : ExecutionRunner)
    (ls : List ReductionLabel) :
    (reduction env p).Throughout (fun t => t.rulesOf p = s.rulesOf p) s ls
      ↔ (reduction env p).Along (fun t l _ => t.RulesAgain env p l) s ls := by
  rw [Machine.throughout_iff_along, and_iff_right rfl]
  -- a fill leads from the rules to themselves exactly if it derives them again
  refine Machine.along_target_iff (J := fun _ => True) (fun _ _ _ _ _ => trivial)
    (fun t l u _ ht hu => ?_) trivial rfl
  rw [← ht]
  cases l with
  | fill fill =>
    obtain ⟨hpart, hu⟩ := Option.ite_none_right_eq_some.mp hu
    obtain rfl := Option.some.inj hu
    exact rulesOf_filled_iff hpart
  | update sid changes =>
    obtain rfl := Option.some.inj hu
    exact iff_of_true rfl fun _ h => by cases h

/-- A strategy that holds for an hour. -/
def holdingStartup : Startup :=
  { sampleStartup with
    positions := [{ samplePosition with timeExitUtc := some 3600 }]
    strategyConfigs := [{ strategyId := "orb", maxHoldSeconds := some 3600 }] }

/-- After a minute one of two contracts is sold. -/
def partialExit : FillEvent :=
  { sampleFill .sell 1 Nat.one_pos with timestamp := 60 }

/-- **A partial exit puts off the time exit**: the hour starts again. -/
theorem not_rules_kept :
    ¬ ∀ (env : RunnerEnv) (p : PositionId) (s : ExecutionRunner) (ls : List ReductionLabel),
      (reduction env p).Throughout (fun t => t.rulesOf p = s.rulesOf p) s ls := by
  intro h
  have hkept := h sampleEnv 0 (initial holdingStartup) [.fill partialExit] [.fill partialExit]
  have hrun : ((reduction sampleEnv 0).run (initial holdingStartup) [.fill partialExit]).map
      (·.rulesOf 0) = some (some { timeExitUtc := some 3660 }) := by decide +kernel
  obtain ⟨t, ht, hrules⟩ := Option.map_eq_some_iff.mp hrun
  have hsame := (hkept t List.prefix_rfl ht).symm.trans hrules
  exact absurd hsame (by decide +kernel)

end ExecutionRunner
