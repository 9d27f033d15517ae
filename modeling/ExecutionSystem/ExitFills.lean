import ExecutionSystem.AttributionRows
import ExecutionSystem.BookRecovery
import ExecutionSystem.ExposureLimits

/-!
# Where the fill of an exit lands

An exit order is submitted for a position, and carries its id. The fill
callback finds the order of a fill, and so knows that id, but hands the fill
to `handle_fill` without it. The position is then looked up by strategy and
contract, the first open one in the order of insertion
(`PositionManager.target`).

So a fill lands on the position that its order was submitted for exactly
where that position is open, is of the strategy and the contract of the
fill, and stands before every other such position
(`PositionManager.ComesFirst`). Where the book was seeded with at most one
open position for a strategy and a contract there are never two of them, and
only the first two conditions remain. But the attribution store may have
several open rows of one strategy in one contract, and the seeding gives
each a position of its own.
-/

/-! ## The property and its condition -/

/-- The same position, but for its exit rules. -/
def Position.SameButRules (pos pos' : Position) : Prop :=
  pos' = pos
    ∨ ∃ stop target timeExit useMid now, pos' = pos.withExitRules stop target timeExit useMid now

namespace PositionManager

/-- **The fill lands on a position**: it is applied to the one with that id,
and every other stays as it is. -/
structure LandsOn (p : PositionId) (fill : FillEvent) (pm pm' : PositionManager) : Prop where
  own : ∃ (i : ℕ) (pos pos' : Position), pm.positions[i]? = some pos ∧ pos.positionId = p
    ∧ pm'.positions[i]? = some pos' ∧ (pos.filled fill).SameButRules pos'
  length : pm'.positions.length = pm.positions.length
  others : ∀ (i : ℕ) (pos : Position), pm.positions[i]? = some pos → pos.positionId ≠ p →
    pm'.positions[i]? = some pos

/-- **The position comes first** among the open ones of the strategy and the
contract of the fill. -/
def ComesFirst (pm : PositionManager) (fill : FillEvent) (p : PositionId) : Prop :=
  ∃ (i : ℕ) (pos : Position), pm.positions[i]? = some pos ∧ pos.positionId = p
    ∧ pos.status.isOpen = true ∧ pos.key = fill.key
    ∧ ∀ j < i, ∀ pos', pm.positions[j]? = some pos' → pos'.status.isOpen = true →
      pos'.key ≠ fill.key

variable {pm : PositionManager} {fill : FillEvent} {p : PositionId}

theorem candidate_iff {pos : Position} :
    candidate fill pos = true ↔ pos.status.isOpen = true ∧ pos.key = fill.key := by
  rw [candidate, Bool.and_eq_true_iff, decide_eq_true_iff]

/-- The lookup finds the position that comes first. -/
theorem comesFirst_iff_target : pm.ComesFirst fill p
    ↔ ∃ (i : ℕ) (pos : Position), pm.target fill none = some i ∧ pm.positions[i]? = some pos
      ∧ pos.positionId = p := by
  refine exists_congr fun i => exists_congr fun pos => ?_
  show _ ↔ pm.positions.findIdx? (candidate fill) = some i ∧ _
  rw [List.findIdx?_eq_some_iff_getElem]
  constructor
  · rintro ⟨hpos, hid, hopen, hkey, hfirst⟩
    obtain ⟨hlt, rfl⟩ := List.getElem?_eq_some_iff.mp hpos
    refine ⟨⟨hlt, candidate_iff.mpr ⟨hopen, hkey⟩, fun j hj hcand => ?_⟩, hpos, hid⟩
    obtain ⟨hopen', hkey'⟩ := candidate_iff.mp hcand
    exact hfirst j hj _ (List.getElem?_eq_getElem _) hopen' hkey'
  · rintro ⟨⟨hlt, hcand, hfirst⟩, hpos, hid⟩
    obtain ⟨_, rfl⟩ := List.getElem?_eq_some_iff.mp hpos
    obtain ⟨hopen, hkey⟩ := candidate_iff.mp hcand
    refine ⟨hpos, hid, hopen, hkey, fun j hj pos' hpos' hopen' hkey' => ?_⟩
    obtain ⟨_, rfl⟩ := List.getElem?_eq_some_iff.mp hpos'
    exact hfirst j hj (candidate_iff.mpr ⟨hopen', hkey'⟩)

/-- **Where there are never two, a position comes first that is open** and of
the strategy and the contract. -/
theorem comesFirst_iff_of_nodup (h : pm.openKeys.Nodup) : pm.ComesFirst fill p
    ↔ ∃ pos ∈ pm.positions, pos.positionId = p ∧ pos.status.isOpen = true
      ∧ pos.key = fill.key := by
  constructor
  · rintro ⟨i, pos, hpos, hid, hopen, hkey, -⟩
    exact ⟨pos, List.mem_of_getElem? hpos, hid, hopen, hkey⟩
  · rintro ⟨pos, hmem, rfl, hopen, hkey⟩
    have hpos : pos ∈ pm.getOpenPositions := List.mem_filter.mpr ⟨hmem, hopen⟩
    cases htarget : pm.target fill none with
    | none =>
      have hmem : fill.key ∈ pm.openKeys := List.mem_map.mpr ⟨pos, hpos, hkey⟩
      exact absurd hmem (not_mem_openKeys_of_target htarget)
    | some i =>
      obtain ⟨first, hfirst, hopen', hkey'⟩ := candidate_of_target htarget
      have hsame : first = pos := List.inj_on_of_nodup_map h
        (List.mem_filter.mpr ⟨List.mem_of_getElem? hfirst, hopen'⟩) hpos
        (hkey'.trans hkey.symm)
      exact comesFirst_iff_target.mpr ⟨i, first, htarget, hfirst, hsame ▸ rfl⟩

/-- Exit rules are set in the position of an id and in no other. -/
theorem getElem?_setExitRules (pm : PositionManager) (q : PositionId) (stop target : Option Price)
    (timeExit : Option Time) (useMid : Bool) (now : Time) {i : ℕ} {pos : Position}
    (hpos : pm.positions[i]? = some pos) :
    ∃ pos', (pm.setExitRules q stop target timeExit useMid now).positions[i]? = some pos'
      ∧ pos.SameButRules pos' ∧ (pos.positionId ≠ q → pos' = pos) := by
  unfold setExitRules
  cases hq : pm.indexOf q with
  | none => exact ⟨pos, hpos, .inl rfl, fun _ => rfl⟩
  | some j =>
    obtain ⟨hlt, hid, -⟩ := List.findIdx?_eq_some_iff_getElem.mp hq
    by_cases hj : j = i
    · subst hj
      obtain ⟨_, rfl⟩ := List.getElem?_eq_some_iff.mp hpos
      refine ⟨_, List.getElem?_modify_iff.mpr ⟨_, hpos, rfl⟩, ?_, fun hne => ?_⟩
      · rw [if_pos rfl]
        exact .inr ⟨stop, target, timeExit, useMid, now, rfl⟩
      · exact absurd (of_decide_eq_true hid) hne
    · refine ⟨pos, List.getElem?_modify_iff.mpr ⟨pos, hpos, ?_⟩, .inl rfl, fun _ => rfl⟩
      rw [if_neg hj]

end PositionManager

namespace ExecutionRunner

/-- **A fill of an order that was submitted for a position**, with the id of
the position. -/
def fillFor (s : ExecutionRunner) : Label → Option (PositionId × FillEvent)
  | .fill fill =>
    ((fill.brokerOrderId.bind s.om.findOrderByBrokerId).bind fun o =>
      s.om.orders[o]?.bind (·.positionId)).map fun p => (p, s.attributed fill)
  | _ => none

/-- **Exit fills land on the position they close.** -/
def FillLands (s : ExecutionRunner) (l : Label) (t : ExecutionRunner) : Prop :=
  ∀ p fill, s.fillFor l = some (p, fill) → PositionManager.LandsOn p fill s.pm t.pm

/-- The position of the order comes first in the book. -/
def PositionComesFirst (s : ExecutionRunner) (l : Label) : Prop :=
  ∀ p fill, s.fillFor l = some (p, fill) → s.pm.ComesFirst fill p

variable {env : RunnerEnv} {s t : ExecutionRunner} {l : Label}

/-- Exit rules after a fill. -/
theorem getElem?_applyExitRules (s : ExecutionRunner) (pos : Position) (reference : Time)
    {i : ℕ} {x : Position} (hx : s.pm.positions[i]? = some x) :
    ∃ x', (s.applyExitRules env pos reference).positions[i]? = some x'
      ∧ x.SameButRules x' ∧ (x.positionId ≠ pos.positionId → x' = x) := by
  unfold applyExitRules
  split
  · exact ⟨x, hx, .inl rfl, fun _ => rfl⟩
  · dsimp only
    split_ifs
    · exact s.pm.getElem?_setExitRules _ _ _ _ _ _ hx
    · exact ⟨x, hx, .inl rfl, fun _ => rfl⟩

/-- The book after a fill is what `handle_fill` leaves, but for the exit rules
of the position it returns. -/
theorem getElem?_filled (env : RunnerEnv) (s : ExecutionRunner) (fill : FillEvent) {i : ℕ}
    {x : Position}
    (hx : (s.pm.handleFill (s.attributed fill)).1.positions[i]? = some x) :
    ∃ x', (s.filled env fill).pm.positions[i]? = some x' ∧ x.SameButRules x'
      ∧ (x.positionId ≠ (s.pm.handleFill (s.attributed fill)).2.positionId → x' = x) := by
  unfold filled
  exact getElem?_applyExitRules _ _ _ hx

section Found

variable {fill : FillEvent} {i : ℕ} {pos : Position}
  (htarget : s.pm.target (s.attributed fill) none = some i)
  (hpos : s.pm.positions[i]? = some pos)

include htarget hpos

theorem handleFill_target : s.pm.handleFill (s.attributed fill)
    = (⟨s.pm.positions.modify i (.filled (s.attributed fill))⟩,
      pos.filled (s.attributed fill)) := by
  unfold PositionManager.handleFill PositionManager.handleFillDrawing
  rw [htarget, Option.bind_some, hpos, Option.map_some]

/-- The position that the lookup finds after the fill. -/
theorem getElem?_filled_target (env : RunnerEnv) :
    ∃ pos', (s.filled env fill).pm.positions[i]? = some pos'
      ∧ (pos.filled (s.attributed fill)).SameButRules pos' := by
  have hx : (s.pm.handleFill (s.attributed fill)).1.positions[i]?
      = some (if i = i then pos.filled (s.attributed fill) else pos) := by
    rw [handleFill_target htarget hpos]
    exact List.getElem?_modify_iff.mpr ⟨pos, hpos, rfl⟩
  rw [if_pos rfl] at hx
  obtain ⟨pos', hpos', hrules, -⟩ := getElem?_filled env s fill hx
  exact ⟨pos', hpos', hrules⟩

/-- **A fill goes into the position that the lookup finds**, and leaves the
others. -/
theorem landsOn_target (env : RunnerEnv) :
    PositionManager.LandsOn pos.positionId (s.attributed fill) s.pm (s.filled env fill).pm := by
  refine ⟨?_, ?_, fun j x hx hne => ?_⟩
  · obtain ⟨pos', hpos', hrules⟩ := getElem?_filled_target htarget hpos env
    exact ⟨i, pos, pos', hpos, rfl, hpos', hrules⟩
  · have hids := congrArg List.length
      (@map_filled env s _ (·.positionId) (fun _ _ _ _ _ _ => rfl) fill)
    rw [List.length_map, List.length_map, handleFill_target htarget hpos] at hids
    exact hids.trans (List.length_modify ..)
  · have hi : i ≠ j := by
      rintro rfl
      exact hne (congrArg Position.positionId (Option.some.inj (hx.symm.trans hpos)))
    have hj : (s.pm.handleFill (s.attributed fill)).1.positions[j]? = some x := by
      rw [handleFill_target htarget hpos]
      exact List.getElem?_modify_iff.mpr ⟨x, hx, (if_neg hi).symm⟩
    obtain ⟨x', hx', -, hsame⟩ := getElem?_filled env s fill hj
    rw [hx', hsame]
    rw [handleFill_target htarget hpos]
    show x.positionId ≠ (pos.filled _).positionId
    rwa [AttributionSession.positionId_filled]

end Found

/-- **A fill that lands on a position has found it.** -/
theorem comesFirst_of_landsOn {fill : FillEvent} {p : PositionId}
    (h : PositionManager.LandsOn p (s.attributed fill) s.pm (s.filled env fill).pm) :
    s.pm.ComesFirst (s.attributed fill) p := by
  cases htarget : s.pm.target (s.attributed fill) none with
  | none =>
    -- there is a position more
    have hids := congrArg List.length
      (@map_filled env s _ (·.positionId) (fun _ _ _ _ _ _ => rfl) fill)
    have hnew : (s.pm.handleFill (s.attributed fill)).1.positions
        = s.pm.positions ++ [Position.opened s.pm.freshId (s.attributed fill)] := by
      unfold PositionManager.handleFill PositionManager.handleFillDrawing
      rw [htarget, Option.bind_none]
      rfl
    rw [List.length_map, List.length_map, hnew, h.length, List.length_append] at hids
    exact absurd hids (Nat.ne_of_lt (Nat.lt_succ_self _))
  | some i =>
    obtain ⟨pos, hpos, hopen, -⟩ := PositionManager.candidate_of_target htarget
    refine PositionManager.comesFirst_iff_target.mpr ⟨i, pos, htarget, hpos, ?_⟩
    by_contra hne
    -- another position has got the fill, and cannot be as it was
    obtain ⟨pos', hpos', hrules⟩ := getElem?_filled_target htarget hpos env
    obtain rfl := Option.some.inj (hpos'.symm.trans (h.others i pos hpos hne))
    have hshape := @ExecutionSession.shape_filled_ne (s.attributed fill) pos' hopen
    rcases hrules with heq | ⟨stop, target, timeExit, useMid, now, heq⟩
    · exact hshape (by rw [← heq])
    · exact hshape (Prod.ext (congrArg Position.quantity heq).symm
        (congrArg Position.status heq).symm)

/-- **A fill lands on the position of its order exactly where that one comes
first.** -/
theorem fillLands_iff (h : s.step env l = some t) : s.FillLands l t ↔ s.PositionComesFirst l := by
  refine forall_congr' fun p => forall_congr' fun fill => forall_congr' fun hfor => ?_
  cases l with
  | fill raw =>
    simp only [step, Option.ite_none_right_eq_some] at h
    obtain rfl := Option.some.inj h.2
    obtain ⟨_, -, heq⟩ := Option.map_eq_some_iff.mp hfor
    obtain ⟨rfl, rfl⟩ := Prod.mk.inj heq
    refine ⟨comesFirst_of_landsOn, fun hfirst => ?_⟩
    obtain ⟨i, pos, htarget, hpos, rfl⟩ := PositionManager.comesFirst_iff_target.mp hfirst
    exact landsOn_target htarget hpos env
  | orders | stop | pause | resume | reply | run => cases hfor

/-- **Exit fills land on the position they close exactly in the runs in which
that position comes first at each of them.** -/
theorem fillsLand_iff_comesFirst (env : RunnerEnv) (start : Startup) (labels : List Label) :
    (machine env).Along FillLands (initial start) labels
      ↔ (machine env).Along (fun s l _ => s.PositionComesFirst l) (initial start) labels :=
  @Machine.along_iff_of_step _ _ (machine env) (fun _ => True) _ _ (fun _ _ _ _ _ => trivial)
    (fun _ _ _ _ h => fillLands_iff h) _ labels trivial

/-! ## Books that are seeded with one position each -/

/-- The open positions stay of different strategies or contracts. -/
theorem nodup_openKeys_step (hs : s.pm.openKeys.Nodup) (h : s.step env l = some t) :
    t.pm.openKeys.Nodup := by
  rcases (step_effect h).openKeys with heq | ⟨fill, -, rfl⟩
  · exact heq.symm ▸ hs
  · rw [openKeys_filled]
    exact PositionManager.nodup_openKeys_handleFill hs

/-- The position of the order is still open, and is of the strategy and the
contract of the fill. -/
def PositionIsOpen (s : ExecutionRunner) (l : Label) : Prop :=
  ∀ p fill, s.fillFor l = some (p, fill) → ∃ pos ∈ s.pm.positions, pos.positionId = p
    ∧ pos.status.isOpen = true ∧ pos.key = fill.key

/-- **In a book that is seeded with at most one open position for a strategy
and a contract**, exit fills land exactly while their positions are open. -/
theorem alongFillLands_iff_isOpen (start : Startup) (labels : List Label)
    (hnodup : (initial start).pm.openKeys.Nodup) :
    (machine env).Along FillLands (initial start) labels
      ↔ (machine env).Along (fun s l _ => s.PositionIsOpen l) (initial start) labels := by
  have hstep : ∀ (s : ExecutionRunner) l t, s.pm.openKeys.Nodup →
      (machine env).step s l = some t → (s.FillLands l t ↔ s.PositionIsOpen l) := by
    intro s l t hs h
    rw [fillLands_iff h]
    exact forall_congr' fun p => forall_congr' fun fill => forall_congr' fun _ =>
      PositionManager.comesFirst_iff_of_nodup hs
  exact Machine.along_iff_of_step (fun _ _ _ hs h => nodup_openKeys_step hs h) hstep hnodup

/-! ## A book that is seeded with two -/

/-- The store has two open rows of the strategy, and the broker the contracts
of both. -/
def twicePositioned : Startup :=
  { sampleStartup with
    positions := ((Seeding.sampleSeeding
      [Seeding.sampleRow 1 "orb" .buy 2, Seeding.sampleRow 2 "orb" .buy 2]
      (by decide)).seedPositionsFromBroker sampleEnv 0
        (some [Seeding.sampleHolding 3 .buy 4])).runner.pm.positions }

/-- The operator exits the second position, up to its fill. -/
def exitSecond : List Label :=
  tickStart [.exitPosition 2] ++ [.run, .run, .run, .orders .go, .run, .run, .run, .run]
    ++ [ .reply (.tradedToday []), .run, .run, .run,
      .reply (.marketData (fun _ => some sampleOptionQuote) fun _ => none),
      .reply (.flagged []), .run, .run, .run, .orders (.resume 1 (.placed 7 .submitted)),
      .run, .run ]

/-- The exit is filled. -/
def exitFill : FillEvent := { sampleFill .sell 2 Nat.zero_lt_two with brokerOrderId := some 7 }

/-- Exit fills do not always land on their positions: the second position is
exited, and the first one is closed. -/
theorem not_alongFillLands : ¬ ∀ env start labels,
    (machine env).Along FillLands (initial start) labels := by
  intro h
  have hrun : ((machine sampleEnv).run (initial twicePositioned) exitSecond).any
      (fun s => (s.fillFor (.fill exitFill)).map (·.1) = some 2
        ∧ s.pm.positions.map (fun pos => (pos.positionId, pos.quantity)) = [(1, 2), (2, 2)]
        ∧ (s.step sampleEnv (.fill exitFill)).map (fun t => t.pm.positions.map fun pos =>
          (pos.positionId, pos.quantity)) = some [(1, 0), (2, 2)]) = true := by decide +kernel
  obtain ⟨s, hs, hfacts⟩ := (Option.any_eq_true _ _).mp hrun
  obtain ⟨hfor, hbefore, hafter⟩ := of_decide_eq_true hfacts
  obtain ⟨⟨p, fill⟩, hfor, rfl⟩ := Option.map_eq_some_iff.mp hfor
  obtain ⟨t, ht, hafter⟩ := Option.map_eq_some_iff.mp hafter
  have hstep : (machine sampleEnv).step s (.fill exitFill) = some t := ht
  have hlands := Machine.along_step
    (h sampleEnv twicePositioned (exitSecond ++ [.fill exitFill])) hs hstep _ _ hfor
  have hfirst : (s.pm.positions.map fun pos => (pos.positionId, pos.quantity))[0]?
      = some (1, 2) := by rw [hbefore]; rfl
  rw [List.getElem?_map] at hfirst
  obtain ⟨pos, hpos, hentry⟩ := Option.map_eq_some_iff.mp hfirst
  obtain ⟨hid, -⟩ := Prod.mk.inj hentry
  have hkept : (t.pm.positions.map fun pos => (pos.positionId, pos.quantity))[0]?
      = some (1, 2) := by
    rw [List.getElem?_map, hlands.others 0 pos hpos (by rw [hid]; decide), Option.map_some, hentry]
  rw [hafter] at hkept
  exact absurd hkept (by decide)

end ExecutionRunner
