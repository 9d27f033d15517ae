import ExecutionSystem.Machine
import ExecutionSystem.OrderSteps

/-!
# One active order per position

`submit_intent` refuses an intent for a position that has an active order
already. It is the only place that looks: a repricer adds its replacement
without a check, after any number of turns in which it waited for its
cancel to be acknowledged, and an awaited `place_order` writes its status
to an order that may be terminal by then and is active again afterwards.

The guard holds along a run exactly when these two kinds of step happen
only where the check of `submit_intent` would have passed.
-/

namespace OrderManager

/-- **At most one active order per position.** -/
def AtMostOneActive (om : OrderManager) : Prop :=
  ∀ (o o' : OrderId) (x x' : OrderState) (p : PositionId),
    om.orders[o]? = some x → om.orders[o']? = some x' →
    x.positionId = some p → x'.positionId = some p →
    x.status.active = true → x'.status.active = true → o = o'

/-- **The step passes the duplicate check that the code does not make**:
where it replaces an order, and where it writes an active status unseen
to an order that is terminal, the order's position has no active order. -/
structure PassesDuplicateCheck (om : OrderManager) (l : Label) : Prop where
  replacement : ∀ (o : OrderId) (x : OrderState) (q : Price) (p : PositionId),
    om.replacing l = some (o, x, q) → x.positionId = some p →
      om.activeOrderFor p = none
  revival : ∀ (o : OrderId) (status : OrderStatus) (x : OrderState) (p : PositionId),
    om.written l = some (o, status) → om.orders[o]? = some x →
      x.status.terminal = true → status.active = true → x.positionId = some p →
      om.activeOrderFor p = none

variable {om om' : OrderManager} {l : Label}

theorem activeOrderFor_eq_none {p : PositionId} :
    om.activeOrderFor p = none ↔
      ∀ (o : OrderId) (x : OrderState), om.orders[o]? = some x →
        x.positionId = some p → x.status.active = false := by
  simp only [activeOrderFor, List.findIdx?_eq_none_iff, Bool.and_eq_false_iff,
    decide_eq_false_iff_not, List.mem_iff_getElem?]
  constructor
  · intro h o x hx hp
    exact (h x ⟨o, hx⟩).resolve_left (not_not_intro hp)
  · rintro h x ⟨o, hx⟩
    exact or_iff_not_imp_left.mpr fun hp => h o x hx (not_not.mp hp)

/-- An order that is active after a step was active before it, or is
revived by a status written unseen, or is new. -/
theorem active_origin (he : Effect om l om') {o : OrderId} {y : OrderState}
    (hy : om'.orders[o]? = some y) (hactive : y.status.active = true) :
    (∃ x, om.orders[o]? = some x ∧ y.positionId = x.positionId
        ∧ (x.status.active = true
          ∨ x.status.terminal = true ∧ om.written l = some (o, y.status)))
      ∨ o = om.orders.length ∧ Created om l om' y := by
  rcases he.lookup hy with ⟨x, hx, htouch⟩ | hnew
  · refine .inl ⟨x, hx, htouch.fixed.1, ?_⟩
    rcases htouch.status hx with hw | hsame | ⟨hx', -⟩
    · cases hd : x.status.terminal with
      | true => exact .inr ⟨rfl, hw⟩
      | false => exact .inl (OrderStatus.terminal_eq_false_iff.mp hd)
    · exact .inl (hsame ▸ hactive)
    · exact .inl hx'
  · exact .inr hnew

/-- A created order is one whose position had no active order, and no
status is written unseen in the same step. -/
theorem Created.free (hg : om.PassesDuplicateCheck l) {y : OrderState}
    (h : Created om l om' y) :
    om.written l = none
      ∧ ∀ p, y.positionId = some p → om.activeOrderFor p = none := by
  cases h with
  | submitted q hl hplan hfree =>
    subst hl hplan
    exact ⟨rfl, hfree⟩
  | replaced h =>
    exact ⟨by rw [(replacing_eq_some.mp h).1]; rfl,
      fun p hp => hg.replacement _ _ _ p h hp⟩

/-- What passes the check keeps the guard. -/
theorem atMostOneActive_step (he : Effect om l om') (hone : om.AtMostOneActive)
    (hg : om.PassesDuplicateCheck l) : om'.AtMostOneActive := by
  intro o o' y y' p hy hy' hp hp' ha ha'
  -- no old order of the position is active next to a new one
  have hnone : ∀ {i z}, Created om l om' z → z.positionId = some p →
      ¬ ∃ x, om.orders[i]? = some x ∧ some p = x.positionId
        ∧ (x.status.active = true
          ∨ x.status.terminal = true ∧ om.written l = some (i, y.status)
          ∨ x.status.terminal = true ∧ om.written l = some (i, y'.status)) := by
    rintro i z hz hzp ⟨x, hx, hxp, hxa | ⟨-, hw⟩ | ⟨-, hw⟩⟩
    · have := activeOrderFor_eq_none.mp ((hz.free hg).2 p hzp) i x hx hxp.symm
      rw [hxa] at this
      cases this
    · rw [(hz.free hg).1] at hw
      cases hw
    · rw [(hz.free hg).1] at hw
      cases hw
  rcases active_origin he hy ha with ⟨x, hx, hxp, hx'⟩ | ⟨rfl, hnew⟩ <;>
    rcases active_origin he hy' ha' with ⟨z, hz, hzp, hz'⟩ | ⟨rfl, hnew'⟩
  · rw [hp] at hxp
    rw [hp'] at hzp
    rcases hx' with hxa | ⟨hxd, hxw⟩ <;> rcases hz' with hza | ⟨hzd, hzw⟩
    · exact hone o o' x z p hx hz hxp.symm hzp.symm hxa hza
    · have := activeOrderFor_eq_none.mp
        (hg.revival o' _ z p hzw hz hzd ha' hzp.symm) o x hx hxp.symm
      rw [hxa] at this
      cases this
    · have := activeOrderFor_eq_none.mp
        (hg.revival o _ x p hxw hx hxd ha hxp.symm) o' z hz hzp.symm
      rw [hza] at this
      cases this
    · exact congrArg Prod.fst (Option.some.inj (hxw.symm.trans hzw))
  · exact absurd ⟨x, hx, hp ▸ hxp, hx'.imp_right .inl⟩ (hnone hnew' hp')
  · exact absurd ⟨z, hz, hp' ▸ hzp, hz'.imp_right .inr⟩ (hnone hnew hp)
  · rfl

/-- The guard is broken by a replacement that does not pass the check. -/
theorem replacement_of_atMostOneActive (h : om.step l = some om')
    (hone : om'.AtMostOneActive) {o : OrderId} {x : OrderState} {q : Price}
    {p : PositionId} (hr : om.replacing l = some (o, x, q))
    (hp : x.positionId = some p) : om.activeOrderFor p = none := by
  obtain ⟨t, c, r, hq, hpos, -, -, -, ho⟩ := step_replacing h hr
  refine activeOrderFor_eq_none.mpr fun i z hz hzp => ?_
  by_contra hza
  have hlt : i < om.orders.length := (List.getElem?_eq_some_iff.mp hz).1
  obtain ⟨z', hz', hz'p, hz'a⟩ : ∃ z', om'.orders[i]? = some z'
      ∧ z'.positionId = some p ∧ z'.status.active = true := by
    rw [Bool.not_eq_false] at hza
    refine ⟨if o = i then z.superseded om.orders.length else z, ?_, ?_⟩
    · rw [ho.orders, List.getElem?_append_left (by rwa [List.length_modify])]
      exact List.getElem?_modify_iff.mpr ⟨z, hz, rfl⟩
    · split_ifs <;> exact ⟨hzp, hza⟩
  have hnew : om'.orders[om.orders.length]?
      = some (replacementOf x (replacementPlan x _ hq q hpos) om.clock) := by
    rw [ho.orders]
    simp
  exact absurd (hone i om.orders.length z' _ p hz' hnew hz'p hp hz'a rfl) hlt.ne

/-- It is broken by a revival that does not. -/
theorem revival_of_atMostOneActive (h : om.step l = some om')
    (hone : om'.AtMostOneActive) {o : OrderId} {status : OrderStatus}
    {x : OrderState} {p : PositionId} (hw : om.written l = some (o, status))
    (hx : om.orders[o]? = some x) (hd : x.status.terminal = true)
    (ha : status.active = true) (hp : x.positionId = some p) :
    om.activeOrderFor p = none := by
  have he := step_effect h
  obtain ⟨y, hy, rfl⟩ := step_written h hw hx
  obtain ⟨y', hy', htouch⟩ := he.touch hx
  obtain rfl := Option.some.inj (hy.symm.trans hy')
  refine activeOrderFor_eq_none.mpr fun i z hz hzp => ?_
  by_contra hza
  rw [Bool.not_eq_false] at hza
  -- an order that is active is not the one that is terminal
  have hne : i ≠ o := by
    rintro rfl
    obtain rfl := Option.some.inj (hz.symm.trans hx)
    rw [OrderStatus.active_eq_not_terminal, hd] at hza
    cases hza
  obtain ⟨z', hz', htouch'⟩ := he.touch hz
  have hz'a : z'.status.active = true := by
    cases l with
    | resume t reply =>
      rcases htouch'.status hz with hw' | hsame | ⟨-, hpend | ⟨hgo, -⟩ | ⟨upd, hcb, -⟩⟩
      · rw [hw] at hw'
        exact absurd (congrArg Prod.fst (Option.some.inj hw')).symm hne
      · rw [hsame, hza]
      · rw [hpend]; rfl
      · cases hgo
      · cases hcb
    | _ => cases hw
  exact hne (hone i o z' y p hz' hy (htouch'.fixed.1.trans hzp)
    (htouch.fixed.1.trans hp) hz'a ha)

/-- **One step keeps the guard exactly when it passes the check.** -/
theorem atMostOneActive_step_iff (h : om.step l = some om')
    (hone : om.AtMostOneActive) :
    om'.AtMostOneActive ↔ om.PassesDuplicateCheck l :=
  ⟨fun hone' => ⟨fun _ _ _ _ => replacement_of_atMostOneActive h hone',
    fun _ _ _ _ => revival_of_atMostOneActive h hone'⟩,
   atMostOneActive_step (step_effect h) hone⟩

theorem atMostOneActive_initial : initial.AtMostOneActive := by
  intro o o' x x' p hx
  cases hx

/-- **Every state of a run has at most one active order per position
exactly when every step of the run passes the check.** -/
theorem atMostOneActive_iff_passesDuplicateCheck (ls : List Label) :
    machine.Throughout AtMostOneActive initial ls
      ↔ machine.Along (fun om l _ => om.PassesDuplicateCheck l) initial ls := by
  rw [Machine.throughout_iff_along, and_iff_right atMostOneActive_initial]
  exact Machine.along_target_iff (J := fun _ => True) (fun _ _ _ _ _ => trivial)
    (fun _ _ _ _ hone h => atMostOneActive_step_iff h hone)
    trivial atMostOneActive_initial

/-- The run that goes wrong: an exit is being repriced, and a second exit
for its position is submitted after the cancel of the first was
acknowledged and before the repricer looks. -/
def exitBetweenCancelAndReplace : List Label :=
  [ .submit (sampleIntent (some 7) false .sell) sampleDecision false
      (some { enabled := true }) none,
    .resume 0 (.placed 0 .submitted),
    .wake 1, .go,
    .advance 5, .wake 1, .go,
    .resume 1 (.quote (some ⟨some (4 / 5), some 1, none, 5, by decide +kernel⟩)),
    .go, .go,
    .resume 1 (.cancelled true), .go,
    .callback { brokerOrderId := 0, status := .cancelled, filledQuantity := 0 },
    .submit (sampleIntent (some 7) false .sell) sampleDecision false none none,
    .advance (1 / 10), .wake 1, .go ]

/-- The guard does not hold in every reachable state. -/
theorem not_atMostOneActive :
    ¬ ∀ ls, machine.Throughout AtMostOneActive initial ls := by
  intro h
  obtain ⟨om, hrun, horders⟩ := Option.map_eq_some_iff.mp
    (show (machine.run initial exitBetweenCancelAndReplace).map
        (fun om => om.orders.map (fun x => (x.positionId, x.status)))
      = some [(some 7, .cancelled), (some 7, .riskChecked), (some 7, .new)]
      by decide +kernel)
  obtain ⟨x, hx, hxs⟩ := lookup_of_map 1 horders rfl
  obtain ⟨y, hy, hys⟩ := lookup_of_map 2 horders rfl
  obtain ⟨hxp, hxs⟩ := Prod.mk.inj hxs
  obtain ⟨hyp, hys⟩ := Prod.mk.inj hys
  have hone := h _ _ om List.prefix_rfl hrun 1 2 x y 7 hx hy hxp hyp
    (by rw [hxs]; rfl) (by rw [hys]; rfl)
  cases hone

end OrderManager
