import ExecutionSystem.OrderSteps

/-!
# Orders that nothing comes back to

An order that is terminal need not be over. Its `place_order` may still be
in flight and write its status again when it returns; the stuck-cancel
sweep may be waiting for the broker's status of it; and a repricer that
has cancelled it to replace it stands, for as long as it has not looked at
the acknowledgement, between an order that is `CANCELLED` and one that is
not there yet.

Where none of these stands the order is `Retired`, and a retired order
stays so: nothing can write an active status to it, and no repricer gets
to the point where it would replace it, since it would have to cancel the
order first and finds it terminal.
-/

namespace Coroutine

/-- The order that a repricer has cancelled, or is cancelling, to replace
it. -/
def replacingNext : Coroutine → Option OrderId
  | cancelAwait _ (.replace r _) => some r.current
  | pollCheck r _ => some r.current
  | pollSleep r _ _ => some r.current
  | _ => none

/-- The order whose status the sweep has asked the broker for. -/
def sweepTarget : Coroutine → Option OrderId
  | sweepQuery _ _ o _ => some o
  | _ => none

/-- The coroutine is `resolve_stuck_cancels`. -/
def sweeping : Coroutine → Bool
  | sweepLoop .. | sweepQuery .. | sweepRecancel .. => true
  | _ => false

/-- A repricer cancels the order it is chasing. -/
def aimed : Coroutine → Bool
  | cancelStart o _ (.replace r _) => o = r.current
  | _ => true

/-- **The coroutine could make something of a terminal order**: its
`place_order` has not returned, or a repricer is about to replace it. -/
def revives (o : OrderId) (x : OrderState) (c : Coroutine) : Bool :=
  c.placing = some o || (c.replacingNext = some o && OrderManager.replaceable x)

theorem replacingNext_of_polling {c : Coroutine} {r : Repricer} {p : Price}
    (h : c.polling = some (r, p)) : c.replacingNext = some r.current := by
  cases c <;> cases h <;> rfl

end Coroutine

namespace OrderManager

/-- Every repricer cancels the order it is chasing. -/
def Aimed (om : OrderManager) : Prop :=
  ∀ (t : TaskId) (c : Coroutine), om.tasks[t]? = some c → c.aimed = true

/-- **The order is over**: it is terminal, and no coroutine stands where it
could change that or replace the order. -/
structure Retired (om : OrderManager) (o : OrderId) : Prop where
  done : ∃ x, om.orders[o]? = some x ∧ x.status.terminal = true
    ∧ ∀ (t : TaskId) (c : Coroutine), om.tasks[t]? = some c → c.revives o x = false
  unswept : ∀ (t : TaskId) (c : Coroutine), om.tasks[t]? = some c →
    c.sweepTarget ≠ some o

variable {om om' : OrderManager} {l : Label}

/-! ## One coroutine -/

/-- A coroutine that goes on from `cancel_order` is none of these, unless a
repricer's cancel was accepted. -/
theorem returned_facts (now : Time) (result : Bool) (k : CancelCaller) :
    (k.returned now result).placing = none ∧ (k.returned now result).sweepTarget = none
      ∧ (k.returned now result).aimed = true ∧ (k.returned now result).sweeping = false := by
  cases k <;> cases result <;> exact ⟨rfl, rfl, rfl, rfl⟩

/-- A repricer's cancel was accepted. -/
theorem returned_replacingNext {now : Time} {result : Bool} {k : CancelCaller}
    {o : OrderId} (h : (k.returned now result).replacingNext = some o) :
    result = true ∧ ∃ r p, k = .replace r p ∧ r.current = o := by
  cases k with
  | outside | giveUp => cases h
  | replace r p =>
    cases result with
    | false => cases h
    | true => exact ⟨rfl, r, p, rfl, Option.some.inj h⟩

section Turns

variable {c d : Coroutine} {o : OrderId}

/-- No coroutine moves on to an await of `place_order`. -/
theorem Next.placing (h : om.Next c d) : d.placing = none := by
  cases h with
  | cancelUnknown | cancelDone | cancelLocally | cancelReturned =>
    exact (returned_facts ..).1
  | _ => rfl

/-- The sweep asks only about an order it finds pending. -/
theorem Next.sweepTarget (h : om.Next c d) (hd : d.sweepTarget = some o) :
    ∃ x, om.orders[o]? = some x ∧ x.status = .cancelPending := by
  cases h with
  | cancelUnknown | cancelDone | cancelLocally | cancelReturned =>
    rw [(returned_facts ..).2.1] at hd
    cases hd
  | sweepAsks hx hp =>
    cases hd
    exact ⟨_, hx, hp⟩
  | _ => cases hd

/-- A repricer comes to wait for an acknowledgement only by cancelling an
order that it finds active. -/
theorem Next.replacingNext (h : om.Next c d) (haimed : c.aimed = true)
    (hd : d.replacingNext = some o) :
    c.replacingNext = some o
      ∨ ∃ x, om.orders[o]? = some x ∧ x.status.active = true := by
  cases h with
  | cancelUnknown hx | cancelDone hx hdone =>
    obtain ⟨hresult, -⟩ := returned_replacingNext hd
    cases hresult
  | cancelLocally hx ha hb =>
    obtain ⟨-, r, p, rfl, rfl⟩ := returned_replacingNext hd
    exact .inr ⟨_, of_decide_eq_true haimed ▸ hx, ha⟩
  | @cancelSent i hard k x b hx ha hb =>
    cases k with
    | outside | giveUp => cases hd
    | replace r p =>
      cases hd
      exact .inr ⟨_, of_decide_eq_true haimed ▸ hx, ha⟩
  | cancelReturned result =>
    obtain ⟨-, r, p, rfl, rfl⟩ := returned_replacingNext hd
    exact .inl rfl
  | pollEnds hc => cases hd
  | pollWaits hc => exact .inl ((Coroutine.replacingNext_of_polling hc).trans hd)
  | _ => cases hd

theorem Next.aimed (h : om.Next c d) : d.aimed = true := by
  cases h with
  | cancelUnknown | cancelDone | cancelLocally | cancelReturned =>
    exact (returned_facts ..).2.2.1
  | repricerCancels => exact decide_eq_true rfl
  | _ => rfl

/-- Only the sweep goes on as the sweep. -/
theorem Turn.sweeping (h : om.Turn c d) (hd : d.sweeping = true) : c.sweeping = true := by
  cases h with
  | kept => exact hd
  | replaces => cases hd
  | moved hn =>
    cases hn with
    | cancelUnknown | cancelDone | cancelLocally | cancelReturned =>
      rw [(returned_facts ..).2.2.2] at hd
      cases hd
    | sweepSkips | sweepAsks | sweepAnswered | sweepRecancels | sweepRecancelled => rfl
    | _ => cases hd

end Turns

theorem Aimed.step (h : om.Aimed) (he : Effect om l om') : om'.Aimed := by
  intro t d hd
  rcases he.task hd with ⟨c, hc, hturn⟩ | ⟨-, hstart⟩
  · cases hturn with
    | kept => exact h t _ hc
    | moved hn => exact hn.aimed
    | replaces => rfl
  · cases hstart <;> rfl

/-! ## One order -/

/-- **A step leaves a retired order terminal**, and no more replaceable than
it was. -/
theorem Touch.retired {o : OrderId} {x y : OrderState} (h : Touch om l o x y)
    (hx : om.orders[o]? = some x) (hdone : x.status.terminal = true)
    (hplaced : ∀ (t : TaskId) (c : Coroutine), om.tasks[t]? = some c →
      c.placing ≠ some o)
    (hswept : ∀ (t : TaskId) (c : Coroutine), om.tasks[t]? = some c →
      c.sweepTarget ≠ some o) :
    y.status.terminal = true ∧ (replaceable y = true → replaceable x = true) := by
  cases h with
  | kept | superseded => exact ⟨hdone, id⟩
  | reported =>
    simp only [OrderState.brokerUpdated, OrderState.ignoresUpdate, hdone, if_true]
    exact ⟨trivial, id⟩
  | wrote ht hw hrun =>
    cases hw with
    | placed hc | placeRaised hc => exact absurd hc (hplaced _ _ ht)
    | sweptSettled | sweptUnknown => exact absurd rfl (hswept _ _ ht)
    | @cancelRequested _ hard k =>
      cases hard
      · simp [OrderState.cancelRequested, hdone]
      · simp [OrderState.cancelRequested, hdone, replaceable]
    | cancelRaised => exact ⟨rfl, fun h => by cases h⟩
    | sweptUnsent hx' hp =>
      obtain rfl := Option.some.inj (hx'.symm.trans hx)
      rw [hp] at hdone
      cases hdone
    | recancelled | repriced => exact ⟨hdone, id⟩

/-- **Nothing comes back to a retired order.** -/
theorem Retired.step {o : OrderId} (h : om.Retired o) (haimed : om.Aimed)
    (he : Effect om l om') : om'.Retired o := by
  obtain ⟨x, hx, hdone, hrevives⟩ := h.done
  have hlt : o < om.orders.length := (List.getElem?_eq_some_iff.mp hx).1
  have hnone : ∀ (t : TaskId) (c : Coroutine), om.tasks[t]? = some c →
      c.placing ≠ some o ∧ (c.replacingNext = some o → replaceable x = false) := by
    intro t c hc
    simpa [Coroutine.revives] using hrevives t c hc
  have hnotactive : ∀ z, om.orders[o]? = some z → z.status.active ≠ true := by
    intro z hz ha
    obtain rfl := Option.some.inj (hz.symm.trans hx)
    rw [OrderStatus.active_eq_not_terminal, hdone] at ha
    cases ha
  obtain ⟨y, hy, htouch⟩ := he.touch hx
  obtain ⟨hdone', hrep⟩ := htouch.retired hx hdone (fun t c hc => (hnone t c hc).1) h.unswept
  refine ⟨⟨y, hy, hdone', fun t d hd => ?_⟩, fun t d hd htarget => ?_⟩
  · -- a coroutine that would revive the order was there and would have
    suffices d.placing ≠ some o ∧ (d.replacingNext = some o → replaceable x = false) by
      simp only [Coroutine.revives, Bool.or_eq_false_iff, decide_eq_false_iff_not,
        Bool.and_eq_false_iff]
      refine ⟨this.1, or_iff_not_imp_left.mpr fun hnext => ?_⟩
      exact Bool.eq_false_iff.mpr fun hy => absurd (hrep hy)
        (Bool.eq_false_iff.mp (this.2 (not_not.mp hnext)))
    rcases he.task hd with ⟨c, hc, hturn⟩ | ⟨-, hstart⟩
    · cases hturn with
      | kept => exact hnone t d hc
      | replaces => exact ⟨fun h => hlt.ne (Option.some.inj h).symm, nofun⟩
      | moved hn =>
        refine ⟨by rw [hn.placing]; exact nofun, fun hnext => ?_⟩
        rcases hn.replacingNext (haimed t c hc) hnext with hnext | ⟨z, hz, ha⟩
        · exact (hnone t c hc).2 hnext
        · exact absurd ha (hnotactive z hz)
    · cases hstart with
      | places => exact ⟨fun h => hlt.ne (Option.some.inj h).symm, nofun⟩
      | _ => exact ⟨nofun, nofun⟩
  · rcases he.task hd with ⟨c, hc, hturn⟩ | ⟨-, hstart⟩
    · cases hturn with
      | kept => exact h.unswept t d hc htarget
      | replaces => cases htarget
      | moved hn =>
        obtain ⟨z, hz, hp⟩ := hn.sweepTarget htarget
        exact hnotactive z hz (by rw [hp]; rfl)
    · cases hstart <;> cases htarget

/-- A retired order is not replaced. -/
theorem Retired.not_replacing {o : OrderId} (h : om.Retired o) {x : OrderState}
    {p : Price} : om.replacing l ≠ some (o, x, p) := by
  intro hr
  obtain ⟨-, t, c, r, -, hc, hpoll, rfl, hx, hrep, -⟩ := replacing_eq_some.mp hr
  obtain ⟨z, hz, -, hrevives⟩ := h.done
  obtain rfl := Option.some.inj (hz.symm.trans hx)
  have := hrevives t c hc
  simp [Coroutine.revives, Coroutine.replacingNext_of_polling hpoll, hrep] at this

end OrderManager
