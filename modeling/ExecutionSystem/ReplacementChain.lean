import ExecutionSystem.Machine
import ExecutionSystem.OrderSteps

/-!
# Replacement chains

A repricer chases one order at a time: it cancels it and submits another
for what is left, and `superseded_by` links the two. This file has what
that makes of the orders in every reachable state, whatever the callers
and the broker do.

At any time an order has at most one coroutine that may still place or
replace it, and none any more once it is superseded (`Owned`). So links
never fork and a superseded order, which is terminal, is never written to
again except for its status; its stored `filled_quantity` is frozen. Each
link therefore keeps the equation under which it was made: what the new
order asks for is what the old one left (`Linked`). Summed along a chain,
the stored fills of its earlier orders and the quantity of its last make
up the quantity `submit_intent` was given (`Chain.sum_stored`).
-/

/-! ## Owners -/

/-- The order that the repricer which called `cancel_order` is chasing. -/
def CancelCaller.owner : CancelCaller → Option OrderId
  | .outside => none
  | .giveUp r => some r.current
  | .replace r _ => some r.current

/-- **The order a coroutine may still place or replace**: the one whose
`place_order` it awaits, or the one its repricer chases. -/
def Coroutine.owner : Coroutine → Option OrderId
  | .placeAwait o _ => some o
  | .cancelStart _ _ k => k.owner
  | .cancelAwait _ k => k.owner
  | .sweepLoop .. => none
  | .sweepQuery .. => none
  | .sweepRecancel .. => none
  | .repricerStart o _ => some o
  | .repricerSleep r _ => some r.current
  | .quoteAwait r => some r.current
  | .modifyAwait r _ => some r.current
  | .repricerCancel r _ => some r.current
  | .pollCheck r _ => some r.current
  | .pollSleep r _ _ => some r.current
  | .replaceAwait _ n => some n
  | .done _ => none

theorem CancelCaller.owner_returned {now : Time} {result : Bool} (k : CancelCaller) :
    (k.returned now result).owner = k.owner ∨ (k.returned now result).owner = none := by
  cases k <;> cases result <;> simp [returned, CancelCaller.owner, Coroutine.owner]

theorem Coroutine.owner_of_placing {c : Coroutine} {o : OrderId}
    (h : c.placing = some o) : c.owner = some o := by
  cases c <;> cases h <;> rfl

theorem Coroutine.owner_of_polling {c : Coroutine} {r : Repricer} {p : Price}
    (h : c.polling = some (r, p)) : c.owner = some r.current := by
  cases c <;> cases h <;> rfl

namespace OrderManager

variable {om om' : OrderManager} {l : Label}

/-- A coroutine that moves keeps its order or lets go of it. -/
theorem Next.owner {c c' : Coroutine} (h : om.Next c c') :
    c'.owner = c.owner ∨ c'.owner = none := by
  cases h with
  | cancelUnknown | cancelDone | cancelLocally | cancelReturned =>
    exact CancelCaller.owner_returned _
  | pollEnds hc => exact .inr rfl
  | pollWaits hc => exact .inl (Coroutine.owner_of_polling hc).symm
  | _ => first | exact .inl rfl | exact .inr rfl

/-- The orders that some coroutine may still place or replace. -/
def owners (om : OrderManager) : List OrderId :=
  om.tasks.filterMap Coroutine.owner

/-- **Every order has at most one owner, and none once it is superseded.** -/
structure Owned (om : OrderManager) : Prop where
  nodup : om.owners.Nodup
  free : ∀ o ∈ om.owners, ∃ x, om.orders[o]? = some x ∧ x.supersededBy = none

theorem mem_owners {t : TaskId} {c : Coroutine} {o : OrderId}
    (ht : om.tasks[t]? = some c) (hc : c.owner = some o) : o ∈ om.owners :=
  List.mem_filterMap.mpr ⟨c, List.mem_of_getElem? ht, hc⟩

theorem Owned.owner_lt (h : om.Owned) {o : OrderId} (ho : o ∈ om.owners) :
    o < om.orders.length := by
  obtain ⟨x, hx, -⟩ := h.free o ho
  exact (List.getElem?_eq_some_iff.mp hx).1

/-- A coroutine that lets go of its order, or keeps it, leaves no owner
that was not one before. -/
theorem owners_set {t : TaskId} {c c' : Coroutine} (ht : om.tasks[t]? = some c)
    (hc : c'.owner = c.owner ∨ c'.owner = none) :
    (om.tasks.set t c').filterMap Coroutine.owner |>.Subperm om.owners := by
  have hperm := List.filterMap_set_perm Coroutine.owner c' ht
  rcases hc with hc | hc
  · rw [hc] at hperm
    exact ((List.perm_append_left_iff _).mp hperm).subperm
  · rw [hc] at hperm
    exact (List.sublist_append_right _ _).subperm.trans hperm.subperm

/-- The link of an order is set only when it is replaced. -/
theorem Touch.supersededBy {o : OrderId} {x y : OrderState} (h : Touch om l o x y) :
    y.supersededBy = x.supersededBy
      ∨ y = x.superseded om.orders.length
        ∧ ∃ p, om.replacing l = some (o, x, p) := by
  cases h with
  | kept => exact .inl rfl
  | wrote ht hw hrun =>
    left
    cases hw with
    | cancelRequested =>
      rw [OrderState.cancelRequested_eq]
    | _ => rfl
  | reported =>
    left
    unfold OrderState.brokerUpdated
    split_ifs <;> rfl
  | superseded h => exact .inr ⟨rfl, _, h⟩

theorem Touch.supersededBy_eq {o : OrderId} {x y : OrderState} (h : Touch om l o x y)
    (hr : om.replacing l = none) : y.supersededBy = x.supersededBy := by
  rcases h.supersededBy with h | ⟨-, p, h⟩
  · exact h
  · rw [hr] at h; cases h

/-- Owners stay free in a step that replaces nothing. -/
theorem Owned.free_step (h : om.Owned) (he : Effect om l om')
    (hr : om.replacing l = none) {o : OrderId} (ho : o ∈ om.owners) :
    ∃ y, om'.orders[o]? = some y ∧ y.supersededBy = none := by
  obtain ⟨x, hx, hfree⟩ := h.free o ho
  obtain ⟨y, hy, htouch⟩ := he.touch hx
  exact ⟨y, hy, (htouch.supersededBy_eq hr).trans hfree⟩

theorem Owned.of_subperm (h : om.Owned) (he : Effect om l om')
    (hr : om.replacing l = none) (hsub : om'.owners.Subperm om.owners) :
    om'.Owned where
  nodup := by
    obtain ⟨os, hos, hsub⟩ := hsub
    exact hos.nodup_iff.mp (h.nodup.sublist hsub)
  free o ho := h.free_step he hr (hsub.subset ho)

/-- The owner of a replaced order becomes the owner of the new one. -/
theorem Owned.step_replaced (h : om.Owned) (hstep : om.step l = some om') {o : OrderId}
    {x : OrderState} {p : Price} (hr : om.replacing l = some (o, x, p)) : om'.Owned := by
  obtain ⟨t, c, r, q, hp, ht, hc, rfl, hh⟩ := step_replacing hstep hr
  have hperm : (r.current :: om'.owners).Perm (om.orders.length :: om.owners) := by
    have := List.filterMap_set_perm Coroutine.owner
      (.replaceAwait { r with attempts := r.attempts + 1 } om.orders.length) ht
    rwa [Coroutine.owner_of_polling hc, ← hh.tasks] at this
  have hnodup : (r.current :: om'.owners).Nodup := by
    refine hperm.nodup_iff.mpr (List.nodup_cons.mpr ⟨fun hmem => ?_, h.nodup⟩)
    exact (h.owner_lt hmem).ne rfl
  refine ⟨hnodup.of_cons, fun i hi => ?_⟩
  rw [hh.orders]
  rcases List.mem_cons.mp (hperm.subset (List.mem_cons_of_mem _ hi)) with rfl | hi'
  · exact ⟨_, List.getElem?_append_new _ (List.length_modify ..), rfl⟩
  · obtain ⟨z, hz, hfree⟩ := h.free i hi'
    have hne : r.current ≠ i := fun heq =>
      (List.nodup_cons.mp hnodup).1 (heq ▸ hi)
    refine ⟨z, ?_, hfree⟩
    rw [List.getElem?_append_left (by
      rw [List.length_modify]; exact h.owner_lt hi')]
    exact List.getElem?_modify_iff.mpr ⟨z, hz, (if_neg hne).symm⟩

/-- A new order is owned by the call that submits it. -/
theorem Owned.step_created (h : om.Owned) (he : Effect om l om') (hr : om.replacing l = none)
    {y : OrderState} (horders : om'.orders = om.orders ++ [y]) (hfree : y.supersededBy = none)
    (howners : om'.owners = om.owners ++ [om.orders.length]) : om'.Owned where
  nodup := by
    rw [howners, List.nodup_append_comm]
    exact List.nodup_cons.mpr ⟨fun hmem => (h.owner_lt hmem).ne rfl, h.nodup⟩
  free o ho := by
    rcases List.mem_append.mp (howners ▸ ho) with ho | ho
    · exact h.free_step he hr ho
    · obtain rfl := List.mem_singleton.mp ho
      rw [horders]
      exact ⟨_, List.getElem?_append_new _ rfl, hfree⟩

/-- **Ownership is kept by every step.** -/
theorem Owned.step (h : om.Owned) (hstep : om.step l = some om') : om'.Owned := by
  have he := step_effect hstep
  cases hr : om.replacing l with
  | some replaced => exact h.step_replaced hstep hr
  | none =>
    have hkeep := h.of_subperm he hr
    cases step_effect hstep with
    | idle hh =>
      exact hkeep (by rw [owners, hh.tasks]; exact .refl _)
    | called c hc hh =>
      have hc : c.owner = none := by
        rcases hc with ⟨o, hard, -, rfl⟩ | ⟨now, maxAge, os, -, rfl⟩ <;> rfl
      have howners : om'.owners = om.owners := by simp [owners, hh.tasks, hc]
      exact hkeep (howners ▸ .refl _)
    | moved t c c' ht hn hh | wrote t c c' o f ht hn hw hrun hh =>
      exact hkeep (by rw [owners, hh.tasks]; exact owners_set ht hn.owner)
    | chased t o config b status ht hl hh =>
      refine hkeep ?_
      rw [owners, hh.tasks, List.filterMap_append]
      exact (List.perm_append_comm.trans
        (List.filterMap_set_perm Coroutine.owner (.done true) ht)).subperm
    | reported upd o spawned hl ho hs hh =>
      have howners : om'.owners = om.owners := by
        rcases hs with rfl | rfl <;>
          simp [owners, hh.tasks, Coroutine.owner, CancelCaller.owner]
      exact hkeep (howners ▸ .refl _)
    | submitted intent decision e reprice algo plan q hl hplan hfree hh =>
      have howners : om'.owners = om.owners ++ [om.orders.length] := by
        rw [owners, hh.tasks, List.filterMap_append]
        rfl
      exact h.step_created he hr hh.orders rfl howners
    | replaced t c r p x q hp hl hrun ht hc hx hrep hh =>
      rw [replacing_eq_some.mpr ⟨hl, t, c, r, hrun, ht, hc, rfl, hx, hrep, hp⟩] at hr
      cases hr

theorem owned_initial : initial.Owned := ⟨List.nodup_nil, nofun⟩

/-! ## Links -/

/-- **Every link keeps its equation**: a superseded order is terminal, and
the order it was replaced by asks for what it left. -/
def Linked (om : OrderManager) : Prop :=
  ∀ (o : OrderId) (x : OrderState) (n : OrderId), om.orders[o]? = some x →
    x.supersededBy = some n → x.status.terminal = true ∧
      ∃ y, om.orders[n]? = some y ∧ y.quantity + x.filledQuantity = x.quantity

/-- A superseded order stays terminal, and what is stored of its fills
stays what it is. -/
theorem Touch.frozen (hown : om.Owned) {o n : OrderId} {x y : OrderState}
    (h : Touch om l o x y) (hx : om.orders[o]? = some x)
    (hlink : x.supersededBy = some n) (hd : x.status.terminal = true) :
    y.status.terminal = true ∧ y.filledQuantity = x.filledQuantity := by
  have hplacing : ∀ {t : TaskId} {c : Coroutine}, om.tasks[t]? = some c →
      c.placing ≠ some o := by
    intro t c ht hc
    obtain ⟨z, hz, hfree⟩ :=
      hown.free o (mem_owners ht (Coroutine.owner_of_placing hc))
    rw [Option.some.inj (hx.symm.trans hz), hfree] at hlink
    cases hlink
  cases h with
  | kept => exact ⟨hd, rfl⟩
  | superseded => exact ⟨hd, rfl⟩
  | reported =>
    simp only [OrderState.brokerUpdated, OrderState.ignoresUpdate, hd, if_true]
    exact ⟨trivial, trivial⟩
  | wrote ht hw hrun =>
    cases hw with
    | placed hc | placeRaised hc => exact absurd hc (hplacing ht)
    | @cancelRequested _ hard =>
      cases hard <;> simp [OrderState.cancelRequested, hd]
    | sweptSettled hs => exact ⟨hs, rfl⟩
    | cancelRaised | sweptUnsent | sweptUnknown => exact ⟨rfl, rfl⟩
    | recancelled | repriced => exact ⟨hd, rfl⟩

/-- A created order is not superseded. -/
theorem Created.supersededBy {y : OrderState} (h : Created om l om' y) :
    y.supersededBy = none := by
  cases h <;> rfl

theorem Linked.step (hown : om.Owned) (h : om.Linked) (hstep : om.step l = some om') :
    om'.Linked := by
  have he := step_effect hstep
  intro o y n hy hlink
  rcases he.lookup hy with ⟨x, hx, htouch⟩ | ⟨-, hnew⟩
  · rcases htouch.supersededBy with hsame | ⟨rfl, p, hr⟩
    · rw [hsame] at hlink
      obtain ⟨hd, z, hz, hsum⟩ := h o x n hx hlink
      obtain ⟨hd', hfilled⟩ := htouch.frozen hown hx hlink hd
      obtain ⟨z', hz', htouch'⟩ := he.touch hz
      refine ⟨hd', z', hz', ?_⟩
      rw [htouch'.fixed.2.2.2.2.2.1, hfilled, htouch.fixed.2.2.2.2.2.1, hsum]
    · obtain rfl := Option.some.inj hlink
      obtain ⟨t, c, r, q, hp, -, -, -, hh⟩ := step_replacing hstep hr
      obtain ⟨-, -, -, -, -, -, -, -, -, hrep, -⟩ := replacing_eq_some.mp hr
      simp only [replaceable, Bool.and_eq_true, decide_eq_true_eq] at hrep
      have hnew : om'.orders[om.orders.length]?
          = some (replacementOf x (replacementPlan x _ q p hp) om.clock) := by
        rw [hh.orders]
        exact List.getElem?_append_new _ (List.length_modify ..)
      refine ⟨?_, _, hnew, Nat.sub_add_cancel (Nat.le_of_lt (Nat.lt_of_sub_pos q))⟩
      show x.status.terminal = true
      rw [hrep.1.1]
      rfl
  · rw [hnew.supersededBy] at hlink
    cases hlink

/-! ## Chains -/

/-- **A replacement chain** from its first order to its last, with the
orders before the last. -/
inductive Chain (om : OrderManager) (root : OrderId) : List OrderId → OrderId → Prop
  | single : Chain om root [] root
  | link {earlier m n x} (h : Chain om root earlier m)
      (hx : om.orders[m]? = some x) (hn : x.supersededBy = some n) :
      Chain om root (earlier ++ [m]) n

/-- What is stored of the fills of an order. -/
def storedFill (om : OrderManager) (o : OrderId) : ℕ :=
  (om.orders[o]?.map (·.filledQuantity)).getD 0

theorem storedFill_eq {o : OrderId} {x : OrderState} (hx : om.orders[o]? = some x) :
    om.storedFill o = x.filledQuantity := by
  simp [storedFill, hx]

/-- **The stored fills of the earlier orders and the quantity of the last
are the quantity of the first.** -/
theorem Chain.sum_stored (h : om.Linked) {root last : OrderId}
    {earlier : List OrderId} (hc : om.Chain root earlier last) {x y : OrderState}
    (hx : om.orders[root]? = some x) (hy : om.orders[last]? = some y) :
    (earlier.map om.storedFill).sum + y.quantity = x.quantity := by
  induction hc generalizing y with
  | single =>
    obtain rfl := Option.some.inj (hx.symm.trans hy)
    simp
  | @link earlier m n z hc hz hn ih =>
    obtain ⟨-, w, hw, hsum⟩ := h m z n hz hn
    obtain rfl := Option.some.inj (hw.symm.trans hy)
    have := ih hz
    simp only [List.map_append, List.sum_append, List.map_cons, List.map_nil,
      List.sum_singleton, storedFill_eq hz]
    omega

/-- The earlier orders of a chain are orders, and superseded. -/
theorem Chain.mem_earlier {root last : OrderId} {earlier : List OrderId}
    (hc : om.Chain root earlier last) {o : OrderId} (ho : o ∈ earlier) :
    ∃ x n, om.orders[o]? = some x ∧ x.supersededBy = some n := by
  induction hc with
  | single => cases ho
  | link hc hx hn ih =>
    rcases List.mem_append.mp ho with ho | ho
    · exact ih ho
    · obtain rfl := List.mem_singleton.mp ho
      exact ⟨_, _, hx, hn⟩

/-- A link that is there stays. -/
theorem link_step (hown : om.Owned) (hstep : om.step l = some om') {o n : OrderId}
    {x : OrderState} (hx : om.orders[o]? = some x) (hn : x.supersededBy = some n) :
    ∃ y, om'.orders[o]? = some y ∧ y.supersededBy = some n := by
  obtain ⟨y, hy, htouch⟩ := (step_effect hstep).touch hx
  refine ⟨y, hy, ?_⟩
  rcases htouch.supersededBy with hsame | ⟨-, p, hr⟩
  · exact hsame.trans hn
  · obtain ⟨-, t, c, r, -, ht, hc, rfl, -⟩ := replacing_eq_some.mp hr
    obtain ⟨z, hz, hfree⟩ :=
      hown.free _ (mem_owners ht (Coroutine.owner_of_polling hc))
    rw [Option.some.inj (hx.symm.trans hz), hfree] at hn
    cases hn

theorem Chain.step (hown : om.Owned) (hstep : om.step l = some om')
    {root last : OrderId} {earlier : List OrderId}
    (hc : om.Chain root earlier last) : om'.Chain root earlier last := by
  induction hc with
  | single => exact .single
  | link hc hx hn ih =>
    obtain ⟨y, hy, hn'⟩ := link_step hown hstep hx hn
    exact .link ih hy hn'

theorem Chain.append {root i last : OrderId} {es fs : List OrderId}
    (hc : om.Chain root es i) (hd : om.Chain i fs last) :
    om.Chain root (es ++ fs) last := by
  induction hd with
  | single => simpa using hc
  | link hd hx hn ih => exact List.append_assoc .. ▸ ih.link hx hn

/-- A chain begins with its first order. -/
theorem Chain.root_mem {root last : OrderId} {earlier : List OrderId}
    (hc : om.Chain root earlier last) : root ∈ earlier ++ [last] := by
  induction hc with
  | single => simp
  | link hc hx hn ih => exact List.mem_append_left _ ih

/-- Every order of a chain but the last is linked on to the last. -/
theorem Chain.suffix {root last : OrderId} {earlier : List OrderId}
    (hc : om.Chain root earlier last) {o : OrderId} (ho : o ∈ earlier ++ [last]) :
    ∃ es, om.Chain o es last := by
  induction hc with
  | single =>
    obtain rfl := List.mem_singleton.mp ho
    exact ⟨[], .single⟩
  | link hc hx hn ih =>
    rcases List.mem_append.mp ho with ho | ho
    · obtain ⟨es, hes⟩ := ih ho
      exact ⟨_, hes.link hx hn⟩
    · obtain rfl := List.mem_singleton.mp ho
      exact ⟨[], .single⟩

/-- A chain that ends in an order that was there before the step was there
before the step. -/
theorem Chain.back (he : Effect om l om') {root last : OrderId}
    {earlier : List OrderId} (hc : om'.Chain root earlier last)
    (hlast : last < om.orders.length) : om.Chain root earlier last := by
  induction hc with
  | single => exact .single
  | @link earlier m n y hc hy hn ih =>
    rcases he.lookup hy with ⟨x, hx, htouch⟩ | ⟨-, hnew⟩
    · rcases htouch.supersededBy with hsame | ⟨rfl, -⟩
      · exact (ih (List.getElem?_eq_some_iff.mp hx).1).link hx (hsame ▸ hn)
      · obtain rfl := Option.some.inj hn
        exact absurd hlast (lt_irrefl _)
    · rw [hnew.supersededBy] at hn
      cases hn

/-- A chain that ends in the order a step creates is the chain of the order
that it replaces, and that order. -/
theorem Chain.before_replacement (hlinked : om.Linked) (he : Effect om l om')
    {root : OrderId} {earlier : List OrderId}
    (hc : om'.Chain root earlier om.orders.length)
    (hroot : root < om.orders.length) {o : OrderId} {x : OrderState} {p : Price}
    (hr : om.replacing l = some (o, x, p)) :
    ∃ es, earlier = es ++ [o] ∧ om.Chain root es o := by
  generalize hlast : om.orders.length = last at hc
  cases hc with
  | single => exact absurd hroot (hlast ▸ lt_irrefl _)
  | @link earlier m _ y hc hy hn =>
    subst hlast
    rcases he.lookup hy with ⟨z, hz, htouch⟩ | ⟨-, hnew⟩
    · have hm := (List.getElem?_eq_some_iff.mp hz).1
      rcases htouch.supersededBy with hsame | ⟨rfl, q, hr'⟩
      · obtain ⟨-, w, hw, -⟩ := hlinked m z _ hz (hsame ▸ hn)
        exact absurd (List.getElem?_eq_some_iff.mp hw).1 (lt_irrefl _)
      · obtain rfl : o = m :=
          congrArg Prod.fst (Option.some.inj (hr.symm.trans hr'))
        exact ⟨earlier, rfl, hc.back he hm⟩
    · rw [hnew.supersededBy] at hn
      cases hn

/-! ## The calls of `place_order` -/

/-- **Every order was placed by one call**, for the quantity it has, and
its chain starts at an order that `submit_intent` placed. -/
structure Called (om : OrderManager) : Prop where
  order : ∀ call ∈ om.placeCalls, ∃ x, om.orders[call.order]? = some x
    ∧ x.quantity = call.plan.quantity
  rooted : ∀ o < om.orders.length, ∃ call ∈ om.placeCalls,
    call.supersedes = none ∧ ∃ earlier, om.Chain call.order earlier o

/-- A call that was made before the step is for an order that is still
there. -/
theorem Called.order_step (h : om.Called) (he : Effect om l om') {call : PlaceCall}
    (hcall : call ∈ om.placeCalls) :
    ∃ y, om'.orders[call.order]? = some y ∧ y.quantity = call.plan.quantity := by
  obtain ⟨x, hx, hq⟩ := h.order call hcall
  obtain ⟨y, hy, htouch⟩ := he.touch hx
  exact ⟨y, hy, htouch.fixed.2.2.2.2.2.1.trans hq⟩

/-- What a step does to the calls. -/
theorem Effect.placeCalls (he : Effect om l om') :
    (om'.placeCalls = om.placeCalls ∧ om'.orders.length = om.orders.length)
      ∨ ∃ y, Created om l om' y ∧ om'.orders[om.orders.length]? = some y
        ∧ om'.orders.length = om.orders.length + 1 := by
  cases he with
  | idle h | called _ _ h | moved _ _ _ _ _ h =>
    exact .inl ⟨h.placeCalls, by rw [h.orders]⟩
  | wrote _ _ _ _ _ _ _ _ _ h | chased _ _ _ _ _ _ _ h | reported _ _ _ _ _ _ h =>
    exact .inl ⟨h.placeCalls, by rw [h.orders, List.length_modify]⟩
  | submitted intent decision e reprice algo plan q hl hplan hfree h =>
    refine .inr ⟨_, .submitted q hl hplan hfree h.placeCalls, ?_, ?_⟩
    · rw [h.orders]; exact List.getElem?_append_new _ rfl
    · rw [h.orders, List.length_append]; rfl
  | replaced t c r p x q hp hl hrun ht hc hx hrep h =>
    refine .inr ⟨_, .replaced (replacing_eq_some.mpr
      ⟨hl, t, c, r, hrun, ht, hc, rfl, hx, hrep, hp⟩) q hp h.placeCalls, ?_, ?_⟩
    · rw [h.orders]; exact List.getElem?_append_new _ (List.length_modify ..)
    · rw [h.orders, List.length_append, List.length_modify]; rfl

theorem Called.step (hown : om.Owned) (h : om.Called) (hstep : om.step l = some om') :
    om'.Called := by
  have he := step_effect hstep
  -- an order that was there keeps its chain from a call
  have hold : ∀ o < om.orders.length, ∃ call ∈ om.placeCalls,
      call.supersedes = none ∧ ∃ earlier, om'.Chain call.order earlier o := by
    intro o ho
    obtain ⟨call, hcall, hroot, earlier, hc⟩ := h.rooted o ho
    exact ⟨call, hcall, hroot, earlier, hc.step hown hstep⟩
  rcases he.placeCalls with ⟨hcalls, hlen⟩ | ⟨y, hnew, hy, hlen⟩
  · exact ⟨fun call hcall => h.order_step he (hcalls ▸ hcall),
      fun o ho => hcalls ▸ hold o (hlen ▸ ho)⟩
  · cases hnew with
    | submitted q hl hplan hfree hcalls =>
      refine ⟨fun call hcall => ?_, fun o ho => ?_⟩
      · rcases List.mem_append.mp (hcalls ▸ hcall) with hcall | hcall
        · exact h.order_step he hcall
        · obtain rfl := List.mem_singleton.mp hcall
          exact ⟨_, hy, rfl⟩
      · rcases (Nat.lt_succ_iff_lt_or_eq.mp (hlen ▸ ho)) with ho | rfl
        · obtain ⟨call, hcall, hchain⟩ := hold o ho
          exact ⟨call, hcalls ▸ List.mem_append_left _ hcall, hchain⟩
        · exact ⟨_, hcalls ▸ List.mem_append_right _ (List.mem_singleton_self _),
            rfl, [], .single⟩
    | @replaced m x p hr q hp hcalls =>
      refine ⟨fun call hcall => ?_, fun o ho => ?_⟩
      · rcases List.mem_append.mp (hcalls ▸ hcall) with hcall | hcall
        · exact h.order_step he hcall
        · obtain rfl := List.mem_singleton.mp hcall
          exact ⟨_, hy, rfl⟩
      · rcases (Nat.lt_succ_iff_lt_or_eq.mp (hlen ▸ ho)) with ho | rfl
        · obtain ⟨call, hcall, hchain⟩ := hold o ho
          exact ⟨call, hcalls ▸ List.mem_append_left _ hcall, hchain⟩
        · obtain ⟨-, -, -, -, -, -, -, -, hx, -⟩ := replacing_eq_some.mp hr
          -- the replacement prolongs the chain of the order that it replaces
          have hm := (List.getElem?_eq_some_iff.mp hx).1
          obtain ⟨call, hcall, hroot, earlier, hc⟩ := hold m hm
          obtain ⟨t, c, r, q, hp, -, -, -, hh⟩ := step_replacing hstep hr
          have hlink : om'.orders[m]? = some (x.superseded om.orders.length) := by
            rw [hh.orders, List.getElem?_append_left (by rwa [List.length_modify])]
            exact List.getElem?_modify_iff.mpr ⟨x, hx, (if_pos rfl).symm⟩
          exact ⟨call, hcalls ▸ List.mem_append_left _ hcall, hroot, _,
            hc.link hlink rfl⟩

/-! ## Every reachable state -/

/-- What holds of the orders in every reachable state. -/
structure Chained (om : OrderManager) : Prop where
  owned : om.Owned
  linked : om.Linked
  called : om.Called

theorem Chained.step (h : om.Chained) (hstep : om.step l = some om') : om'.Chained where
  owned := h.owned.step hstep
  linked := h.linked.step h.owned hstep
  called := h.called.step h.owned hstep

theorem chained_initial : initial.Chained where
  owned := owned_initial
  linked := fun _ _ _ hx => by cases hx
  called := ⟨fun _ h => (by cases h), fun _ h => absurd h (Nat.not_lt_zero _)⟩

end OrderManager
