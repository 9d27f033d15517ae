import ExecutionSystem.NetQuantity
import ExecutionSystem.ReplacementChain
import ExecutionSystem.WaitUntilFlat

/-!
# The coordination of the legs of a batch

The entry orders that were submitted together share a tag, and when one of
them fails the others have to go: those that still work are hard-cancelled
and the positions they opened are flagged for the exit check. A leg is not
one order but a chain of replacements, and it has failed when the chain
has ended with nothing filled (`failedLegs`).

The runner asks less. It takes the first order of the batch that is
`CANCELLED`, `REJECTED` or `ERROR`, has no fill of its own and no
successor. A repricer that has its cancel acknowledged and has not looked
yet leaves such an order behind for a moment; a fill on an earlier order
of the chain is not in it; and the list it looks through was made before
the timeouts were awaited. What it does about the failed leg is measured
here against what it should do about every leg (`ExactLegs`), and is that
where none of these stands in the way (`ClearLegs`).
-/

/-! ## The property and its condition -/

namespace RunnerPc

/-- The groups of legs still to be coordinated. -/
def groups : RunnerPc → List LegGroup
  | timeouts _ groups => groups
  | legs groups _ => groups
  | legCancels _ _ group groups _ => group :: groups
  | awaiting _ next => next.groups
  | _ => []

/-- The group whose turn it is, with the leg of it that was found to have
failed. -/
def found : RunnerPc → Option (LegGroup × OrderId)
  | legCancels failed _ group _ _ => some (group, failed)
  | awaiting _ next => next.found
  | _ => none

/-- The peers of the failed leg that are still to be cancelled. -/
def peers : RunnerPc → List OrderId
  | legCancels _ peers .. => peers
  | _ => []

end RunnerPc

namespace ExecutionRunner

/-- Whether the chain of an order leads to another. -/
def leadsTo (s : ExecutionRunner) (o t : OrderId) : Bool :=
  t ∈ ownChain s.om.orders s.om.orders.length o

/-- The entry orders of a batch. -/
def legsOf (s : ExecutionRunner) (b : BatchId) : List OrderId :=
  (List.range s.om.orders.length).filter
    fun o => s.om.orders[o]?.any fun x => x.isEntry && x.entryBatch = some b

/-- **The chain that ends with this order has ended**: the order is
terminal and has no successor, its `place_order` has returned, and no
repricer is about to replace it. -/
def ended (s : ExecutionRunner) (t : OrderId) : Bool :=
  s.om.orders[t]?.any fun x => x.supersededBy = none && x.status.terminal
    && s.om.tasks.all fun c => !c.revives t x

/-- Nothing was filled of any order of the chain that ends with this one. -/
def unfilled (s : ExecutionRunner) (t : OrderId) : Bool :=
  (List.range s.om.orders.length).all fun o => s.om.orders[o]?.all fun x =>
    !s.leadsTo o t || (x.filledQuantity = 0 && x.status ≠ .filled)

/-- **The legs of a batch that have failed**, each by the last order of its
chain. -/
def failedLegs (s : ExecutionRunner) (b : BatchId) : List OrderId :=
  (s.legsOf b).filter fun t => s.ended t && s.unfilled t

/-- A leg of the batch has failed, other than that of the order. -/
def peerFailed (s : ExecutionRunner) (b : BatchId) (o : OrderId) : Bool :=
  (s.failedLegs b).any fun t => !s.leadsTo o t

/-- The position was entered by an order of the batch. -/
def enteredBy (s : ExecutionRunner) (b : BatchId) (pos : Position) : Bool :=
  s.om.orders[pos.entryOrderId]?.any (·.entryBatch = some b)

/-- **The legs of a batch are coordinated exactly**: an order is
hard-cancelled, and a position flagged, if and only if another leg of the
batch has failed. -/
structure ExactLegs (s s' : ExecutionRunner) : Prop where
  /-- The orders that work are listed to be cancelled … -/
  listed : ∀ group groups openPositions b, s.pc = .legs (group :: groups) openPositions →
    group.key = .batch b → ∀ o ∈ s.legsOf b, s.cancellable o = true →
      (o ∈ s'.pc.peers ↔ s.peerFailed b o = true)
  /-- … and are, one at a time, unless they work no longer. -/
  cancelled : ∀ failed o peers group groups openPositions b,
    s.pc = .legCancels failed (o :: peers) group groups openPositions →
      group.key = .batch b →
        (s'.om.tasks = s.om.tasks ++ [.cancelStart o true .outside]
          ↔ s.cancellable o = true ∧ s.peerFailed b o = true)
  /-- Where the batch is passed over, nothing was to be flagged. -/
  passed : ∀ group groups openPositions b, s.pc = .legs (group :: groups) openPositions →
    group.key = .batch b → s'.pc.found = none → ∀ pos ∈ openPositions,
      s.enteredBy b pos = true → s.peerFailed b pos.entryOrderId = false
  /-- Otherwise the positions of the batch with a failed peer are flagged … -/
  flagged : ∀ failed group groups openPositions b,
    s.pc = .legCancels failed [] group groups openPositions → group.key = .batch b →
      ∀ pos ∈ openPositions, s.enteredBy b pos = true →
        s.peerFailed b pos.entryOrderId = true → pos.positionId ∈ s'.asymmetricExits
  /-- … and no others, but for those whose entry order is not known. -/
  spared : ∀ failed group groups openPositions b,
    s.pc = .legCancels failed [] group groups openPositions → group.key = .batch b →
      ∀ p ∈ s'.asymmetricExits, p ∈ s.asymmetricExits ∨ ∃ pos ∈ openPositions,
        pos.positionId = p ∧ s.peerFailed b pos.entryOrderId = true
          ∧ (s.enteredBy b pos = true ∨ s.om.orders[pos.entryOrderId]? = none)

/-- The list that the group was made with has every leg of the batch that
still counts. -/
def listCurrent (s : ExecutionRunner) (group : LegGroup) (b : BatchId) : Bool :=
  (s.legsOf b).all fun o =>
    s.om.orders[o]?.any (·.supersededBy.isSome) || group.orders.contains o

/-- **The coordination of legs is not misled**: when the turn of a batch
comes, the list it goes through is not out of date, and the dead order that
it finds first belongs to a chain with no fill that no coroutine is about
to continue; and when positions are flagged, those that the batch entered
are of its strategy, and none was entered by the failed leg itself while
another had failed as well. -/
def clearLegs (s : ExecutionRunner) : Bool :=
  match s.pc with
  | .legs (group :: _) _ =>
    match group.key with
    | .batch b => s.listCurrent group b
        && (s.failedLeg group).all fun f => s.ended f && s.unfilled f
    | .day _ => true
  | .legCancels failed [] group _ openPositions =>
    match group.key with
    | .batch b => openPositions.all fun pos => !s.enteredBy b pos
        || (pos.strategyId = group.strategyId
          && !(s.leadsTo pos.entryOrderId failed && s.peerFailed b pos.entryOrderId))
    | .day _ => true
  | _ => true

end ExecutionRunner

/-! ## Own chains -/

namespace OrderManager

variable {om om' : OrderManager} {l : Label}

/-- A link leads to a later order. -/
def Forward (om : OrderManager) : Prop :=
  ∀ (o : OrderId) (x : OrderState) (n : OrderId), om.orders[o]? = some x →
    x.supersededBy = some n → o < n

theorem Forward.step (h : om.Forward) (he : Effect om l om') : om'.Forward := by
  intro o y n hy hn
  rcases he.lookup hy with ⟨x, hx, htouch⟩ | ⟨-, hnew⟩
  · rcases htouch.supersededBy with hsame | ⟨rfl, -⟩
    · exact h o x n hx (hsame ▸ hn)
    · obtain rfl := Option.some.inj hn
      exact (List.getElem?_eq_some_iff.mp hx).1
  · rw [hnew.supersededBy] at hn
    cases hn

/-- The orders of a chain come one after the other. -/
theorem Chain.length_le (h : om.Forward) {root last : OrderId} {earlier : List OrderId}
    (hc : om.Chain root earlier last) : root + earlier.length ≤ last := by
  induction hc with
  | single => exact le_rfl
  | link hc hx hn ih =>
    rw [List.length_append, List.length_singleton]
    exact Nat.succ_le_of_lt (lt_of_le_of_lt ih (h _ _ _ hx hn))

end OrderManager

namespace ExecutionRunner

section OwnChains

variable {orders : List OrderState} {o m n : OrderId} {x : OrderState} {fuel : ℕ}

theorem mem_ownChain_self (orders : List OrderState) (fuel : ℕ) (o : OrderId) :
    o ∈ ownChain orders fuel o := by
  cases fuel with
  | zero => exact List.mem_singleton_self o
  | succ fuel =>
    unfold ownChain
    split
    · exact List.mem_singleton_self o
    · exact List.mem_cons_self

/-- An order that was never superseded is the whole of its chain. -/
theorem ownChain_of_end (h : orders[o]?.bind (·.supersededBy) = none) :
    ownChain orders fuel o = [o] := by
  cases fuel with
  | zero => rfl
  | succ fuel => rw [ownChain, h]

theorem mem_ownChain_succ (h : m ∈ ownChain orders fuel o) :
    m ∈ ownChain orders (fuel + 1) o := by
  induction fuel generalizing o with
  | zero =>
    obtain rfl := List.mem_singleton.mp h
    exact mem_ownChain_self _ _ _
  | succ fuel ih =>
    rw [ownChain] at h ⊢
    split
    · next hnone =>
      rw [hnone] at h
      exact h
    · next n hn =>
      rw [hn] at h
      rcases List.mem_cons.mp h with rfl | h
      · exact List.mem_cons_self
      · exact List.mem_cons_of_mem _ (ih h)

theorem mem_ownChain_of_le {fuel' : ℕ} (hle : fuel ≤ fuel')
    (h : m ∈ ownChain orders fuel o) : m ∈ ownChain orders fuel' o := by
  induction hle with
  | refl => exact h
  | step _ ih => exact mem_ownChain_succ ih

/-- One link further. -/
theorem mem_ownChain_link (h : m ∈ ownChain orders fuel o) (hx : orders[m]? = some x)
    (hn : x.supersededBy = some n) : n ∈ ownChain orders (fuel + 1) o := by
  induction fuel generalizing o with
  | zero =>
    obtain rfl := List.mem_singleton.mp h
    simp [ownChain, hx, hn]
  | succ fuel ih =>
    rw [ownChain] at h ⊢
    cases hlink : orders[o]?.bind (·.supersededBy) with
    | none =>
      rw [hlink] at h
      obtain rfl := List.mem_singleton.mp h
      rw [hx, Option.bind_some, hn] at hlink
      cases hlink
    | some k =>
      rw [hlink] at h
      rcases List.mem_cons.mp h with rfl | h
      · rw [hx, Option.bind_some, hn] at hlink
        obtain rfl := Option.some.inj hlink
        exact List.mem_cons_of_mem _ (mem_ownChain_self _ _ _)
      · exact List.mem_cons_of_mem _ (ih h)

end OwnChains

variable {om : OrderManager} {o t : OrderId}

theorem chain_of_mem_ownChain {fuel : ℕ} (h : t ∈ ownChain om.orders fuel o) :
    ∃ earlier, om.Chain o earlier t := by
  induction fuel generalizing o with
  | zero =>
    obtain rfl := List.mem_singleton.mp h
    exact ⟨[], .single⟩
  | succ fuel ih =>
    rw [ownChain] at h
    split at h
    · obtain rfl := List.mem_singleton.mp h
      exact ⟨[], .single⟩
    · next n hn =>
      rcases List.mem_cons.mp h with rfl | h
      · exact ⟨[], .single⟩
      · obtain ⟨x, hx, hlink⟩ := Option.bind_eq_some_iff.mp hn
        obtain ⟨earlier, hc⟩ := ih h
        exact ⟨_, (OrderManager.Chain.single.link hx hlink).append hc⟩

theorem mem_ownChain_of_chain {earlier : List OrderId} (hc : om.Chain o earlier t) :
    t ∈ ownChain om.orders earlier.length o := by
  induction hc with
  | single => exact mem_ownChain_self _ _ _
  | link hc hx hn ih =>
    rw [List.length_append]
    exact mem_ownChain_link ih hx hn

/-- **The orders that an order leads to are those its chain passes.** -/
theorem mem_ownChain_iff (hforward : om.Forward) (ht : t < om.orders.length) :
    t ∈ ownChain om.orders om.orders.length o ↔ ∃ earlier, om.Chain o earlier t := by
  refine ⟨chain_of_mem_ownChain, ?_⟩
  rintro ⟨earlier, hc⟩
  have hle : earlier.length ≤ om.orders.length :=
    (Nat.le_add_left _ _).trans ((hc.length_le hforward).trans ht.le)
  exact mem_ownChain_of_le hle (mem_ownChain_of_chain hc)

end ExecutionRunner

/-! ## What the orders are in every reachable state -/

namespace OrderManager

variable {om om' : OrderManager} {l : Label}

/-- What the coordination relies on of the orders and the coroutines. -/
structure Orderly (om : OrderManager) : Prop where
  owned : om.Owned
  linked : om.Linked
  forward : om.Forward
  aimed : om.Aimed

theorem Orderly.step (h : om.Orderly) (hstep : om.step l = some om') : om'.Orderly where
  owned := h.owned.step hstep
  linked := h.linked.step h.owned hstep
  forward := h.forward.step (step_effect hstep)
  aimed := h.aimed.step (step_effect hstep)

theorem Orderly.of_holds (h : om.Orderly)
    (hsame : om'.Holds om.orders om.tasks om.placeCalls) : om'.Orderly where
  owned :=
    { nodup := by rw [owners, hsame.tasks]; exact h.owned.nodup
      free := by rw [owners, hsame.tasks, hsame.orders]; exact h.owned.free }
  linked := by rw [Linked, hsame.orders]; exact h.linked
  forward := by rw [Forward, hsame.orders]; exact h.forward
  aimed := by rw [Aimed, hsame.tasks]; exact h.aimed

theorem orderly_initial (clock : Time) : ({ clock := clock } : OrderManager).Orderly where
  owned := ⟨List.nodup_nil, nofun⟩
  linked _ _ _ h := nomatch h
  forward _ _ _ h := nomatch h
  aimed _ _ h := nomatch h

/-- **The fills stored of a terminal order stay what they are** while its
`place_order` is not in flight and no sweep runs. -/
theorem Touch.fills {o : OrderId} {x y : OrderState} (h : Touch om l o x y)
    (hdone : x.status.terminal = true)
    (hplaced : ∀ (t : TaskId) (c : Coroutine), om.tasks[t]? = some c →
      c.placing ≠ some o)
    (hswept : ∀ (t : TaskId) (c : Coroutine), om.tasks[t]? = some c →
      c.sweeping = false) :
    y.filledQuantity = x.filledQuantity ∧ (y.status = .filled → x.status = .filled) := by
  cases h with
  | kept | superseded => exact ⟨rfl, id⟩
  | reported =>
    simp only [OrderState.brokerUpdated, OrderState.ignoresUpdate, hdone, if_true]
    exact ⟨trivial, id⟩
  | wrote ht hw hrun =>
    cases hw with
    | placed hc | placeRaised hc => exact absurd hc (hplaced _ _ ht)
    | @cancelRequested _ hard =>
      cases hard <;> simp [OrderState.cancelRequested, hdone]
    | sweptSettled | sweptUnsent | sweptUnknown | recancelled =>
      have := hswept _ _ ht
      cases this
    | cancelRaised => exact ⟨rfl, fun h => by cases h⟩
    | repriced => exact ⟨rfl, id⟩

/-- Nothing awaits the `place_order` of a superseded order. -/
theorem Owned.not_placing (h : om.Owned) {o n : OrderId} {x : OrderState}
    (hx : om.orders[o]? = some x) (hlink : x.supersededBy = some n) {t : TaskId}
    {c : Coroutine} (ht : om.tasks[t]? = some c) : c.placing ≠ some o := by
  intro hc
  obtain ⟨z, hz, hfree⟩ := h.free o (mem_owners ht (Coroutine.owner_of_placing hc))
  rw [Option.some.inj (hx.symm.trans hz), hfree] at hlink
  cases hlink

end OrderManager

namespace ExecutionRunner

variable {env : RunnerEnv} {s s' : ExecutionRunner} {l : Label}

/-- A step of the runner is one of the order manager, or leaves its orders
and its coroutines. -/
theorem Effect.om_cases (he : Effect env s l s') :
    s'.om.Holds s.om.orders s.om.tasks s.om.placeCalls
      ∨ ∃ ol, s.om.step ol = some s'.om := by
  cases he with
  | keeps h => exact .inl h.orders
  | batched _ _ _ _ h => exact .inl h.orders
  | background _ _ _ _ h | cancels _ _ _ h | sweeps _ _ _ h | leaves _ _ h
  | enters _ _ _ _ _ _ _ _ _ _ h => exact .inr ⟨_, h.step⟩
  | filled fill hl h =>
    subst h
    exact .inl (holds_refl _)
  | raised _ _ h | unlocked _ _ _ _ _ _ _ _ _ h => exact .inl (h ▸ holds_refl _)

theorem orderly_step (hs : s.om.Orderly) (h : s.step env l = some s') : s'.om.Orderly := by
  rcases (step_effect h).om_cases with hsame | ⟨ol, hol⟩
  · exact hs.of_holds hsame
  · exact hs.step hol

/-! ## A leg that has failed -/

/-- A failed leg, taken apart. -/
theorem mem_failedLegs {b : BatchId} {t : OrderId} :
    t ∈ s.failedLegs b ↔ s.unfilled t = true ∧ ∃ x, s.om.orders[t]? = some x
      ∧ x.isEntry = true ∧ x.entryBatch = some b ∧ x.supersededBy = none
      ∧ x.status.terminal = true ∧ ∀ c ∈ s.om.tasks, c.revives t x = false := by
  have hlt : ∀ {x}, s.om.orders[t]? = some x → t < s.om.orders.length :=
    fun hx => (List.getElem?_eq_some_iff.mp hx).1
  simp only [failedLegs, legsOf, ended, List.mem_filter, List.mem_range, Option.any_eq_true,
    Bool.and_eq_true, decide_eq_true_eq, List.all_eq_true, Bool.not_eq_true']
  constructor
  · rintro ⟨⟨-, x, hx, hentry, hbatch⟩, ⟨y, hy, ⟨hfree, hdone⟩, hquiet⟩, hfill⟩
    obtain rfl := Option.some.inj (hx.symm.trans hy)
    exact ⟨hfill, x, hx, hentry, hbatch, hfree, hdone, hquiet⟩
  · rintro ⟨hfill, x, hx, hentry, hbatch, hfree, hdone, hquiet⟩
    exact ⟨⟨hlt hx, x, hx, hentry, hbatch⟩, ⟨x, hx, ⟨hfree, hdone⟩, hquiet⟩, hfill⟩

theorem unfilled_iff {t : OrderId} :
    s.unfilled t = true ↔ ∀ (o : OrderId) (x : OrderState), s.om.orders[o]? = some x →
      s.leadsTo o t = true → x.filledQuantity = 0 ∧ x.status ≠ .filled := by
  simp only [unfilled, List.all_eq_true, List.mem_range, Option.all_eq_true, Bool.or_eq_true,
    Bool.not_eq_true', Bool.and_eq_true, decide_eq_true_eq]
  constructor
  · intro h o x hx hleads
    refine (h o (List.getElem?_eq_some_iff.mp hx).1 x hx).resolve_left ?_
    rw [hleads]
    exact Bool.noConfusion
  · intro h o _ x hx
    rw [← Bool.not_eq_true, or_iff_not_imp_left, not_not]
    exact h o x hx

/-- Whether an order leads to another is whether its chain passes it. -/
theorem leadsTo_iff (hs : s.om.Orderly) {o t : OrderId} (ht : t < s.om.orders.length) :
    s.leadsTo o t = true ↔ ∃ earlier, s.om.Chain o earlier t := by
  rw [leadsTo, decide_eq_true_iff, mem_ownChain_iff hs.forward ht]

/-- **What ends in a retired order stays unfilled** where no sweep is under
way: the chain was there before the step, and it is frozen. -/
theorem unfilled_step (hs : s.om.Orderly) (hs' : s'.om.Orderly) {ol : OrderManager.Label}
    (hom : OrderManager.Effect s.om ol s'.om)
    (hswept : ∀ (t : TaskId) (c : Coroutine), s.om.tasks[t]? = some c →
      c.sweeping = false) {t : OrderId} {x : OrderState} (hx : s.om.orders[t]? = some x)
    (hdone : x.status.terminal = true) (hquiet : ∀ c ∈ s.om.tasks, c.revives t x = false)
    (hfill : s.unfilled t = true) : s'.unfilled t = true := by
  have hlt := (List.getElem?_eq_some_iff.mp hx).1
  refine unfilled_iff.mpr fun o w hw hleads => ?_
  obtain ⟨earlier, hc⟩ := (leadsTo_iff hs' (hlt.trans_le hom.length_le)).mp hleads
  have hback := hc.back hom hlt
  rcases hom.lookup hw with ⟨v, hv, hvtouch⟩ | ⟨rfl, -⟩
  · obtain ⟨hzero, hne⟩ := unfilled_iff.mp hfill o v hv
      ((leadsTo_iff hs hlt).mpr ⟨earlier, hback⟩)
    have hfrozen : w.filledQuantity = v.filledQuantity
        ∧ (w.status = .filled → v.status = .filled) := by
      rcases List.mem_append.mp hback.root_mem with hmem | hmem
      · obtain ⟨v', n, hv', hn⟩ := hback.mem_earlier hmem
        obtain rfl := Option.some.inj (hv.symm.trans hv')
        exact hvtouch.fills (hs.linked o v n hv hn).1
          (fun u c hc => hs.owned.not_placing hv hn hc) hswept
      · obtain rfl := List.mem_singleton.mp hmem
        obtain rfl := Option.some.inj (hv.symm.trans hx)
        refine hvtouch.fills hdone (fun u c hc hplacing => ?_) hswept
        have := hquiet c (List.mem_of_getElem? hc)
        rw [Coroutine.revives, hplacing, decide_eq_true rfl, Bool.true_or] at this
        cases this
    exact ⟨hfrozen.1.trans hzero, fun hfilled => hne (hfrozen.2 hfilled)⟩
  · have hle := hc.length_le hs'.forward
    exact absurd hlt (Nat.not_lt.mpr ((Nat.le_add_right _ _).trans hle))

/-- **A leg that has failed stays failed** where no sweep is under way. -/
theorem failedLegs_step (hs : s.om.Orderly) (h : s.step env l = some s')
    (hswept : ∀ (t : TaskId) (c : Coroutine), s.om.tasks[t]? = some c →
      c.sweeping = false) {b : BatchId} {t : OrderId} (ht : t ∈ s.failedLegs b) :
    t ∈ s'.failedLegs b := by
  have hs' := orderly_step hs h
  obtain ⟨ol, hom, -⟩ := (step_effect h).om
  obtain ⟨hfill, x, hx, hentry, hbatch, hfree, hdone, hquiet⟩ := mem_failedLegs.mp ht
  have hretired : s.om.Retired t := by
    refine ⟨⟨x, hx, hdone, fun u c hc => hquiet c (List.mem_of_getElem? hc)⟩,
      fun u c hc htarget => ?_⟩
    have := hswept u c hc
    cases c <;> cases htarget
    cases this
  obtain ⟨y, hy, htouch⟩ := hom.touch hx
  obtain ⟨z, hz, hdone', hquiet'⟩ := (hretired.step hs.aimed hom).done
  obtain rfl := Option.some.inj (hy.symm.trans hz)
  have hfixed := htouch.fixed
  have hfree' : y.supersededBy = none := by
    rcases htouch.supersededBy with hsame | ⟨-, p, hr⟩
    · exact hsame.trans hfree
    · exact absurd hr hretired.not_replacing
  refine mem_failedLegs.mpr ⟨unfilled_step hs hs' hom hswept hx hdone hquiet hfill, y, hy,
    hfixed.2.1.trans hentry, hfixed.2.2.2.2.2.2.trans hbatch, hfree', hdone', fun c hc => ?_⟩
  obtain ⟨u, hu⟩ := List.getElem?_of_mem hc
  exact hquiet' u c hu

end ExecutionRunner

/-! ## Where the groups come from -/

namespace ExecutionRunner

variable {env : RunnerEnv} {s s' : ExecutionRunner} {l : Label}

/-- **What a step does to the groups and to the failed leg at hand.** -/
inductive LegMove (s s' : ExecutionRunner) (pc pc' : RunnerPc) : Prop
  /-- They are kept, or dropped. -/
  | kept (hgroups : pc'.groups ⊆ pc.groups)
      (hfound : ∀ found, pc'.found = some found → pc.found = some found)
  /-- The groups are made. -/
  | made (hom : s'.om = s.om) (hgroups : pc'.groups = s.legGroups) (hfound : pc'.found = none)
  /-- A failed leg is found. -/
  | found (hom : s'.om = s.om) (group : LegGroup) (groups : List LegGroup)
      (openPositions : List Position) (failed : OrderId)
      (hpc : pc = .legs (group :: groups) openPositions)
      (hfailed : s.failedLeg group = some failed) (hgroups : pc'.groups = pc.groups)
      (hfound : pc'.found = some (group, failed))

theorem LegMove.dropped {pc pc' : RunnerPc} (hgroups : pc'.groups = [])
    (hfound : pc'.found = none) : LegMove s s' pc pc' :=
  .kept (by rw [hgroups]; exact List.nil_subset _) (by rw [hfound]; exact nofun)

/-- Outside `_manage_active_orders` no group and no failed leg is at hand. -/
theorem Flow.legMove {pc pc' : RunnerPc} (h : Flow env s l s' pc pc')
    (hpc : pc.managing = false) : LegMove s s' pc pc' := by
  have hexiting : ∀ {next : RunnerPc}, next.exiting = true →
      next.groups = [] ∧ next.found = none := by
    intro next hnext
    cases next <;> first | exact ⟨rfl, rfl⟩ | cases hnext
  cases h with
  | managed hpc' | manageAwaits hpc' | manageEnds hpc' =>
    rw [hpc'] at hpc
    cases hpc
  | returned => exact .kept (List.Subset.refl _) fun _ => id
  | exitsGoOn _ hpc' => exact .dropped (hexiting hpc').1 (hexiting hpc').2
  | exitAwaits _ hpc' => exact .dropped (hexiting hpc').1 (hexiting hpc').2
  | _ => exact .dropped rfl rfl

/-- Inside it the runner takes its own blocks. -/
theorem block_legMove {pc : RunnerPc} (h : s.block env pc = some s')
    (hpc : pc.managing = true) : LegMove s s' pc s'.pc := by
  cases block_cases h with
  | manage => exact .dropped rfl rfl
  | manageSwept =>
    unfold ExecutionRunner.manageSwept
    split_ifs
    · exact .made rfl rfl rfl
    · exact .dropped rfl rfl
  | rejectionCancels rest =>
    cases rest with
    | nil => exact .dropped rfl rfl
    | cons o rest =>
      simp only [rejectionCancel]
      split_ifs <;> exact .dropped rfl rfl
  | timeouts rest groups =>
    cases rest with
    | nil => exact .kept (List.Subset.refl _) fun _ => id
    | cons o rest =>
      simp only [ExecutionRunner.timeout]
      split_ifs <;> exact .kept (List.Subset.refl _) fun _ => id
  | legs groups openPositions =>
    cases groups with
    | nil => exact .dropped rfl rfl
    | cons group groups =>
      simp only [ExecutionRunner.leg]
      split
      · exact .kept (List.subset_cons_self _ _) fun _ => id
      · next failed hfailed =>
        exact .found rfl group groups openPositions failed rfl hfailed rfl rfl
  | legCancels failed peers group groups openPositions =>
    cases peers with
    | nil =>
      exact .kept (List.subset_cons_self _ _) fun _ hfound =>
        absurd hfound (Option.some_ne_none _).symm
    | cons o peers =>
      simp only [ExecutionRunner.legCancel]
      split_ifs <;> exact .kept (List.Subset.refl _) fun _ => id
  | _ => cases hpc

theorem block_of_run (h : s.step env .run = some s') : s.block env s.pc = some s' := by
  rw [step, Option.ite_none_right_eq_some] at h
  exact h.2

/-- There it takes nothing but its own blocks. -/
theorem block_of_managing (h : s.step env l = some s') (hpc : s.pc.managing = true) :
    s.block env s.pc = some s' := by
  have hbusy : s.busy = true := by
    unfold busy
    generalize s.pc = pc at hpc
    cases pc <;> first | rfl | cases hpc
  cases l with
  | run => exact block_of_run h
  | reply reply =>
    simp only [step, Option.ite_none_right_eq_some] at h
    generalize s.pc = pc at h hpc
    cases pc <;> cases hpc <;> cases h.2
  | _ => simp [step, hbusy] at h

/-- … and it leads where the block leads. -/
theorem eq_of_managing (h : s.step env l = some s') {pc : RunnerPc} (hpc : s.pc = pc)
    (hmanaging : pc.managing = true) {t : ExecutionRunner} (hblock : s.block env pc = some t) :
    s' = t := by
  have hstep := block_of_managing h (hpc ▸ hmanaging)
  rw [hpc, hblock] at hstep
  exact (Option.some.inj hstep).symm

theorem step_legMove (h : s.step env l = some s') : LegMove s s' s.pc s'.pc := by
  cases hpc : s.pc.managing with
  | true => exact block_legMove (block_of_managing h hpc) hpc
  | false =>
    rcases step_flow h with ⟨-, hsame⟩ | ⟨-, hflow⟩
    · rw [hsame]
      exact .kept (List.Subset.refl _) fun _ => id
    · exact hflow.legMove hpc

theorem entryBatch_of_batchKey {x : OrderState} {b : BatchId} (h : batchKey x = .batch b) :
    x.entryBatch = some b := by
  unfold batchKey at h
  split at h
  · next b' hb' =>
    obtain rfl := BatchKey.batch.inj h
    exact hb'
  · cases h

/-- The group of a batch is made of entry orders of the batch. -/
theorem legsOf_of_legGroups {group : LegGroup} (hmem : group ∈ s.legGroups) {b : BatchId}
    (hb : group.key = .batch b) {o : OrderId} (ho : o ∈ group.orders) : o ∈ s.legsOf b := by
  simp only [legGroups, entryByStrategy, List.mem_flatMap, List.mem_map] at hmem
  obtain ⟨⟨sid, orders⟩, ⟨sid', -, hsid⟩, k, -, rfl⟩ := hmem
  obtain ⟨rfl, rfl⟩ := Prod.mk.inj hsid
  obtain rfl : k = .batch b := hb
  simp only [List.mem_filter, List.mem_range, Option.any_eq_true, decide_eq_true_eq,
    Option.map_eq_some_iff] at ho
  obtain ⟨⟨⟨hlt, x, hx, hentry⟩, -⟩, y, hy, hkey⟩ := ho
  obtain rfl := Option.some.inj (hx.symm.trans hy)
  have hbatch := entryBatch_of_batchKey hkey
  simp only [legsOf, List.mem_filter, List.mem_range, hx, Option.any_some, hentry, hbatch,
    decide_true, Bool.and_self, and_true]
  exact hlt

theorem legsOf_step (h : s.step env l = some s') {b : BatchId} {o : OrderId}
    (ho : o ∈ s.legsOf b) : o ∈ s'.legsOf b := by
  simp only [legsOf, List.mem_filter, List.mem_range, Option.any_eq_true, Bool.and_eq_true,
    decide_eq_true_eq] at ho ⊢
  obtain ⟨hlt, x, hx, hentry, hbatch⟩ := ho
  obtain ⟨ol, hom, -⟩ := (step_effect h).om
  obtain ⟨y, hy, htouch⟩ := hom.touch hx
  have hfixed := htouch.fixed
  exact ⟨hlt.trans_le hom.length_le, y, hy, hfixed.2.1.trans hentry,
    hfixed.2.2.2.2.2.2.trans hbatch⟩

end ExecutionRunner

/-! ## The invariant -/

namespace ExecutionRunner

variable {env : RunnerEnv} {s s' : ExecutionRunner} {l : Label}

/-- **The groups are of their batch, and the failed leg at hand has
failed.** -/
structure Coordinated (s : ExecutionRunner) : Prop where
  orderly : s.om.Orderly
  swept : s.SweepAwaited
  grouped : ∀ group ∈ s.pc.groups, ∀ b, group.key = .batch b → ∀ o ∈ group.orders,
    o ∈ s.legsOf b
  failed : ∀ group failed, s.pc.found = some (group, failed) → ∀ b,
    group.key = .batch b → failed ∈ s.failedLegs b

/-- Where there are groups no sweep is under way. -/
theorem SweepAwaited.not_sweeping (hs : s.SweepAwaited) (hgroups : s.pc.groups ≠ [])
    (t : TaskId) (c : Coroutine) (hc : s.om.tasks[t]? = some c) : c.sweeping = false := by
  by_contra hsweep
  rw [hs t c hc (Bool.eq_true_of_not_eq_false hsweep)] at hgroups
  exact hgroups rfl

theorem groups_of_found {pc : RunnerPc} {found : LegGroup × OrderId}
    (h : pc.found = some found) : pc.groups ≠ [] := by
  induction pc with
  | legCancels => exact List.cons_ne_nil _ _
  | awaiting t next ih => exact ih h
  | _ => cases h

/-- **The failed leg that is found has failed**, unless the coordination is
misled. -/
theorem failedLegs_of_clear (hs : s.Coordinated) {group : LegGroup}
    {groups : List LegGroup} {openPositions : List Position}
    (hpc : s.pc = .legs (group :: groups) openPositions) (hclear : s.clearLegs = true)
    {b : BatchId} (hb : group.key = .batch b) {failed : OrderId}
    (hfailed : s.failedLeg group = some failed) : failed ∈ s.failedLegs b := by
  simp only [clearLegs, hpc, hb, hfailed, Option.all_some, Bool.and_eq_true] at hclear
  refine List.mem_filter.mpr ⟨?_, Bool.and_eq_true_iff.mpr hclear.2⟩
  have hmem : failed ∈ group.orders :=
    List.mem_of_mem_filter (List.mem_of_find?_eq_some hfailed)
  exact hs.grouped group (by rw [hpc]; exact List.mem_cons_self) b hb failed hmem

theorem Coordinated.step (hs : s.Coordinated) (h : s.step env l = some s')
    (hclear : s.clearLegs = true) : s'.Coordinated := by
  have hlegs : ∀ {group : LegGroup} {b : BatchId}, group ∈ s.pc.groups →
      group.key = .batch b → ∀ o ∈ group.orders, o ∈ s'.legsOf b :=
    fun hmem hb o ho => legsOf_step h (hs.grouped _ hmem _ hb o ho)
  have hfailed : ∀ {failed : OrderId} {b : BatchId}, s.pc.groups ≠ [] →
      failed ∈ s.failedLegs b → failed ∈ s'.failedLegs b :=
    fun hgroups hmem => failedLegs_step hs.orderly h (hs.swept.not_sweeping hgroups) hmem
  refine ⟨orderly_step hs.orderly h, hs.swept.step h, ?_, ?_⟩
  · intro group hmem b hb
    cases step_legMove h with
    | kept hgroups => exact hlegs (hgroups hmem) hb
    | found _ _ _ _ _ _ _ hgroups => exact hlegs (hgroups ▸ hmem) hb
    | made hom hgroups =>
      intro o ho
      exact legsOf_step h (legsOf_of_legGroups (hgroups ▸ hmem) hb ho)
  · intro group failed hfound b hb
    cases step_legMove h with
    | kept _ hkept =>
      exact hfailed (groups_of_found (hkept _ hfound))
        (hs.failed group failed (hkept _ hfound) b hb)
    | made _ _ hnone =>
      rw [hnone] at hfound
      cases hfound
    | found hom group' groups openPositions failed' hpc hleg _ hnew =>
      obtain ⟨rfl, rfl⟩ := Prod.mk.inj (Option.some.inj (hnew.symm.trans hfound))
      exact hfailed (by rw [hpc]; exact List.cons_ne_nil _ _)
        (failedLegs_of_clear hs hpc hclear hb hleg)

theorem coordinated_initial (start : Startup) : (initial start).Coordinated where
  orderly := OrderManager.orderly_initial start.clock
  swept _ _ h := nomatch h
  grouped _ h := nomatch h
  failed _ _ h := nomatch h

/-! ## One turn -/

/-- An order that works has no successor. -/
theorem free_of_cancellable (hs : s.om.Orderly) {o : OrderId}
    (ho : s.cancellable o = true) : ∃ x, s.om.orders[o]? = some x ∧ x.supersededBy = none := by
  obtain ⟨x, hx, hworks⟩ := (Option.any_eq_true _ _).mp ho
  refine ⟨x, hx, ?_⟩
  by_contra hlink
  obtain ⟨n, hn⟩ := Option.ne_none_iff_exists'.mp hlink
  have hactive := OrderStatus.active_of_cancellable hworks
  rw [OrderStatus.active_eq_not_terminal, (hs.linked o x n hx hn).1] at hactive
  cases hactive

/-- So it leads to no other. -/
theorem not_leadsTo_of_cancellable (hs : s.om.Orderly) {o t : OrderId}
    (ho : s.cancellable o = true) (hne : t ≠ o) : s.leadsTo o t = false := by
  obtain ⟨x, hx, hfree⟩ := free_of_cancellable hs ho
  have hend : s.om.orders[o]?.bind (·.supersededBy) = none := by
    rw [hx, Option.bind_some, hfree]
  rw [leadsTo, ownChain_of_end hend, decide_eq_false_iff_not, List.mem_singleton]
  exact hne

/-- A failed leg is dead with no fill of its own, and is not cancelled. -/
theorem dead_of_mem_failedLegs {b : BatchId} {t : OrderId} (ht : t ∈ s.failedLegs b) :
    ∃ x, s.om.orders[t]? = some x ∧ x.supersededBy = none ∧ x.filledQuantity = 0
      ∧ (x.status = .cancelled ∨ x.status = .rejected ∨ x.status = .error) := by
  obtain ⟨hfill, x, hx, -, -, hfree, hdone, -⟩ := mem_failedLegs.mp ht
  obtain ⟨hzero, hne⟩ := unfilled_iff.mp hfill t x hx
    (decide_eq_true (mem_ownChain_self _ _ _))
  refine ⟨x, hx, hfree, hzero, ?_⟩
  cases hstatus : x.status <;> simp_all [OrderStatus.terminal]

theorem not_cancellable_of_mem_failedLegs {b : BatchId} {t : OrderId}
    (ht : t ∈ s.failedLegs b) : s.cancellable t = false := by
  obtain ⟨x, hx, -, -, hstatus⟩ := dead_of_mem_failedLegs ht
  rw [cancellable, hx, Option.any_some]
  rcases hstatus with h | h | h <;> rw [h] <;> rfl

/-- **For an order that works, a failed leg is another's.** -/
theorem peerFailed_of_cancellable (hs : s.om.Orderly) {b : BatchId} {o t : OrderId}
    (ho : s.cancellable o = true) (ht : t ∈ s.failedLegs b) : s.peerFailed b o = true := by
  refine List.any_eq_true.mpr ⟨t, ht, ?_⟩
  rw [not_leadsTo_of_cancellable hs ho ?_]
  · rfl
  · rintro rfl
    rw [not_cancellable_of_mem_failedLegs ht] at ho
    cases ho

/-- A leg of the batch that still counts is on a list that is current. -/
theorem mem_chainTerminals {group : LegGroup} {b : BatchId}
    (hcurrent : s.listCurrent group b = true) {o : OrderId} (ho : o ∈ s.legsOf b)
    {x : OrderState} (hx : s.om.orders[o]? = some x) (hfree : x.supersededBy = none) :
    o ∈ s.chainTerminals group := by
  have := List.all_eq_true.mp hcurrent o ho
  simp only [hx, Option.any_some, hfree, Option.isSome_none, Bool.false_or,
    List.contains_iff_mem] at this
  refine List.mem_filter.mpr ⟨this, ?_⟩
  rw [hx, Option.any_some, hfree]
  rfl

/-- **Where no failed leg is found, none has failed.** -/
theorem failedLegs_eq_nil {group : LegGroup} {b : BatchId}
    (hcurrent : s.listCurrent group b = true) (hnone : s.failedLeg group = none) :
    s.failedLegs b = [] := by
  refine List.eq_nil_iff_forall_not_mem.mpr fun t ht => ?_
  obtain ⟨x, hx, hfree, hzero, hstatus⟩ := dead_of_mem_failedLegs ht
  have hmem := mem_chainTerminals hcurrent (List.mem_of_mem_filter ht) hx hfree
  have := List.find?_eq_none.mp hnone t hmem
  rw [hx, Option.any_some, hzero] at this
  rcases hstatus with h | h | h <;> rw [h] at this <;> exact this rfl

/-- The peers are listed where a failed leg is found. -/
theorem Coordinated.listed (hs : s.Coordinated) {group : LegGroup}
    {groups : List LegGroup} {openPositions : List Position}
    (hpc : s.pc = .legs (group :: groups) openPositions) (hclear : s.clearLegs = true)
    {b : BatchId} (hb : group.key = .batch b) {o : OrderId} (ho : o ∈ s.legsOf b)
    (hworks : s.cancellable o = true) :
    o ∈ (s.leg openPositions (group :: groups)).pc.peers ↔ s.peerFailed b o = true := by
  have hcurrent : s.listCurrent group b = true := by
    simp only [clearLegs, hpc, hb, Bool.and_eq_true] at hclear
    exact hclear.1
  obtain ⟨x, hx, hfree⟩ := free_of_cancellable hs.orderly hworks
  cases hfailed : s.failedLeg group with
  | none =>
    have hnil := failedLegs_eq_nil hcurrent hfailed
    simp [ExecutionRunner.leg, hfailed, at', RunnerPc.peers, peerFailed, hnil]
  | some failed =>
    have hmem := failedLegs_of_clear hs hpc hclear hb hfailed
    have hne : o ≠ failed := by
      rintro rfl
      rw [not_cancellable_of_mem_failedLegs hmem] at hworks
      cases hworks
    refine iff_of_true ?_ (peerFailed_of_cancellable hs.orderly hworks hmem)
    have hterminal := mem_chainTerminals hcurrent ho hx hfree
    simp [ExecutionRunner.leg, hfailed, at', RunnerPc.peers, hterminal, hne]

/-- A peer at its turn is hard-cancelled if it works. -/
theorem Coordinated.cancelled (hs : s.Coordinated) {failed o : OrderId}
    {peers : List OrderId} {group : LegGroup} {groups : List LegGroup}
    {openPositions : List Position}
    (hpc : s.pc = .legCancels failed (o :: peers) group groups openPositions)
    {b : BatchId} (hb : group.key = .batch b) :
    (s.legCancel failed group groups openPositions (o :: peers)).om.tasks
        = s.om.tasks ++ [.cancelStart o true .outside]
      ↔ s.cancellable o = true ∧ s.peerFailed b o = true := by
  have hmem : failed ∈ s.failedLegs b := hs.failed group failed (by rw [hpc]; rfl) b hb
  simp only [ExecutionRunner.legCancel]
  split_ifs with hworks
  · exact iff_of_true rfl ⟨hworks, peerFailed_of_cancellable hs.orderly hworks hmem⟩
  · refine iff_of_false (fun heq => ?_) fun hboth => hworks hboth.1
    exact List.cons_ne_nil _ _ (List.self_eq_append_right.mp heq)

/-- **A position is flagged for a failed leg that is not its own.** -/
theorem peerFailed_of_asymmetric {failed : OrderId} {group : LegGroup} {b : BatchId}
    (hb : group.key = .batch b) (hmem : failed ∈ s.failedLegs b) {pos : Position}
    (h : s.asymmetric group failed pos = true) :
    s.peerFailed b pos.entryOrderId = true
      ∧ (s.enteredBy b pos = true ∨ s.om.orders[pos.entryOrderId]? = none) := by
  obtain ⟨-, hpeer⟩ := Bool.and_eq_true_iff.mp h
  cases hentry : s.om.orders[pos.entryOrderId]? with
  | none =>
    refine ⟨List.any_eq_true.mpr ⟨failed, hmem, ?_⟩, .inr rfl⟩
    rw [leadsTo, ownChain_of_end (by rw [hentry]; rfl)]
    obtain ⟨x, hx, -⟩ := dead_of_mem_failedLegs hmem
    have hne : failed ≠ pos.entryOrderId := by
      rintro rfl
      rw [hentry] at hx
      cases hx
    simp [hne]
  | some x =>
    simp only [hentry, hb, Bool.and_eq_true, decide_eq_true_eq] at hpeer
    obtain ⟨hkey, hother⟩ := hpeer
    refine ⟨List.any_eq_true.mpr ⟨failed, hmem, ?_⟩, .inl ?_⟩
    · rw [leadsTo, decide_eq_false hother]
      rfl
    · rw [enteredBy, hentry, Option.any_some, decide_eq_true_iff]
      exact entryBatch_of_batchKey hkey

/-- A position that the batch entered is flagged if another leg has failed,
unless the coordination is misled. -/
theorem asymmetric_of_clear {failed : OrderId} {group : LegGroup} {groups : List LegGroup}
    {openPositions : List Position}
    (hpc : s.pc = .legCancels failed [] group groups openPositions)
    (hclear : s.clearLegs = true) {b : BatchId} (hb : group.key = .batch b) {pos : Position}
    (hpos : pos ∈ openPositions) (hentered : s.enteredBy b pos = true)
    (hpeer : s.peerFailed b pos.entryOrderId = true) :
    s.asymmetric group failed pos = true := by
  simp only [clearLegs, hpc, hb, List.all_eq_true] at hclear
  have hpos := hclear pos hpos
  simp only [hentered, hpeer, Bool.not_true, Bool.false_or, Bool.and_true, Bool.and_eq_true,
    decide_eq_true_eq, Bool.not_eq_true', leadsTo, decide_eq_false_iff_not] at hpos
  obtain ⟨x, hx, hbatch⟩ := (Option.any_eq_true _ _).mp hentered
  have hkey : batchKey x = group.key := by
    rw [batchKey, of_decide_eq_true hbatch, hb]
  simp [asymmetric, hpos.1, hx, hkey, hpos.2]

/-- **A step coordinates the legs exactly**, unless it is misled. -/
theorem Coordinated.exactLegs (hs : s.Coordinated) (h : s.step env l = some s')
    (hclear : s.clearLegs = true) : ExactLegs s s' where
  listed group groups openPositions b hpc hb o ho hworks := by
    obtain rfl := eq_of_managing h hpc rfl rfl
    exact hs.listed hpc hclear hb ho hworks
  cancelled failed o peers group groups openPositions b hpc hb := by
    obtain rfl := eq_of_managing h hpc rfl rfl
    exact hs.cancelled hpc hb
  passed group groups openPositions b hpc hb hnone pos hpos hentered := by
    obtain rfl := eq_of_managing h hpc rfl rfl
    -- with a current list a group without a failed leg has no failed peer
    have hcurrent : s.listCurrent group b = true := by
      simp only [clearLegs, hpc, hb, Bool.and_eq_true] at hclear
      exact hclear.1
    cases hfailed : s.failedLeg group with
    | none => rw [peerFailed, failedLegs_eq_nil hcurrent hfailed, List.any_nil]
    | some failed => simp [ExecutionRunner.leg, hfailed, at', RunnerPc.found] at hnone
  flagged failed group groups openPositions b hpc hb pos hpos hentered hpeer := by
    obtain rfl := eq_of_managing h hpc rfl rfl
    refine List.mem_union_iff.mpr (.inr (List.mem_map_of_mem (List.mem_filter.mpr ⟨hpos, ?_⟩)))
    exact asymmetric_of_clear hpc hclear hb hpos hentered hpeer
  spared failed group groups openPositions b hpc hb p hp := by
    obtain rfl := eq_of_managing h hpc rfl rfl
    refine (List.mem_union_iff.mp hp).imp_right fun hmem => ?_
    obtain ⟨pos, hpos, rfl⟩ := List.mem_map.mp hmem
    obtain ⟨hpos, hasymmetric⟩ := List.mem_filter.mp hpos
    have hmem : failed ∈ s.failedLegs b := hs.failed group failed (by rw [hpc]; rfl) b hb
    exact ⟨pos, hpos, rfl, peerFailed_of_asymmetric hb hmem hasymmetric⟩

/-- **In a run in which the coordination is never misled the legs of every
batch are coordinated exactly.** -/
theorem exactLegs_of_clearLegs (env : RunnerEnv) (start : Startup) (ls : List Label) :
    (machine env).Along (fun s _ _ => s.clearLegs = true) (initial start) ls →
      (machine env).Along (fun s _ s' => ExactLegs s s') (initial start) ls :=
  Machine.along_of_step (J := Coordinated) (fun _ _ _ hs h hC => hs.step h hC)
    (fun _ _ _ hs h hC => hs.exactLegs h hC) (coordinated_initial start)

end ExecutionRunner

/-! ## Two legs -/

/-- The batch whose turn it is. -/
def RunnerPc.turn : RunnerPc → Option BatchKey
  | legs (group :: _) _ => some group.key
  | _ => none

theorem RunnerPc.exists_of_turn {pc : RunnerPc} {k : BatchKey} (h : pc.turn = some k) :
    ∃ group groups openPositions, pc = .legs (group :: groups) openPositions
      ∧ group.key = k := by
  cases pc with
  | legs groups openPositions =>
    cases groups with
    | nil => cases h
    | cons group groups => exact ⟨group, groups, openPositions, rfl, Option.some.inj h⟩
  | _ => cases h

namespace ExecutionRunner

/-- The first tick submits two legs, gets the broker's answers, and sleeps. -/
def pairTick (first : List Label) : List Label :=
  tickStart [] ++ [.run, .run, .orders .go, .run, .run, .run, .run]
    ++ [ .reply (.tradedToday []), .run, .reply (.signals [sampleSignal, sampleSignal]),
      .reply .raised, .reply .raised, .run ]
    ++ first ++ [.run, .run, .run, .run, .reply .done, .run]

/-- The second tick, up to the turn of the batch. -/
def pairTurn : List Label :=
  [.run] ++ tickStart [] ++ [.run, .run]
    ++ [.orders .go, .orders .go, .orders .go, .run, .run, .run, .run, .run]

/-- The broker refuses the first leg; a part of the second is filled. -/
def refusedLeg : List Label :=
  pairTick [ .orders (.resume 1 (.raised "")), .run, .run,
      .orders (.resume 2 (.placed 1 .submitted)) ]
    ++ [.fill { sampleFill .buy 1 Nat.one_pos with brokerOrderId := some 1 }]
    ++ [.orders (.advance 1)] ++ pairTurn
    ++ [ .run, .run, .orders .go, .orders (.resume 5 (.cancelled true)), .run, .run ]

/-- The second leg is hard-cancelled, and its position flagged. -/
theorem exactLegs_refusedLeg :
    (machine sampleEnv).Along (fun s _ s' => ExactLegs s s') (initial sampleStartup)
      refusedLeg :=
  exactLegs_of_clearLegs sampleEnv sampleStartup refusedLeg (by decide +kernel)

/-- The first leg is being repriced when the turn of the batch comes. -/
def turnWhileRepricing : List Label :=
  pairTick [ .orders (.resume 1 (.placed 0 .submitted)), .run, .run,
      .orders (.resume 3 (.placed 1 .submitted)) ]
    ++ repricing ++ pairTurn

/-- **A leg in the middle of a routine cancel and replace costs its peer.** -/
theorem not_exactLegs :
    ¬ ∀ env start ls, (machine env).Along (fun s _ s' => ExactLegs s s')
      (initial start) ls := by
  intro h
  have hrun : ((machine sampleEnv).run (initial sampleStartup) turnWhileRepricing).map
      (fun s => (s.pc.turn, (s.legsOf 0).contains 1, s.cancellable 1, s.peerFailed 0 1))
        = some (some (.batch 0), true, true, false) := by
    decide +kernel
  have hlast : ((machine sampleEnv).run (initial sampleStartup)
      (turnWhileRepricing ++ [.run])).map (·.pc.peers) = some [1] := by
    decide +kernel
  obtain ⟨s, hs, hstate⟩ := Option.map_eq_some_iff.mp hrun
  obtain ⟨s', hs', hpeers⟩ := Option.map_eq_some_iff.mp hlast
  simp only [Prod.mk.injEq] at hstate
  obtain ⟨hturn, hleg, hworks, hnone⟩ := hstate
  obtain ⟨group, groups, openPositions, hpc, hkey⟩ := RunnerPc.exists_of_turn hturn
  obtain ⟨t, ht, hstep⟩ := Machine.run_snoc.mp hs'
  obtain rfl := Option.some.inj (ht.symm.trans hs)
  have hexact := Machine.along_step
    (h sampleEnv sampleStartup (turnWhileRepricing ++ [.run])) ht hstep
  have hlisted := (hexact.listed group groups openPositions 0 hpc hkey 1
    (List.contains_iff_mem.mp hleg) hworks).mp (by rw [hpeers]; exact List.mem_singleton_self 1)
  rw [hnone] at hlisted
  cases hlisted

end ExecutionRunner
