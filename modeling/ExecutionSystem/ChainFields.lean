import ExecutionSystem.LegCoordination
import Mathlib.Logic.Relation

/-!
# What a replacement carries over

The orders of a replacement chain are attempts at one thing, and whoever
follows `superseded_by` – the coordination of the legs, the slippage, the
correlation of a batch – relies on every attempt being for the same thing:
the same position, strategy, contract and side, under the same reference,
batch and algorithm, with the limit that was submitted first. What an order
is for is written once, when it is created (`OrderManager.Touch.purpose`);
the plan of a replacement repeats it, and of the two tags that the source
carries over only where they are set – the first limit and the algorithm –
the one always is and the other is never empty (`OrderManager.Tagged`).

With the links leading to later orders and never meeting, this makes the
chains what their readers take them for (`OrderManager.WellFormedChains`);
the walk along them, which has no visited set, ends
(`ExecutionRunner.walkChain_eq`).
-/

/-- **What an order is for**: what the orders of a chain have in common. -/
def OrderState.purpose (x : OrderState) :
    (Option PositionId × Bool × StrategyId × OptionContract × OrderSide)
      × Option OrderRef × Option Price × Option BatchId × Option String :=
  ((x.positionId, x.isEntry, x.strategyId, x.contract, x.side),
    x.orderRef, x.firstLimitPrice, x.entryBatch, x.algo)

/-! ## The walk -/

namespace ExecutionRunner

/-- **The walk along `superseded_by`**, as the loop of the source makes it:
with no visited set, and here with a bound on its turns that it may run
into. -/
def walkChain (orders : List OrderState) : ℕ → OrderId → Option (List OrderId)
  | 0, _ => none
  | fuel + 1, o =>
    match orders[o]?.bind (·.supersededBy) with
    | none => some [o]
    | some n => (walkChain orders fuel n).map (o :: ·)

/-- **The walk ends**, and its result is the chain of the order. -/
theorem walkChain_eq {om : OrderManager} (h : om.Forward) {fuel : ℕ} {o : OrderId}
    (hfuel : om.orders.length ≤ o + fuel) :
    walkChain om.orders (fuel + 1) o = some (ownChain om.orders fuel o) := by
  induction fuel generalizing o with
  | zero =>
    have hnone : om.orders[o]? = none := List.getElem?_eq_none_iff.mpr hfuel
    unfold walkChain
    rw [hnone]
    rfl
  | succ fuel ih =>
    unfold walkChain ownChain
    cases hlink : om.orders[o]?.bind (·.supersededBy) with
    | none => rfl
    | some n =>
      obtain ⟨x, hx, hn⟩ := Option.bind_eq_some_iff.mp hlink
      have hnext : om.orders.length ≤ n + fuel :=
        calc om.orders.length ≤ o + (fuel + 1) := hfuel
          _ = o + 1 + fuel := (Nat.add_right_comm o 1 fuel).symm
          _ ≤ n + fuel := Nat.add_le_add_right (h o x n hx hn) fuel
      show (walkChain om.orders (fuel + 1) n).map (o :: ·) = some (o :: ownChain om.orders fuel n)
      rw [ih hnext, Option.map_some]

end ExecutionRunner

namespace OrderManager

variable {om om' : OrderManager} {l : Label}

/-! ## The fields -/

/-- What an order is for never changes. -/
theorem Touch.purpose {o : OrderId} {x y : OrderState} (h : Touch om l o x y) :
    y.purpose = x.purpose := by
  cases h with
  | kept | superseded => rfl
  | reported =>
    unfold OrderState.brokerUpdated
    split_ifs <;> rfl
  | wrote ht hw _ =>
    cases hw with
    | cancelRequested =>
      rw [OrderState.cancelRequested_eq]
      rfl
    | _ => rfl

/-- **Every order knows the limit that was submitted first**, and the name
of its algorithm, if it has one, is not empty. -/
def Tagged (om : OrderManager) : Prop :=
  ∀ (o : OrderId) (x : OrderState), om.orders[o]? = some x →
    x.firstLimitPrice.isSome = true ∧ x.algo ≠ some ""

theorem Tagged.step (h : om.Tagged) (hstep : om.step l = some om') : om'.Tagged := by
  intro o y hy
  rcases (step_effect hstep).lookup hy with ⟨x, hx, htouch⟩ | ⟨-, hnew⟩
  · have hpurpose := htouch.purpose
    simp only [OrderState.purpose, Prod.mk.injEq] at hpurpose
    obtain ⟨-, -, hfirst, -, halgo⟩ := hpurpose
    rw [hfirst, halgo]
    exact h o x hx
  · have hfilter : ∀ algo : Option String, algo.filter (fun a => a ≠ "") ≠ some "" := by
      intro algo heq
      have := (Option.filter_eq_some_iff.mp heq).2
      simp at this
    cases hnew with
    | submitted => exact ⟨rfl, hfilter _⟩
    | replaced => exact ⟨rfl, hfilter _⟩

/-- **A replacement is for what the order was for.** -/
theorem replacementOf_purpose {x : OrderState} {q : ℕ} {hq : 0 < q} {p : Price} {hp : 0 < p}
    {now : Time} (hfirst : x.firstLimitPrice.isSome = true) (halgo : x.algo ≠ some "") :
    (replacementOf x (replacementPlan x q hq p hp) now).purpose = x.purpose := by
  have hlimit : some (x.firstLimitPrice.getD x.limitPrice) = x.firstLimitPrice := by
    cases h : x.firstLimitPrice with
    | none => rw [h] at hfirst; cases hfirst
    | some first => rfl
  have htag : x.algo.filter (fun a => a ≠ "") = x.algo := by
    cases h : x.algo with
    | none => rfl
    | some algo =>
      refine Option.filter_some_pos ?_
      rw [decide_eq_true_iff]
      rintro rfl
      exact halgo h
  show ((x.positionId, x.isEntry, x.strategyId, x.contract, x.side), x.orderRef,
    some (x.firstLimitPrice.getD x.limitPrice), x.entryBatch,
    x.algo.filter (fun a => a ≠ "")) = x.purpose
  rw [hlimit, htag]
  rfl

/-! ## The links -/

/-- `superseded_by`, as a relation. -/
def Link (om : OrderManager) (o n : OrderId) : Prop :=
  om.orders[o]?.bind (·.supersededBy) = some n

theorem link_iff {o n : OrderId} :
    om.Link o n ↔ ∃ x, om.orders[o]? = some x ∧ x.supersededBy = some n :=
  Option.bind_eq_some_iff

/-- A link after a step is one from before it, or leads to the order the
step creates in place of the one it replaces. -/
theorem Effect.link (he : Effect om l om') {o n : OrderId} (h : om'.Link o n) :
    om.Link o n ∨ n = om.orders.length ∧ ∃ x p, om.replacing l = some (o, x, p) := by
  obtain ⟨y, hy, hn⟩ := link_iff.mp h
  rcases he.lookup hy with ⟨x, hx, htouch⟩ | ⟨-, hnew⟩
  · rcases htouch.supersededBy with hsame | ⟨rfl, p, hr⟩
    · exact .inl (link_iff.mpr ⟨x, hx, hsame ▸ hn⟩)
    · exact .inr ⟨(Option.some.inj hn).symm, x, p, hr⟩
  · rw [hnew.supersededBy] at hn
    cases hn

/-- **No two links meet.** -/
def Unforked (om : OrderManager) : Prop :=
  ∀ o o' n, om.Link o n → om.Link o' n → o = o'

theorem Unforked.step (h : om.Unforked) (hlinked : om.Linked)
    (hstep : om.step l = some om') : om'.Unforked := by
  have he := step_effect hstep
  have hold : ∀ {o n}, om.Link o n → n < om.orders.length := by
    intro o n hlink
    obtain ⟨x, hx, hn⟩ := link_iff.mp hlink
    obtain ⟨-, y, hy, -⟩ := hlinked o x n hx hn
    exact (List.getElem?_eq_some_iff.mp hy).1
  intro o o' n ho ho'
  rcases he.link ho with hlink | ⟨rfl, x, p, hr⟩ <;>
    rcases he.link ho' with hlink' | ⟨hn, x', p', hr'⟩
  · exact h o o' n hlink hlink'
  · exact absurd (hold hlink) (hn ▸ lt_irrefl _)
  · exact absurd (hold hlink') (lt_irrefl _)
  · exact (Prod.mk.inj (Option.some.inj (hr.symm.trans hr'))).1

/-- **Linked orders are for the same thing.** -/
def Repeated (om : OrderManager) : Prop :=
  ∀ (o n : OrderId) (x y : OrderState), om.orders[o]? = some x → x.supersededBy = some n →
    om.orders[n]? = some y → y.purpose = x.purpose

theorem Repeated.step (h : om.Repeated) (hlinked : om.Linked) (htagged : om.Tagged)
    (hstep : om.step l = some om') : om'.Repeated := by
  have he := step_effect hstep
  intro o n y z hy hn hz
  rcases he.lookup hy with ⟨x, hx, htouch⟩ | ⟨-, hnew⟩
  · rcases htouch.supersededBy with hsame | ⟨rfl, p, hr⟩
    · rw [hsame] at hn
      obtain ⟨-, w, hw, -⟩ := hlinked o x n hx hn
      obtain ⟨z', hz', htouch'⟩ := he.touch hw
      obtain rfl := Option.some.inj (hz'.symm.trans hz)
      rw [htouch'.purpose, htouch.purpose]
      exact h o n x w hx hn hw
    · obtain rfl := Option.some.inj hn
      obtain ⟨t, c, r, q, hp, -, -, -, hh⟩ := step_replacing hstep hr
      have hnew : om'.orders[om.orders.length]?
          = some (replacementOf x (replacementPlan x _ q p hp) om.clock) := by
        rw [hh.orders]
        exact List.getElem?_append_new _ (List.length_modify ..)
      obtain rfl := Option.some.inj (hnew.symm.trans hz)
      obtain ⟨hfirst, halgo⟩ := htagged o x hx
      exact replacementOf_purpose hfirst halgo
  · rw [hnew.supersededBy] at hn
    cases hn

/-! ## Every reachable state -/

/-- **Replacement chains are well formed.** -/
structure WellFormedChains (om : OrderManager) : Prop where
  acyclic : ∀ o, ¬ Relation.TransGen om.Link o o
  onePredecessor : ∀ o o' n, om.Link o n → om.Link o' n → o = o'
  /-- A successor exists, asks for what its predecessor left, and is for the
  same thing. -/
  successor : ∀ (o n : OrderId) (x : OrderState), om.orders[o]? = some x →
    x.supersededBy = some n → ∃ y, om.orders[n]? = some y
      ∧ (y.quantity : ℤ) = x.quantity - x.filledQuantity ∧ 0 < y.quantity
      ∧ y.purpose = x.purpose
  /-- The walk from any order ends after as many turns as there are
  orders, at most. -/
  walk : ∀ o, ExecutionRunner.walkChain om.orders (om.orders.length + 1) o
    = some (ExecutionRunner.ownChain om.orders om.orders.length o)

/-- What is carried along a run for it. -/
structure Formed (om : OrderManager) : Prop where
  chained : om.Chained
  forward : om.Forward
  unforked : om.Unforked
  tagged : om.Tagged
  repeated : om.Repeated

theorem Formed.step (h : om.Formed) (hstep : om.step l = some om') : om'.Formed where
  chained := h.chained.step hstep
  forward := h.forward.step (step_effect hstep)
  unforked := h.unforked.step h.chained.linked hstep
  tagged := h.tagged.step hstep
  repeated := h.repeated.step h.chained.linked h.tagged hstep

theorem formed_initial : initial.Formed where
  chained := chained_initial
  forward := fun _ _ _ hx => by cases hx
  unforked := fun _ _ _ h => by cases h
  tagged := fun _ _ hx => by cases hx
  repeated := fun _ _ _ _ hx => by cases hx

/-- A walk of one link or more leads to a later order. -/
theorem Forward.lt_of_transGen (h : om.Forward) {o n : OrderId}
    (hwalk : Relation.TransGen om.Link o n) : o < n := by
  have hlink : ∀ {o n}, om.Link o n → o < n := by
    intro o n hlink
    obtain ⟨x, hx, hn⟩ := link_iff.mp hlink
    exact h o x n hx hn
  induction hwalk with
  | single hl => exact hlink hl
  | tail _ hl ih => exact ih.trans (hlink hl)

theorem Formed.wellFormedChains (h : om.Formed) : om.WellFormedChains where
  acyclic o hwalk := lt_irrefl o (h.forward.lt_of_transGen hwalk)
  onePredecessor := h.unforked
  successor := by
    intro o n x hx hn
    obtain ⟨-, y, hy, hsum⟩ := h.chained.linked o x n hx hn
    refine ⟨y, hy, ?_, y.quantity_pos, h.repeated o n x y hx hn hy⟩
    omega
  walk o := ExecutionRunner.walkChain_eq h.forward (Nat.le_add_left _ _)

/-- **Replacement chains are well formed in every reachable state.** -/
theorem wellFormedChains_of_run {ls : List Label} (h : machine.run initial ls = some om) :
    om.WellFormedChains :=
  (Machine.run_invariant' (fun _ _ _ hs h => hs.step h) formed_initial h : om.Formed)
    |>.wellFormedChains

/-- The sides of the quote that the replacement is priced from. -/
theorem quote_sides_le : ∀ b ∈ (some 1 : Option Price), ∀ a ∈ (some 2 : Option Price), b ≤ a := by
  rintro _ ⟨⟩ _ ⟨⟩
  decide

/-- An order for two is filled with one and replaced for the other one. -/
def replacedRun : List Label :=
  [ .submit (sampleIntent (some 0) false .buy) sampleDecision false
      (some { enabled := true }) (some "adaptive_urgent"),
    .resume 0 (.placed 7 .submitted), .wake 1, .go, .advance 5, .wake 1, .go,
    .resume 1 (.quote (some
      { bid := some 1, ask := some 2, timestamp := 0,
        bid_le_ask := quote_sides_le })),
    .go, .go, .resume 1 (.cancelled true), .go, .callback ⟨7, .cancelled, 1, none⟩,
    .advance 1, .wake 1, .go ]

theorem replacedRun_eq :
    (machine.run initial replacedRun).map (fun om =>
      (om.orders.map (·.supersededBy), om.orders.map (·.quantity)))
      = some ([some 1, none], [2, 1]) := by
  decide +kernel

/-- `wellFormedChains_of_run` after a replacement. -/
theorem wellFormedChains_of_run_replaced :
    ∃ om, machine.run initial replacedRun = some om ∧ om.Link 0 1 ∧ om.WellFormedChains := by
  obtain ⟨om, hom, hstate⟩ := Option.map_eq_some_iff.mp replacedRun_eq
  obtain ⟨hlinks, -⟩ := Prod.mk.inj hstate
  obtain ⟨x, hx, hn⟩ := lookup_of_map (y := some 1) 0 hlinks rfl
  exact ⟨om, hom, link_iff.mpr ⟨x, hx, hn⟩, wellFormedChains_of_run hom⟩

end OrderManager
