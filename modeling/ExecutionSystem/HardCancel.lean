import ExecutionSystem.ReplacementChain

/-!
# A hard cancel is final

`cancel_order` with `hard_cancel=True` marks the order before it looks at
anything else, its status included, and the mark is never taken off again.
Between its checks of the mark a repricer waits in many places – in its
sleep, for a quote, for an amendment, for its own cancel, for the
acknowledgement –, and the mark may be set at any of them; but the one
place that creates a successor is the look at the acknowledgement, and that
looks at the mark in the same stretch of code. So an order that has no
successor when it is hard-cancelled never gets one
(`OrderManager.unsuperseded_of_hardCancel`).
-/

namespace OrderState

variable (hard : Bool) (now : Time) (x : OrderState)

theorem cancelRequested_hardCancel : (x.cancelRequested true now).hardCancel = true := by
  rw [cancelRequested_eq]
  rfl

theorem cancelRequested_supersededBy :
    (x.cancelRequested hard now).supersededBy = x.supersededBy := by
  rw [cancelRequested_eq]

end OrderState

namespace OrderManager

variable {om om' : OrderManager} {l : Label} {o : OrderId} {x : OrderState}

/-- **`cancel_order(o, hard_cancel=True)` is called**: the coroutine that
runs stands at its head. That is so when someone calls it from outside, when
the task that a partial fill left behind starts, and when a repricer gives
up. -/
def HardCancelling (om : OrderManager) (o : OrderId) : Prop :=
  ∃ t k, om.running = some t ∧ om.tasks[t]? = some (.cancelStart o true k)

/-- A call from outside is one. -/
theorem hardCancelling_of_cancel (h : om.step (.cancel o true) = some om') :
    om'.HardCancelling o ∧ om'.orders = om.orders := by
  simp only [step, Option.ite_none_right_eq_some, Option.some.injEq] at h
  obtain ⟨-, rfl⟩ := h
  exact ⟨⟨om.tasks.length, .outside, rfl, List.getElem?_append_new _ rfl⟩, rfl⟩

/-- **The order is marked, and has no successor**: none of the calls of
`place_order` beyond the first `n` is for one. -/
structure Finished (om : OrderManager) (o : OrderId) (n : ℕ) : Prop where
  marked : ∃ x, om.orders[o]? = some x ∧ x.hardCancel = true ∧ x.supersededBy = none
  unreplaced : ∀ call ∈ om.placeCalls.drop n, call.supersedes ≠ some o
  length_le : n ≤ om.placeCalls.length

/-- The mark is never taken off. -/
theorem Touch.hardCancel {y : OrderState} (h : Touch om l o x y) (hx : x.hardCancel = true) :
    y.hardCancel = true := by
  cases h with
  | kept | superseded => exact hx
  | reported =>
    unfold OrderState.brokerUpdated
    split_ifs <;> exact hx
  | wrote ht hw hrun =>
    cases hw with
    | cancelRequested =>
      rw [OrderState.cancelRequested_eq, hx]
      exact Bool.or_true _
    | _ => exact hx

/-- A marked order is not replaced. -/
theorem not_replacing_of_marked (hx : om.orders[o]? = some x) (hmark : x.hardCancel = true)
    {y : OrderState} {p : Price} : om.replacing l ≠ some (o, y, p) := by
  intro hr
  obtain ⟨-, t, c, r, -, -, -, -, hy, hrep, -⟩ := replacing_eq_some.mp hr
  obtain rfl := Option.some.inj (hx.symm.trans hy)
  rw [replaceable, hmark] at hrep
  simp at hrep

/-- What a step adds to the calls of `place_order`: for a successor of `o`
only where `o` is replaced. -/
theorem Effect.supersedes (he : Effect om l om')
    (hr : ∀ x p, om.replacing l ≠ some (o, x, p)) :
    ∃ calls, om'.placeCalls = om.placeCalls ++ calls
      ∧ ∀ call ∈ calls, call.supersedes ≠ some o := by
  cases he with
  | idle h | called _ _ h | moved _ _ _ _ _ h | wrote _ _ _ _ _ _ _ _ _ h
  | chased _ _ _ _ _ _ _ h | reported _ _ _ _ _ _ h =>
    exact ⟨[], by rw [h.placeCalls, List.append_nil], fun _ h => by cases h⟩
  | submitted _ _ _ _ _ _ _ _ _ _ h =>
    refine ⟨_, h.placeCalls, fun call hcall => ?_⟩
    rw [List.mem_singleton.mp hcall]
    exact nofun
  | replaced t c r p x q hp hl hrun ht hc hx hrep h =>
    refine ⟨_, h.placeCalls, fun call hcall hsup => ?_⟩
    rw [List.mem_singleton.mp hcall] at hsup
    obtain rfl := Option.some.inj hsup
    exact hr x p (replacing_eq_some.mpr ⟨hl, t, c, r, hrun, ht, hc, rfl, hx, hrep, hp⟩)

/-- **A marked order without a successor stays one.** -/
theorem Finished.step {n : ℕ} (h : om.Finished o n) (hstep : om.step l = some om') :
    om'.Finished o n := by
  obtain ⟨x, hx, hmark, hfree⟩ := h.marked
  have he := step_effect hstep
  have hr : ∀ y p, om.replacing l ≠ some (o, y, p) := fun _ _ =>
    not_replacing_of_marked hx hmark
  obtain ⟨y, hy, htouch⟩ := he.touch hx
  obtain ⟨calls, hcalls, hnone⟩ := he.supersedes hr
  refine ⟨⟨y, hy, htouch.hardCancel hmark, ?_⟩, fun call hcall => ?_, ?_⟩
  · rcases htouch.supersededBy with hsame | ⟨-, p, hrep⟩
    · exact hsame.trans hfree
    · exact absurd hrep (hr x p)
  · rw [hcalls, List.drop_append_of_le_length h.length_le] at hcall
    exact (List.mem_append.mp hcall).elim (h.unreplaced call) (hnone call)
  · rw [hcalls, List.length_append]
    exact h.length_le.trans (Nat.le_add_right _ _)

/-- **The step after the call marks the order**, whatever its status; no
other step is possible then. -/
theorem HardCancelling.step (h : om.HardCancelling o) (hx : om.orders[o]? = some x)
    (hfree : x.supersededBy = none) (hstep : om.step l = some om') :
    om'.Finished o om.placeCalls.length := by
  obtain ⟨t, k, hrun, ht⟩ := h
  cases l with
  | go =>
    simp only [OrderManager.step, hrun, ht, Option.bind_some, block, Option.some.injEq] at hstep
    have hwrite : om'.orders = om.orders.modify o (.cancelRequested true om.clock)
        ∧ om'.placeCalls = om.placeCalls := by
      rw [← hstep, cancelOrder, hx]
      dsimp only
      split_ifs
      · exact ⟨by simp, by simp⟩
      · cases x.brokerOrderId <;> exact ⟨by simp, by simp⟩
    obtain ⟨horders, hcalls⟩ := hwrite
    refine ⟨⟨x.cancelRequested true om.clock, ?_, ?_, ?_⟩, ?_, ?_⟩
    · rw [horders, List.getElem?_modify_eq, hx]
      rfl
    · exact x.cancelRequested_hardCancel om.clock
    · rw [x.cancelRequested_supersededBy]
      exact hfree
    · rw [hcalls, List.drop_length]
      exact fun _ h => by cases h
    · rw [hcalls]
  | _ => simp [OrderManager.step, hrun] at hstep

/-- **No replacement is ever created for an order that was hard-cancelled
before it had one**: from the moment of the call on, its `superseded_by`
stays `None`, and no call of `place_order` is for its successor. -/
theorem unsuperseded_of_hardCancel {ls : List Label} (h : om.HardCancelling o)
    (hx : om.orders[o]? = some x) (hfree : x.supersededBy = none)
    (hrun : machine.run om ls = some om') :
    (∃ y, om'.orders[o]? = some y ∧ y.supersededBy = none)
      ∧ ∀ call ∈ om'.placeCalls.drop om.placeCalls.length, call.supersedes ≠ some o := by
  cases ls with
  | nil =>
    obtain rfl := Option.some.inj hrun
    rw [List.drop_length]
    exact ⟨⟨x, hx, hfree⟩, fun _ h => by cases h⟩
  | cons l ls =>
    obtain ⟨om₁, hfirst, hrest⟩ := Option.bind_eq_some_iff.mp hrun
    have hfin := Machine.run_invariant'
      (J := fun om' => om'.Finished o om.placeCalls.length)
      (fun _ _ _ hs h => hs.step h) (h.step hx hfree hfirst) hrest
    obtain ⟨y, hy, -, hyfree⟩ := hfin.marked
    exact ⟨⟨y, hy, hyfree⟩, hfin.unreplaced⟩

/-- A repricer waits for the acknowledgement of its cancel when the order is
hard-cancelled … -/
def abandonedRun : List Label :=
  [ .submit (sampleIntent none true .buy) sampleDecision false (some { enabled := true }) none,
    .resume 0 (.placed 7 .submitted), .wake 1, .go, .advance 5, .wake 1, .go,
    .resume 1 (.quote (some
      { bid := some 1, ask := some 2, timestamp := 0, bid_le_ask := by decide })),
    .go, .go, .resume 1 (.cancelled true), .go, .cancel 0 true ]

/-- … and then the acknowledgement comes, and the repricer looks at it. -/
def acknowledgedRun : List Label :=
  [.go, .callback ⟨7, .cancelled, 0, none⟩, .advance 1, .wake 1, .go]

theorem abandonedRun_eq :
    (machine.run initial abandonedRun).map (fun om =>
      (om.running, om.tasks[2]?, om.orders[0]?.map (·.supersededBy)))
      = some (some 2, some (.cancelStart 0 true .outside), some none) := by
  decide +kernel

theorem acknowledgedRun_eq :
    (machine.run initial (abandonedRun ++ acknowledgedRun)).map (fun om =>
      (om.tasks[1]?, om.orders.length)) = some (some (.done true), 1) := by
  decide +kernel

/-- `unsuperseded_of_hardCancel` on that run. -/
theorem unsuperseded_of_hardCancel_abandoned :
    ∃ om om', machine.run initial abandonedRun = some om
      ∧ machine.run om acknowledgedRun = some om'
      ∧ ∃ y, om'.orders[0]? = some y ∧ y.supersededBy = none := by
  obtain ⟨om, hom, hstate⟩ := Option.map_eq_some_iff.mp abandonedRun_eq
  obtain ⟨hrunning, hstate⟩ := Prod.mk.inj hstate
  obtain ⟨htask, horder⟩ := Prod.mk.inj hstate
  obtain ⟨x, hx, hfree⟩ := Option.map_eq_some_iff.mp horder
  obtain ⟨om', hom', -⟩ := Option.map_eq_some_iff.mp acknowledgedRun_eq
  obtain ⟨om₁, hom₁, hrest⟩ := Machine.run_append_some.mp hom'
  obtain rfl := Option.some.inj (hom₁.symm.trans hom)
  exact ⟨om₁, om', hom, hrest,
    (unsuperseded_of_hardCancel ⟨2, .outside, hrunning, htask⟩ hx hfree hrest).1⟩

end OrderManager
