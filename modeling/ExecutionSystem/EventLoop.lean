import ExecutionSystem.OrderSteps

/-!
# Turns of the event loop

A coroutine runs alone from one `await` to the next, so a block of it moves
that coroutine and no other: what it spawns comes after all of them
(`OrderManager.Ends`). In particular a repricer that sleeps stays in its
sleep while the others take their turns, and leaves it only in a block of
its own (`OrderManager.step_sleeper`) – which the loop starts no sooner than
the sleep is over (`OrderManager.woken_step`).
-/

/-- The repricer is in the sleep at the head of its loop. -/
def Coroutine.sleeps : Coroutine → Bool
  | repricerSleep .. => true
  | _ => false

namespace OrderManager

/-- **How a block of the coroutine `t` ends**: it stands at its next place,
where it waits or goes on; the others stand where they stood. -/
inductive Ends (om : OrderManager) (t : TaskId) (om' : OrderManager) : Prop
  | waits (c : Coroutine) (spawned : List Coroutine)
      (htasks : om'.tasks = om.tasks.set t c ++ spawned) (hrunning : om'.running = none)
  | goesOn (c : Coroutine) (hc : c.sleeps = false)
      (htasks : om'.tasks = om.tasks.set t c) (hrunning : om'.running = some t)

variable {om om' : OrderManager} {t : TaskId} {c : Coroutine}

/-! ## The pieces -/

theorem ends_suspend : Ends om t (om.suspend t c) :=
  .waits c [] (List.append_nil _).symm rfl

theorem ends_sleep {r : Repricer} : Ends om t (om.sleep t r) := ends_suspend

theorem ends_goOn (hc : c.sleeps = false) : Ends om t (om.goOn t c) := .goesOn c hc rfl rfl

/-- What is written to an order has no part in it. -/
theorem Ends.of_update {o : OrderId} {f : OrderState → OrderState}
    (h : Ends (om.update o f) t om') : Ends om t om' := by
  cases h with
  | waits c spawned htasks hrunning => exact .waits c spawned htasks hrunning
  | goesOn c hc htasks hrunning => exact .goesOn c hc htasks hrunning

theorem ends_returnFromCancel {result : Bool} {k : CancelCaller} :
    Ends om t (om.returnFromCancel t result k) := by
  cases k with
  | outside | giveUp => exact ends_suspend
  | replace r p =>
    cases result with
    | true => exact ends_goOn rfl
    | false => exact ends_sleep

/-! ## The blocks -/

theorem ends_cancelOrder {o : OrderId} {hard : Bool} {k : CancelCaller} :
    Ends om t (om.cancelOrder t o hard k) := by
  unfold cancelOrder
  split
  · exact ends_returnFromCancel
  · dsimp only
    split_ifs
    · exact ends_returnFromCancel.of_update
    · split
      · exact ends_returnFromCancel.of_update
      · exact ends_suspend.of_update

theorem ends_sweepNext {now maxAge : Time} {os : List OrderId} :
    Ends om t (om.sweepNext t now maxAge os) := by
  cases os with
  | nil => exact ends_suspend
  | cons o rest =>
    simp only [sweepNext]
    split
    · exact ends_goOn rfl
    · split_ifs
      · exact ends_goOn rfl
      · split
        · exact ends_suspend
        · exact (ends_goOn rfl).of_update

theorem ends_repricerWoken {r : Repricer} : Ends om t (om.repricerWoken t r) := by
  unfold repricerWoken
  split
  · exact ends_suspend
  · split_ifs
    · exact ends_suspend
    · exact ends_goOn rfl
    · exact ends_suspend

theorem ends_repricerCancels {r : Repricer} {p : Price} :
    Ends om t (om.repricerCancels t r p) := by
  unfold repricerCancels
  split
  · exact ends_suspend
  · split_ifs
    · exact ends_suspend
    · exact ends_goOn rfl

theorem ends_pollChecked {r : Repricer} {p : Price} : Ends om t (om.pollChecked t r p) := by
  unfold pollChecked
  split
  · exact ends_suspend
  · dsimp only
    split_ifs
    · exact ends_suspend
    · exact ends_suspend
    · exact ends_suspend
    · exact .waits _ [] (List.append_nil _).symm rfl
    · exact ends_suspend
    · exact ends_suspend

/-- **A block moves the coroutine that runs.** -/
theorem block_ends (h : om.block t c = some om') : Ends om t om' := by
  cases c with
  | cancelStart => exact Option.some.inj h ▸ ends_cancelOrder
  | sweepLoop => exact Option.some.inj h ▸ ends_sweepNext
  | repricerStart => exact Option.some.inj h ▸ ends_sleep
  | repricerSleep => exact Option.some.inj h ▸ ends_repricerWoken
  | repricerCancel => exact Option.some.inj h ▸ ends_repricerCancels
  | pollCheck | pollSleep => exact Option.some.inj h ▸ ends_pollChecked
  | _ => cases h

/-! ## The answers -/

variable {reply : Reply}

theorem ends_placeReturned {o : OrderId} {reprice : Option RepriceConfig}
    (h : om.placeReturned t o reprice reply = some om') : Ends om t om' := by
  cases reply with
  | placed b status =>
    obtain rfl := Option.some.inj h
    cases reprice with
    | none => exact ends_suspend.of_update
    | some config => exact .waits (.done true) [.repricerStart o config] rfl rfl
  | raised message => exact Option.some.inj h ▸ ends_suspend.of_update
  | _ => cases h

theorem ends_cancelReturned {o : OrderId} {k : CancelCaller}
    (h : om.cancelReturned t o k reply = some om') : Ends om t om' := by
  cases reply with
  | cancelled accepted => exact Option.some.inj h ▸ ends_returnFromCancel
  | raised message => exact Option.some.inj h ▸ ends_returnFromCancel.of_update
  | _ => cases h

theorem ends_sweepQueried {now maxAge : Time} {o : OrderId} {rest : List OrderId}
    (h : om.sweepQueried t now maxAge o rest reply = some om') : Ends om t om' := by
  cases reply with
  | orderStatus status =>
    cases status with
    | none => exact Option.some.inj h ▸ (ends_goOn rfl).of_update
    | some status =>
      obtain rfl := Option.some.inj h
      split_ifs
      · exact (ends_goOn rfl).of_update
      · exact ends_suspend
  | raised message => exact Option.some.inj h ▸ ends_goOn rfl
  | _ => cases h

theorem ends_sweepRecancelled {now maxAge : Time} {o : OrderId} {rest : List OrderId}
    (h : om.sweepRecancelled t now maxAge o rest reply = some om') : Ends om t om' := by
  cases reply with
  | cancelled accepted => exact Option.some.inj h ▸ (ends_goOn rfl).of_update
  | raised message => exact Option.some.inj h ▸ ends_goOn rfl
  | _ => cases h

theorem ends_repricerQuoted {r : Repricer} (h : om.repricerQuoted t r reply = some om') :
    Ends om t om' := by
  cases reply with
  | quote q =>
    cases q with
    | none => exact Option.some.inj h ▸ ends_sleep
    | some q =>
      obtain rfl := Option.some.inj h
      dsimp only
      split
      · split_ifs
        · exact ends_sleep
        · exact ends_suspend
        · exact ends_suspend
        · exact ends_goOn rfl
      · exact ends_sleep
  | raised message => exact Option.some.inj h ▸ ends_sleep
  | _ => cases h

theorem ends_repricerModified {r : Repricer} {p : Price}
    (h : om.repricerModified t r p reply = some om') : Ends om t om' := by
  cases reply with
  | modified accepted =>
    cases accepted with
    | true => exact Option.some.inj h ▸ ends_sleep.of_update
    | false => exact Option.some.inj h ▸ ends_goOn rfl
  | raised message => exact Option.some.inj h ▸ ends_goOn rfl
  | _ => cases h

theorem ends_replaceReturned {r : Repricer} {n : OrderId}
    (h : om.replaceReturned t r n reply = some om') : Ends om t om' := by
  cases reply with
  | placed b status => exact Option.some.inj h ▸ ends_sleep.of_update
  | raised message => exact Option.some.inj h ▸ ends_suspend.of_update
  | _ => cases h

/-- **A call that returns moves the coroutine that awaited it.** -/
theorem resume_ends (h : om.resume t reply c = some om') : Ends om t om' := by
  cases c with
  | placeAwait => exact ends_placeReturned h
  | cancelAwait => exact ends_cancelReturned h
  | sweepQuery => exact ends_sweepQueried h
  | sweepRecancel => exact ends_sweepRecancelled h
  | quoteAwait => exact ends_repricerQuoted h
  | modifyAwait => exact ends_repricerModified h
  | replaceAwait => exact ends_replaceReturned h
  | _ => cases h

/-! ## What a turn leaves -/

/-- The others stand where they stood. -/
theorem Ends.task_ne {u : TaskId} {d : Coroutine} (h : Ends om t om') (hne : t ≠ u)
    (hu : om.tasks[u]? = some d) : om'.tasks[u]? = some d := by
  have hset (e : Coroutine) : (om.tasks.set t e)[u]? = some d := by
    rw [List.getElem?_set_ne hne, hu]
  cases h with
  | waits e spawned htasks hrunning =>
    rw [htasks, List.getElem?_append_left (List.getElem?_eq_some_iff.mp (hset e)).1, hset e]
  | goesOn e he htasks hrunning => rw [htasks, hset e]

/-- A callback only spawns. -/
theorem onBrokerOrderUpdate_frame (upd : BrokerUpdate) :
    (om.onBrokerOrderUpdate upd).running = om.running
      ∧ ∃ spawned, (om.onBrokerOrderUpdate upd).tasks = om.tasks ++ spawned := by
  have hnone : om.tasks = om.tasks ++ [] := (List.append_nil _).symm
  unfold onBrokerOrderUpdate
  split
  · exact ⟨rfl, [], hnone⟩
  · split
    · exact ⟨rfl, [], hnone⟩
    · dsimp only
      split_ifs
      · exact ⟨rfl, [], hnone⟩
      · exact ⟨rfl, _, rfl⟩
      · exact ⟨rfl, _, rfl⟩
      · exact ⟨rfl, [], hnone⟩
      · exact ⟨rfl, [], hnone⟩

/-- `submit_intent` only starts its own coroutine. -/
theorem submitIntent_frame {intent : OrderIntent} {decision : RiskDecision} {e : Bool}
    {reprice : Option RepriceConfig} {algo : Option String}
    (h : om.submitIntent intent decision e reprice algo = .ok om') :
    om'.running = om.running ∧ ∃ spawned, om'.tasks = om.tasks ++ spawned := by
  unfold submitIntent at h
  split_ifs at h
  · split at h <;> cases h
    exact ⟨rfl, _, rfl⟩
  · split at h <;> cases h

variable {l : Label}

/-- **A step is a turn of one coroutine, or it starts others** while none
runs, or wakes one. -/
theorem step_turn (h : om.step l = some om') :
    (l = .go ∧ ∃ t c, om.running = some t ∧ om.tasks[t]? = some c ∧ om.block t c = some om')
      ∨ (∃ t c reply, l = .resume t reply ∧ om.tasks[t]? = some c
        ∧ om.resume t reply c = some om')
      ∨ (∃ t, l = .wake t ∧ om.tasks[t]?.any (wakeable om.clock) = true
        ∧ om' = { om with running := some t })
      ∨ (∃ spawned, om'.tasks = om.tasks ++ spawned)
        ∧ ∀ t c, om'.running = some t → om'.tasks[t]? = some c → c.sleeps = false := by
  have hidle {om' : OrderManager} {t : TaskId} {c : Coroutine} (hnone : om.running = none)
      (hsame : om'.running = om.running) (hrun : om'.running = some t) : c.sleeps = false := by
    rw [hsame, hnone] at hrun
    cases hrun
  cases l with
  | go =>
    obtain ⟨t, hrun, h⟩ := Option.bind_eq_some_iff.mp h
    obtain ⟨c, hc, h⟩ := Option.bind_eq_some_iff.mp h
    exact .inl ⟨rfl, t, c, hrun, hc, h⟩
  | resume t reply =>
    obtain ⟨-, h⟩ := Option.ite_none_right_eq_some.mp h
    obtain ⟨c, hc, h⟩ := Option.bind_eq_some_iff.mp h
    exact .inr (.inl ⟨t, c, reply, rfl, hc, h⟩)
  | wake t =>
    obtain ⟨⟨-, hwakes⟩, h⟩ := Option.ite_none_right_eq_some.mp h
    exact .inr (.inr (.inl ⟨t, rfl, hwakes, (Option.some.inj h).symm⟩))
  | cancel | sweep =>
    obtain ⟨-, h⟩ := Option.ite_none_right_eq_some.mp h
    obtain rfl := Option.some.inj h
    refine .inr (.inr (.inr ⟨⟨_, rfl⟩, fun u c hrun hu => ?_⟩))
    obtain rfl := Option.some.inj hrun
    rw [call_tasks, List.getElem?_append_new _ rfl] at hu
    exact Option.some.inj hu ▸ rfl
  | advance d =>
    -- nothing runs while time passes, nor after it
    obtain ⟨⟨hnone, -⟩, h⟩ := Option.ite_none_right_eq_some.mp h
    obtain rfl := Option.some.inj h
    exact .inr (.inr (.inr ⟨⟨[], (List.append_nil _).symm⟩,
      fun _ _ hrun _ => hidle (Option.isNone_iff_eq_none.mp hnone) rfl hrun⟩))
  | submit intent decision e reprice algo =>
    obtain ⟨hnone, h⟩ := Option.ite_none_right_eq_some.mp h
    have hnone := Option.isNone_iff_eq_none.mp hnone
    obtain rfl := Option.some.inj h
    cases hsubmit : om.submitIntent intent decision e reprice algo with
    | error _ =>
      exact .inr (.inr (.inr ⟨⟨[], (List.append_nil _).symm⟩,
        fun _ _ hrun _ => hidle hnone rfl hrun⟩))
    | ok om' =>
      obtain ⟨hsame, hspawned⟩ := submitIntent_frame hsubmit
      exact .inr (.inr (.inr ⟨hspawned, fun _ _ hrun _ => hidle hnone hsame hrun⟩))
  | callback upd =>
    obtain ⟨hnone, h⟩ := Option.ite_none_right_eq_some.mp h
    obtain rfl := Option.some.inj h
    obtain ⟨hsame, hspawned⟩ := om.onBrokerOrderUpdate_frame upd
    exact .inr (.inr (.inr ⟨hspawned,
      fun _ _ hrun _ => hidle (Option.isNone_iff_eq_none.mp hnone) hsame hrun⟩))

/-! ## Repricers asleep -/

/-- A repricer that runs in its sleep has been woken: the sleep is over. -/
def Woken (om : OrderManager) : Prop :=
  ∀ (t : TaskId) (r : Repricer) (wakeAt : Time), om.running = some t →
    om.tasks[t]? = some (.repricerSleep r wakeAt) → wakeAt ≤ om.clock

theorem woken_of_idle (h : om.running = none) : om.Woken := by
  intro t r wakeAt hrun
  rw [h] at hrun
  cases hrun

/-- A coroutine that goes on is in no sleep. -/
theorem Ends.woken (h : Ends om t om') : om'.Woken := by
  cases h with
  | waits c spawned htasks hrunning => exact woken_of_idle hrunning
  | goesOn c hc htasks hrunning =>
    intro u r wakeAt hrun hu
    obtain rfl := Option.some.inj (hrunning.symm.trans hrun)
    obtain ⟨hlt, hu⟩ := List.getElem?_eq_some_iff.mp hu
    simp only [htasks, List.getElem_set_self] at hu
    rw [hu] at hc
    cases hc

/-- **The loop wakes a repricer only when its sleep is over.** -/
theorem woken_step (h : om.step l = some om') : om'.Woken := by
  rcases step_turn h with ⟨-, t, c, -, -, h⟩ | ⟨t, c, reply, -, -, h⟩ | ⟨t, -, hwakes, rfl⟩
    | ⟨-, hrunning⟩
  · exact (block_ends h).woken
  · exact (resume_ends h).woken
  · intro u r wakeAt hrun hu
    obtain rfl := Option.some.inj hrun
    simpa [show om.tasks[t]? = _ from hu, wakeable] using hwakes
  · intro t r wakeAt hrun ht
    cases hrunning t _ hrun ht

/-- **A coroutine moves in a block of its own**, or when the call it awaits
returns. -/
theorem step_own (h : om.step l = some om') {u : TaskId} {d : Coroutine}
    (hu : om.tasks[u]? = some d) :
    om'.tasks[u]? = some d
      ∨ om.running = some u ∧ om.block u d = some om'
      ∨ ∃ reply, l = .resume u reply ∧ om.resume u reply d = some om' := by
  rcases step_turn h with ⟨-, t, c, hrun, ht, h⟩ | ⟨t, c, reply, hl, ht, h⟩ | ⟨t, -, -, rfl⟩
    | ⟨⟨spawned, htasks⟩, -⟩
  · by_cases hut : t = u
    · subst hut
      obtain rfl := Option.some.inj (ht.symm.trans hu)
      exact .inr (.inl ⟨hrun, h⟩)
    · exact .inl ((block_ends h).task_ne hut hu)
  · by_cases hut : t = u
    · subst hut
      obtain rfl := Option.some.inj (ht.symm.trans hu)
      exact .inr (.inr ⟨reply, hl, h⟩)
    · exact .inl ((resume_ends h).task_ne hut hu)
  · exact .inl hu
  · left
    rw [htasks, List.getElem?_append_left (List.getElem?_eq_some_iff.mp hu).1, hu]

/-- **A repricer leaves its sleep in a block of its own.** -/
theorem step_sleeper (h : om.step l = some om') {u : TaskId} {r : Repricer} {wakeAt : Time}
    (hu : om.tasks[u]? = some (.repricerSleep r wakeAt)) :
    om'.tasks[u]? = some (.repricerSleep r wakeAt)
      ∨ om.running = some u ∧ om' = om.repricerWoken u r := by
  rcases step_own h hu with hsame | ⟨hrun, hblock⟩ | ⟨reply, -, hresume⟩
  · exact .inl hsame
  · exact .inr ⟨hrun, (Option.some.inj hblock).symm⟩
  · cases hresume

end OrderManager
