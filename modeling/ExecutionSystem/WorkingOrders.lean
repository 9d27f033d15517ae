import ExecutionSystem.BrokerSession

/-!
# Orders believed dead

An order in `CANCELLED`, `REJECTED` or `ERROR` is not watched any more, so
nothing that was placed for it should still be working at the broker. The
order manager concludes that an order is over in several ways, and only
one of them is a report that says so: it also concludes it from a call
that raised, from a `None` answer to the stuck-cancel sweep, from the
absence of a broker id, and from a reject, which may be about a request.

`Grounded` asks of each of these conclusions that it is true when it is
drawn, and of the broker that it accepts no order that is already dead
here. Along a run this is exactly what makes internal termination imply
termination at the broker.
-/

namespace BrokerSession

/-- **Internal termination implies broker termination.** -/
def DeadMeansDone (s : BrokerSession) : Prop :=
  ∀ (o : OrderId) (x : OrderState), s.om.orders[o]? = some x →
    dead x.status = true → ¬ s.Working o

/-- **What the step concludes is so.** -/
structure Grounded (s : BrokerSession) (l : Label) : Prop where
  /-- A call raised, or the sweep was answered. -/
  unseen : ∀ (k : OrderManager.Label) (o : OrderId) (status : OrderStatus),
    s.program? l = some k → s.om.written k = some (o, status) →
      dead status = true → ¬ s.Working o
  /-- No broker id is known. -/
  localCancel : ∀ (k : OrderManager.Label) (o : OrderId),
    s.program? l = some k → s.om.cancelsLocally k = some o → ¬ s.Working o
  /-- A reject is reported. -/
  reject : ∀ (upd : BrokerUpdate) (o : OrderId) (x : OrderState),
    s.program? l = some (.callback upd) →
      s.om.findOrderByBrokerId upd.brokerOrderId = some o →
      s.om.orders[o]? = some x → x.ignoresUpdate = false →
      upd.status = .rejected ∨ upd.status = .error → ¬ s.Working o
  /-- The broker accepts an order. -/
  accept : ∀ (u : TaskId) (o : OrderId) (x : OrderState), l = .accept u →
    s.om.tasks[u]?.bind (·.placing) = some o → s.om.orders[o]? = some x →
      dead x.status = false

/-- **What the step concludes of one order is so.** -/
structure GroundedAt (s : BrokerSession) (l : Label) (o : OrderId) : Prop where
  unseen : ∀ (k : OrderManager.Label) (status : OrderStatus),
    s.program? l = some k → s.om.written k = some (o, status) →
      dead status = true → ¬ s.Working o
  localCancel : ∀ k : OrderManager.Label,
    s.program? l = some k → s.om.cancelsLocally k = some o → ¬ s.Working o
  reject : ∀ (upd : BrokerUpdate) (x : OrderState),
    s.program? l = some (.callback upd) →
      s.om.findOrderByBrokerId upd.brokerOrderId = some o →
      s.om.orders[o]? = some x → x.ignoresUpdate = false →
      upd.status = .rejected ∨ upd.status = .error → ¬ s.Working o
  accept : ∀ (u : TaskId) (x : OrderState), l = .accept u →
    s.om.tasks[u]?.bind (·.placing) = some o → s.om.orders[o]? = some x →
      dead x.status = false

theorem Grounded.at {s : BrokerSession} {l : Label} (h : s.Grounded l) (o : OrderId) :
    s.GroundedAt l o where
  unseen k status := h.unseen k o status
  localCancel k := h.localCancel k o
  reject upd x := h.reject upd o x
  accept u x := h.accept u o x

variable {s t : BrokerSession} {l : Label}

/-- An order works at the broker exactly when the one placed for it does. -/
theorem Sound.working_iff (hs : s.Sound) {b : BrokerOrderId} {bo : BrokerOrder}
    (hbo : s.broker[b]? = some bo) :
    s.Working bo.forOrder ↔ bo.status.active = true := by
  constructor
  · rintro ⟨z, hz, hfor, hactive⟩
    have := List.inj_on_of_nodup_map hs.unique hz (List.mem_of_getElem? hbo) hfor
    exact this ▸ hactive
  · exact fun h => ⟨bo, List.mem_of_getElem? hbo, rfl, h⟩

/-- An order that works after a step worked before it, or was accepted in
it. -/
theorem working_origin (h : s.step l = some t) {o : OrderId} (hw : t.Working o) :
    s.Working o
      ∨ ∃ u, l = .accept u ∧ s.om.tasks[u]?.bind (·.placing) = some o := by
  obtain ⟨bo, hbo, rfl, hactive⟩ := hw
  cases step_broker h with
  | same hb => exact .inl ⟨bo, hb ▸ hbo, rfl, hactive⟩
  | accepted call hcall hl hnew hb =>
    rcases List.mem_append.mp (hb ▸ hbo) with hbo | hbo
    · exact .inl ⟨bo, hbo, rfl, hactive⟩
    · obtain rfl := List.mem_singleton.mp hbo
      exact .inr hl
  | changed b z z' hz hzactive hfor hq hfilled hl hb =>
    rcases List.mem_or_eq_of_mem_set (hb ▸ hbo) with hbo | rfl
    · exact .inl ⟨bo, hbo, rfl, hactive⟩
    · exact .inl ⟨z, List.mem_of_getElem? hz, hfor.symm, hzactive⟩

/-- A callback that leaves a working order dead is a reject. -/
theorem dead_brokerUpdated {upd : BrokerUpdate} {x : OrderState} {now : Time}
    (hx : x.status.active = true)
    (hdead : dead (x.brokerUpdated upd now).status = true) :
    upd.status = .rejected ∨ upd.status = .error ∨ upd.status = .cancelled := by
  have hignore : x.ignoresUpdate = false := by
    simpa [OrderState.ignoresUpdate] using hx
  simp only [OrderState.brokerUpdated, hignore, Bool.false_eq_true, if_false] at hdead
  split_ifs at hdead with hrace
  · simp only [OrderState.rejectWhileCancelling, Bool.and_eq_true,
      decide_eq_true_eq, Bool.or_eq_true] at hrace
    exact hrace.2.imp_right .inl
  · simp only [OrderState.updatedStatus] at hdead
    split_ifs at hdead
    · cases hdead
    · cases hupd : upd.status <;> simp_all [dead]

/-- A reject for an order that is not done leaves it dead. -/
theorem dead_of_reject {upd : BrokerUpdate} {x : OrderState} {now : Time}
    (hx : x.ignoresUpdate = false)
    (hupd : upd.status = .rejected ∨ upd.status = .error) :
    dead (x.brokerUpdated upd now).status = true := by
  simp only [OrderState.brokerUpdated, hx, Bool.false_eq_true, if_false]
  split_ifs
  · rfl
  · rcases hupd with h | h <;> simp [OrderState.updatedStatus, h, dead]

/-- **A step that is grounded at an order keeps it done** where it is
dead. -/
theorem notWorking_step (hs : s.Sound) {o : OrderId}
    (hdone : ∀ x, s.om.orders[o]? = some x → dead x.status = true → ¬ s.Working o)
    (h : s.step l = some t) (hg : s.GroundedAt l o) {y : OrderState}
    (hy : t.om.orders[o]? = some y) (hdead : dead y.status = true) : ¬ t.Working o := by
  intro hw
  rcases working_origin h hw with hw | ⟨u, rfl, hu⟩
  · rcases step_lookup h hy with ⟨x, hx, rfl | ⟨k, hk, htouch, ha⟩⟩ | ⟨k, -, hnew⟩
    · exact hdone y hx hdead hw
    · rcases htouch.status hx with
        hwr | hsame | ⟨hactive, hpend | ⟨hlocal, -⟩ | ⟨upd, rfl, ho, rfl⟩⟩
      · exact hg.unseen k _ hk hwr hdead hw
      · exact hdone x hx (hsame ▸ hdead) hw
      · rw [hpend] at hdead
        cases hdead
      · exact hg.localCancel k hk hlocal hw
      · have hignore : x.ignoresUpdate = false := by
          simpa [OrderState.ignoresUpdate] using hactive
        rcases dead_brokerUpdated hactive hdead with hrej | hrej | hcanc
        · exact hg.reject upd x hk ho hx hignore (.inl hrej) hw
        · exact hg.reject upd x hk ho hx hignore (.inr hrej) hw
        · -- the report of a cancel is true of the one order placed
          obtain ⟨i, _, heq, hi⟩ := ha.resolve_left (by rintro ⟨⟩)
          cases heq
          obtain ⟨z, hz, hzb⟩ := OrderManager.findOrderByBrokerId_eq_some ho
          obtain ⟨bo, hbo, rfl⟩ := hs.known o z _ hz hzb
          obtain ⟨bo', hbo', -, hstatus⟩ := hs.reports upd (List.mem_of_getElem? hi)
          obtain rfl := Option.some.inj (hbo.symm.trans hbo')
          have hbs : bo.status = .cancelled := by
            simpa [hcanc, OrderStatus.terminal] using hstatus
          rw [hs.working_iff hbo, hbs] at hw
          cases hw
    · cases hnew <;> cases hdead
  · rcases step_om h with ⟨-, hom⟩ | ⟨k, hk, -⟩
    · rw [hg.accept u y rfl hu (hom ▸ hy)] at hdead
      cases hdead
    · cases hk

/-- A grounded step keeps dead orders done. -/
theorem deadMeansDone_step (hs : s.Sound) (hdone : s.DeadMeansDone)
    (h : s.step l = some t) (hg : s.Grounded l) : t.DeadMeansDone :=
  fun o _ hy hdead => notWorking_step hs (hdone o) h (hg.at o) hy hdead

/-- A step that keeps dead orders done is grounded. -/
theorem grounded_of_deadMeansDone (hs : s.Sound) (h : s.step l = some t)
    (hdone : t.DeadMeansDone) : s.Grounded l := by
  -- an order of ours that works and is dead after a step of the order
  -- manager is one too many
  have habsurd : ∀ {k o}, s.program? l = some k → s.Working o →
      (∀ x, s.om.orders[o]? = some x → s.om.step k = some t.om →
        ∃ y, t.om.orders[o]? = some y ∧ dead y.status = true) → False := by
    intro k o hk hw hdead
    rcases step_om h with ⟨hnone, -⟩ | ⟨k', hk', hom, hb, -⟩
    · rw [hk] at hnone; cases hnone
    · obtain rfl := Option.some.inj (hk.symm.trans hk')
      obtain ⟨bo, hbo, rfl, hactive⟩ := hw
      obtain ⟨x, hx, -⟩ := hs.ordered bo hbo
      obtain ⟨y, hy, hydead⟩ := hdead x hx hom
      exact hdone _ y hy hydead ⟨bo, hb ▸ hbo, rfl, hactive⟩
  constructor
  · intro k o status hk hwr hdead hw
    refine habsurd hk hw fun x hx hom => ?_
    obtain ⟨y, hy, rfl⟩ := OrderManager.step_written hom hwr hx
    exact ⟨y, hy, hdead⟩
  · intro k o hk hlocal hw
    refine habsurd hk hw fun x hx hom => ?_
    obtain ⟨y, hy, hstatus⟩ := OrderManager.step_cancelsLocally hom hlocal
    exact ⟨y, hy, hstatus ▸ rfl⟩
  · intro upd o x hk ho hx hignore hrej hw
    refine habsurd hk hw fun z hz hom => ?_
    exact ⟨_, OrderManager.step_callback hom ho hx, dead_of_reject hignore hrej⟩
  · rintro u o x rfl hu hx
    by_contra hdead
    rw [Bool.not_eq_false] at hdead
    obtain ⟨o', ho', h⟩ := Option.bind_eq_some_iff.mp h
    obtain rfl := Option.some.inj (hu.symm.trans ho')
    obtain ⟨call, hcall, h⟩ := Option.bind_eq_some_iff.mp h
    simp only [Option.ite_none_right_eq_some] at h
    obtain ⟨-, h⟩ := h
    obtain rfl := Option.some.inj h
    have horder : call.order = o := by simpa using List.find?_some hcall
    exact hdone o x hx hdead ⟨.accepted call,
      List.mem_append_right _ (List.mem_singleton_self _), horder, rfl⟩

theorem deadMeansDone_initial : initial.DeadMeansDone := by
  intro o x hx
  cases hx

/-- **In every state of a run internal termination implies broker
termination exactly when every step of the run is grounded.** -/
theorem deadMeansDone_iff_grounded (ls : List Label) :
    machine.Throughout DeadMeansDone initial ls
      ↔ machine.Along (fun s l _ => s.Grounded l) initial ls := by
  rw [Machine.throughout_iff_along, and_iff_right deadMeansDone_initial]
  exact Machine.along_target_iff (J := Sound) (fun _ _ _ hs h => hs.step h)
    (fun _ _ _ hs hdone h =>
      ⟨grounded_of_deadMeansDone hs h, deadMeansDone_step hs hdone h⟩)
    sound_initial deadMeansDone_initial

/-- The run that goes wrong: the cancel of a working order raises because
the connection is down. -/
def cancelWhileDisconnected : List Label :=
  [ .program (.submit (sampleIntent none true .buy) sampleDecision false none none),
    .accept 0,
    .program (.resume 0 (.placed 0 .submitted)),
    .connection false,
    .program (.cancel 0 true),
    .program .go,
    .program (.resume 1
      (.raised "Cannot cancel order: Broker client is disconnected.")) ]

/-- Internal termination does not imply broker termination. -/
theorem not_deadMeansDone :
    ¬ ∀ ls, machine.Throughout DeadMeansDone initial ls := by
  intro h
  have hdone := h cancelWhileDisconnected cancelWhileDisconnected _
    List.prefix_rfl rfl
  exact hdone 0 _ rfl rfl ⟨_, List.mem_singleton_self _, rfl, rfl⟩

end BrokerSession
