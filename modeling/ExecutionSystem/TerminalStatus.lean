import ExecutionSystem.Machine
import ExecutionSystem.OrderSteps

/-!
# Terminal statuses

`FILLED`, `CANCELLED`, `REJECTED` and `ERROR` are meant to be final: the
callback ignores an update for an order that is in one of them, and
`cancel_order` refuses such an order. Neither test is repeated by the
code that runs when an awaited broker call returns, and the status of an
order can become terminal during the await.

So the statuses are final in a run exactly when no await returns late:
whenever a step writes a status unseen (`OrderManager.written`), the
order is not terminal yet or already has that status.
-/

namespace OrderManager

/-- Every order that is terminal keeps its status from the one state to
the other. -/
def KeepsTerminal (om om' : OrderManager) : Prop :=
  ∀ (o : OrderId) (x : OrderState), om.orders[o]? = some x →
    x.status.terminal = true → ∃ y, om'.orders[o]? = some y ∧ y.status = x.status

/-- **Terminal statuses are absorbing along a run**: from any state of it
to any later one. -/
def TerminalAbsorbing (ls : List Label) : Prop :=
  ∀ ks ms om om', ks ++ ms <+: ls → machine.run initial ks = some om →
    machine.run om ms = some om' → om.KeepsTerminal om'

/-- **The step writes no status late**: what it writes unseen is for an
order that is not terminal, or is the status that order has. -/
def Timely (om : OrderManager) (l : Label) : Prop :=
  ∀ (o : OrderId) (status : OrderStatus) (x : OrderState),
    om.written l = some (o, status) → om.orders[o]? = some x →
      x.status.terminal = true → status = x.status

theorem KeepsTerminal.refl (om : OrderManager) : om.KeepsTerminal om :=
  fun _ x hx _ => ⟨x, hx, rfl⟩

theorem KeepsTerminal.trans (om₁ om₂ om₃ : OrderManager)
    (h : om₁.KeepsTerminal om₂) (h' : om₂.KeepsTerminal om₃) :
    om₁.KeepsTerminal om₃ := by
  intro o x hx hd
  obtain ⟨y, hy, hyx⟩ := h o x hx hd
  obtain ⟨z, hz, hzy⟩ := h' o y hy (hyx ▸ hd)
  exact ⟨z, hz, hzy.trans hyx⟩

/-- **One step keeps the terminal statuses exactly when it is timely.** -/
theorem keepsTerminal_iff {om om' : OrderManager} {l : Label}
    (h : om.step l = some om') : om.KeepsTerminal om' ↔ om.Timely l := by
  constructor
  · intro hkeep o status x hw hx hd
    obtain ⟨y, hy, hstatus⟩ := step_written h hw hx
    obtain ⟨z, hz, hzx⟩ := hkeep o x hx hd
    obtain rfl := Option.some.inj (hy.symm.trans hz)
    rw [← hstatus, hzx]
  · intro htimely o x hx hd
    obtain ⟨y, hy, htouch⟩ := (step_effect h).touch hx
    refine ⟨y, hy, ?_⟩
    rcases htouch.status hx with hw | hsame | ⟨hactive, -⟩
    · exact htimely o _ x hw hx hd
    · exact hsame
    · rw [OrderStatus.active_eq_not_terminal, hd] at hactive
      cases hactive

/-- **Terminal statuses are absorbing along a run exactly when every step
of it is timely.** -/
theorem terminalAbsorbing_iff_timely (ls : List Label) :
    TerminalAbsorbing ls ↔ machine.Along (fun om l _ => om.Timely l) initial ls := by
  unfold TerminalAbsorbing
  rw [← Machine.along_between_iff KeepsTerminal.refl KeepsTerminal.trans]
  exact Machine.along_iff_of_step (J := fun _ => True) (fun _ _ _ _ _ => trivial)
    (fun _ _ _ _ h => keepsTerminal_iff h) trivial

/-- The run that goes wrong: while `cancel_order` awaits the broker the
order is reported filled, and then the awaited call raises. -/
def lateCancelFailure : List Label :=
  [ .submit (sampleIntent none true .buy) sampleDecision false none none,
    .resume 0 (.placed 0 .submitted),
    .cancel 0 true, .go,
    .callback { brokerOrderId := 0, status := .filled, filledQuantity := 2 },
    .resume 1 (.raised "Cannot cancel order: Broker client is disconnected.") ]

/-- Terminal statuses are not absorbing: the filled order ends up at
`ERROR`. -/
theorem not_terminalAbsorbing : ¬ ∀ ls, TerminalAbsorbing ls := by
  intro h
  have hkeep := h lateCancelFailure (lateCancelFailure.take 5)
    (lateCancelFailure.drop 5) _ _ List.prefix_rfl rfl rfl
  obtain ⟨y, hy, hstatus⟩ := hkeep 0 _ rfl rfl
  obtain rfl := Option.some.inj hy
  cases hstatus

end OrderManager
