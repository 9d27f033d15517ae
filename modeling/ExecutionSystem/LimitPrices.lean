import ExecutionSystem.Commissions
import ExecutionSystem.Reconciliation
import ExecutionSystem.ReplacementChain
import ExecutionSystem.TickPrices

/-!
# The limit we store and the limit the broker has

A limit price exists twice: the order manager stores one, and the order at
the broker carries one. `place_order` conforms the limit of its plan and
sends that, while the order manager goes on storing the limit of the plan;
`modify_order` conforms the price it is given, and the order manager stores
the price as it gave it. So after each of these the two are a price and the
same price conformed, and nothing else writes to either. They never differ
by more than half a nickel (`LimitSession.near_of_run`), which the
reconciliation tolerates.
-/

/-! ## The limit that is stored -/

namespace OrderManager

variable {om om' : OrderManager} {l : Label}

/-- A stored limit changes when an amendment was accepted, to the price of
the amendment. -/
theorem Touch.limitPrice {o : OrderId} {x y : OrderState} (h : Touch om l o x y) :
    y.limitPrice = x.limitPrice
      ∨ ∃ t r p, l = .resume t (.modified true) ∧ om.tasks[t]? = some (.modifyAwait r p)
        ∧ r.current = o ∧ y.limitPrice = p := by
  cases h with
  | kept | superseded => exact .inl rfl
  | reported =>
    left
    unfold OrderState.brokerUpdated
    split_ifs <;> rfl
  | wrote ht hw hrun =>
    cases hw with
    | repriced => exact .inr ⟨_, _, _, rfl, ht, rfl, rfl⟩
    | cancelRequested =>
      left
      rw [OrderState.cancelRequested_eq]
    | _ => exact .inl rfl

/-- **While an order is being placed, its stored limit is the one of the
plan.** -/
def Planned (om : OrderManager) : Prop :=
  ∀ (t : TaskId) (c : Coroutine) (call : PlaceCall) (x : OrderState),
    om.tasks[t]? = some c → c.placing = some call.order → call ∈ om.placeCalls →
    om.orders[call.order]? = some x → x.limitPrice = call.plan.limitPrice

/-- An order that is being placed is not amended. -/
theorem Owned.not_modifying (h : om.Owned) {t u : TaskId} {c : Coroutine} {o : OrderId}
    {r : Repricer} {p : Price} (ht : om.tasks[t]? = some c) (hc : c.placing = some o)
    (hu : om.tasks[u]? = some (.modifyAwait r p)) : r.current ≠ o := by
  rintro rfl
  obtain rfl := List.index_eq_of_filterMap_nodup h.nodup ht hu
    (Coroutine.owner_of_placing hc) rfl
  obtain rfl := Option.some.inj (ht.symm.trans hu)
  cases hc

/-- A call of `place_order` stays on record. -/
theorem mem_placeCalls (hstep : om.step l = some om') {call : PlaceCall}
    (h : call ∈ om.placeCalls) : call ∈ om'.placeCalls := by
  rcases (step_effect hstep).placeCalls with ⟨hcalls, -⟩ | ⟨y, hnew, -⟩
  · exact hcalls ▸ h
  · cases hnew with
    | submitted q hl hplan hfree hcalls => exact hcalls ▸ List.mem_append_left _ h
    | replaced hr q hp hcalls => exact hcalls ▸ List.mem_append_left _ h

/-- A created order is stored with the limit of its plan. -/
theorem Created.limitPrice {y : OrderState} (h : Created om l om' y) :
    ∃ call, om'.placeCalls = om.placeCalls ++ [call] ∧ call.order = om.orders.length
      ∧ y.limitPrice = call.plan.limitPrice := by
  cases h with
  | submitted q hl hplan hfree hcall => exact ⟨_, hcall, rfl, rfl⟩
  | replaced h q hp hcall => exact ⟨_, hcall, rfl, rfl⟩

theorem Planned.step (h : om.Planned) (hs : om.Chained) (hstep : om.step l = some om') :
    om'.Planned := by
  have he := step_effect hstep
  intro t c call y ht hc hcall hy
  -- a call for an order that the step creates is the one that creates it
  have hnew : call.order = om.orders.length → y.limitPrice = call.plan.limitPrice := by
    intro ho
    rcases he.lookup hy with ⟨x, hx, -⟩ | ⟨-, hcreated⟩
    · exact absurd (ho ▸ (List.getElem?_eq_some_iff.mp hx).1) (lt_irrefl _)
    · obtain ⟨call', hcalls, -, hlimit⟩ := hcreated.limitPrice
      rcases List.mem_append.mp (hcalls ▸ hcall) with hold | hlast
      · obtain ⟨x, hx, -⟩ := hs.called.order call hold
        exact absurd (ho ▸ (List.getElem?_eq_some_iff.mp hx).1) (lt_irrefl _)
      · rw [List.mem_singleton.mp hlast]
        exact hlimit
  -- a call for an order that was there is an old one
  have hold : call.order < om.orders.length → call ∈ om.placeCalls := by
    intro hlt
    by_contra hnot
    rcases he.placeCalls with ⟨hcalls, -⟩ | ⟨z, hcreated, -⟩
    · exact hnot (hcalls ▸ hcall)
    · obtain ⟨call', hcalls, ho, -⟩ := hcreated.limitPrice
      rcases List.mem_append.mp (hcalls ▸ hcall) with hmem | hlast
      · exact hnot hmem
      · rw [List.mem_singleton.mp hlast, ho] at hlt
        exact lt_irrefl _ hlt
  rcases he.task ht with ⟨d, hd, hturn⟩ | ⟨-, hstarted⟩
  · cases hturn with
    | kept =>
      have hlt := hs.owned.owner_lt (mem_owners hd (Coroutine.owner_of_placing hc))
      rcases he.lookup hy with ⟨x, hx, htouch⟩ | ⟨ho, -⟩
      · rcases htouch.limitPrice with hsame | ⟨u, r, p, -, hu, ho, -⟩
        · exact hsame.trans (h t c call x hd hc (hold hlt) hx)
        · exact absurd ho (hs.owned.not_modifying hd hc hu)
      · exact absurd ho hlt.ne
    | moved hn =>
      rw [hn.placing] at hc
      cases hc
    | replaces => exact hnew (Option.some.inj hc).symm
  · cases hstarted with
    | places => exact hnew (Option.some.inj hc).symm
    | _ => cases hc

end OrderManager

/-! ## The adapter, as far as prices go -/

/-- The limit that `place_order` sends for a plan; a market order has
none. -/
def OrderPlan.lmtPrice (plan : OrderPlan) : Option Price :=
  match plan.orderType with
  | .lmt => some (conformTick plan.limitPrice)
  | .mkt => none

/-- **The order manager, and the trades that the adapter has placed.** -/
structure LimitSession where
  om : OrderManager := {}
  /-- The broker ids given out. -/
  placed : List BrokerOrderId := []
  /-- `trade.order.lmtPrice`. -/
  lmtPrice : BrokerOrderId → Option Price := fun _ => none

namespace LimitSession

/-- What can happen next. -/
inductive Label where
  /-- A step of the order manager, or of its callers. -/
  | program (l : OrderManager.Label)
  /-- `modify_order` raises when the trade has the new price already. -/
  | modifyFailsLate (t : TaskId) (message : String)

/-- The step is no amendment that fails half-way. -/
def Label.clean : Label → Bool
  | .program _ => true
  | .modifyFailsLate .. => false

/-- The call of `place_order` that a coroutine awaits. -/
def placing (s : LimitSession) (t : TaskId) : Option PlaceCall :=
  (s.om.tasks[t]?.bind (·.placing)).bind fun o => s.om.placeCalls.find? (·.order = o)

/-- The trade that a coroutine amends, and the price it amends it to. -/
def modifying (s : LimitSession) (t : TaskId) : Option (BrokerOrderId × Price) :=
  match s.om.tasks[t]? with
  | some (.modifyAwait r p) =>
    (s.om.orders[r.current]?.bind (·.brokerOrderId)).map fun b => (b, p)
  | _ => none

/-- A trade carries a limit. -/
def carry (s : LimitSession) (b : BrokerOrderId) (limit : Option Price) : LimitSession :=
  { s with lmtPrice := Function.update s.lmtPrice b limit }

/-- **One step.** `place_order` returns once the trade is placed, under a
fresh id; the state it returns takes no limit of `0`. `modify_order` returns
`True` once a trade it knows carries the conformed price. -/
def step (s : LimitSession) : Label → Option LimitSession
  | .program (.resume t (.placed b status)) => (s.placing t).bind fun call =>
    if b ∉ s.placed ∧ call.plan.lmtPrice.all (0 < ·) then
      (s.om.step (.resume t (.placed b status))).map fun om =>
        { s.carry b call.plan.lmtPrice with om := om, placed := b :: s.placed }
    else none
  | .program (.resume t (.modified true)) => (s.modifying t).bind fun amended =>
    if amended.1 ∈ s.placed then
      (s.om.step (.resume t (.modified true))).map fun om =>
        { s.carry amended.1 (some (conformTick amended.2)) with om := om }
    else none
  | .program l => (s.om.step l).map fun om => { s with om := om }
  | .modifyFailsLate t message => (s.modifying t).bind fun amended =>
    if amended.1 ∈ s.placed then
      (s.om.step (.resume t (.raised message))).map fun om =>
        { s.carry amended.1 (some (conformTick amended.2)) with om := om }
    else none

/-- The order manager and the trades, interleaved with arbitrary callers and
an arbitrary broker. -/
def machine : Machine LimitSession Label where
  step := step

/-- No orders. -/
def initial : LimitSession := {}

/-- **The two limits of an order differ by half a nickel at most.** -/
def Near (s : LimitSession) : Prop :=
  ∀ (o : OrderId) (x : OrderState) (b : BrokerOrderId) (limit : Price),
    s.om.orders[o]? = some x → x.brokerOrderId = some b → s.lmtPrice b = some limit →
      |x.limitPrice - limit| ≤ 1 / 40

/-- Every order with a broker id has a trade that carries a limit, unless it
was placed as a market order. -/
def Carried (s : LimitSession) : Prop :=
  ∀ (o : OrderId) (x : OrderState) (b : BrokerOrderId),
    s.om.orders[o]? = some x → x.brokerOrderId = some b → (s.lmtPrice b).isSome = true
      ∨ ∃ call ∈ s.om.placeCalls, call.order = o ∧ call.plan.orderType = .mkt

/-! ## What a step does -/

variable {s t : LimitSession} {l : Label}

/-- **What a step does to the trades**, beside the step of the order
manager that it is. -/
inductive Effect (s : LimitSession) (l : Label) (t : LimitSession) : Prop
  /-- Nothing: no call returns that sends a price. -/
  | same (k : OrderManager.Label) (hk : s.om.step k = some t.om)
      (hplaced : ∀ u b status, k ≠ .resume u (.placed b status))
      (hmodified : ∀ u, k ≠ .resume u (.modified true))
      (hids : t.placed = s.placed) (hlimits : t.lmtPrice = s.lmtPrice)
  | placed (u : TaskId) (c : Coroutine) (call : PlaceCall) (b : BrokerOrderId)
      (status : OrderStatus) (hk : s.om.step (.resume u (.placed b status)) = some t.om)
      (hu : s.om.tasks[u]? = some c) (hc : c.placing = some call.order)
      (hcall : call ∈ s.om.placeCalls) (hfresh : b ∉ s.placed)
      (hids : t.placed = b :: s.placed)
      (hlimits : t.lmtPrice = Function.update s.lmtPrice b call.plan.lmtPrice)
  | modified (u : TaskId) (r : Repricer) (p : Price) (x : OrderState) (b : BrokerOrderId)
      (hk : s.om.step (.resume u (.modified true)) = some t.om)
      (hu : s.om.tasks[u]? = some (.modifyAwait r p))
      (hx : s.om.orders[r.current]? = some x) (hb : x.brokerOrderId = some b)
      (hids : t.placed = s.placed)
      (hlimits : t.lmtPrice = Function.update s.lmtPrice b (some (conformTick p)))

/-- The trade a coroutine amends is that of the order it chases. -/
theorem modifying_eq_some {u : TaskId} {b : BrokerOrderId} {p : Price}
    (h : s.modifying u = some (b, p)) :
    ∃ r x, s.om.tasks[u]? = some (.modifyAwait r p) ∧ s.om.orders[r.current]? = some x
      ∧ x.brokerOrderId = some b := by
  unfold modifying at h
  split at h
  · next r q hu =>
    obtain ⟨b', hb, heq⟩ := Option.map_eq_some_iff.mp h
    obtain ⟨rfl, rfl⟩ := Prod.mk.inj heq
    obtain ⟨x, hx, hxb⟩ := Option.bind_eq_some_iff.mp hb
    exact ⟨r, x, hu, hx, hxb⟩
  · cases h

/-- The call a coroutine awaits is that of the order it places. -/
theorem placing_eq_some {u : TaskId} {call : PlaceCall} (h : s.placing u = some call) :
    ∃ c, s.om.tasks[u]? = some c ∧ c.placing = some call.order
      ∧ call ∈ s.om.placeCalls := by
  obtain ⟨o, ho, hcall⟩ := Option.bind_eq_some_iff.mp h
  obtain ⟨c, hu, hc⟩ := Option.bind_eq_some_iff.mp ho
  have horder : call.order = o := by simpa using List.find?_some hcall
  exact ⟨c, hu, horder ▸ hc, List.mem_of_find?_eq_some hcall⟩

/-- **Every clean step is one of the effects.** -/
theorem step_effect (h : s.step l = some t) (hl : l.clean = true) : Effect s l t := by
  cases l with
  | modifyFailsLate => cases hl
  | program k =>
    have hsame : (s.om.step k).map (fun om => { s with om := om }) = some t →
        (∀ u b status, k ≠ .resume u (.placed b status)) →
        (∀ u, k ≠ .resume u (.modified true)) → Effect s (.program k) t := by
      intro hmap hplaced hmodified
      obtain ⟨om, hom, rfl⟩ := Option.map_eq_some_iff.mp hmap
      exact .same k hom hplaced hmodified rfl rfl
    cases k with
    | resume u reply =>
      cases reply with
      | placed b status =>
        obtain ⟨call, hcall, h⟩ := Option.bind_eq_some_iff.mp h
        simp only [Option.ite_none_right_eq_some] at h
        obtain ⟨⟨hfresh, -⟩, h⟩ := h
        obtain ⟨om, hom, rfl⟩ := Option.map_eq_some_iff.mp h
        obtain ⟨c, hu, hc, hmem⟩ := placing_eq_some hcall
        exact .placed u c call b status hom hu hc hmem hfresh rfl rfl
      | modified accepted =>
        cases accepted with
        | true =>
          obtain ⟨⟨b, p⟩, hamended, h⟩ := Option.bind_eq_some_iff.mp h
          simp only [Option.ite_none_right_eq_some] at h
          obtain ⟨om, hom, rfl⟩ := Option.map_eq_some_iff.mp h.2
          obtain ⟨r, x, hu, hx, hb⟩ := modifying_eq_some hamended
          exact .modified u r p x b hom hu hx hb rfl rfl
        | false => exact hsame h (by simp) (by simp)
      | _ => exact hsame h (by simp) (by simp)
    | _ => exact hsame h (by simp) (by simp)

/-! ## The invariant -/

/-- **What holds in every state reached by clean steps.** -/
structure Synced (s : LimitSession) : Prop where
  chained : s.om.Chained
  planned : s.om.Planned
  unplaced : s.om.Unplaced
  /-- Every broker id of an order was given out. -/
  known : ∀ (o : OrderId) (x : OrderState) (b : BrokerOrderId),
    s.om.orders[o]? = some x → x.brokerOrderId = some b → b ∈ s.placed
  /-- … and to no other order. -/
  unique : ∀ (o o' : OrderId) (x x' : OrderState) (b : BrokerOrderId),
    s.om.orders[o]? = some x → s.om.orders[o']? = some x' →
    x.brokerOrderId = some b → x'.brokerOrderId = some b → o = o'
  near : s.Near
  carried : s.Carried

/-- Where no price is sent every order keeps its id and its limit, and a new
one has no id. -/
theorem lookup_of_same {k : OrderManager.Label} (hk : s.om.step k = some t.om)
    (hplaced : ∀ u b status, k ≠ .resume u (.placed b status))
    (hmodified : ∀ u, k ≠ .resume u (.modified true)) {o : OrderId} {y : OrderState}
    {b : BrokerOrderId} (hy : t.om.orders[o]? = some y) (hb : y.brokerOrderId = some b) :
    ∃ x, s.om.orders[o]? = some x ∧ x.brokerOrderId = some b ∧ y.limitPrice = x.limitPrice := by
  rcases (OrderManager.step_effect hk).lookup hy with ⟨x, hx, htouch⟩ | ⟨-, hnew⟩
  · rcases htouch.brokerOrderId with hid | ⟨u, b', status, rfl, -⟩
    · rcases htouch.limitPrice with hlimit | ⟨u, r, p, rfl, -⟩
      · exact ⟨x, hx, hid.symm.trans hb, hlimit⟩
      · exact absurd rfl (hmodified u)
    · exact absurd rfl (hplaced u b' status)
  · cases hnew <;> cases hb

/-- Where a trade is placed its order has the new id and the limit of the
plan, and every other order is what it was. -/
theorem lookup_of_placed (hs : s.Synced) {u : TaskId} {c : Coroutine} {call : PlaceCall}
    {b : BrokerOrderId} {status : OrderStatus}
    (hk : s.om.step (.resume u (.placed b status)) = some t.om)
    (hu : s.om.tasks[u]? = some c) (hc : c.placing = some call.order)
    (hcall : call ∈ s.om.placeCalls) {o : OrderId} {y : OrderState}
    (hy : t.om.orders[o]? = some y) :
    (o = call.order ∧ y.brokerOrderId = some b ∧ y.limitPrice = call.plan.limitPrice)
      ∨ (o ≠ call.order ∧ s.om.orders[o]? = some y) := by
  rw [(OrderManager.step_placed hk hu hc).1, List.getElem?_modify_iff] at hy
  obtain ⟨x, hx, rfl⟩ := hy
  by_cases ho : call.order = o
  · subst ho
    rw [if_pos rfl]
    exact .inl ⟨rfl, rfl, hs.planned u c call x hu hc hcall hx⟩
  · rw [if_neg ho]
    exact .inr ⟨Ne.symm ho, hx⟩

/-- Where a trade is amended its order has the new price, and every other
order is what it was. -/
theorem lookup_of_modified {u : TaskId} {r : Repricer} {p : Price}
    (hk : s.om.step (.resume u (.modified true)) = some t.om)
    (hu : s.om.tasks[u]? = some (.modifyAwait r p)) {o : OrderId} {y : OrderState}
    (hy : t.om.orders[o]? = some y) :
    ∃ x, s.om.orders[o]? = some x ∧ y.brokerOrderId = x.brokerOrderId
      ∧ y.limitPrice = if o = r.current then p else x.limitPrice := by
  simp only [OrderManager.step, Option.ite_none_right_eq_some, hu, Option.bind_some,
    OrderManager.resume, OrderManager.repricerModified, Option.some.injEq] at hk
  rw [← hk.2, OrderManager.sleep_orders, OrderManager.update_orders,
    List.getElem?_modify_iff] at hy
  obtain ⟨x, hx, rfl⟩ := hy
  refine ⟨x, hx, ?_⟩
  by_cases ho : r.current = o
  · rw [if_pos ho, if_pos ho.symm]
    exact ⟨rfl, rfl⟩
  · rw [if_neg ho, if_neg (Ne.symm ho)]
    exact ⟨rfl, rfl⟩

/-- The order that is placed under a fresh id is the only one with it. -/
theorem Synced.step_placed (hs : s.Synced) {u : TaskId} {c : Coroutine} {call : PlaceCall}
    {b : BrokerOrderId} {status : OrderStatus}
    (hk : s.om.step (.resume u (.placed b status)) = some t.om)
    (hu : s.om.tasks[u]? = some c) (hc : c.placing = some call.order)
    (hcall : call ∈ s.om.placeCalls) (hfresh : b ∉ s.placed) (hids : t.placed = b :: s.placed)
    (hlimits : t.lmtPrice = Function.update s.lmtPrice b call.plan.lmtPrice) : t.Synced := by
  have hlook {o : OrderId} {y : OrderState} := lookup_of_placed hs hk hu hc hcall (o := o) (y := y)
  -- the broker's new id is not that of any order before
  have hold : ∀ {o : OrderId} {y : OrderState} {b' : BrokerOrderId},
      s.om.orders[o]? = some y → y.brokerOrderId = some b' → b' ≠ b := by
    rintro o y b' hy hb rfl
    exact hfresh (hs.known o y b' hy hb)
  refine ⟨hs.chained.step hk, hs.planned.step hs.chained hk,
    hs.unplaced.step hs.chained.owned hk, ?_, ?_, ?_, ?_⟩
  · intro o y b' hy hb
    rw [hids]
    rcases hlook hy with ⟨-, hid, -⟩ | ⟨-, hx⟩
    · obtain rfl := Option.some.inj (hb.symm.trans hid)
      exact List.mem_cons_self
    · exact List.mem_cons_of_mem _ (hs.known o y b' hx hb)
  · intro o o' y y' b' hy hy' hb hb'
    rcases hlook hy with ⟨rfl, hid, -⟩ | ⟨-, hx⟩ <;>
      rcases hlook hy' with ⟨rfl, hid', -⟩ | ⟨-, hx'⟩
    · rfl
    · exact absurd (Option.some.inj (hb.symm.trans hid)) (hold hx' hb')
    · exact absurd (Option.some.inj (hb'.symm.trans hid')) (hold hx hb)
    · exact hs.unique o o' y y' b' hx hx' hb hb'
  · intro o y b' limit hy hb hlimit
    rw [hlimits] at hlimit
    rcases hlook hy with ⟨-, hid, hplan⟩ | ⟨-, hx⟩
    · obtain rfl := Option.some.inj (hb.symm.trans hid)
      rw [Function.update_self] at hlimit
      unfold OrderPlan.lmtPrice at hlimit
      split at hlimit
      · obtain rfl := Option.some.inj hlimit
        rw [hplan, abs_sub_comm]
        exact abs_conformTick_sub_le _
      · cases hlimit
    · rw [Function.update_of_ne (hold hx hb)] at hlimit
      exact hs.near o y b' limit hx hb hlimit
  · intro o y b' hy hb
    rw [hlimits]
    rcases hlook hy with ⟨rfl, hid, -⟩ | ⟨-, hx⟩
    · obtain rfl := Option.some.inj (hb.symm.trans hid)
      rw [Function.update_self]
      cases htype : call.plan.orderType with
      | lmt => exact .inl (by simp [OrderPlan.lmtPrice, htype])
      | mkt => exact .inr ⟨call, OrderManager.mem_placeCalls hk hcall, rfl, htype⟩
    · rw [Function.update_of_ne (hold hx hb)]
      exact (hs.carried o y b' hx hb).imp_right fun ⟨call, hmem, h⟩ =>
        ⟨call, OrderManager.mem_placeCalls hk hmem, h⟩

/-- An amendment gives the one order of the trade the price of which the
trade has the conformed one. -/
theorem Synced.step_modified (hs : s.Synced) {u : TaskId} {r : Repricer} {p : Price}
    {x : OrderState} {b : BrokerOrderId}
    (hk : s.om.step (.resume u (.modified true)) = some t.om)
    (hu : s.om.tasks[u]? = some (.modifyAwait r p))
    (hx : s.om.orders[r.current]? = some x) (hb : x.brokerOrderId = some b)
    (hids : t.placed = s.placed)
    (hlimits : t.lmtPrice = Function.update s.lmtPrice b (some (conformTick p))) :
    t.Synced := by
  have hlook {o : OrderId} {y : OrderState} := lookup_of_modified hk hu (o := o) (y := y)
  refine ⟨hs.chained.step hk, hs.planned.step hs.chained hk,
    hs.unplaced.step hs.chained.owned hk, ?_, ?_, ?_, ?_⟩
  · intro o y b' hy hb'
    obtain ⟨z, hz, hid, -⟩ := hlook hy
    rw [hids]
    exact hs.known o z b' hz (hid ▸ hb')
  · intro o o' y y' b' hy hy' hb hb'
    obtain ⟨z, hz, hid, -⟩ := hlook hy
    obtain ⟨z', hz', hid', -⟩ := hlook hy'
    exact hs.unique o o' z z' b' hz hz' (hid ▸ hb) (hid' ▸ hb')
  · intro o y b' limit hy hb' hlimit
    obtain ⟨z, hz, hid, hprice⟩ := hlook hy
    rw [hlimits] at hlimit
    by_cases ho : o = r.current
    · subst ho
      obtain rfl := Option.some.inj (hz.symm.trans hx)
      obtain rfl := Option.some.inj (hb'.symm.trans (hid.trans hb))
      rw [Function.update_self] at hlimit
      obtain rfl := Option.some.inj hlimit
      rw [hprice, if_pos rfl, abs_sub_comm]
      exact abs_conformTick_sub_le p
    · -- another order has another id, so its limit is not touched
      have hne : b' ≠ b := by
        rintro rfl
        exact ho (hs.unique o r.current z x b' hz hx (hid ▸ hb') hb)
      rw [Function.update_of_ne hne] at hlimit
      rw [hprice, if_neg ho]
      exact hs.near o z b' limit hz (hid ▸ hb') hlimit
  · intro o y b' hy hb'
    obtain ⟨z, hz, hid, -⟩ := hlook hy
    rw [hlimits]
    by_cases hsame : b' = b
    · rw [hsame, Function.update_self]
      exact .inl rfl
    · rw [Function.update_of_ne hsame]
      exact (hs.carried o z b' hz (hid ▸ hb')).imp_right fun ⟨call, hmem, h⟩ =>
        ⟨call, OrderManager.mem_placeCalls hk hmem, h⟩

theorem Synced.step (hs : s.Synced) (h : s.step l = some t) (hl : l.clean = true) :
    t.Synced := by
  cases step_effect h hl with
  | same k hk hplaced hmodified hids hlimits =>
    have hlook {o : OrderId} {y : OrderState} {b : BrokerOrderId} :=
      lookup_of_same hk hplaced hmodified (o := o) (y := y) (b := b)
    refine ⟨hs.chained.step hk, hs.planned.step hs.chained hk,
      hs.unplaced.step hs.chained.owned hk, ?_, ?_, ?_, ?_⟩
    · intro o y b hy hb
      obtain ⟨x, hx, hxb, -⟩ := hlook hy hb
      exact hids ▸ hs.known o x b hx hxb
    · intro o o' y y' b hy hy' hb hb'
      obtain ⟨x, hx, hxb, -⟩ := hlook hy hb
      obtain ⟨x', hx', hxb', -⟩ := hlook hy' hb'
      exact hs.unique o o' x x' b hx hx' hxb hxb'
    · intro o y b limit hy hb hlimit
      obtain ⟨x, hx, hxb, hsame⟩ := hlook hy hb
      rw [hsame]
      exact hs.near o x b limit hx hxb (hlimits ▸ hlimit)
    · intro o y b hy hb
      obtain ⟨x, hx, hxb, -⟩ := hlook hy hb
      rw [hlimits]
      exact (hs.carried o x b hx hxb).imp_right fun ⟨call, hmem, h⟩ =>
        ⟨call, OrderManager.mem_placeCalls hk hmem, h⟩
  | placed u c call b status hk hu hc hcall hfresh hids hlimits =>
    exact hs.step_placed hk hu hc hcall hfresh hids hlimits
  | modified u r p x b hk hu hx hb hids hlimits =>
    exact hs.step_modified hk hu hx hb hids hlimits

theorem synced_initial : initial.Synced where
  chained := OrderManager.chained_initial
  planned := fun _ _ _ _ ht => by cases ht
  unplaced := fun _ _ _ _ ht => by cases ht
  known := fun _ _ _ hx => by cases hx
  unique := fun _ _ _ _ _ hx => by cases hx
  near := fun _ _ _ _ hx => by cases hx
  carried := fun _ _ _ hx => by cases hx

/-- **What holds after every run of clean steps.** -/
theorem Synced.of_run (hs : s.Synced) {ls : List Label}
    (hl : machine.Along (fun _ l _ => l.clean = true) s ls) (h : machine.run s ls = some t) :
    t.Synced :=
  Machine.run_invariant (fun _ _ _ hs h hl => hs.step h hl) hs hl h

/-- An order keeps its broker id. -/
theorem Synced.keeps_id (hs : s.Synced) {ls : List Label}
    (hl : machine.Along (fun _ l _ => l.clean = true) s ls) (h : machine.run s ls = some t)
    {o : OrderId} {x : OrderState} {b : BrokerOrderId} (hx : s.om.orders[o]? = some x)
    (hb : x.brokerOrderId = some b) :
    ∃ y, t.om.orders[o]? = some y ∧ y.brokerOrderId = some b := by
  refine (Machine.run_invariant (J := fun s => s.Synced
    ∧ ∃ y, s.om.orders[o]? = some y ∧ y.brokerOrderId = some b) ?_ ⟨hs, x, hx, hb⟩ hl h).2
  rintro s l t ⟨hs, y, hy, hyb⟩ hstep hclean
  refine ⟨hs.step hstep hclean, ?_⟩
  cases step_effect hstep hclean with
  | same k hk => exact hs.unplaced.brokerOrderId hk hy hyb
  | placed u c call b' status hk => exact hs.unplaced.brokerOrderId hk hy hyb
  | modified u r p z b' hk => exact hs.unplaced.brokerOrderId hk hy hyb

/-! ## What the reconciliation finds -/

/-- The parameters of an order are reported for the order the index has for
it, where the two are not the same. -/
theorem mismatch_of_compareOrders {positions : ReconciliationReport} {orders : List OrderState}
    {openOrders : List OrderId} {index : OrderIndex} {broker : List WorkingOrder} {o : OrderId}
    {w : WorkingOrder}
    (hpositions : ∀ o w, Mismatch.orderParameterMismatch o w ∉ positions.details)
    (h : .orderParameterMismatch o w
      ∈ (compareOrders positions orders openOrders index broker).details) :
    w ∈ broker ∧ (∃ b, w.brokerOrderId = some b ∧ index b = some o)
      ∧ orders[o]?.any (sameOrder · w) = false := by
  simp only [compareOrders, List.mem_append, List.mem_filterMap] at h
  rcases h with (h | ⟨v, hv, h⟩) | ⟨i, -, h⟩
  · exact absurd h (hpositions o w)
  · obtain ⟨b, hb, h⟩ := Option.bind_eq_some_iff.mp h
    split at h
    · cases h
    · next i hi =>
      split_ifs at h with hsame
      obtain ⟨rfl, rfl⟩ := Mismatch.orderParameterMismatch.inj (Option.some.inj h)
      exact ⟨hv, ⟨b, hb, hi⟩, Bool.eq_false_of_not_eq_true hsame⟩
  · obtain ⟨b, -, h⟩ := Option.bind_eq_some_iff.mp h
    split_ifs at h
    cases h

/-- The comparison of the positions reports no orders. -/
theorem not_mem_comparePositions {internal : List Position} {held : List Holding}
    (o : OrderId) (w : WorkingOrder) :
    Mismatch.orderParameterMismatch o w ∉ (comparePositions internal held).details := by
  intro h
  obtain ⟨k, -, h⟩ := List.mem_filterMap.mp h
  unfold comparePosition at h
  dsimp only at h
  split_ifs at h <;> cases h

/-- The index names orders that have the id. -/
theorem indexOrders_eq_some {orders : List OrderState} {openOrders : List OrderId}
    {b : BrokerOrderId} {o : OrderId} (h : indexOrders orders openOrders b = some o) :
    ∃ x, orders[o]? = some x ∧ x.brokerOrderId = some b := by
  have hid : (orders[o]?.bind (·.brokerOrderId)) = some b := by
    simpa using List.find?_some h
  exact Option.bind_eq_some_iff.mp hid

/-- **A parameter that does not match is not the price**: of the order that
is reported, the contract, the side or the quantity differ. -/
def MismatchedOtherwise (s : LimitSession) (report : ReconciliationReport) : Prop :=
  ∀ o w, .orderParameterMismatch o w ∈ report.details →
    ∃ x, s.om.orders[o]? = some x ∧ (x.contract.key ≠ w.contract.key ∨ x.side ≠ w.side
      ∨ x.quantity ≠ w.quantity)

/-- Prices that differ by half a nickel are the same to the
reconciliation. -/
theorem sameOrder_of_near {x : OrderState} {w : WorkingOrder}
    (hnear : |x.limitPrice - w.limitPrice| ≤ 1 / 40) (h : sameOrder x w = false) :
    x.contract.key ≠ w.contract.key ∨ x.side ≠ w.side ∨ x.quantity ≠ w.quantity := by
  have hprice : |x.limitPrice - w.limitPrice| ≤ 501 / 10000 :=
    hnear.trans (by norm_num)
  by_contra hsame
  simp only [not_or, not_not] at hsame
  obtain ⟨hkey, hside, hquantity⟩ := hsame
  simp [sameOrder, hkey, hside, hquantity, hprice] at h

/-- **The limits agree.** Conforming is done once and for all, keeps the
order of prices, and moves none by more than half a nickel; after any run in
which no amendment fails half-way, every limit order at the broker carries a limit
and the stored one differs from it by no more than that; and a
reconciliation that indexes the orders at one moment and compares them at a
later one, with what the trades carry then, reports no order because of its
price. -/
theorem limits_agree :
    (Monotone conformTick ∧ (∀ p, conformTick (conformTick p) = conformTick p)
      ∧ ∀ p, |conformTick p - p| ≤ 1 / 40)
    ∧ ∀ (ks ms : List Label) (s t : LimitSession),
      machine.Along (fun _ l _ => l.clean = true) initial (ks ++ ms) →
      machine.run initial ks = some s → machine.run s ms = some t →
      t.Near ∧ t.Carried ∧ ∀ (internal : List Position) (held : List Holding)
        (openOrders : List OrderId) (broker : List WorkingOrder),
        (∀ w ∈ broker, ∀ b, w.brokerOrderId = some b → t.lmtPrice b = some w.limitPrice) →
        t.MismatchedOtherwise (compareOrders (comparePositions internal held) t.om.orders
          openOrders (indexOrders s.om.orders openOrders) broker) := by
  refine ⟨⟨conformTick_isRounding.monotone, conformTick_isRounding.idempotent,
    abs_conformTick_sub_le⟩, ?_⟩
  intro ks ms s t hclean hks hms
  obtain ⟨hcleanKs, hcleanMs⟩ := Machine.along_append.mp hclean
  have hs := synced_initial.of_run hcleanKs hks
  have ht := hs.of_run (hcleanMs s hks) hms
  refine ⟨ht.near, ht.carried, fun internal held openOrders broker hbroker o w hmem => ?_⟩
  obtain ⟨hw, ⟨b, hb, hindex⟩, hdiffers⟩ :=
    mismatch_of_compareOrders not_mem_comparePositions hmem
  obtain ⟨x, hx, hxb⟩ := indexOrders_eq_some hindex
  obtain ⟨y, hy, hyb⟩ := hs.keeps_id (hcleanMs s hks) hms hx hxb
  rw [hy] at hdiffers
  exact ⟨y, hy, sameOrder_of_near (ht.near o y b _ hy hyb (hbroker w hw b hb)) hdiffers⟩

/-- An exit is submitted at `3.03` and amended in place. -/
def amendedRun : List Label × List Label :=
  ( [ .program (.submit { sampleIntent (some 0) false .buy with
          limitPrice := 303 / 100, limit_pos := by decide +kernel }
        sampleDecision false (some { enabled := true, useInPlaceModify := true }) none),
      .program (.resume 0 (.placed 7 .new)) ],
    [ .program (.wake 1), .program .go, .program (.advance 5), .program (.wake 1),
      .program .go,
      .program (.resume 1 (.quote (some
        { bid := some 4, ask := some 5, timestamp := 0, bid_le_ask := by decide +kernel }))),
      .program (.resume 1 (.modified true)) ] )

theorem amendedRun_eq :
    ((machine.run initial amendedRun.1).map (fun s => (s.om.orders.map (·.limitPrice),
      s.lmtPrice 7)), (machine.run initial (amendedRun.1 ++ amendedRun.2)).map (fun s =>
        (s.om.orders.map (·.limitPrice), s.lmtPrice 7)))
      = (some ([303 / 100], some (305 / 100)), some ([4], some 4)) := by
  decide +kernel

/-- `limits_agree` after the submission, and after the amendment. -/
theorem limits_agree_amended :
    ∃ s t, machine.run initial amendedRun.1 = some s ∧ machine.run s amendedRun.2 = some t
      ∧ s.Near ∧ s.lmtPrice 7 = some (305 / 100) ∧ t.Near ∧ t.lmtPrice 7 = some 4 := by
  obtain ⟨hfirst, hboth⟩ := Prod.mk.inj amendedRun_eq
  obtain ⟨s, hs, hlimits⟩ := Option.map_eq_some_iff.mp hfirst
  obtain ⟨t, ht, hlimits'⟩ := Option.map_eq_some_iff.mp hboth
  obtain ⟨s', hs', ht'⟩ := Machine.run_append_some.mp ht
  obtain rfl := Option.some.inj (hs'.symm.trans hs)
  have hclean : machine.Along (fun _ l _ => l.clean = true) initial
      (amendedRun.1 ++ amendedRun.2) := by decide +kernel
  refine ⟨s', t, hs, ht', ?_, (Prod.mk.inj hlimits).2, ?_, (Prod.mk.inj hlimits').2⟩
  · exact (limits_agree.2 amendedRun.1 [] s' s' (Machine.along_append.mp hclean).1 hs rfl).1
  · exact (limits_agree.2 amendedRun.1 amendedRun.2 s' t hclean hs ht').1

end LimitSession
