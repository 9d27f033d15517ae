import ExecutionSystem.ReplacementChain

/-!
# The order manager and a broker

The order manager together with the broker it talks to. The broker gives
each order it accepts a status and a filled quantity, and reports both by
callback. A report is a snapshot of the moment it is sent; it is
delivered at any later time, in any order, or never. The connection comes
and goes, and any broker call may raise, also after the broker acted on
it.

What the broker answers is true of the moment: a terminal status is
reported or returned only for an order that has it. Two answers mean less
than they say. `get_order_status` returns `None` for an order the broker
does not know, and also while the connection is down. And a reject may be
about a request and not about the order: a refused modification is
reported as `REJECTED` or `ERROR` while the order works on.
-/

/-- An order at the broker. -/
structure BrokerOrder where
  /-- The order of ours it was placed for. -/
  forOrder : OrderId
  quantity : ℕ
  filled : ℕ
  status : OrderStatus
  filled_le : filled ≤ quantity
  deriving DecidableEq

namespace BrokerOrder

/-- The order as the broker accepts it. -/
def accepted (call : PlaceCall) : BrokerOrder where
  forOrder := call.order
  quantity := call.plan.quantity
  filled := 0
  status := .submitted
  filled_le := Nat.zero_le _

/-- `n` more are executed. -/
def fill (bo : BrokerOrder) (n : ℕ) (h : bo.filled + n ≤ bo.quantity) : BrokerOrder :=
  { bo with
    filled := bo.filled + n
    status := if bo.filled + n = bo.quantity then .filled else .partiallyFilled
    filled_le := h }

/-- The report of its present state. -/
def snapshot (bo : BrokerOrder) (b : BrokerOrderId) : BrokerUpdate where
  brokerOrderId := b
  status := bo.status
  filledQuantity := bo.filled

end BrokerOrder

/-- **The joint state**: the order manager, the orders at the broker – an
id is the position in which one was accepted –, the reports sent and not
delivered, and whether the connection is up. -/
structure BrokerSession where
  om : OrderManager := {}
  broker : List BrokerOrder := []
  reports : List BrokerUpdate := []
  connected : Bool := true

namespace BrokerSession

/-- What can happen next. -/
inductive Label where
  /-- A step of the order manager, or of its callers. -/
  | program (l : OrderManager.Label)
  /-- The broker accepts the order that a coroutine is placing. -/
  | accept (t : TaskId)
  | fill (b : BrokerOrderId) (n : ℕ)
  /-- A working order gets another working status. -/
  | progress (b : BrokerOrderId) (status : OrderStatus)
  /-- A working order is cancelled or rejected, or fails. -/
  | settle (b : BrokerOrderId) (status : OrderStatus)
  | report (b : BrokerOrderId)
  /-- A request about an order is refused, and that is reported. -/
  | refuse (b : BrokerOrderId) (status : OrderStatus)
  | deliver (i : ℕ)
  | connection (up : Bool)

/-- The statuses at which an order is over without being filled. -/
def dead : OrderStatus → Bool
  | .cancelled | .rejected | .error => true
  | _ => false

/-- **Whether the broker can answer so**: a placed order is one it
accepted for the order placed, and a terminal status is the one the order
has. Callbacks only come as reports. -/
def answers (s : BrokerSession) : OrderManager.Label → Bool
  | .callback _ => false
  | .resume t (.placed b status) =>
    (s.om.tasks[t]?.bind (·.placing)).any fun o => s.broker[b]?.any fun bo =>
      bo.forOrder = o && (!status.terminal || bo.status = status)
  | .resume t (.orderStatus answer) =>
    match s.om.tasks[t]? with
    | some (.sweepQuery _ _ o _) =>
      (s.om.orders[o]?.bind (·.brokerOrderId)).any fun b =>
        match answer with
        | some status =>
          s.broker[b]?.any fun bo => !status.terminal || bo.status = status
        | none => !s.connected || !s.broker[b]?.any (·.status.active)
    | _ => true
  | _ => true

/-- **One step of the order manager or of the broker.** -/
def step (s : BrokerSession) : Label → Option BrokerSession
  | .program l =>
    if s.answers l then (s.om.step l).map fun om => { s with om := om } else none
  | .accept t =>
    (s.om.tasks[t]?.bind (·.placing)).bind fun o =>
      (s.om.placeCalls.find? (·.order = o)).bind fun call =>
        if s.broker.all (·.forOrder ≠ call.order) then
          some { s with broker := s.broker ++ [.accepted call] }
        else none
  | .fill b n => s.broker[b]?.bind fun bo =>
    if h : bo.status.active = true ∧ bo.filled + n ≤ bo.quantity then
      some { s with broker := s.broker.set b (bo.fill n h.2) }
    else none
  | .progress b status => s.broker[b]?.bind fun bo =>
    if bo.status.active ∧ status.active then
      some { s with broker := s.broker.set b { bo with status := status } }
    else none
  | .settle b status => s.broker[b]?.bind fun bo =>
    if bo.status.active ∧ dead status then
      some { s with broker := s.broker.set b { bo with status := status } }
    else none
  | .report b => s.broker[b]?.map fun bo =>
    { s with reports := s.reports ++ [bo.snapshot b] }
  | .refuse b status => s.broker[b]?.bind fun bo =>
    if status = .rejected ∨ status = .error then
      some { s with reports := s.reports ++ [{ bo.snapshot b with status := status }] }
    else none
  | .deliver i => s.reports[i]?.bind fun upd =>
    (s.om.step (.callback upd)).map fun om =>
      { s with om := om, reports := s.reports.eraseIdx i }
  | .connection up => some { s with connected := up }

/-- The order manager and the broker, interleaved. -/
def machine : Machine BrokerSession Label where
  step := step

/-- No orders on either side. -/
def initial : BrokerSession := {}

/-- **What the broker has actually filled for an order of ours.** -/
def filledFor (s : BrokerSession) (o : OrderId) : ℕ :=
  ((s.broker.filter (·.forOrder = o)).map (·.filled)).sum

/-- Whether the broker has a working order that was placed for `o`. -/
def Working (s : BrokerSession) (o : OrderId) : Prop :=
  ∃ bo ∈ s.broker, bo.forOrder = o ∧ bo.status.active = true

/-! ## What a step does to either side -/

variable {s t : BrokerSession} {l : Label}

/-- The label under which the order manager takes part in a step. -/
def program? (s : BrokerSession) : Label → Option OrderManager.Label
  | .program l => some l
  | .deliver i => s.reports[i]?.map .callback
  | _ => none

/-- **The order manager takes a step of its own, or none**; what it is told
in it is an answer the broker can give, or a report. -/
theorem step_om (h : s.step l = some t) :
    (s.program? l = none ∧ t.om = s.om)
      ∨ ∃ k, s.program? l = some k ∧ s.om.step k = some t.om
        ∧ t.broker = s.broker
        ∧ (s.answers k = true ∧ t.reports = s.reports
          ∨ ∃ i upd, k = .callback upd ∧ s.reports[i]? = some upd
            ∧ t.reports = s.reports.eraseIdx i) := by
  cases l with
  | program k =>
    simp only [step, Option.ite_none_right_eq_some, Option.map_eq_some_iff] at h
    obtain ⟨ha, om, hom, rfl⟩ := h
    exact .inr ⟨k, rfl, hom, rfl, .inl ⟨ha, rfl⟩⟩
  | deliver i =>
    obtain ⟨upd, hupd, h⟩ := Option.bind_eq_some_iff.mp h
    obtain ⟨om, hom, rfl⟩ := Option.map_eq_some_iff.mp h
    exact .inr ⟨.callback upd, by simp [program?, hupd], hom, rfl,
      .inr ⟨i, upd, rfl, hupd, rfl⟩⟩
  | accept u =>
    left
    obtain ⟨o, -, h⟩ := Option.bind_eq_some_iff.mp h
    obtain ⟨call, -, h⟩ := Option.bind_eq_some_iff.mp h
    simp only [Option.ite_none_right_eq_some] at h
    obtain ⟨-, h⟩ := h
    exact ⟨rfl, Option.some.inj h ▸ rfl⟩
  | fill b n =>
    left
    obtain ⟨bo, -, h⟩ := Option.bind_eq_some_iff.mp h
    split_ifs at h
    exact ⟨rfl, Option.some.inj h ▸ rfl⟩
  | progress b status | settle b status | refuse b status =>
    left
    obtain ⟨bo, -, h⟩ := Option.bind_eq_some_iff.mp h
    simp only [Option.ite_none_right_eq_some] at h
    obtain ⟨-, h⟩ := h
    exact ⟨rfl, Option.some.inj h ▸ rfl⟩
  | report b =>
    left
    obtain ⟨bo, -, rfl⟩ := Option.map_eq_some_iff.mp h
    exact ⟨rfl, rfl⟩
  | connection up =>
    left
    exact ⟨rfl, Option.some.inj h ▸ rfl⟩

/-- **What a step does to the orders at the broker.** -/
inductive BrokerEffect (s : BrokerSession) (l : Label) (t : BrokerSession) : Prop
  | same (h : t.broker = s.broker)
  | accepted (call : PlaceCall) (hcall : call ∈ s.om.placeCalls)
      (hl : ∃ u, l = .accept u ∧ s.om.tasks[u]?.bind (·.placing) = some call.order)
      (hnew : ∀ bo ∈ s.broker, bo.forOrder ≠ call.order)
      (h : t.broker = s.broker ++ [.accepted call])
  | changed (b : BrokerOrderId) (bo bo' : BrokerOrder)
      (hbo : s.broker[b]? = some bo) (hactive : bo.status.active = true)
      (hfor : bo'.forOrder = bo.forOrder) (hq : bo'.quantity = bo.quantity)
      (hfilled : bo.filled ≤ bo'.filled)
      (hl : bo'.filled = bo.filled ∨ ∃ n, l = .fill b n)
      (h : t.broker = s.broker.set b bo')

theorem step_broker (h : s.step l = some t) : BrokerEffect s l t := by
  cases l with
  | program k =>
    simp only [step, Option.ite_none_right_eq_some, Option.map_eq_some_iff] at h
    obtain ⟨-, om, -, rfl⟩ := h
    exact .same rfl
  | deliver i =>
    obtain ⟨upd, -, h⟩ := Option.bind_eq_some_iff.mp h
    obtain ⟨om, -, rfl⟩ := Option.map_eq_some_iff.mp h
    exact .same rfl
  | accept u =>
    obtain ⟨o, ho, h⟩ := Option.bind_eq_some_iff.mp h
    obtain ⟨call, hcall, h⟩ := Option.bind_eq_some_iff.mp h
    simp only [Option.ite_none_right_eq_some] at h
    obtain ⟨hnew, h⟩ := h
    obtain rfl := Option.some.inj h
    have horder : call.order = o := by simpa using List.find?_some hcall
    exact .accepted call (List.mem_of_find?_eq_some hcall)
      ⟨u, rfl, horder ▸ ho⟩ (by simpa using hnew) rfl
  | fill b n =>
    obtain ⟨bo, hbo, h⟩ := Option.bind_eq_some_iff.mp h
    split_ifs at h with hc
    obtain rfl := Option.some.inj h
    exact .changed b bo (bo.fill n hc.2) hbo hc.1 rfl rfl (Nat.le_add_right _ _)
      (.inr ⟨n, rfl⟩) rfl
  | progress b status | settle b status =>
    obtain ⟨bo, hbo, h⟩ := Option.bind_eq_some_iff.mp h
    simp only [Option.ite_none_right_eq_some] at h
    obtain ⟨hc, h⟩ := h
    obtain rfl := Option.some.inj h
    exact .changed b bo { bo with status := status } hbo hc.1 rfl rfl le_rfl
      (.inl rfl) rfl
  | refuse b status =>
    obtain ⟨bo, -, h⟩ := Option.bind_eq_some_iff.mp h
    simp only [Option.ite_none_right_eq_some] at h
    obtain ⟨-, h⟩ := h
    exact .same (Option.some.inj h ▸ rfl)
  | report b =>
    obtain ⟨bo, -, rfl⟩ := Option.map_eq_some_iff.mp h
    exact .same rfl
  | connection up => exact .same (Option.some.inj h ▸ rfl)

/-! ## Soundness of the session -/

/-- **What holds in every reachable joint state**: the two sides agree on
which order is which and on its quantity, the broker has at most one
order for one of ours, and every report is true – of a fill at the least,
and of a terminal status unless it may be about a request. -/
structure Sound (s : BrokerSession) : Prop where
  chained : s.om.Chained
  known : ∀ (o : OrderId) (x : OrderState) (b : BrokerOrderId),
    s.om.orders[o]? = some x → x.brokerOrderId = some b →
      ∃ bo, s.broker[b]? = some bo ∧ bo.forOrder = o
  ordered : ∀ bo ∈ s.broker, ∃ x, s.om.orders[bo.forOrder]? = some x
    ∧ x.quantity = bo.quantity
  unique : (s.broker.map (·.forOrder)).Nodup
  reports : ∀ upd ∈ s.reports, ∃ bo, s.broker[upd.brokerOrderId]? = some bo
    ∧ upd.filledQuantity ≤ bo.filled
    ∧ (upd.status.terminal = true →
        bo.status = upd.status ∨ upd.status = .rejected ∨ upd.status = .error)
  stored : ∀ (o : OrderId) (x : OrderState), s.om.orders[o]? = some x →
    x.filledQuantity ≤ s.filledFor o

/-- The one order the broker has for an order of ours. -/
theorem Sound.filledFor_eq (hs : s.Sound) {b : BrokerOrderId} {bo : BrokerOrder}
    (hbo : s.broker[b]? = some bo) : s.filledFor bo.forOrder = bo.filled := by
  unfold filledFor
  rw [List.filter_key_eq hs.unique (List.mem_of_getElem? hbo)]
  simp

/-- Where the broker has no order for ours, it has filled nothing. -/
theorem filledFor_eq_zero {o : OrderId} (h : ∀ bo ∈ s.broker, bo.forOrder ≠ o) :
    s.filledFor o = 0 := by
  have : s.broker.filter (·.forOrder = o) = [] :=
    List.filter_eq_nil_iff.mpr fun bo hbo => by simpa using h bo hbo
  simp [filledFor, this]

/-- The broker never fills more than was asked for. -/
theorem Sound.filledFor_le (hs : s.Sound) {o : OrderId} {x : OrderState}
    (hx : s.om.orders[o]? = some x) : s.filledFor o ≤ x.quantity := by
  by_cases h : ∃ bo ∈ s.broker, bo.forOrder = o
  · obtain ⟨bo, hmem, rfl⟩ := h
    obtain ⟨b, hb⟩ := List.mem_iff_getElem?.mp hmem
    obtain ⟨y, hy, hq⟩ := hs.ordered bo hmem
    rw [hs.filledFor_eq hb, Option.some.inj (hx.symm.trans hy), hq]
    exact bo.filled_le
  · rw [filledFor_eq_zero fun bo hbo ho => h ⟨bo, hbo, ho⟩]
    exact Nat.zero_le _

/-- **What a step does to the fills**: only an execution adds to them, and
only to those of the order executed. -/
theorem step_filledFor (h : s.step l = some t) (o : OrderId) :
    s.filledFor o ≤ t.filledFor o
      ∧ (t.filledFor o = s.filledFor o
        ∨ ∃ b n bo, l = .fill b n ∧ s.broker[b]? = some bo ∧ bo.forOrder = o) := by
  cases step_broker h with
  | same hb => simp [filledFor, hb]
  | accepted call hcall hl hnew hb =>
    have : t.filledFor o = s.filledFor o := by
      simp only [filledFor, hb, List.filter_append, List.map_append, List.sum_append]
      by_cases ho : call.order = o <;> simp [BrokerOrder.accepted, ho]
    exact ⟨this.ge, .inl this⟩
  | changed b bo bo' hbo hactive hfor hq hfilled hl hb =>
    have hsum := List.sum_map_filter_modify (fun bo => decide (bo.forOrder = o))
      (·.filled) (fun _ => bo') hbo
    rw [← List.set_eq_modify, ← hb, hfor] at hsum
    change t.filledFor o + _ = s.filledFor o + _ at hsum
    by_cases ho : bo.forOrder = o
    · simp only [ho, decide_true, if_true] at hsum
      refine ⟨by omega, ?_⟩
      rcases hl with hl | ⟨n, rfl⟩
      · left; omega
      · exact .inr ⟨b, n, bo, rfl, hbo, ho⟩
    · simp only [ho, decide_false, Bool.false_eq_true, if_false] at hsum
      exact ⟨by omega, .inl (by omega)⟩

/-- The orders at the broker are all still there, each for what it was for
and filled no less, and terminal if it was. -/
theorem BrokerEffect.lookup (h : BrokerEffect s l t) {b : BrokerOrderId}
    {bo : BrokerOrder} (hbo : s.broker[b]? = some bo) :
    ∃ bo', t.broker[b]? = some bo' ∧ bo'.forOrder = bo.forOrder
      ∧ bo.filled ≤ bo'.filled
      ∧ (bo.status.terminal = true → bo'.status = bo.status) := by
  have hlt := (List.getElem?_eq_some_iff.mp hbo).1
  cases h with
  | same h => exact ⟨bo, h ▸ hbo, rfl, le_rfl, fun _ => rfl⟩
  | accepted call hcall hl hnew h =>
    exact ⟨bo, by rw [h, List.getElem?_append_left hlt, hbo], rfl, le_rfl, fun _ => rfl⟩
  | changed i z z' hz hactive hfor hq hfilled hl h =>
    by_cases hi : i = b
    · subst hi
      obtain rfl := Option.some.inj (hbo.symm.trans hz)
      refine ⟨z', by rw [h, List.getElem?_set_self hlt], hfor, hfilled, fun hd => ?_⟩
      rw [OrderStatus.active_eq_not_terminal, hd] at hactive
      cases hactive
    · exact ⟨bo, by rw [h, List.getElem?_set_ne hi, hbo], rfl, le_rfl, fun _ => rfl⟩

/-- The reports of the state after a step are those of the state before,
but for one the step sends. -/
theorem step_reports (h : s.step l = some t) {upd : BrokerUpdate}
    (hupd : upd ∈ t.reports) :
    upd ∈ s.reports ∨ t.broker = s.broker ∧ ∃ bo,
      s.broker[upd.brokerOrderId]? = some bo ∧ upd.filledQuantity = bo.filled
        ∧ (bo.status = upd.status ∨ upd.status = .rejected ∨ upd.status = .error) := by
  -- steps of the program report nothing; of the broker's, two add a report
  rcases step_om h with ⟨hprog, -⟩ | ⟨k, -, -, -, ⟨-, hr⟩ | ⟨i, -, -, -, hr⟩⟩
  · cases l with
    | program k => cases hprog
    | deliver i =>
      obtain ⟨u, hu, h⟩ := Option.bind_eq_some_iff.mp h
      simp [program?, hu] at hprog
    | accept u =>
      obtain ⟨o, -, h⟩ := Option.bind_eq_some_iff.mp h
      obtain ⟨call, -, h⟩ := Option.bind_eq_some_iff.mp h
      simp only [Option.ite_none_right_eq_some] at h
      obtain ⟨-, h⟩ := h
      obtain rfl := Option.some.inj h
      exact .inl hupd
    | fill b n =>
      obtain ⟨bo, -, h⟩ := Option.bind_eq_some_iff.mp h
      split_ifs at h
      obtain rfl := Option.some.inj h
      exact .inl hupd
    | progress b status | settle b status =>
      obtain ⟨bo, -, h⟩ := Option.bind_eq_some_iff.mp h
      simp only [Option.ite_none_right_eq_some] at h
      obtain ⟨-, h⟩ := h
      obtain rfl := Option.some.inj h
      exact .inl hupd
    | report b =>
      obtain ⟨bo, hbo, rfl⟩ := Option.map_eq_some_iff.mp h
      rcases List.mem_append.mp hupd with hupd | hupd
      · exact .inl hupd
      · obtain rfl := List.mem_singleton.mp hupd
        exact .inr ⟨rfl, bo, hbo, rfl, .inl rfl⟩
    | refuse b status =>
      obtain ⟨bo, hbo, h⟩ := Option.bind_eq_some_iff.mp h
      simp only [Option.ite_none_right_eq_some] at h
      obtain ⟨hstatus, h⟩ := h
      obtain rfl := Option.some.inj h
      rcases List.mem_append.mp hupd with hupd | hupd
      · exact .inl hupd
      · obtain rfl := List.mem_singleton.mp hupd
        exact .inr ⟨rfl, bo, hbo, rfl, .inr hstatus⟩
    | connection up =>
      obtain rfl := Option.some.inj h
      exact .inl hupd
  · exact .inl (hr ▸ hupd)
  · exact .inl (List.mem_of_mem_eraseIdx (hr ▸ hupd))

/-- An order of ours after a step: untouched, or touched by the step the
order manager takes, or created by it. -/
theorem step_lookup (h : s.step l = some t) {o : OrderId} {y : OrderState}
    (hy : t.om.orders[o]? = some y) :
    (∃ x, s.om.orders[o]? = some x ∧ (y = x
        ∨ ∃ k, s.program? l = some k ∧ s.om.Touch k o x y
          ∧ (s.answers k = true
            ∨ ∃ (i : ℕ) (upd : BrokerUpdate), k = .callback upd
              ∧ s.reports[i]? = some upd)))
      ∨ ∃ k, s.program? l = some k ∧ s.om.Created k t.om y := by
  rcases step_om h with ⟨-, hom⟩ | ⟨k, hk, hom, -, hanswer⟩
  · exact .inl ⟨y, hom ▸ hy, .inl rfl⟩
  · rcases (OrderManager.step_effect hom).lookup hy with ⟨x, hx, htouch⟩ | ⟨-, hnew⟩
    · refine .inl ⟨x, hx, .inr ⟨k, hk, htouch, ?_⟩⟩
      rcases hanswer with ⟨ha, -⟩ | ⟨i, upd, hupd, hi, -⟩
      · exact .inl ha
      · exact .inr ⟨i, upd, hupd, hi⟩
    · exact .inr ⟨k, hk, hnew⟩

/-- An order of ours is still there after a step, for the same quantity. -/
theorem step_order (h : s.step l = some t) {o : OrderId} {x : OrderState}
    (hx : s.om.orders[o]? = some x) :
    ∃ y, t.om.orders[o]? = some y ∧ y.quantity = x.quantity := by
  rcases step_om h with ⟨-, hom⟩ | ⟨k, -, hom, -⟩
  · exact ⟨x, hom ▸ hx, rfl⟩
  · obtain ⟨y, hy, htouch⟩ := (OrderManager.step_effect hom).touch hx
    exact ⟨y, hy, htouch.fixed.2.2.2.2.2.1⟩

/-- A broker id that is answered is that of an order placed for ours. -/
theorem answers_placed {u : TaskId} {b : BrokerOrderId} {status : OrderStatus}
    {o : OrderId} (ha : s.answers (.resume u (.placed b status)) = true)
    (ho : s.om.tasks[u]?.bind (·.placing) = some o) :
    ∃ bo, s.broker[b]? = some bo ∧ bo.forOrder = o
      ∧ (status.terminal = true → bo.status = status) := by
  simp only [answers, ho, Option.any_some, Option.any_eq_true, Bool.and_eq_true,
    decide_eq_true_eq, Bool.or_eq_true, Bool.not_eq_true'] at ha
  obtain ⟨bo, hbo, hfor, hstatus⟩ := ha
  refine ⟨bo, hbo, hfor, fun hd => ?_⟩
  rcases hstatus with h | h
  · rw [hd] at h; cases h
  · exact h

theorem Sound.known_step (hs : s.Sound) (h : s.step l = some t) {o : OrderId}
    {y : OrderState} {b : BrokerOrderId} (hy : t.om.orders[o]? = some y)
    (hyb : y.brokerOrderId = some b) :
    ∃ bo, t.broker[b]? = some bo ∧ bo.forOrder = o := by
  have hold : ∀ {bo}, s.broker[b]? = some bo → bo.forOrder = o →
      ∃ bo, t.broker[b]? = some bo ∧ bo.forOrder = o := by
    intro bo hbo hfor
    obtain ⟨bo', hbo', hfor', -⟩ := (step_broker h).lookup hbo
    exact ⟨bo', hbo', hfor'.trans hfor⟩
  rcases step_lookup h hy with ⟨x, hx, rfl | ⟨k, -, htouch, ha⟩⟩ | ⟨k, -, hnew⟩
  · obtain ⟨bo, hbo, hfor⟩ := hs.known o y b hx hyb
    exact hold hbo hfor
  · rcases htouch.brokerOrderId with hsame | ⟨u, b', status, rfl, ho, hb'⟩
    · obtain ⟨bo, hbo, hfor⟩ := hs.known o x b hx (hsame ▸ hyb)
      exact hold hbo hfor
    · obtain rfl := Option.some.inj (hyb.symm.trans hb')
      have ha := ha.resolve_right fun ⟨_, _, h, _⟩ => nomatch h
      obtain ⟨bo, hbo, hfor, -⟩ := answers_placed ha ho
      exact hold hbo hfor
  · cases hnew <;> cases hyb

theorem Sound.ordered_step (hs : s.Sound) (h : s.step l = some t) {bo : BrokerOrder}
    (hbo : bo ∈ t.broker) :
    ∃ y, t.om.orders[bo.forOrder]? = some y ∧ y.quantity = bo.quantity := by
  have hold : ∀ {z}, z ∈ s.broker →
      ∃ y, t.om.orders[z.forOrder]? = some y ∧ y.quantity = z.quantity := by
    intro z hz
    obtain ⟨x, hx, hq⟩ := hs.ordered z hz
    obtain ⟨y, hy, hyq⟩ := step_order h hx
    exact ⟨y, hy, hyq.trans hq⟩
  cases step_broker h with
  | same hb => exact hold (hb ▸ hbo)
  | accepted call hcall hl hnew hb =>
    rcases List.mem_append.mp (hb ▸ hbo) with hbo | hbo
    · exact hold hbo
    · obtain rfl := List.mem_singleton.mp hbo
      obtain ⟨x, hx, hq⟩ := hs.chained.called.order call hcall
      obtain ⟨y, hy, hyq⟩ := step_order h hx
      exact ⟨y, hy, hyq.trans hq⟩
  | changed b z z' hz hactive hfor hq hfilled hl hb =>
    rcases List.mem_or_eq_of_mem_set (hb ▸ hbo) with hbo | rfl
    · exact hold hbo
    · rw [hfor, hq]
      exact hold (List.mem_of_getElem? hz)

theorem Sound.unique_step (hs : s.Sound) (h : s.step l = some t) :
    (t.broker.map (·.forOrder)).Nodup := by
  cases step_broker h with
  | same hb => exact hb ▸ hs.unique
  | accepted call hcall hl hnew hb =>
    rw [hb, List.map_append, List.nodup_append_comm]
    refine List.nodup_cons.mpr ⟨fun hmem => ?_, hs.unique⟩
    obtain ⟨bo, hbo, hfor⟩ := List.mem_map.mp hmem
    exact hnew bo hbo hfor
  | changed b z z' hz hactive hfor hq hfilled hl hb =>
    have hsame : t.broker.map (·.forOrder) = s.broker.map (·.forOrder) := by
      obtain ⟨hlt, rfl⟩ := List.getElem?_eq_some_iff.mp hz
      rw [hb, List.map_set, hfor, ← List.getElem_map (fun bo : BrokerOrder => bo.forOrder)]
      · exact List.set_getElem_self _
      · rwa [List.length_map]
    exact hsame ▸ hs.unique

theorem Sound.reports_step (hs : s.Sound) (h : s.step l = some t) {upd : BrokerUpdate}
    (hupd : upd ∈ t.reports) :
    ∃ bo, t.broker[upd.brokerOrderId]? = some bo ∧ upd.filledQuantity ≤ bo.filled
      ∧ (upd.status.terminal = true →
          bo.status = upd.status ∨ upd.status = .rejected ∨ upd.status = .error) := by
  rcases step_reports h hupd with hold | ⟨hb, bo, hbo, hfilled, hstatus⟩
  · obtain ⟨bo, hbo, hfilled, hstatus⟩ := hs.reports upd hold
    obtain ⟨bo', hbo', -, hle, hd⟩ := (step_broker h).lookup hbo
    refine ⟨bo', hbo', hfilled.trans hle, fun hterm => ?_⟩
    rcases hstatus hterm with h | h
    · exact .inl ((hd (h ▸ hterm)).trans h)
    · exact .inr h
  · exact ⟨bo, hb ▸ hbo, hfilled.le, fun _ => hstatus⟩

theorem Sound.stored_step (hs : s.Sound) (h : s.step l = some t) {o : OrderId}
    {y : OrderState} (hy : t.om.orders[o]? = some y) :
    y.filledQuantity ≤ t.filledFor o := by
  have hmono := (step_filledFor h o).1
  rcases step_lookup h hy with ⟨x, hx, rfl | ⟨k, -, htouch, ha⟩⟩ | ⟨k, -, hnew⟩
  · exact (hs.stored o y hx).trans hmono
  · rcases htouch.filledQuantity with hsame | ⟨upd, rfl, ho, hfilled⟩
    · exact hsame ▸ (hs.stored o x hx).trans hmono
    · obtain ⟨i, _, heq, hi⟩ := ha.resolve_left nofun
      cases heq
      obtain ⟨z, hz, hzb⟩ := OrderManager.findOrderByBrokerId_eq_some ho
      obtain ⟨bo, hbo, hfor⟩ := hs.known o z _ hz hzb
      obtain ⟨bo', hbo', hle, -⟩ := hs.reports upd (List.mem_of_getElem? hi)
      obtain rfl := Option.some.inj (hbo.symm.trans hbo')
      rw [hfilled]
      exact (hle.trans (hfor ▸ hs.filledFor_eq hbo).ge).trans hmono
  · cases hnew <;> exact Nat.zero_le _

/-- **Soundness is kept by every step.** -/
theorem Sound.step (hs : s.Sound) (h : s.step l = some t) : t.Sound where
  chained := by
    rcases step_om h with ⟨-, hom⟩ | ⟨k, -, hom, -⟩
    · exact hom ▸ hs.chained
    · exact hs.chained.step hom
  known _ _ _ := hs.known_step h
  ordered _ := hs.ordered_step h
  unique := hs.unique_step h
  reports _ := hs.reports_step h
  stored _ _ := hs.stored_step h

theorem sound_initial : initial.Sound where
  chained := OrderManager.chained_initial
  known := fun _ _ _ hx => by cases hx
  ordered := nofun
  unique := List.nodup_nil
  reports := nofun
  stored := fun _ _ hx => by cases hx

end BrokerSession
