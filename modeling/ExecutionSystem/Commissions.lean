import ExecutionSystem.Executions
import ExecutionSystem.ReplacementChain
import ExecutionSystem.Retirement

/-!
# Commissions and the positions that bear them

An order has two ids: the order manager's own, and one that the client
makes up in `place_order` and keeps with the broker id. A fill arrives with
the client's id and is given the order manager's (`attributed`), so the
order ids in the book are the order manager's. A commission arrives with
the client's id as well, and it is looked up by that.

The ids being what they are, a commission finds no position, whatever the
orders and their fills (`onCommission_eq`). So the realized profit of the
book stays the gross one, and it is the net one exactly where the
commissions reported add up to nothing.
-/

namespace OrderManager

variable {om om' : OrderManager} {l : Label}

/-! ## Broker ids stay -/

/-- **An order that is being placed has no broker id yet.** -/
def Unplaced (om : OrderManager) : Prop :=
  ∀ (t : TaskId) (c : Coroutine) (o : OrderId) (x : OrderState), om.tasks[t]? = some c →
    c.placing = some o → om.orders[o]? = some x → x.brokerOrderId = none

/-- One coroutine places an order. -/
theorem Owned.placing_unique (h : om.Owned) {t u : TaskId} {c d : Coroutine} {o : OrderId}
    (ht : om.tasks[t]? = some c) (hu : om.tasks[u]? = some d) (hc : c.placing = some o)
    (hd : d.placing = some o) : t = u :=
  List.index_eq_of_filterMap_nodup h.nodup ht hu (Coroutine.owner_of_placing hc)
    (Coroutine.owner_of_placing hd)

/-- **`place_order` returns**: its order has the broker id, and no coroutine
awaits it any more. -/
theorem step_placed {t : TaskId} {b : BrokerOrderId} {status : OrderStatus} {c : Coroutine}
    {o : OrderId} (h : om.step (.resume t (.placed b status)) = some om')
    (ht : om.tasks[t]? = some c) (hc : c.placing = some o) :
    om'.orders = om.orders.modify o (.placed b status om.clock)
      ∧ ∀ d, om'.tasks[t]? = some d → d.placing = none := by
  have hlt : t < om.tasks.length := (List.getElem?_eq_some_iff.mp ht).1
  have hset : ∀ {c' d : Coroutine}, (om.tasks.set t c')[t]? = some d → d = c' := by
    intro c' d hd
    rw [List.getElem?_set_self hlt] at hd
    exact (Option.some.inj hd).symm
  unfold step at h
  dsimp only at h
  split_ifs at h
  rw [ht, Option.bind_some] at h
  cases c with
  | placeAwait i reprice =>
    obtain rfl := Option.some.inj hc
    obtain rfl := Option.some.inj h
    cases reprice with
    | none => exact ⟨rfl, fun d hd => by rw [hset hd]; rfl⟩
    | some config =>
      refine ⟨rfl, fun d hd => ?_⟩
      have hd : (om.tasks.set t (.done true) ++ [.repricerStart i config])[t]? = some d := hd
      rw [List.getElem?_append_left (by rwa [List.length_set])] at hd
      rw [hset hd]
      rfl
  | replaceAwait r n =>
    obtain rfl := Option.some.inj hc
    obtain rfl := Option.some.inj h
    exact ⟨rfl, fun d hd => by rw [hset hd]; rfl⟩
  | _ => cases hc

theorem Unplaced.step (hs : om.Unplaced) (ho : om.Owned) (h : om.step l = some om') :
    om'.Unplaced := by
  intro u d o y hu hd hy
  have he := step_effect h
  have hcreated : ∀ {z}, Created om l om' z → z.brokerOrderId = none := by
    intro z hz
    cases hz <;> rfl
  -- an order that is new has no broker id
  have hnew : o = om.orders.length → y.brokerOrderId = none := by
    rintro rfl
    rcases he.lookup hy with ⟨x, hx, -⟩ | ⟨-, hz⟩
    · exact absurd (List.getElem?_eq_some_iff.mp hx).1 (lt_irrefl _)
    · exact hcreated hz
  rcases he.task hu with ⟨c, hc, hturn⟩ | ⟨-, hstarted⟩
  · cases hturn with
    | kept =>
      rcases he.lookup hy with ⟨x, hx, htouch⟩ | ⟨-, hz⟩
      · rcases htouch.brokerOrderId with heq | ⟨t, b, status, rfl, hplacing, -⟩
        · exact heq.trans (hs u d o x hc hd hx)
        · obtain ⟨c, ht, hct⟩ := Option.bind_eq_some_iff.mp hplacing
          obtain rfl := ho.placing_unique hc ht hd hct
          rw [(step_placed h hc hd).2 d hu] at hd
          cases hd
      · exact hcreated hz
    | moved hn =>
      rw [hn.placing] at hd
      cases hd
    | replaces attempts hpoll => exact hnew (Option.some.inj hd).symm
  · cases hstarted with
    | places => exact hnew (Option.some.inj hd).symm
    | _ => cases hd

/-- **An order keeps its broker id.** -/
theorem Unplaced.brokerOrderId (hs : om.Unplaced) (h : om.step l = some om') {o : OrderId}
    {x : OrderState} {b : BrokerOrderId} (hx : om.orders[o]? = some x)
    (hb : x.brokerOrderId = some b) :
    ∃ y, om'.orders[o]? = some y ∧ y.brokerOrderId = some b := by
  obtain ⟨y, hy, htouch⟩ := (step_effect h).touch hx
  refine ⟨y, hy, ?_⟩
  rcases htouch.brokerOrderId with heq | ⟨t, _, _, -, ho, -⟩
  · exact heq.trans hb
  · obtain ⟨c, ht, hc⟩ := Option.bind_eq_some_iff.mp ho
    rw [hs t c o x ht hc hx] at hb
    cases hb

end OrderManager

/-! ## The book without order ids -/

/-- A position without its order ids and its exit rules. -/
def Position.bare (pos : Position) : Position :=
  { pos with
    entryOrderId := 0
    exitOrderIds := []
    stopPrice := none
    targetPrice := none
    timeExitUtc := none
    useMidForExits := false
    updatedAt := 0 }

/-- A fill without its order id. -/
def FillEvent.bare (fill : FillEvent) : FillEvent := { fill with orderId := 0 }

theorem Position.bare_filled (fill : FillEvent) (pos : Position) :
    (pos.filled fill).bare = (pos.bare.filled fill.bare).bare := by
  unfold filled
  show Position.bare (if fill.side = pos.side then _ else if fill.filledQuantity < pos.quantity
    then _ else _) = Position.bare (if fill.side = pos.side then _
      else if fill.filledQuantity < pos.quantity then _ else _)
  split_ifs <;> rfl

namespace PositionManager

/-- The book without its order ids and exit rules. -/
def bare (pm : PositionManager) : PositionManager := ⟨pm.positions.map Position.bare⟩

/-- The profit realized so far. -/
def realized (pm : PositionManager) : ℚ := (pm.positions.map (·.realizedPnl)).sum

theorem realized_bare (pm : PositionManager) : pm.bare.realized = pm.realized := by
  unfold realized bare
  rw [List.map_map]
  rfl

theorem freshId_bare (pm : PositionManager) : pm.bare.freshId = pm.freshId := by
  unfold freshId bare
  rw [List.map_map]
  rfl

/-- **What a fill does can be seen on what is kept of the positions**, where that
tells what the fill is for and what becomes of a position. -/
theorem map_handleFillDrawing {f : Position → Position} {fill fill' : FillEvent}
    {drawn drawn' : PositionId} (hcand : ∀ pos, candidate fill' (f pos) = candidate fill pos)
    (hopened : f (.opened drawn fill) = f (.opened drawn' fill'))
    (hfilled : ∀ pos, f (pos.filled fill) = f ((f pos).filled fill'))
    (hkept : ∀ pos, f (f pos) = f pos) (pm : PositionManager) :
    (pm.handleFillDrawing drawn fill).1.positions.map f
      = (handleFillDrawing ⟨pm.positions.map f⟩ drawn' fill').1.positions.map f := by
  have htarget : target ⟨pm.positions.map f⟩ fill' none = pm.target fill none := by
    show (pm.positions.map f).findIdx? (candidate fill') = pm.positions.findIdx? (candidate fill)
    rw [List.findIdx?_map]
    exact congrArg (pm.positions.findIdx? ·) (funext hcand)
  have hget : ∀ i : ℕ, (pm.positions.map f)[i]? = pm.positions[i]?.map f := fun i =>
    List.getElem?_map ..
  unfold handleFillDrawing
  dsimp only
  rw [htarget]
  cases ht : pm.target fill none with
  | none =>
    show (pm.positions ++ [_]).map f = (pm.positions.map f ++ [_]).map f
    rw [List.map_append, List.map_append, List.map_map]
    exact congrArg₂ (· ++ ·) (List.map_congr_left fun pos _ => (hkept pos).symm)
      (congrArg ([·]) hopened)
  | some i =>
    obtain ⟨pos, hpos, -, -⟩ := candidate_of_target ht
    rw [Option.bind_some, Option.bind_some, hget, hpos, Option.map_some, Option.map_some]
    show (pm.positions.modify i _).map f = ((pm.positions.map f).modify i _).map f
    refine List.ext_getElem? fun j => ?_
    rw [List.getElem?_map, List.getElem?_map, List.getElem?_modify, List.getElem?_modify, hget]
    cases pm.positions[j]? with
    | none => rfl
    | some x =>
      show some (f (if _ then _ else _)) = some (f (if _ then _ else _))
      split_ifs
      · rw [hfilled]
      · exact congrArg some (hkept x).symm

/-- **Order ids and exit rules do not matter for what a fill does.** -/
theorem bare_handleFill (pm : PositionManager) (fill : FillEvent) :
    (pm.handleFill fill).1.bare = (pm.bare.handleFill fill.bare).1.bare := by
  unfold handleFill
  rw [freshId_bare]
  exact congrArg mk (@map_handleFillDrawing Position.bare fill fill.bare _ _ (fun _ => rfl) rfl
    (Position.bare_filled fill) (fun _ => rfl) pm)

/-- Fills that differ in their order ids do the same to books that do. -/
theorem bare_handleFill_congr {pm pm' : PositionManager} {fill fill' : FillEvent}
    (hpm : pm.bare = pm'.bare) (hfill : fill.bare = fill'.bare) :
    (pm.handleFill fill).1.bare = (pm'.handleFill fill').1.bare := by
  rw [bare_handleFill, hpm, hfill, ← bare_handleFill]

/-- The order ids in the book after a fill are those before and that of the
fill. -/
theorem ofOrder_handleFill {pm : PositionManager} {fill : FillEvent} {pos : Position}
    {o : OrderId} (hpos : pos ∈ (pm.handleFill fill).1.positions) (ho : pos.ofOrder o = true) :
    o = fill.orderId ∨ ∃ pos₀ ∈ pm.positions, pos₀.ofOrder o = true := by
  have hof : ∀ {pos : Position}, pos.ofOrder o = true
      ↔ pos.entryOrderId = o ∨ o ∈ pos.exitOrderIds := by
    intro pos
    rw [Position.ofOrder, Bool.or_eq_true, decide_eq_true_eq, decide_eq_true_eq]
  rcases pm.handleFill_cases fill with ⟨-, heq⟩ | ⟨i, x, hx, -, -, heq⟩
  · rw [heq, List.mem_append, List.mem_singleton] at hpos
    rcases hpos with hpos | rfl
    · exact .inr ⟨pos, hpos, ho⟩
    · rcases hof.mp ho with hentry | hexit
      · exact .inl hentry.symm
      · cases hexit
  · rw [heq] at hpos
    rcases List.mem_of_mem_modify hpos with hpos | ⟨y, hy, rfl⟩
    · exact .inr ⟨pos, hpos, ho⟩
    · have hexits : ∀ {o : OrderId},
          o ∈ y.exitOrders fill → o = fill.orderId ∨ o ∈ y.exitOrderIds := by
        intro o hmem
        unfold Position.exitOrders at hmem
        split_ifs at hmem
        · exact .inr hmem
        · rw [List.mem_append, List.mem_singleton] at hmem
          exact hmem.symm
      have hold : y.ofOrder o = true → ∃ pos₀ ∈ pm.positions, pos₀.ofOrder o = true :=
        fun h => ⟨y, List.mem_of_getElem? hy, h⟩
      unfold Position.filled at ho
      split_ifs at ho
      · exact .inr (hold ho)
      all_goals
        rcases hof.mp ho with hentry | hexit
        · exact .inr (hold (hof.mpr (.inl hentry)))
        · exact (hexits hexit).imp_right fun hmem => hold (hof.mpr (.inr hmem))

end PositionManager

namespace ExecutionSession

variable {env : RunnerEnv} {start : ExecutionRunner.Startup} {s t : ExecutionSession}
  {l : Label} {ls : List Label}

/-- The book of the fills alone. -/
def grossBook (start : ExecutionRunner.Startup) (s : ExecutionSession) : PositionManager :=
  (s.fills.map (·.2)).foldl (fun pm fill => (pm.handleFill fill).1) ⟨start.positions⟩

/-- **The profit of the book is net of commissions**: it is what the fills
alone realize, less the commissions reported. -/
def NetPnl (start : ExecutionRunner.Startup) (s : ExecutionSession) : Prop :=
  s.runner.pm.realized = (s.grossBook start).realized - (s.commissions.map (·.2)).sum

instance (start : ExecutionRunner.Startup) (s : ExecutionSession) : Decidable (s.NetPnl start) :=
  inferInstanceAs (Decidable (_ = _))

/-- **The ids that the client makes up are fresh**: they are not the order
manager's, nor in the book at the start. -/
def FreshIds (start : ExecutionRunner.Startup) (s : ExecutionSession) : Prop :=
  ∀ entry ∈ s.orderMetadata, s.runner.om.orders.length ≤ entry.2.orderId
    ∧ ∀ pos ∈ start.positions, pos.ofOrder entry.2.orderId = false

instance (start : ExecutionRunner.Startup) : DecidablePred (FreshIds start) := fun _ =>
  inferInstanceAs (Decidable (∀ _ ∈ _, _ ∧ _))

/-- **What the two ids of an order are**: an order that the client knows is
the order manager's, too, and the order ids in the book are the order
manager's. -/
structure Attributed (start : ExecutionRunner.Startup) (s : ExecutionSession) : Prop where
  owned : s.runner.om.Owned
  unplaced : s.runner.om.Unplaced
  known : ∀ entry ∈ s.orderMetadata, ∃ (o : OrderId) (x : OrderState),
    s.runner.om.orders[o]? = some x ∧ x.brokerOrderId = some entry.1
  ids : ∀ pos ∈ s.runner.pm.positions, ∀ o, pos.ofOrder o = true →
    o < s.runner.om.orders.length ∨ ∃ pos₀ ∈ start.positions, pos₀.ofOrder o = true
  book : s.runner.pm.bare = (s.grossBook start).bare

/-- A commission finds no position under an id that is fresh. -/
theorem onCommission_eq {r : ExecutionRunner} {o : OrderId}
    (h : ∀ pos ∈ r.pm.positions, pos.ofOrder o = false) (commission : ℚ) :
    r.onCommission o commission = r := by
  have hnone : (r.pm.positions.findIdx? fun pos => pos.ofOrder o) = none := by
    rw [List.findIdx?_eq_none_iff]
    exact h
  unfold ExecutionRunner.onCommission
  rw [hnone]

/-- What is kept of an order is kept under its broker id. -/
theorem mem_of_metadata {b : BrokerOrderId} {md : OrderMetadata} (h : s.metadata b = some md) :
    (b, md) ∈ s.orderMetadata := by
  obtain ⟨front, back, heq, -⟩ := List.lookup_eq_some_iff.mp h
  rw [heq]
  exact List.mem_append_right _ (List.mem_cons_self ..)

/-- **A fill of an order that the client knows is given the order manager's
id.** -/
theorem Attributed.attributed (hs : s.Attributed start) {e : Execution} {fill : FillEvent}
    (h : s.onExecDetails e = some fill) :
    (s.runner.attributed fill).orderId < s.runner.om.orders.length
      ∧ (s.runner.attributed fill).bare = fill.bare := by
  obtain ⟨md, hmd, hfill⟩ := Option.bind_eq_some_iff.mp h
  split_ifs at hfill
  obtain ⟨o, x, hx, hb⟩ := hs.known _ (mem_of_metadata hmd)
  have hsome : (s.runner.om.findOrderByBrokerId e.orderId).isSome = true := by
    unfold OrderManager.findOrderByBrokerId
    rw [List.findIdx?_isSome, List.any_eq_true]
    exact ⟨x, List.mem_of_getElem? hx, decide_eq_true hb⟩
  obtain ⟨i, hi⟩ := Option.isSome_iff_exists.mp hsome
  obtain ⟨y, hy, -⟩ := OrderManager.findOrderByBrokerId_eq_some hi
  have hattributed : s.runner.attributed fill = { fill with orderId := i } := by
    have hbroker : fill.brokerOrderId = some e.orderId :=
      (congrArg FillEvent.brokerOrderId (Option.some.inj hfill)).symm
    unfold ExecutionRunner.attributed
    rw [hbroker, Option.bind_some, hi]
  rw [hattributed]
  exact ⟨(List.getElem?_eq_some_iff.mp hy).1, rfl⟩

/-- The order ids of an order manager that has gone on. -/
theorem Attributed.goOn (hs : s.Attributed start) {k : OrderManager.Label} {om : OrderManager}
    (h : s.runner.om.step k = some om) :
    Attributed start { s with runner := { s.runner with om := om } } where
  owned := hs.owned.step h
  unplaced := hs.unplaced.step hs.owned h
  known := fun entry hentry => by
    obtain ⟨o, x, hx, hb⟩ := hs.known entry hentry
    obtain ⟨y, hy, hyb⟩ := hs.unplaced.brokerOrderId h hx hb
    exact ⟨o, y, hy, hyb⟩
  ids := fun pos hpos o ho => (hs.ids pos hpos o ho).imp_left fun hlt =>
    hlt.trans_le (OrderManager.step_effect h).length_le
  book := hs.book

/-- Only the runner, the orders kept and the fills matter. -/
theorem Attributed.congr (hs : s.Attributed start) (hrunner : t.runner = s.runner)
    (hmetadata : t.orderMetadata = s.orderMetadata) (hfills : t.fills = s.fills) :
    t.Attributed start where
  owned := by rw [hrunner]; exact hs.owned
  unplaced := by rw [hrunner]; exact hs.unplaced
  known := by rw [hrunner, hmetadata]; exact hs.known
  ids := by rw [hrunner]; exact hs.ids
  book := by rw [hrunner, grossBook, hfills]; exact hs.book

theorem om_onCommission (r : ExecutionRunner) (o : OrderId) (commission : ℚ) :
    (r.onCommission o commission).om = r.om := by
  unfold ExecutionRunner.onCommission
  split <;> rfl

/-- **What a report of a commission does**: nothing, or it is forwarded
under the id that the client keeps. -/
theorem onCommissionReport_cases (s : ExecutionSession) (e : Execution) (commission : ℚ) :
    s.onCommissionReport e commission = s
      ∨ ∃ md seen, s.metadata e.orderId = some md ∧ s.onCommissionReport e commission
        = { s with
            runner := s.runner.onCommission md.orderId commission
            seenCommissionExecIds := seen } := by
  unfold onCommissionReport
  by_cases hseen : e.execId ≠ "" ∧ e.execId ∈ s.seenCommissionExecIds
  · exact .inl (if_pos hseen)
  · rw [if_neg hseen]
    cases hmd : s.metadata e.orderId with
    | none => exact .inl rfl
    | some md =>
      dsimp only
      by_cases hzero : commission ≤ 0
      · exact .inl (if_pos hzero)
      · rw [if_neg hzero]
        exact .inr ⟨md, _, rfl, rfl⟩

/-- **It changes nothing but what is kept of it**: its id is none of the
book's. -/
theorem onCommissionReport_runner (hs : s.Attributed start) (hfresh : s.FreshIds start)
    (e : Execution) (commission : ℚ) :
    (s.onCommissionReport e commission).runner = s.runner := by
  rcases s.onCommissionReport_cases e commission with heq | ⟨md, seen, hmd, heq⟩
  · rw [heq]
  · rw [heq]
    obtain ⟨hlt, hstart⟩ := hfresh _ (mem_of_metadata hmd)
    refine onCommission_eq (fun pos hpos => ?_) commission
    by_contra ho
    rcases hs.ids pos hpos _ (Bool.eq_true_of_not_eq_false ho) with h | ⟨pos₀, hpos₀, h⟩
    · exact absurd h (Nat.not_lt.mpr hlt)
    · rw [hstart pos₀ hpos₀] at h
      cases h

/-- Whatever its id, it leaves the orders and the fills. -/
theorem onCommissionReport_kept (e : Execution) (commission : ℚ) :
    (s.onCommissionReport e commission).orderMetadata = s.orderMetadata
      ∧ (s.onCommissionReport e commission).fills = s.fills
      ∧ (s.onCommissionReport e commission).runner.om = s.runner.om := by
  rcases s.onCommissionReport_cases e commission with heq | ⟨md, seen, -, heq⟩
  · rw [heq]
    exact ⟨rfl, rfl, rfl⟩
  · rw [heq]
    exact ⟨rfl, rfl, om_onCommission ..⟩

/-- So does recording it. -/
theorem recorded_kept (e : Execution) (commission : ℚ) :
    (s.recorded e commission).runner = s.runner
      ∧ (s.recorded e commission).orderMetadata = s.orderMetadata
      ∧ (s.recorded e commission).fills = s.fills := by
  unfold recorded
  split_ifs <;> exact ⟨rfl, rfl, rfl⟩

/-- A broker id is remembered for the order it was given to. -/
theorem Attributed.placed (hs : s.Attributed start) {u : TaskId} {b : BrokerOrderId}
    {orderId : OrderId} (h : s.placed u b orderId = some t) : t.Attributed start := by
  obtain ⟨o, ho, h⟩ := Option.bind_eq_some_iff.mp h
  obtain ⟨call, -, h⟩ := Option.bind_eq_some_iff.mp h
  obtain ⟨om, hom, rfl⟩ := Option.map_eq_some_iff.mp h
  obtain ⟨c, hc, hplacing⟩ := Option.bind_eq_some_iff.mp ho
  have hgone := hs.goOn hom
  refine ⟨hgone.owned, hgone.unplaced, fun entry hentry => ?_, hgone.ids, hgone.book⟩
  rcases List.mem_cons.mp hentry with rfl | hentry
  · obtain ⟨x, hx, -⟩ := hs.owned.free o
      (OrderManager.mem_owners hc (Coroutine.owner_of_placing hplacing))
    refine ⟨o, x.placed b .new s.runner.om.clock, ?_, rfl⟩
    show om.orders[o]? = _
    rw [(OrderManager.step_placed hom hc hplacing).1, List.getElem?_modify_eq, hx]
    rfl
  · exact hgone.known entry hentry

/-- A fill that is handed on changes the book and the gross book alike. -/
theorem Attributed.handOn (hs : s.Attributed start) {e : Execution} {fill : FillEvent}
    (hfill : s.onExecDetails e = some fill) :
    (s.handOn env e.execId fill).Attributed start := by
  obtain ⟨hid, hbare⟩ := hs.attributed hfill
  refine ⟨hs.owned, hs.unplaced, hs.known, fun pos hpos o ho => ?_, ?_⟩
  · have hmap := @ExecutionRunner.map_filled env s.runner _ (fun pos o => pos.ofOrder o)
      (fun _ _ _ _ _ _ => rfl) fill
    have hmem : (fun o => pos.ofOrder o) ∈ (s.runner.filled env fill).pm.positions.map
        fun pos o => pos.ofOrder o := List.mem_map.mpr ⟨pos, hpos, rfl⟩
    rw [hmap] at hmem
    obtain ⟨pos', hpos', heq⟩ := List.mem_map.mp hmem
    have ho' : pos'.ofOrder o = true := (congrFun heq o).trans ho
    rcases PositionManager.ofOrder_handleFill hpos' ho' with rfl | ⟨pos₀, hpos₀, ho₀⟩
    · exact .inl hid
    · exact hs.ids pos₀ hpos₀ o ho₀
  · show (s.runner.filled env fill).pm.bare = ((s.handOn env e.execId fill).grossBook start).bare
    have hbook : (s.runner.filled env fill).pm.bare
        = (s.runner.pm.handleFill (s.runner.attributed fill)).1.bare :=
      congrArg PositionManager.mk
        (ExecutionRunner.map_filled Position.bare (fun _ _ _ _ _ _ => rfl) fill)
    have hgross : (s.handOn env e.execId fill).grossBook start
        = ((s.grossBook start).handleFill fill).1 := by
      unfold grossBook ExecutionSession.handOn
      rw [List.map_append, List.foldl_append]
      rfl
    rw [hbook, hgross]
    exact PositionManager.bare_handleFill_congr hs.book hbare

/-- A commission report for a fresh id leaves the book. -/
theorem Attributed.reported (hs : s.Attributed start) (e : Execution) (commission : ℚ)
    (hfresh : ((s.onCommissionReport e commission).recorded e commission).FreshIds start) :
    ((s.onCommissionReport e commission).recorded e commission).Attributed start := by
  obtain ⟨hmetadata, hfills, hom⟩ := @onCommissionReport_kept s e commission
  obtain ⟨hrunner', hmetadata', hfills'⟩ := @recorded_kept (s.onCommissionReport e commission)
    e commission
  have hfresh : s.FreshIds start := by
    unfold FreshIds at hfresh ⊢
    rwa [hmetadata', hrunner', hmetadata, hom] at hfresh
  exact hs.congr (hrunner'.trans (onCommissionReport_runner hs hfresh e commission))
    (hmetadata'.trans hmetadata) (hfills'.trans hfills)

/-- **One step**, with fresh ids. -/
theorem Attributed.step (hs : s.Attributed start) (h : s.step env l = some t)
    (hfresh : t.FreshIds start) : t.Attributed start := by
  cases l with
  | orders k =>
    unfold ExecutionSession.step at h
    dsimp only at h
    split_ifs at h
    obtain ⟨om, hom, rfl⟩ := Option.map_eq_some_iff.mp h
    exact hs.goOn hom
  | placed u b orderId => exact hs.placed h
  | execDetails e =>
    unfold ExecutionSession.step at h
    dsimp only at h
    split_ifs at h
    obtain rfl := Option.some.inj h
    cases hfill : s.onExecDetails e with
    | none => exact hs
    | some fill => exact hs.handOn hfill
  | commissionReport e commission =>
    unfold ExecutionSession.step at h
    dsimp only at h
    split_ifs at h
    obtain rfl := Option.some.inj h
    exact hs.reported e commission hfresh

/-! ## Every run -/

theorem attributed_initial (start : ExecutionRunner.Startup) :
    (initial start).Attributed start where
  owned := ⟨List.nodup_nil, fun _ h => by cases h⟩
  unplaced := fun _ _ _ _ h => by cases h
  known := fun _ h => by cases h
  ids := fun pos hpos o ho => .inr ⟨pos, hpos, ho⟩
  book := rfl

/-- **The profit realized is the gross one.** -/
theorem Attributed.realized_eq (hs : s.Attributed start) :
    s.runner.pm.realized = (s.grossBook start).realized := by
  rw [← PositionManager.realized_bare, hs.book, PositionManager.realized_bare]

/-- **The profit of the book is net of commissions exactly where those
reported add up to nothing**, in every state of every run. -/
theorem netPnl_iff_noCommission (env : RunnerEnv) (start : ExecutionRunner.Startup)
    (ls : List Label)
    (hfresh : (machine env).Along (fun _ _ t => t.FreshIds start) (initial start) ls) :
    (machine env).Throughout
      (fun s => s.NetPnl start ↔ (s.commissions.map (·.2)).sum = 0) (initial start) ls := by
  rintro ks s ⟨rest, rfl⟩ hks
  have hs : s.Attributed start := Machine.run_invariant (fun _ _ _ hs h => hs.step h)
    (attributed_initial start) (Machine.along_append.mp hfresh).1 hks
  rw [NetPnl, hs.realized_eq, eq_sub_iff_add_eq, add_eq_left]

/-- The order is executed and no commission is reported. -/
theorem netPnl_beforeReport : (machine sampleEnv).Throughout
    (fun s => s.NetPnl sampleStartup ↔ (s.commissions.map (·.2)).sum = 0)
    (initial sampleStartup) sampleExecution :=
  netPnl_iff_noCommission sampleEnv sampleStartup sampleExecution (by decide +kernel)

/-- The profit of the book is not always net: the commission of the one
execution is reported, and nothing bears it. -/
theorem not_netPnl : ¬ ∀ env start ls,
    (machine env).Along (fun _ _ t => t.FreshIds start) (initial start) ls →
      (machine env).Throughout (fun s => s.NetPnl start) (initial start) ls := by
  intro h
  have hnet := (h sampleEnv sampleStartup
    (sampleExecution ++ [.commissionReport ⟨"0001", 7, 2, 1⟩ (61 / 50)]) (by decide +kernel))
  rw [Machine.throughout_iff_along] at hnet
  exact absurd hnet.2 (by decide +kernel)

end ExecutionSession
