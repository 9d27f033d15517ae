import ExecutionSystem.BarFile
import ExecutionSystem.Commissions
import ExecutionSystem.EventQueries
import ExecutionSystem.ExecutionQuality

/-!
# The book of the dashboard

The dashboard has no part in the running system: `load_system_state_async` of
`src/dashboard/streamlit_app.py` reads the table of events, and applies the fills
that it finds to a position manager of its own. A fill is in the table as the JSON
text of what pydantic dumps of it, under the id that the client of the broker made
up, and the book of the runner has it under the order manager's; commissions, exit
rules and marks are not in the table as fills at all.

The book that comes out is nevertheless that of the runner, but for the ids of the
positions, which are drawn anew at every load, for order ids and exit rules, and for
the instants at which positions were last updated: at any moment the book after the
fills that have been written, and once nothing is pending the present one, whatever
else is in the table (`LiveSession.loadSystemState_eq`).
-/

/-- What holds along a run separately holds along it together. -/
theorem Machine.Along.and {σ ι : Type*} {M : Machine σ ι} {R R' : σ → ι → σ → Prop} {s : σ}
    {ls : List ι} (h : M.Along R s ls) (h' : M.Along R' s ls) :
    M.Along (fun s l t => R s l t ∧ R' s l t) s ls := by
  induction ls generalizing s with
  | nil => trivial
  | cons l ls ih => exact fun t ht => ⟨⟨(h t ht).1, (h' t ht).1⟩, ih (h t ht).2 (h' t ht).2⟩

/-! ## Fills as they are dumped -/

/-- **The texts that pydantic dumps and reads**, of ids and of instants. -/
structure Pydantic where
  uuidText : ℕ → String
  readUuid : String → Option ℕ
  timeText : Time → String
  readTime : String → Option Time

/-- The side of a value. -/
def OrderSide.ofValue? (value : String) : Option OrderSide :=
  if value = "BUY" then some .buy else if value = "SELL" then some .sell else none

/-- The right of a value. -/
def OptionRight.ofValue? (value : String) : Option OptionRight :=
  if value = "CALL" then some .call else if value = "PUT" then some .put else none

theorem OrderSide.ofValue?_value (side : OrderSide) : ofValue? side.value = some side := by
  cases side <;> rfl

theorem OptionRight.ofValue?_value (right : OptionRight) : ofValue? right.value = some right := by
  cases right <;> rfl

/-- `model_dump(mode="json")` of a contract. -/
def OptionContract.modelDump (contract : OptionContract) : Json PyNumber :=
  .obj
    [("symbol", .str contract.symbol),
      ("expiry", .str contract.expiry),
      ("strike", .num (.float (.finite contract.strike))),
      ("right", .str contract.right.value),
      ("multiplier", .num (.int contract.multiplier))]

/-- **`model_dump(mode="json")` of a fill.** The model has no field for the id of the
fill, which nothing reads. -/
def FillEvent.modelDump (pd : Pydantic) (fillId : ℕ) (fill : FillEvent) :
    List (String × Json PyNumber) :=
  [("fill_id", .str (pd.uuidText fillId)),
    ("order_id", .str (pd.uuidText fill.orderId)),
    ("strategy_id", .str fill.strategyId),
    ("contract", fill.contract.modelDump),
    ("side", .str fill.side.value),
    ("filled_quantity", .num (.int fill.filledQuantity)),
    ("fill_price", .num (.float (.finite fill.fillPrice))),
    ("commission", .null),
    ("timestamp", .str (pd.timeText fill.timestamp)),
    ("metadata", .obj (fill.brokerOrderId.toList.map fun b =>
      ("broker_order_id", .str (toString b))))]

/-! ## Fills as they are validated -/

namespace Json

/-- A text. -/
def asText : Json PyNumber → Option String
  | .str s => some s
  | _ => none

/-- A `float`, which may be given as an integer. -/
def asFloat : Json PyNumber → Option ℚ
  | .num (.float (.finite x)) => some x
  | .num (.int n) => some n
  | _ => none

/-- An `int`, which may be given as a float without a fraction. -/
def asInt : Json PyNumber → Option ℤ
  | .num (.int n) => some n
  | .num (.float (.finite x)) => if x.den = 1 then some x.num else none
  | _ => none

/-- A dictionary. -/
def asMembers : Json PyNumber → Option (List (String × Json PyNumber))
  | .obj members => some members
  | _ => none

/-- A member that may be absent, with a default. -/
def field {α : Type} (members : List (String × Json PyNumber)) (key : String) (default : α)
    (read : Json PyNumber → Option α) : Option α :=
  match get? members key with
  | none => some default
  | some v => read v

end Json

/-- `^\d{8}$`. -/
def validExpiry (py : Builtins) (expiry : String) : Bool :=
  expiry.toList.length = 8 && expiry.toList.all py.isDecimal

/-- **`OptionContract.model_validate`.** -/
def OptionContract.modelValidate (py : Builtins) (v : Json PyNumber) : Option OptionContract := do
  let members ← v.asMembers
  let symbol ← (← Json.get? members "symbol").asText
  let expiry ← (← Json.get? members "expiry").asText
  let strike ← (← Json.get? members "strike").asFloat
  let right ← OptionRight.ofValue? (← (← Json.get? members "right").asText)
  let multiplier ← Json.field members "multiplier" 100 Json.asInt
  if symbol = "" || !validExpiry py expiry then none
  else if h : 0 < strike ∧ 0 < multiplier.toNat then
    some
      { symbol := symbol
        expiry := expiry
        strike := strike
        right := right
        multiplier := multiplier.toNat
        strike_pos := h.1
        multiplier_pos := h.2 }
  else none

/-- **`FillEvent.model_validate`**, at a moment: the instant of a fill that has none.
The metadata stay a dictionary, which nothing reads. -/
def FillEvent.modelValidate (py : Builtins) (pd : Pydantic) (now : Time)
    (members : List (String × Json PyNumber)) : Option FillEvent := do
  let _ ← Json.field members "fill_id" 0 fun v => v.asText.bind pd.readUuid
  let orderId ← pd.readUuid (← (← Json.get? members "order_id").asText)
  let strategyId ← (← Json.get? members "strategy_id").asText
  let contract ← OptionContract.modelValidate py (← Json.get? members "contract")
  let side ← OrderSide.ofValue? (← (← Json.get? members "side").asText)
  let quantity ← (← Json.get? members "filled_quantity").asInt
  let price ← (← Json.get? members "fill_price").asFloat
  let commission ← Json.field members "commission" none fun v =>
    if v matches .null then some none else v.asFloat.map some
  let timestamp ← Json.field members "timestamp" now fun v => v.asText.bind pd.readTime
  let _ ← Json.field members "metadata" [] Json.asMembers
  if strategyId = "" || commission.any (· < 0) then none
  else if h : 0 < quantity.toNat ∧ 0 < price then
    some
      { orderId := orderId
        strategyId := strategyId
        contract := contract
        side := side
        filledQuantity := quantity.toNat
        fillPrice := price
        timestamp := timestamp
        filled_pos := h.1
        price_pos := h.2 }
  else none

/-- **What is true of a fill that has been made**, and of the texts of its numbers,
its id and its instant. -/
structure FillEvent.Dumpable (py : Builtins) (pd : Pydantic) (fill : FillEvent) : Prop where
  symbol : fill.contract.symbol ≠ ""
  expiry : validExpiry py fill.contract.expiry = true
  strategy : fill.strategyId ≠ ""
  strike : py.KeepsPrice fill.contract.strike
  price : py.KeepsPrice fill.fillPrice
  order : pd.readUuid (pd.uuidText fill.orderId) = some fill.orderId
  time : pd.readTime (pd.timeText fill.timestamp) = some fill.timestamp

/-- A contract is validated as it was dumped. -/
theorem OptionContract.modelValidate_modelDump {py : Builtins} {contract : OptionContract}
    (hsymbol : contract.symbol ≠ "") (hexpiry : validExpiry py contract.expiry = true) :
    modelValidate py contract.modelDump = some contract := by
  simp [modelValidate, modelDump, Json.asMembers, Json.get?, Json.asText, Json.asFloat, Json.asInt,
    Json.field, OptionRight.ofValue?_value, hsymbol, hexpiry, contract.strike_pos,
    contract.multiplier_pos]

/-- **A fill is validated as it was dumped**, but for its metadata. -/
theorem FillEvent.modelValidate_modelDump {py : Builtins} {pd : Pydantic} {fill : FillEvent}
    (h : fill.Dumpable py pd) {fillId : ℕ} (hid : (pd.readUuid (pd.uuidText fillId)).isSome)
    (now : Time) :
    modelValidate py pd now (fill.modelDump pd fillId)
      = some { fill with brokerOrderId := none } := by
  obtain ⟨id, hid⟩ := Option.isSome_iff_exists.mp hid
  simp [modelValidate, modelDump, Json.asMembers, Json.get?, Json.asText, Json.asFloat, Json.asInt,
    Json.field, OrderSide.ofValue?_value, hid, h.order, h.time, h.strategy,
    OptionContract.modelValidate_modelDump h.symbol h.expiry, fill.filled_pos, fill.price_pos]

/-- What is dumped of a fill is read back from its JSON text. -/
theorem FillEvent.readable_modelDump {py : Builtins} {pd : Pydantic} {fill : FillEvent}
    (h : fill.Dumpable py pd) (fillId : ℕ) :
    (Json.obj (fill.modelDump pd fillId)).Readable py.jsonNumbers := by
  simp only [modelDump, OptionContract.modelDump, Json.Readable, Json.ReadableMembers, true_and,
    and_true]
  refine ⟨⟨h.strike, py.readsBack_int _⟩, py.readsBack_int _, h.price, ?_⟩
  cases fill.brokerOrderId with
  | none => trivial
  | some b => exact ⟨trivial, trivial⟩

/-! ## The book that is loaded -/

/-- The type of the events that are fills. -/
def fillType : String := "fill_event"

/-- An event is a fill. -/
def AuditEvent.IsFill (event : AuditEvent PyNumber) : Prop := event.eventType = fillType

instance : DecidablePred AuditEvent.IsFill := fun _ => inferInstanceAs (Decidable (_ = _))

/-- What one record does to the book: a fill that cannot be validated is passed over,
as is everything that is no fill. `draw` has the ids that `uuid4()` draws for the
positions of the load, one after the other. -/
def playBack (py : Builtins) (pd : Pydantic) (now : Time) (draw : ℕ → PositionId)
    (pm : PositionManager) (record : EventRecord PyNumber) : PositionManager :=
  if record.eventType = fillType then
    match FillEvent.modelValidate py pd now record.payload with
    | some fill => (pm.handleFillDrawing (draw pm.positions.length) fill).1
    | none => pm
  else pm

/-- **`load_system_state_async`**, as far as the book goes: the records, sorted by the
texts of their timestamps, are played back. -/
def loadSystemState (py : Builtins) (pd : Pydantic) (now : Time) (draw : ℕ → PositionId)
    (records : List (EventRecord PyNumber)) : PositionManager :=
  (records.mergeSort fun a b => !textLt b.timestamp a.timestamp).foldl
    (playBack py pd now draw) {}

/-- The book after fills. -/
def PositionManager.ofFills (fills : List FillEvent) : PositionManager :=
  fills.foldl (fun pm fill => (pm.handleFill fill).1) {}

/-- A position without its own id. -/
def Position.unnamed (pos : Position) : Position := { pos with positionId := 0 }

/-- The book without the ids of its positions. -/
def PositionManager.unnamed (pm : PositionManager) : PositionManager :=
  ⟨pm.positions.map Position.unnamed⟩

theorem Position.unnamed_filled (fill : FillEvent) (pos : Position) :
    (pos.filled fill).unnamed = (pos.unnamed.filled fill).unnamed := by
  unfold filled
  show Position.unnamed (if fill.side = pos.side then _ else if fill.filledQuantity < pos.quantity
    then _ else _) = Position.unnamed (if fill.side = pos.side then _
      else if fill.filledQuantity < pos.quantity then _ else _)
  split_ifs <;> rfl

/-- Ids of positions, and what else of them is left out. -/
theorem PositionManager.unnamed_bare (pm : PositionManager) :
    pm.bare.unnamed = pm.unnamed.bare := by
  unfold bare unnamed
  rw [List.map_map, List.map_map]
  rfl

/-- **Which ids are drawn does not matter for what a fill does.** -/
theorem PositionManager.unnamed_handleFillDrawing_congr {pm pm' : PositionManager}
    (h : pm.unnamed = pm'.unnamed) (drawn drawn' : PositionId) (fill : FillEvent) :
    (pm.handleFillDrawing drawn fill).1.unnamed
      = (pm'.handleFillDrawing drawn' fill).1.unnamed := by
  have hone : ∀ (pm : PositionManager) (drawn : PositionId),
      (pm.handleFillDrawing drawn fill).1.unnamed
        = (pm.unnamed.handleFillDrawing 0 fill).1.unnamed := fun pm drawn =>
    congrArg mk (@map_handleFillDrawing Position.unnamed fill fill drawn 0 (fun _ => rfl) rfl
      (Position.unnamed_filled fill) (fun _ => rfl) pm)
  rw [hone pm, h, ← hone pm']

section PlayBack

variable {py : Builtins} {pd : Pydantic} {now : Time} {draw : ℕ → PositionId}
  {pm pm' : PositionManager}

/-- Only fills matter. -/
theorem foldl_playBack (events : List (AuditEvent PyNumber)) :
    (events.map AuditEvent.record).foldl (playBack py pd now draw) pm
      = ((events.filter (·.IsFill)).map AuditEvent.record).foldl (playBack py pd now draw) pm := by
  induction events generalizing pm with
  | nil => rfl
  | cons event events ih =>
    by_cases hfill : event.IsFill
    · rw [List.filter_cons, if_pos (by simpa using hfill)]
      exact ih
    · rw [List.filter_cons, if_neg (by simpa using hfill)]
      have hskip : playBack py pd now draw pm event.record = pm := if_neg hfill
      rw [List.map_cons, List.foldl_cons, hskip]
      exact ih

/-- An event tells of a fill: its payload is what is dumped of it, under some id. -/
def TellsOf (pd : Pydantic) (event : AuditEvent PyNumber) (fill : FillEvent) : Prop :=
  event.IsFill ∧ ∃ fillId, (pd.readUuid (pd.uuidText fillId)).isSome
    ∧ event.dumped = fill.modelDump pd fillId

/-- **Events that tell of fills are played back as the fills**, under other ids. -/
theorem foldl_playBack_of_tellsOf {events : List (AuditEvent PyNumber)} {fills : List FillEvent}
    (h : List.Forall₂ (TellsOf pd) events fills) (hfills : ∀ fill ∈ fills, fill.Dumpable py pd)
    (hpm : pm.unnamed = pm'.unnamed) :
    ((events.map AuditEvent.record).foldl (playBack py pd now draw) pm).unnamed
      = (fills.foldl (fun pm fill => (pm.handleFill fill).1) pm').unnamed := by
  induction h generalizing pm pm' with
  | nil => exact hpm
  | @cons event fill _ _ htells _ ih =>
    obtain ⟨hfill, hrest⟩ := List.forall_mem_cons.mp hfills
    obtain ⟨htype, fillId, hid, hdumped⟩ := htells
    have htype : event.record.eventType = fillType := htype
    have hpayload : event.record.payload = fill.modelDump pd fillId := hdumped
    have hone : playBack py pd now draw pm event.record
        = (pm.handleFillDrawing (draw pm.positions.length) fill).1 := by
      unfold playBack
      rw [if_pos htype, hpayload, FillEvent.modelValidate_modelDump hfill hid]
      rfl
    rw [List.map_cons, List.foldl_cons, List.foldl_cons, hone]
    exact ih hrest (PositionManager.unnamed_handleFillDrawing_congr hpm _ _ fill)

/-- Events that tell of fills are read as they were written. -/
theorem readable_of_tellsOf {events : List (AuditEvent PyNumber)} {fills : List FillEvent}
    (h : List.Forall₂ (TellsOf pd) events fills) (hfills : ∀ fill ∈ fills, fill.Dumpable py pd) :
    ∀ event ∈ events, event.Readable py.jsonNumbers := by
  induction h with
  | nil => exact fun event hmem => absurd hmem List.not_mem_nil
  | cons htells _ ih =>
    obtain ⟨hfill, hrest⟩ := List.forall_mem_cons.mp hfills
    obtain ⟨-, fillId, -, hdumped⟩ := htells
    refine List.forall_mem_cons.mpr ⟨?_, ih hrest⟩
    rw [AuditEvent.Readable, hdumped]
    exact FillEvent.readable_modelDump hfill fillId

end PlayBack

/-- What another connection does not see yet is on its way. -/
theorem EventStore.Complete.stored_append {ε : Type} {s : EventStore.State ε}
    (h : EventStore.Complete s) :
    ∃ pending, s.conn.stored ++ pending = s.logged
      ∧ (s.writer = .ended ∨ s.writer = .waiting ∧ s.queue.events = [] → pending = []) := by
  obtain ⟨haccounted, htidy⟩ := h
  rw [← haccounted]
  cases hw : s.writer with
  | waiting =>
    rw [State.Tidy, hw] at htidy
    refine ⟨s.queue.events, ?_, ?_⟩
    · rw [accounted_waiting hw, Connection.rows_of_uncommitted htidy]
    · rintro (h | ⟨-, h⟩)
      · cases h
      · exact h
  | executing w =>
    refine ⟨s.conn.uncommitted ++ w.items ++ s.queue.events, ?_, by rintro (h | ⟨h, -⟩) <;> cases h⟩
    rw [accounted_executing hw, Connection.rows]
    simp only [List.append_assoc]
  | committing w =>
    refine ⟨s.conn.uncommitted ++ s.queue.events, ?_, by rintro (h | ⟨h, -⟩) <;> cases h⟩
    rw [accounted_committing hw, Connection.rows, List.append_assoc]
  | rollingBack w =>
    rw [State.Tidy, hw] at htidy
    exact htidy.elim
  | ended => exact ⟨[], by rw [accounted_ended hw, List.append_nil], fun _ => rfl⟩

/-! ## The session and its log -/

/-- What is made up for a fill as it is logged: the id and the instant of the event,
and the id of the fill. -/
structure FillStamp where
  eventId : String
  fillId : ℕ
  timestamp : IsoTime
  utc : timestamp.offsetMinutes = 0

/-- The event of a fill. -/
def FillEvent.logged (pd : Pydantic) (stamp : FillStamp) (fill : FillEvent) :
    AuditEvent PyNumber where
  eventId := stamp.eventId
  eventType := fillType
  timestamp := stamp.timestamp
  payload := Json.toLogged (fill.modelDump pd stamp.fillId)
  utc := stamp.utc
  strategyText := rfl

/-- **The runner behind the client, and the store that the client logs to.** -/
structure LiveSession where
  session : ExecutionSession
  store : EventStore.State (AuditEvent PyNumber)

namespace LiveSession

/-- What happens next: in the session, where a fill that is made is stamped, or in the
store, to which everything else that is logged goes too. -/
inductive Label where
  | session (l : ExecutionSession.Label) (stamp : FillStamp)
  | store (l : EventStore.Label (AuditEvent PyNumber))

/-- The fill that is made. -/
def fillOf (s : ExecutionSession) : ExecutionSession.Label → Option FillEvent
  | .execDetails e => s.onExecDetails e
  | _ => none

/-- **One step**: `_on_exec_details` logs the fill that it makes before it hands it
on. -/
def step (env : RunnerEnv) (pd : Pydantic) (s : LiveSession) : Label → Option LiveSession
  | .session l stamp =>
    (s.session.step env l).map fun session =>
      { session := session
        store := match fillOf s.session l with
          | some fill => s.store.logCallback (fill.logged pd stamp)
          | none => s.store }
  | .store l => (EventStore.step s.store l).map fun store => { s with store := store }

/-- The session and its log as a machine. -/
def machine (env : RunnerEnv) (pd : Pydantic) : Machine LiveSession Label := ⟨step env pd⟩

/-- Nothing has happened, and the database is empty. -/
def initial (start : ExecutionRunner.Startup) : LiveSession where
  session := .initial start
  store := EventStore.initial

/-- The fills so far. -/
def fills (s : LiveSession) : List FillEvent := s.session.fills.map (·.2)

/-- **The events of fills in the table**, as another connection sees it. -/
def storedFills (s : LiveSession) : List (AuditEvent PyNumber) :=
  s.store.conn.stored.filter (·.IsFill)

/-- **The session keeps to its log**: the ids of the client are fresh, and a fill is
logged while the writer runs. -/
def KeepsLog (pd : Pydantic) (start : ExecutionRunner.Startup) (s : LiveSession) :
    Label → LiveSession → Prop
  | .session l stamp, t =>
    t.session.FreshIds start ∧ ((fillOf s.session l).isSome = true →
      s.store.writer.done = false ∧ (pd.readUuid (pd.uuidText stamp.fillId)).isSome)
  | .store _, _ => True

/-- **The store keeps what it is told**: it loses no event, and nothing else is logged
as a fill. -/
def KeepsEvents (s : LiveSession) : Label → Prop
  | .session _ _ => True
  | .store l =>
    EventStore.SinglesSucceed s.store l ∧ EventStore.LosesNone s.store l
      ∧ ∀ event, l = .log event → ¬ event.IsFill

instance (pd : Pydantic) (start : ExecutionRunner.Startup) :
    ∀ (s : LiveSession) (l : Label) (t : LiveSession), Decidable (KeepsLog pd start s l t)
  | _, .session _ _, _ => inferInstanceAs (Decidable (_ ∧ (_ → _ ∧ _)))
  | _, .store _, _ => isTrue trivial

/-- **The log tells of the fills**, and the book is that of the fills. -/
structure Accords (pd : Pydantic) (start : ExecutionRunner.Startup) (s : LiveSession) :
    Prop where
  complete : EventStore.Complete s.store
  attributed : s.session.Attributed start
  tells : List.Forall₂ (TellsOf pd) (s.store.logged.filter (·.IsFill)) s.fills

section Steps

variable {env : RunnerEnv} {pd : Pydantic} {start : ExecutionRunner.Startup} {s t : LiveSession}

/-- A step of the session adds the fill that it makes. -/
theorem fills_step {session : ExecutionSession} {l : ExecutionSession.Label}
    (h : s.session.step env l = some session) :
    session.fills.map (·.2) = s.fills ++ (fillOf s.session l).toList := by
  unfold fills
  cases l with
  | orders k =>
    unfold ExecutionSession.step at h
    dsimp only at h
    split_ifs at h
    obtain ⟨om, -, rfl⟩ := Option.map_eq_some_iff.mp h
    exact (List.append_nil _).symm
  | placed u b orderId =>
    obtain ⟨o, -, h⟩ := Option.bind_eq_some_iff.mp h
    obtain ⟨call, -, h⟩ := Option.bind_eq_some_iff.mp h
    obtain ⟨om, -, rfl⟩ := Option.map_eq_some_iff.mp h
    exact (List.append_nil _).symm
  | execDetails e =>
    unfold ExecutionSession.step at h
    dsimp only at h
    split_ifs at h
    obtain rfl := Option.some.inj h
    show _ = _ ++ (s.session.onExecDetails e).toList
    cases s.session.onExecDetails e with
    | none => exact (List.append_nil _).symm
    | some fill => exact List.map_append
  | commissionReport e commission =>
    unfold ExecutionSession.step at h
    dsimp only at h
    split_ifs at h
    obtain rfl := Option.some.inj h
    obtain ⟨-, -, hrecorded⟩ := @ExecutionSession.recorded_kept
      (s.session.onCommissionReport e commission) e commission
    obtain ⟨-, hreported, -⟩ := @ExecutionSession.onCommissionReport_kept s.session e commission
    rw [hrecorded, hreported]
    exact (List.append_nil _).symm

/-- A step of the store logs no fill where it is told of none. -/
theorem logged_store {store store' : EventStore.State (AuditEvent PyNumber)}
    {l : EventStore.Label (AuditEvent PyNumber)} (h : EventStore.step store l = some store')
    (hl : ∀ event, l = .log event → ¬ event.IsFill) :
    store'.logged.filter (·.IsFill) = store.logged.filter (·.IsFill) := by
  obtain heq | ⟨event, rfl, heq⟩ := EventStore.logged_step h
  · rw [heq]
  · rw [heq, List.filter_append, List.filter_singleton, decide_eq_false (hl event rfl), cond_false,
      List.append_nil]

/-- A fill that is logged while the writer runs is told of. -/
theorem Accords.logFill (hs : s.Accords pd start) (fill : FillEvent) {stamp : FillStamp}
    (hw : s.store.writer.done = false) (hid : (pd.readUuid (pd.uuidText stamp.fillId)).isSome) :
    EventStore.Complete (s.store.logCallback (fill.logged pd stamp))
      ∧ List.Forall₂ (TellsOf pd)
        ((s.store.logCallback (fill.logged pd stamp)).logged.filter (·.IsFill))
        (s.fills ++ [fill]) := by
  have hstep : EventStore.step s.store (.log (fill.logged pd stamp))
      = some (s.store.logCallback (fill.logged pd stamp)) := rfl
  have hsingle : EventStore.SinglesSucceed s.store (.log (fill.logged pd stamp)) := trivial
  refine ⟨(EventStore.complete_step hs.complete hsingle hstep).1 trivial, ?_⟩
  have hlogged : (s.store.logCallback (fill.logged pd stamp)).logged
      = s.store.logged ++ [fill.logged pd stamp] := by
    rw [EventStore.State.logCallback, hw]
    rfl
  have hone : TellsOf pd (fill.logged pd stamp) fill :=
    ⟨rfl, stamp.fillId, hid, Json.bindMembers_toLogged _⟩
  rw [hlogged, List.filter_append, List.filter_singleton, decide_eq_true hone.1, cond_true]
  exact List.rel_append hs.tells (.cons hone .nil)

/-- **One step.** -/
theorem Accords.step {l : Label} (hs : s.Accords pd start) (h : s.step env pd l = some t)
    (hlog : KeepsLog pd start s l t) (hevents : KeepsEvents s l) : t.Accords pd start := by
  cases l with
  | session l stamp =>
    obtain ⟨session, hsession, rfl⟩ := Option.map_eq_some_iff.mp h
    obtain ⟨hfresh, hfill⟩ := hlog
    have hattributed := hs.attributed.step hsession hfresh
    have hfills := fills_step hsession
    cases hf : fillOf s.session l with
    | none =>
      rw [hf, Option.toList_none, List.append_nil] at hfills
      refine ⟨hs.complete, hattributed, ?_⟩
      show List.Forall₂ _ _ (session.fills.map (·.2))
      rw [hfills]
      exact hs.tells
    | some fill =>
      obtain ⟨hw, hid⟩ := hfill (by rw [hf]; rfl)
      obtain ⟨hcomplete, htells⟩ := hs.logFill fill hw hid
      rw [hf, Option.toList_some] at hfills
      refine ⟨hcomplete, hattributed, ?_⟩
      show List.Forall₂ _ _ (session.fills.map (·.2))
      rw [hfills]
      exact htells
  | store l =>
    obtain ⟨store, hstore, rfl⟩ := Option.map_eq_some_iff.mp h
    obtain ⟨hsingle, hloses, hother⟩ := hevents
    refine ⟨(EventStore.complete_step hs.complete hsingle hstore).1 hloses, hs.attributed, ?_⟩
    show List.Forall₂ _ (store.logged.filter _) _
    rw [logged_store hstore hother]
    exact hs.tells

theorem accords_initial : (initial start).Accords pd start where
  complete := EventStore.complete_initial
  attributed := ExecutionSession.attributed_initial start
  tells := .nil

end Steps

/-! ## One order, executed once -/

/-- Pydantic, on the ids and the instant of the sample. -/
def samplePydantic : Pydantic where
  uuidText n :=
    if n = 100 then "00000000-0000-4000-8000-000000000064"
    else "00000000-0000-4000-8000-000000000065"
  readUuid text :=
    if text = "00000000-0000-4000-8000-000000000064" then some 100
    else if text = "00000000-0000-4000-8000-000000000065" then some 101
    else none
  timeText _ := "1970-01-01T00:00:00Z"
  readTime text := if text = "1970-01-01T00:00:00Z" then some 0 else none

/-- Numbers of which two are printed. -/
def sampleBuiltins : Builtins where
  parseInt _ := none
  parseFloat text :=
    if text = "1.0" then some (.finite 1)
    else if text = "6000.0" then some (.finite 6000)
    else none
  intToFloat n := some (.finite n)
  floatRepr x := if x = .finite 1 then "1.0" else "6000.0"
  strip text := text
  isDecimal := Char.isDigit

theorem noon_lt : 43200 < 86400 := by decide

/-- The first day of the epoch, at noon. -/
def sampleStamp : FillStamp where
  eventId := "0"
  fillId := 101
  timestamp :=
    { date := .ofDayNumber 719162
      secondOfDay := 43200
      microsecond := 0
      offsetMinutes := 0
      year_le := EventStore.epoch_year_lt
      second_lt := noon_lt
      microsecond_lt := EventStore.no_microsecond_lt
      offset_lt := EventStore.utc_offset_lt }
  utc := rfl

/-- The order that is placed and executed once. -/
def samplePlaced : List Label :=
  ExecutionSession.sampleExecution.map fun l => .session l sampleStamp

/-- The fill is written. -/
def sampleWritten : List Label := [.store .wake, .store (.reply true), .store (.reply true)]

/-- The end of the session. -/
def sampleEnd : LiveSession :=
  ((machine sampleEnv samplePydantic).run (initial sampleStartup)
    (samplePlaced ++ sampleWritten)).getD (initial sampleStartup)

theorem run_sample : (machine sampleEnv samplePydantic).run (initial sampleStartup)
    (samplePlaced ++ sampleWritten) = some sampleEnd := by
  have hrun : ((machine sampleEnv samplePydantic).run (initial sampleStartup)
      (samplePlaced ++ sampleWritten)).isSome = true := by decide +kernel
  obtain ⟨s, hs⟩ := Option.isSome_iff_exists.mp hrun
  rw [sampleEnd, hs]
  rfl

theorem keepsLog_sample : (machine sampleEnv samplePydantic).Along
    (fun s l t => KeepsLog samplePydantic sampleStartup s l t) (initial sampleStartup)
    (samplePlaced ++ sampleWritten) := by
  decide +kernel

/-- The requests of the writer succeed. -/
theorem keepsEvents_sample : (machine sampleEnv samplePydantic).Along
    (fun s l _ => KeepsEvents s l) (initial sampleStartup) (samplePlaced ++ sampleWritten) := by
  have hreply : ∀ s : LiveSession, KeepsEvents s (.store (.reply true)) := fun s =>
    ⟨(EventStore.losesNone_reply s.store).1, (EventStore.losesNone_reply s.store).2, nofun⟩
  refine Machine.along_append.mpr ⟨?_, fun s _ => ?_⟩
  · exact fun t _ => ⟨trivial, fun u _ => ⟨trivial, fun v _ => ⟨trivial, trivial⟩⟩⟩
  · exact fun t _ => ⟨⟨trivial, trivial, nofun⟩,
      fun u _ => ⟨hreply t, fun v _ => ⟨hreply u, trivial⟩⟩⟩

theorem fills_sample : ∀ fill ∈ sampleEnd.fills, fill.Dumpable sampleBuiltins samplePydantic := by
  have hall : ∀ fill ∈ sampleEnd.fills, fill.contract = sampleContract ∧ fill.strategyId = "orb"
      ∧ fill.orderId = 100 ∧ fill.fillPrice = 1 ∧ fill.timestamp = 0 := by decide +kernel
  intro fill hmem
  obtain ⟨hcontract, hstrategy, horder, hprice, htime⟩ := hall fill hmem
  refine ⟨?_, ?_, ?_, ?_, ?_, ?_, ?_⟩
  · rw [hcontract]; decide
  · rw [hcontract]; decide +kernel
  · rw [hstrategy]; decide
  · rw [hcontract]
    exact ⟨by decide +kernel, by decide +kernel⟩
  · rw [hprice]
    exact ⟨by decide +kernel, by decide +kernel⟩
  · rw [horder]; decide +kernel
  · rw [htime]; decide +kernel

theorem stored_sample : (∀ event ∈ sampleEnd.store.conn.stored, event.IsFill)
    ∧ sampleEnd.storedFills.Pairwise fun a b => a.timestamp.instant < b.timestamp.instant := by
  decide +kernel

/-! ## The book of the dashboard -/

section Load

variable {env : RunnerEnv} {pd : Pydantic} {start : ExecutionRunner.Startup} {s : LiveSession}
  {py : Builtins} {now : Time} {draw : ℕ → PositionId}
  {orderBy : List EventRow → List EventRow} {table : List (AuditEvent PyNumber)}

/-- Nothing is pending: the writer has ended, or waits with nothing in the queue. -/
def Written (s : LiveSession) : Prop :=
  s.store.writer = .ended ∨ s.store.writer = .waiting ∧ s.store.queue.events = []

/-- **The table has the first fills**, and all once nothing is pending. -/
theorem Accords.storedFills (hs : s.Accords pd start) :
    List.Forall₂ (TellsOf pd) s.storedFills (s.fills.take s.storedFills.length)
      ∧ (s.Written → s.fills.take s.storedFills.length = s.fills) := by
  obtain ⟨pending, hpending, hwritten⟩ := hs.complete.stored_append
  have hlogged : s.store.logged.filter (·.IsFill)
      = s.storedFills ++ pending.filter (·.IsFill) := by
    rw [← hpending, List.filter_append]
    rfl
  have htells := hs.tells
  rw [hlogged] at htells
  refine ⟨?_, fun hall => ?_⟩
  · have htake := List.forall₂_take s.storedFills.length htells
    rwa [List.take_left'  rfl] at htake
  · have hnil : pending = [] := hwritten hall
    rw [hnil, List.filter_nil, List.append_nil] at htells
    exact List.take_of_length_le htells.length_eq.ge

/-- What is found is found in the order of the table, as far as the fills go. -/
theorem filter_isFill_eq {found : List (AuditEvent PyNumber)}
    (hperm : found.Perm table)
    (hsorted : found.Pairwise fun a b => a.timestamp.instant ≤ b.timestamp.instant)
    (hstrict : (table.filter (·.IsFill)).Pairwise
      fun a b => a.timestamp.instant < b.timestamp.instant) :
    found.filter (·.IsFill) = table.filter (·.IsFill) :=
  List.Perm.eq_of_pairwise_lt (f := fun event => event.timestamp.instant)
    (hperm.filter _) (hsorted.filter _) hstrict

/-- **Records in the order of their texts are played back in that order.** -/
theorem loadSystemState_record {found : List (AuditEvent PyNumber)}
    (hsorted : found.Pairwise fun a b => a.timestamp.instant ≤ b.timestamp.instant) :
    loadSystemState py pd now draw (found.map AuditEvent.record)
      = ((found.filter (·.IsFill)).map AuditEvent.record).foldl (playBack py pd now draw) {} := by
  have htexts : (found.map AuditEvent.record).Pairwise
      fun a b => (!textLt b.timestamp a.timestamp) = true := by
    rw [List.pairwise_map]
    refine hsorted.imp fun {a b} h => ?_
    rw [Bool.not_eq_true']
    exact (textLt_timestamp b.utc a.utc).mpr h
  unfold loadSystemState
  rw [List.mergeSort_of_pairwise htexts, foldl_playBack]

/-- **The dashboard loads the book of the runner.** After a run of a session that
starts with an empty book and an empty database, in which nothing goes wrong, the
database is read whatever else is in it, and the book that comes of it is that of
the first fills, those in the table, but for the ids of the positions, which may be
any; once nothing is pending it is the book that the runner has, also but for order
ids, exit rules and the instants of the last updates. -/
theorem loadSystemState_eq {ls : List Label} (hstart : start.positions = [])
    (horder : OrdersByTimestamp orderBy)
    (hrun : (machine env pd).run (initial start) ls = some s)
    (hlog : (machine env pd).Along (fun s l t => KeepsLog pd start s l t) (initial start) ls)
    (hevents : (machine env pd).Along (fun s l _ => KeepsEvents s l) (initial start) ls)
    (htable : table.filter (·.IsFill) = s.storedFills)
    (hstrict : s.storedFills.Pairwise fun a b => a.timestamp.instant < b.timestamp.instant)
    (hfills : ∀ fill ∈ s.fills, fill.Dumpable py pd)
    (hothers : ∀ event ∈ table, ¬ event.IsFill → event.Readable py.jsonNumbers) :
    ∃ records, EventRepository.query py.jsonNumbers orderBy
          (table.map (AuditEvent.row py.jsonNumbers)) .all = some records
      ∧ ∀ draw : ℕ → PositionId,
        (loadSystemState py pd now draw records).unnamed
            = (PositionManager.ofFills (s.fills.take s.storedFills.length)).unnamed
          ∧ (s.Written → (loadSystemState py pd now draw records).bare.unnamed
            = s.session.runner.pm.bare.unnamed) := by
  have hs : s.Accords pd start :=
    Machine.run_invariant (fun _ _ _ hs h hkeeps => hs.step h hkeeps.1 hkeeps.2)
      accords_initial (hlog.and hevents) hrun
  obtain ⟨htells, hall⟩ := hs.storedFills
  have hstored : ∀ fill ∈ s.fills.take s.storedFills.length, fill.Dumpable py pd :=
    fun fill hmem => hfills fill (List.mem_of_mem_take hmem)
  have hreadable : ∀ event ∈ table, event.Readable py.jsonNumbers := by
    intro event hmem
    by_cases hfill : event.IsFill
    · have hmem : event ∈ s.storedFills := by
        rw [← htable]
        exact List.mem_filter.mpr ⟨hmem, decide_eq_true hfill⟩
      exact readable_of_tellsOf htells hstored event hmem
    · exact hothers event hmem hfill
  obtain ⟨found, hquery, hperm, hsorted, -⟩ :=
    EventRepository.query_rows (q := .all) horder trivial hreadable
  have hperm : found.Perm table :=
    hperm.trans (.of_eq (List.filter_eq_self.mpr fun event _ => rfl))
  refine ⟨_, hquery, fun draw => ?_⟩
  have hload : (loadSystemState py pd now draw (found.map AuditEvent.record)).unnamed
      = (PositionManager.ofFills (s.fills.take s.storedFills.length)).unnamed := by
    rw [loadSystemState_record hsorted, filter_isFill_eq hperm hsorted (htable ▸ hstrict), htable]
    exact foldl_playBack_of_tellsOf htells hstored rfl
  refine ⟨hload, fun hwritten => ?_⟩
  have hgross : PositionManager.ofFills s.fills = s.session.grossBook start := by
    unfold ExecutionSession.grossBook
    rw [hstart]
    rfl
  rw [PositionManager.unnamed_bare, hload, hall hwritten, hgross, ← PositionManager.unnamed_bare,
    ← hs.attributed.book]

/-- The fill of the one order is loaded. -/
theorem loadSystemState_eq_sample : (machine sampleEnv samplePydantic).run (initial sampleStartup)
      (samplePlaced ++ sampleWritten) = some sampleEnd
    ∧ ∃ records, EventRepository.query sampleBuiltins.jsonNumbers sortRows
        (sampleEnd.store.conn.stored.map (AuditEvent.row sampleBuiltins.jsonNumbers)) .all
        = some records
      ∧ ∀ draw : ℕ → PositionId,
        (loadSystemState sampleBuiltins samplePydantic 0 draw records).unnamed
            = (PositionManager.ofFills
              (sampleEnd.fills.take sampleEnd.storedFills.length)).unnamed
          ∧ (sampleEnd.Written →
            (loadSystemState sampleBuiltins samplePydantic 0 draw records).bare.unnamed
              = sampleEnd.session.runner.pm.bare.unnamed) :=
  ⟨run_sample, loadSystemState_eq rfl ordersByTimestamp_sortRows run_sample keepsLog_sample
    keepsEvents_sample rfl stored_sample.2 fills_sample fun event hmem hne =>
      absurd (stored_sample.1 event hmem) hne⟩

end Load

end LiveSession
