import ExecutionSystem.EventLog
import ExecutionSystem.IsoTime
import ExecutionSystem.Json
import Mathlib.Data.List.Sort

/-!
# Queries of the event log

`EventRepository` of `src/storage/repositories.py` over the table of
`src/storage/db.py`: an event is stored as texts – its timestamp as an ISO text,
its payload as a JSON text – and the database selects and orders its rows by
comparing texts. What the queries of the store answer is nevertheless about the
events themselves: the payloads are those that were logged, but that what JSON
has no form for, such as an id or an instant, has become its text, and the texts
of UTC timestamps are ordered as the instants are.

So in any run of the store that loses no event, a query finds the events that it
asks for in the order of time, all of those that have left the queue, and once
the writer has ended all that were logged; and a store that has been stopped
finds none (`EventStore.query_logged`). A payload is read when it is written and
not when it is logged: that no one changes it in between is assumed.
-/

/-- Rows that can be put together from elements in some order. -/
theorem List.exists_perm_of_perm_map {α β : Type*} {f : α → β} {ys : List β} {xs : List α}
    (h : ys.Perm (xs.map f)) : ∃ zs : List α, zs.Perm xs ∧ ys = zs.map f := by
  induction ys generalizing xs with
  | nil => exact ⟨[], by rw [map_eq_nil_iff.mp (perm_nil.mp h.symm)], rfl⟩
  | cons y ys ih =>
    obtain ⟨x, hx, rfl⟩ := mem_map.mp (h.subset mem_cons_self)
    obtain ⟨as, bs, rfl⟩ := append_of_mem hx
    have hrest : ys.Perm ((as ++ bs).map f) := by
      rw [map_append, map_cons] at h
      rw [map_append]
      exact (h.trans perm_middle).cons_inv
    obtain ⟨zs, hzs, rfl⟩ := ih hrest
    exact ⟨x :: zs, (hzs.cons x).trans perm_middle.symm, rfl⟩

/-- A list is read back where each of its elements is. -/
theorem List.mapM_map_eq_some {α β γ : Type} {f : α → β} {g : β → Option γ} {r : α → γ}
    {xs : List α} (h : ∀ x ∈ xs, g (f x) = some (r x)) : (xs.map f).mapM g = some (xs.map r) := by
  induction xs with
  | nil => rfl
  | cons x xs ih =>
    obtain ⟨hx, hxs⟩ := forall_mem_cons.mp h
    rw [map_cons, mapM_cons, hx, ih hxs]
    rfl

/-- There is one order of elements of which no two are equal. -/
theorem List.Perm.eq_of_pairwise_lt {α β : Type*} [PartialOrder β] {f : α → β} {xs ys : List α}
    (h : xs.Perm ys) (hxs : xs.Pairwise fun a b => f a ≤ f b)
    (hys : ys.Pairwise fun a b => f a < f b) : xs = ys := by
  -- no two are the same, so the first list is in strict order too
  have hne : xs.Pairwise fun a b => f a ≠ f b :=
    (h.pairwise_iff fun {a b} hab => hab.symm).mpr (hys.imp fun hab => hab.ne)
  have hlt : xs.Pairwise fun a b => f a < f b :=
    (hxs.and hne).imp fun hab => hab.1.lt_of_ne hab.2
  exact h.eq_of_pairwise (fun a b _ _ hab hba => absurd hab hba.asymm) hlt hys

/-! ## Values that are logged -/

/-- A leaf of a dictionary that is logged, besides those JSON has by itself: a
number, or an object that JSON has no form for, with what `str` makes of it. -/
inductive LoggedLeaf (ν : Type) where
  | number (n : ν)
  | other (text : String)

/-- What is written of a leaf, with `default=str`. -/
def LoggedLeaf.json {ν : Type} : LoggedLeaf ν → Json ν
  | number n => .num n
  | other text => .str text

/-- **A value of a dictionary that is logged.** -/
abbrev LoggedValue (ν : Type) := Json (LoggedLeaf ν)

/-- The members of a JSON object, as a dictionary that is logged. -/
def Json.toLogged {ν : Type} : List (String × Json ν) → List (String × LoggedValue ν) :=
  bindMembers fun n => .num (.number n)

/-- Nothing of it is written as another text. -/
theorem Json.bindMembers_toLogged {ν : Type} (members : List (String × Json ν)) :
    bindMembers LoggedLeaf.json (toLogged members) = members :=
  bindMembers_bindMembers (fun _ => rfl) members

/-- A text or `None`. -/
def Json.isOptionalText {ν : Type} : Json ν → Bool
  | .str _ | .null => true
  | _ => false

/-! ## Events and their rows -/

/-- **An event as `log_callback` enqueues it**, stamped with `datetime.now(UTC)`.
Its payload is a dictionary, whose strategy is a text where there is one. -/
structure AuditEvent (ν : Type) where
  eventId : String
  eventType : String
  timestamp : IsoTime
  payload : List (String × LoggedValue ν)
  utc : timestamp.offsetMinutes = 0
  strategyText : (Json.get? payload "strategy_id").all Json.isOptionalText = true

/-- A row of the table `events`. -/
structure EventRow where
  eventId : String
  eventType : String
  timestamp : List Char
  strategyId : Option String
  payload : List Char

/-- `EventRecord`. -/
structure EventRecord (ν : Type) where
  eventId : String
  eventType : String
  timestamp : List Char
  strategyId : Option String
  payload : List (String × Json ν)

variable {ν : Type}

namespace AuditEvent

/-- `payload.get("strategy_id")`. -/
def strategyId (event : AuditEvent ν) : Option String :=
  match Json.get? event.payload "strategy_id" with
  | some (.str strategyId) => some strategyId
  | _ => none

/-- What is written of the payload. -/
def dumped (event : AuditEvent ν) : List (String × Json ν) :=
  Json.bindMembers LoggedLeaf.json event.payload

/-- The row that is inserted for the event. -/
def row (numbers : JsonNumbers ν) (event : AuditEvent ν) : EventRow where
  eventId := event.eventId
  eventType := event.eventType
  timestamp := event.timestamp.isoformat
  strategyId := event.strategyId
  payload := Json.dumps numbers (.obj event.dumped)

/-- What there is to be read of the event. -/
def record (event : AuditEvent ν) : EventRecord ν where
  eventId := event.eventId
  eventType := event.eventType
  timestamp := event.timestamp.isoformat
  strategyId := event.strategyId
  payload := event.dumped

end AuditEvent

/-- **`_row_to_record`**; `none` where the payload is no JSON text of a
dictionary. -/
def rowToRecord (numbers : JsonNumbers ν) (row : EventRow) : Option (EventRecord ν) :=
  let payload :=
    if row.payload = [] then some []
    else
      match Json.loads numbers row.payload with
      | some (.obj members) => some members
      | _ => none
  payload.map fun payload =>
    { eventId := row.eventId
      eventType := row.eventType
      timestamp := row.timestamp
      strategyId := row.strategyId
      payload := payload }

/-! ## Queries -/

/-- The queries of `EventRepository`. -/
inductive EventQuery where
  | byType (eventType : String)
  | byStrategy (strategyId : String)
  | byTimeRange (start stop : IsoTime)
  | byTypeAndStrategy (eventType strategyId : String)
  | all

namespace EventQuery

/-- **The `WHERE` clause**: texts are compared. -/
def selects (row : EventRow) : EventQuery → Bool
  | byType eventType => row.eventType = eventType
  | byStrategy strategyId => row.strategyId = some strategyId
  | byTimeRange start stop =>
    !textLt row.timestamp start.isoformat && !textLt stop.isoformat row.timestamp
  | byTypeAndStrategy eventType strategyId =>
    row.eventType = eventType && row.strategyId = some strategyId
  | all => true

/-- What the query asks for. -/
def asksFor (event : AuditEvent ν) : EventQuery → Bool
  | byType eventType => event.eventType = eventType
  | byStrategy strategyId => event.strategyId = some strategyId
  | byTimeRange start stop =>
    start.instant ≤ event.timestamp.instant && event.timestamp.instant ≤ stop.instant
  | byTypeAndStrategy eventType strategyId =>
    event.eventType = eventType && event.strategyId = some strategyId
  | all => true

/-- The range is given in UTC, as the query wants it. -/
def Utc : EventQuery → Prop
  | byTimeRange start stop => start.offsetMinutes = 0 ∧ stop.offsetMinutes = 0
  | _ => True

end EventQuery

/-- **What `ORDER BY timestamp ASC` may do**: it puts rows in the order of the
texts of their timestamps, and those with the same text in any. -/
structure OrdersByTimestamp (orderBy : List EventRow → List EventRow) : Prop where
  perm : ∀ rows, (orderBy rows).Perm rows
  sorted : ∀ rows, (orderBy rows).Pairwise fun a b => textLt b.timestamp a.timestamp = false

/-- **A query of the table.** -/
def EventRepository.query (numbers : JsonNumbers ν) (orderBy : List EventRow → List EventRow)
    (table : List EventRow) (q : EventQuery) : Option (List (EventRecord ν)) :=
  (orderBy (table.filter fun row => q.selects row)).mapM (rowToRecord numbers)

section Query

variable {numbers : JsonNumbers ν} {event : AuditEvent ν} {events : List (AuditEvent ν)}
  {orderBy : List EventRow → List EventRow} {q : EventQuery}

/-- All numbers of the payload are read back. -/
def AuditEvent.Readable (numbers : JsonNumbers ν) (event : AuditEvent ν) : Prop :=
  (Json.obj event.dumped).Readable numbers

/-- **An event is read as it was written.** -/
theorem rowToRecord_row (h : event.Readable numbers) :
    rowToRecord numbers (event.row numbers) = some event.record := by
  have hloads : Json.loads numbers (Json.dumps numbers (.obj event.dumped))
      = some (.obj event.dumped) := by
    have hread := Json.loads_dumps h (r := []) rfl
    rwa [List.append_nil] at hread
  have hne : (event.row numbers).payload ≠ [] := by
    obtain ⟨c, cs, hcons, -⟩ := Json.exists_dumps_eq_cons h
    show Json.dumps numbers (.obj event.dumped) ≠ []
    rw [hcons]
    exact List.cons_ne_nil _ _
  unfold rowToRecord
  rw [if_neg hne]
  show Option.map _ (match Json.loads numbers (Json.dumps numbers (.obj event.dumped)) with
    | some (.obj members) => some members
    | _ => none) = _
  rw [hloads]
  rfl

/-- The texts of two UTC timestamps are in order when the instants are. -/
theorem textLt_timestamp {t u : IsoTime} (ht : t.offsetMinutes = 0) (hu : u.offsetMinutes = 0) :
    textLt t.isoformat u.isoformat = false ↔ u.instant ≤ t.instant := by
  rw [← not_lt, ← IsoTime.textLt_isoformat_iff (ht.trans hu.symm), Bool.not_eq_true]

/-- **The texts select what the query asks for.** -/
theorem EventQuery.selects_row (hq : q.Utc) : q.selects (event.row numbers) = q.asksFor event := by
  cases q with
  | byTimeRange start stop =>
    have hstart := textLt_timestamp event.utc hq.1
    have hstop := textLt_timestamp hq.2 event.utc
    show (!textLt event.timestamp.isoformat start.isoformat
      && !textLt stop.isoformat event.timestamp.isoformat) = _
    rw [Bool.eq_iff_iff]
    simp only [EventQuery.asksFor, Bool.and_eq_true, Bool.not_eq_true', decide_eq_true_eq, hstart,
      hstop]
  | _ => rfl

/-- **A query of a table of events** finds those that it asks for, in the order of
time; and where the events of the table are in that order, it leaves them so. -/
theorem EventRepository.query_rows (horder : OrdersByTimestamp orderBy) (hq : q.Utc)
    (hreadable : ∀ event ∈ events, event.Readable numbers) :
    ∃ found, EventRepository.query numbers orderBy (events.map (AuditEvent.row numbers)) q
        = some (found.map AuditEvent.record)
      ∧ found.Perm (events.filter fun event => q.asksFor event)
      ∧ found.Pairwise (fun a b => a.timestamp.instant ≤ b.timestamp.instant)
      ∧ (events.Pairwise (fun a b => a.timestamp.instant < b.timestamp.instant) →
        found = events.filter fun event => q.asksFor event) := by
  have hfilter : (events.map (AuditEvent.row numbers)).filter (fun row => q.selects row)
      = (events.filter fun event => q.asksFor event).map (AuditEvent.row numbers) := by
    rw [List.filter_map]
    exact congrArg _ (List.filter_congr fun event _ => EventQuery.selects_row hq)
  unfold EventRepository.query
  rw [hfilter]
  obtain ⟨found, hperm, hrows⟩ := List.exists_perm_of_perm_map
    (horder.perm ((events.filter fun event => q.asksFor event).map (AuditEvent.row numbers)))
  have hsorted : found.Pairwise fun a b => a.timestamp.instant ≤ b.timestamp.instant := by
    have htexts := horder.sorted
      ((events.filter fun event => q.asksFor event).map (AuditEvent.row numbers))
    rw [hrows, List.pairwise_map] at htexts
    exact htexts.imp fun {a b} h => (textLt_timestamp b.utc a.utc).mp h
  refine ⟨found, ?_, hperm, hsorted, fun hstrict => ?_⟩
  · rw [hrows]
    exact List.mapM_map_eq_some fun event hmem =>
      rowToRecord_row (hreadable event (List.mem_of_mem_filter (hperm.subset hmem)))
  · exact hperm.eq_of_pairwise_lt hsorted (hstrict.filter _)

end Query

/-- A stable sort of the rows is such an order. -/
def sortRows (rows : List EventRow) : List EventRow :=
  rows.mergeSort fun a b => !textLt b.timestamp a.timestamp

theorem ordersByTimestamp_sortRows : OrdersByTimestamp sortRows where
  perm := fun rows => List.mergeSort_perm rows _
  sorted := fun rows => by
    have htrans : ∀ a b c : EventRow, (!textLt b.timestamp a.timestamp) = true →
        (!textLt c.timestamp b.timestamp) = true → (!textLt c.timestamp a.timestamp) = true := by
      intro a b c hab hbc
      rw [Bool.not_eq_true'] at hab hbc ⊢
      refine Bool.eq_false_iff.mpr fun hca => ?_
      rcases textLt_or_of_textLt hca b.timestamp with h | h
      · rw [h] at hbc; cases hbc
      · rw [h] at hab; cases hab
    have htotal : ∀ a b : EventRow, ((!textLt b.timestamp a.timestamp)
        || !textLt a.timestamp b.timestamp) = true := by
      intro a b
      cases hba : textLt b.timestamp a.timestamp with
      | false => rfl
      | true => rw [textLt_asymm hba]; rfl
    exact (List.pairwise_mergeSort htrans htotal rows).imp fun h => by simpa using h

/-! ## Queries of a running store -/

namespace EventStore

variable {numbers : JsonNumbers ν} {orderBy : List EventRow → List EventRow} {q : EventQuery}

/-- `stop` has closed the connection, and has dropped the repository with it. -/
def Label.closes {ε : Type} : Label ε → Bool
  | .close => true
  | .log _ | .stop | .wake | .reply _ | .cancel _ => false

/-- **A query of the store**, after steps: it answers nothing where there is no
repository any more, and reads by the store's own connection otherwise, which sees
the transaction that is open on it. -/
def query (numbers : JsonNumbers ν) (orderBy : List EventRow → List EventRow)
    (ls : List (Label (AuditEvent ν))) (s : State (AuditEvent ν)) (q : EventQuery) :
    Option (List (EventRecord ν)) :=
  if ls.any Label.closes then some []
  else EventRepository.query numbers orderBy (s.conn.rows.map (AuditEvent.row numbers)) q

section Rows

variable {ε : Type} {s t : State ε} {l : Label ε}

/-- A store that has lost nothing reads no more rows than were logged. -/
theorem length_rows_step (hs : Complete s) (hrows : s.conn.rows.length ≤ s.logged.length)
    (h : step s l = some t) : t.conn.rows.length ≤ t.logged.length := by
  have hlogged : s.logged.length ≤ t.logged.length := by
    obtain heq | ⟨e, -, heq⟩ := logged_step h
    · exact Nat.le_of_eq (by rw [heq])
    · rw [heq, List.length_append]
      omega
  refine Nat.le_trans ?_ hlogged
  obtain hconn | hconn | ⟨ok, hconn⟩ | ⟨w, ok, hw, hconn⟩ := conn_step h
  · rwa [hconn]
  · refine Nat.le_trans ?_ hrows
    rw [hconn, Connection.rows_rollback, Connection.rows, List.length_append]
    omega
  · rwa [hconn, Connection.rows_commit]
  · cases ok with
    | true =>
      rw [hconn, Connection.rows_insert_true, ← hs.accounted, accounted_executing hw]
      simp only [List.length_append]
      omega
    | false => rwa [hconn]

/-- **What has been logged and is not read yet is on its way.** -/
theorem Complete.rows_append (h : Complete s) (hrows : s.conn.rows.length ≤ s.logged.length) :
    ∃ pending, s.conn.rows ++ pending = s.logged ∧ (s.writer = .ended → pending = [])
      ∧ (s.writer = .waiting → pending = s.queue.events) := by
  obtain ⟨haccounted, htidy⟩ := h
  cases hw : s.writer with
  | waiting =>
    rw [accounted_waiting hw] at haccounted
    exact ⟨s.queue.events, haccounted, by rintro ⟨⟩, fun _ => rfl⟩
  | executing w =>
    rw [accounted_executing hw, List.append_assoc] at haccounted
    exact ⟨w.items ++ s.queue.events, haccounted, by rintro ⟨⟩, by rintro ⟨⟩⟩
  | committing w =>
    rw [accounted_committing hw] at haccounted
    exact ⟨s.queue.events, haccounted, by rintro ⟨⟩, by rintro ⟨⟩⟩
  | rollingBack w =>
    rw [State.Tidy, hw] at htidy
    exact htidy.elim
  | ended =>
    rw [accounted_ended hw] at haccounted
    -- the table has all of it, so there is no room for an open transaction
    have hnone : s.conn.uncommitted = [] := by
      rw [← haccounted, Connection.rows, List.length_append] at hrows
      exact List.eq_nil_of_length_eq_zero (by omega)
    refine ⟨[], ?_, fun _ => rfl, by rintro ⟨⟩⟩
    rw [List.append_nil, Connection.rows_of_uncommitted hnone, haccounted]

end Rows

/-- A request that succeeds loses nothing. -/
theorem losesNone_reply {ε : Type} (s : State ε) :
    SinglesSucceed s (.reply true) ∧ LosesNone s (.reply true) := by
  refine ⟨singlesSucceed_reply s, ?_⟩
  unfold LosesNone
  cases s.writer with
  | waiting | rollingBack _ | ended => trivial
  | executing _ | committing _ => rfl

/-- **A query finds what was logged.** In a run of the store that loses no event,
it answers with the events that it asks for, with the payloads they were logged
with and in the order of time, of all events up to some that are still pending:
none once the writer has ended, and where it waits those in the queue. Once the
store has been closed it answers nothing. -/
theorem query_logged {s : State (AuditEvent ν)} {ls : List (Label (AuditEvent ν))}
    (horder : OrdersByTimestamp orderBy) (hq : q.Utc)
    (hreadable : ∀ event ∈ s.logged, event.Readable numbers)
    (hrun : machine.run initial ls = some s)
    (hlossless : machine.Along (fun s l _ => SinglesSucceed s l ∧ LosesNone s l) initial ls) :
    (ls.any Label.closes → query numbers orderBy ls s q = some [])
      ∧ (ls.any Label.closes = false →
        ∃ pending found, s.conn.rows ++ pending = s.logged
          ∧ (s.writer = .ended → pending = []) ∧ (s.writer = .waiting → pending = s.queue.events)
          ∧ query numbers orderBy ls s q = some (found.map AuditEvent.record)
          ∧ found.Perm (s.conn.rows.filter fun event => q.asksFor event)
          ∧ found.Pairwise (fun a b => a.timestamp.instant ≤ b.timestamp.instant)
          ∧ (s.conn.rows.Pairwise (fun a b => a.timestamp.instant < b.timestamp.instant) →
            found = s.conn.rows.filter fun event => q.asksFor event)) := by
  refine ⟨fun hclosed => if_pos hclosed, fun hopen => ?_⟩
  have hs : Complete s ∧ s.conn.rows.length ≤ s.logged.length :=
    Machine.run_invariant (J := fun s => Complete s ∧ s.conn.rows.length ≤ s.logged.length)
      (fun _ _ _ hs hstep hlossless => ⟨(complete_step hs.1 hlossless.1 hstep).1 hlossless.2,
        length_rows_step hs.1 hs.2 hstep⟩)
      ⟨complete_initial, Nat.le_refl 0⟩ hlossless hrun
  obtain ⟨pending, hpending, hended, hwaiting⟩ := hs.1.rows_append hs.2
  have hrows : ∀ event ∈ s.conn.rows, event.Readable numbers := fun event hmem =>
    hreadable event (hpending ▸ List.mem_append_left _ hmem)
  obtain ⟨found, hquery, hfound⟩ := EventRepository.query_rows horder hq hrows
  refine ⟨pending, found, hpending, hended, hwaiting, ?_, hfound⟩
  rw [query, hopen]
  exact hquery

theorem epoch_year_lt : (CivilDate.ofDayNumber 719162).year < 10000 := by decide +kernel

theorem no_microsecond_lt : 0 < 1000000 := by decide

theorem utc_offset_lt : (0 : ℤ).natAbs < 1440 := by decide

/-- An event of the first day of the epoch. -/
def sampleEvent (second : ℕ) (h : second < 86400) : AuditEvent ℕ where
  eventId := "0"
  eventType := "signal"
  timestamp :=
    { date := .ofDayNumber 719162
      secondOfDay := second
      microsecond := 0
      offsetMinutes := 0
      year_le := epoch_year_lt
      second_lt := h
      microsecond_lt := no_microsecond_lt
      offset_lt := utc_offset_lt }
  payload := [("strategy_id", .str "orb"), ("order_id", .num (.other "100"))]
  utc := rfl
  strategyText := rfl

/-- Two events, of which the clock has put the second before the first. -/
def twoEvents : List (Label (AuditEvent ℕ)) :=
  [.log (sampleEvent 2 (by decide)), .log (sampleEvent 1 (by decide)), .wake, .reply true,
    .reply true]

theorem query_logged_twoEvents : ∃ s, machine.run initial twoEvents = some s
    ∧ ∃ pending found, s.conn.rows ++ pending = s.logged
      ∧ (s.writer = .ended → pending = []) ∧ (s.writer = .waiting → pending = s.queue.events)
      ∧ query ⟨fun _ => [], fun _ => none⟩ sortRows twoEvents s (.byStrategy "orb")
        = some (found.map AuditEvent.record)
      ∧ found.Perm (s.conn.rows.filter fun event => (EventQuery.byStrategy "orb").asksFor event)
      ∧ found.Pairwise (fun a b => a.timestamp.instant ≤ b.timestamp.instant)
      ∧ (s.conn.rows.Pairwise (fun a b => a.timestamp.instant < b.timestamp.instant) →
        found = s.conn.rows.filter fun event => (EventQuery.byStrategy "orb").asksFor event) := by
  have hlossless : machine.Along (fun s l _ => SinglesSucceed s l ∧ LosesNone s l) initial
      twoEvents :=
    (Machine.along_cons_some rfl).mpr ⟨⟨trivial, trivial⟩,
      (Machine.along_cons_some rfl).mpr ⟨⟨trivial, trivial⟩,
        (Machine.along_cons_some rfl).mpr ⟨⟨trivial, trivial⟩,
          (Machine.along_cons_some rfl).mpr ⟨losesNone_reply _,
            (Machine.along_cons_some rfl).mpr ⟨losesNone_reply _, trivial⟩⟩⟩⟩⟩
  refine ⟨_, rfl, (query_logged (q := .byStrategy "orb") ordersByTimestamp_sortRows trivial ?_ rfl
    hlossless).2 rfl⟩
  intro event hevent
  rcases List.mem_cons.mp hevent with rfl | hevent
  · exact ⟨trivial, trivial, trivial⟩
  · obtain rfl := List.mem_singleton.mp hevent
    exact ⟨trivial, trivial, trivial⟩

end EventStore
