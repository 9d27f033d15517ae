import ExecutionSystem.Machine
import ExecutionSystem.Transactions

/-!
# The event log and its writer

`EventStore.log_callback` puts an event into a queue, and a background
task takes the events out of it and writes them to the database. The
writer is a state machine of its own, stopping at each of its awaits: at
the queue, at the `INSERT`, the commit and the rollback of a batch
(`insert_many`) or of a single event (`insert`). Between two awaits it runs
on without interruption (`drainQueue`, `drainRemaining`).

The awaits of the database are requests to the thread that owns the
connection. A request is carried out also when the writer no longer waits
for it: cancelling the writer abandons the answer and not the request.
Whether a request succeeds is not the writer's to say and comes with the
label.

An event is on its way from the queue to the table, and at every moment
all events logged so far are to be found somewhere on that way, in order
(`accounted`). What goes wrong is what happens to the part of it that is
in neither the queue nor the table. A batch that cannot be written is
dropped. A writer that is cancelled while it waits for an `INSERT` never
commits it; the handler's own writes would, but there are none where the
queue is empty.
-/

namespace EventStore

variable {ε : Type*}

/-! ## The writer -/

/-- What is being written: a batch (`_write_batch`), with whether the
sentinel was found behind it, or a single event (`_drain_remaining`), with
whether it is drained by the handler of a cancellation. -/
inductive Write (ε : Type*)
  | batch (first : ε) (others : List ε) (last : Bool)
  | single (item : ε) (cancelled : Bool)
  deriving DecidableEq, Repr

namespace Write

/-- The events that are written. -/
def items : Write ε → List ε
  | batch first others _ => first :: others
  | single item _ => [item]

/-- The write is part of the handler of a cancellation. -/
def cancelled : Write ε → Bool
  | batch _ _ _ => false
  | single _ cancelled => cancelled

/-- The write is `insert` and not `insert_many`. -/
def isSingle : Write ε → Bool
  | batch _ _ _ => false
  | single _ _ => true

theorem items_ne_nil : ∀ w : Write ε, w.items ≠ []
  | batch _ _ _ => List.cons_ne_nil _ _
  | single _ _ => List.cons_ne_nil _ _

end Write

/-- **Where the writer is**: at one of its awaits, or at its end. -/
inductive Writer (ε : Type*)
  | waiting
  | executing (write : Write ε)
  | committing (write : Write ε)
  | rollingBack (write : Write ε)
  | ended
  deriving DecidableEq, Repr

/-- The writer's task is done. -/
def Writer.done : Writer ε → Bool
  | ended => true
  | waiting | executing _ | committing _ | rollingBack _ => false

theorem Writer.done_iff {w : Writer ε} : w.done = true ↔ w = .ended := by
  cases w <;> simp [done]

theorem Writer.done_eq_false {w : Writer ε} (h : w ≠ .ended) : w.done = false :=
  Bool.eq_false_iff.mpr (mt done_iff.mp h)

/-- The queue of an `EventStore`: the events put into it and the sentinels
that `stop` puts there. -/
abbrev Queue (ε : Type*) := List (Option ε)

/-- The events in a queue. -/
def Queue.events (q : Queue ε) : List ε := q.filterMap id

/-- `_drain_remaining`, up to its next await: the first event left in the
queue is written by itself, and where there is none the writer ends. -/
def drainRemaining (cancelled : Bool) : Queue ε → Writer ε × Queue ε
  | [] => (.ended, [])
  | none :: q => drainRemaining cancelled q
  | some e :: q => (.executing (.single e cancelled), q)

/-- What the inner loop of `_drain_queue` adds to a batch that has room for
`n` more: the events up to a sentinel, whether one was found, and what is
left in the queue. -/
def fillBatch : ℕ → Queue ε → List ε × Bool × Queue ε
  | 0, q => ([], false, q)
  | _ + 1, [] => ([], false, [])
  | _ + 1, none :: q => ([], true, q)
  | n + 1, some e :: q =>
    let filled := fillBatch n q
    (e :: filled.1, filled.2.1, filled.2.2)

/-- `_drain_queue`, from the head of its loop to its next await. A batch
holds a hundred events at most. -/
def drainQueue : Queue ε → Writer ε × Queue ε
  | [] => (.waiting, [])
  | none :: q => drainRemaining false q
  | some e :: q =>
    let filled := fillBatch 99 q
    (.executing (.batch e filled.1 filled.2.1), filled.2.2)

/-- Where the writer goes on once a write is done with, whether it
succeeded or was given up. -/
def resume : Write ε → Queue ε → Writer ε × Queue ε
  | .batch _ _ false => drainQueue
  | .batch _ _ true => drainRemaining false
  | .single _ cancelled => drainRemaining cancelled

/-- Where a writer goes on that is cancelled: the handler drains the queue,
and a second cancellation ends it. -/
def interrupted (cancelled : Bool) (q : Queue ε) : Writer ε × Queue ε :=
  if cancelled then (.ended, q) else drainRemaining true q

/-! ## The store -/

/-- **The event store** after `start`: its queue, its writer and its
connection. `logged` is what has been logged while the writer ran, and
nothing reads it. -/
structure State (ε : Type*) where
  queue : Queue ε
  writer : Writer ε
  conn : Connection ε
  logged : List ε
  deriving DecidableEq, Repr

/-- An event store that has just been started. -/
def initial : State ε := ⟨[], .waiting, ⟨[], []⟩, []⟩

/-- **What can happen next**: an event is logged; `stop` is called, and the
connection is closed once the writer has ended; an item of the queue wakes
the writer; the request it waits for is answered; or it is cancelled where
it waits. The last two say whether the request succeeds. -/
inductive Label (ε : Type*)
  | log (event : ε)
  | stop
  | close
  | wake
  | reply (ok : Bool)
  | cancel (ok : Bool)
  deriving DecidableEq, Repr

/-- The writer goes on on its queue, over a connection. -/
def State.goOn (s : State ε) (conn : Connection ε) (next : Writer ε × Queue ε) : State ε :=
  { s with conn := conn, writer := next.1, queue := next.2 }

/-- The request the writer waits for is answered. A failed `INSERT` or
commit is rolled back, the error is logged, and the writer goes on. -/
def State.reply (s : State ε) (ok : Bool) : Option (State ε) :=
  match s.writer with
  | .executing w =>
    some { s with conn := s.conn.insert w.items ok,
                  writer := if ok then .committing w else .rollingBack w }
  | .committing w =>
    if ok then some (s.goOn (s.conn.commit true) (resume w s.queue))
    else some { s with writer := .rollingBack w }
  | .rollingBack w => some (s.goOn s.conn.rollback (resume w s.queue))
  | .waiting | .ended => none

/-- The writer is cancelled at its await. The request it waited for is
carried out all the same. -/
def State.cancel (s : State ε) (ok : Bool) : Option (State ε) :=
  match s.writer with
  | .waiting => some (s.goOn s.conn (interrupted false s.queue))
  | .executing w => some (s.goOn (s.conn.insert w.items ok) (interrupted w.cancelled s.queue))
  | .committing w => some (s.goOn (s.conn.commit ok) (interrupted w.cancelled s.queue))
  | .rollingBack w => some (s.goOn s.conn.rollback (interrupted w.cancelled s.queue))
  | .ended => none

/-- `log_callback`: the event is enqueued. -/
def State.logCallback (s : State ε) (e : ε) : State ε :=
  { s with queue := s.queue ++ [some e],
           logged := if s.writer.done then s.logged else s.logged ++ [e] }

/-- One step of the store. -/
def step (s : State ε) : Label ε → Option (State ε)
  | .log e => some (s.logCallback e)
  | .stop => if s.writer.done then none else some { s with queue := s.queue ++ [none] }
  | .close => if s.writer.done then some { s with conn := s.conn.rollback } else none
  | .wake =>
    match s.writer with
    | .waiting => if s.queue.isEmpty then none else some (s.goOn s.conn (drainQueue s.queue))
    | _ => none
  | .reply ok => s.reply ok
  | .cancel ok => s.cancel ok

/-- The event store as a machine. -/
def machine : Machine (State ε) (Label ε) := ⟨step⟩

/-! ## Where the writer goes on -/

/-- **How the writer goes on on a queue**: it waits where the queue is
empty, ends where no event is left, or writes the first events of it. -/
inductive GoesOn (cancelled : Bool) (q : Queue ε) : Writer ε × Queue ε → Prop
  | waits : cancelled = false → q.events = [] → GoesOn cancelled q (.waiting, [])
  | ends : q.events = [] → GoesOn cancelled q (.ended, [])
  | writes (w : Write ε) (rest : Queue ε) :
      w.cancelled = cancelled → q.events = w.items ++ rest.events →
      GoesOn cancelled q (.executing w, rest)

/-- Only the events of the queue matter. -/
theorem GoesOn.congr {cancelled : Bool} {q q' : Queue ε} {next : Writer ε × Queue ε}
    (hq : q'.events = q.events) (h : GoesOn cancelled q next) : GoesOn cancelled q' next := by
  cases h with
  | waits hc hnil => exact .waits hc (hq.trans hnil)
  | ends hnil => exact .ends (hq.trans hnil)
  | writes w rest hc hw => exact .writes w rest hc (hq.trans hw)

theorem events_none_cons (q : Queue ε) : Queue.events (none :: q) = q.events := rfl

theorem goesOn_drainRemaining (cancelled : Bool) :
    ∀ q : Queue ε, GoesOn cancelled q (drainRemaining cancelled q)
  | [] => .ends rfl
  | none :: q => (goesOn_drainRemaining cancelled q).congr (events_none_cons q)
  | some e :: q => .writes (.single e cancelled) q rfl rfl

/-- Nothing is lost between a batch and the queue it is taken from. -/
theorem events_fillBatch (n : ℕ) (q : Queue ε) :
    q.events = (fillBatch n q).1 ++ (fillBatch n q).2.2.events := by
  induction n, q using fillBatch.induct with
  | case1 q => rfl
  | case2 n => rfl
  | case3 n q => rfl
  | case4 n e q ih => exact congrArg (e :: ·) ih

theorem goesOn_drainQueue : ∀ q : Queue ε, GoesOn false q (drainQueue q)
  | [] => .waits rfl rfl
  | none :: q => (goesOn_drainRemaining false q).congr (events_none_cons q)
  | some e :: q => .writes (.batch e (fillBatch 99 q).1 (fillBatch 99 q).2.1)
      (fillBatch 99 q).2.2 rfl (congrArg (e :: ·) (events_fillBatch 99 q))

theorem goesOn_resume (q : Queue ε) : ∀ w : Write ε, GoesOn w.cancelled q (resume w q)
  | .batch _ _ false => goesOn_drainQueue q
  | .batch _ _ true => goesOn_drainRemaining false q
  | .single _ cancelled => goesOn_drainRemaining cancelled q

/-! ## Where the events are -/

/-- **The events that are accounted for**, in order: those in the table
and, while the writer runs, those in the open transaction, those being
written and those in the queue. What a rollback is about to drop no longer
counts, and neither does what the writer leaves behind at its end. -/
def State.accounted (s : State ε) : List ε :=
  match s.writer with
  | .waiting | .committing _ => s.conn.rows ++ s.queue.events
  | .executing w => s.conn.rows ++ w.items ++ s.queue.events
  | .rollingBack _ => s.conn.stored ++ s.queue.events
  | .ended => s.conn.stored

section Phases

variable {s : State ε} {w : Write ε}

theorem accounted_waiting (h : s.writer = .waiting) :
    s.accounted = s.conn.rows ++ s.queue.events := by
  rw [State.accounted, h]

theorem accounted_executing (h : s.writer = .executing w) :
    s.accounted = s.conn.rows ++ w.items ++ s.queue.events := by
  rw [State.accounted, h]

theorem accounted_committing (h : s.writer = .committing w) :
    s.accounted = s.conn.rows ++ s.queue.events := by
  rw [State.accounted, h]

theorem accounted_rollingBack (h : s.writer = .rollingBack w) :
    s.accounted = s.conn.stored ++ s.queue.events := by
  rw [State.accounted, h]

theorem accounted_ended (h : s.writer = .ended) : s.accounted = s.conn.stored := by
  rw [State.accounted, h]

end Phases

/-- Between two writes the transaction is empty, but for what the handler
of a cancellation has found there. -/
def State.Tidy (s : State ε) : Prop :=
  match s.writer with
  | .waiting => s.conn.uncommitted = []
  | .executing w => w.cancelled = false → s.conn.uncommitted = []
  | .committing _ => s.conn.uncommitted ≠ []
  | .rollingBack _ => False
  | .ended => True

/-- **Nothing has been lost**: what is accounted for is what was logged. -/
structure Complete (s : State ε) : Prop where
  accounted : s.accounted = s.logged
  tidy : s.Tidy

/-- **Something has been lost.** -/
def Short (s : State ε) : Prop := s.accounted.length < s.logged.length

/-- The rows are all in the table at the end. -/
theorem Complete.stored {s : State ε} (h : Complete s) (hend : s.writer = .ended) :
    s.conn.stored = s.logged := by
  rw [← h.accounted, accounted_ended hend]

theorem Short.stored_ne {s : State ε} (h : Short s) (hend : s.writer = .ended) :
    s.conn.stored ≠ s.logged := by
  intro heq
  rw [Short, accounted_ended hend, heq] at h
  exact Nat.lt_irrefl _ h

/-- A writer that goes on adds no event. -/
theorem GoesOn.length_accounted_le {s : State ε} {c : Bool} {conn : Connection ε}
    {next : Writer ε × Queue ε} (h : GoesOn c s.queue next) :
    (s.goOn conn next).accounted.length ≤ conn.rows.length + s.queue.events.length := by
  cases h with
  | waits _ hq => simp [State.accounted, State.goOn, Queue.events]
  | ends hq =>
    show conn.stored.length ≤ (conn.stored ++ conn.uncommitted).length + s.queue.events.length
    rw [List.length_append]
    omega
  | writes w rest _ hw => simp [State.accounted, State.goOn, hw]

/-- **A writer that goes on with an empty transaction loses nothing.** -/
theorem GoesOn.complete {s : State ε} {c : Bool} {conn : Connection ε}
    {next : Writer ε × Queue ε} (h : GoesOn c s.queue next) (hconn : conn.uncommitted = [])
    (hlogged : conn.rows ++ s.queue.events = s.logged) : Complete (s.goOn conn next) := by
  have hrows : conn.rows = conn.stored := Connection.rows_of_uncommitted hconn
  cases h with
  | waits _ hq =>
    rw [hq] at hlogged
    exact ⟨hlogged, hconn⟩
  | ends hq =>
    rw [hq, List.append_nil, hrows] at hlogged
    exact ⟨hlogged, trivial⟩
  | writes w rest _ hw =>
    rw [hw, ← List.append_assoc] at hlogged
    exact ⟨hlogged, fun _ => hconn⟩

/-- **A handler that finds an event loses nothing**: its commit is that of
the open transaction too. -/
theorem GoesOn.complete_of_ne_nil {s : State ε} {conn : Connection ε}
    {next : Writer ε × Queue ε} (h : GoesOn true s.queue next) (hq : s.queue.events ≠ [])
    (hlogged : conn.rows ++ s.queue.events = s.logged) : Complete (s.goOn conn next) := by
  cases h with
  | waits hc _ => exact Bool.noConfusion hc
  | ends hnil => exact absurd hnil hq
  | writes w rest hc hw =>
    rw [hw, ← List.append_assoc] at hlogged
    exact ⟨hlogged, fun hw' => absurd (hw'.symm.trans hc) Bool.false_ne_true⟩

/-- A handler that finds none leaves the open transaction as it is. -/
theorem GoesOn.accounted_of_nil {s : State ε} {conn : Connection ε}
    {next : Writer ε × Queue ε} (h : GoesOn true s.queue next) (hq : s.queue.events = []) :
    (s.goOn conn next).accounted = conn.stored := by
  cases h with
  | waits hc _ => exact Bool.noConfusion hc
  | ends hnil => rfl
  | writes w rest _ hw =>
    rw [hq] at hw
    exact absurd (List.append_eq_nil_iff.mp hw.symm).1 w.items_ne_nil

/-- No way of going on after a cancellation adds an event. -/
theorem length_accounted_interrupted_le (s : State ε) (c : Bool) (conn : Connection ε) :
    (s.goOn conn (interrupted c s.queue)).accounted.length
      ≤ conn.rows.length + s.queue.events.length := by
  cases c with
  | false => exact (goesOn_drainRemaining true s.queue).length_accounted_le
  | true =>
    show conn.stored.length ≤ (conn.stored ++ conn.uncommitted).length + s.queue.events.length
    rw [List.length_append]
    omega

/-! ## Nothing comes back -/

theorem events_append (q : Queue ε) (item : Option ε) :
    Queue.events (q ++ [item]) = q.events ++ item.toList := by
  cases item <;> simp [Queue.events]

/-- What is put into the queue of a writer that runs is accounted for
last. -/
theorem accounted_enqueue {s : State ε} (hw : s.writer ≠ .ended) (item : Option ε)
    (logged : List ε) :
    State.accounted { s with queue := s.queue ++ [item], logged := logged }
      = s.accounted ++ item.toList := by
  unfold State.accounted
  cases h : s.writer with
  | ended => exact absurd h hw
  | _ => simp [events_append]

variable {s t : State ε} {ok : Bool}

/-- An answer adds no event. -/
theorem length_accounted_reply (h : s.reply ok = some t) :
    t.accounted.length ≤ s.accounted.length := by
  cases hw : s.writer with
  | waiting | ended => rw [State.reply, hw] at h; cases h
  | executing w =>
    rw [State.reply, hw] at h
    obtain rfl := Option.some.inj h
    rw [accounted_executing hw]
    cases ok with
    | true =>
      show ((s.conn.insert w.items true).rows ++ s.queue.events).length ≤ _
      exact Nat.le_of_eq (by rw [Connection.rows_insert_true])
    | false =>
      show (s.conn.stored ++ s.queue.events).length ≤ _
      simp only [Connection.rows, List.length_append]
      omega
  | committing w =>
    rw [State.reply, hw] at h
    rw [accounted_committing hw, List.length_append]
    cases ok with
    | true =>
      obtain rfl := Option.some.inj h
      have hle := @GoesOn.length_accounted_le _ s _ (s.conn.commit true) _
        (goesOn_resume s.queue w)
      rwa [Connection.rows_commit] at hle
    | false =>
      obtain rfl := Option.some.inj h
      show (s.conn.stored ++ s.queue.events).length ≤ _
      simp only [Connection.rows, List.length_append]
      omega
  | rollingBack w =>
    rw [State.reply, hw] at h
    obtain rfl := Option.some.inj h
    rw [accounted_rollingBack hw, List.length_append, ← Connection.rows_rollback]
    exact (goesOn_resume s.queue w).length_accounted_le

/-- A cancellation adds no event. -/
theorem length_accounted_cancel (h : s.cancel ok = some t) :
    t.accounted.length ≤ s.accounted.length := by
  cases hw : s.writer with
  | ended => rw [State.cancel, hw] at h; cases h
  | waiting =>
    rw [State.cancel, hw] at h
    obtain rfl := Option.some.inj h
    rw [accounted_waiting hw, List.length_append]
    exact length_accounted_interrupted_le s _ _
  | executing w =>
    rw [State.cancel, hw] at h
    obtain rfl := Option.some.inj h
    refine Nat.le_trans (length_accounted_interrupted_le s _ _) ?_
    simp only [accounted_executing hw, List.length_append]
    cases ok with
    | true =>
      exact Nat.le_of_eq (by rw [Connection.rows_insert_true, List.length_append])
    | false => rw [Connection.insert_false]; omega
  | committing w =>
    rw [State.cancel, hw] at h
    obtain rfl := Option.some.inj h
    rw [accounted_committing hw, List.length_append, ← s.conn.rows_commit ok]
    exact length_accounted_interrupted_le s _ _
  | rollingBack w =>
    rw [State.cancel, hw] at h
    obtain rfl := Option.some.inj h
    rw [accounted_rollingBack hw, List.length_append, ← Connection.rows_rollback]
    exact length_accounted_interrupted_le s _ _

/-- The connection's answers log nothing. -/
theorem logged_reply (h : s.reply ok = some t) : t.logged = s.logged := by
  cases hw : s.writer with
  | waiting | ended => rw [State.reply, hw] at h; cases h
  | executing w | rollingBack w =>
    rw [State.reply, hw] at h
    obtain rfl := Option.some.inj h
    rfl
  | committing w =>
    rw [State.reply, hw] at h
    cases ok with
    | true | false =>
      obtain rfl := Option.some.inj h
      rfl

/-- A cancellation logs nothing. -/
theorem logged_cancel (h : s.cancel ok = some t) : t.logged = s.logged := by
  cases hw : s.writer with
  | ended => rw [State.cancel, hw] at h; cases h
  | waiting | executing w | committing w | rollingBack w =>
    rw [State.cancel, hw] at h
    obtain rfl := Option.some.inj h
    rfl

variable {l : Label ε}

theorem step_log (e : ε) (h : step s (.log e) = some t) : t = s.logCallback e :=
  (Option.some.inj h).symm

theorem step_stop (h : step s .stop = some t) :
    s.writer ≠ .ended ∧ t = { s with queue := s.queue ++ [none] } := by
  rw [step] at h
  split at h
  · cases h
  · next hw => exact ⟨fun hend => hw (Writer.done_iff.mpr hend), (Option.some.inj h).symm⟩

theorem step_close (h : step s .close = some t) :
    s.writer = .ended ∧ t = { s with conn := s.conn.rollback } := by
  rw [step] at h
  split at h
  · next hw => exact ⟨Writer.done_iff.mp hw, (Option.some.inj h).symm⟩
  · cases h

theorem step_wake (h : step s .wake = some t) :
    s.writer = .waiting ∧ t = s.goOn s.conn (drainQueue s.queue) := by
  rw [step] at h
  split at h
  · next hw =>
    split at h
    · cases h
    · exact ⟨hw, (Option.some.inj h).symm⟩
  · cases h

/-- What a step logs. -/
theorem logged_step (h : step s l = some t) :
    t.logged = s.logged ∨ ∃ e, l = .log e ∧ t.logged = s.logged ++ [e] := by
  cases l with
  | log e =>
    rw [step_log e h, State.logCallback]
    cases s.writer.done with
    | true => exact .inl rfl
    | false => exact .inr ⟨e, rfl, rfl⟩
  | stop =>
    obtain ⟨-, rfl⟩ := step_stop h
    exact .inl rfl
  | close =>
    obtain ⟨-, rfl⟩ := step_close h
    exact .inl rfl
  | wake =>
    obtain ⟨-, rfl⟩ := step_wake h
    exact .inl rfl
  | reply ok => exact .inl (logged_reply h)
  | cancel ok => exact .inl (logged_cancel h)

/-- **What a step requests of the connection**: nothing, a rollback, a commit, or that
what is being written is inserted. -/
theorem conn_step (h : step s l = some t) :
    t.conn = s.conn ∨ t.conn = s.conn.rollback ∨ (∃ ok, t.conn = s.conn.commit ok)
      ∨ ∃ w ok, s.writer = .executing w ∧ t.conn = s.conn.insert w.items ok := by
  cases l with
  | log e =>
    rw [step_log e h]
    exact .inl rfl
  | stop =>
    obtain ⟨-, rfl⟩ := step_stop h
    exact .inl rfl
  | close =>
    obtain ⟨-, rfl⟩ := step_close h
    exact .inr (.inl rfl)
  | wake =>
    obtain ⟨-, rfl⟩ := step_wake h
    exact .inl rfl
  | reply ok =>
    rw [step, State.reply] at h
    split at h
    · next w hw =>
      obtain rfl := Option.some.inj h
      exact .inr (.inr (.inr ⟨w, ok, hw, rfl⟩))
    · split at h <;> obtain rfl := Option.some.inj h
      · exact .inr (.inr (.inl ⟨true, rfl⟩))
      · exact .inl rfl
    · obtain rfl := Option.some.inj h
      exact .inr (.inl rfl)
    all_goals cases h
  | cancel ok =>
    rw [step, State.cancel] at h
    split at h
    · obtain rfl := Option.some.inj h
      exact .inl rfl
    · next w hw =>
      obtain rfl := Option.some.inj h
      exact .inr (.inr (.inr ⟨w, ok, hw, rfl⟩))
    · obtain rfl := Option.some.inj h
      exact .inr (.inr (.inl ⟨ok, rfl⟩))
    · obtain rfl := Option.some.inj h
      exact .inr (.inl rfl)
    · cases h

/-- **No step accounts for more than it logs.** -/
theorem length_accounted_step (h : step s l = some t) :
    t.accounted.length + s.logged.length ≤ s.accounted.length + t.logged.length := by
  cases l with
  | log e =>
    rw [step_log e h]
    by_cases hw : s.writer = .ended
    · refine Nat.le_of_eq ?_
      rw [accounted_ended hw, accounted_ended (show (s.logCallback e).writer = _ from hw),
        State.logCallback, if_pos (Writer.done_iff.mpr hw)]
    · rw [State.logCallback, accounted_enqueue hw, Writer.done_eq_false hw]
      simp only [List.length_append, Option.toList_some, Bool.false_eq_true, if_false]
      omega
  | stop =>
    obtain ⟨hw, rfl⟩ := step_stop h
    refine Nat.le_of_eq ?_
    rw [accounted_enqueue hw none s.logged, Option.toList_none, List.append_nil]
  | close =>
    obtain ⟨hw, rfl⟩ := step_close h
    rw [accounted_ended hw, show State.accounted { s with conn := s.conn.rollback }
      = s.conn.rollback.stored from accounted_ended hw]
    exact Nat.le_refl _
  | wake =>
    obtain ⟨hw, rfl⟩ := step_wake h
    rw [accounted_waiting hw, List.length_append]
    exact Nat.add_le_add_right (goesOn_drainQueue s.queue).length_accounted_le _
  | reply ok =>
    rw [logged_reply h]
    exact Nat.add_le_add_right (length_accounted_reply h) _
  | cancel ok =>
    rw [logged_cancel h]
    exact Nat.add_le_add_right (length_accounted_cancel h) _

/-- **What is lost stays lost.** -/
theorem short_step (hs : Short s) (h : step s l = some t) : Short t := by
  have hle := length_accounted_step h
  unfold Short at hs ⊢
  omega

/-! ## What loses an event -/

/-- No single-event insert fails. -/
def SinglesSucceed (s : State ε) : Label ε → Prop
  | .reply ok | .cancel ok =>
    match s.writer with
    | .executing w | .committing w => w.isSingle = true → ok = true
    | .waiting | .rollingBack _ | .ended => True
  | .log _ | .stop | .close | .wake => True

/-- A request that succeeds is not one that fails. -/
theorem singlesSucceed_reply (s : State ε) : SinglesSucceed s (.reply true) := by
  unfold SinglesSucceed
  cases s.writer with
  | waiting | rollingBack _ | ended => trivial
  | executing _ | committing _ => exact fun _ => rfl

theorem singlesSucceed_cancel (s : State ε) : SinglesSucceed s (.cancel true) :=
  singlesSucceed_reply s

/-- **The step loses no event**: no write fails; a cancellation that comes
while an `INSERT` is awaited is the first one, that request succeeds, and
an event is in the queue; and one that comes while a commit is awaited finds
an event in the queue where that commit fails, and none where the handler
itself is cancelled. -/
def LosesNone (s : State ε) : Label ε → Prop
  | .reply ok =>
    match s.writer with
    | .executing _ | .committing _ => ok = true
    | .waiting | .rollingBack _ | .ended => True
  | .cancel ok =>
    match s.writer with
    | .executing w => ok = true ∧ w.cancelled = false ∧ s.queue.events ≠ []
    | .committing w =>
      (ok = true ∨ s.queue.events ≠ []) ∧ (w.cancelled = true → s.queue.events = [])
    | .waiting | .rollingBack _ | .ended => True
  | .log _ | .stop | .close | .wake => True

theorem Write.isSingle_of_cancelled : ∀ {w : Write ε}, w.cancelled = true → w.isSingle = true
  | .batch _ _ _, h => Bool.noConfusion h
  | .single _ _, _ => rfl

/-- An answer to a complete store loses an event exactly where it is a
failure. -/
theorem complete_reply (hs : Complete s) (h : s.reply ok = some t) :
    (LosesNone s (.reply ok) → Complete t) ∧ (¬ LosesNone s (.reply ok) → Short t) := by
  obtain ⟨hlogged, htidy⟩ := hs
  unfold LosesNone
  unfold State.Tidy at htidy
  cases hw : s.writer with
  | waiting | ended => rw [State.reply, hw] at h; cases h
  | executing w =>
    rw [State.reply, hw] at h
    obtain rfl := Option.some.inj h
    rw [accounted_executing hw] at hlogged
    cases ok with
    | true =>
      refine ⟨fun _ => ⟨?_, ?_⟩, fun hne => absurd rfl hne⟩
      · show (s.conn.insert w.items true).rows ++ s.queue.events = s.logged
        rw [Connection.rows_insert_true, hlogged]
      · exact fun hnil => w.items_ne_nil (List.append_eq_nil_iff.mp hnil).2
    | false =>
      refine ⟨fun hne => Bool.noConfusion hne, fun _ => ?_⟩
      -- a failed insert loses the items of the write
      show (s.conn.stored ++ s.queue.events).length < s.logged.length
      have hpos := List.length_pos_iff.mpr w.items_ne_nil
      rw [← hlogged, Connection.rows]
      simp only [List.length_append]
      omega
  | committing w =>
    rw [State.reply, hw] at h
    rw [accounted_committing hw] at hlogged
    rw [hw] at htidy
    cases ok with
    | true =>
      obtain rfl := Option.some.inj h
      refine ⟨fun _ => (goesOn_resume s.queue w).complete rfl ?_, fun hne => absurd rfl hne⟩
      rw [Connection.rows_commit, hlogged]
    | false =>
      obtain rfl := Option.some.inj h
      refine ⟨fun hne => Bool.noConfusion hne, fun _ => ?_⟩
      -- a failed commit loses what was inserted
      show (s.conn.stored ++ s.queue.events).length < s.logged.length
      have hpos := List.length_pos_iff.mpr htidy
      rw [← hlogged, Connection.rows]
      simp only [List.length_append]
      omega
  | rollingBack w =>
    rw [hw] at htidy
    exact htidy.elim

/-- A writer that is cancelled while it waits for an `INSERT`. -/
theorem complete_cancel_executing {w : Write ε} (hw : s.writer = .executing w)
    (hs : Complete s) :
    (ok = true ∧ w.cancelled = false ∧ s.queue.events ≠ [] →
        Complete (s.goOn (s.conn.insert w.items ok) (interrupted w.cancelled s.queue)))
      ∧ (¬ (ok = true ∧ w.cancelled = false ∧ s.queue.events ≠ []) →
        Short (s.goOn (s.conn.insert w.items ok) (interrupted w.cancelled s.queue))) := by
  have hlogged : s.conn.rows ++ w.items ++ s.queue.events = s.logged := by
    rw [← accounted_executing hw, hs.accounted]
  have hpos := List.length_pos_iff.mpr w.items_ne_nil
  constructor
  · rintro ⟨rfl, hc, hq⟩
    rw [hc]
    refine (goesOn_drainRemaining true s.queue).complete_of_ne_nil hq ?_
    rw [Connection.rows_insert_true, hlogged]
  · intro hne
    show _ < s.logged.length
    rw [← hlogged]
    -- only the rows of the table are left where the handler has nothing to write
    have hstored : s.conn.stored.length
        < (s.conn.rows ++ w.items ++ s.queue.events).length := by
      rw [Connection.rows]
      simp only [List.length_append]
      omega
    cases ok with
    | false =>
      refine Nat.lt_of_le_of_lt (length_accounted_interrupted_le s _ _) ?_
      rw [Connection.insert_false]
      simp only [List.length_append]
      omega
    | true =>
      cases hc : w.cancelled with
      | true => exact hstored
      | false =>
        have hq : s.queue.events = [] := by
          by_contra hq
          exact hne ⟨rfl, hc, hq⟩
        show (s.goOn _ (drainRemaining true s.queue)).accounted.length < _
        rw [(goesOn_drainRemaining true s.queue).accounted_of_nil hq]
        exact hstored

/-- A writer that is cancelled while it waits for a commit. -/
theorem complete_cancel_committing {w : Write ε} (hw : s.writer = .committing w)
    (hs : Complete s) (hok : w.isSingle = true → ok = true) :
    ((ok = true ∨ s.queue.events ≠ []) ∧ (w.cancelled = true → s.queue.events = []) →
        Complete (s.goOn (s.conn.commit ok) (interrupted w.cancelled s.queue)))
      ∧ (¬ ((ok = true ∨ s.queue.events ≠ []) ∧ (w.cancelled = true → s.queue.events = [])) →
        Short (s.goOn (s.conn.commit ok) (interrupted w.cancelled s.queue))) := by
  have hlogged : s.conn.rows ++ s.queue.events = s.logged := by
    rw [← accounted_committing hw, hs.accounted]
  -- what is being committed is not empty; it is lost where no later commit includes it
  have hpos : 0 < s.conn.uncommitted.length := by
    have htidy := hs.tidy
    rw [State.Tidy, hw] at htidy
    exact List.length_pos_iff.mpr htidy
  cases hc : w.cancelled with
  | true =>
    obtain rfl := hok (Write.isSingle_of_cancelled hc)
    constructor
    · rintro ⟨-, hq⟩
      rw [hq rfl, List.append_nil] at hlogged
      exact ⟨hlogged, trivial⟩
    · intro hne
      have hq : s.queue.events ≠ [] := fun hq => hne ⟨.inl rfl, fun _ => hq⟩
      have hqpos := List.length_pos_iff.mpr hq
      show s.conn.rows.length < s.logged.length
      rw [← hlogged, List.length_append]
      omega
  | false =>
    have hgo := goesOn_drainRemaining true s.queue
    cases ok with
    | true =>
      refine ⟨fun _ => hgo.complete rfl ?_, fun hne => absurd ⟨.inl rfl, ?_⟩ hne⟩
      · rw [Connection.rows_commit, hlogged]
      · exact fun h => Bool.noConfusion h
    | false =>
      constructor
      · rintro ⟨hor, -⟩
        exact hgo.complete_of_ne_nil (hor.resolve_left Bool.false_ne_true) hlogged
      · intro hne
        have hq : s.queue.events = [] := by
          by_contra hq
          exact hne ⟨.inr hq, fun h => Bool.noConfusion h⟩
        show (s.goOn _ (drainRemaining true s.queue)).accounted.length < s.logged.length
        rw [hgo.accounted_of_nil hq, ← hlogged, Connection.rows]
        show s.conn.stored.length < _
        simp only [List.length_append]
        omega

/-- What a cancellation of a complete store loses. -/
theorem complete_cancel (hs : Complete s) (hok : SinglesSucceed s (.cancel ok))
    (h : s.cancel ok = some t) :
    (LosesNone s (.cancel ok) → Complete t) ∧ (¬ LosesNone s (.cancel ok) → Short t) := by
  unfold LosesNone
  unfold SinglesSucceed at hok
  cases hw : s.writer with
  | ended => rw [State.cancel, hw] at h; cases h
  | waiting =>
    rw [State.cancel, hw] at h
    obtain rfl := Option.some.inj h
    have htidy := hs.tidy
    rw [State.Tidy, hw] at htidy
    refine ⟨fun _ => (goesOn_drainRemaining true s.queue).complete htidy ?_,
      fun hne => absurd trivial hne⟩
    rw [← accounted_waiting hw, hs.accounted]
  | executing w =>
    rw [State.cancel, hw] at h
    obtain rfl := Option.some.inj h
    exact complete_cancel_executing hw hs
  | committing w =>
    rw [State.cancel, hw] at h
    obtain rfl := Option.some.inj h
    rw [hw] at hok
    exact complete_cancel_committing hw hs hok
  | rollingBack w =>
    have htidy := hs.tidy
    rw [State.Tidy, hw] at htidy
    exact htidy.elim

/-- What is enqueued while the writer runs is not lost. -/
theorem Complete.enqueue (hs : Complete s) (hw : s.writer ≠ .ended) (item : Option ε) :
    Complete { s with queue := s.queue ++ [item], logged := s.logged ++ item.toList } :=
  ⟨by rw [accounted_enqueue hw, hs.accounted], hs.tidy⟩

/-- **A step of a complete store keeps it complete exactly where it loses
none.** -/
theorem complete_step (hs : Complete s) (hok : SinglesSucceed s l) (h : step s l = some t) :
    (LosesNone s l → Complete t) ∧ (¬ LosesNone s l → Short t) := by
  cases l with
  | log e =>
    rw [step_log e h]
    refine ⟨fun _ => ?_, fun hne => absurd trivial hne⟩
    by_cases hw : s.writer = .ended
    · rw [State.logCallback, if_pos (Writer.done_iff.mpr hw)]
      refine ⟨?_, hs.tidy⟩
      rw [← hs.accounted, accounted_ended hw]
      exact accounted_ended hw
    · have hlog := hs.enqueue hw (some e)
      rwa [State.logCallback, Writer.done_eq_false hw]
  | stop =>
    obtain ⟨hw, rfl⟩ := step_stop h
    have hstop := hs.enqueue hw none
    rw [Option.toList_none, List.append_nil] at hstop
    exact ⟨fun _ => hstop, fun hne => absurd trivial hne⟩
  | close =>
    obtain ⟨hw, rfl⟩ := step_close h
    refine ⟨fun _ => ⟨?_, ?_⟩, fun hne => absurd trivial hne⟩
    · rw [← hs.accounted, accounted_ended hw]
      exact accounted_ended hw
    · rw [State.Tidy, hw]
      trivial
  | wake =>
    obtain ⟨hw, rfl⟩ := step_wake h
    have htidy := hs.tidy
    rw [State.Tidy, hw] at htidy
    refine ⟨fun _ => (goesOn_drainQueue s.queue).complete htidy ?_,
      fun hne => absurd trivial hne⟩
    rw [← accounted_waiting hw, hs.accounted]
  | reply ok => exact complete_reply hs h
  | cancel ok => exact complete_cancel hs hok h

/-! ## The log is complete exactly when no event is lost -/

theorem complete_initial : Complete (initial : State ε) := ⟨rfl, rfl⟩

/-- **The log is complete when the writer has ended, exactly where no step
has lost an event.** -/
theorem stored_eq_logged_iff {s : State ε} {ls : List (Label ε)}
    (hrun : machine.run initial ls = some s) (hend : s.writer = .ended)
    (hok : machine.Along (fun s l _ => SinglesSucceed s l) initial ls) :
    s.conn.stored = s.logged ↔ machine.Along (fun s l _ => LosesNone s l) initial ls := by
  have hdecided := @Machine.run_decided _ _ machine (fun s l _ => SinglesSucceed s l)
    Complete Short (fun s l _ => LosesNone s l)
    (fun _ _ _ hs h hok hnone => (complete_step hs hok h).1 hnone)
    (fun _ _ _ hs h hok hsome => (complete_step hs hok h).2 hsome)
    (fun _ _ _ hs h => short_step hs h) initial s ls complete_initial hok hrun
  rcases hdecided with ⟨hcomplete, hnone⟩ | ⟨hshort, hsome⟩
  · exact iff_of_true (hcomplete.stored hend) hnone
  · exact iff_of_false (hshort.stored_ne hend) hsome

/-- A run that logs an event, writes it and is stopped has lost none. -/
theorem losesNone_stopped :
    machine.Along (fun s l _ => LosesNone s l) (initial : State String)
      [.log "fill_event", .wake, .reply true, .reply true, .stop, .wake] := by
  have hok : machine.Along (fun s l _ => SinglesSucceed s l) (initial : State String)
      [.log "fill_event", .wake, .reply true, .reply true, .stop, .wake] :=
    (Machine.along_cons_some rfl).mpr ⟨trivial, (Machine.along_cons_some rfl).mpr ⟨trivial,
      (Machine.along_cons_some rfl).mpr ⟨singlesSucceed_reply _, (Machine.along_cons_some rfl).mpr
        ⟨singlesSucceed_reply _, (Machine.along_cons_some rfl).mpr ⟨trivial,
          (Machine.along_cons_some rfl).mpr ⟨trivial, trivial⟩⟩⟩⟩⟩⟩
  exact (@stored_eq_logged_iff _ ⟨[], .ended, ⟨["fill_event"], []⟩, ["fill_event"]⟩ _ rfl rfl
    hok).mp rfl

/-- **A writer that is cancelled over its first batch loses it**, where
nothing else is in the queue. -/
theorem not_stored_eq_logged :
    ¬ ∀ (ε : Type) (s : State ε) (ls : List (Label ε)), machine.run initial ls = some s →
      s.writer = .ended → machine.Along (fun s l _ => SinglesSucceed s l) initial ls →
      s.conn.stored = s.logged := by
  intro h
  have hok : machine.Along (fun s l _ => SinglesSucceed s l) (initial : State String)
      [.log "fill_event", .wake, .cancel true] :=
    (Machine.along_cons_some rfl).mpr ⟨trivial, (Machine.along_cons_some rfl).mpr ⟨trivial,
      (Machine.along_cons_some rfl).mpr ⟨singlesSucceed_cancel _, trivial⟩⟩⟩
  have heq := h String ⟨[], .ended, ⟨[], ["fill_event"]⟩, ["fill_event"]⟩ _ rfl rfl hok
  exact absurd heq (by decide)

end EventStore
