import ExecutionSystem.Machine
import ExecutionSystem.PositionStore
import ExecutionSystem.Quotes
import Mathlib.Tactic.NormNum

/-!
# Summaries of profit and loss

`daily_pnl_summary` and `strategy_pnl_summary` of
`src/storage/position_store.py` add up the closed rows of the store, the one
by the day of the close and the other by strategy. They are to tell the same
total.

A total by groups is the total of what is grouped, whatever the groups are
(`sum_groupTotals`). But the days are told from the close time, and a row
that is marked closed at startup is given none. So the two agree in a
history exactly if every row that is marked closed has a close time from
before (`PositionStore.summariesAgree_iff`).

The summaries are rounded to cents in the end; `round` is that rounding, and
the identity where the arithmetic is exact.
-/

/-! ## Totals by group -/

/-- A write that adds a weight adds it to the sum. -/
theorem sum_map_upsert {α κ M : Type*} [DecidableEq κ] [AddCommMonoid M] {key : α → κ} {k : κ}
    {new : α} {f : α → α} {xs : List α} (w : α → M) (d : M) (hnew : w new = d)
    (hf : ∀ x, w (f x) = w x + d) (hnodup : (xs.map key).Nodup) :
    ((xs.upsert key k new f).map w).sum = (xs.map w).sum + d := by
  unfold List.upsert
  split_ifs with hex
  · obtain ⟨x, hx, hk⟩ := hex
    induction xs with
    | nil => cases hx
    | cons y ys ih =>
      obtain ⟨hy, hys⟩ := List.nodup_cons.mp hnodup
      rcases List.mem_cons.mp hx with rfl | hx
      · -- no other element has the key
        have hrest : (ys.map fun x => if key x = k then f x else x) = ys := by
          refine (List.map_congr_left fun z hz => if_neg fun hz' => hy ?_).trans (List.map_id' ys)
          exact List.mem_map.mpr ⟨z, hz, hz'.trans hk.symm⟩
        rw [List.map_cons, if_pos hk, hrest, List.map_cons, List.sum_cons, hf, List.map_cons,
          List.sum_cons, add_right_comm]
      · have hne : key y ≠ k := fun heq => hy (List.mem_map.mpr ⟨x, hx, hk.trans heq.symm⟩)
        rw [List.map_cons, if_neg hne, List.map_cons, List.sum_cons, ih hys hx, List.map_cons,
          List.sum_cons, add_assoc]
  · rw [List.map_append, List.sum_append, List.map_singleton, List.sum_singleton, hnew]

/-- What is added up for a group. -/
structure GroupTotal (κ : Type) where
  key : κ
  realizedPnl : ℚ
  closedPositions : ℕ
  deriving DecidableEq

namespace GroupTotal

variable {κ : Type} [DecidableEq κ]

/-- One more position of a group. -/
def add (totals : List (GroupTotal κ)) (entry : κ × ℚ) : List (GroupTotal κ) :=
  totals.upsert (·.key) entry.1 ⟨entry.1, entry.2, 1⟩ fun total =>
    { total with
      realizedPnl := total.realizedPnl + entry.2
      closedPositions := total.closedPositions + 1 }

def rounded (round : ℚ → ℚ) (total : GroupTotal κ) : GroupTotal κ :=
  { total with realizedPnl := round total.realizedPnl }

end GroupTotal

/-- **The totals of the groups.** -/
def groupTotals {κ : Type} [DecidableEq κ] (entries : List (κ × ℚ)) : List (GroupTotal κ) :=
  entries.foldl GroupTotal.add []

/-- **Totals by groups are the total**, whatever the groups are. -/
theorem sum_groupTotals {κ : Type} [DecidableEq κ] (entries : List (κ × ℚ)) :
    ((groupTotals entries).map (·.realizedPnl)).sum = (entries.map (·.2)).sum
      ∧ ((groupTotals entries).map (·.closedPositions)).sum = entries.length := by
  have hadd : ∀ (entries : List (κ × ℚ)) (totals : List (GroupTotal κ)),
      (totals.map (·.key)).Nodup →
        ((entries.foldl GroupTotal.add totals).map (·.realizedPnl)).sum
            = (totals.map (·.realizedPnl)).sum + (entries.map (·.2)).sum
          ∧ ((entries.foldl GroupTotal.add totals).map (·.closedPositions)).sum
            = (totals.map (·.closedPositions)).sum + entries.length := by
    -- the induction is on the entries, for every list of totals without a key twice
    intro entries
    induction entries with
    | nil => exact fun totals _ => ⟨(add_zero _).symm, rfl⟩
    | cons entry entries ih =>
      intro totals hnodup
      obtain ⟨hpnl, hcount⟩ := ih (GroupTotal.add totals entry)
        (List.nodup_upsert rfl (fun _ h => h) hnodup)
      have hpnl' : ((GroupTotal.add totals entry).map (·.realizedPnl)).sum
          = (totals.map (·.realizedPnl)).sum + entry.2 :=
        sum_map_upsert _ _ rfl (fun _ => rfl) hnodup
      have hcount' : ((GroupTotal.add totals entry).map (·.closedPositions)).sum
          = (totals.map (·.closedPositions)).sum + 1 :=
        sum_map_upsert _ _ rfl (fun _ => rfl) hnodup
      rw [List.foldl_cons, hpnl, hpnl', hcount, hcount', List.map_cons, List.sum_cons,
        List.length_cons, add_assoc, add_assoc, add_comm 1]
      exact ⟨rfl, rfl⟩
  obtain ⟨hpnl, hcount⟩ := hadd entries [] List.nodup_nil
  exact ⟨hpnl.trans (zero_add _), hcount.trans (zero_add _)⟩

/-! ## The summaries -/

/-- `status IN ('CLOSED', 'closed')`. -/
def Attribution.isClosed (row : Attribution) : Bool := row.status ∈ ["CLOSED", "closed"]

/-- `COALESCE(realized_pnl, 0)`. -/
def Attribution.pnl (row : Attribution) : ℚ := row.realizedPnl.getD 0

/-- What the daily summary returns. -/
structure DailyPnl where
  today : GroupTotal String
  perStrategy : List (StrategyId × ℚ)
  days : List (GroupTotal String)

namespace PositionStore

variable (nyDate : Time → String) (round : ℚ → ℚ) (store : PositionStore)

/-- `… AND closed_at IS NOT NULL`: the closed rows with the dates of their
closes. -/
def datedRows : List (String × Attribution) :=
  (store.rows.filter (·.isClosed)).filterMap fun row =>
    row.closedAt.map fun closedAt => (nyDate closedAt, row)

/-- The totals of the days. -/
def byDay : List (GroupTotal String) :=
  groupTotals ((store.datedRows nyDate).map fun (day, row) => (day, row.pnl))

/-- One more row of today. -/
def addToday (totals : List (StrategyId × ℚ)) (row : Attribution) : List (StrategyId × ℚ) :=
  totals.upsert Prod.fst row.strategyId (row.strategyId, round row.pnl) fun (sid, pnl) =>
    (sid, round (pnl + row.pnl))

/-- **`daily_pnl_summary`**: the newest day first. -/
def dailyPnlSummary (now : Time) (days : ℕ) : DailyPnl :=
  let byDay := (store.byDay nyDate).map (.rounded round)
  let today := (store.datedRows nyDate).filter (·.1 = nyDate now)
  { today := (byDay.find? (·.key = nyDate now)).getD ⟨nyDate now, 0, 0⟩
    perStrategy := (today.map (·.2)).foldl (addToday round) []
    days := (byDay.insertionSort fun a b => b.key ≤ a.key).take days }

/-- **`strategy_pnl_summary`**, `GROUP BY strategy_id`. -/
def strategyPnlSummary : List (GroupTotal StrategyId) :=
  (groupTotals ((store.rows.filter (·.isClosed)).map fun row => (row.strategyId, row.pnl))).map
    (.rounded round)

/-- **The summaries agree**, over days enough to include every day. -/
def SummariesAgree : Prop :=
  ∀ now days, (store.byDay nyDate).length ≤ days →
    ((store.dailyPnlSummary nyDate id now days).days.map (·.realizedPnl)).sum
        = ((store.strategyPnlSummary id).map (·.realizedPnl)).sum
      ∧ ((store.dailyPnlSummary nyDate id now days).days.map (·.closedPositions)).sum
        = ((store.strategyPnlSummary id).map (·.closedPositions)).sum

/-- **Every closed row has a close time.** -/
def Dated (store : PositionStore) : Prop :=
  ∀ row ∈ store.rows, row.isClosed = true → row.closedAt ≠ none

variable {nyDate store}

/-- The days add up to the rows that have one. -/
theorem sum_days {now : Time} {days : ℕ} (h : (store.byDay nyDate).length ≤ days) :
    ((store.dailyPnlSummary nyDate id now days).days.map (·.realizedPnl)).sum
        = ((store.datedRows nyDate).map (·.2.pnl)).sum
      ∧ ((store.dailyPnlSummary nyDate id now days).days.map (·.closedPositions)).sum
        = (store.datedRows nyDate).length := by
  obtain ⟨hpnl, hcount⟩ :=
    sum_groupTotals ((store.datedRows nyDate).map fun (day, row) => (day, row.pnl))
  -- sorting and taking enough days leaves a permutation of the days
  have hdays : (store.dailyPnlSummary nyDate id now days).days.Perm (store.byDay nyDate) := by
    have hrounded : (store.byDay nyDate).map (.rounded id) = store.byDay nyDate :=
      List.map_id _
    simp only [dailyPnlSummary, hrounded]
    rw [List.take_of_length_le (by rwa [List.length_insertionSort])]
    exact List.perm_insertionSort _ _
  refine ⟨(hdays.map _).sum_eq.trans (hpnl.trans ?_), (hdays.map _).sum_eq.trans ?_⟩
  · rw [List.map_map]
    rfl
  · rw [byDay, hcount, List.length_map]

/-- The strategies add up to all closed rows. -/
theorem sum_strategies :
    ((store.strategyPnlSummary id).map (·.realizedPnl)).sum
        = ((store.rows.filter (·.isClosed)).map (·.pnl)).sum
      ∧ ((store.strategyPnlSummary id).map (·.closedPositions)).sum
        = (store.rows.filter (·.isClosed)).length := by
  obtain ⟨hpnl, hcount⟩ := sum_groupTotals
    ((store.rows.filter (·.isClosed)).map fun row => (row.strategyId, row.pnl))
  have hrounded : store.strategyPnlSummary id = groupTotals
      ((store.rows.filter (·.isClosed)).map fun row => (row.strategyId, row.pnl)) :=
    List.map_id _
  rw [hrounded]
  refine ⟨hpnl.trans ?_, hcount.trans (List.length_map _)⟩
  rw [List.map_map]
  rfl

/-- **The summaries agree exactly if every closed row has a close time.** -/
theorem summariesAgree_iff_dated : store.SummariesAgree nyDate ↔ store.Dated := by
  have hlength : (store.datedRows nyDate).length = (store.rows.filter (·.isClosed)).length
      ↔ store.Dated := by
    rw [datedRows, List.filterMap_length_eq_length]
    constructor
    · intro h row hrow hclosed hnone
      have := h row (List.mem_filter.mpr ⟨hrow, hclosed⟩)
      rw [hnone] at this
      cases this
    · intro h row hrow
      obtain ⟨hrow, hclosed⟩ := List.mem_filter.mp hrow
      obtain ⟨closedAt, hclosedAt⟩ := Option.ne_none_iff_exists'.mp (h row hrow hclosed)
      rw [hclosedAt]
      rfl
  constructor
  · intro h
    obtain ⟨-, hcount⟩ := h 0 _ le_rfl
    -- the counts alone tell whether a closed row was left out
    rw [(sum_days le_rfl).2, sum_strategies.2] at hcount
    exact hlength.mp hcount
  · intro h now days hdays
    obtain ⟨hpnl, hcount⟩ := @sum_days _ _ now _ hdays
    rw [hpnl, hcount, sum_strategies.1, sum_strategies.2]
    refine ⟨congrArg List.sum ?_, hlength.mpr h⟩
    rw [datedRows, List.map_filterMap, ← List.filterMap_eq_map]
    refine List.filterMap_congr fun row hrow => ?_
    obtain ⟨hrow, hclosed⟩ := List.mem_filter.mp hrow
    obtain ⟨closedAt, hclosedAt⟩ := Option.ne_none_iff_exists'.mp (h row hrow hclosed)
    rw [hclosedAt]
    rfl

/-! ## Histories -/

/-- What is done to the store. A restart opens the table that is there. -/
inductive Write where
  | upsertPosition (now : Time) (pos : Position) (closeReason : Option String)
  | markClosedIfAbsent (keys : List StoreKey) (now : Time)
  | restart

/-- The store, under arbitrary writes. -/
def machine : Machine PositionStore Write where
  step store
    | .upsertPosition now pos closeReason => some (store.upsertPosition now pos closeReason)
    | .markClosedIfAbsent keys now => some (store.markClosedIfAbsent keys now)
    | .restart => some store

/-- **A sweep closes only rows that have a close time**: they were closed
before, and opened again. -/
def SweepsDated (store : PositionStore) : Write → Prop
  | .markClosedIfAbsent keys _ =>
    ∀ row ∈ store.rows, row.isOpen = true → row.key ∉ keys → row.closedAt ≠ none
  | _ => True

/-- A position that is written as closed gets a close time. -/
theorem Dated.upsertPosition (h : store.Dated) (now : Time) (pos : Position)
    (closeReason : Option String) : (store.upsertPosition now pos closeReason).Dated := by
  have hnew : (Attribution.ofPosition now closeReason pos).isClosed = true →
      (Attribution.ofPosition now closeReason pos).closedAt ≠ none := by
    intro hclosed
    cases hstatus : pos.status <;>
      simp_all [Attribution.isClosed, Attribution.ofPosition, PositionStatus.value]
  intro row hrow hclosed
  rcases List.mem_upsert.mp hrow with ⟨hold, -⟩ | ⟨old, -, -, rfl⟩ | ⟨-, rfl⟩
  · exact h row hold hclosed
  · -- the new close time wins over the old one
    obtain ⟨closedAt, hclosedAt⟩ := Option.ne_none_iff_exists'.mp (hnew hclosed)
    show (_ <|> _) ≠ none
    rw [hclosedAt]
    exact Option.some_ne_none closedAt
  · exact hnew hclosed

/-- An open row is not a closed one. -/
theorem not_isClosed_of_isOpen {row : Attribution} (h : row.isOpen = true) :
    row.isClosed = false := by
  simp only [Attribution.isOpen, List.mem_cons, List.not_mem_nil, or_false,
    decide_eq_true_eq] at h
  rcases h with h | h | h | h <;> simp [Attribution.isClosed, h]

/-- **After a sweep every closed row has a close time exactly if the sweep
closes only rows that have one.** -/
theorem Dated.markClosedIfAbsent_iff (h : store.Dated) (keys : List StoreKey) (now : Time) :
    (store.markClosedIfAbsent keys now).Dated
      ↔ store.SweepsDated (.markClosedIfAbsent keys now) := by
  constructor
  · intro hafter row hrow hopen hkey
    refine hafter (row.markedClosed now) ?_ rfl
    exact List.mem_map.mpr ⟨row, hrow, if_pos ⟨hopen, hkey⟩⟩
  · intro hsweep row hrow hclosed
    obtain ⟨old, hold, rfl⟩ := List.mem_map.mp hrow
    split_ifs at hclosed ⊢ with hswept
    · exact hsweep old hold hswept.1 hswept.2
    · exact h old hold hclosed

/-- Every write keeps the close times, but for such a sweep. -/
theorem dated_step_iff {t : PositionStore} {l : Write} (h : store.Dated)
    (hstep : machine.step store l = some t) : t.Dated ↔ store.SweepsDated l := by
  cases l with
  | upsertPosition now pos closeReason =>
    obtain rfl := Option.some.inj hstep
    exact iff_of_true (h.upsertPosition now pos closeReason) trivial
  | markClosedIfAbsent keys now =>
    obtain rfl := Option.some.inj hstep
    exact h.markClosedIfAbsent_iff keys now
  | restart =>
    obtain rfl := Option.some.inj hstep
    exact iff_of_true h trivial

/-- **The summaries agree throughout a history exactly if its sweeps close
only rows that have a close time.** -/
theorem summariesAgree_iff (nyDate : Time → String) (ls : List Write) :
    machine.Throughout (SummariesAgree nyDate) {} ls
      ↔ machine.Along (fun store l _ => store.SweepsDated l) {} ls := by
  have hinitial : ({} : PositionStore).Dated := fun _ h => by cases h
  rw [Machine.throughout_iff_along, iff_true_intro (summariesAgree_iff_dated.mpr hinitial),
    true_and]
  rw [← Machine.along_target_iff (J := fun _ => True) (P := Dated) (fun _ _ _ _ _ => trivial)
    (fun _ _ _ _ h hstep => dated_step_iff h hstep) trivial hinitial]
  exact Machine.along_iff_of_step (J := fun _ => True) (fun _ _ _ _ _ => trivial)
    (fun _ _ _ _ _ => summariesAgree_iff_dated) trivial

/-! ## A row that is swept -/

/-- A position that was opened, and partly left at a profit. -/
def sweptPosition : Position where
  positionId := 0
  strategyId := "xsp_5ema_base"
  contract := sampleContract
  side := .buy
  quantity := 1
  filledQuantity := 2
  averageEntryPrice := 1
  realizedPnl := 50
  status := .opened
  entryOrderId := 0
  createdAt := 0
  updatedAt := 0

/-- The broker no longer holds it at the next start. -/
def sweptHistory : List Write :=
  [.upsertPosition 0 sweptPosition none, .restart, .markClosedIfAbsent [] 1]

/-- **Its profit is in one summary only.** -/
theorem not_summariesAgree :
    ¬ ∀ nyDate ls, machine.Throughout (SummariesAgree nyDate) {} ls := by
  intro h
  have hrun : (machine.run {} sweptHistory).map (fun store =>
      (((store.strategyPnlSummary id).map (·.realizedPnl)).sum,
        ((store.dailyPnlSummary (fun _ => "") id 1 0).days.map (·.realizedPnl)).sum,
        (store.byDay fun _ => "").length)) = some (50, 0, 0) := by decide +kernel
  obtain ⟨store, hstore, hsums⟩ := Option.map_eq_some_iff.mp hrun
  simp only [Prod.mk.injEq] at hsums
  obtain ⟨hstrategies, hdays, hlength⟩ := hsums
  have hagree := (h (fun _ => "") sweptHistory sweptHistory store List.prefix_rfl hstore 1 0
    hlength.le).1
  rw [hstrategies, hdays] at hagree
  exact absurd hagree (by norm_num)

end PositionStore
