import ExecutionSystem.BookRecovery

/-!
# Stale rows

What the seeding makes of the statuses in the attribution store. A row that
is adopted is written again as open; and once all positions of the broker
are seeded, the open rows of every contract it does not hold are marked
closed. If the broker reports no position at all, the seeding returns before
it comes to that.
-/

namespace Seeding

/-- **No stale row is left**: what is open is held by the broker, and what
is held by the broker keeps its status. -/
structure Sweeps (st₀ st : Seeding) (broker : List Position) : Prop where
  stale : ∀ row ∈ st.store.rows, row.isOpen = true → row.key ∈ heldKeys broker
  kept : ∀ row₀ ∈ st₀.store.rows, row₀.key ∈ heldKeys broker →
    ∃ row ∈ st.store.rows, row.positionId = row₀.positionId ∧ row.status = row₀.status

/-- A row that the seeding adopts once it comes to its contract. -/
def Adopts (st₀ : Seeding) (row : Attribution) : Prop :=
  row.isOpen = true ∧ (st₀.runner.config row.strategyId).isSome = true

instance (st₀ : Seeding) : DecidablePred st₀.Adopts := fun _ => inferInstanceAs (Decidable (_ ∧ _))

/-- **The statuses, once the seeding has gone through the positions `bs`**:
the rows it has adopted are open, and only rows of contracts it has come to
are new. -/
structure StatusKept (st₀ : Seeding) (bs : List Position) (st : Seeding) : Prop where
  status : ∀ row₀ ∈ st₀.store.rows, ∃ row ∈ st.store.rows,
    row.positionId = row₀.positionId ∧ row.key = row₀.key
      ∧ row.status = if st₀.Adopts row₀ ∧ row₀.key ∈ heldKeys bs then "OPEN" else row₀.status
  added : ∀ row ∈ st.store.rows, (∃ row₀ ∈ st₀.store.rows, row₀.positionId = row.positionId)
    ∨ row.key ∈ heldKeys bs

variable {env : RunnerEnv} {now : Time} {st₀ st : Seeding} {broker bs : List Position}
  {share : Position × Option Attribution}

/-- Seeding one position marks the row of its id as open. -/
theorem status_seedOnePosition_row (hc : st.runner.strategyConfigs = st₀.runner.strategyConfigs) :
    (∀ row ∈ st.store.rows, ∃ row' ∈ (st.seedOnePosition env now share.1 share.2).store.rows,
      row'.positionId = row.positionId ∧ row'.key = row.key
        ∧ row'.status = if row.positionId = (seededEntry st₀.runner share).positionId
          then "OPEN" else row.status)
      ∧ ∀ row' ∈ (st.seedOnePosition env now share.1 share.2).store.rows,
        (∃ row ∈ st.store.rows, row.positionId = row'.positionId ∧ row.key = row'.key)
          ∨ row'.key = (seededEntry st₀.runner share).contract := by
  obtain ⟨new, hentry, hstatus, hrows⟩ := @rows_seedOnePosition env now st share
  rw [seededEntry_congr hc] at hentry
  rw [hrows, ← hentry]
  constructor
  · intro row hrow
    by_cases hid : row.positionId = new.positionId
    · refine ⟨_, List.mem_upsert.mpr (.inr (.inl ⟨row, hrow, hid, rfl⟩)), rfl, rfl, ?_⟩
      exact hstatus.trans (if_pos hid).symm
    · exact ⟨row, List.mem_upsert.mpr (.inl ⟨hrow, hid⟩), rfl, rfl, (if_neg hid).symm⟩
  · intro row' hrow'
    rcases List.mem_upsert.mp hrow' with ⟨hrow, -⟩ | ⟨row, hrow, -, rfl⟩ | ⟨-, rfl⟩
    · exact .inl ⟨row', hrow, rfl, rfl⟩
    · exact .inl ⟨row, hrow, rfl, rfl⟩
    · exact .inr rfl

/-- So does seeding one after the other. -/
theorem status_foldl_row (hc : st.runner.strategyConfigs = st₀.runner.strategyConfigs)
    (xs : List (Position × Option Attribution)) :
    (∀ row ∈ st.store.rows, ∃ row' ∈ (xs.foldl (fun st share =>
        st.seedOnePosition env now share.1 share.2) st).store.rows,
      row'.positionId = row.positionId ∧ row'.key = row.key
        ∧ row'.status = if row.positionId ∈ (xs.map (seededEntry st₀.runner)).map (·.positionId)
          then "OPEN" else row.status)
      ∧ ∀ row' ∈ (xs.foldl (fun st share =>
          st.seedOnePosition env now share.1 share.2) st).store.rows,
        (∃ row ∈ st.store.rows, row.positionId = row'.positionId ∧ row.key = row'.key)
          ∨ row'.key ∈ (xs.map (seededEntry st₀.runner)).map (·.contract) := by
  induction xs generalizing st with
  | nil => exact ⟨fun row hrow => ⟨row, hrow, rfl, rfl, rfl⟩, fun row hrow =>
      .inl ⟨row, hrow, rfl, rfl⟩⟩
  | cons share xs ih =>
    obtain ⟨hold, hnew⟩ := @status_seedOnePosition_row env now st₀ st share hc
    have hc' : (st.seedOnePosition env now share.1 share.2).runner.strategyConfigs
        = st₀.runner.strategyConfigs := by rw [strategyConfigs_seedOnePosition, hc]
    obtain ⟨hold', hnew'⟩ := ih hc'
    constructor
    · intro row hrow
      obtain ⟨row₁, hrow₁, hid₁, hkey₁, hstatus₁⟩ := hold row hrow
      obtain ⟨row₂, hrow₂, hid₂, hkey₂, hstatus₂⟩ := hold' row₁ hrow₁
      refine ⟨row₂, hrow₂, hid₂.trans hid₁, hkey₂.trans hkey₁, ?_⟩
      rw [hstatus₂, hstatus₁, hid₁, List.map_cons, List.map_cons]
      -- the row is opened by a later share, by this one, or by none
      by_cases hxs : row.positionId ∈ (xs.map (seededEntry st₀.runner)).map (·.positionId)
      · rw [if_pos hxs, if_pos (List.mem_cons_of_mem _ hxs)]
      · by_cases hx : row.positionId = (seededEntry st₀.runner share).positionId
        · rw [if_neg hxs, if_pos hx, if_pos (List.mem_cons.mpr (.inl hx))]
        · rw [if_neg hxs, if_neg hx, if_neg fun h => (List.mem_cons.mp h).elim hx hxs]
    · intro row₂ hrow₂
      rw [List.map_cons, List.map_cons, List.mem_cons]
      rcases hnew' row₂ hrow₂ with ⟨row₁, hrow₁, hid₁, hkey₁⟩ | hkey
      · rcases hnew row₁ hrow₁ with ⟨row, hrow, hid, hkey⟩ | hkey
        · exact .inl ⟨row, hrow, hid.trans hid₁, hkey.trans hkey₁⟩
        · exact .inr (.inl (hkey₁ ▸ hkey))
      · exact .inr (.inr hkey)

/-- Every row is a share of its contract. -/
theorem exists_share {bpos : Position} {rows : List Attribution} {row : Attribution}
    (h : row ∈ rows) : ∃ share ∈ shares bpos rows, share.2 = some row := by
  unfold shares
  split
  · cases h
  · obtain rfl := List.mem_singleton.mp h
    exact ⟨_, List.mem_singleton_self _, rfl⟩
  · exact ⟨_, List.mem_map_of_mem h, rfl⟩

/-- **The rows a position of the broker is seeded under** are the open rows
of its contract that name configured strategies. -/
theorem RowsKept.mem_ids_seeds (hf : FreshIds st₀ broker) (h : RowsKept st₀ broker st)
    {b : Position} (hb : b ∈ broker) {row₀ row : Attribution}
    (hrow₀ : row₀ ∈ st₀.store.rows) (hrow : row ∈ st.store.rows)
    (hid : row.positionId = row₀.positionId) :
    row.positionId ∈ (seeds st₀ st b).map (·.positionId)
      ↔ row.isOpen = true ∧ (st₀.runner.config row₀.strategyId).isSome = true
        ∧ row.key = b.contract.storeKey := by
  have hsid : row.strategyId = row₀.strategyId := by
    have howns : Owns st₀ broker row₀.positionId row₀.key row₀.strategyId :=
      .inl ⟨row₀, hrow₀, rfl, rfl, rfl⟩
    exact ((hid ▸ h.owned row hrow).unique hf howns).2
  constructor
  · intro hmem
    obtain ⟨e, he, heq⟩ := List.mem_map.mp hmem
    obtain ⟨share, hshare, rfl⟩ := List.mem_map.mp he
    obtain ⟨hpid, -, -, hrows⟩ := mem_shares hshare
    cases hadopt : st₀.runner.adopted share.2 with
    | none =>
      -- a made-up id is not that of a row
      rw [seededEntry_of_none hadopt] at heq
      exact absurd (hid.symm.trans (heq.symm.trans hpid)) (hf.unused b hb row₀ hrow₀)
    | some x =>
      rw [seededEntry_of_some hadopt] at heq
      obtain ⟨hx, hconf⟩ := adopted_eq_some.mp hadopt
      obtain ⟨hxrow, hopen, hkey⟩ := PositionStore.mem_openRows.mp
        (PositionStore.mem_findAllOpenAttributions.mp (hrows x hx).1)
      obtain rfl := PositionStore.eq_of_positionId hxrow hrow heq
      exact ⟨hopen, hsid ▸ hconf, hkey⟩
  · rintro ⟨hopen, hconf, hkey⟩
    obtain ⟨share, hshare, hx⟩ := @exists_share b _ row
      (PositionStore.mem_findAllOpenAttributions.mpr
        (PositionStore.mem_openRows.mpr ⟨hrow, hopen, hkey⟩))
    have hadopt : st₀.runner.adopted share.2 = some row :=
      adopted_eq_some.mpr ⟨hx, hsid.symm ▸ hconf⟩
    refine List.mem_map.mpr ⟨_, List.mem_map_of_mem hshare, ?_⟩
    rw [seededEntry_of_some hadopt]

theorem statusKept_refl (st₀ : Seeding) : StatusKept st₀ [] st₀ where
  status := fun row hrow => ⟨row, hrow, rfl, rfl, (if_neg fun h => by cases h.2).symm⟩
  added := fun row hrow => .inl ⟨row, hrow, rfl⟩

/-- **One more position of the broker is seeded.** -/
theorem StatusKept.seedPosition (hf : FreshIds st₀ broker) (hrows : RowsKept st₀ broker st)
    (h : StatusKept st₀ bs st) {b : Position} (hb : b ∈ broker) :
    StatusKept st₀ (bs ++ [b]) (st.seedPosition env now b) := by
  by_cases hq : b.quantity = 0
  · have hst : st.seedPosition env now b = st := if_pos hq
    have hheld : ∀ k, k ∈ heldKeys (bs ++ [b]) ↔ k ∈ heldKeys bs := fun k => by
      rw [mem_heldKeys_snoc]
      exact or_iff_left fun hne => hne.1 hq
    rw [hst]
    refine ⟨fun row₀ hrow₀ => ?_, fun row hrow => (h.added row hrow).imp_right (hheld _).mpr⟩
    simp only [hheld]
    exact h.status row₀ hrow₀
  have hst : st.seedPosition env now b
      = (shares b (st.store.findAllOpenAttributions b.contract.storeKey)).foldl
        (fun st share => st.seedOnePosition env now share.1 share.2) st := if_neg hq
  obtain ⟨hold, hnew⟩ := @status_foldl_row env now st₀ st hrows.configs
    (shares b (st.store.findAllOpenAttributions b.contract.storeKey))
  rw [hst]
  constructor
  · intro row₀ hrow₀
    obtain ⟨row, hrow, hid, hkey, hstatus⟩ := h.status row₀ hrow₀
    obtain ⟨row', hrow', hid', hkey', hstatus'⟩ := hold row hrow
    refine ⟨row', hrow', hid'.trans hid, hkey'.trans hkey, hstatus'.trans ?_⟩
    have hseeds := hrows.mem_ids_seeds hf hb hrow₀ hrow hid
    -- the seeding leaves a row as open as it was
    have hopen : row.isOpen = row₀.isOpen := by
      rw [Attribution.isOpen, hstatus]
      split_ifs with hadopts
      · exact hadopts.1.1.symm
      · rfl
    rw [hopen, hkey, ← and_assoc] at hseeds
    rw [seeds] at hseeds
    by_cases hmem : row.positionId
        ∈ ((shares b (st.store.findAllOpenAttributions b.contract.storeKey)).map
          (seededEntry st₀.runner)).map (·.positionId)
    · obtain ⟨hadopts, hk⟩ := hseeds.mp hmem
      rw [if_pos hmem, if_pos ⟨hadopts, mem_heldKeys_snoc.mpr (.inr ⟨hq, hk.symm⟩)⟩]
    · rw [if_neg hmem, hstatus]
      refine if_congr (and_congr_right fun hadopts => ?_) rfl rfl
      rw [mem_heldKeys_snoc]
      exact (or_iff_left fun hk => hmem (hseeds.mpr ⟨hadopts, hk.2.symm⟩)).symm
  · intro row' hrow'
    rw [mem_heldKeys_snoc]
    rcases hnew row' hrow' with ⟨row, hrow, hid, hkey⟩ | hmem
    · rcases h.added row hrow with ⟨row₀, hrow₀, hid₀⟩ | hk
      · exact .inl ⟨row₀, hrow₀, hid₀.trans hid⟩
      · exact .inr (.inl (hkey ▸ hk))
    · obtain ⟨e, he, heq⟩ := List.mem_map.mp hmem
      have hcontract : e.contract = b.contract.storeKey := contract_of_mem_seeds he
      exact .inr (.inr ⟨hq, hcontract.symm.trans heq⟩)

theorem statusKept_foldl (hf : FreshIds st₀ broker) (hbs : ∀ b ∈ bs, b ∈ broker) :
    StatusKept st₀ bs (bs.foldl (seedPosition env now) st₀) := by
  induction bs using List.reverseRecOn with
  | nil => exact statusKept_refl st₀
  | append_singleton bs b ih =>
    obtain ⟨hbs, hb⟩ := List.forall_mem_append.mp hbs
    rw [List.foldl_append, List.foldl_cons, List.foldl_nil]
    exact (ih hbs).seedPosition hf (rowsKept_foldl hf hbs) (hb b (List.mem_singleton_self b))

/-! ## The sweep -/

/-- **Nothing stands in the way of the sweep**: the broker has reported a
position or there is no open row, and the rows that are adopted are `OPEN`
already. -/
def Sweepable (st₀ : Seeding) (broker : List Position) : Prop :=
  (broker ≠ [] ∨ ∀ row ∈ st₀.store.rows, row.isOpen = false)
    ∧ ∀ row ∈ st₀.store.rows, st₀.Adopts row → row.key ∈ heldKeys broker → row.status = "OPEN"

instance (st₀ : Seeding) (broker : List Position) : Decidable (Sweepable st₀ broker) :=
  inferInstanceAs (Decidable (_ ∧ _))

/-- With an empty account the seeding returns at once. -/
theorem sweeps_nil_iff : Sweeps st₀ (st₀.seedPositionsFromBroker env now (some [])) []
    ↔ Sweepable st₀ [] := by
  have hst : st₀.seedPositionsFromBroker env now (some []) = st₀ := rfl
  rw [hst]
  constructor
  · intro h
    refine ⟨.inr fun row hrow => ?_, fun row _ _ hk => by cases hk⟩
    by_contra hopen
    cases h.stale row hrow (by simpa using hopen)
  · rintro ⟨hopen, -⟩
    refine ⟨fun row hrow h => ?_, fun row _ hk => by cases hk⟩
    rw [(hopen.resolve_left fun hne => hne rfl) row hrow] at h
    cases h

/-- Otherwise the rows of the seeding are swept. -/
theorem rows_seedPositionsFromBroker (hne : broker ≠ []) :
    (st₀.seedPositionsFromBroker env now (some broker)).store.rows
      = (broker.foldl (Seeding.seedPosition env now) st₀).store.rows.map fun row =>
        if row.isOpen ∧ row.key ∉ heldKeys broker then row.markedClosed now else row := by
  cases broker with
  | nil => exact absurd rfl hne
  | cons b bs => rfl

/-- The sweep leaves the rows of the contracts that are held. -/
theorem mem_rows_of_held (hne : broker ≠ []) {row : Attribution}
    (hrow : row ∈ (broker.foldl (Seeding.seedPosition env now) st₀).store.rows)
    (hk : row.key ∈ heldKeys broker) :
    row ∈ (st₀.seedPositionsFromBroker env now (some broker)).store.rows := by
  rw [rows_seedPositionsFromBroker hne]
  exact List.mem_map.mpr ⟨row, hrow, if_neg fun hstale => hstale.2 hk⟩

/-- A row that is open after the sweep is of a contract that is held. -/
theorem held_of_isOpen (hne : broker ≠ []) {row : Attribution}
    (hrow : row ∈ (st₀.seedPositionsFromBroker env now (some broker)).store.rows)
    (hopen : row.isOpen = true) : row.key ∈ heldKeys broker := by
  rw [rows_seedPositionsFromBroker hne] at hrow
  obtain ⟨row, -, rfl⟩ := List.mem_map.mp hrow
  by_contra hk
  split_ifs at hopen hk with hstale
  · exact absurd (show "CLOSED" ∈ ["OPEN", "OPENING", "open", "opening"] from
      of_decide_eq_true hopen) (by decide)
  · exact hstale ⟨hopen, hk⟩

/-- **No stale row is left exactly where nothing stands in the way of the
sweep.** -/
theorem sweeps_iff_sweepable (env : RunnerEnv) (now : Time) {st₀ : Seeding}
    {broker : List Position} (hf : FreshIds st₀ broker) :
    Sweeps st₀ (st₀.seedPositionsFromBroker env now (some broker)) broker
      ↔ Sweepable st₀ broker := by
  by_cases hne : broker = []
  · subst hne
    exact sweeps_nil_iff
  have hkept := @statusKept_foldl env now st₀ broker broker hf fun _ h => h
  constructor
  · intro h
    refine ⟨.inl hne, fun row₀ hrow₀ hadopts hk => ?_⟩
    obtain ⟨row, hrow, hid, hkey, hstatus⟩ := hkept.status row₀ hrow₀
    obtain ⟨row', hrow', hid', hstatus'⟩ := h.kept row₀ hrow₀ hk
    have hmem := mem_rows_of_held hne hrow (hkey.symm ▸ hk)
    obtain rfl := PositionStore.eq_of_positionId hmem hrow' (hid.trans hid'.symm)
    rw [← hstatus', hstatus, if_pos ⟨hadopts, hk⟩]
  · rintro ⟨-, hopen⟩
    refine ⟨fun row hrow h => held_of_isOpen hne hrow h, fun row₀ hrow₀ hk => ?_⟩
    obtain ⟨row, hrow, hid, hkey, hstatus⟩ := hkept.status row₀ hrow₀
    refine ⟨row, mem_rows_of_held hne hrow (hkey.symm ▸ hk), hid, hstatus.trans ?_⟩
    split_ifs with hadopts
    · exact (hopen row₀ hrow₀ hadopts.1 hk).symm
    · rfl

theorem higher_strike_pos : (0 : Price) < 6100 := by decide

/-- A position of the broker at a higher strike. -/
def higherHolding (pid : PositionId) : Position :=
  { sampleHolding pid .buy 2 with
    contract := { sampleContract with strike := 6100, strike_pos := higher_strike_pos } }

/-- A row of each strike. -/
def twoStrikes : Seeding :=
  sampleSeeding [sampleRow 0 "orb" .buy 2, { sampleRow 1 "orb" .buy 2 with strike := 6100 }]
    (by decide)

/-- Of two rows the one whose contract the broker has closed is swept. -/
theorem sweeps_closedContract :
    Sweeps twoStrikes (twoStrikes.seedPositionsFromBroker sampleEnv 0 (some [higherHolding 2]))
      [higherHolding 2] :=
  (sweeps_iff_sweepable sampleEnv 0 ⟨by decide, by decide +kernel⟩).mpr (by decide +kernel)

/-- A stale row is not always swept: it stays open where the broker reports
no position at all. -/
theorem not_sweeps : ¬ ∀ (st₀ : Seeding) (broker : List Position), FreshIds st₀ broker →
    Sweeps st₀ (st₀.seedPositionsFromBroker sampleEnv 0 (some broker)) broker := by
  intro h
  have hstale := (h (sampleSeeding [sampleRow 0 "orb" .buy 2] (by decide)) []
    ⟨by decide, by decide⟩).stale
  exact absurd hstale (by decide +kernel)

end Seeding
