import ExecutionSystem.Seeding

/-!
# Recovering the book from the store

What the seeding makes of the book when the open rows of the attribution
store add up, contract by contract, to what the broker has. A row is
recovered with its id, its strategy and, beside other rows, its quantity;
but its side is that of the broker's net, and a row whose strategy is not
configured any more is not recovered under its id at all.

A contract is *attributed* if it has open rows and all of them name
configured strategies. The proof follows the broker's positions: what the
store shows of an attributed contract never changes (`RowsKept`), so the
book has of it exactly what the last position of it was split into
(`BookKept`). The book is recovered exactly when every contract is
attributed and its rows are on the side of the broker's net
(`recovers_iff_recoverable`).
-/

namespace Seeding

/-- **What an id is for**: the contract and the strategy of its row, or, if
the broker client made it up, the contract of its position and the strategy
that the fallback finds. -/
def Owns (st₀ : Seeding) (broker : List Position) (pid : PositionId) (k : StoreKey)
    (sid : StrategyId) : Prop :=
  (∃ row ∈ st₀.store.rows, row.positionId = pid ∧ row.key = k ∧ row.strategyId = sid)
    ∨ ∃ b ∈ broker, b.positionId = pid ∧ b.contract.storeKey = k
      ∧ (st₀.runner.strategyFor b.contract.symbol).getD "unknown" = sid

/-- The ids that the broker client makes up (`uuid4()`) are fresh. -/
structure FreshIds (st₀ : Seeding) (broker : List Position) : Prop where
  nodup : (broker.map (·.positionId)).Nodup
  unused : ∀ b ∈ broker, ∀ row ∈ st₀.store.rows, row.positionId ≠ b.positionId

/-- The contract has open rows, and each names a configured strategy. -/
def Attributed (st₀ : Seeding) (k : StoreKey) : Prop :=
  st₀.store.openRows k ≠ []
    ∧ ∀ row ∈ st₀.store.openRows k, (st₀.runner.config row.strategyId).isSome = true

variable {env : RunnerEnv} {now : Time} {st₀ st : Seeding} {broker : List Position}
  {share : Position × Option Attribution} {pid : PositionId} {k k' : StoreKey}
  {sid sid' : StrategyId} {e : BookEntry}

/-- **An id is for one contract and one strategy.** -/
theorem Owns.unique (hf : FreshIds st₀ broker) (h : Owns st₀ broker pid k sid)
    (h' : Owns st₀ broker pid k' sid') : k = k' ∧ sid = sid' := by
  rcases h with ⟨row, hrow, hpid, rfl, rfl⟩ | ⟨b, hb, hpid, rfl, rfl⟩ <;>
    rcases h' with ⟨row', hrow', hpid', rfl, rfl⟩ | ⟨b', hb', hpid', rfl, rfl⟩
  · obtain rfl := PositionStore.eq_of_positionId hrow hrow' (hpid.trans hpid'.symm)
    exact ⟨rfl, rfl⟩
  · exact absurd (hpid.trans hpid'.symm) (hf.unused b' hb' row hrow)
  · exact absurd (hpid'.trans hpid.symm) (hf.unused b hb row' hrow')
  · obtain rfl := List.inj_on_of_nodup_map hf.nodup hb hb' (hpid.trans hpid'.symm)
    exact ⟨rfl, rfl⟩

/-! ## What is written -/

/-- **A write that the recovery may make**: under an id that is for its
contract and strategy, and, where the contract is attributed, under the id
of one of its rows – with the quantity of that row if there are several. -/
structure Written (st₀ : Seeding) (broker : List Position) (e : BookEntry) : Prop where
  owns : Owns st₀ broker e.positionId e.contract e.strategyId
  row : Attributed st₀ e.contract → ∃ row ∈ st₀.store.openRows e.contract,
    row.positionId = e.positionId
      ∧ (1 < (st₀.store.openRows e.contract).length → row.quantity = e.quantity)

/-- **What the recovery leaves of the store.** -/
structure RowsKept (st₀ : Seeding) (broker : List Position) (st : Seeding) : Prop where
  configs : st.runner.strategyConfigs = st₀.runner.strategyConfigs
  owned : ∀ row ∈ st.store.rows, Owns st₀ broker row.positionId row.key row.strategyId
  ids : ∀ k, Attributed st₀ k →
    (st.store.openRows k).map (·.positionId) = (st₀.store.openRows k).map (·.positionId)
  quantities : ∀ k, Attributed st₀ k → 1 < (st₀.store.openRows k).length →
    (st.store.openRows k).map (fun row => (row.positionId, row.quantity))
      = (st₀.store.openRows k).map (fun row => (row.positionId, row.quantity))

theorem rowsKept_refl (st₀ : Seeding) (broker : List Position) :
    RowsKept st₀ broker st₀ where
  configs := rfl
  owned := fun row hrow => .inl ⟨row, hrow, rfl, rfl, rfl⟩
  ids := fun _ _ => rfl
  quantities := fun _ _ _ => rfl

/-- The open row of an attributed contract that a write goes to. -/
theorem RowsKept.row_of_written (h : RowsKept st₀ broker st) (he : Written st₀ broker e)
    (hk : Attributed st₀ e.contract) :
    ∃ row ∈ st.store.openRows e.contract, row.positionId = e.positionId
      ∧ (1 < (st₀.store.openRows e.contract).length → row.quantity = e.quantity) := by
  obtain ⟨row₀, hrow₀, hid₀, hq₀⟩ := he.row hk
  by_cases hlen : 1 < (st₀.store.openRows e.contract).length
  · have hmem := List.mem_map_of_mem (f := fun row : Attribution =>
      (row.positionId, row.quantity)) hrow₀
    rw [← h.quantities _ hk hlen] at hmem
    obtain ⟨row, hrow, heq⟩ := List.mem_map.mp hmem
    obtain ⟨hid, hq⟩ := Prod.mk.inj heq
    exact ⟨row, hrow, hid.trans hid₀, fun _ => hq.trans (hq₀ hlen)⟩
  · have hmem := List.mem_map_of_mem (f := (·.positionId)) hrow₀
    rw [← h.ids _ hk] at hmem
    obtain ⟨row, hrow, hid⟩ := List.mem_map.mp hmem
    exact ⟨row, hrow, hid.trans hid₀, fun hlt => absurd hlt hlen⟩

/-- A row that a write goes to is of the contract written, and open where
that is attributed. -/
theorem RowsKept.written_row (hf : FreshIds st₀ broker) (h : RowsKept st₀ broker st)
    (he : Written st₀ broker e) {row : Attribution} (hrow : row ∈ st.store.rows)
    (hid : row.positionId = e.positionId) :
    row.key = e.contract ∧ row.strategyId = e.strategyId
      ∧ (Attributed st₀ e.contract → row.isOpen = true
        ∧ (1 < (st₀.store.openRows e.contract).length → row.quantity = e.quantity)) := by
  obtain ⟨hkey, hsid⟩ := Owns.unique hf (hid ▸ h.owned row hrow) he.owns
  refine ⟨hkey, hsid, fun hk => ?_⟩
  obtain ⟨row', hrow', hid', hq⟩ := h.row_of_written he hk
  obtain ⟨hmem, hopen, -⟩ := PositionStore.mem_openRows.mp hrow'
  obtain rfl := PositionStore.eq_of_positionId hrow hmem (hid.trans hid'.symm)
  exact ⟨hopen, hq⟩

/-- **What a write leaves of the open rows of an attributed contract**: all
that is seen of them, where it is not of what the write refreshes. -/
theorem RowsKept.map_openRows_upsert {α : Type} {row : Attribution} {rows : List Attribution}
    (hf : FreshIds st₀ broker) (h : RowsKept st₀ broker st) (he : Written st₀ broker row.entry)
    (hopen : row.isOpen = true) {g : Attribution → α} (hk : Attributed st₀ k)
    (hrows : rows = st.store.rows.upsert (·.positionId) row.positionId row (.refreshed row))
    (hg : ∀ x ∈ st.store.rows, x.positionId = row.positionId → row.key = k →
      g (.refreshed row x) = g x) :
    (rows.filter fun x => x.isOpen && x.key = k).map g = (st.store.openRows k).map g := by
  rw [hrows]
  refine List.map_filter_upsert (fun x hx hid => ?_) ?_
  · obtain ⟨hkey, -, hatt⟩ := h.written_row hf he hx hid
    by_cases hrk : row.key = k
    · obtain ⟨hxopen, -⟩ := hatt (show st₀.Attributed row.key from hrk ▸ hk)
      refine ⟨?_, fun _ => hg x hx hid hrk⟩
      show (row.isOpen && decide (x.key = k)) = (x.isOpen && decide (x.key = k))
      rw [hopen, hxopen]
    · have hxk : x.key ≠ k := fun hxk => hrk (hkey.symm.trans hxk)
      refine ⟨?_, fun hp => absurd hp (by simp [hxk])⟩
      show (_ && decide (x.key = k)) = (_ && decide (x.key = k))
      simp [hxk]
  · by_cases hrk : row.key = k
    · obtain ⟨x, hx, hid, -⟩ := h.row_of_written he (show st₀.Attributed row.key from hrk ▸ hk)
      exact .inl ⟨x, (PositionStore.mem_openRows.mp hx).1, hid⟩
    · exact .inr (by simp [hrk])

theorem RowsKept.seedOnePosition (hf : FreshIds st₀ broker) (h : RowsKept st₀ broker st)
    (he : Written st₀ broker (seededEntry st₀.runner share)) :
    RowsKept st₀ broker (st.seedOnePosition env now share.1 share.2) := by
  rw [← seededEntry_congr h.configs] at he
  obtain ⟨row, hentry, hstatus, hrows⟩ := @rows_seedOnePosition env now st share
  rw [← hentry] at he
  have hopen : row.isOpen = true := by rw [Attribution.isOpen, hstatus]; rfl
  constructor
  · rw [strategyConfigs_seedOnePosition, h.configs]
  · intro y hy
    rw [hrows] at hy
    rcases List.mem_upsert.mp hy with ⟨hy, -⟩ | ⟨x, hx, hid, rfl⟩ | ⟨-, rfl⟩
    · exact h.owned y hy
    · obtain ⟨hkey, -, -⟩ := h.written_row hf he hx hid
      have howns := he.owns
      show Owns st₀ broker x.positionId x.key row.strategyId
      rw [hkey, hid]
      exact howns
    · exact he.owns
  · intro k hk
    exact (h.map_openRows_upsert hf he hopen hk hrows fun _ _ _ _ => rfl).trans (h.ids k hk)
  · intro k hk hlen
    refine (h.map_openRows_upsert hf he hopen hk hrows ?_).trans (h.quantities k hk hlen)
    intro x hx hid hrk
    obtain ⟨-, -, hatt⟩ := h.written_row hf he hx hid
    subst hrk
    show (x.positionId, row.quantity) = (x.positionId, x.quantity)
    rw [(hatt hk).2 hlen]
    rfl

/-- An open row of an attributed contract is still the row it was. -/
theorem RowsKept.row₀_of_row (hf : FreshIds st₀ broker) (h : RowsKept st₀ broker st)
    (hk : Attributed st₀ k) {row : Attribution} (hrow : row ∈ st.store.openRows k) :
    ∃ row₀ ∈ st₀.store.openRows k, row₀.positionId = row.positionId
      ∧ row₀.strategyId = row.strategyId
      ∧ (1 < (st₀.store.openRows k).length → row₀.quantity = row.quantity) := by
  have hmem := PositionStore.mem_openRows.mp hrow
  have hsid : ∀ row₀ ∈ st₀.store.openRows k, row₀.positionId = row.positionId →
      row₀.strategyId = row.strategyId := fun row₀ hrow₀ hid => by
    have howns : Owns st₀ broker row₀.positionId row₀.key row₀.strategyId :=
      .inl ⟨row₀, (PositionStore.mem_openRows.mp hrow₀).1, rfl, rfl, rfl⟩
    exact (howns.unique hf (hid ▸ h.owned row hmem.1)).2
  by_cases hlen : 1 < (st₀.store.openRows k).length
  · have hm := List.mem_map_of_mem (f := fun row : Attribution =>
      (row.positionId, row.quantity)) hrow
    rw [h.quantities k hk hlen] at hm
    obtain ⟨row₀, hrow₀, heq⟩ := List.mem_map.mp hm
    obtain ⟨hid, hq⟩ := Prod.mk.inj heq
    exact ⟨row₀, hrow₀, hid, hsid row₀ hrow₀ hid, fun _ => hq⟩
  · have hm := List.mem_map_of_mem (f := (·.positionId)) hrow
    rw [h.ids k hk] at hm
    obtain ⟨row₀, hrow₀, hid⟩ := List.mem_map.mp hm
    exact ⟨row₀, hrow₀, hid, hsid row₀ hrow₀ hid, fun hlt => absurd hlt hlen⟩

theorem RowsKept.length_eq (h : RowsKept st₀ broker st) (hk : Attributed st₀ k) :
    (st.store.openRows k).length = (st₀.store.openRows k).length := by
  rw [← List.length_map (·.positionId), h.ids k hk, List.length_map]

/-! ## Shares -/

theorem shares_ne_nil (bpos : Position) (rows : List Attribution) : shares bpos rows ≠ [] := by
  unfold shares
  split <;> simp_all

/-- A share has all of the broker's position but its quantity, and where
there are several, that of its row. -/
theorem mem_shares {bpos : Position} {rows : List Attribution} (h : share ∈ shares bpos rows) :
    share.1.positionId = bpos.positionId ∧ share.1.contract = bpos.contract
      ∧ (rows ≠ [] → ∃ row ∈ rows, share.2 = some row)
      ∧ ∀ row, share.2 = some row →
        row ∈ rows ∧ (1 < rows.length → share.1.quantity = row.quantity) := by
  unfold shares at h
  split at h
  · obtain rfl := List.mem_singleton.mp h
    exact ⟨rfl, rfl, fun hne => absurd rfl hne, fun _ hrow => by cases hrow⟩
  · obtain rfl := List.mem_singleton.mp h
    refine ⟨rfl, rfl, fun _ => ⟨_, List.mem_singleton_self _, rfl⟩, fun _ hrow => ?_⟩
    obtain rfl := Option.some.inj hrow
    exact ⟨List.mem_singleton_self _, fun hlt => absurd hlt (by simp)⟩
  · obtain ⟨row, hrow, rfl⟩ := List.mem_map.mp h
    refine ⟨rfl, rfl, fun _ => ⟨row, hrow, rfl⟩, fun _ heq => ?_⟩
    obtain rfl := Option.some.inj heq
    exact ⟨hrow, fun _ => rfl⟩

/-- A share without a row to adopt is seeded under the id of the broker's
position. -/
theorem seededEntry_of_none {s : ExecutionRunner} (h : s.adopted share.2 = none) :
    seededEntry s share = ⟨share.1.positionId,
      (s.strategyFor share.1.contract.symbol).getD "unknown", share.1.contract.storeKey,
      share.1.side, share.1.quantity⟩ := by
  simp only [seededEntry, Position.entry, ExecutionRunner.seededPosition,
    ExecutionRunner.matchedStrategy, h, Option.map_none, Option.getD_none]

/-- A share with one is seeded under the id and the strategy of the row. -/
theorem seededEntry_of_some {s : ExecutionRunner} {row : Attribution}
    (h : s.adopted share.2 = some row) :
    seededEntry s share = ⟨row.positionId, row.strategyId, share.1.contract.storeKey,
      share.1.side, share.1.quantity⟩ := by
  simp only [seededEntry, Position.entry, ExecutionRunner.seededPosition,
    ExecutionRunner.matchedStrategy, h, Option.map_some, Option.getD_some]

theorem adopted_eq_some {s : ExecutionRunner} {attr : Option Attribution} {row : Attribution} :
    s.adopted attr = some row ↔ attr = some row ∧ (s.config row.strategyId).isSome = true :=
  Option.filter_eq_some_iff

/-- The shares of rows that all name configured strategies. -/
theorem entries_shares {s : ExecutionRunner} {bpos : Position} {rows : List Attribution}
    (hne : rows ≠ []) (hconf : ∀ row ∈ rows, (s.config row.strategyId).isSome = true) :
    (shares bpos rows).map (seededEntry s)
      = rows.map fun row => ⟨row.positionId, row.strategyId, bpos.contract.storeKey, bpos.side,
        if rows.length = 1 then bpos.quantity else row.quantity⟩ := by
  unfold shares
  split
  · exact absurd rfl hne
  · next row =>
    have hadopt : s.adopted (some row) = some row :=
      adopted_eq_some.mpr ⟨rfl, hconf row (List.mem_singleton_self row)⟩
    rw [List.map_singleton, List.map_singleton, seededEntry_of_some hadopt]
    rfl
  · next hmany =>
    rw [List.map_map]
    refine List.map_congr_left fun row hrow => ?_
    have hlen : rows.length ≠ 1 := fun hlen => by
      obtain ⟨x, rfl⟩ := List.length_eq_one_iff.mp hlen
      exact hmany x rfl
    have hadopt : s.adopted (some row) = some row :=
      adopted_eq_some.mpr ⟨rfl, hconf row hrow⟩
    show seededEntry s (_, some row) = _
    rw [seededEntry_of_some hadopt, if_neg hlen]

/-- **What a share writes, the recovery may write.** -/
theorem RowsKept.written_of_share (hf : FreshIds st₀ broker) (h : RowsKept st₀ broker st)
    {bpos : Position} (hb : bpos ∈ broker)
    (hshare : share ∈ shares bpos (st.store.findAllOpenAttributions bpos.contract.storeKey)) :
    Written st₀ broker (seededEntry st₀.runner share) := by
  obtain ⟨hid, hcontract, hsome, hrows⟩ := mem_shares hshare
  have hlength : (st.store.findAllOpenAttributions bpos.contract.storeKey).length
      = (st.store.openRows bpos.contract.storeKey).length := List.length_insertionSort ..
  cases hadopt : st₀.runner.adopted share.2 with
  | none =>
    rw [seededEntry_of_none hadopt, hid, hcontract]
    refine ⟨.inr ⟨bpos, hb, rfl, rfl, rfl⟩, fun hk => ?_⟩
    -- an attributed contract has rows, and all of them are adopted
    have hne : st.store.findAllOpenAttributions bpos.contract.storeKey ≠ [] := fun hnil => by
      rw [hnil, h.length_eq hk] at hlength
      exact hk.1 (List.length_eq_zero_iff.mp hlength.symm)
    obtain ⟨row, hrow, heq⟩ := hsome hne
    obtain ⟨row₀, hrow₀, -, hsid, -⟩ :=
      h.row₀_of_row hf hk (PositionStore.mem_findAllOpenAttributions.mp hrow)
    have hconf := adopted_eq_some.mpr ⟨heq, hsid ▸ hk.2 row₀ hrow₀⟩
    rw [hadopt] at hconf
    cases hconf
  | some row =>
    rw [seededEntry_of_some hadopt, hcontract]
    obtain ⟨hmem, hq⟩ := hrows row (adopted_eq_some.mp hadopt).1
    have hmem := PositionStore.mem_findAllOpenAttributions.mp hmem
    obtain ⟨hrow, -, hkey⟩ := PositionStore.mem_openRows.mp hmem
    refine ⟨hkey ▸ h.owned row hrow, fun hk => ?_⟩
    obtain ⟨row₀, hrow₀, hid₀, -, hq₀⟩ := h.row₀_of_row hf hk hmem
    refine ⟨row₀, hrow₀, hid₀, fun hlt => (hq₀ hlt).trans (hq ?_).symm⟩
    rw [hlength, h.length_eq hk]
    exact hlt

/-! ## One broker position -/

/-- The entries that a position of the broker is seeded as. -/
def seeds (st₀ st : Seeding) (bpos : Position) : List BookEntry :=
  (shares bpos (st.store.findAllOpenAttributions bpos.contract.storeKey)).map
    (seededEntry st₀.runner)

theorem seedPosition_kept (hf : FreshIds st₀ broker) (h : RowsKept st₀ broker st)
    {bpos : Position} (hb : bpos ∈ broker) :
    RowsKept st₀ broker (st.seedPosition env now bpos)
      ∧ (bpos.quantity ≠ 0 → (st.seedPosition env now bpos).entries
        = (seeds st₀ st bpos).foldl (List.put (·.positionId)) st.entries) := by
  unfold seedPosition
  split_ifs with hq
  · exact ⟨h, fun hne => absurd hq hne⟩
  · have hwritten := fun share hshare => @RowsKept.written_of_share st₀ st broker share hf h bpos
      hb hshare
    rw [seeds]
    generalize shares bpos _ = xs at hwritten
    clear hq
    have hfold : RowsKept st₀ broker
          (xs.foldl (fun st share => st.seedOnePosition env now share.1 share.2) st)
        ∧ (xs.foldl (fun st share => st.seedOnePosition env now share.1 share.2) st).entries
          = (xs.map (seededEntry st₀.runner)).foldl (List.put (·.positionId)) st.entries := by
      induction xs generalizing st with
      | nil => exact ⟨h, rfl⟩
      | cons share xs ih =>
        obtain ⟨hshare, hxs⟩ := List.forall_mem_cons.mp hwritten
        obtain ⟨hrows, hentries⟩ := ih (h.seedOnePosition hf hshare) hxs
        refine ⟨hrows, hentries.trans ?_⟩
        rw [entries_seedOnePosition, seededEntry_congr h.configs]
        rfl
    exact ⟨hfold.1, fun _ => hfold.2⟩

/-- What is seeded for one position is of its contract. -/
theorem contract_of_mem_seeds {bpos : Position} (he : e ∈ seeds st₀ st bpos) :
    e.contract = bpos.contract.storeKey := by
  obtain ⟨share, hshare, rfl⟩ := List.mem_map.mp he
  exact congrArg OptionContract.storeKey (mem_shares hshare).2.1

theorem RowsKept.written_of_seeds (hf : FreshIds st₀ broker) (h : RowsKept st₀ broker st)
    {bpos : Position} (hb : bpos ∈ broker) (he : e ∈ seeds st₀ st bpos) :
    Written st₀ broker e := by
  obtain ⟨share, hshare, rfl⟩ := List.mem_map.mp he
  exact h.written_of_share hf hb hshare

/-- The id of a seeded entry is made up, or its strategy is configured. -/
theorem configured_of_mem_seeds {bpos : Position} (he : e ∈ seeds st₀ st bpos) :
    bpos.positionId = e.positionId ∨ (st₀.runner.config e.strategyId).isSome = true := by
  obtain ⟨share, hshare, rfl⟩ := List.mem_map.mp he
  cases hadopt : st₀.runner.adopted share.2 with
  | none =>
    rw [seededEntry_of_none hadopt]
    exact .inl (mem_shares hshare).1.symm
  | some row =>
    rw [seededEntry_of_some hadopt]
    exact .inr (adopted_eq_some.mp hadopt).2

/-- **The entry a row is recovered as**: its own id and strategy, the side
of the broker's position, and its own quantity if there are several. -/
def recovered (st₀ : Seeding) (bpos : Position) (row : Attribution) : BookEntry :=
  ⟨row.positionId, row.strategyId, bpos.contract.storeKey, bpos.side,
    if (st₀.store.openRows bpos.contract.storeKey).length = 1 then bpos.quantity
      else row.quantity⟩

/-- What is recovered of a row, from its id and strategy and, if there are
several, its quantity. -/
theorem recovered_congr {bpos : Position} {row₀ row : Attribution}
    (hrow₀ : row₀ ∈ st₀.store.openRows bpos.contract.storeKey)
    (hid : row₀.positionId = row.positionId) (hsid : row₀.strategyId = row.strategyId)
    (hq : 1 < (st₀.store.openRows bpos.contract.storeKey).length →
      row₀.quantity = row.quantity) :
    recovered st₀ bpos row = recovered st₀ bpos row₀ := by
  unfold recovered
  rw [hid, hsid]
  split_ifs with hlen
  · rfl
  · have hpos := List.length_pos_of_mem hrow₀
    rw [hq (by omega)]

/-- The rows that are read back of a contract, in their order. -/
theorem findAll_perm (st : Seeding) (k : StoreKey) :
    (st.store.findAllOpenAttributions k).Perm (st.store.openRows k) :=
  List.perm_insertionSort ..

/-- **What is seeded for an attributed contract**: its rows, one by one. -/
theorem RowsKept.seeds_eq_map (hf : FreshIds st₀ broker) (h : RowsKept st₀ broker st)
    {bpos : Position} (hk : Attributed st₀ bpos.contract.storeKey) :
    seeds st₀ st bpos
      = (st.store.findAllOpenAttributions bpos.contract.storeKey).map (recovered st₀ bpos) := by
  have hlength := (st.findAll_perm _).length_eq.trans (h.length_eq hk)
  have hne : st.store.findAllOpenAttributions bpos.contract.storeKey ≠ [] := fun hnil => by
    rw [hnil] at hlength
    exact hk.1 (List.length_eq_zero_iff.mp hlength.symm)
  refine (entries_shares hne fun row hrow => ?_).trans (by rw [hlength]; rfl)
  obtain ⟨row₀, hrow₀, -, hsid, -⟩ :=
    h.row₀_of_row hf hk (PositionStore.mem_findAllOpenAttributions.mp hrow)
  exact hsid ▸ hk.2 row₀ hrow₀

/-- The row that an open row of an attributed contract has become. -/
theorem RowsKept.row_of_row₀ (hf : FreshIds st₀ broker) (h : RowsKept st₀ broker st)
    (hk : Attributed st₀ k) {row₀ : Attribution} (hrow₀ : row₀ ∈ st₀.store.openRows k) :
    ∃ row ∈ st.store.openRows k, row₀.positionId = row.positionId
      ∧ row₀.strategyId = row.strategyId
      ∧ (1 < (st₀.store.openRows k).length → row₀.quantity = row.quantity) := by
  have hm := List.mem_map_of_mem (f := (·.positionId)) hrow₀
  rw [← h.ids _ hk] at hm
  obtain ⟨row, hrow, hid⟩ := List.mem_map.mp hm
  obtain ⟨row₁, hrow₁, hid₁, hsid₁, hq₁⟩ := h.row₀_of_row hf hk hrow
  obtain rfl : row₁ = row₀ := PositionStore.eq_of_positionId
    (PositionStore.mem_openRows.mp hrow₁).1 (PositionStore.mem_openRows.mp hrow₀).1
    (hid₁.trans hid)
  exact ⟨row, hrow, hid₁, hsid₁, hq₁⟩

/-- An attributed contract is recovered row by row. -/
theorem RowsKept.mem_seeds (hf : FreshIds st₀ broker) (h : RowsKept st₀ broker st)
    {bpos : Position} (hk : Attributed st₀ bpos.contract.storeKey) :
    ((seeds st₀ st bpos).map (·.positionId)).Nodup
      ∧ ∀ e, e ∈ seeds st₀ st bpos
        ↔ ∃ row ∈ st₀.store.openRows bpos.contract.storeKey, e = recovered st₀ bpos row := by
  rw [h.seeds_eq_map hf hk]
  constructor
  · rw [List.map_map]
    show (List.map Attribution.positionId _).Nodup
    rw [((st.findAll_perm _).map _).nodup_iff]
    exact st.store.nodup.sublist (List.filter_sublist.map _)
  · intro e
    rw [List.mem_map]
    constructor
    · rintro ⟨row, hrow, rfl⟩
      obtain ⟨row₀, hrow₀, hid, hsid, hq⟩ :=
        h.row₀_of_row hf hk (PositionStore.mem_findAllOpenAttributions.mp hrow)
      exact ⟨row₀, hrow₀, recovered_congr hrow₀ hid hsid hq⟩
    · rintro ⟨row₀, hrow₀, rfl⟩
      obtain ⟨row, hrow, hid, hsid, hq⟩ := h.row_of_row₀ hf hk hrow₀
      exact ⟨row, PositionStore.mem_findAllOpenAttributions.mpr hrow,
        recovered_congr hrow₀ hid hsid hq⟩

/-! ## The book -/

/-- The last position of a contract among those of the broker. -/
def lastHeld (broker : List Position) (k : StoreKey) : Option Position :=
  (broker.filter fun b => b.quantity ≠ 0 ∧ b.contract.storeKey = k).getLast?

theorem lastHeld_snoc {bs : List Position} {b : Position} {k : StoreKey} :
    lastHeld (bs ++ [b]) k
      = if b.quantity ≠ 0 ∧ b.contract.storeKey = k then some b else lastHeld bs k := by
  unfold lastHeld
  rw [List.filter_append, List.filter_singleton]
  by_cases h : b.quantity ≠ 0 ∧ b.contract.storeKey = k
  · simp [h]
  · rw [if_neg h, decide_eq_false h]
    simp

theorem mem_heldKeys_snoc {bs : List Position} {b : Position} {k : StoreKey} :
    k ∈ heldKeys (bs ++ [b])
      ↔ k ∈ heldKeys bs ∨ b.quantity ≠ 0 ∧ b.contract.storeKey = k := by
  simp only [heldKeys, List.filter_append, List.map_append, List.mem_append]
  refine or_congr_right ?_
  rw [List.filter_singleton]
  by_cases h : b.quantity = 0
  · simp [h]
  · simp [h, eq_comm]

/-- A contract is held exactly when there is a last position of it. -/
theorem mem_heldKeys_iff {bs : List Position} {k : StoreKey} :
    k ∈ heldKeys bs ↔ ∃ b, lastHeld bs k = some b := by
  rw [← Option.isSome_iff_exists, lastHeld, List.getLast?_isSome, ← List.length_pos_iff,
    List.length_pos_iff_exists_mem]
  simp [heldKeys, and_assoc]

theorem lastHeld_contract {bs : List Position} {k : StoreKey} {b : Position}
    (h : lastHeld bs k = some b) : b.contract.storeKey = k := by
  have hmem := List.mem_filter.mp (List.mem_of_getLast? h)
  simpa using (of_decide_eq_true hmem.2).2

/-- **What the recovery has put into the book**, once it has gone through
the positions `bs` of the broker. -/
structure BookKept (st₀ : Seeding) (broker bs : List Position) (st : Seeding) : Prop where
  opened : ∀ pos ∈ st.runner.pm.positions, pos.status = .opened
  nodup : (st.entries.map (·.positionId)).Nodup
  owned : ∀ e ∈ st.entries, Owns st₀ broker e.positionId e.contract e.strategyId
  held : ∀ e ∈ st.entries, e.contract ∈ heldKeys bs
  configured : ∀ e ∈ st.entries, (∃ b ∈ broker, b.positionId = e.positionId)
    ∨ (st₀.runner.config e.strategyId).isSome = true
  full : ∀ k ∈ heldKeys bs, ∃ e ∈ st.entries, e.contract = k
  attributed : ∀ k, Attributed st₀ k → ∀ e, e ∈ st.entries ∧ e.contract = k
    ↔ ∃ b row, lastHeld bs k = some b ∧ row ∈ st₀.store.openRows k ∧ e = recovered st₀ b row

theorem bookKept_refl (hempty : st₀.runner.pm.positions = []) (broker : List Position) :
    BookKept st₀ broker [] st₀ where
  opened := fun pos hpos => by rw [hempty] at hpos; cases hpos
  nodup := by rw [entries, hempty]; exact List.nodup_nil
  owned := fun e he => by rw [entries, hempty] at he; cases he
  held := fun e he => by rw [entries, hempty] at he; cases he
  configured := fun e he => by rw [entries, hempty] at he; cases he
  full := fun k hk => by cases hk
  attributed := fun k _ e => by
    rw [entries, hempty]
    refine iff_of_false (fun h => by cases h.1) ?_
    rintro ⟨b, -, h, -⟩
    cases h

theorem opened_seedPosition {bpos : Position}
    (h : ∀ pos ∈ st.runner.pm.positions, pos.status = .opened) :
    ∀ pos ∈ (st.seedPosition env now bpos).runner.pm.positions, pos.status = .opened := by
  unfold seedPosition
  split_ifs
  · exact h
  · generalize shares bpos _ = xs
    induction xs generalizing st with
    | nil => exact h
    | cons share xs ih => exact ih (status_seedOnePosition h)

/-- A flat position of the broker is skipped. -/
theorem BookKept.seedPosition_flat {bs : List Position} (h : BookKept st₀ broker bs st)
    {b : Position} (hq : b.quantity = 0) :
    BookKept st₀ broker (bs ++ [b]) (st.seedPosition env now b) := by
  have hst : st.seedPosition env now b = st := if_pos hq
  have hheld : ∀ k, k ∈ heldKeys (bs ++ [b]) ↔ k ∈ heldKeys bs := fun k => by
    rw [mem_heldKeys_snoc]
    exact or_iff_left fun hne => hne.1 hq
  rw [hst]
  refine ⟨h.opened, h.nodup, h.owned, fun e he => (hheld _).mpr (h.held e he), h.configured,
    fun k hk => h.full k ((hheld k).mp hk), fun k hk e => ?_⟩
  rw [lastHeld_snoc, if_neg fun hne => hne.1 hq]
  exact h.attributed k hk e

/-- An entry of another contract has another id than what is seeded. -/
theorem BookKept.not_mem_seeds (hf : FreshIds st₀ broker) {bs : List Position}
    (hrows : RowsKept st₀ broker st) (h : BookKept st₀ broker bs st) {b : Position}
    (hb : b ∈ broker) {e : BookEntry} (he : e ∈ st.entries)
    (hne : e.contract ≠ b.contract.storeKey) :
    e.positionId ∉ (seeds st₀ st b).map (·.positionId) := by
  intro hmem
  obtain ⟨e', he', hid⟩ := List.mem_map.mp hmem
  have howns := (hrows.written_of_seeds hf hb he').owns
  rw [contract_of_mem_seeds he', show e'.positionId = e.positionId from hid] at howns
  exact hne ((h.owned e he).unique hf howns).1

/-- The contract that is seeded has an entry, and so has any that had one. -/
theorem BookKept.full_put (hf : FreshIds st₀ broker) {bs : List Position}
    (hrows : RowsKept st₀ broker st) (h : BookKept st₀ broker bs st) {b : Position}
    (hb : b ∈ broker) (hk : k ∈ heldKeys (bs ++ [b])) :
    ∃ e ∈ (seeds st₀ st b).foldl (List.put BookEntry.positionId) st.entries,
      e.contract = k := by
  by_cases hbk : b.contract.storeKey = k
  · have hne : seeds st₀ st b ≠ [] := by
      rw [seeds, Ne, List.map_eq_nil_iff]
      exact shares_ne_nil _ _
    obtain ⟨e, he, hmem⟩ := @List.exists_mem_foldl_put _ _ _ BookEntry.positionId st.entries _ hne
    exact ⟨e, hmem, (contract_of_mem_seeds he).trans hbk⟩
  · rw [mem_heldKeys_snoc, or_iff_left fun h => hbk h.2] at hk
    obtain ⟨e, he, hek⟩ := h.full k hk
    have hnew := h.not_mem_seeds hf hrows hb he fun heq => hbk (heq.symm.trans hek)
    exact ⟨e, List.mem_foldl_put_of_mem he hnew, hek⟩

/-- An attributed contract has exactly the entries of its rows, by the last
position of it. -/
theorem BookKept.attributed_put (hf : FreshIds st₀ broker) {bs : List Position}
    (hrows : RowsKept st₀ broker st) (h : BookKept st₀ broker bs st) {b : Position}
    (hb : b ∈ broker) (hq : b.quantity ≠ 0) (hk : Attributed st₀ k) (e : BookEntry) :
    e ∈ (seeds st₀ st b).foldl (List.put BookEntry.positionId) st.entries ∧ e.contract = k
      ↔ ∃ b' row, lastHeld (bs ++ [b]) k = some b' ∧ row ∈ st₀.store.openRows k
        ∧ e = recovered st₀ b' row := by
  rw [lastHeld_snoc]
  by_cases hbk : b.contract.storeKey = k
  · subst hbk
    obtain ⟨hnodup, hseeds⟩ := hrows.mem_seeds hf hk
    rw [if_pos ⟨hq, rfl⟩]
    constructor
    · rintro ⟨he, hek⟩
      rcases List.mem_foldl_put he with he | ⟨he, hnew⟩
      · obtain ⟨row, hrow, rfl⟩ := (hseeds e).mp he
        exact ⟨b, row, rfl, hrow, rfl⟩
      · -- what was there of the contract has been overwritten
        obtain ⟨b', row, -, hrow, rfl⟩ := (h.attributed _ hk e).mp ⟨he, hek⟩
        exact absurd (List.mem_map_of_mem (f := (·.positionId))
          ((hseeds (recovered st₀ b row)).mpr ⟨row, hrow, rfl⟩)) hnew
    · rintro ⟨b', row, hb', hrow, rfl⟩
      obtain rfl := Option.some.inj hb'
      have hmem := (hseeds (recovered st₀ b row)).mpr ⟨row, hrow, rfl⟩
      exact ⟨List.mem_foldl_put_of_nodup hnodup hmem, rfl⟩
  · rw [if_neg fun hne => hbk hne.2, ← h.attributed k hk e]
    refine and_congr_left fun hek => ⟨fun he => ?_, fun he => ?_⟩
    · rcases List.mem_foldl_put he with he | ⟨he, -⟩
      · exact absurd ((contract_of_mem_seeds he).symm.trans hek) hbk
      · exact he
    · exact List.mem_foldl_put_of_mem he
        (h.not_mem_seeds hf hrows hb he fun heq => hbk (heq.symm.trans hek))

/-- **One more position of the broker is seeded.** -/
theorem BookKept.seedPosition (hf : FreshIds st₀ broker) {bs : List Position}
    (hrows : RowsKept st₀ broker st) (h : BookKept st₀ broker bs st) {b : Position}
    (hb : b ∈ broker) : BookKept st₀ broker (bs ++ [b]) (st.seedPosition env now b) := by
  -- a position without a quantity is not seeded
  by_cases hq : b.quantity = 0
  · exact h.seedPosition_flat hq
  obtain ⟨-, hentries⟩ := @seedPosition_kept env now st₀ st broker hf hrows b hb
  replace hentries := hentries hq
  constructor
  · exact opened_seedPosition h.opened
  · rw [hentries]
    exact List.nodup_foldl_put h.nodup
  · intro e he
    rw [hentries] at he
    rcases List.mem_foldl_put he with he | ⟨he, -⟩
    · exact (hrows.written_of_seeds hf hb he).owns
    · exact h.owned e he
  · intro e he
    rw [hentries] at he
    rw [mem_heldKeys_snoc]
    rcases List.mem_foldl_put he with he | ⟨he, -⟩
    · exact .inr ⟨hq, (contract_of_mem_seeds he).symm⟩
    · exact .inl (h.held e he)
  · intro e he
    rw [hentries] at he
    rcases List.mem_foldl_put he with he | ⟨he, -⟩
    · exact (configured_of_mem_seeds he).imp_left fun hid => ⟨b, hb, hid⟩
    · exact h.configured e he
  · intro k hk
    rw [hentries]
    exact h.full_put hf hrows hb hk
  · intro k hk e
    rw [hentries]
    exact h.attributed_put hf hrows hb hq hk e

/-- All positions of the broker are seeded: the rows. -/
theorem rowsKept_foldl (hf : FreshIds st₀ broker) {bs : List Position}
    (hbs : ∀ b ∈ bs, b ∈ broker) :
    RowsKept st₀ broker (bs.foldl (seedPosition env now) st₀) := by
  induction bs using List.reverseRecOn with
  | nil => exact rowsKept_refl st₀ broker
  | append_singleton bs b ih =>
    obtain ⟨hbs, hb⟩ := List.forall_mem_append.mp hbs
    rw [List.foldl_append, List.foldl_cons, List.foldl_nil]
    exact (seedPosition_kept hf (ih hbs) (hb b (List.mem_singleton_self b))).1

/-- And the book. -/
theorem bookKept_foldl (hf : FreshIds st₀ broker) (hempty : st₀.runner.pm.positions = [])
    {bs : List Position} (hbs : ∀ b ∈ bs, b ∈ broker) :
    BookKept st₀ broker bs (bs.foldl (seedPosition env now) st₀) := by
  induction bs using List.reverseRecOn with
  | nil => exact bookKept_refl hempty broker
  | append_singleton bs b ih =>
    obtain ⟨hbs, hb⟩ := List.forall_mem_append.mp hbs
    rw [List.foldl_append, List.foldl_cons, List.foldl_nil]
    exact (ih hbs).seedPosition hf (rowsKept_foldl hf hbs) (hb b (List.mem_singleton_self b))

/-! ## Recovering the book -/

/-- The net quantity of a contract at the broker. -/
def brokerNet (broker : List Position) (k : StoreKey) : ℤ :=
  ((broker.filter (·.contract.storeKey = k)).map Position.signed).sum

/-- **The open rows of every contract add up to what the broker has of
it.** -/
def Balanced (st₀ : Seeding) (broker : List Position) : Prop :=
  ∀ k, ((st₀.store.openRows k).map fun row => row.entry.signed).sum = brokerNet broker k

/-- The open rows of the contracts that the broker holds. -/
def heldRows (st₀ : Seeding) (broker : List Position) : List Attribution :=
  st₀.store.rows.filter fun row => row.isOpen && row.key ∈ heldKeys broker

/-- **The book is recovered**: there is exactly one open position for each
open row of a contract the broker holds, with the row's own id, strategy,
side and quantity, and they add up to what the broker has. -/
structure Recovers (st₀ st : Seeding) (broker : List Position) : Prop where
  rows : (st.runner.pm.getOpenPositions.map Position.entry).Perm
    ((st₀.heldRows broker).map Attribution.entry)
  nets : ∀ k ∈ heldKeys broker,
    ((st.runner.pm.getOpenPositions.filter (·.contract.storeKey = k)).map Position.signed).sum
      = brokerNet broker k

/-- **The book can be recovered**: for every contract the broker holds there
are rows, they name configured strategies and have the side of the broker's
last position of the contract, and a single one has also its quantity. -/
def Recoverable (st₀ : Seeding) (broker : List Position) : Prop :=
  ∀ k b, lastHeld broker k = some b → st₀.store.openRows k ≠ []
    ∧ ∀ row ∈ st₀.store.openRows k, (st₀.runner.config row.strategyId).isSome = true
      ∧ row.side = b.side
      ∧ ((st₀.store.openRows k).length = 1 → row.quantity = b.quantity)

/-- Only the contracts that occur need to be looked at. -/
theorem balanced_iff : Balanced st₀ broker
    ↔ ∀ k ∈ st₀.store.rows.map Attribution.key ++ broker.map (·.contract.storeKey),
      ((st₀.store.openRows k).map fun row => row.entry.signed).sum = brokerNet broker k := by
  refine ⟨fun h k _ => h k, fun h k => ?_⟩
  by_cases hk : k ∈ st₀.store.rows.map Attribution.key ++ broker.map (·.contract.storeKey)
  · exact h k hk
  · rw [List.mem_append, not_or] at hk
    have hrows : st₀.store.openRows k = [] := List.filter_eq_nil_iff.mpr fun row hrow hopen =>
      hk.1 (List.mem_map.mpr ⟨row, hrow, (Bool.and_eq_true_iff.mp hopen).2 |> of_decide_eq_true⟩)
    have hbroker : broker.filter (·.contract.storeKey = k) = [] :=
      List.filter_eq_nil_iff.mpr fun b hb hkey =>
        hk.2 (List.mem_map.mpr ⟨b, hb, of_decide_eq_true hkey⟩)
    rw [brokerNet, hrows, hbroker]
    rfl

instance : Decidable (Balanced st₀ broker) := decidable_of_iff _ balanced_iff.symm

theorem recoverable_iff : Recoverable st₀ broker
    ↔ ∀ k ∈ heldKeys broker, ∀ b ∈ lastHeld broker k, st₀.store.openRows k ≠ []
      ∧ ∀ row ∈ st₀.store.openRows k, (st₀.runner.config row.strategyId).isSome = true
        ∧ row.side = b.side
        ∧ ((st₀.store.openRows k).length = 1 → row.quantity = b.quantity) :=
  ⟨fun h k _ b hb => h k b hb, fun h k b hb => h k (mem_heldKeys_iff.mpr ⟨b, hb⟩) b hb⟩

instance : Decidable (Recoverable st₀ broker) := decidable_of_iff _ recoverable_iff.symm

theorem mem_heldRows {row : Attribution} : row ∈ st₀.heldRows broker
    ↔ row ∈ st₀.store.openRows row.key ∧ row.key ∈ heldKeys broker := by
  simp [heldRows, PositionStore.openRows, and_assoc]

theorem runner_seedPositionsFromBroker :
    (st₀.seedPositionsFromBroker env now (some broker)).runner
      = (broker.foldl (seedPosition env now) st₀).runner := by
  cases broker <;> rfl

/-- The positions of the book are all open, so its entries are those of the
open ones. -/
theorem BookKept.entries_eq {bs : List Position} (h : BookKept st₀ broker bs st) :
    st.runner.pm.getOpenPositions = st.runner.pm.positions :=
  List.filter_eq_self.mpr fun pos hpos => by rw [h.opened pos hpos]; rfl

/-- Row by row recovery adds up. -/
theorem nets_of_rows (hbalanced : Balanced st₀ broker)
    (hperm : (st.runner.pm.getOpenPositions.map Position.entry).Perm
      ((st₀.heldRows broker).map Attribution.entry)) (hk : k ∈ heldKeys broker) :
    ((st.runner.pm.getOpenPositions.filter (·.contract.storeKey = k)).map Position.signed).sum
      = brokerNet broker k := by
  rw [← hbalanced k]
  have hpos : (st.runner.pm.getOpenPositions.filter (·.contract.storeKey = k)).map
      Position.signed = ((st.runner.pm.getOpenPositions.map Position.entry).filter
        (·.contract = k)).map BookEntry.signed := by
    rw [List.filter_map, List.map_map]
    rfl
  have hrows : (st₀.store.openRows k).map (fun row => row.entry.signed)
      = (((st₀.heldRows broker).map Attribution.entry).filter
        (·.contract = k)).map BookEntry.signed := by
    rw [List.filter_map, List.map_map, heldRows, List.filter_filter, PositionStore.openRows]
    refine congrArg _ (List.filter_congr fun row _ => ?_)
    show (row.isOpen && decide (row.key = k))
      = (decide (row.key = k) && (row.isOpen && decide (row.key ∈ heldKeys broker)))
    by_cases hrk : row.key = k
    · subst hrk
      simp [hk]
    · simp [hrk]
  rw [hpos, hrows]
  exact ((hperm.filter _).map _).sum_eq

/-- The held rows are different entries. -/
theorem nodup_entries_heldRows : ((st₀.heldRows broker).map Attribution.entry).Nodup := by
  refine List.Nodup.of_map (·.positionId) ?_
  rw [List.map_map]
  exact st₀.store.nodup.sublist (List.filter_sublist.map _)

theorem Recoverable.attributed (h : Recoverable st₀ broker) {b : Position}
    (hlast : lastHeld broker k = some b) : Attributed st₀ k :=
  ⟨(h k b hlast).1, fun row hrow => ((h k b hlast).2 row hrow).1⟩

/-- Where the book can be recovered a row is recovered as it is. -/
theorem Recoverable.recovered_eq (h : Recoverable st₀ broker) {b : Position}
    (hlast : lastHeld broker k = some b) {row : Attribution}
    (hrow : row ∈ st₀.store.openRows k) : recovered st₀ b row = row.entry := by
  obtain ⟨-, hside, hq⟩ := (h k b hlast).2 row hrow
  have hkey := (PositionStore.mem_openRows.mp hrow).2.2
  rw [recovered, lastHeld_contract hlast, ← hside, ← hkey, Attribution.entry]
  split_ifs with hlen
  · rw [hq (hkey ▸ hlen)]
  · rfl

/-- So the entries of the book are those of the held rows. -/
theorem BookKept.perm_of_recoverable (hbook : BookKept st₀ broker broker st)
    (h : Recoverable st₀ broker) :
    st.entries.Perm ((st₀.heldRows broker).map Attribution.entry) := by
  refine (List.perm_ext_iff_of_nodup (hbook.nodup.of_map _) nodup_entries_heldRows).mpr
    fun e => ?_
  rw [List.mem_map]
  constructor
  · intro he
    obtain ⟨b, hlast⟩ := mem_heldKeys_iff.mp (hbook.held e he)
    obtain ⟨b', row, hb', hrow, rfl⟩ :=
      (hbook.attributed _ (h.attributed hlast) e).mp ⟨he, rfl⟩
    have hkey := (PositionStore.mem_openRows.mp hrow).2.2
    refine ⟨row, mem_heldRows.mpr (hkey.symm ▸ ⟨hrow, hbook.held _ he⟩), ?_⟩
    exact (h.recovered_eq hb' hrow).symm
  · rintro ⟨row, hrow, rfl⟩
    obtain ⟨hmem, hk⟩ := mem_heldRows.mp hrow
    obtain ⟨b, hlast⟩ := mem_heldKeys_iff.mp hk
    exact ((hbook.attributed _ (h.attributed hlast) row.entry).mpr
      ⟨b, row, hlast, hmem, (h.recovered_eq hlast hmem).symm⟩).1

/-- And where they are, it could be recovered. -/
theorem BookKept.recoverable_of_perm (hf : FreshIds st₀ broker)
    (hbook : BookKept st₀ broker broker st)
    (hperm : st.entries.Perm ((st₀.heldRows broker).map Attribution.entry)) :
    Recoverable st₀ broker := by
  intro k b hlast
  have hk : k ∈ heldKeys broker := mem_heldKeys_iff.mpr ⟨b, hlast⟩
  have hmem : ∀ row ∈ st₀.store.openRows k, row.entry ∈ st.entries := fun row hrow => by
    have hkey := (PositionStore.mem_openRows.mp hrow).2.2
    exact hperm.symm.subset (List.mem_map_of_mem (mem_heldRows.mpr (hkey.symm ▸ ⟨hrow, hk⟩)))
  have hconf : ∀ row ∈ st₀.store.openRows k,
      (st₀.runner.config row.strategyId).isSome = true := fun row hrow =>
    (hbook.configured _ (hmem row hrow)).resolve_left fun ⟨b, hb, hid⟩ =>
      hf.unused b hb row (PositionStore.mem_openRows.mp hrow).1 hid.symm
  -- a key that is held has an entry, and every entry is one of a row
  have hne : st₀.store.openRows k ≠ [] := fun hnil => by
    obtain ⟨e, he, hek⟩ := hbook.full k hk
    obtain ⟨row, hrow, rfl⟩ := List.mem_map.mp (hperm.subset he)
    have hrow := (mem_heldRows.mp hrow).1
    rw [show row.key = k from hek, hnil] at hrow
    cases hrow
  refine ⟨hne, fun row hrow => ?_⟩
  have hkey := (PositionStore.mem_openRows.mp hrow).2.2
  obtain ⟨b', row', hb', hrow', heq⟩ :=
    (hbook.attributed k ⟨hne, hconf⟩ row.entry).mp ⟨hmem row hrow, hkey⟩
  obtain rfl := Option.some.inj (hlast.symm.trans hb')
  have hid : row.positionId = row'.positionId := congrArg BookEntry.positionId heq
  obtain rfl := PositionStore.eq_of_positionId (PositionStore.mem_openRows.mp hrow).1
    (PositionStore.mem_openRows.mp hrow').1 hid
  refine ⟨hconf row hrow, congrArg BookEntry.side heq, fun hlen => ?_⟩
  have hq : row.quantity = _ := congrArg BookEntry.quantity heq
  rw [recovered, lastHeld_contract hlast, if_pos hlen] at hq
  exact hq

/-- **The book is recovered exactly when it can be.** -/
theorem recovers_iff_recoverable (env : RunnerEnv) (now : Time) {st₀ : Seeding}
    {broker : List Position} (hempty : st₀.runner.pm.positions = [])
    (hf : FreshIds st₀ broker) (hbalanced : Balanced st₀ broker) :
    Recovers st₀ (st₀.seedPositionsFromBroker env now (some broker)) broker
      ↔ Recoverable st₀ broker := by
  have hbook := @bookKept_foldl env now st₀ broker hf hempty broker fun _ h => h
  have hentries : (st₀.seedPositionsFromBroker env now (some broker)).runner.pm.getOpenPositions.map
      Position.entry = (broker.foldl (seedPosition env now) st₀).entries := by
    rw [runner_seedPositionsFromBroker, hbook.entries_eq]
    rfl
  constructor
  · intro h
    exact hbook.recoverable_of_perm hf (hentries ▸ h.rows)
  · intro h
    have hrows := hentries.symm ▸ hbook.perm_of_recoverable h
    exact ⟨hrows, fun k hk => nets_of_rows hbalanced hrows hk⟩

/-- A runner that knows two strategies, after a restart. -/
def sampleSeeding (rows : List Attribution)
    (h : (rows.map (·.positionId)).Nodup) : Seeding where
  runner := .initial { sampleStartup with
    strategyConfigs := [{ strategyId := "orb" }, { strategyId := "straddle" }] }
  store := ⟨rows, h⟩

/-- An open row of the sample contract. -/
def sampleRow (pid : PositionId) (sid : StrategyId) (side : OrderSide) (quantity : ℕ) :
    Attribution where
  positionId := pid
  strategyId := sid
  symbol := "SPX"
  expiry := "20260612"
  strike := 6000
  right := "CALL"
  side := side
  quantity := quantity
  avgEntryPrice := 1
  status := "OPEN"
  updatedAt := 0

/-- A position of the broker in the sample contract. -/
def sampleHolding (pid : PositionId) (side : OrderSide) (quantity : ℕ) : Position where
  positionId := pid
  strategyId := "unknown"
  contract := sampleContract
  side := side
  quantity := quantity
  filledQuantity := 0
  averageEntryPrice := 1
  status := .opened
  entryOrderId := 0
  createdAt := 0
  updatedAt := 0

/-- Two strategies that have bought two contracts each get them back. -/
theorem recovers_twoStrategies :
    Recovers (sampleSeeding [sampleRow 0 "orb" .buy 2, sampleRow 1 "straddle" .buy 2] (by decide))
      ((sampleSeeding [sampleRow 0 "orb" .buy 2, sampleRow 1 "straddle" .buy 2]
        (by decide)).seedPositionsFromBroker sampleEnv 0 (some [sampleHolding 2 .buy 4]))
      [sampleHolding 2 .buy 4] :=
  (recovers_iff_recoverable sampleEnv 0 rfl ⟨by decide, by decide +kernel⟩
    (by decide +kernel)).mpr (by decide +kernel)

/-- The book is not always recovered: where one strategy has bought three
contracts and another has sold one, both are seeded as bought. -/
theorem not_recovers : ¬ ∀ (st₀ : Seeding) (broker : List Position),
    st₀.runner.pm.positions = [] → FreshIds st₀ broker → Balanced st₀ broker →
      Recovers st₀ (st₀.seedPositionsFromBroker sampleEnv 0 (some broker)) broker := by
  intro h
  have hrows := (h (sampleSeeding [sampleRow 0 "orb" .buy 3, sampleRow 1 "straddle" .sell 1]
    (by decide)) [sampleHolding 2 .buy 2] rfl ⟨by decide, by decide +kernel⟩
    (by decide +kernel)).rows
  exact absurd hrows (by decide +kernel)

end Seeding
