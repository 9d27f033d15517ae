import ExecutionSystem.Reconciliation
import ExecutionSystem.Seeding

/-!
# Flat rows of the broker

`get_positions` of `src/broker/ibkr_broker.py`, which turns the portfolio
rows of the gateway into positions, and the two that call it: `reconcile`
and `_seed_positions_from_broker`. The gateway goes on to report a row of
quantity 0 for a contract after its position is closed.

Both callers skip positions of quantity 0, so that such a position would
change nothing (`reconcile_filter_counted`, `seeded_filter_held`). But they
do not see one: the validators of a position refuse the quantity 0, and
`get_positions` raises for all rows because of the one.
-/

/-- What `_from_ib_contract` reads of a contract of the gateway. -/
structure IBContract where
  symbol : String
  lastTradeDateOrContractMonth : String
  strike : Price
  right : String

/-- `_from_ib_contract`; `none` where a validator of the contract raises. -/
def IBContract.toOptionContract (c : IBContract) : Option OptionContract :=
  if h : c.symbol ≠ "" ∧ (c.lastTradeDateOrContractMonth.length = 8
      ∧ c.lastTradeDateOrContractMonth.toList.all Char.isDigit) ∧ 0 < c.strike then
    some
      { symbol := c.symbol
        expiry := c.lastTradeDateOrContractMonth
        strike := c.strike
        right := if c.right.toUpper.startsWith "C" then .call else .put
        strike_pos := h.2.2
        multiplier_pos := Nat.succ_pos 99 }
  else none

/-- A portfolio row of the gateway. -/
structure IBPosition where
  contract : IBContract
  position : ℤ
  avgCost : ℚ

/-- **One row as a position**, with the ids made up for it; `none` where a
validator raises: a position has a positive quantity and a positive
average price. -/
def IBPosition.toPosition (row : IBPosition) (positionId : PositionId)
    (entryOrderId : OrderId) (now : Time) : Option Position :=
  row.contract.toOptionContract.bind fun contract =>
    let avgPrice := row.avgCost / contract.multiplier
    if 0 < row.position.natAbs ∧ 0 < avgPrice then
      some
        { positionId := positionId
          strategyId := "unknown"
          contract := contract
          side := if 0 < row.position then .buy else .sell
          quantity := row.position.natAbs
          filledQuantity := 0
          averageEntryPrice := avgPrice
          status := .opened
          entryOrderId := entryOrderId
          createdAt := now
          updatedAt := now }
    else none

/-- **`get_positions`**, with a supply of fresh ids; `none` where it
raises. -/
def getPositions (connected : Bool) (uuid : ℕ → ℕ) (now : Time) (rows : List IBPosition) :
    Option (List Position) :=
  if connected then
    rows.zipIdx.mapM fun row => row.1.toPosition (uuid (2 * row.2)) (uuid (2 * row.2 + 1)) now
  else none

/-- `reconcile` with what `get_positions` returned; where that raised, so
does `reconcile`. -/
def reconcileFetched (internal : List Position) (orders : List OrderState)
    (openOrders : List OrderId) (locked : Bool) (fetched : Option (List Position))
    (brokerOrders : List WorkingOrder) : Option (ReconciliationReport × Bool) :=
  fetched.map fun broker =>
    reconcile internal orders openOrders locked (broker.map Position.holding) brokerOrders

/-- The rows that are not flat. -/
def heldRows (rows : List IBPosition) : List IBPosition := rows.filter (·.position ≠ 0)

/-! ## The callers skip flat positions -/

section Callers

variable {internal : List Position} {orders : List OrderState} {openOrders : List OrderId}
  {locked : Bool} {brokerOrders : List WorkingOrder} {env : RunnerEnv} {now : Time}

theorem countedHoldings_countedHoldings (hs : List Holding) :
    countedHoldings (countedHoldings hs) = countedHoldings hs := by
  unfold countedHoldings
  rw [List.filter_filter]
  simp only [Bool.and_self]

/-- **Flat positions of the broker change no report.** -/
theorem reconcile_filter_counted (hs : List Holding) :
    reconcile internal orders openOrders locked (countedHoldings hs) brokerOrders
      = reconcile internal orders openOrders locked hs brokerOrders := by
  have hnet : netHolding (countedHoldings hs) = netHolding hs := by
    funext k
    unfold netHolding
    rw [countedHoldings_countedHoldings]
  have hheld : heldContracts (internal.map Position.holding) (countedHoldings hs)
      = heldContracts (internal.map Position.holding) hs := by
    unfold heldContracts
    rw [countedHoldings_countedHoldings]
  have hcompare : comparePosition internal (countedHoldings hs) = comparePosition internal hs := by
    funext k
    unfold comparePosition
    rw [hnet]
  unfold reconcile comparePositions
  rw [hheld, hcompare]

/-- **Flat positions of the broker seed nothing.** -/
theorem seeded_filter_held (st : Seeding) (broker : List Position) :
    (st.seedPositionsFromBroker env now (some (broker.filter (·.quantity ≠ 0)))).runner
      = (st.seedPositionsFromBroker env now (some broker)).runner := by
  have hrunner : ∀ bs : List Position,
      (st.seedPositionsFromBroker env now (some bs)).runner
        = (bs.foldl (Seeding.seedPosition env now) st).runner := by
    intro bs
    cases bs <;> rfl
  have hskip : ∀ st : Seeding, (broker.filter (·.quantity ≠ 0)).foldl
      (Seeding.seedPosition env now) st = broker.foldl (Seeding.seedPosition env now) st := by
    intro st
    induction broker generalizing st with
    | nil => rfl
    | cons b bs ih =>
      by_cases hb : b.quantity = 0
      · have hst : st.seedPosition env now b = st := if_pos hb
        rw [List.filter_cons_of_neg (by simp [hb]), ih, List.foldl_cons, hst]
      · rw [List.filter_cons_of_pos (by simp [hb]), List.foldl_cons, List.foldl_cons, ih]
  rw [hrunner, hrunner, hskip]

end Callers

/-! ## What `get_positions` returns -/

/-- A row is refused exactly if its contract is, if it is flat or if it
has cost nothing. -/
theorem IBPosition.toPosition_isSome {row : IBPosition} {pid : PositionId} {oid : OrderId}
    {now : Time} : (row.toPosition pid oid now).isSome = true
      ↔ row.contract.toOptionContract.isSome = true ∧ row.position ≠ 0 ∧ 0 < row.avgCost := by
  unfold toPosition
  cases hc : row.contract.toOptionContract with
  | none => simp
  | some contract =>
    have hmult : (0 : ℚ) < contract.multiplier := Nat.cast_pos.mpr contract.multiplier_pos
    have hiff : 0 < row.position.natAbs ∧ 0 < row.avgCost / contract.multiplier
        ↔ row.position ≠ 0 ∧ 0 < row.avgCost := by
      rw [Int.natAbs_pos, lt_div_iff₀ hmult, zero_mul]
    rw [← hiff, Option.bind_some, Option.isSome_some]
    dsimp only
    by_cases h : 0 < row.position.natAbs ∧ 0 < row.avgCost / contract.multiplier
    · rw [if_pos h]
      exact iff_of_true rfl ⟨rfl, h⟩
    · rw [if_neg h]
      exact iff_of_false Bool.false_ne_true fun hall => h hall.2

/-- `get_positions` returns exactly if it is connected and no row is
refused. -/
theorem getPositions_isSome {connected : Bool} {uuid : ℕ → ℕ} {now : Time}
    {rows : List IBPosition} : (getPositions connected uuid now rows).isSome = true
      ↔ connected = true ∧ ∀ row ∈ rows, row.contract.toOptionContract.isSome = true
        ∧ row.position ≠ 0 ∧ 0 < row.avgCost := by
  cases connected with
  | false => simp [getPositions]
  | true =>
    unfold getPositions
    rw [if_pos rfl, List.isSome_mapM]
    simp only [IBPosition.toPosition_isSome, true_and]
    constructor
    · intro h row hrow
      obtain ⟨i, hi⟩ := List.mem_iff_getElem?.mp hrow
      exact h (row, i) (List.mem_zipIdx_iff_getElem?.mpr hi)
    · exact fun h row hrow => h row.1 (List.mem_of_getElem? (List.mem_zipIdx_iff_getElem?.mp hrow))

/-! ## Flat rows are not neutral -/

/-- **The flat rows change nothing**: neither the report nor the positions
that are seeded. -/
def FlatRowsNeutral (connected : Bool) (rows : List IBPosition) : Prop :=
  ∀ (uuid : ℕ → ℕ) (now : Time) (internal : List Position) (orders : List OrderState)
    (openOrders : List OrderId) (locked : Bool) (brokerOrders : List WorkingOrder)
    (env : RunnerEnv) (st : Seeding),
    reconcileFetched internal orders openOrders locked (getPositions connected uuid now rows)
        brokerOrders
      = reconcileFetched internal orders openOrders locked
        (getPositions connected uuid now (heldRows rows)) brokerOrders
    ∧ (st.seedPositionsFromBroker env now (getPositions connected uuid now rows)).runner.pm
      = (st.seedPositionsFromBroker env now
        (getPositions connected uuid now (heldRows rows))).runner.pm

/-- **No row is flat**, unless `get_positions` raises in any case: it is not
connected, or a contract that is held is none it can read. -/
def NoFlatRow (connected : Bool) (rows : List IBPosition) : Prop :=
  (∀ row ∈ rows, row.position ≠ 0) ∨ connected = false
    ∨ ∃ row ∈ heldRows rows, row.contract.toOptionContract = none

/-- **Flat rows are neutral exactly where there are none.** -/
theorem flatRowsNeutral_iff_noFlatRow {connected : Bool} {rows : List IBPosition}
    (hcost : ∀ row ∈ rows, row.position ≠ 0 → 0 < row.avgCost) :
    FlatRowsNeutral connected rows ↔ NoFlatRow connected rows := by
  constructor
  · intro h
    obtain ⟨hreport, -⟩ := h id 0 [] [] [] false [] sampleEnv
      ⟨.initial sampleStartup, ⟨[], List.nodup_nil⟩⟩
    have hfetch := congrArg Option.isSome hreport
    simp only [reconcileFetched, Option.isSome_map] at hfetch
    rw [NoFlatRow, or_iff_not_imp_right, not_or, not_exists]
    rintro ⟨hconn, hread⟩
    have hheld : (getPositions connected id 0 (heldRows rows)).isSome = true := by
      rw [getPositions_isSome]
      refine ⟨Bool.eq_true_of_not_eq_false hconn, fun row hrow => ?_⟩
      obtain ⟨hmem, hne⟩ := List.mem_filter.mp hrow
      have hne : row.position ≠ 0 := of_decide_eq_true hne
      exact ⟨Option.isSome_iff_ne_none.mpr fun hc => hread row ⟨hrow, hc⟩, hne, hcost row hmem hne⟩
    exact fun row hrow => ((getPositions_isSome.mp (hfetch.trans hheld)).2 row hrow).2.1
  · intro h uuid now internal orders openOrders locked brokerOrders env st
    have hfetch : getPositions connected uuid now rows
        = getPositions connected uuid now (heldRows rows) := by
      rcases h with hflat | hconn | ⟨row, hrow, hc⟩
      · rw [heldRows, List.filter_eq_self.mpr fun row hrow => decide_eq_true (hflat row hrow)]
      · subst hconn
        rfl
      · -- a contract that cannot be read makes `get_positions` raise for both
        have hraises : ∀ rows', row ∈ rows' → getPositions connected uuid now rows' = none := by
          intro rows' hrow'
          rw [← Option.not_isSome_iff_eq_none, getPositions_isSome]
          rintro ⟨-, hall⟩
          have hsome := (hall row hrow').1
          rw [hc] at hsome
          cases hsome
        rw [hraises _ hrow, hraises _ (List.mem_filter.mp hrow).1]
    rw [hfetch]
    exact ⟨rfl, rfl⟩

/-- The sample contract as the gateway has it. -/
def sampleIBContract : IBContract where
  symbol := "SPX"
  lastTradeDateOrContractMonth := "20260612"
  strike := 6000
  right := "C"

/-- Two contracts held of it are reported with no flat row beside them. -/
theorem flatRowsNeutral_heldRow : FlatRowsNeutral true [⟨sampleIBContract, 2, 258⟩] :=
  (flatRowsNeutral_iff_noFlatRow (by decide)).mpr (.inl (by decide))

/-- Flat rows are not always neutral: one row of quantity 0 beside the two
contracts held, and neither is reported. -/
theorem not_flatRowsNeutral : ¬ ∀ (connected : Bool) (rows : List IBPosition),
    (∀ row ∈ rows, row.position ≠ 0 → 0 < row.avgCost) → FlatRowsNeutral connected rows := by
  intro h
  obtain ⟨hreport, -⟩ := h true [⟨sampleIBContract, 2, 258⟩, ⟨sampleIBContract, 0, 0⟩] (by decide)
    id 0 [] [] [] false [] sampleEnv ⟨.initial sampleStartup, ⟨[], List.nodup_nil⟩⟩
  exact absurd (congrArg Option.isSome hreport) (by decide +kernel)
