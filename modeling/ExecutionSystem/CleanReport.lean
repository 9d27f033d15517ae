import ExecutionSystem.Reconciliation

/-!
# What a clean report means

A report is put together from three passes: the positions contract by
contract, the broker's orders against the internal ones, and the internal
orders that the broker does not have. It is clean exactly when the nets of
every contract agree and the orders correspond one to one; and the system
is locked exactly when a contract is held internally and the broker's net
of it is another.
-/

variable {internal : List Position} {orders : List OrderState} {openOrders : List OrderId}
  {locked : Bool} {holdings : List Holding} {brokerOrders : List WorkingOrder}
  {k : ContractKey}

/-- An internal and a broker order of the same id are the same order: same
contract, side and quantity, and limits within a tick of each other. -/
structure SameOrder (x : OrderState) (order : WorkingOrder) : Prop where
  contract : x.contract.key = order.contract.key
  side : x.side = order.side
  quantity : x.quantity = order.quantity
  limit : |x.limitPrice - order.limitPrice| ≤ 501 / 10000

/-- **The orders with broker ids correspond one to one.** -/
structure OneToOne (orders : List OrderState) (openOrders : List OrderId)
    (brokerOrders : List WorkingOrder) : Prop where
  internal : ∀ o ∈ openOrders, ∀ x b, orders[o]? = some x → x.brokerOrderId = some b →
    ∃! order, order ∈ brokerOrders ∧ order.brokerOrderId = some b ∧ SameOrder x order
  broker : ∀ order ∈ brokerOrders, ∀ b, order.brokerOrderId = some b →
    ∃! o, o ∈ openOrders ∧ ∃ x, orders[o]? = some x ∧ x.brokerOrderId = some b
      ∧ SameOrder x order

/-- The broker id of an internal order. -/
abbrev brokerIdOf (orders : List OrderState) (o : OrderId) : Option BrokerOrderId :=
  orders[o]?.bind (·.brokerOrderId)

theorem sameOrder_iff {x : OrderState} {order : WorkingOrder} :
    sameOrder x order = true ↔ SameOrder x order := by
  rw [sameOrder, decide_eq_true_eq]
  exact ⟨fun ⟨hc, hs, hq, hl⟩ => ⟨hc, hs, hq, hl⟩,
    fun h => ⟨h.contract, h.side, h.quantity, h.limit⟩⟩

theorem brokerIdOf_eq_some {o : OrderId} {b : BrokerOrderId} :
    brokerIdOf orders o = some b ↔ ∃ x, orders[o]? = some x ∧ x.brokerOrderId = some b :=
  Option.bind_eq_some_iff

/-! ## Positions -/

/-- A contract that neither side holds has no net. -/
theorem netHolding_of_not_held {hs : List Holding}
    (hk : k ∉ (countedHoldings hs).map (·.contract.key)) : netHolding hs k = 0 := by
  have hnil : (countedHoldings hs).filter (·.contract.key = k) = [] :=
    List.filter_eq_nil_iff.mpr fun h hh hkey =>
      hk (List.mem_map.mpr ⟨h, hh, of_decide_eq_true hkey⟩)
  rw [netHolding, hnil]
  rfl

/-- Contracts whose nets differ are looked at. -/
theorem mem_heldContracts {is : List Holding} (h : netHolding is k ≠ netHolding holdings k) :
    k ∈ heldContracts is holdings := by
  rw [heldContracts, List.mem_eraseDups, List.map_append, List.mem_append]
  by_contra hk
  rw [not_or] at hk
  exact h ((netHolding_of_not_held hk.1).trans (netHolding_of_not_held hk.2).symm)

theorem comparePosition_eq_none : comparePosition internal holdings k = none
    ↔ netHolding (internal.map Position.holding) k = netHolding holdings k := by
  unfold comparePosition
  dsimp only
  split_ifs with heq <;> simp [heq]

/-- The contract whose positions differ. -/
def Mismatch.positionContract : Mismatch → Option ContractKey
  | internalOnlyPosition k .. | brokerOnlyPosition k _ | positionQuantityMismatch k .. => some k
  | _ => none

/-- What is found in a contract names it. -/
theorem positionContract_of_comparePosition {m : Mismatch}
    (h : comparePosition internal holdings k = some m) : m.positionContract = some k := by
  unfold comparePosition at h
  dsimp only at h
  split_ifs at h <;> obtain rfl := Option.some.inj h <;> rfl

/-- **Nothing is reported twice.** -/
theorem comparePositions_details_nodup (internal : List Position) (holdings : List Holding) :
    (comparePositions internal holdings).details.Nodup := by
  refine List.Nodup.filterMap (fun k k' m hk hk' => ?_) (List.nodup_eraseDups _)
  exact Option.some.inj ((positionContract_of_comparePosition hk).symm.trans
    (positionContract_of_comparePosition hk'))

/-- A contract is a severe discrepancy if it is held internally and the
broker's net is another. -/
theorem comparePosition_severe : (comparePosition internal holdings k).any Mismatch.severe = true
    ↔ netHolding (internal.map Position.holding) k ≠ 0
      ∧ netHolding (internal.map Position.holding) k ≠ netHolding holdings k := by
  unfold comparePosition
  dsimp only
  split_ifs with heq hinternal hbroker
  · simp [heq]
  · simp [Mismatch.severe, hinternal.1, heq]
  · simp [Mismatch.severe, hbroker.2]
  · simp only [Option.any_some, Mismatch.severe, true_iff]
    refine ⟨fun hzero => hbroker ⟨fun hb => heq (hzero.trans hb.symm), hzero⟩, heq⟩

/-- The positions agree exactly when all nets do. -/
theorem comparePositions_details_eq_nil : (comparePositions internal holdings).details = []
    ↔ ∀ k, netHolding (internal.map Position.holding) k = netHolding holdings k := by
  show (heldContracts _ _).filterMap _ = [] ↔ _
  rw [List.filterMap_eq_nil_iff]
  constructor
  · intro h k
    by_contra hne
    exact hne (comparePosition_eq_none.mp (h k (mem_heldContracts hne)))
  · exact fun h k _ => comparePosition_eq_none.mpr (h k)

theorem comparePositions_severe : (comparePositions internal holdings).severe = true
    ↔ ∃ k, netHolding (internal.map Position.holding) k ≠ 0
      ∧ netHolding (internal.map Position.holding) k ≠ netHolding holdings k := by
  show ((heldContracts _ _).filterMap _).any Mismatch.severe = true ↔ _
  rw [List.any_filterMap, List.any_eq_true]
  constructor
  · rintro ⟨k, -, hk⟩
    exact ⟨k, comparePosition_severe.mp hk⟩
  · rintro ⟨k, hk⟩
    exact ⟨k, mem_heldContracts hk.2, comparePosition_severe.mpr hk⟩

/-! ## Orders -/

/-- What the index finds is an open order with the id. -/
theorem indexOrders_eq_some {b : BrokerOrderId} {o : OrderId}
    (h : indexOrders orders openOrders b = some o) :
    o ∈ openOrders ∧ brokerIdOf orders o = some b := by
  unfold indexOrders at h
  exact ⟨List.mem_reverse.mp (List.mem_of_find?_eq_some h), by simpa using List.find?_some h⟩

theorem indexOrders_isSome {b : BrokerOrderId} {o : OrderId} (ho : o ∈ openOrders)
    (hb : brokerIdOf orders o = some b) : ∃ o', indexOrders orders openOrders b = some o' := by
  rw [← Option.isSome_iff_exists, indexOrders, List.find?_isSome]
  exact ⟨o, List.mem_reverse.mpr ho, decide_eq_true hb⟩

/-- A broker order raises nothing exactly when an open order of its id is
the same. -/
theorem compareOrder_eq_none (hinternal : (openOrders.filterMap (brokerIdOf orders)).Nodup)
    {order : WorkingOrder} {b : BrokerOrderId} (hb : order.brokerOrderId = some b) :
    compareOrder orders (indexOrders orders openOrders) order = none
      ↔ ∃ o ∈ openOrders, ∃ x, orders[o]? = some x ∧ x.brokerOrderId = some b
        ∧ SameOrder x order := by
  rw [compareOrder, hb, Option.bind_some]
  cases hindex : indexOrders orders openOrders b with
  | none =>
    refine iff_of_false (fun h => by cases h) ?_
    rintro ⟨o, ho, x, hx, hxb, -⟩
    obtain ⟨o', ho'⟩ := indexOrders_isSome ho (brokerIdOf_eq_some.mpr ⟨x, hx, hxb⟩)
    rw [hindex] at ho'
    cases ho'
  | some o =>
    obtain ⟨ho, hob⟩ := indexOrders_eq_some hindex
    obtain ⟨x, hx, hxb⟩ := brokerIdOf_eq_some.mp hob
    show (if orders[o]?.any (sameOrder · order) then none else some _) = none ↔ _
    rw [hx, Option.any_some]
    constructor
    · intro h
      by_cases hsame : sameOrder x order = true
      · exact ⟨o, ho, x, hx, hxb, sameOrder_iff.mp hsame⟩
      · rw [if_neg hsame] at h
        cases h
    · rintro ⟨o', ho', x', hx', hxb', hsame⟩
      obtain rfl := List.eq_of_filterMap_nodup hinternal ho ho' hob
        (brokerIdOf_eq_some.mpr ⟨x', hx', hxb'⟩)
      obtain rfl := Option.some.inj (hx.symm.trans hx')
      exact if_pos (sameOrder_iff.mpr hsame)

/-- An internal order raises nothing exactly when the broker has one of its
id. -/
theorem missingAtBroker_eq_none {o : OrderId} {b : BrokerOrderId}
    (hb : brokerIdOf orders o = some b) :
    missingAtBroker orders brokerOrders o = none
      ↔ ∃ order ∈ brokerOrders, order.brokerOrderId = some b := by
  have hany : brokerOrders.any (·.brokerOrderId = some b) = true
      ↔ ∃ order ∈ brokerOrders, order.brokerOrderId = some b := by simp
  show (brokerIdOf orders o).bind _ = none ↔ _
  rw [hb, Option.bind_some, ← hany]
  split_ifs with h <;> simp [h]

/-- **The orders raise nothing exactly when they correspond one to one.** -/
theorem orders_clean_iff (hinternal : (openOrders.filterMap (brokerIdOf orders)).Nodup)
    (hbroker : (brokerOrders.filterMap (·.brokerOrderId)).Nodup) :
    brokerOrders.filterMap (compareOrder orders (indexOrders orders openOrders)) = []
        ∧ openOrders.filterMap (missingAtBroker orders brokerOrders) = []
      ↔ OneToOne orders openOrders brokerOrders := by
  rw [List.filterMap_eq_nil_iff, List.filterMap_eq_nil_iff]
  constructor
  · rintro ⟨hcompare, hmissing⟩
    have hfound : ∀ order ∈ brokerOrders, ∀ b, order.brokerOrderId = some b →
        ∃ o ∈ openOrders, ∃ x, orders[o]? = some x ∧ x.brokerOrderId = some b
          ∧ SameOrder x order := fun order horder b hb =>
      (compareOrder_eq_none hinternal hb).mp (hcompare order horder)
    constructor
    · intro o ho x b hx hxb
      have hob := brokerIdOf_eq_some.mpr ⟨x, hx, hxb⟩
      obtain ⟨order, horder, hb⟩ := (missingAtBroker_eq_none hob).mp (hmissing o ho)
      obtain ⟨o', ho', x', hx', hxb', hsame⟩ := hfound order horder b hb
      -- the order compared with is this one, since no other has its broker id
      obtain rfl := List.eq_of_filterMap_nodup hinternal ho ho' hob
        (brokerIdOf_eq_some.mpr ⟨x', hx', hxb'⟩)
      obtain rfl := Option.some.inj (hx.symm.trans hx')
      exact ⟨order, ⟨horder, hb, hsame⟩, fun order' h' =>
        List.eq_of_filterMap_nodup hbroker h'.1 horder h'.2.1 hb⟩
    · intro order horder b hb
      obtain ⟨o, ho, x, hx, hxb, hsame⟩ := hfound order horder b hb
      refine ⟨o, ⟨ho, x, hx, hxb, hsame⟩, ?_⟩
      rintro o' ⟨ho', x', hx', hxb', -⟩
      exact List.eq_of_filterMap_nodup hinternal ho' ho (brokerIdOf_eq_some.mpr ⟨x', hx', hxb'⟩)
        (brokerIdOf_eq_some.mpr ⟨x, hx, hxb⟩)
  · intro h
    constructor
    · intro order horder
      cases hb : order.brokerOrderId with
      | none => rw [compareOrder, hb]; rfl
      | some b =>
        obtain ⟨o, ⟨ho, hx⟩, -⟩ := h.broker order horder b hb
        exact (compareOrder_eq_none hinternal hb).mpr ⟨o, ho, hx⟩
    · intro o ho
      cases hob : brokerIdOf orders o with
      | none =>
        show (brokerIdOf orders o).bind _ = none
        rw [hob, Option.bind_none]
      | some b =>
        obtain ⟨x, hx, hxb⟩ := brokerIdOf_eq_some.mp hob
        obtain ⟨order, ⟨horder, hb, -⟩, -⟩ := h.internal o ho x b hx hxb
        exact (missingAtBroker_eq_none hob).mpr ⟨order, horder, hb⟩

/-- A discrepancy of a broker order is not severe. -/
theorem compareOrder_not_severe {index : OrderIndex} {order : WorkingOrder} {m : Mismatch}
    (h : compareOrder orders index order = some m) : m.severe = false := by
  obtain ⟨b, -, hm⟩ := Option.bind_eq_some_iff.mp h
  cases hindex : index b with
  | none =>
    rw [hindex] at hm
    cases hm
    rfl
  | some o =>
    rw [hindex] at hm
    dsimp only at hm
    split_ifs at hm
    cases hm
    rfl

/-- Nor is that of an internal one. -/
theorem missingAtBroker_not_severe {o : OrderId} {m : Mismatch}
    (h : missingAtBroker orders brokerOrders o = some m) : m.severe = false := by
  obtain ⟨b, -, hm⟩ := Option.bind_eq_some_iff.mp h
  split_ifs at hm
  cases hm
  rfl

/-- Discrepancies of orders do not lock the system. -/
theorem severe_reconcile :
    (reconcile internal orders openOrders locked holdings brokerOrders).1.severe
      = (comparePositions internal holdings).severe := by
  have hcompare : (brokerOrders.filterMap
      (compareOrder orders (indexOrders orders openOrders))).any Mismatch.severe = false := by
    rw [List.any_eq_false]
    intro m hm
    obtain ⟨order, -, hm⟩ := List.mem_filterMap.mp hm
    rw [compareOrder_not_severe hm]
    exact Bool.false_ne_true
  have hmissing : (openOrders.filterMap
      (missingAtBroker orders brokerOrders)).any Mismatch.severe = false := by
    rw [List.any_eq_false]
    intro m hm
    obtain ⟨o, -, hm⟩ := List.mem_filterMap.mp hm
    rw [missingAtBroker_not_severe hm]
    exact Bool.false_ne_true
  show (_ ++ _ ++ _ : List Mismatch).any Mismatch.severe = _
  rw [List.any_append, List.any_append, hcompare, hmissing, Bool.or_false, Bool.or_false]
  rfl

/-- **Reconciliation is exact.** -/
theorem reconcile_exact (internal : List Position) (holdings : List Holding)
    (hinternal : (openOrders.filterMap (brokerIdOf orders)).Nodup)
    (hbroker : (brokerOrders.filterMap (·.brokerOrderId)).Nodup) :
    ((reconcile internal orders openOrders false holdings brokerOrders).1.isClean = true
        ↔ (∀ k, netHolding (internal.map Position.holding) k = netHolding holdings k)
          ∧ OneToOne orders openOrders brokerOrders)
      ∧ ((reconcile internal orders openOrders false holdings brokerOrders).2 = true
        ↔ ∃ k, netHolding (internal.map Position.holding) k ≠ 0
          ∧ netHolding (internal.map Position.holding) k ≠ netHolding holdings k) := by
  constructor
  · rw [← orders_clean_iff hinternal hbroker, ← comparePositions_details_eq_nil,
      ReconciliationReport.isClean, List.isEmpty_iff]
    show _ ++ _ ++ _ = [] ↔ _
    rw [List.append_eq_nil_iff, List.append_eq_nil_iff, and_assoc]
  · rw [← comparePositions_severe, ← @severe_reconcile internal orders openOrders false holdings
      brokerOrders]
    exact Iff.rfl

/-- An order working at the broker, with an id. -/
def sampleWorking (b : BrokerOrderId) : OrderState :=
  (OrderState.ofPlan
    { positionId := none
      isEntry := true
      strategyId := "orb"
      contract := sampleContract
      side := .buy
      quantity := 2
      orderType := .lmt
      limitPrice := 1
      orderRef := none
      algo := none
      quantity_pos := Nat.zero_lt_two
      limit_pos := one_dollar_pos } none 0).placed b .submitted 0

/-- The same at the broker, at a limit. -/
def sampleWorkingOrder (b : BrokerOrderId) (limitPrice : Price) : WorkingOrder where
  brokerOrderId := some b
  contract := sampleContract
  side := .buy
  quantity := 2
  limitPrice := limitPrice

/-- Two contracts of a strategy. -/
def sampleHeld (strategyId : StrategyId) (side : OrderSide) : Position where
  positionId := 0
  strategyId := strategyId
  contract := sampleContract
  side := side
  quantity := 2
  filledQuantity := 2
  averageEntryPrice := 1
  status := .opened
  entryOrderId := 0
  createdAt := 0
  updatedAt := 0

/-- Two positions that cancel are none at the broker, and of two orders one has a
limit that is a tick off. -/
theorem reconcile_exact_oneTick :
    ((reconcile [sampleHeld "orb" .buy, sampleHeld "gap" .sell]
          [sampleWorking 7, sampleWorking 8] [0, 1] false []
          [sampleWorkingOrder 8 1, sampleWorkingOrder 7 (105 / 100)]).1.isClean = true
        ↔ (∀ k, netHolding
            ([sampleHeld "orb" .buy, sampleHeld "gap" .sell].map Position.holding) k
              = netHolding [] k)
          ∧ OneToOne [sampleWorking 7, sampleWorking 8] [0, 1]
            [sampleWorkingOrder 8 1, sampleWorkingOrder 7 (105 / 100)])
      ∧ ((reconcile [sampleHeld "orb" .buy, sampleHeld "gap" .sell]
          [sampleWorking 7, sampleWorking 8] [0, 1] false []
          [sampleWorkingOrder 8 1, sampleWorkingOrder 7 (105 / 100)]).2 = true
        ↔ ∃ k, netHolding
            ([sampleHeld "orb" .buy, sampleHeld "gap" .sell].map Position.holding) k ≠ 0
          ∧ netHolding ([sampleHeld "orb" .buy, sampleHeld "gap" .sell].map Position.holding) k
            ≠ netHolding [] k) :=
  reconcile_exact [sampleHeld "orb" .buy, sampleHeld "gap" .sell] [] (by decide) (by decide)
