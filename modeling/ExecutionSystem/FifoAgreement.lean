import ExecutionSystem.ExecutionQuality
import ExecutionSystem.ProfitAndLoss

/-!
# Two accounts of one profit

The position book weighs its entries to an average cost; the analytics keep
lots and match them first in first out. While something is open the two give
a different profit to what was exited. But at every price each of them has
the profit and the worth of what it holds add up to what the fills are worth
(`PositionManager.holds_afterFills`, `Ledger.worth_books`), and when nothing
is open the price drops out of both. So they agree whenever the book is flat,
but for the multiplier, which the analytics leave out.
-/

/-! ## The log of the fills -/

/-- The event tells of the fill. -/
def LoggedEvent.Logs (e : LoggedEvent) (fill : FillEvent) : Prop :=
  ∃ type ∈ LoggedEvent.fillTypes, ∃ now id, e = LoggedEvent.ofFill type now id fill

/-- **Each fill is logged once, and in order**; events of other types may
stand in between. -/
def LogsFills (events : List LoggedEvent) (fills : List FillEvent) : Prop :=
  List.Forall₂ LoggedEvent.Logs (events.filter (·.type ∈ LoggedEvent.fillTypes)) fills

/-- `inventory` of `compute_realized_pnl`, after the events. -/
def fifoInventory (floatRepr : Price → String) (events : List LoggedEvent) :
    StrategyId × String → List (Lot ℚ) :=
  (Ledger.books (events.filterMap (·.trade floatRepr))).lots

/-- The name under which the analytics keep a strategy. -/
def reportedStrategy (sid : StrategyId) : StrategyId := if sid = "" then "unknown" else sid

/-- The trade that a fill is to the analytics. -/
def FillEvent.trade (floatRepr : Price → String) (fill : FillEvent) : FillTrade where
  key := (reportedStrategy fill.strategyId, contractKey floatRepr (some fill.contract))
  account := (reportedStrategy fill.strategyId, fill.contract.symbol)
  quantity := fill.filledQuantity
  price := fill.fillPrice
  buy := fill.side = .buy

section Log

variable {floatRepr : Price → String} {events : List LoggedEvent} {fills : List FillEvent}

theorem LoggedEvent.Logs.trade_eq {e : LoggedEvent} {fill : FillEvent} (h : e.Logs fill) :
    e.trade floatRepr = some (fill.trade floatRepr) := by
  obtain ⟨type, htype, now, id, rfl⟩ := h
  exact @LoggedEvent.trade_ofFill floatRepr now type id fill
    ⟨fill.orderId, fill.strategyId, fill.contract, fill.side⟩
    ⟨"", 0, fill.filledQuantity, fill.fillPrice⟩ htype rfl rfl rfl rfl rfl

/-- **The analytics see the fills.** -/
theorem LogsFills.trades_eq (h : LogsFills events fills) :
    events.filterMap (·.trade floatRepr) = fills.map (·.trade floatRepr) := by
  induction events generalizing fills with
  | nil =>
    cases h
    rfl
  | cons e events ih =>
    unfold LogsFills at h
    by_cases htype : e.type ∈ LoggedEvent.fillTypes
    · rw [List.filter_cons_of_pos (by simpa using htype)] at h
      cases h with
      | cons he hevents => rw [List.filterMap_cons, he.trade_eq, ih hevents, List.map_cons]
    · rw [List.filter_cons_of_neg (by simpa using htype)] at h
      rw [List.filterMap_cons, show e.trade floatRepr = none from if_neg htype, ih h]

/-- What was logged so far are the fills so far. -/
theorem LogsFills.earlier (h : LogsFills events fills) {events' : List LoggedEvent}
    (hpre : events' <+: events) : ∃ gs, gs <+: fills ∧ LogsFills events' gs := by
  obtain ⟨rest, rfl⟩ := hpre
  refine ⟨fills.take (events'.filter (·.type ∈ LoggedEvent.fillTypes)).length,
    List.take_prefix _ _, ?_⟩
  have htake := List.forall₂_take
    (events'.filter (·.type ∈ LoggedEvent.fillTypes)).length h
  rwa [List.filter_append, List.take_left' rfl] at htake

end Log

/-! ## The net of the book -/

namespace PositionManager

/-- A fill that exits no more than is open does not turn the net over. -/
theorem OnePerKey.not_flip {pm : PositionManager} (h : pm.OnePerKey) {fill : FillEvent}
    (hwithin : ∀ pos ∈ pm.getOpenPositions, pos.key = fill.key →
      fill.side ≠ pos.side → fill.filledQuantity ≤ pos.quantity) :
    ¬ pm.net fill.key * (pm.net fill.key + fill.signed) < 0 := by
  by_cases hopen : fill.key ∈ pm.openKeys
  · obtain ⟨pos, hpos, hkey⟩ := List.mem_map.mp hopen
    obtain ⟨hmem, hstatus⟩ := List.mem_filter.mp hpos
    rw [← hkey, h.net_eq hmem hstatus, Position.signed, FillEvent.signed]
    by_cases hside : fill.side = pos.side
    · rw [hside, OrderSide.sign_mul_add]
      exact (by positivity : (0 : ℤ) ≤ _).not_gt
    · have hle : (fill.filledQuantity : ℤ) ≤ pos.quantity := by
        exact_mod_cast hwithin pos hpos hkey hside
      rw [OrderSide.sign_of_ne (Ne.symm hside), neg_mul_comm, OrderSide.sign_mul_add]
      exact (mul_nonneg (Int.natCast_nonneg _) (by linarith)).not_gt
  · rw [net_of_not_mem_openKeys hopen, zero_mul]
    exact lt_irrefl 0

/-- **Where no fill exits more than is open, the book holds what the fills
add up to.** -/
theorem net_afterFills_of_withinOpen {fills : List FillEvent} (hwithin : WithinOpen fills)
    (k : PositionKey) : (afterFills fills).net k = signedFills k fills := by
  induction fills using List.reverseRecOn with
  | nil => rfl
  | append_singleton gs fill ih =>
    have hgs := ih fun ks f hs heq => hwithin ks f (hs ++ [fill]) (by simp [heq])
    have hone : (afterFills gs).OnePerKey := (onePerKey_empty.foldl gs).1
    have hstep : afterFills (gs ++ [fill]) = ((afterFills gs).handleFill fill).1 :=
      List.foldl_append
    rw [hstep, hone.net_handleFill, signedFills_append, signedFills_singleton, ← hgs]
    split_ifs with hk
    · subst hk
      exact stopAtZero_eq_add (hone.not_flip (hwithin gs fill [] rfl))
    · rw [add_zero]

/-- A book without a net is flat. -/
theorem OnePerKey.flat_of_net {pm : PositionManager} (h : pm.OnePerKey)
    (hnet : ∀ k, pm.net k = 0) : pm.getOpenPositions = [] := by
  refine List.eq_nil_iff_forall_not_mem.mpr fun pos hpos => ?_
  obtain ⟨hmem, hopen⟩ := List.mem_filter.mp hpos
  have hsigned := (h.net_eq hmem hopen).symm.trans (hnet pos.key)
  have hq := h.positive pos hmem hopen
  unfold Position.signed at hsigned
  cases hside : pos.side <;> rw [hside] at hsigned <;> simp at hsigned <;> omega

end PositionManager

/-! ## The fills of one strategy in one contract -/

section OneContract

variable {sid : StrategyId} {c : OptionContract} {fills : List FillEvent}

theorem sideSign_buy (side : OrderSide) : sideSign (decide (side = .buy)) = side.sign := by
  cases side <;> rfl

/-- The signed quantity of fills that are all of one strategy and contract. -/
theorem signedFills_eq_sum {k : PositionKey} (h : ∀ fill ∈ fills, fill.key = k) :
    signedFills k fills = (fills.map FillEvent.signed).sum := by
  rw [signedFills, List.filter_eq_self.mpr fun fill hfill => decide_eq_true (h fill hfill)]

/-- Of any other there are none. -/
theorem signedFills_of_ne {k k' : PositionKey} (h : ∀ fill ∈ fills, fill.key = k)
    (hk : k' ≠ k) : signedFills k' fills = 0 := by
  rw [signedFills, List.filter_eq_nil_iff.mpr fun fill hfill => ?_]
  · rfl
  · simpa [h fill hfill] using hk.symm

variable {floatRepr : Price → String} {events : List LoggedEvent}

/-- **The lots after the fills**, and the profit: they stand for a queue of
the net quantity, and with its worth the profit is what the fills are worth
without the multiplier. -/
theorem LogsFills.inventory (hlog : LogsFills events fills)
    (hfills : ∀ fill ∈ fills, fill.strategyId = sid ∧ fill.contract = c) :
    ∃ queue : PieceQueue ℚ, Lot.Represents (fifoInventory floatRepr events
          (reportedStrategy sid, contractKey floatRepr (some c))) queue
      ∧ queue.net = (fills.map FillEvent.signed).sum
      ∧ ∀ p, c.multiplier * (computeRealizedPnl floatRepr events (reportedStrategy sid) c.symbol
          + queue.worth p) = (fills.map (FillEvent.value p)).sum := by
  have hkeys : ∀ t ∈ fills.map (·.trade floatRepr),
      t.key = (reportedStrategy sid, contractKey floatRepr (some c))
        ∧ t.account = (reportedStrategy sid, c.symbol) := by
    intro t ht
    obtain ⟨fill, hfill, rfl⟩ := List.mem_map.mp ht
    obtain ⟨rfl, rfl⟩ := hfills fill hfill
    exact ⟨rfl, rfl⟩
  obtain ⟨queue, hqueue, hnet, hworth⟩ := Ledger.worth_books hkeys
  rw [← hlog.trades_eq] at hqueue
  refine ⟨queue, hqueue, ?_, fun p => ?_⟩
  · rw [hnet, List.map_map]
    refine congrArg _ (List.map_congr_left fun fill _ => ?_)
    show sideSign (decide (fill.side = .buy)) * (fill.filledQuantity : ℤ) = fill.signed
    rw [sideSign_buy, FillEvent.signed]
  · -- what is reported is the profit of the account in the ledger
    have hprofit : computeRealizedPnl floatRepr events (reportedStrategy sid) c.symbol
        = (Ledger.books (fills.map (·.trade floatRepr))).profit
          (reportedStrategy sid, c.symbol) := by
      rw [computeRealizedPnl, hlog.trades_eq]
    rw [hprofit, hworth, List.map_map, ← List.sum_map_mul_left]
    refine congrArg _ (List.map_congr_left fun fill hfill => ?_)
    obtain ⟨-, rfl⟩ := hfills fill hfill
    show (fill.contract.multiplier : ℚ) * tradeWorth p (decide (fill.side = .buy))
      fill.fillPrice fill.filledQuantity = fill.value p
    rw [tradeWorth, sideSign_buy, FillEvent.value]
    ring

end OneContract

namespace PositionManager

/-- **First in first out and average cost agree when flat**: for fills of one
strategy in one contract, each logged once and in order, none of which exits
more than is open, `m` times the profit of the analytics is the profit of the
positions when the net quantity is zero; and after every part of the log the
lots are of one side and make up the net quantity. -/
theorem realizedPnl_agree {floatRepr : Price → String} {sid : StrategyId}
    {c : OptionContract} {events : List LoggedEvent} {fills : List FillEvent}
    (hfills : ∀ fill ∈ fills, fill.strategyId = sid ∧ fill.contract = c)
    (hlog : LogsFills events fills) (hwithin : WithinOpen fills) :
    (signedFills (sid, c.identity) fills = 0 →
        c.multiplier * computeRealizedPnl floatRepr events (reportedStrategy sid) c.symbol
          = ((afterFills fills).positions.map (·.realizedPnl)).sum)
      ∧ ∀ events', events' <+: events → ∃ gs, gs <+: fills ∧ LogsFills events' gs
        ∧ (∃ buy, ∀ lot ∈ fifoInventory floatRepr events'
            (reportedStrategy sid, contractKey floatRepr (some c)), lot.buy = buy)
        ∧ ((fifoInventory floatRepr events'
            (reportedStrategy sid, contractKey floatRepr (some c))).map (·.quantity)).sum
          = (signedFills (sid, c.identity) gs).natAbs := by
  have hkeys : ∀ fill ∈ fills, fill.key = (sid, c.identity) := by
    intro fill hfill
    obtain ⟨rfl, rfl⟩ := hfills fill hfill
    rfl
  refine ⟨fun hflat => ?_, fun events' hpre => ?_⟩
  · obtain ⟨queue, -, hnet, hworth⟩ := @LogsFills.inventory _ _ _ floatRepr _ hlog hfills
    rw [← signedFills_eq_sum hkeys, hflat] at hnet
    have hfifo := hworth 0
    rw [PieceQueue.worth_of_net_eq_zero hnet, add_zero] at hfifo
    obtain ⟨hholds, hvalue⟩ := holds_afterFills (fun fill hfill => (hfills fill hfill).2) hwithin
    -- without a net quantity of any key no position is open
    have hopen : (afterFills fills).getOpenPositions = [] := by
      refine (onePerKey_empty.foldl fills).1.flat_of_net fun k => ?_
      rw [show (fills.foldl _ _ : PositionManager) = afterFills fills from rfl,
        net_afterFills_of_withinOpen hwithin]
      by_cases hk : k = (sid, c.identity)
      · rw [hk, hflat]
      · exact signedFills_of_ne hkeys hk
    rw [hfifo, hholds.realized_of_flat hopen, hvalue]
  · obtain ⟨gs, hgs, hlogged⟩ := hlog.earlier hpre
    have hfills' := fun fill hfill => hfills fill (hgs.subset hfill)
    obtain ⟨queue, ⟨hside, hpieces⟩, hnet, -⟩ :=
      @LogsFills.inventory _ _ _ floatRepr _ hlogged hfills'
    refine ⟨gs, hgs, hlogged, ⟨queue.buy, hside⟩, ?_⟩
    rw [signedFills_eq_sum fun fill hfill => hkeys fill (hgs.subset hfill), ← hnet,
      ← Lot.length_pieces, hpieces, PieceQueue.net, Int.natAbs_mul]
    cases queue.buy <;> simp [sideSign]

/-- The round trip, as the order manager logs it, with an event of an order in
between. -/
def sampleFillLog : List LoggedEvent :=
  (sampleRoundTrip.map (LoggedEvent.ofFill "fill_received" 0 (.order 0))).intersperse
    (LoggedEvent.orderStateTransition 0 (0, .filled))

/-- Both accounts of the round trip are one. -/
theorem realizedPnl_agree_roundTrip :
    sampleContract.multiplier * computeRealizedPnl (fun _ => "500.0") sampleFillLog
        (reportedStrategy "orb") sampleContract.symbol
      = ((afterFills sampleRoundTrip).positions.map (·.realizedPnl)).sum := by
  refine (realizedPnl_agree sampleRoundTrip_fills ?_ withinOpen_sampleRoundTrip).1
    (by decide +kernel)
  have hevents : sampleFillLog.filter (·.type ∈ LoggedEvent.fillTypes)
      = sampleRoundTrip.map (LoggedEvent.ofFill "fill_received" 0 (.order 0)) := by
    simp [sampleFillLog, sampleRoundTrip, LoggedEvent.fillTypes, LoggedEvent.ofFill,
      LoggedEvent.orderStateTransition]
  rw [LogsFills, hevents, List.forall₂_map_left_iff, List.forall₂_same]
  exact fun fill _ => ⟨"fill_received", by simp [LoggedEvent.fillTypes], 0, .order 0, rfl⟩

end PositionManager
