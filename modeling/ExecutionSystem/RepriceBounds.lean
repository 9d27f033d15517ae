import ExecutionSystem.OrderManager
import ExecutionSystem.TickPrices
import Mathlib.Tactic.Linarith

/-!
# The bounds of a new price

A repricer that has its quote computes a price and, where it differs enough
from the limit the order has, sends it: to the broker as an amendment, or
into the plan of a replacement. A buyer should not pay more than the
acceptable price, and not more than the ask – or the ask and the offset,
once it crosses –, a seller should not get less than theirs, and a plan
takes no price that is not positive.

The bounds are applied first and the price is conformed to the tick grid
afterwards. On the way to the touch that does no harm, since the touch is on
the grid itself. A price through the touch, or one cut off at the acceptable
price, need not be on it, and the last step may carry it across the bound it
was just cut off at. And where the touch is out of range nothing is bounded
at all: the old limit is conformed, and sent if that moves it by a cent.
`OrderManager.bounded_iff` says exactly when the bounds hold.

All of it is computed in floats, so a tick is the float of a tick, and the sum
of the ask and the offset is a float.
-/

namespace RepriceConfig

variable (config : RepriceConfig) (attempts : ℕ) (side : OrderSide)
  (limit bid ask : Price)

/-- How far this attempt may go: to the touch, or through it. -/
def farthest : Price :=
  match side with
  | .buy => if config.cross attempts then binary64 (ask + config.crossTouchOffset) else ask
  | .sell => if config.cross attempts then binary64 (bid - config.crossTouchOffset) else bid

/-- **The price keeps to its bounds**: it is positive, and where it is not
the old limit it is acceptable and not further than it may reach. -/
def Bounded (p : Price) : Prop :=
  0 < p ∧ (p ≠ limit →
    match side with
    | .buy => p ≤ config.maxAcceptableBuyPrice ∧ p ≤ config.farthest attempts .buy bid ask
    | .sell => config.minAcceptableSellPrice ≤ p ∧ config.farthest attempts .sell bid ask ≤ p)

/-- Whether the touch is in the acceptable range. -/
def Acceptable : Prop :=
  match side with
  | .buy => 0 < ask ∧ ask ≤ config.maxAcceptableBuyPrice
  | .sell => 0 < bid ∧ config.minAcceptableSellPrice ≤ bid

instance : Decidable (config.Acceptable side bid ask) := by
  unfold Acceptable
  cases side <;> exact inferInstance

/-- The price through the touch, cut off at the acceptable price. -/
def through : Price :=
  match side with
  | .buy => min (binary64 (ask + config.crossTouchOffset)) config.maxAcceptableBuyPrice
  | .sell => max (binary64 (bid - config.crossTouchOffset)) config.minAcceptableSellPrice

/-- **Where conforming does no harm.** A price through the touch is not
conformed upwards for a buyer, nor down to nothing, and not conformed downwards
for a seller. Where the touch is not acceptable the old limit, as it stands on
the grid, keeps to the bounds by itself. -/
def KeepsBounds : Prop :=
  if config.Acceptable side bid ask then
    config.cross attempts = true →
      match side with
      | .buy => 1 / 200 < config.through .buy bid ask ∧ KeptBelow (config.through .buy bid ask)
      | .sell => KeptAbove (config.through .sell bid ask)
  else
    match side with
    | .buy => conformTickFloat limit ≤ config.maxAcceptableBuyPrice
        ∧ conformTickFloat limit ≤ config.farthest attempts .buy bid ask
    | .sell => config.minAcceptableSellPrice ≤ conformTickFloat limit
        ∧ config.farthest attempts .sell bid ask ≤ conformTickFloat limit

variable {config attempts side limit bid ask}

/-! ## The three ways to a price -/

/-- The old limit is what is conformed where the touch is not acceptable. -/
theorem newPrice_of_not_acceptable (h : ¬ config.Acceptable side bid ask) :
    config.newPrice attempts side limit bid ask = conformTickFloat limit := by
  unfold newPrice
  cases side with
  | buy =>
    have h : ¬ (0 < ask ∧ ask ≤ config.maxAcceptableBuyPrice) := h
    simp only [if_neg h]
  | sell =>
    have h : ¬ (0 < bid ∧ config.minAcceptableSellPrice ≤ bid) := h
    simp only [if_neg h]

theorem newPrice_of_cross (h : config.Acceptable side bid ask)
    (hcross : config.cross attempts = true) :
    config.newPrice attempts side limit bid ask
      = conformTickFloat (config.through side bid ask) := by
  unfold newPrice through
  cases side with
  | buy =>
    have h : 0 < ask ∧ ask ≤ config.maxAcceptableBuyPrice := h
    simp only [if_pos h, if_pos hcross]
  | sell =>
    have h : 0 < bid ∧ config.minAcceptableSellPrice ≤ bid := h
    simp only [if_pos h, if_pos hcross]

/-- **A price that does not cross is between the old limit and the touch**,
or at the touch. -/
theorem newPrice_of_not_cross (h : config.Acceptable side bid ask)
    (hcross : ¬ config.cross attempts = true) :
    ∃ target, config.newPrice attempts side limit bid ask = conformTickFloat target
      ∧ match side with
        | .buy => target ≤ ask
          ∧ (target = ask ∨ target = binary64 (binary64 (limit + ask) / 2))
        | .sell => bid ≤ target := by
  unfold newPrice
  cases side with
  | buy =>
    have h : 0 < ask ∧ ask ≤ config.maxAcceptableBuyPrice := h
    simp only [if_pos h, if_neg hcross]
    refine ⟨_, rfl, min_le_right _ _, ?_⟩
    split_ifs
    · exact (min_choice _ _).symm
    · exact .inl (min_self _)
  | sell =>
    have h : 0 < bid ∧ config.minAcceptableSellPrice ≤ bid := h
    simp only [if_pos h, if_neg hcross]
    exact ⟨_, rfl, le_max_right _ _⟩

/-! ## The bounds -/

/-- Halfway from a limit to an ask on the grid is more than half a cent. -/
theorem half_cent_lt_halfway (hlimit : 0 < limit) (hask : OnTick ask) (hpos : 0 < ask) :
    1 / 200 < binary64 (binary64 (limit + ask) / 2) := by
  have hcent : binary64 (1 / 100) ≤ ask := by
    have hlarge := (conformTickFloat_pos_iff ask).mp (hask.symm ▸ hpos)
    exact (cent_le_conformTickFloat hlarge).trans_eq hask
  have hsum : binary64 (1 / 100) ≤ binary64 (limit + ask) :=
    binary64_isRounding.kept_le (binary64_isRounding.idempotent _) (by linarith)
  calc (1 / 200 : ℚ) < binary64 (binary64 (1 / 100) / 2) := by decide +kernel
    _ ≤ binary64 (binary64 (limit + ask) / 2) :=
        binary64_isRounding.monotone (div_le_div_of_nonneg_right hsum two_pos.le)

/-- On the way to the touch the bounds are kept. -/
theorem bounded_of_not_cross (hlimit : 0 < limit) (hbid : OnTick bid) (hask : OnTick ask)
    (h : config.Acceptable side bid ask) (hcross : ¬ config.cross attempts = true) :
    config.Bounded attempts side limit bid ask
      (config.newPrice attempts side limit bid ask) := by
  obtain ⟨target, hprice, htarget⟩ :=
    @newPrice_of_not_cross config attempts side limit bid ask h hcross
  rw [hprice]
  cases side with
  | buy =>
    obtain ⟨hle, htarget⟩ := htarget
    have hbound : conformTickFloat target ≤ ask :=
      (conformTickFloat_monotone hle).trans_eq hask
    have hfar : config.farthest attempts .buy bid ask = ask := if_neg hcross
    refine ⟨(conformTickFloat_pos_iff target).mpr ?_, fun _ => ⟨hbound.trans h.2, ?_⟩⟩
    · rcases htarget with rfl | rfl
      · exact (conformTickFloat_pos_iff _).mp (hask.symm ▸ h.1)
      · exact half_cent_lt_halfway hlimit hask h.1
    · exact hbound.trans_eq hfar.symm
  | sell =>
    have hbound : bid ≤ conformTickFloat target :=
      hbid.symm.trans_le (conformTickFloat_monotone htarget)
    have hfar : config.farthest attempts .sell bid ask = bid := if_neg hcross
    exact ⟨h.1.trans_le hbound, fun _ => ⟨h.2.trans hbound, hfar.trans_le hbound⟩⟩

/-- The price through the touch is a float. -/
theorem binary64_through (hmax : binary64 config.maxAcceptableBuyPrice
    = config.maxAcceptableBuyPrice) (hmin : binary64 config.minAcceptableSellPrice
    = config.minAcceptableSellPrice) :
    binary64 (config.through side bid ask) = config.through side bid ask := by
  unfold through
  cases side with
  | buy =>
    rw [binary64_isRounding.monotone.map_min, binary64_isRounding.idempotent, hmax]
  | sell =>
    rw [binary64_isRounding.monotone.map_max, binary64_isRounding.idempotent, hmin]

/-- Through the touch they are kept where the price is not rounded across
them. -/
theorem bounded_through_iff (hmax : binary64 config.maxAcceptableBuyPrice
    = config.maxAcceptableBuyPrice) (hmin : binary64 config.minAcceptableSellPrice
    = config.minAcceptableSellPrice) (hminPos : 0 < config.minAcceptableSellPrice)
    (hne : conformTickFloat (config.through side bid ask) ≠ limit)
    (h : config.Acceptable side bid ask) (hcross : config.cross attempts = true) :
    config.Bounded attempts side limit bid ask (conformTickFloat (config.through side bid ask))
      ↔ config.KeepsBounds attempts side limit bid ask := by
  have hfloat := @binary64_through config side bid ask hmax hmin
  unfold Bounded KeepsBounds
  rw [if_pos h, forall_prop_of_true hne, forall_prop_of_true hcross]
  cases side with
  | buy =>
    have hfar : config.farthest attempts .buy bid ask
        = binary64 (ask + config.crossTouchOffset) := if_pos hcross
    rw [hfar, conformTickFloat_pos_iff, ← conformTickFloat_le_iff_keptBelow hfloat]
    exact and_congr_right fun _ => and_comm.trans le_min_iff.symm
  | sell =>
    have hfar : config.farthest attempts .sell bid ask
        = binary64 (bid - config.crossTouchOffset) := if_pos hcross
    rw [hfar, ← le_conformTickFloat_iff_keptAbove hfloat]
    refine (and_iff_right_of_imp fun h => hminPos.trans_le h.1).trans ?_
    exact and_comm.trans max_le_iff.symm

/-- A limit that conforming moves by a cent is `3.00` at least. -/
theorem three_le_of_moved (hlimit : 0 < limit)
    (hsent : binary64 (1 / 100) ≤ |binary64 (conformTickFloat limit - limit)|) : 3 ≤ limit := by
  by_contra hlt
  have hlt := not_le.mp hlt
  have hmove := abs_le.mp (abs_roundHalfEven_sub_le (limit * 100))
  have hcent := abs_le.mp (abs_binary64_sub_le ((roundHalfEven (limit * 100) : ℚ) / 100))
  have hcents : |(roundHalfEven (limit * 100) : ℚ) / 100| ≤ 4 :=
    abs_le.mpr ⟨by linarith, by linarith⟩
  have hleast := underflow_le
  have hconform : conformTickFloat limit = binary64 ((roundHalfEven (limit * 100) : ℚ) / 100) :=
    if_pos hlt
  rw [← hconform] at hcent
  unfold unitRoundoff at *
  -- half a cent and what is rounded off are less than a power of two below a cent
  have hup := binary64_isRounding.monotone
    (by linarith : conformTickFloat limit - limit ≤ 1 / 128)
  have hdown := binary64_isRounding.monotone
    (by linarith : -1 / 128 ≤ conformTickFloat limit - limit)
  rw [show binary64 (1 / 128) = 1 / 128 by decide +kernel] at hup
  rw [show binary64 (-1 / 128) = -1 / 128 by decide +kernel] at hdown
  have hnear : |binary64 (conformTickFloat limit - limit)| ≤ 1 / 128 :=
    abs_le.mpr ⟨by linarith, hup⟩
  exact absurd (hsent.trans hnear) (by decide +kernel)

/-- **A price that is sent keeps to its bounds exactly where conforming does
no harm.** -/
theorem bounded_newPrice_iff (hlimit : 0 < limit) (hbid : OnTick bid) (hask : OnTick ask)
    (hmax : binary64 config.maxAcceptableBuyPrice = config.maxAcceptableBuyPrice)
    (hmin : binary64 config.minAcceptableSellPrice = config.minAcceptableSellPrice)
    (hminPos : 0 < config.minAcceptableSellPrice)
    (hsent : binary64 (1 / 100)
      ≤ |binary64 (config.newPrice attempts side limit bid ask - limit)|) :
    config.Bounded attempts side limit bid ask
        (config.newPrice attempts side limit bid ask)
      ↔ config.KeepsBounds attempts side limit bid ask := by
  have hne : config.newPrice attempts side limit bid ask ≠ limit := by
    intro heq
    rw [heq, sub_self] at hsent
    exact absurd hsent (by decide +kernel)
  by_cases h : config.Acceptable side bid ask
  · by_cases hcross : config.cross attempts = true
    · rw [newPrice_of_cross h hcross] at hne ⊢
      exact bounded_through_iff hmax hmin hminPos hne h hcross
    · refine iff_of_true (bounded_of_not_cross hlimit hbid hask h hcross) ?_
      unfold KeepsBounds
      rw [if_pos h]
      exact fun hyes => absurd hyes hcross
  · rw [newPrice_of_not_acceptable h] at hne hsent ⊢
    have hpos : 0 < conformTickFloat limit :=
      (by norm_num : (0 : ℚ) < 3).trans_le
        (three_le_conformTickFloat (three_le_of_moved hlimit hsent))
    unfold Bounded KeepsBounds
    rw [if_neg h, forall_prop_of_true hne]
    exact and_iff_right hpos

end RepriceConfig

/-! ## What the repricer sends -/

/-- The price a coroutine has decided to send: it amends the order, or is
about to cancel it for a replacement. -/
def Coroutine.sending : Coroutine → Option (Repricer × Price)
  | modifyAwait r p => some (r, p)
  | repricerCancel r p => some (r, p)
  | _ => none

namespace OrderManager

variable {om om' : OrderManager} {t : TaskId} {c : Coroutine} {r r' : Repricer} {p : Price}
  {q : QuoteSnapshot} {bid ask : Price} {order : OrderState}

/-- **What is sent is the new price, and it is a cent at least away from the
old limit.** -/
theorem sending_of_quoted (ht : om.tasks[t]? = some (.quoteAwait r))
    (horder : om.orders[r.current]? = some order) (hbid : q.bid = some bid)
    (hask : q.ask = some ask) (hstep : om.step (.resume t (.quote (some q))) = some om')
    (hc : om'.tasks[t]? = some c) (hp : c.sending = some (r', p)) :
    p = r.config.newPrice r.attempts order.side order.limitPrice bid ask
      ∧ binary64 (1 / 100) ≤ |binary64 (p - order.limitPrice)| := by
  have hset : ∀ d, (om.tasks.set t d)[t]? = some d := fun d => by
    rw [List.getElem?_set_self (List.getElem?_eq_some_iff.mp ht).1]
  simp only [step, Option.ite_none_right_eq_some, ht, Option.bind_some, resume] at hstep
  obtain ⟨-, hstep⟩ := hstep
  simp only [repricerQuoted, hbid, hask, horder, Option.some.injEq] at hstep
  split_ifs at hstep with hnear hleft hmodify
  · rw [← hstep, sleep, suspend, hset] at hc
    obtain rfl := Option.some.inj hc
    cases hp
  · rw [← hstep, suspend, hset] at hc
    obtain rfl := Option.some.inj hc
    cases hp
  · rw [← hstep, suspend, hset] at hc
    obtain rfl := Option.some.inj hc
    cases hp
    exact ⟨rfl, not_lt.mp hnear⟩
  · rw [← hstep, goOn, hset] at hc
    obtain rfl := Option.some.inj hc
    cases hp
    exact ⟨rfl, not_lt.mp hnear⟩

/-- **The price a repricer sends is positive, acceptable and no further than
it may reach exactly where conforming it does no harm.** -/
theorem bounded_iff (ht : om.tasks[t]? = some (.quoteAwait r))
    (horder : om.orders[r.current]? = some order) (hlimit : 0 < order.limitPrice)
    (hbid : q.bid = some bid) (hask : q.ask = some ask) (hbidTick : OnTick bid)
    (haskTick : OnTick ask)
    (hmax : binary64 r.config.maxAcceptableBuyPrice = r.config.maxAcceptableBuyPrice)
    (hmin : binary64 r.config.minAcceptableSellPrice = r.config.minAcceptableSellPrice)
    (hminPos : 0 < r.config.minAcceptableSellPrice)
    (hstep : om.step (.resume t (.quote (some q))) = some om')
    (hc : om'.tasks[t]? = some c) (hp : c.sending = some (r', p)) :
    r.config.Bounded r.attempts order.side order.limitPrice bid ask p
      ↔ r.config.KeepsBounds r.attempts order.side order.limitPrice bid ask := by
  obtain ⟨rfl, hsent⟩ := sending_of_quoted ht horder hbid hask hstep hc hp
  exact RepriceConfig.bounded_newPrice_iff hlimit hbidTick haskTick hmax hmin hminPos hsent

/-! ### A price that is rounded across its bound -/

/-- Crosses from the first attempt on. -/
def crossingConfig : RepriceConfig := { enabled := true, crossTouchAfterAttempts := some 0 }

/-- `2.95` bid, `2.98` asked. -/
def crossingQuote : QuoteSnapshot where
  bid := some (binary64 (295 / 100))
  ask := some (binary64 (298 / 100))
  timestamp := 0
  bid_le_ask := by decide +kernel

/-- An entry is bought at `1.00`, and its repricer waits for a quote. -/
def crossingRun : List Label :=
  [ .submit (sampleIntent none true .buy) sampleDecision false (some crossingConfig) none,
    .resume 0 (.placed 7 .submitted), .wake 1, .go, .advance 5, .wake 1, .go ]

theorem crossingRun_eq :
    (machine.run initial crossingRun).map (fun om =>
      (om.tasks[1]?, om.orders[0]?.map fun x => (x.side, x.limitPrice),
        (om.step (.resume 1 (.quote (some crossingQuote)))).map (·.tasks[1]?)))
      = some (some (.quoteAwait ⟨crossingConfig, 0, 0, 0⟩), some (.buy, 1),
          some (some (.repricerCancel ⟨crossingConfig, 0, 0, 0⟩ (binary64 (305 / 100))))) := by
  decide +kernel

/-- **The bounds do not always hold**: the price through the touch is
`3.03`, which is no nickel, and `3.05` is sent. -/
theorem not_bounded :
    ¬ ∀ (ls : List Label) (om om' : OrderManager) (t : TaskId) (c : Coroutine)
      (r r' : Repricer) (p : Price) (q : QuoteSnapshot) (bid ask : Price)
      (order : OrderState), machine.run initial ls = some om →
      om.tasks[t]? = some (.quoteAwait r) → om.orders[r.current]? = some order →
      0 < order.limitPrice → q.bid = some bid → q.ask = some ask →
      OnTick bid → OnTick ask →
      binary64 r.config.maxAcceptableBuyPrice = r.config.maxAcceptableBuyPrice →
      binary64 r.config.minAcceptableSellPrice = r.config.minAcceptableSellPrice →
      0 < r.config.maxAcceptableBuyPrice → 0 < r.config.minAcceptableSellPrice →
      om.step (.resume t (.quote (some q))) = some om' →
      om'.tasks[t]? = some c → c.sending = some (r', p) →
      r.config.Bounded r.attempts order.side order.limitPrice bid ask p := by
  intro h
  obtain ⟨om, hrun, hstate⟩ := Option.map_eq_some_iff.mp crossingRun_eq
  obtain ⟨htask, hstate⟩ := Prod.mk.inj hstate
  obtain ⟨horder, hstep⟩ := Prod.mk.inj hstate
  obtain ⟨order, horder, hfields⟩ := Option.map_eq_some_iff.mp horder
  obtain ⟨hside, hlimit⟩ := Prod.mk.inj hfields
  obtain ⟨om', hstep, htask'⟩ := Option.map_eq_some_iff.mp hstep
  have hbounded := h crossingRun om om' 1 _ _ _ (binary64 (305 / 100)) crossingQuote
    (binary64 (295 / 100)) (binary64 (298 / 100)) order hrun htask horder
    (by rw [hlimit]; norm_num) rfl rfl (by decide +kernel) (by decide +kernel)
    (by decide +kernel) (by decide +kernel) (by decide +kernel) (by decide +kernel)
    hstep htask' rfl
  rw [hside, hlimit] at hbounded
  obtain ⟨-, hreach⟩ := hbounded.2 (by decide +kernel)
  exact absurd hreach (by decide +kernel)

/-- `bounded_iff` at that price. -/
theorem bounded_iff_crossing :
    ∃ (om om' : OrderManager) (order : OrderState),
      om.step (.resume 1 (.quote (some crossingQuote))) = some om'
      ∧ (crossingConfig.Bounded 0 order.side order.limitPrice (binary64 (295 / 100))
          (binary64 (298 / 100)) (binary64 (305 / 100))
        ↔ crossingConfig.KeepsBounds 0 order.side order.limitPrice (binary64 (295 / 100))
          (binary64 (298 / 100))) := by
  obtain ⟨om, -, hstate⟩ := Option.map_eq_some_iff.mp crossingRun_eq
  obtain ⟨htask, hstate⟩ := Prod.mk.inj hstate
  obtain ⟨horder, hstep⟩ := Prod.mk.inj hstate
  obtain ⟨order, horder, hfields⟩ := Option.map_eq_some_iff.mp horder
  obtain ⟨om', hstep, htask'⟩ := Option.map_eq_some_iff.mp hstep
  refine ⟨om, om', order, hstep, ?_⟩
  exact bounded_iff htask horder (by rw [(Prod.mk.inj hfields).2]; norm_num) rfl rfl
    (by decide +kernel) (by decide +kernel) (by decide +kernel) (by decide +kernel)
    (by decide +kernel) hstep htask' rfl

end OrderManager
