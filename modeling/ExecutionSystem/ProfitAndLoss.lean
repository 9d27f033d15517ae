import ExecutionSystem.NetQuantity
import Mathlib.Tactic.FieldSimp

/-!
# Profit and loss

The accounting identity of the position book. At any price `p` a position
is worth what it has realized and the gain on what is left of it, and a
fill is worth what its contracts have gained since. Whatever a fill does –
open a position, move the average entry price of one, exit part of one,
close one – the worth of all positions together changes by the worth of
the fill (`value_handleFill`), as long as it does not exit more than there
is.

So the worth of the book is the worth of the fills, at every price; and
when the book is flat the price drops out, and what has been realized is
what was sold less what was bought.
-/

/-- **What a position is worth at a price**: its realized profit, and the
gain on the quantity that is left. -/
def Position.value (p : Price) (pos : Position) : ℚ :=
  pos.realizedPnl
    + pos.side.sign * (p - pos.averageEntryPrice) * pos.quantity * pos.contract.multiplier

/-- **What a fill is worth at a price**: the gain since it was made. -/
def FillEvent.value (p : Price) (fill : FillEvent) : ℚ :=
  fill.side.sign * (p - fill.fillPrice) * fill.filledQuantity * fill.contract.multiplier

/-- The price times the quantity of all fills on a side. -/
def turnover (side : OrderSide) (fills : List FillEvent) : ℚ :=
  ((fills.filter (·.side = side)).map fun fill =>
    fill.fillPrice * (fill.filledQuantity : ℚ)).sum

/-- **No fill exits more than is open** at its time. -/
def WithinOpen (fills : List FillEvent) : Prop :=
  ∀ gs fill hs, fills = gs ++ fill :: hs →
    ∀ pos ∈ (PositionManager.afterFills gs).getOpenPositions, pos.key = fill.key →
      fill.side ≠ pos.side → fill.filledQuantity ≤ pos.quantity

namespace Position

variable {p : Price} {fill : FillEvent} {pos : Position}

/-- The two branches of the source, one for each side, in one formula. -/
theorem pnl_eq (pos : Position) (p : Price) (quantity multiplier : ℕ) :
    pos.pnl p quantity multiplier
      = pos.side.sign * (p - pos.averageEntryPrice) * quantity * multiplier := by
  unfold pnl
  cases pos.side
  · simp
  · simp only [OrderSide.sign_sell]
    push_cast
    ring

/-- A position marked at a price shows its worth as the realized and the
unrealized profit together. -/
theorem realized_add_unrealized_markedAt (p : Price) (now : Time) (pos : Position) :
    (pos.markedAt p now).realizedPnl + (pos.markedAt p now).unrealizedPnl.getD 0
      = pos.value p := by
  show pos.realizedPnl + pos.pnl p pos.quantity pos.contract.multiplier = pos.value p
  rw [pnl_eq, value]

/-- A position is opened at the worth of its fill. -/
theorem value_opened (p : Price) (pid : PositionId) (fill : FillEvent) :
    (opened pid fill).value p = fill.value p := by
  show 0 + _ = fill.value p
  rw [zero_add]
  rfl

/-- Adding to a position: the average entry price is weighted so that the
cost of the whole is the cost of the parts. -/
theorem value_added (hside : fill.side = pos.side)
    (hcontract : pos.contract = fill.contract) :
    (pos.added fill).value p = pos.value p + fill.value p := by
  have hq : (pos.quantity : ℚ) + fill.filledQuantity ≠ 0 := by
    have hf : (0 : ℚ) < fill.filledQuantity := by exact_mod_cast fill.filled_pos
    positivity
  simp only [value, FillEvent.value, added, hside, hcontract, Nat.cast_add]
  field_simp
  ring

/-- Exiting part of a position: what is realized leaves the gain that is
still open. -/
theorem value_reduced (hside : fill.side ≠ pos.side)
    (hcontract : pos.contract = fill.contract)
    (hlt : fill.filledQuantity < pos.quantity) :
    (pos.reduced fill).value p = pos.value p + fill.value p := by
  simp only [value, FillEvent.value, reduced, pnl_eq, hcontract,
    OrderSide.sign_of_ne (Ne.symm hside), Nat.cast_sub hlt.le]
  push_cast
  ring

/-- Closing a position with a fill of just its quantity. -/
theorem value_closedBy (hside : fill.side ≠ pos.side)
    (hcontract : pos.contract = fill.contract)
    (heq : fill.filledQuantity = pos.quantity) :
    (pos.closedBy fill).value p = pos.value p + fill.value p := by
  simp only [value, FillEvent.value, closedBy, pnl_eq, hcontract,
    OrderSide.sign_of_ne (Ne.symm hside), heq]
  push_cast
  ring

/-- **A fill that does not exit more than is open changes the worth of its
position by its own.** -/
theorem value_filled (hcontract : pos.contract = fill.contract)
    (hwithin : fill.side ≠ pos.side → fill.filledQuantity ≤ pos.quantity) :
    (pos.filled fill).value p = pos.value p + fill.value p := by
  unfold filled
  split_ifs with hside hlt
  · exact value_added hside hcontract
  · exact value_reduced hside hcontract hlt
  · exact value_closedBy hside hcontract (le_antisymm (hwithin hside) (not_lt.mp hlt))

end Position

namespace PositionManager

variable {pm : PositionManager} {fill : FillEvent} {p : Price} {c : OptionContract}

/-- The worth of the whole book. -/
def value (p : Price) (pm : PositionManager) : ℚ :=
  (pm.positions.map (Position.value p)).sum

/-- All positions are in one contract, and only open ones hold any of it. -/
structure Holds (c : OptionContract) (pm : PositionManager) : Prop where
  contract : ∀ pos ∈ pm.positions, pos.contract = c
  closed : ∀ pos ∈ pm.positions, pos.status.isOpen = false → pos.quantity = 0

/-- **What a fill does to the worth of the book.** -/
theorem Holds.value_handleFill (h : pm.Holds c) (hc : fill.contract = c)
    (hwithin : ∀ pos ∈ pm.getOpenPositions, pos.key = fill.key →
      fill.side ≠ pos.side → fill.filledQuantity ≤ pos.quantity) :
    (pm.handleFill fill).1.value p = pm.value p + fill.value p := by
  unfold value
  rcases pm.handleFill_cases fill with ⟨-, heq⟩ | ⟨i, pos, hpos, hopen, hkey, heq⟩
  · rw [heq, List.map_append, List.sum_append, List.map_singleton, List.sum_singleton,
      Position.value_opened]
  · have hmem := List.mem_of_getElem? hpos
    have hsum := List.sum_map_modify (Position.value p) (Position.filled fill) hpos
    rw [Position.value_filled ((h.contract pos hmem).trans hc.symm)
      (hwithin pos (List.mem_filter.mpr ⟨hmem, hopen⟩) hkey)] at hsum
    rw [heq]
    linarith

theorem Holds.handleFill (h : pm.Holds c) (hc : fill.contract = c) :
    (pm.handleFill fill).1.Holds c := by
  rcases pm.handleFill_cases fill with ⟨-, heq⟩ | ⟨i, x, hx, hopen, -, heq⟩
  · constructor <;> intro pos hpos <;>
      rcases List.mem_append.mp (heq ▸ hpos) with hpos | hpos
    · exact h.contract pos hpos
    · obtain rfl := List.mem_singleton.mp hpos
      exact hc
    · exact h.closed pos hpos
    · obtain rfl := List.mem_singleton.mp hpos
      exact fun hclosed => by cases hclosed
  · have hxc := h.contract x (List.mem_of_getElem? hx)
    constructor <;> intro pos hpos <;>
      rcases List.mem_of_mem_modify (heq ▸ hpos) with hpos | ⟨y, hy, rfl⟩
    · exact h.contract pos hpos
    · obtain rfl := Option.some.inj (hx.symm.trans hy)
      unfold Position.filled
      split_ifs <;> exact hxc
    · exact h.closed pos hpos
    · obtain rfl := Option.some.inj (hx.symm.trans hy)
      unfold Position.filled
      split_ifs
      · exact fun hclosed => absurd (hopen.symm.trans hclosed) (by decide)
      · exact fun hclosed => absurd (hopen.symm.trans hclosed) (by decide)
      · exact fun _ => rfl

/-- A run of fills in one contract, none of which exits more than is open:
the worth of the book is the worth of the fills. -/
theorem holds_afterFills {fills : List FillEvent}
    (hc : ∀ fill ∈ fills, fill.contract = c) (hwithin : WithinOpen fills) :
    (afterFills fills).Holds c
      ∧ ∀ p, (afterFills fills).value p = (fills.map (FillEvent.value p)).sum := by
  induction fills using List.reverseRecOn with
  | nil => exact ⟨⟨fun _ => nofun, fun _ => nofun⟩, fun _ => rfl⟩
  | append_singleton gs fill ih =>
    obtain ⟨hgs, hfill⟩ := List.forall_mem_append.mp hc
    obtain ⟨h, hvalue⟩ := ih hgs fun ks f hs heq => hwithin ks f (hs ++ [fill]) (by simp [heq])
    have hfill := hfill fill (List.mem_singleton_self fill)
    have hstep : afterFills (gs ++ [fill]) = ((afterFills gs).handleFill fill).1 :=
      List.foldl_append
    rw [hstep]
    refine ⟨h.handleFill hfill, fun p => ?_⟩
    rw [h.value_handleFill hfill (hwithin gs fill [] rfl), hvalue, List.map_append,
      List.sum_append, List.map_singleton, List.sum_singleton]

/-- What a flat book is worth has been realized. -/
theorem Holds.realized_of_flat (h : pm.Holds c) (hflat : pm.getOpenPositions = []) :
    (pm.positions.map (·.realizedPnl)).sum = pm.value p := by
  refine congrArg _ (List.map_congr_left fun pos hpos => ?_)
  have hclosed : pos.status.isOpen = false := by
    simpa using List.filter_eq_nil_iff.mp hflat pos hpos
  rw [Position.value, h.closed pos hpos hclosed]
  simp

/-- The worth of the fills at the price zero is what was sold less what was
bought. -/
theorem sum_value_zero {fills : List FillEvent}
    (hc : ∀ fill ∈ fills, fill.contract = c) :
    (fills.map (FillEvent.value 0)).sum
      = (turnover .sell fills - turnover .buy fills) * c.multiplier := by
  induction fills with
  | nil => simp [turnover]
  | cons fill fills ih =>
    obtain ⟨hfill, hc⟩ := List.forall_mem_cons.mp hc
    rw [List.map_cons, List.sum_cons, ih hc]
    unfold turnover FillEvent.value
    cases hside : fill.side <;> simp [hside, hfill] <;> ring

/-- **The accounting identity**: where no fill exits more than is open, the
realized profit and the gain on what is left add up, at every price, to the
gains of all fills; and in a flat book what has been realized is what was
sold less what was bought. -/
theorem profitAndLoss_eq {sid : StrategyId} {c : OptionContract} {fills : List FillEvent}
    (hfills : ∀ fill ∈ fills, fill.strategyId = sid ∧ fill.contract = c)
    (hwithin : WithinOpen fills) :
    (∀ p : Price, ((afterFills fills).positions.map fun pos =>
          pos.realizedPnl + pos.side.sign * (p - pos.averageEntryPrice) * pos.quantity
            * pos.contract.multiplier).sum
        = (fills.map fun fill =>
          fill.side.sign * (p - fill.fillPrice) * fill.filledQuantity
            * fill.contract.multiplier).sum)
      ∧ ((afterFills fills).getOpenPositions = [] →
        ((afterFills fills).positions.map (·.realizedPnl)).sum
          = (turnover .sell fills - turnover .buy fills) * c.multiplier) := by
  have hc : ∀ fill ∈ fills, fill.contract = c := fun fill hfill => (hfills fill hfill).2
  obtain ⟨h, hvalue⟩ := holds_afterFills hc hwithin
  refine ⟨hvalue, fun hflat => ?_⟩
  rw [h.realized_of_flat hflat, ← sum_value_zero hc]
  exact hvalue 0

/-- Two contracts bought at `1` and sold at `3`. -/
def sampleRoundTrip : List FillEvent :=
  [sampleFill .buy 2 Nat.zero_lt_two,
    { sampleFill .sell 2 Nat.zero_lt_two with fillPrice := 3, price_pos := by decide }]

theorem sampleRoundTrip_fills : ∀ fill ∈ sampleRoundTrip, fill.strategyId = "orb"
    ∧ fill.contract = sampleContract := by simp [sampleRoundTrip, sampleFill]

theorem withinOpen_sampleRoundTrip : WithinOpen sampleRoundTrip := by
  rintro (_ | ⟨g, _ | ⟨g', gs⟩⟩) fill hs heq pos hpos
  · cases hpos
  · obtain ⟨rfl, rfl, rfl⟩ := heq
    obtain rfl := List.mem_singleton.mp hpos
    exact fun _ _ => le_rfl
  · simp [sampleRoundTrip] at heq

/-- The profit of the round trip is what it sold for less what it cost. -/
theorem profitAndLoss_roundTrip :
    ((afterFills sampleRoundTrip).positions.map (·.realizedPnl)).sum
      = (turnover .sell sampleRoundTrip - turnover .buy sampleRoundTrip)
        * sampleContract.multiplier :=
  (profitAndLoss_eq sampleRoundTrip_fills withinOpen_sampleRoundTrip).2 (by decide +kernel)

end PositionManager
