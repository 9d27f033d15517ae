import ExecutionSystem.ListFacts
import ExecutionSystem.PositionManager
import Mathlib.Data.List.Induction
import Mathlib.Tactic.Linarith
import Mathlib.Tactic.Ring

/-!
# Net quantities

What the open positions of a strategy in a contract add up to, against
what its fills add up to. The position manager holds at most one open
position for a strategy and a contract, so a fill adds to it, takes from
it or closes it; and it closes it also when the fill is for more than the
position has, where the mock broker turns the position over to the other
side for the rest.

So a fill changes the net by its own signed quantity, except that a net
which would pass through zero stops there (`stopAtZero`). Net quantities
are conserved by a run of fills exactly when no fill of it passes through
zero, and such a run may be split into smaller fills at will.
-/

/-- The net after a fill of `d`: one that would pass through zero to the
other side stops at zero. -/
def stopAtZero (n d : ℤ) : ℤ := if n * (n + d) < 0 then 0 else n + d

theorem stopAtZero_eq_add {n d : ℤ} (h : ¬ n * (n + d) < 0) :
    stopAtZero n d = n + d := if_neg h

theorem stopAtZero_eq_zero {n d : ℤ} (hn : n ≠ 0) (h : n * (n + d) ≤ 0) :
    stopAtZero n d = 0 := by
  rcases h.lt_or_eq with hlt | heq
  · exact if_pos hlt
  · rw [stopAtZero_eq_add heq.not_lt]
    exact (mul_eq_zero.mp heq).resolve_left hn

/-- The sign drops out of the test for passing through zero. -/
theorem OrderSide.sign_mul_add (side : OrderSide) (a b : ℤ) :
    side.sign * a * (side.sign * a + side.sign * b) = a * (a + b) := by
  cases side <;> simp only [OrderSide.sign_buy, OrderSide.sign_sell] <;> ring

/-- The signed quantity of a position: bought is positive. -/
def Position.signed (pos : Position) : ℤ := pos.side.sign * pos.quantity

/-- The signed quantity of a fill. -/
def FillEvent.signed (fill : FillEvent) : ℤ := fill.side.sign * fill.filledQuantity

/-- **The signed quantity of all fills** of a strategy in a contract. -/
def signedFills (k : PositionKey) (fills : List FillEvent) : ℤ :=
  ((fills.filter (fun fill => fill.key = k)).map FillEvent.signed).sum

/-- **No fill takes a net through zero** to the other side. -/
def NoFlip (fills : List FillEvent) : Prop :=
  ∀ gs fill hs, fills = gs ++ fill :: hs →
    ¬ signedFills fill.key gs * (signedFills fill.key gs + fill.signed) < 0

/-- The parts are one fill in several: same strategy, contract, side and
price, and together the same quantity. -/
structure SplitOf (fill : FillEvent) (parts : List FillEvent) : Prop where
  key : ∀ g ∈ parts, g.key = fill.key
  side : ∀ g ∈ parts, g.side = fill.side
  price : ∀ g ∈ parts, g.fillPrice = fill.fillPrice
  quantity : (parts.map FillEvent.filledQuantity).sum = fill.filledQuantity

/-- The nets after a fill. -/
def fillNets (n : PositionKey → ℤ) (fill : FillEvent) : PositionKey → ℤ :=
  fun k => if fill.key = k then stopAtZero (n k) fill.signed else n k

namespace PositionManager

/-- **The net quantity** of the open positions of a strategy in a
contract. -/
def net (pm : PositionManager) (k : PositionKey) : ℤ :=
  ((pm.getOpenPositions.filter (fun pos => pos.key = k)).map Position.signed).sum

/-- The fills one after the other, from no positions. -/
def afterFills (fills : List FillEvent) : PositionManager :=
  fills.foldl (fun pm fill => (pm.handleFill fill).1) {}

/-- **At most one open position for a strategy and a contract**, and none
of it empty. -/
structure OnePerKey (pm : PositionManager) : Prop where
  nodup : (pm.getOpenPositions.map Position.key).Nodup
  positive : ∀ pos ∈ pm.positions, pos.status.isOpen = true → 0 < pos.quantity

/-! ## One fill -/

section Fill

variable {pm : PositionManager} {fill : FillEvent} {pos : Position}

/-- What a fill leaves of an open position is the two signed quantities
together, stopped at zero. -/
theorem signed_filled (fill : FillEvent) (hpos : 0 < pos.quantity)
    (hopen : pos.status.isOpen = true) :
    (if (pos.filled fill).status.isOpen then (pos.filled fill).signed else 0)
      = stopAtZero pos.signed fill.signed := by
  have hq : (0 : ℤ) < pos.quantity := by exact_mod_cast hpos
  have hf : (0 : ℤ) < fill.filledQuantity := by exact_mod_cast fill.filled_pos
  unfold Position.filled
  by_cases hside : fill.side = pos.side
  · -- both have the same sign, so their sum has it too
    rw [if_pos hside, if_pos (show (pos.added fill).status.isOpen = true from hopen),
      stopAtZero_eq_add]
    · simp only [Position.signed, FillEvent.signed, Position.added, hside,
        Nat.cast_add]
      ring
    · rw [Position.signed, FillEvent.signed, hside, OrderSide.sign_mul_add]
      exact (by positivity : (0 : ℤ) ≤ _).not_gt
  · have hopp : fill.signed = pos.side.sign * -fill.filledQuantity := by
      rw [FillEvent.signed, OrderSide.sign_of_ne (Ne.symm hside), neg_mul_comm]
    rw [if_neg hside]
    by_cases hlt : fill.filledQuantity < pos.quantity
    · have hltz : (fill.filledQuantity : ℤ) < pos.quantity := by exact_mod_cast hlt
      rw [if_pos hlt, if_pos (show (pos.reduced fill).status.isOpen = true from hopen),
        stopAtZero_eq_add]
      · simp only [Position.signed, Position.reduced, hopp, Nat.cast_sub hlt.le]
        ring
      · rw [Position.signed, hopp, OrderSide.sign_mul_add]
        exact (mul_nonneg hq.le (by linarith)).not_gt
    · have hge : (pos.quantity : ℤ) ≤ fill.filledQuantity := by
        exact_mod_cast not_lt.mp hlt
      rw [if_neg hlt, if_neg (show ¬ (pos.closedBy fill).status.isOpen = true from nofun),
        stopAtZero_eq_zero]
      · simp only [Position.signed]
        cases pos.side <;> simp <;> omega
      · rw [Position.signed, hopp, OrderSide.sign_mul_add]
        exact mul_nonpos_of_nonneg_of_nonpos hq.le (by linarith)

/-- A strategy and a contract without an open position have no net. -/
theorem net_of_not_mem_openKeys {k : PositionKey} (h : k ∉ pm.openKeys) : pm.net k = 0 := by
  have hnone : pm.getOpenPositions.filter (fun pos => pos.key = k) = [] := by
    refine List.filter_eq_nil_iff.mpr fun pos hpos hkey => h ?_
    exact List.mem_map.mpr ⟨pos, hpos, of_decide_eq_true hkey⟩
  rw [net, hnone, List.map_nil, List.sum_nil]

/-- The open position of a strategy and a contract is all of their net. -/
theorem OnePerKey.net_eq (h : pm.OnePerKey) (hmem : pos ∈ pm.positions)
    (hopen : pos.status.isOpen = true) : pm.net pos.key = pos.signed := by
  have hpos : pos ∈ pm.getOpenPositions := List.mem_filter.mpr ⟨hmem, hopen⟩
  simp [net, List.filter_key_eq h.nodup hpos]

/-- The net as one sum over all positions. -/
theorem net_eq_sum (k : PositionKey) :
    pm.net k = ((pm.positions.filter
      (fun pos => pos.key = k && pos.status.isOpen)).map Position.signed).sum := by
  rw [net, getOpenPositions, List.filter_filter]

theorem OnePerKey.handleFill (h : pm.OnePerKey) : (pm.handleFill fill).1.OnePerKey := by
  refine ⟨nodup_openKeys_handleFill h.nodup, fun pos hpos hopen => ?_⟩
  rcases pm.handleFill_cases fill with ⟨-, heq⟩ | ⟨i, x, hx, hxopen, -, heq⟩
  · rw [heq] at hpos
    rcases List.mem_append.mp hpos with hpos | hpos
    · exact h.positive pos hpos hopen
    · obtain rfl := List.mem_singleton.mp hpos
      exact fill.filled_pos
  · rw [heq] at hpos
    rcases List.mem_of_mem_modify hpos with hpos | ⟨y, hy, rfl⟩
    · exact h.positive pos hpos hopen
    · obtain rfl := Option.some.inj (hx.symm.trans hy)
      have hq := h.positive x (List.mem_of_getElem? hx) hxopen
      unfold Position.filled at hopen ⊢
      split_ifs at hopen ⊢ with hside hlt
      · exact Nat.add_pos_left hq _
      · exact Nat.sub_pos_of_lt hlt
      · cases hopen

/-- **What a fill does to the nets.** -/
theorem OnePerKey.net_handleFill (h : pm.OnePerKey) (k : PositionKey) :
    (pm.handleFill fill).1.net k
      = if fill.key = k then stopAtZero (pm.net k) fill.signed else pm.net k := by
  unfold PositionManager.handleFill PositionManager.handleFillDrawing
  cases ht : pm.target fill none with
  | none =>
    simp only [Option.bind_none, net_eq_sum, List.filter_append, List.map_append,
      List.sum_append]
    rw [← net_eq_sum]
    split_ifs with hk
    · subst hk
      rw [net_of_not_mem_openKeys (not_mem_openKeys_of_target ht)]
      simp [stopAtZero, Position.opened, Position.key, FillEvent.key,
        PositionStatus.isOpen, Position.signed, FillEvent.signed]
    · have hk' : ¬ (Position.opened pm.freshId fill).key = k := hk
      simp [hk']
  | some i =>
    obtain ⟨x, hx, hopen, hkey⟩ := candidate_of_target ht
    simp only [Option.bind_some, hx, Option.map_some]
    have hsum := List.sum_map_filter_modify
      (fun pos : Position => decide (pos.key = k) && pos.status.isOpen)
      Position.signed (Position.filled fill) hx
    simp only [key_filled, Bool.and_eq_true, decide_eq_true_eq] at hsum
    rw [net_eq_sum, net_eq_sum]
    have hmem := List.mem_of_getElem? hx
    split_ifs with hk
    · have hxk : x.key = k := hkey.trans hk
      have hx' := signed_filled fill (h.positive x hmem hopen) hopen
      have hnet := h.net_eq hmem hopen
      rw [hxk, net_eq_sum] at hnet
      simp only [hxk, hopen, true_and, if_true] at hsum
      rw [hx', ← hnet] at hsum
      linarith
    · have hxk : x.key ≠ k := fun heq => hk (hkey.symm.trans heq)
      simpa [hxk] using hsum

end Fill

/-! ## A run of fills -/

variable {pm : PositionManager}

theorem onePerKey_empty : ({} : PositionManager).OnePerKey where
  nodup := List.nodup_nil
  positive := fun _ hpos => absurd hpos List.not_mem_nil

theorem OnePerKey.foldl (h : pm.OnePerKey) (fills : List FillEvent) :
    (fills.foldl (fun pm fill => (pm.handleFill fill).1) pm).OnePerKey
      ∧ (fills.foldl (fun pm fill => (pm.handleFill fill).1) pm).net
        = fills.foldl fillNets pm.net := by
  induction fills generalizing pm with
  | nil => exact ⟨h, rfl⟩
  | cons fill fills ih =>
    have hnet : (pm.handleFill fill).1.net = fillNets pm.net fill :=
      funext fun k => h.net_handleFill k
    rw [List.foldl_cons, List.foldl_cons, ← hnet]
    exact ih h.handleFill

/-- **The nets of the book are the nets of the fills**, each stopped at
zero. -/
theorem net_afterFills (fills : List FillEvent) :
    (afterFills fills).net = fills.foldl fillNets fun _ => 0 :=
  (onePerKey_empty.foldl fills).2

end PositionManager

theorem signedFills_append (k : PositionKey) (gs hs : List FillEvent) :
    signedFills k (gs ++ hs) = signedFills k gs + signedFills k hs := by
  simp [signedFills]

theorem signedFills_singleton (k : PositionKey) (fill : FillEvent) :
    signedFills k [fill] = if fill.key = k then fill.signed else 0 := by
  by_cases hk : fill.key = k <;> simp [signedFills, hk]

/-- **Net quantities are conserved by a run of fills**: after each of them
the open positions add up to the fills so far. -/
def Conserves (fills : List FillEvent) : Prop :=
  ∀ gs, gs <+: fills → ∀ k, (PositionManager.afterFills gs).net k = signedFills k gs

/-- A fill is conserved exactly when it does not pass through zero. -/
theorem stopAtZero_eq_add_iff {n d : ℤ} :
    stopAtZero n d = n + d ↔ ¬ n * (n + d) < 0 := by
  refine ⟨fun h hflip => ?_, stopAtZero_eq_add⟩
  rw [stopAtZero, if_pos hflip] at h
  rw [← h, mul_zero] at hflip
  exact lt_irrefl _ hflip

/-- **Net quantities are conserved exactly by the runs without a flip.** -/
theorem conserves_iff {fills : List FillEvent} : Conserves fills ↔ NoFlip fills := by
  have hconcat : ∀ gs fill, ((gs ++ [fill]).foldl fillNets fun _ => 0)
      = fillNets (gs.foldl fillNets fun _ => 0) fill := fun gs fill => by
    rw [List.foldl_append]; rfl
  simp only [Conserves, PositionManager.net_afterFills]
  constructor
  · rintro h gs fill hs rfl
    have hbefore := h gs (List.prefix_append ..) fill.key
    have hafter := h (gs ++ [fill]) (by simp) fill.key
    rw [hconcat, fillNets, if_pos rfl, hbefore, signedFills_append,
      signedFills_singleton, if_pos rfl] at hafter
    exact stopAtZero_eq_add_iff.mp hafter
  · rintro h gs ⟨hs, rfl⟩ k
    induction gs using List.reverseRecOn generalizing hs with
    | nil => rfl
    | append_singleton gs fill ih =>
      rw [List.append_assoc] at h
      rw [hconcat, fillNets, signedFills_append, signedFills_singleton, ih _ h]
      split_ifs with hk
      · exact stopAtZero_eq_add (hk ▸ h gs fill hs rfl)
      · rw [add_zero]

/-! ## Splitting a fill -/

/-- Where the whole of a fill does not pass through zero, no part of it
does. -/
theorem not_flip_between {n a b q : ℤ} (side : OrderSide)
    (h : ¬ n * (n + side.sign * q) < 0) (ha : 0 ≤ a) (hab : a ≤ b) (hbq : b ≤ q) :
    ¬ (n + side.sign * a) * (n + side.sign * b) < 0 := by
  have hsides : ∀ m : ℤ, 0 ≤ m * (m + q) → 0 ≤ (m + a) * (m + b) := by
    intro m hm
    rcases le_or_gt 0 m with hpos | hneg
    · exact mul_nonneg (by linarith) (by linarith)
    · have : m + q ≤ 0 := nonpos_of_mul_nonneg_right hm hneg
      exact mul_nonneg_of_nonpos_of_nonpos (by linarith) (by linarith)
  rw [not_lt] at h ⊢
  cases side with
  | buy => simpa using hsides n (by simpa using h)
  | sell =>
    have := hsides (-n) (by rw [OrderSide.sign_sell] at h; linarith)
    rw [OrderSide.sign_sell]
    linarith

/-- Fills of one strategy, contract and side that together do not pass
through zero are as good as one. -/
theorem foldl_fillNets_of_same {k : PositionKey} {side : OrderSide}
    {parts : List FillEvent} (hkey : ∀ g ∈ parts, g.key = k)
    (hside : ∀ g ∈ parts, g.side = side) {n : PositionKey → ℤ}
    (h : ¬ n k * (n k
      + side.sign * ((parts.map FillEvent.filledQuantity).sum : ℕ)) < 0) :
    parts.foldl fillNets n = fun j => if k = j
      then n j + side.sign * ((parts.map FillEvent.filledQuantity).sum : ℕ) else n j := by
  induction parts generalizing n with
  | nil => simp
  | cons g gs ih =>
    obtain ⟨hg, hkey⟩ := List.forall_mem_cons.mp hkey
    obtain ⟨hs, hside⟩ := List.forall_mem_cons.mp hside
    rw [List.map_cons, List.sum_cons, Nat.cast_add] at h ⊢
    have hfirst : fillNets n g = fun j => if k = j
        then n j + side.sign * (g.filledQuantity : ℤ) else n j := by
      funext j
      rw [fillNets, hg, FillEvent.signed, hs]
      split_ifs with hj
      · subst hj
        refine stopAtZero_eq_add ?_
        simpa only [Nat.cast_zero, mul_zero, add_zero] using
          not_flip_between (a := (0 : ℕ)) side h le_rfl
            (Int.natCast_nonneg g.filledQuantity)
            (le_add_of_nonneg_right (Int.natCast_nonneg _))
      · rfl
    rw [List.foldl_cons, hfirst, ih hkey hside]
    · funext j
      split_ifs
      · ring
      · rfl
    · rw [if_pos rfl]
      have := not_flip_between side h (Int.natCast_nonneg g.filledQuantity)
        (le_add_of_nonneg_right (Int.natCast_nonneg _)) le_rfl
      rwa [mul_add side.sign, ← add_assoc] at this

/-- A fill that does not pass through zero does what its parts do. -/
theorem SplitOf.foldl_fillNets {fill : FillEvent} {parts : List FillEvent}
    (hsplit : SplitOf fill parts) {n : PositionKey → ℤ}
    (h : ¬ n fill.key * (n fill.key + fill.signed) < 0) :
    parts.foldl fillNets n = fillNets n fill := by
  rw [foldl_fillNets_of_same hsplit.key hsplit.side (by rwa [hsplit.quantity]),
    hsplit.quantity]
  funext k
  rw [fillNets]
  split_ifs with hk
  · subst hk
    exact (stopAtZero_eq_add h).symm
  · rfl

/-- **Net quantities are conserved by a run of fills exactly when no fill
of it passes through zero; and then a fill of it may be split without
changing a net.** -/
theorem netQuantity_conserved_iff (fills : List FillEvent) :
    (Conserves fills ↔ NoFlip fills)
      ∧ ∀ gs fill hs parts, fills = gs ++ fill :: hs → SplitOf fill parts →
          NoFlip fills → ∀ k,
            (PositionManager.afterFills (gs ++ parts ++ hs)).net k
              = (PositionManager.afterFills fills).net k := by
  refine ⟨conserves_iff, ?_⟩
  rintro gs fill hs parts rfl hsplit h k
  have hgs : (gs.foldl fillNets fun _ => 0) fill.key = signedFills fill.key gs := by
    rw [← PositionManager.net_afterFills]
    exact conserves_iff.mpr h gs (List.prefix_append ..) fill.key
  rw [PositionManager.net_afterFills, PositionManager.net_afterFills,
    List.foldl_append, List.foldl_append, List.foldl_append, List.foldl_cons,
    hsplit.foldl_fillNets (hgs ▸ h gs fill hs rfl)]

/-- A fill of the sample contract. -/
def sampleFill (side : OrderSide) (quantity : ℕ) (h : 0 < quantity) : FillEvent where
  orderId := 0
  strategyId := "orb"
  contract := sampleContract
  side := side
  filledQuantity := quantity
  fillPrice := 1
  timestamp := 0
  filled_pos := h
  price_pos := one_dollar_pos

/-- Net quantities are not conserved by every run: one contract bought and
two sold leave no open position. -/
theorem not_conserves : ¬ ∀ fills, Conserves fills := by
  intro h
  have hnet := h [sampleFill .buy 1 (by decide), sampleFill .sell 2 (by decide)] _
    List.prefix_rfl ("orb", sampleContract.identity)
  exact absurd hnet (by decide +kernel)
