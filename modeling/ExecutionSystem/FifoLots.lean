import Mathlib.Algebra.BigOperators.Group.List.Basic
import Mathlib.Algebra.BigOperators.Ring.List
import Mathlib.Algebra.Ring.Defs
import Mathlib.Data.List.Induction
import Mathlib.Logic.Function.Basic
import Mathlib.Tactic.Ring

/-!
# Profit by matching lots, first in first out

Trades are booked under keys. A trade is matched against the lots that are
held under its key on the other side, the oldest first; what is left of it
becomes a lot. The profit of the matches goes to the account of the trade.

A list of lots is a way to write down a queue of single pieces, each at its
price, all bought or all sold (`Lot.Represents`), and on the queue a trade is
one expression (`PieceQueue.trade`): matching `q` pieces takes the first `q`.
There it is plain that trades at one price add up (`PieceQueue.trade_add`),
and so that **who books every trade `n` times books `n` times the profit**
(`Ledger.profit_replicate`). Trades that are never matched, because all
trades of their key are on one side, make no profit and can be left out
(`Ledger.profit_filter`).

A piece is worth, at any price, what it has gained since it was traded. A
trade exchanges worth for profit (`PieceQueue.trade_worth`), so the profit of
all trades under one key and the worth of what is left of them are the worth
of the trades, at every price (`Ledger.worth_books`), whatever is matched
with what.
-/

/-- What is left of a trade. -/
structure Lot (R : Type*) where
  quantity : ℕ
  price : R
  buy : Bool
  deriving DecidableEq

/-- A trade under a key, for an account. -/
structure Trade (κ ι R : Type*) where
  key : κ
  account : ι
  quantity : ℕ
  price : R
  buy : Bool

/-- The lots under each key, and the profit of each account. -/
structure Ledger (κ ι R : Type*) where
  lots : κ → List (Lot R)
  profit : ι → R

/-- A queue of pieces at their prices, all bought or all sold. -/
structure PieceQueue (R : Type*) where
  buy : Bool
  pieces : List R

/-! ## Every piece several times -/

namespace PieceQueue

section Copies

variable {α : Type*}

theorem length_flatMap_replicate (n : ℕ) (pieces : List α) :
    (pieces.flatMap (List.replicate n)).length = n * pieces.length := by
  induction pieces with
  | nil => rfl
  | cons x pieces ih =>
    rw [List.flatMap_cons, List.length_append, List.length_replicate, ih, List.length_cons]
    ring

theorem take_flatMap_replicate (n q : ℕ) (pieces : List α) :
    (pieces.flatMap (List.replicate n)).take (n * q)
      = (pieces.take q).flatMap (List.replicate n) := by
  induction pieces generalizing q with
  | nil => rw [List.take_nil, List.flatMap_nil, List.take_nil]
  | cons x pieces ih =>
    cases q with
    | zero => rfl
    | succ q =>
      rw [List.take_succ_cons, List.flatMap_cons, List.flatMap_cons, ← ih, Nat.mul_succ,
        Nat.add_comm, List.take_add, List.take_left' (List.length_replicate),
        List.drop_left' (List.length_replicate)]

theorem drop_flatMap_replicate (n q : ℕ) (pieces : List α) :
    (pieces.flatMap (List.replicate n)).drop (n * q)
      = (pieces.drop q).flatMap (List.replicate n) := by
  induction pieces generalizing q with
  | nil => rw [List.drop_nil, List.flatMap_nil, List.drop_nil]
  | cons x pieces ih =>
    cases q with
    | zero => rfl
    | succ q =>
      rw [List.drop_succ_cons, List.flatMap_cons, ← ih, Nat.mul_succ, Nat.add_comm,
        ← List.drop_drop, List.drop_left' (List.length_replicate)]

theorem sum_map_flatMap_replicate {R : Type*} [CommRing R] (n : ℕ) (f : α → R)
    (pieces : List α) :
    ((pieces.flatMap (List.replicate n)).map f).sum = n * (pieces.map f).sum := by
  induction pieces with
  | nil => exact (mul_zero _).symm
  | cons x pieces ih =>
    rw [List.flatMap_cons, List.map_append, List.sum_append, ih, List.map_replicate,
      List.sum_replicate, List.map_cons, List.sum_cons, nsmul_eq_mul, mul_add]

theorem flatMap_replicate_replicate (n q : ℕ) (x : α) :
    (List.replicate q x).flatMap (List.replicate n) = List.replicate (n * q) x := by
  induction q with
  | zero => rfl
  | succ q ih =>
    rw [List.replicate_succ, List.flatMap_cons, ih, List.replicate_append_replicate,
      Nat.mul_succ, Nat.add_comm]

end Copies

end PieceQueue

/-! ## Matching -/

namespace Lot

variable {R : Type*}

/-- The pieces of lots, one by one. -/
def pieces (lots : List (Lot R)) : List R :=
  lots.flatMap fun lot => List.replicate lot.quantity lot.price

theorem pieces_cons (lot : Lot R) (lots : List (Lot R)) :
    pieces (lot :: lots) = List.replicate lot.quantity lot.price ++ pieces lots :=
  List.flatMap_cons

theorem length_pieces (lots : List (Lot R)) :
    (pieces lots).length = (lots.map (·.quantity)).sum := by
  induction lots with
  | nil => rfl
  | cons lot lots ih =>
    rw [pieces_cons, List.length_append, List.length_replicate, ih, List.map_cons, List.sum_cons]

theorem pieces_append_singleton (lots : List (Lot R)) (lot : Lot R) :
    pieces (lots ++ [lot]) = pieces lots ++ List.replicate lot.quantity lot.price := by
  unfold pieces
  rw [List.flatMap_append, List.flatMap_singleton]

end Lot

section Matching

variable {R : Type*} [CommRing R]

namespace Lot

/-- The profit on a piece held at a price `held` that is traded back. -/
def gain (buy : Bool) (price held : R) : R := if buy then held - price else price - held

/-- **The matching loop**: the profit, what is left of the trade, and the
lots that are left. -/
def settle (buy : Bool) (price : R) : ℕ → List (Lot R) → R × ℕ × List (Lot R)
  | q, [] => (0, q, [])
  | q, lot :: lots =>
    if q = 0 ∨ lot.buy = buy then (0, q, lot :: lots)
    else
      let matched := min q lot.quantity
      let profit := gain buy price lot.price * matched
      if lot.quantity - matched = 0 then
        let rest := settle buy price (q - matched) lots
        (profit + rest.1, rest.2)
      else (profit, q - matched, { lot with quantity := lot.quantity - matched } :: lots)

/-- **A trade**: what is left of it becomes a lot. -/
def trade (buy : Bool) (price : R) (q : ℕ) (lots : List (Lot R)) : R × List (Lot R) :=
  let settled := settle buy price q lots
  (settled.1,
    if 0 < settled.2.1 then settled.2.2 ++ [⟨settled.2.1, price, buy⟩] else settled.2.2)

/-- **Lots that are all on one side stand for a queue of their pieces.** -/
def Represents (lots : List (Lot R)) (queue : PieceQueue R) : Prop :=
  (∀ lot ∈ lots, lot.buy = queue.buy) ∧ pieces lots = queue.pieces

end Lot

namespace PieceQueue

/-- **A trade of `q` pieces**: on the side of the queue it adds to it, and on
the other side it takes the first ones, and leaves what is over. -/
def trade (buy : Bool) (price : R) (q : ℕ) (queue : PieceQueue R) : R × PieceQueue R :=
  if buy = queue.buy then (0, ⟨buy, queue.pieces ++ List.replicate q price⟩)
  else
    (((queue.pieces.take q).map (Lot.gain buy price)).sum,
      if q ≤ queue.pieces.length then ⟨queue.buy, queue.pieces.drop q⟩
      else ⟨buy, List.replicate (q - queue.pieces.length) price⟩)

/-- Every piece `n` times. -/
def copies (n : ℕ) (queue : PieceQueue R) : PieceQueue R :=
  ⟨queue.buy, queue.pieces.flatMap (List.replicate n)⟩

/-! ## Trades of pieces add up -/

variable {buy side : Bool} {price : R} {pieces : List R} {q : ℕ}

/-- A trade on the side of the queue. -/
theorem trade_same (q : ℕ) : trade buy price q ⟨buy, pieces⟩
    = (0, ⟨buy, pieces ++ List.replicate q price⟩) := if_pos rfl

/-- A trade on the other side that the queue can serve. -/
theorem trade_within (h : buy ≠ side) (hq : q ≤ pieces.length) :
    trade buy price q ⟨side, pieces⟩
      = (((pieces.take q).map (Lot.gain buy price)).sum, ⟨side, pieces.drop q⟩) := by
  unfold trade
  rw [if_neg h, if_pos hq]

/-- A trade on the other side that empties the queue. -/
theorem trade_beyond (h : buy ≠ side) (hq : ¬ q ≤ pieces.length) :
    trade buy price q ⟨side, pieces⟩
      = ((pieces.map (Lot.gain buy price)).sum,
        ⟨buy, List.replicate (q - pieces.length) price⟩) := by
  unfold trade
  rw [if_neg h, if_neg hq, List.take_of_length_le (Nat.le_of_not_le hq)]

theorem trade_zero (queue : PieceQueue R) : trade buy price 0 queue = (0, queue) := by
  obtain ⟨side, pieces⟩ := queue
  by_cases h : buy = side
  · subst h
    rw [trade_same, List.replicate_zero, List.append_nil]
  · rw [trade_within h (Nat.zero_le _)]
    rfl

/-- **Two trades at one price are one.** -/
theorem trade_add (q r : ℕ) (queue : PieceQueue R) : trade buy price (q + r) queue
    = ((trade buy price q queue).1 + (trade buy price r (trade buy price q queue).2).1,
      (trade buy price r (trade buy price q queue).2).2) := by
  obtain ⟨side, pieces⟩ := queue
  by_cases hside : buy = side
  · subst hside
    rw [trade_same, trade_same, trade_same, add_zero, List.append_assoc,
      List.replicate_append_replicate]
  by_cases hq : q ≤ pieces.length
  · rw [trade_within hside hq]
    by_cases hr : q + r ≤ pieces.length
    · have hr' : r ≤ (pieces.drop q).length := by rw [List.length_drop]; omega
      rw [trade_within hside hr, trade_within hside hr', List.take_add, List.map_append,
        List.sum_append, List.drop_drop]
    · have hr' : ¬ r ≤ (pieces.drop q).length := by rw [List.length_drop]; omega
      rw [trade_beyond hside hr, trade_beyond hside hr', ← List.sum_append, ← List.map_append,
        List.take_append_drop, List.length_drop]
      have hover : q + r - pieces.length = r - (pieces.length - q) := by omega
      rw [hover]
  · -- the first trade has turned the queue to its own side
    have hqr : ¬ q + r ≤ pieces.length := by omega
    rw [trade_beyond hside hq, trade_beyond hside hqr, trade_same, add_zero,
      List.replicate_append_replicate]
    have hover : q + r - pieces.length = q - pieces.length + r := by omega
    rw [hover]

/-- **`n` times the pieces, `n` times the trade: `n` times the profit.** -/
theorem trade_copies {n : ℕ} (hn : 0 < n) (q : ℕ) (queue : PieceQueue R) :
    trade buy price (n * q) (queue.copies n)
      = (n * (trade buy price q queue).1, (trade buy price q queue).2.copies n) := by
  obtain ⟨side, pieces⟩ := queue
  unfold copies
  by_cases hside : buy = side
  · subst hside
    rw [trade_same, trade_same, mul_zero, List.flatMap_append, flatMap_replicate_replicate]
  have hlength := length_flatMap_replicate n pieces
  by_cases hq : q ≤ pieces.length
  · have hnq : n * q ≤ (pieces.flatMap (List.replicate n)).length :=
      hlength ▸ Nat.mul_le_mul_left n hq
    rw [trade_within hside hq, trade_within hside hnq, take_flatMap_replicate,
      sum_map_flatMap_replicate, drop_flatMap_replicate]
  · have hnq : ¬ n * q ≤ (pieces.flatMap (List.replicate n)).length := by
      rw [hlength, Nat.mul_le_mul_left_iff hn]
      exact hq
    rw [trade_beyond hside hq, trade_beyond hside hnq, sum_map_flatMap_replicate,
      flatMap_replicate_replicate, hlength, Nat.mul_sub]

end PieceQueue

/-! ### Trades exchange worth for profit -/

/-- The sign of a side: bought is positive. -/
def sideSign (buy : Bool) : ℤ := if buy then 1 else -1

theorem sideSign_of_ne {buy side : Bool} (h : buy ≠ side) : sideSign side = -sideSign buy := by
  cases buy <;> cases side <;> first | rfl | exact absurd rfl h

/-- **What a trade is worth at a price**: the gain since it was made. -/
def tradeWorth (p : R) (buy : Bool) (price : R) (q : ℕ) : R :=
  sideSign buy * (p - price) * q

namespace PieceQueue

variable {buy side : Bool} {p price : R} {pieces : List R} {q : ℕ}

/-- **What a queue is worth at a price.** -/
def worth (p : R) (queue : PieceQueue R) : R :=
  (queue.pieces.map fun held => sideSign queue.buy * (p - held)).sum

/-- The signed number of pieces. -/
def net (queue : PieceQueue R) : ℤ := sideSign queue.buy * queue.pieces.length

theorem worth_replicate : worth p ⟨buy, List.replicate q price⟩ = tradeWorth p buy price q := by
  show (List.map _ (List.replicate q price)).sum = _
  rw [List.map_replicate, List.sum_replicate, nsmul_eq_mul, tradeWorth, mul_comm]

theorem worth_append (us vs : List R) :
    worth p ⟨buy, us ++ vs⟩ = worth p ⟨buy, us⟩ + worth p ⟨buy, vs⟩ := by
  show (List.map _ (us ++ vs)).sum = _
  rw [List.map_append, List.sum_append]
  rfl

/-- What is matched was worth its profit, less what the trade is worth. -/
theorem sum_gain (h : buy ≠ side) (pieces : List R) :
    (pieces.map (Lot.gain buy price)).sum
      = worth p ⟨side, pieces⟩ + tradeWorth p buy price pieces.length := by
  induction pieces with
  | nil => simp [worth, tradeWorth]
  | cons held pieces ih =>
    have hcons : worth p ⟨side, held :: pieces⟩
        = sideSign side * (p - held) + worth p ⟨side, pieces⟩ := List.sum_cons
    rw [List.map_cons, List.sum_cons, ih, hcons, List.length_cons, sideSign_of_ne h]
    unfold tradeWorth Lot.gain sideSign
    push_cast
    cases buy <;> simp <;> ring

/-- **A trade exchanges worth for profit**: the profit and the worth of what
is left are what the queue and the trade were worth, at every price. -/
theorem trade_worth (q : ℕ) (queue : PieceQueue R) :
    (trade buy price q queue).1 + worth p (trade buy price q queue).2
      = worth p queue + tradeWorth p buy price q := by
  obtain ⟨side, pieces⟩ := queue
  by_cases hside : buy = side
  · subst hside
    rw [trade_same, zero_add, worth_append, worth_replicate]
  by_cases hq : q ≤ pieces.length
  · rw [trade_within hside hq, sum_gain (p := p) hside, List.length_take, Nat.min_eq_left hq]
    have hsplit := @worth_append R _ side p (pieces.take q) (pieces.drop q)
    rw [List.take_append_drop] at hsplit
    rw [hsplit]
    ring
  · rw [trade_beyond hside hq, sum_gain (p := p) hside, worth_replicate]
    have hover : (q : R) = pieces.length + (q - pieces.length : ℕ) := by
      rw [← Nat.cast_add, Nat.add_sub_cancel' (Nat.le_of_not_le hq)]
    unfold tradeWorth
    rw [hover]
    ring

/-- **A trade changes the signed number of pieces by its own.** -/
theorem net_trade (q : ℕ) (queue : PieceQueue R) :
    (trade buy price q queue).2.net = queue.net + sideSign buy * q := by
  obtain ⟨side, pieces⟩ := queue
  unfold net
  by_cases hside : buy = side
  · subst hside
    rw [trade_same, List.length_append, List.length_replicate]
    push_cast
    ring
  by_cases hq : q ≤ pieces.length
  · rw [trade_within hside hq, List.length_drop, Nat.cast_sub hq]
    dsimp only
    rw [sideSign_of_ne hside]
    ring
  · rw [trade_beyond hside hq, List.length_replicate, Nat.cast_sub (Nat.le_of_not_le hq)]
    dsimp only
    rw [sideSign_of_ne hside]
    ring

/-- A queue without pieces is worth nothing. -/
theorem worth_of_net_eq_zero {queue : PieceQueue R} (h : queue.net = 0) :
    worth p queue = 0 := by
  obtain ⟨side, pieces⟩ := queue
  have hsign : sideSign side ≠ 0 := by cases side <;> decide
  have hnil : pieces = [] := by
    refine List.eq_nil_of_length_eq_zero ?_
    exact_mod_cast (mul_eq_zero.mp h).resolve_left hsign
  subst hnil
  rfl

end PieceQueue

/-! ### Lots stand for pieces -/

namespace Lot

variable {buy : Bool} {price : R} {lots : List (Lot R)} {queue : PieceQueue R}

/-- Nothing is matched on the side of the lots. -/
theorem settle_same (h : ∀ lot ∈ lots, lot.buy = buy) (q : ℕ) :
    settle buy price q lots = (0, q, lots) := by
  cases lots with
  | nil => rfl
  | cons lot lots => exact if_pos (.inr (h lot List.mem_cons_self))

/-- The first lot is used up. -/
theorem settle_cons_of_le {lot : Lot R} {q : ℕ} (hq : q ≠ 0) (hside : lot.buy ≠ buy)
    (hle : lot.quantity ≤ q) : settle buy price q (lot :: lots)
      = (gain buy price lot.price * lot.quantity
          + (settle buy price (q - lot.quantity) lots).1,
        (settle buy price (q - lot.quantity) lots).2) := by
  rw [settle, if_neg (not_or.mpr ⟨hq, hside⟩)]
  dsimp only
  rw [Nat.min_eq_right hle, if_pos (Nat.sub_self _)]

/-- The first lot is enough. -/
theorem settle_cons_of_lt {lot : Lot R} {q : ℕ} (hq : q ≠ 0) (hside : lot.buy ≠ buy)
    (hlt : q < lot.quantity) : settle buy price q (lot :: lots)
      = (gain buy price lot.price * q, 0,
        { lot with quantity := lot.quantity - q } :: lots) := by
  rw [settle, if_neg (not_or.mpr ⟨hq, hside⟩)]
  dsimp only
  rw [Nat.min_eq_left (Nat.le_of_lt hlt), if_neg (Nat.sub_ne_zero_of_lt hlt), Nat.sub_self]

/-- **What the matching loop leaves** of lots on the other side, where it has
matched the first `q` pieces. -/
structure Matched (buy : Bool) (price : R) (q : ℕ) (lots : List (Lot R))
    (settled : R × ℕ × List (Lot R)) : Prop where
  profit : settled.1 = (((pieces lots).take q).map (gain buy price)).sum
  left : settled.2.1 = q - (pieces lots).length
  pieces : pieces settled.2.2 = (pieces lots).drop q
  side : ∀ lot ∈ settled.2.2, lot.buy ≠ buy
  empty : (Lot.pieces lots).length < q → settled.2.2 = []

theorem matched_settle (h : ∀ lot ∈ lots, lot.buy ≠ buy) (q : ℕ) :
    Matched buy price q lots (settle buy price q lots) := by
  induction lots generalizing q with
  | nil => exact ⟨by simp [settle, Lot.pieces], rfl, by simp [settle, Lot.pieces], h, fun _ => rfl⟩
  | cons lot lots ih =>
    obtain ⟨hlot, hlots⟩ := List.forall_mem_cons.mp h
    have hlength : (Lot.pieces (lot :: lots)).length
        = lot.quantity + (Lot.pieces lots).length := by
      rw [pieces_cons, List.length_append, List.length_replicate]
    rcases Nat.eq_zero_or_pos q with rfl | hq
    · rw [settle, if_pos (.inl rfl)]
      exact ⟨rfl, (Nat.zero_sub _).symm, rfl, h, fun hlt => absurd hlt (Nat.not_lt_zero _)⟩
    -- the lot is used up and the rest of the quantity goes on, or a part of it is left
    by_cases hle : lot.quantity ≤ q
    · have hrest := ih hlots (q - lot.quantity)
      have hsplit : q = lot.quantity + (q - lot.quantity) := by omega
      rw [settle_cons_of_le (Nat.ne_of_gt hq) hlot hle]
      refine ⟨?_, ?_, ?_, hrest.side, fun hlt => hrest.empty (by omega)⟩
      · show _ + (settle _ _ _ _).1 = _
        rw [hrest.profit, pieces_cons, hsplit, List.take_add, List.take_left' List.length_replicate,
          List.drop_left' List.length_replicate, List.map_append, List.sum_append,
          List.map_replicate, List.sum_replicate, nsmul_eq_mul, mul_comm, ← hsplit]
      · show (settle _ _ _ _).2.1 = _
        rw [hrest.left, hlength, Nat.sub_sub]
      · show Lot.pieces (settle _ _ _ _).2.2 = _
        rw [hrest.pieces, pieces_cons, hsplit, ← List.drop_drop,
          List.drop_left' List.length_replicate, ← hsplit]
    · have hlt : q < lot.quantity := Nat.lt_of_not_le hle
      rw [settle_cons_of_lt (Nat.ne_of_gt hq) hlot hlt]
      refine ⟨?_, ?_, ?_, ?_, fun hlt' => absurd hlt' (by omega)⟩
      · show gain buy price lot.price * q = _
        rw [pieces_cons, List.take_append_of_le_length (by rw [List.length_replicate]; omega),
          List.take_replicate, Nat.min_eq_left (Nat.le_of_lt hlt), List.map_replicate,
          List.sum_replicate, nsmul_eq_mul, mul_comm]
      · show 0 = _
        omega
      · show Lot.pieces (_ :: lots) = _
        rw [pieces_cons, pieces_cons,
          List.drop_append_of_le_length (by rw [List.length_replicate]; omega),
          List.drop_replicate]
      · exact List.forall_mem_cons.mpr ⟨hlot, hlots⟩

/-- **A trade of lots is the trade of their pieces.** -/
theorem represents_trade (h : Represents lots queue) (q : ℕ) :
    (trade buy price q lots).1 = (queue.trade buy price q).1
      ∧ Represents (trade buy price q lots).2 (queue.trade buy price q).2 := by
  obtain ⟨side, us⟩ := queue
  obtain ⟨hside, rfl⟩ := h
  replace hside : ∀ lot ∈ lots, lot.buy = side := hside
  unfold trade
  dsimp only
  -- a trade on the side of the queue adds a lot, another settles the lots there are
  by_cases hb : buy = side
  · subst hb
    rw [settle_same hside, PieceQueue.trade_same]
    refine ⟨rfl, ?_⟩
    dsimp only
    split_ifs with hq
    · refine ⟨?_, pieces_append_singleton _ _⟩
      exact List.forall_mem_append.mpr ⟨hside, List.forall_mem_singleton.mpr rfl⟩
    · obtain rfl : q = 0 := Nat.eq_zero_of_not_pos hq
      exact ⟨hside, (List.append_nil _).symm⟩
  · have hm := @matched_settle R _ buy price lots
      (fun lot hlot heq => hb (heq.symm.trans (hside lot hlot))) q
    by_cases hq : q ≤ (pieces lots).length
    · rw [PieceQueue.trade_within hb hq]
      have hleft : ¬ 0 < (settle buy price q lots).2.1 := by
        rw [hm.left]
        omega
      rw [if_neg hleft]
      refine ⟨hm.profit, fun lot hlot => ?_, hm.pieces⟩
      show lot.buy = side
      have hne := hm.side lot hlot
      revert hne hb
      cases lot.buy <;> cases buy <;> cases side <;> decide
    · rw [PieceQueue.trade_beyond hb hq]
      have hleft : 0 < (settle buy price q lots).2.1 := by
        rw [hm.left]
        omega
      rw [if_pos hleft, hm.empty (Nat.lt_of_not_le hq), hm.left]
      refine ⟨?_, List.forall_mem_singleton.mpr rfl, pieces_append_singleton [] _⟩
      rw [hm.profit, List.take_of_length_le (Nat.le_of_not_le hq)]

end Lot

/-! ## The ledger -/

namespace Ledger

variable {κ ι : Type*} [DecidableEq κ] [DecidableEq ι]

/-- No lots, and no profit. -/
def empty : Ledger κ ι R := ⟨fun _ => [], fun _ => 0⟩

/-- **A trade is booked.** -/
def book (ledger : Ledger κ ι R) (t : Trade κ ι R) : Ledger κ ι R :=
  let traded := Lot.trade t.buy t.price t.quantity (ledger.lots t.key)
  { lots := Function.update ledger.lots t.key traded.2
    profit := Function.update ledger.profit t.account (ledger.profit t.account + traded.1) }

/-- All trades are. -/
def books (ts : List (Trade κ ι R)) : Ledger κ ι R := ts.foldl book empty

theorem lots_book (ledger : Ledger κ ι R) (t : Trade κ ι R) :
    (ledger.book t).lots = Function.update ledger.lots t.key
      (Lot.trade t.buy t.price t.quantity (ledger.lots t.key)).2 := rfl

theorem profit_book (ledger : Ledger κ ι R) (t : Trade κ ι R) :
    (ledger.book t).profit = Function.update ledger.profit t.account (ledger.profit t.account
      + (Lot.trade t.buy t.price t.quantity (ledger.lots t.key)).1) := rfl

variable {ledger ledger' : Ledger κ ι R} {t : Trade κ ι R} {queue : PieceQueue R} {n : ℕ}

/-- **A trade that is booked `m` times** is one of `m` times its pieces. -/
theorem book_replicate (m : ℕ) (h : Lot.Represents (ledger.lots t.key) queue) :
    Lot.Represents (((List.replicate m t).foldl book ledger).lots t.key)
        (queue.trade t.buy t.price (m * t.quantity)).2
      ∧ (∀ k, k ≠ t.key → ((List.replicate m t).foldl book ledger).lots k = ledger.lots k)
      ∧ ((List.replicate m t).foldl book ledger).profit
        = Function.update ledger.profit t.account (ledger.profit t.account
          + (queue.trade t.buy t.price (m * t.quantity)).1) := by
  induction m generalizing ledger queue with
  | zero =>
    rw [Nat.zero_mul, PieceQueue.trade_zero, add_zero, Function.update_eq_self]
    exact ⟨h, fun _ _ => rfl, rfl⟩
  | succ m ih =>
    obtain ⟨hprofit, hlots⟩ := @Lot.represents_trade R _ t.buy t.price _ _ h t.quantity
    have hbooked : Lot.Represents ((ledger.book t).lots t.key)
        (queue.trade t.buy t.price t.quantity).2 := by
      rw [lots_book, Function.update_self]
      exact hlots
    obtain ⟨hrep, hother, hsum⟩ := ih hbooked
    rw [List.replicate_succ, List.foldl_cons, Nat.succ_mul, Nat.add_comm, PieceQueue.trade_add]
    refine ⟨hrep, fun k hk => ?_, ?_⟩
    · rw [hother k hk]
      exact Function.update_of_ne hk _ _
    · rw [hsum, profit_book, Function.update_self, Function.update_idem, hprofit, add_assoc]

/-- **The same lots with every piece `n` times, and `n` times the profit.** -/
structure Scaled (n : ℕ) (ledger ledger' : Ledger κ ι R) : Prop where
  lots : ∀ k, ∃ queue, Lot.Represents (ledger.lots k) queue
    ∧ Lot.Represents (ledger'.lots k) (queue.copies n)
  profit : ∀ a, ledger'.profit a = n * ledger.profit a

theorem Scaled.book (hn : 0 < n) (h : Scaled n ledger ledger') (t : Trade κ ι R) :
    Scaled n (ledger.book t) ((List.replicate n t).foldl Ledger.book ledger') := by
  obtain ⟨queue, hqueue, hcopies⟩ := h.lots t.key
  obtain ⟨hprofit, hlots⟩ := @Lot.represents_trade R _ t.buy t.price _ _ hqueue t.quantity
  obtain ⟨hrep, hother, hsum⟩ := book_replicate n hcopies
  rw [PieceQueue.trade_copies hn] at hrep hsum
  constructor
  · intro k
    by_cases hk : k = t.key
    · subst hk
      refine ⟨(queue.trade t.buy t.price t.quantity).2, ?_, hrep⟩
      rw [lots_book, Function.update_self]
      exact hlots
    · rw [hother k hk, lots_book, Function.update_of_ne hk]
      exact h.lots k
  · intro a
    rw [hsum, profit_book]
    by_cases ha : a = t.account
    · subst ha
      rw [Function.update_self, Function.update_self, h.profit, hprofit, mul_add]
    · rw [Function.update_of_ne ha, Function.update_of_ne ha, h.profit]

/-- **Who books every trade `n` times books `n` times the profit.** -/
theorem profit_replicate (hn : 0 < n) (ts : List (Trade κ ι R)) (a : ι) :
    (books (ts.flatMap (List.replicate n))).profit a = n * (books ts).profit a := by
  have hscaled : ∀ (ts : List (Trade κ ι R)) {ledger ledger' : Ledger κ ι R},
      Scaled n ledger ledger' →
        Scaled n (ts.foldl book ledger) ((ts.flatMap (List.replicate n)).foldl book ledger') := by
    intro ts
    induction ts with
    | nil => exact id
    | cons t ts ih =>
      intro ledger ledger' h
      rw [List.flatMap_cons, List.foldl_append, List.foldl_cons]
      exact ih (h.book hn t)
  refine (hscaled ts ⟨fun k => ⟨⟨true, []⟩, ?_, ?_⟩, fun a => (mul_zero _).symm⟩).profit a
  · exact ⟨List.forall_mem_nil _, rfl⟩
  · exact ⟨List.forall_mem_nil _, rfl⟩

/-- The ledgers differ at most in lots under `k₀`, which are all on one
side. -/
structure SameBut (k₀ : κ) (buy : Bool) (ledger ledger' : Ledger κ ι R) : Prop where
  lots : ∀ k, k ≠ k₀ → ledger.lots k = ledger'.lots k
  side : ∀ lot ∈ ledger.lots k₀, lot.buy = buy
  profit : ledger.profit = ledger'.profit

/-- A trade under `k₀` is not matched. -/
theorem SameBut.bookUnmatched {k₀ : κ} {buy : Bool} (h : SameBut k₀ buy ledger ledger')
    (hk : t.key = k₀) (hbuy : t.buy = buy) : SameBut k₀ buy (ledger.book t) ledger' := by
  subst hk hbuy
  have htrade := @Lot.represents_trade R _ t.buy t.price (ledger.lots t.key)
    ⟨t.buy, Lot.pieces (ledger.lots t.key)⟩ ⟨h.side, rfl⟩ t.quantity
  rw [PieceQueue.trade_same] at htrade
  refine ⟨fun k hk => ?_, ?_, ?_⟩
  · rw [lots_book, Function.update_of_ne hk]
    exact h.lots k hk
  · rw [lots_book, Function.update_self]
    exact htrade.2.1
  · rw [profit_book, htrade.1, add_zero, Function.update_eq_self]
    exact h.profit

/-- Any other trade is booked alike. -/
theorem SameBut.book {k₀ : κ} {buy : Bool} (h : SameBut k₀ buy ledger ledger')
    (hk : t.key ≠ k₀) : SameBut k₀ buy (ledger.book t) (ledger'.book t) := by
  refine ⟨fun k hk' => ?_, ?_, ?_⟩
  · rw [lots_book, lots_book, h.lots t.key hk]
    by_cases hkt : k = t.key
    · rw [hkt, Function.update_self, Function.update_self]
    · rw [Function.update_of_ne hkt, Function.update_of_ne hkt]
      exact h.lots k hk'
  · rw [lots_book, Function.update_of_ne hk.symm]
    exact h.side
  · rw [profit_book, profit_book, h.lots t.key hk, h.profit]

/-- **Trades that are never matched can be left out.** -/
theorem profit_filter {k₀ : κ} {buy : Bool} {ts : List (Trade κ ι R)}
    (h : ∀ t ∈ ts, t.key = k₀ → t.buy = buy) :
    (books ts).profit = (books (ts.filter (·.key ≠ k₀))).profit := by
  have hsame : ∀ (ts : List (Trade κ ι R)) {ledger ledger' : Ledger κ ι R},
      (∀ t ∈ ts, t.key = k₀ → t.buy = buy) → SameBut k₀ buy ledger ledger' →
        SameBut k₀ buy (ts.foldl book ledger)
          ((ts.filter (·.key ≠ k₀)).foldl book ledger') := by
    intro ts
    induction ts with
    | nil => exact fun _ h => h
    | cons t ts ih =>
      intro ledger ledger' hts h
      obtain ⟨ht, hts⟩ := List.forall_mem_cons.mp hts
      by_cases hk : t.key = k₀
      · rw [List.filter_cons_of_neg (by simp [hk])]
        exact ih hts (h.bookUnmatched hk (ht hk))
      · rw [List.filter_cons_of_pos (by simp [hk])]
        exact ih hts (h.book hk)
  exact (hsame ts h ⟨fun _ _ => rfl, List.forall_mem_nil _, rfl⟩).profit

/-- **All trades under one key and for one account**: the lots stand for a
queue whose signed number is theirs, and the profit and the worth of it are
what the trades are worth. -/
theorem worth_books {k : κ} {a : ι} {ts : List (Trade κ ι R)}
    (hts : ∀ t ∈ ts, t.key = k ∧ t.account = a) :
    ∃ queue : PieceQueue R, Lot.Represents ((books ts).lots k) queue
      ∧ queue.net = (ts.map fun t => sideSign t.buy * (t.quantity : ℤ)).sum
      ∧ ∀ p, (books ts).profit a + queue.worth p
        = (ts.map fun t => tradeWorth p t.buy t.price t.quantity).sum := by
  induction ts using List.reverseRecOn with
  | nil =>
    exact ⟨⟨true, []⟩, ⟨List.forall_mem_nil _, rfl⟩, rfl, fun p => add_zero _⟩
  | append_singleton ts t ih =>
    obtain ⟨hts, ht⟩ := List.forall_mem_append.mp hts
    obtain ⟨rfl, rfl⟩ := ht t (List.mem_singleton_self t)
    obtain ⟨queue, hqueue, hnet, hworth⟩ := ih hts
    have hbooks : books (ts ++ [t]) = (books ts).book t := List.foldl_append
    obtain ⟨hprofit, hlots⟩ := @Lot.represents_trade R _ t.buy t.price _ _ hqueue t.quantity
    refine ⟨(queue.trade t.buy t.price t.quantity).2, ?_, ?_, fun p => ?_⟩
    · rw [hbooks, lots_book, Function.update_self]
      exact hlots
    · rw [PieceQueue.net_trade, hnet, List.map_append, List.sum_append, List.map_singleton,
        List.sum_singleton]
    · rw [hbooks, profit_book, Function.update_self, hprofit, add_assoc, PieceQueue.trade_worth,
        ← add_assoc, hworth, List.map_append, List.sum_append, List.map_singleton,
        List.sum_singleton]

end Ledger

end Matching
