import Mathlib.Algebra.Order.AbsoluteValue.Basic
import Mathlib.Algebra.Order.Field.Basic
import Mathlib.Data.Int.Cast.Lemmas
import Mathlib.Data.Int.ConditionallyCompleteOrder
import Mathlib.Order.Monotone.Basic
import Mathlib.Tactic.FieldSimp
import Mathlib.Tactic.Linarith

/-!
# Rounding

A rounding is a monotone map that keeps the values it produces
(`IsRounding`). That is all it takes for a bound to survive: rounding
never carries a value across one that is kept (`IsRounding.le_of_kept`,
`IsRounding.kept_le`).

Roundings to a grid come from roundings to the integers. One of these, `r`,
is *nearest* when it is monotone, keeps the integers, and moves no value by
more than a half (`IsNearest`); scaled to a grid of `n` steps to the unit it
is a rounding that moves no value by more than `1 / (2 * n)`
(`gridRound_isRounding`, `abs_gridRound_sub_le`). Two roundings that both
keep `b` can be joined there (`IsRounding.joined`), and the result rounds on
one grid below `b` and on another one from `b` up.
-/

/-! ## Roundings -/

/-- **A rounding**: monotone, and every value it produces is kept. -/
structure IsRounding {α : Type*} [Preorder α] (f : α → α) : Prop where
  monotone : Monotone f
  idempotent : ∀ a, f (f a) = f a

namespace IsRounding

section Order

variable {α : Type*} [Preorder α] {f : α → α} {a b : α}

/-- What is at most a value that is kept is at most it afterwards. -/
theorem le_of_kept (hf : IsRounding f) (hb : f b = b) (h : a ≤ b) : f a ≤ b :=
  (hf.monotone h).trans_eq hb

/-- What is at least a value that is kept is at least it afterwards. -/
theorem kept_le (hf : IsRounding f) (hb : f b = b) (h : b ≤ a) : b ≤ f a :=
  hb.symm.trans_le (hf.monotone h)

end Order

/-- **Two roundings that keep `b` are joined at `b`.** -/
theorem joined {α : Type*} [LinearOrder α] {f g : α → α} {b : α} (hf : IsRounding f)
    (hg : IsRounding g) (hfb : f b = b) (hgb : g b = b) :
    IsRounding fun a => if a < b then f a else g a where
  monotone := by
    intro a c hac
    show (if a < b then f a else g a) ≤ if c < b then f c else g c
    split_ifs with ha hc hc
    · exact hf.monotone hac
    · calc f a ≤ b := hf.le_of_kept hfb ha.le
        _ ≤ g c := hg.kept_le hgb (not_lt.mp hc)
    · exact absurd (hac.trans_lt hc) ha
    · exact hg.monotone hac
  idempotent := by
    intro a
    show (if (if a < b then f a else g a) < b then f (if a < b then f a else g a)
        else g (if a < b then f a else g a)) = if a < b then f a else g a
    by_cases ha : a < b
    · rw [if_pos ha]
      rcases (hf.le_of_kept hfb ha.le).lt_or_eq with hlt | heq
      · rw [if_pos hlt, hf.idempotent]
      · rw [heq, if_neg (lt_irrefl b), hgb]
    · rw [if_neg ha, if_neg (not_lt.mpr (hg.kept_le hgb (not_lt.mp ha))), hg.idempotent]

end IsRounding

/-! ## Roundings to the integers -/

section Field

variable {K : Type*} [Field K] [LinearOrder K]

/-- **A rounding to a nearest integer**, whatever it does with ties. -/
structure IsNearest (r : K → ℤ) : Prop where
  monotone : Monotone r
  intCast : ∀ z : ℤ, r z = z
  abs_sub_le : ∀ q, |(r q : K) - q| ≤ 1 / 2

/-- Rounding to a grid of `n` steps to the unit. -/
def gridRound (r : K → ℤ) (n : K) (q : K) : K := (r (q * n) : K) / n

variable {r : K → ℤ} {n : K}

/-- What is rounded already is kept. -/
theorem gridRound_eq_self (hr : IsNearest r) (hn : 0 < n) (z : ℤ) :
    gridRound r n ((z : K) / n) = (z : K) / n := by
  unfold gridRound
  rw [div_mul_cancel₀ _ hn.ne', hr.intCast]

variable [IsStrictOrderedRing K]

/-- The rounding that treats the negative values as `r` does the positive
ones. -/
theorem IsNearest.neg (hr : IsNearest r) : IsNearest fun q => -r (-q) where
  monotone := by
    intro a b hab
    exact neg_le_neg (hr.monotone (neg_le_neg hab))
  intCast z := by
    rw [← Int.cast_neg, hr.intCast, neg_neg]
  abs_sub_le q := by
    have h := hr.abs_sub_le (-q)
    rw [← abs_neg] at h
    convert h using 2
    rw [Int.cast_neg, sub_neg_eq_add, neg_add']

/-- **Rounding to a grid is a rounding.** -/
theorem gridRound_isRounding (hr : IsNearest r) (hn : 0 < n) :
    IsRounding (gridRound r n) where
  monotone := by
    intro a b hab
    unfold gridRound
    have hscaled : a * n ≤ b * n := mul_le_mul_of_nonneg_right hab hn.le
    exact div_le_div_of_nonneg_right (Int.cast_le.mpr (hr.monotone hscaled)) hn.le
  idempotent a := gridRound_eq_self hr hn (r (a * n))

/-- **Rounding to a grid moves a value by half a step at most.** -/
theorem abs_gridRound_sub_le (hr : IsNearest r) (hn : 0 < n) (q : K) :
    |gridRound r n q - q| ≤ 1 / (2 * n) := by
  have hmove : gridRound r n q - q = ((r (q * n) : K) - q * n) / n := by
    unfold gridRound
    field_simp
  calc |gridRound r n q - q| = |(r (q * n) : K) - q * n| / n := by
        rw [hmove, abs_div, abs_of_pos hn]
    _ ≤ 1 / 2 / n := div_le_div_of_nonneg_right (hr.abs_sub_le _) hn.le
    _ = 1 / (2 * n) := div_div _ _ _

end Field
