import ExecutionSystem.FloatingPoint
import Mathlib.Tactic.NormNum

/-!
# Python's floats

A float holds the double nearest to the value it was given, ties to even, and
every operation on floats gives the double nearest to the exact result. So a
computation in floats is the computation on rationals with `binary64` around
each of its operations, and a value is a float where `binary64` keeps it.
Infinities and NaN are left out.
-/

/-! ## Ties to even -/

/-- Rounding to the nearest integer, ties to even, as Python's `round`. -/
def roundHalfEven (q : ℚ) : ℤ :=
  if q - q.floor < 1 / 2 then q.floor
  else if 1 / 2 < q - q.floor then q.floor + 1
  else if q.floor % 2 = 0 then q.floor else q.floor + 1

/-- **Where a value is rounded up**: more than half a step above an integer,
or exactly half a step above an odd one. -/
def RoundsUp (q : ℚ) : Prop :=
  1 / 2 < q - q.floor ∨ (q - q.floor = 1 / 2 ∧ q.floor % 2 ≠ 0)

instance : DecidablePred RoundsUp := fun _ => inferInstanceAs (Decidable (_ ∨ _))

/-- A value is rounded to its floor or to the next integer. -/
theorem roundHalfEven_eq (q : ℚ) :
    roundHalfEven q = if RoundsUp q then q.floor + 1 else q.floor := by
  unfold roundHalfEven
  split_ifs with hlt hup hgt hup heven hup hup
  · rcases hup with h | ⟨h, -⟩
    · exact absurd (hlt.trans h) (lt_irrefl _)
    · exact absurd h hlt.ne
  · rfl
  · rfl
  · exact absurd (.inl hgt) hup
  · rcases hup with h | ⟨-, h⟩
    · exact absurd h hgt
    · exact absurd heven h
  · rfl
  · rfl
  · exact absurd (.inr ⟨le_antisymm (not_lt.mp hgt) (not_lt.mp hlt), heven⟩) hup

theorem floor_le_roundHalfEven (q : ℚ) : q.floor ≤ roundHalfEven q := by
  rw [roundHalfEven_eq]
  split_ifs <;> omega

theorem roundHalfEven_le_floor_add_one (q : ℚ) : roundHalfEven q ≤ q.floor + 1 := by
  rw [roundHalfEven_eq]
  split_ifs <;> omega

theorem roundHalfEven_monotone : Monotone roundHalfEven := by
  intro a b hab
  rcases (Rat.floor_monotone hab).lt_or_eq with hlt | heq
  · calc roundHalfEven a ≤ a.floor + 1 := roundHalfEven_le_floor_add_one a
      _ ≤ b.floor := hlt
      _ ≤ roundHalfEven b := floor_le_roundHalfEven b
  · rw [roundHalfEven_eq, roundHalfEven_eq, heq]
    have hup : RoundsUp a → RoundsUp b := by
      rintro (h | ⟨h, hodd⟩)
      · left
        rw [← heq]
        linarith
      · rw [heq] at h hodd
        rcases hab.lt_or_eq with hab | rfl
        · exact .inl (by linarith)
        · exact .inr ⟨h, hodd⟩
    split_ifs with ha hb
    · exact le_rfl
    · exact absurd (hup ha) hb
    · omega
    · exact le_rfl

theorem abs_roundHalfEven_sub_le (q : ℚ) : |(roundHalfEven q : ℚ) - q| ≤ 1 / 2 := by
  have hlow := Rat.floor_le q
  have hhigh := Rat.lt_floor_add_one q
  push_cast at hhigh
  rw [roundHalfEven_eq]
  split_ifs with hup
  · have hhalf : 1 / 2 ≤ q - q.floor := hup.elim le_of_lt fun h => h.1.ge
    push_cast
    rw [abs_le]
    constructor <;> linarith
  · have hhalf : q - q.floor ≤ 1 / 2 := not_lt.mp fun h => hup (.inl h)
    rw [abs_le]
    constructor <;> linarith

/-- **Ties to even is a rounding to a nearest integer.** -/
theorem roundHalfEven_isNearest : IsNearest roundHalfEven where
  monotone := roundHalfEven_monotone
  intCast z := by
    rw [roundHalfEven_eq, Rat.floor_intCast]
    refine if_neg ?_
    rintro (h | ⟨h, -⟩) <;> norm_num at h
  abs_sub_le := abs_roundHalfEven_sub_le

/-! ## Doubles -/

/-- The format of the doubles. -/
def doubleFormat : FloatFormat where
  precision := 53
  minExponent := -1074
  precision_pos := by norm_num

/-- **The nearest double**, ties to even. -/
def binary64 (q : ℚ) : ℚ := doubleFormat.round roundHalfEven q

theorem binary64_isRounding : IsRounding binary64 :=
  FloatFormat.round_isRounding roundHalfEven_isNearest

theorem binary64_zero : binary64 0 = 0 := FloatFormat.round_zero roundHalfEven_isNearest

theorem binary64_nonneg {q : ℚ} (h : 0 ≤ q) : 0 ≤ binary64 q :=
  FloatFormat.round_nonneg roundHalfEven_isNearest h

/-- Integers of up to 53 bits are doubles. -/
theorem binary64_intCast {z : ℤ} (h : |z| ≤ 2 ^ 53) : binary64 z = z := by
  have hkept := FloatFormat.round_eq_self_of_abs_le (K := ℚ) (F := doubleFormat) (e := 0)
    roundHalfEven_isNearest (by norm_num [doubleFormat]) h
  rwa [zpow_zero, mul_one] at hkept

/-- A double that is rounded up lies between integers that are doubles. -/
theorem abs_floor_add_one_le {q : ℚ} (h : RoundsUp (binary64 q)) :
    |(binary64 q).floor + 1| ≤ 2 ^ 53 := by
  have hfrac : ((binary64 q).floor : ℚ) ≠ binary64 q := by
    intro hint
    rcases h with h | ⟨h, -⟩ <;> rw [hint, sub_self] at h <;> norm_num at h
  have hsmall : |binary64 q| < 2 ^ 53 := by
    by_contra hlarge
    obtain ⟨z, hz⟩ := FloatFormat.exists_int_of_le (F := doubleFormat) roundHalfEven_isNearest
      (not_lt.mp hlarge)
    refine hfrac ?_
    rw [show binary64 q = z from hz, Rat.floor_intCast]
  obtain ⟨hlow, hhigh⟩ := abs_lt.mp hsmall
  have hfloor : (binary64 q).floor < 2 ^ 53 := by
    have hlt := (Rat.floor_le (binary64 q)).trans_lt hhigh
    exact_mod_cast hlt
  have hfloor' : -2 ^ 53 ≤ (binary64 q).floor :=
    Rat.le_floor_iff.mpr (by push_cast; exact hlow.le)
  exact abs_le.mpr ⟨by omega, by omega⟩

/-- **What is rounded up once more was not more than a whole number either.** -/
theorem lt_floor_add_one_of_roundsUp {q : ℚ} (h : RoundsUp (binary64 q)) :
    q < (binary64 q).floor + 1 := by
  by_contra hle
  have hkept := binary64_intCast (abs_floor_add_one_le h)
  push_cast at hkept
  have hreach := binary64_isRounding.kept_le hkept (not_lt.mp hle)
  have hfloor := Rat.lt_floor_add_one (binary64 q)
  push_cast at hfloor
  exact absurd hfloor (not_lt.mpr hreach)

/-- Half a unit of the last place of `1`. -/
def unitRoundoff : ℚ := 1 / 2 ^ 53

/-- Half the least double. -/
def underflow : ℚ := 2 ^ (-1075 : ℤ)

theorem underflow_pos : 0 < underflow := zpow_pos two_pos _

/-- **The nearest double is off by at most half a unit in the last place.** -/
theorem abs_binary64_sub_le_max (q : ℚ) :
    |binary64 q - q| ≤ max (|q| * unitRoundoff) underflow := by
  have h := FloatFormat.abs_round_sub_le (F := doubleFormat) roundHalfEven_isNearest q
  have hunit : |q| / 2 ^ doubleFormat.precision = |q| * unitRoundoff := div_eq_mul_one_div _ _
  have hleast : (2 : ℚ) ^ doubleFormat.minExponent / 2 = underflow :=
    (div_eq_mul_inv _ _).trans (zpow_sub_one₀ two_ne_zero (-1074)).symm
  rwa [hunit, hleast] at h

theorem abs_binary64_sub_le (q : ℚ) : |binary64 q - q| ≤ |q| * unitRoundoff + underflow := by
  have hunit : 0 ≤ |q| * unitRoundoff := mul_nonneg (abs_nonneg q) (by norm_num [unitRoundoff])
  refine (abs_binary64_sub_le_max q).trans (max_le ?_ ?_)
  · exact le_add_of_nonneg_right underflow_pos.le
  · exact le_add_of_nonneg_left hunit

theorem underflow_le : underflow ≤ unitRoundoff / 2 := by
  calc underflow ≤ (2 : ℚ) ^ (-54 : ℤ) := zpow_le_zpow_right₀ one_le_two (by norm_num)
    _ = unitRoundoff / 2 := by norm_num [unitRoundoff]

/-- **What a rounded quotient covers, the quotient covers but for a
rounding.** -/
theorem mul_le_of_le_binary64_div {q a b : ℚ} (hq : 1 ≤ q) (hb : 0 < b)
    (h : q ≤ binary64 (a / b)) : q * b ≤ a * (1 + unitRoundoff) := by
  have hleast := underflow_le
  have hmove : binary64 (a / b) ≤ a / b * (1 + unitRoundoff) := by
    -- a quotient that covers `1` is far from an underflow
    have hlarge : 1 / 2 ≤ a / b := by
      by_contra hsmall
      have hle := (abs_le.mp (abs_binary64_sub_le (a / b))).2
      unfold unitRoundoff at *
      rcases abs_cases (a / b) with ⟨habs, -⟩ | ⟨habs, -⟩ <;> rw [habs] at hle <;> linarith
    have hle := (le_abs_self _).trans (abs_binary64_sub_le_max (a / b))
    rw [abs_of_nonneg (by linarith : 0 ≤ a / b)] at hle
    unfold unitRoundoff at *
    rcases le_max_iff.mp hle with hle | hle <;> linarith
  rw [← le_div_iff₀ hb]
  calc q ≤ a / b * (1 + unitRoundoff) := h.trans hmove
    _ = a * (1 + unitRoundoff) / b := div_mul_eq_mul_div _ _ _
