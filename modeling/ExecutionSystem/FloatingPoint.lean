import ExecutionSystem.Rounding
import Mathlib.Data.Int.Log
import Mathlib.Data.Rat.Floor
import Mathlib.Tactic.Positivity

/-!
# Floating-point rounding

A floating-point format keeps a fixed number of significant bits
(`FloatFormat`). Rounding to it is rounding to a grid whose step depends on
the magnitude of the value (`FloatFormat.lastPlace`), and the grids of
neighbouring magnitudes meet in the power of two between them. So it is a
rounding like those to one grid (`FloatFormat.round_isRounding`), and it moves
a value by no more than a share of the value, or than half the least place of
the format where the value is tiny (`FloatFormat.abs_round_sub_le`).

The formats have no greatest number: a value that the machine calls infinite
is kept as it is.
-/

/-- **A binary floating-point format**: the bits of its significands, and the
exponent of its least place. -/
structure FloatFormat where
  precision : ℕ
  minExponent : ℤ
  precision_pos : 0 < precision

namespace FloatFormat

section Field

variable {K : Type*} [Field K] [LinearOrder K] [FloorRing K]

/-- The exponent of the last place of a value. -/
def lastPlace (F : FloatFormat) (x : K) : ℤ :=
  max (Int.log 2 |x| + 1 - F.precision) F.minExponent

/-- **Rounding to the format**: to a multiple of the last place. -/
def round (F : FloatFormat) (r : K → ℤ) (x : K) : K :=
  gridRound r (2 ^ (-F.lastPlace x)) x

variable {F : FloatFormat} {r : K → ℤ} {x y : K}

theorem minExponent_le_lastPlace (x : K) : F.minExponent ≤ F.lastPlace x :=
  le_max_right _ _

@[simp] theorem lastPlace_neg (x : K) : F.lastPlace (-x) = F.lastPlace x := by
  rw [lastPlace, abs_neg, lastPlace]

theorem round_eq (x : K) :
    F.round r x = r (x * 2 ^ (-F.lastPlace x)) * 2 ^ F.lastPlace x := by
  rw [round, gridRound, zpow_neg, div_inv_eq_mul]

/-- Rounding a negative value is rounding its opposite the other way. -/
theorem round_neg (x : K) : F.round r (-x) = -F.round (fun q => -r (-q)) x := by
  rw [round_eq, round_eq, lastPlace_neg, neg_mul, Int.cast_neg, neg_mul, neg_neg]

variable [IsStrictOrderedRing K]

theorem two_zpow_pos (e : ℤ) : (0 : K) < 2 ^ e := zpow_pos two_pos e

theorem mul_two_zpow_neg (x : K) (e : ℤ) : x * 2 ^ (-e) * 2 ^ e = x := by
  rw [zpow_neg, inv_mul_cancel_right₀ (two_zpow_pos e).ne']

/-- A value is smaller than its last place, shifted by the precision. -/
theorem abs_lt_two_zpow (x : K) : |x| < 2 ^ (F.lastPlace x + F.precision) := by
  have hplace := le_max_left (Int.log 2 |x| + 1 - F.precision) F.minExponent
  calc |x| < ((2 : ℕ) : K) ^ (Int.log 2 |x| + 1) := Int.lt_zpow_succ_log_self Nat.one_lt_two |x|
    _ = 2 ^ (Int.log 2 |x| + 1) := by push_cast; rfl
    _ ≤ 2 ^ (F.lastPlace x + F.precision) := by
        refine zpow_le_zpow_right₀ one_le_two ?_
        unfold lastPlace
        omega

/-- The last place of a value that is smaller than a place shifted by the
precision is at most this place. -/
theorem lastPlace_le {e : ℤ} (hx : x ≠ 0) (he : F.minExponent ≤ e)
    (h : |x| < 2 ^ (e + F.precision)) : F.lastPlace x ≤ e := by
  have hlog : Int.log 2 |x| < e + F.precision :=
    (Int.lt_zpow_iff_log_lt Nat.one_lt_two (abs_pos.mpr hx)).mp (by exact_mod_cast h)
  exact max_le (by omega) he

theorem lastPlace_mono (hx : 0 < x) (h : x ≤ y) : F.lastPlace x ≤ F.lastPlace y := by
  refine lastPlace_le hx.ne' (minExponent_le_lastPlace y) ?_
  calc |x| ≤ |y| := by rwa [abs_of_pos hx, abs_of_pos (hx.trans_le h)]
    _ < 2 ^ (F.lastPlace y + F.precision) := abs_lt_two_zpow y

/-- Above the least place of the format, a value reaches its leading place. -/
theorem two_zpow_le_abs (hx : x ≠ 0) (h : F.minExponent < F.lastPlace x) :
    2 ^ (F.lastPlace x + F.precision - 1) ≤ |x| := by
  have hplace : F.lastPlace x + F.precision - 1 = Int.log 2 |x| := by
    rcases max_choice (Int.log 2 |x| + 1 - F.precision) F.minExponent with hmax | hmax <;>
      unfold lastPlace at h ⊢ <;> omega
  have hlog := Int.zpow_log_le_self Nat.one_lt_two (abs_pos.mpr hx)
  rw [hplace]
  exact_mod_cast hlog

/-! ## What is kept -/

/-- A multiple of the last place or of one above it is kept. -/
theorem round_eq_self {m e : ℤ} (hr : IsNearest r) (h : F.lastPlace x ≤ e)
    (hx : x = m * 2 ^ e) : F.round r x = x := by
  obtain ⟨k, hk⟩ := Int.eq_ofNat_of_zero_le (sub_nonneg.mpr h)
  have hscaled : x * 2 ^ (-F.lastPlace x) = ((m * 2 ^ k : ℤ) : K) := by
    calc x * 2 ^ (-F.lastPlace x)
        = m * 2 ^ (e - F.lastPlace x) := by
          rw [sub_eq_add_neg, zpow_add₀ two_ne_zero, ← mul_assoc, ← hx]
      _ = ((m * 2 ^ k : ℤ) : K) := by
          rw [hk, zpow_natCast]
          push_cast
          rfl
  rw [round_eq, hscaled, hr.intCast, ← hscaled, mul_two_zpow_neg]

/-- A significand of at most the precision keeps the value below the place
shifted by it. -/
theorem abs_mul_two_zpow_lt {m e : ℤ} {p : ℕ} (hm : |m| < 2 ^ p) :
    |(m * 2 ^ e : K)| < 2 ^ (e + p) := by
  rw [abs_mul, abs_of_pos (two_zpow_pos e : (0 : K) < 2 ^ e), add_comm, zpow_add₀ two_ne_zero,
    zpow_natCast]
  refine mul_lt_mul_of_pos_right ?_ (two_zpow_pos e)
  exact_mod_cast hm

/-- **The values of the format are kept**: those with a significand of the
precision, at a place of the format. -/
theorem round_eq_self_of_abs_le {m e : ℤ} (hr : IsNearest r) (he : F.minExponent ≤ e)
    (hm : |m| ≤ 2 ^ F.precision) : F.round r (m * 2 ^ e : K) = m * 2 ^ e := by
  have hlt : ∀ {k f : ℤ}, F.minExponent ≤ f → |k| < 2 ^ F.precision →
      F.round r (k * 2 ^ f : K) = k * 2 ^ f := by
    intro k f hf hk
    obtain rfl | hne := eq_or_ne k 0
    · rw [Int.cast_zero, zero_mul, round_eq, zero_mul, ← Int.cast_zero (R := K), hr.intCast,
        Int.cast_zero, zero_mul]
    · have hx : (k * 2 ^ f : K) ≠ 0 :=
        mul_ne_zero (Int.cast_ne_zero.mpr hne) (two_zpow_pos f).ne'
      exact round_eq_self hr (lastPlace_le hx hf (abs_mul_two_zpow_lt hk)) rfl
  rcases hm.lt_or_eq with hm | hm
  · exact hlt he hm
  · -- the significand itself is a power of two: one place up it is half as large
    have htwo : (2 : ℤ) ∣ m := by
      rw [← dvd_abs, hm]
      exact dvd_pow_self 2 F.precision_pos.ne'
    obtain ⟨k, rfl⟩ := htwo
    have hk : |k| < 2 ^ F.precision := by
      rw [abs_mul, abs_two] at hm
      have := abs_nonneg k
      have hpos : (0 : ℤ) < 2 ^ F.precision := pow_pos two_pos _
      omega
    have hup : ((2 * k : ℤ) : K) * 2 ^ e = k * 2 ^ (e + 1) := by
      rw [zpow_add_one₀ two_ne_zero]
      push_cast
      ring
    rw [hup]
    exact hlt (he.trans (by omega)) hk

/-- The multiple of the last place that a value is rounded to is one that the
format holds. -/
theorem abs_scaled_le (hr : IsNearest r) (x : K) :
    |r (x * 2 ^ (-F.lastPlace x))| ≤ 2 ^ F.precision := by
  have hscaled : |x * 2 ^ (-F.lastPlace x)| ≤ ((2 ^ F.precision : ℤ) : K) := by
    rw [abs_mul, abs_of_pos (two_zpow_pos _ : (0 : K) < 2 ^ (-F.lastPlace x)), zpow_neg,
      ← div_eq_mul_inv, div_le_iff₀ (two_zpow_pos _)]
    refine (abs_lt_two_zpow (F := F) x).le.trans_eq ?_
    rw [add_comm, zpow_add₀ two_ne_zero, zpow_natCast]
    push_cast
    rfl
  obtain ⟨hlow, hhigh⟩ := abs_le.mp hscaled
  rw [← Int.cast_neg] at hlow
  have hlow := hr.monotone hlow
  have hhigh := hr.monotone hhigh
  rw [hr.intCast] at hlow hhigh
  exact abs_le.mpr ⟨hlow, hhigh⟩

/-- **From the precision on, what the format holds is whole.** -/
theorem exists_int_of_le (hr : IsNearest r) (h : 2 ^ F.precision ≤ |F.round r x|) :
    ∃ z : ℤ, F.round r x = z := by
  have hplace : 0 ≤ F.lastPlace x := by
    by_contra hneg
    have hm : (|r (x * 2 ^ (-F.lastPlace x))| : K) ≤ 2 ^ F.precision := by
      rw [← Int.cast_abs]
      exact_mod_cast abs_scaled_le hr x
    have hsmall : (2 : K) ^ F.lastPlace x < 1 :=
      zpow_lt_one_of_neg₀ one_lt_two (not_le.mp hneg)
    refine absurd h (not_le.mpr ?_)
    rw [round_eq, abs_mul, abs_of_pos (two_zpow_pos _ : (0 : K) < 2 ^ F.lastPlace x)]
    calc (|r (x * 2 ^ (-F.lastPlace x))| : K) * 2 ^ F.lastPlace x
        ≤ 2 ^ F.precision * 2 ^ F.lastPlace x :=
          mul_le_mul_of_nonneg_right hm (two_zpow_pos _).le
      _ < 2 ^ F.precision := mul_lt_of_lt_one_right (pow_pos two_pos _) hsmall
  obtain ⟨k, hk⟩ := Int.eq_ofNat_of_zero_le hplace
  refine ⟨r (x * 2 ^ (-F.lastPlace x)) * 2 ^ k, ?_⟩
  rw [round_eq, hk]
  push_cast
  rw [zpow_natCast]

theorem round_idempotent (hr : IsNearest r) (x : K) :
    F.round r (F.round r x) = F.round r x := by
  rw [round_eq x]
  exact round_eq_self_of_abs_le hr (minExponent_le_lastPlace x) (abs_scaled_le hr x)

/-! ## Monotonicity -/

theorem round_zero (hr : IsNearest r) : F.round r (0 : K) = 0 := by
  have h := round_eq_self_of_abs_le (K := K) (F := F) (m := 0) hr le_rfl
    (by rw [abs_zero]; positivity)
  rwa [Int.cast_zero, zero_mul] at h

theorem round_nonneg (hr : IsNearest r) (hx : 0 ≤ x) : 0 ≤ F.round r x := by
  have hscaled : ((0 : ℤ) : K) ≤ x * 2 ^ (-F.lastPlace x) := by
    rw [Int.cast_zero]
    exact mul_nonneg hx (two_zpow_pos _).le
  have h := hr.monotone hscaled
  rw [hr.intCast] at h
  rw [round_eq]
  exact mul_nonneg (by exact_mod_cast h) (two_zpow_pos _).le

/-- Values of one last place are rounded to one grid. -/
theorem round_le_of_lastPlace_eq (hr : IsNearest r) (hplace : F.lastPlace x = F.lastPlace y)
    (h : x ≤ y) : F.round r x ≤ F.round r y := by
  unfold round
  rw [hplace]
  exact (gridRound_isRounding hr (two_zpow_pos _)).monotone h

/-- A grid keeps the powers of two from its step on. -/
theorem gridRound_two_zpow {e f : ℤ} (hr : IsNearest r) (h : e ≤ f) :
    gridRound r (2 ^ (-e)) (2 ^ f : K) = 2 ^ f := by
  obtain ⟨k, hk⟩ := Int.eq_ofNat_of_zero_le (sub_nonneg.mpr h)
  have hpower : (2 ^ f : K) = ((2 ^ k : ℤ) : K) / 2 ^ (-e) := by
    rw [zpow_neg, div_inv_eq_mul, Int.cast_pow, Int.cast_ofNat, ← zpow_natCast, ← hk,
      ← zpow_add₀ two_ne_zero, sub_add_cancel]
  rw [hpower]
  exact gridRound_eq_self hr (two_zpow_pos _) _

theorem round_le_round_of_pos (hr : IsNearest r) (hx : 0 < x) (h : x ≤ y) :
    F.round r x ≤ F.round r y := by
  rcases (lastPlace_mono (F := F) hx h).eq_or_lt with heq | hlt
  · exact round_le_of_lastPlace_eq hr heq h
  · -- the two grids meet in the leading place of the larger value
    have hy : 0 < y := hx.trans_le h
    have hp := F.precision_pos
    have hlead := two_zpow_le_abs hy.ne' ((minExponent_le_lastPlace x).trans_lt hlt)
    have hbelow : x ≤ 2 ^ (F.lastPlace y + F.precision - 1) := by
      calc x ≤ |x| := le_abs_self x
        _ ≤ 2 ^ (F.lastPlace x + F.precision) := (abs_lt_two_zpow x).le
        _ ≤ 2 ^ (F.lastPlace y + F.precision - 1) :=
            zpow_le_zpow_right₀ one_le_two (by omega)
    rw [abs_of_pos hy] at hlead
    calc F.round r x ≤ 2 ^ (F.lastPlace y + F.precision - 1) :=
          (gridRound_isRounding hr (two_zpow_pos _)).le_of_kept
            (gridRound_two_zpow hr (by omega)) hbelow
      _ ≤ F.round r y :=
          (gridRound_isRounding hr (two_zpow_pos _)).kept_le
            (gridRound_two_zpow hr (by omega)) hlead

theorem round_monotone (hr : IsNearest r) : Monotone (F.round r : K → K) := by
  intro x y h
  rcases lt_trichotomy x 0 with hx | rfl | hx
  · rcases le_or_gt 0 y with hy | hy
    · have hneg := round_nonneg (F := F) (hr.neg) (neg_nonneg.mpr hx.le)
      rw [round_neg] at hneg
      simp only [neg_neg] at hneg
      exact (neg_nonneg.mp hneg).trans (round_nonneg hr hy)
    · have hneg := round_le_round_of_pos (F := F) (hr.neg) (neg_pos.mpr hy)
        (neg_le_neg h)
      rw [round_neg, round_neg] at hneg
      simp only [neg_neg] at hneg
      exact neg_le_neg_iff.mp hneg
  · rw [round_zero hr]
    exact round_nonneg hr h
  · exact round_le_round_of_pos hr hx h

/-- **Rounding to a format is a rounding**: monotone, and done once and for
all. -/
theorem round_isRounding (hr : IsNearest r) : IsRounding (F.round r : K → K) where
  monotone := round_monotone hr
  idempotent := round_idempotent hr

/-! ## What rounding moves a value by -/

/-- **Rounding moves a value by at most its share of the precision**, or half
the least place of the format. -/
theorem abs_round_sub_le (hr : IsNearest r) (x : K) :
    |F.round r x - x| ≤ max (|x| / 2 ^ F.precision) (2 ^ F.minExponent / 2) := by
  obtain rfl | hx := eq_or_ne x 0
  · rw [round_zero hr, sub_self, abs_zero, zero_div]
    exact le_max_left _ _
  have hstep : |F.round r x - x| ≤ 2 ^ F.lastPlace x / 2 := by
    calc |F.round r x - x| ≤ 1 / (2 * 2 ^ (-F.lastPlace x)) :=
          abs_gridRound_sub_le hr (two_zpow_pos _) x
      _ = 2 ^ F.lastPlace x / 2 := by
          rw [zpow_neg]
          field_simp
  refine hstep.trans ?_
  rcases (minExponent_le_lastPlace (F := F) x).eq_or_lt with heq | hlt
  · rw [← heq]
    exact le_max_right _ _
  · refine le_max_of_le_left ?_
    rw [le_div_iff₀ (pow_pos two_pos _)]
    calc 2 ^ F.lastPlace x / 2 * 2 ^ F.precision
        = 2 ^ (F.lastPlace x + F.precision - 1) := by
          rw [zpow_sub_one₀ two_ne_zero, zpow_add₀ two_ne_zero, zpow_natCast]
          ring
      _ ≤ |x| := two_zpow_le_abs hx hlt

end Field

end FloatFormat
