import ExecutionSystem.Calendar
import Mathlib.Tactic.IntervalCases

/-!
# ISO texts of instants

The text of a date time with its offset from UTC, as `isoformat` writes it:
fields of a fixed width from the year to the second, a fraction where it is
not zero, and the offset. It is read back as it was written
(`IsoTime.fromIsoformat_isoformat`), and two texts with one offset are
ordered, character by character, as their instants are
(`IsoTime.textLt_isoformat_iff`). The second is no matter of course: the
fraction is left out where it is zero, so the sign of one text may meet the
point of the other, and it is the order of these two characters that puts the
full second first.
-/

/-! ## The order of texts -/

/-- The order of texts by the code points of their characters. -/
def textLt : List Char → List Char → Bool
  | _, [] => false
  | [], _ :: _ => true
  | c :: xs, d :: ys => c.toNat < d.toNat || (c.toNat = d.toNat && textLt xs ys)

@[simp] theorem textLt_cons_self (c : Char) (xs ys : List Char) :
    textLt (c :: xs) (c :: ys) = textLt xs ys := by
  simp [textLt]

theorem textLt_irrefl (xs : List Char) : textLt xs xs = false := by
  induction xs with
  | nil => rfl
  | cons c xs ih => rw [textLt_cons_self, ih]

/-- What has been compared and was equal no longer matters. -/
@[simp] theorem textLt_append_self (ws xs ys : List Char) :
    textLt (ws ++ xs) (ws ++ ys) = textLt xs ys := by
  induction ws with
  | nil => rfl
  | cons c ws ih => rw [List.cons_append, List.cons_append, textLt_cons_self, ih]

/-- Texts of one length that differ decide. -/
theorem textLt_append_of_lt {ws zs : List Char} (hlen : ws.length = zs.length)
    (h : textLt ws zs = true) (xs ys : List Char) :
    textLt (ws ++ xs) (zs ++ ys) = true := by
  induction ws generalizing zs with
  | nil => rw [List.length_eq_zero_iff.mp hlen.symm] at h; cases h
  | cons c ws ih =>
    cases zs with
    | nil => cases hlen
    | cons d zs =>
      have htail : ws.length = zs.length := Nat.succ.inj hlen
      simp only [List.cons_append, textLt, Bool.or_eq_true, decide_eq_true_eq,
        Bool.and_eq_true] at h ⊢
      exact h.imp_right (And.imp_right (ih htail))

theorem textLt_asymm {xs ys : List Char} (h : textLt xs ys = true) : textLt ys xs = false := by
  induction xs generalizing ys with
  | nil =>
    cases ys with
    | nil => rfl
    | cons d ys => rfl
  | cons c xs ih =>
    cases ys with
    | nil => cases h
    | cons d ys =>
      simp only [textLt, Bool.or_eq_true, decide_eq_true_eq, Bool.and_eq_true, Bool.or_eq_false_iff,
        decide_eq_false_iff_not, Bool.and_eq_false_imp] at h ⊢
      rcases h with hlt | ⟨heq, hlt⟩
      · exact ⟨hlt.not_gt, fun heq => absurd heq hlt.ne'⟩
      · exact ⟨heq.not_gt, fun _ => ih hlt⟩

/-- A text before another is before any third, or the third is before the
other. -/
theorem textLt_or_of_textLt {xs ys : List Char} (h : textLt xs ys = true) (zs : List Char) :
    textLt xs zs = true ∨ textLt zs ys = true := by
  induction xs generalizing ys zs with
  | nil =>
    cases ys with
    | nil => cases h
    | cons d ys =>
      cases zs with
      | nil => exact .inr rfl
      | cons e zs => exact .inl rfl
  | cons c xs ih =>
    cases ys with
    | nil => cases h
    | cons d ys =>
      cases zs with
      | nil => exact .inr rfl
      | cons e zs =>
        simp only [textLt, Bool.or_eq_true, decide_eq_true_eq, Bool.and_eq_true] at h ⊢
        rcases h with hlt | ⟨heq, hlt⟩
        · omega
        · rcases ih hlt zs with hleft | hright
          · rcases Nat.lt_trichotomy c.toNat e.toNat with hce | hce | hce
            · exact .inl (.inl hce)
            · exact .inl (.inr ⟨hce, hleft⟩)
            · exact .inr (.inl (heq ▸ hce))
          · rcases Nat.lt_trichotomy e.toNat d.toNat with hed | hed | hed
            · exact .inr (.inl hed)
            · exact .inr (.inr ⟨hed, hright⟩)
            · exact .inl (.inl (heq ▸ hed))

/-! ## Digits of a fixed width -/

/-- The last `w` decimal digits of a number. -/
def fixedDigits : ℕ → ℕ → List Char
  | 0, _ => []
  | w + 1, n => fixedDigits w (n / 10) ++ [(n % 10).digitChar]

/-- A number of `w` digits at the head of a text, and what is left of it. -/
def readDigits (w : ℕ) (cs : List Char) : Option (ℕ × List Char) :=
  if w ≤ cs.length ∧ (cs.take w).all Char.isDigit then
    some (Nat.ofDigitChars 10 (cs.take w) 0, cs.drop w)
  else none

/-- A character at the head of a text. -/
def readChar (c : Char) : List Char → Option (List Char)
  | [] => none
  | d :: cs => if d = c then some cs else none

@[simp] theorem readChar_cons (c : Char) (cs : List Char) : readChar c (c :: cs) = some cs :=
  if_pos rfl

@[simp] theorem length_fixedDigits (w n : ℕ) : (fixedDigits w n).length = w := by
  induction w generalizing n with
  | zero => rfl
  | succ w ih => rw [fixedDigits, List.length_append, ih, List.length_singleton]

theorem isDigit_digitChar {n : ℕ} (h : n < 10) : n.digitChar.isDigit = true := by
  interval_cases n <;> rfl

theorem all_isDigit_fixedDigits (w n : ℕ) : (fixedDigits w n).all Char.isDigit = true := by
  induction w generalizing n with
  | zero => rfl
  | succ w ih =>
    rw [fixedDigits, List.all_append, ih, Bool.true_and, List.all_cons, List.all_nil,
      Bool.and_true]
    exact isDigit_digitChar (Nat.mod_lt _ (by decide))

/-- The digits are those of the number where it is small enough. -/
theorem ofDigitChars_fixedDigits {w n : ℕ} (h : n < 10 ^ w) :
    Nat.ofDigitChars 10 (fixedDigits w n) 0 = n := by
  induction w generalizing n with
  | zero => exact (Nat.lt_one_iff.mp h).symm
  | succ w ih =>
    have hdiv : n / 10 < 10 ^ w := by
      rw [Nat.div_lt_iff_lt_mul (by decide), ← pow_succ]
      exact h
    rw [fixedDigits, Nat.ofDigitChars_append, ih hdiv,
      Nat.ofDigitChars_cons_digitChar_of_lt_ten (Nat.mod_lt _ (by decide)), Nat.ofDigitChars_nil]
    exact Nat.div_add_mod n 10

/-- **A number of a fixed width is read back.** -/
theorem readDigits_append {w n : ℕ} (h : n < 10 ^ w) (cs : List Char) :
    readDigits w (fixedDigits w n ++ cs) = some (n, cs) := by
  have htake : (fixedDigits w n ++ cs).take w = fixedDigits w n :=
    List.take_left' (length_fixedDigits w n)
  have hdrop : (fixedDigits w n ++ cs).drop w = cs :=
    List.drop_left' (length_fixedDigits w n)
  have hlen : w ≤ (fixedDigits w n ++ cs).length := by simp
  rw [readDigits, htake, hdrop, if_pos ⟨hlen, all_isDigit_fixedDigits w n⟩,
    ofDigitChars_fixedDigits h]

theorem fixedDigits_inj {w m n : ℕ} (hm : m < 10 ^ w) (hn : n < 10 ^ w)
    (h : fixedDigits w m = fixedDigits w n) : m = n := by
  rw [← ofDigitChars_fixedDigits hm, h, ofDigitChars_fixedDigits hn]

/-- Smaller numbers have earlier digits. -/
theorem textLt_fixedDigits {w m n : ℕ} (hn : n < 10 ^ w) (h : m < n) :
    textLt (fixedDigits w m) (fixedDigits w n) = true := by
  induction w generalizing m n with
  | zero => exact absurd h (by rw [Nat.lt_one_iff.mp hn]; exact Nat.not_lt_zero m)
  | succ w ih =>
    have hdiv : n / 10 < 10 ^ w := by
      rw [Nat.div_lt_iff_lt_mul (by decide), ← pow_succ]
      exact hn
    rw [fixedDigits, fixedDigits]
    -- the leading digits decide, or else the last one
    rcases (Nat.div_le_div_right h.le : m / 10 ≤ n / 10).lt_or_eq with hlt | heq
    · exact textLt_append_of_lt (by simp) (ih hdiv hlt) _ _
    · have hm10 : m % 10 < 10 := Nat.mod_lt _ (by decide)
      have hn10 : n % 10 < 10 := Nat.mod_lt _ (by decide)
      have hlast : m % 10 < n % 10 := by omega
      rw [heq, textLt_append_self, textLt, Nat.toNat_digitChar_of_lt_ten hm10,
        Nat.toNat_digitChar_of_lt_ten hn10]
      simpa using .inl hlast

/-- **A field of a fixed width decides where it differs.** -/
theorem textLt_fixedDigits_append {w m n : ℕ} (hm : m < 10 ^ w) (hn : n < 10 ^ w)
    (xs ys : List Char) : textLt (fixedDigits w m ++ xs) (fixedDigits w n ++ ys) = true
      ↔ m < n ∨ m = n ∧ textLt xs ys = true := by
  have hlen : ∀ m n, (fixedDigits w m).length = (fixedDigits w n).length := by simp
  rcases lt_trichotomy m n with hlt | rfl | hgt
  · exact iff_of_true (textLt_append_of_lt (hlen m n) (textLt_fixedDigits hn hlt) xs ys) (.inl hlt)
  · simp
  · have hback := textLt_append_of_lt (hlen n m) (textLt_fixedDigits hm hgt) ys xs
    refine iff_of_false (fun h => ?_) (by omega)
    rw [textLt_asymm hback] at h
    cases h

/-! ## Dates -/

/-- The fields of a date have their widths. -/
theorem CivilDate.month_day_lt (d : CivilDate) : d.month < 10 ^ 2 ∧ d.day < 10 ^ 2 := by
  have hmonth := d.month_le
  have hday : d.day ≤ 31 := d.day_le.trans (by
    unfold Calendar.daysInMonth
    split
    · split_ifs <;> decide
    all_goals decide)
  exact ⟨by omega, by omega⟩

/-- The eight digits of a date, as `strftime("%Y%m%d")` writes them. -/
def CivilDate.digits (d : CivilDate) : List Char :=
  fixedDigits 4 d.year ++ (fixedDigits 2 d.month ++ fixedDigits 2 d.day)

/-- **Dates with the same eight digits are one.** -/
theorem CivilDate.digits_inj {d e : CivilDate} (hd : d.year < 10000) (he : e.year < 10000)
    (h : d.digits = e.digits) : d = e := by
  obtain ⟨hmonth, hday⟩ := d.month_day_lt
  obtain ⟨hmonth', hday'⟩ := e.month_day_lt
  obtain ⟨hy, hrest⟩ := List.append_inj h (by simp)
  obtain ⟨hm, hdd⟩ := List.append_inj hrest (by simp)
  exact CivilDate.ext_fields (fixedDigits_inj hd he hy) (fixedDigits_inj hmonth hmonth' hm)
    (fixedDigits_inj hday hday' hdd)

/-! ## Date times -/

/-- **A date time with its offset from UTC**, in whole minutes. -/
structure IsoTime where
  date : CivilDate
  secondOfDay : ℕ
  microsecond : ℕ
  offsetMinutes : ℤ
  year_le : date.year < 10000
  second_lt : secondOfDay < 86400
  microsecond_lt : microsecond < 1000000
  offset_lt : offsetMinutes.natAbs < 1440

namespace IsoTime

/-- The seconds of the wall clock from the first day of the year 1 on. -/
def wallSeconds (t : IsoTime) : ℕ := t.date.dayNumber * 86400 + t.secondOfDay

/-- The instant, in microseconds. -/
def instant (t : IsoTime) : ℤ :=
  (t.wallSeconds - t.offsetMinutes * 60) * 1000000 + t.microsecond

/-- The text of a fraction of a second, and of none. -/
def fractionText (microsecond : ℕ) : List Char :=
  if microsecond = 0 then [] else '.' :: fixedDigits 6 microsecond

/-- The text of an offset. -/
def offsetText (minutes : ℤ) : List Char :=
  (if minutes < 0 then '-' else '+') ::
    (fixedDigits 2 (minutes.natAbs / 60) ++ ':' :: fixedDigits 2 (minutes.natAbs % 60))

/-- **`isoformat()`.** -/
def isoformat (t : IsoTime) : List Char :=
  fixedDigits 4 t.date.year ++ '-' :: (fixedDigits 2 t.date.month ++ '-' ::
    (fixedDigits 2 t.date.day ++ 'T' :: (fixedDigits 2 (t.secondOfDay / 3600) ++ ':' ::
      (fixedDigits 2 (t.secondOfDay / 60 % 60) ++ ':' :: (fixedDigits 2 (t.secondOfDay % 60) ++
        (fractionText t.microsecond ++ offsetText t.offsetMinutes))))))

/-! ## Reading -/

/-- A fraction, where there is one. -/
def readFraction : List Char → Option (ℕ × List Char)
  | '.' :: cs => readDigits 6 cs
  | cs => some (0, cs)

/-- An offset, which ends the text. -/
def readOffset : List Char → Option ℤ
  | [] => none
  | sign :: cs => do
    let (hours, cs) ← readDigits 2 cs
    let cs ← readChar ':' cs
    let (minutes, cs) ← readDigits 2 cs
    let magnitude : ℤ := hours * 60 + minutes
    if cs = [] ∧ minutes < 60 then
      if sign = '+' then some magnitude else if sign = '-' then some (-magnitude) else none
    else none

/-- A date, where the fields are one. -/
def dateOf? (year month day : ℕ) : Option CivilDate :=
  if h : 0 < year ∧ 0 < month ∧ month ≤ 12 ∧ 0 < day
      ∧ day ≤ Calendar.daysInMonth (Calendar.isLeap year) month then
    some ⟨year, month, day, h.1, h.2.1, h.2.2.1, h.2.2.2.1, h.2.2.2.2⟩
  else none

/-- A date time, where the fields are one. -/
def ofFields? (date : CivilDate) (hour minute second microsecond : ℕ) (offset : ℤ) :
    Option IsoTime :=
  if h : (date.year < 10000 ∧ hour < 24 ∧ minute < 60 ∧ second < 60 ∧ microsecond < 1000000)
      ∧ offset.natAbs < 1440 then
    some ⟨date, hour * 3600 + minute * 60 + second, microsecond, offset, h.1.1, by omega,
      h.1.2.2.2.2, h.2⟩
  else none

/-- **`fromisoformat`**, of the texts that `isoformat` writes. -/
def fromIsoformat (cs : List Char) : Option IsoTime := do
  let (year, cs) ← readDigits 4 cs
  let cs ← readChar '-' cs
  let (month, cs) ← readDigits 2 cs
  let cs ← readChar '-' cs
  let (day, cs) ← readDigits 2 cs
  let cs ← readChar 'T' cs
  let (hour, cs) ← readDigits 2 cs
  let cs ← readChar ':' cs
  let (minute, cs) ← readDigits 2 cs
  let cs ← readChar ':' cs
  let (second, cs) ← readDigits 2 cs
  let (microsecond, cs) ← readFraction cs
  let offset ← readOffset cs
  let date ← dateOf? year month day
  ofFields? date hour minute second microsecond offset

/-- The offset follows what there is of a fraction. -/
theorem readFraction_append {microsecond : ℕ} (h : microsecond < 1000000) (offset : ℤ) :
    readFraction (fractionText microsecond ++ offsetText offset)
      = some (microsecond, offsetText offset) := by
  unfold fractionText
  split_ifs with hzero
  · rw [hzero, List.nil_append, offsetText]
    split_ifs <;> rfl
  · exact readDigits_append h _

/-- **An offset is read back.** -/
theorem readOffset_offsetText {offset : ℤ} (h : offset.natAbs < 1440) :
    readOffset (offsetText offset) = some offset := by
  have hhours : offset.natAbs / 60 < 10 ^ 2 := by omega
  have hminutes : offset.natAbs % 60 < 10 ^ 2 := by omega
  have hread := readDigits_append hminutes []
  rw [List.append_nil] at hread
  have hmod : offset.natAbs % 60 < 60 := Nat.mod_lt _ (by decide)
  have habs : ((offset.natAbs / 60 : ℕ) : ℤ) * 60 + ((offset.natAbs % 60 : ℕ) : ℤ)
      = offset.natAbs := by omega
  simp only [offsetText, readOffset, readDigits_append hhours, readChar_cons, hread,
    Option.bind_eq_bind, Option.bind_some, true_and, if_pos hmod, habs]
  split_ifs with hneg hplus hminus
  · exact absurd hplus (by decide)
  · rw [Int.ofNat_natAbs_of_nonpos hneg.le, neg_neg]
  · exact absurd rfl hminus
  · rw [Int.natAbs_of_nonneg (not_lt.mp hneg)]
  all_goals exact absurd rfl ‹_›

theorem dateOf?_fields (d : CivilDate) : dateOf? d.year d.month d.day = some d :=
  dif_pos ⟨d.year_pos, d.month_pos, d.month_le, d.day_pos, d.day_le⟩

theorem ofFields?_fields (t : IsoTime) :
    ofFields? t.date (t.secondOfDay / 3600) (t.secondOfDay / 60 % 60) (t.secondOfDay % 60)
      t.microsecond t.offsetMinutes = some t := by
  have hlt := t.second_lt
  have hsecond : t.secondOfDay / 3600 * 3600 + t.secondOfDay / 60 % 60 * 60 + t.secondOfDay % 60
      = t.secondOfDay := by omega
  have hvalid : (t.date.year < 10000 ∧ t.secondOfDay / 3600 < 24 ∧ t.secondOfDay / 60 % 60 < 60
      ∧ t.secondOfDay % 60 < 60 ∧ t.microsecond < 1000000) ∧ t.offsetMinutes.natAbs < 1440 :=
    ⟨⟨t.year_le, by omega, by omega, by omega, t.microsecond_lt⟩, t.offset_lt⟩
  rw [ofFields?, dif_pos hvalid]
  simp only [hsecond]

/-- The fields have their widths. -/
theorem field_lt (t : IsoTime) : t.date.year < 10 ^ 4 ∧ t.date.month < 10 ^ 2
    ∧ t.date.day < 10 ^ 2 ∧ t.secondOfDay / 3600 < 10 ^ 2 ∧ t.secondOfDay / 60 % 60 < 10 ^ 2
    ∧ t.secondOfDay % 60 < 10 ^ 2 := by
  have hsecond := t.second_lt
  obtain ⟨hmonth, hday⟩ := t.date.month_day_lt
  exact ⟨t.year_le, hmonth, hday, by omega, by omega, by omega⟩

/-- **A text is read back as the date time it was written of.** -/
theorem fromIsoformat_isoformat (t : IsoTime) : fromIsoformat t.isoformat = some t := by
  obtain ⟨hyear, hmonth, hday, hhour, hminute, hsecond⟩ := t.field_lt
  simp only [fromIsoformat, isoformat, readDigits_append hyear, readDigits_append hmonth,
    readDigits_append hday, readDigits_append hhour, readDigits_append hminute,
    readDigits_append hsecond, readChar_cons, Option.bind_eq_bind, Option.bind_some,
    readFraction_append t.microsecond_lt, readOffset_offsetText t.offset_lt, dateOf?_fields,
    ofFields?_fields]

/-! ## The order of instants -/

/-- A full second comes before its fractions. -/
theorem textLt_fraction_iff {m n : ℕ} (hm : m < 1000000) (hn : n < 1000000) (offset : ℤ) :
    textLt (fractionText m ++ offsetText offset) (fractionText n ++ offsetText offset) = true
      ↔ m < n := by
  have hsign : (if offset < 0 then '-' else '+').toNat < '.'.toNat := by split_ifs <;> decide
  unfold fractionText
  by_cases hm0 : m = 0 <;> by_cases hn0 : n = 0
  · simp [hm0, hn0, textLt_irrefl]
  · -- the sign meets the point
    simp only [if_pos hm0, if_neg hn0, List.nil_append, List.cons_append, offsetText, textLt,
      decide_eq_true hsign, Bool.true_or, true_iff]
    omega
  · simp only [if_neg hm0, if_pos hn0, List.nil_append, List.cons_append, offsetText, textLt,
      decide_eq_false hsign.not_gt, decide_eq_false hsign.ne', Bool.false_or, Bool.false_and,
      Bool.false_eq_true, false_iff]
    omega
  · rw [if_neg hm0, if_neg hn0, List.cons_append, List.cons_append, textLt_cons_self,
      textLt_fixedDigits_append hm hn, textLt_irrefl]
    simp

/-- The second and its fraction decide an instant. -/
theorem instant_lt_iff {t u : IsoTime} (h : t.offsetMinutes = u.offsetMinutes) :
    t.instant < u.instant ↔ t.wallSeconds < u.wallSeconds
      ∨ t.wallSeconds = u.wallSeconds ∧ t.microsecond < u.microsecond := by
  have ht := t.microsecond_lt
  have hu := u.microsecond_lt
  unfold instant
  rw [h]
  omega

/-- The date and the second of the day decide a second. -/
theorem wallSeconds_lt_iff {t u : IsoTime} : t.wallSeconds < u.wallSeconds
    ↔ t.date.Earlier u.date ∨ t.date = u.date ∧ t.secondOfDay < u.secondOfDay := by
  have ht := t.second_lt
  have hu := u.second_lt
  have heq : t.date = u.date ↔ t.date.dayNumber = u.date.dayNumber :=
    ⟨congrArg _, CivilDate.dayNumber_injective⟩
  unfold wallSeconds
  rw [← CivilDate.dayNumber_lt_iff, heq]
  omega

theorem wallSeconds_inj {t u : IsoTime} : t.wallSeconds = u.wallSeconds
    ↔ t.date = u.date ∧ t.secondOfDay = u.secondOfDay := by
  have ht := t.second_lt
  have hu := u.second_lt
  have heq : t.date = u.date ↔ t.date.dayNumber = u.date.dayNumber :=
    ⟨congrArg _, CivilDate.dayNumber_injective⟩
  unfold wallSeconds
  rw [heq]
  omega

theorem date_eq_iff {d e : CivilDate} :
    d = e ↔ d.year = e.year ∧ d.month = e.month ∧ d.day = e.day :=
  ⟨fun h => h ▸ ⟨rfl, rfl, rfl⟩, fun h => CivilDate.ext_fields h.1 h.2.1 h.2.2⟩

/-- **Texts with one offset are ordered as their instants.** -/
theorem textLt_isoformat_iff {t u : IsoTime} (h : t.offsetMinutes = u.offsetMinutes) :
    textLt t.isoformat u.isoformat = true ↔ t.instant < u.instant := by
  obtain ⟨hyear, hmonth, hday, hhour, hminute, hsecond⟩ := t.field_lt
  obtain ⟨hyear', hmonth', hday', hhour', hminute', hsecond'⟩ := u.field_lt
  have ht := t.second_lt
  have hu := u.second_lt
  rw [instant_lt_iff h, wallSeconds_lt_iff, wallSeconds_inj, date_eq_iff, CivilDate.Earlier]
  unfold isoformat
  rw [h, textLt_fixedDigits_append hyear hyear', textLt_cons_self,
    textLt_fixedDigits_append hmonth hmonth', textLt_cons_self,
    textLt_fixedDigits_append hday hday', textLt_cons_self,
    textLt_fixedDigits_append hhour hhour', textLt_cons_self,
    textLt_fixedDigits_append hminute hminute', textLt_cons_self,
    textLt_fixedDigits_append hsecond hsecond',
    textLt_fraction_iff t.microsecond_lt u.microsecond_lt]
  omega

end IsoTime
