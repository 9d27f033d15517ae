import Mathlib.Data.List.TakeDrop
import Mathlib.Data.List.TakeWhile
import Mathlib.Tactic.IntervalCases

/-!
# JSON texts

What `json.dumps` writes and `json.loads` reads, with the defaults of the
standard library of Python: a blank after a comma and a colon, and every
character outside of printable ASCII as an escape, with a surrogate pair for
one beyond the basic plane.

What a number is, and how it is printed, is a parameter (`JsonNumbers`). All
that is asked of a number is that its text is one of the grammar and is read
back (`JsonNumbers.ReadsBack`); a value all of whose numbers are such is read
back as it was written (`Json.loads_dumps`). The members of an object are kept
in their order, and where a key is repeated the last one counts (`Json.get?`).

Two things that the library of Python does are left out: the constants for
floats that are not finite, and escapes of surrogates without their partner,
which a text of this model cannot hold.
-/

/-- **A value.** -/
inductive Json (ν : Type) where
  | null
  | bool (b : Bool)
  | num (n : ν)
  | str (s : String)
  | arr (xs : List (Json ν))
  | obj (members : List (String × Json ν))

/-- **How numbers are printed and read.** -/
structure JsonNumbers (ν : Type) where
  text : ν → List Char
  /-- What a text of the grammar of numbers is read as. -/
  read : List Char → Option ν

namespace Json

/-! ## Strings -/

/-- The four hexadecimal digits of a code unit. -/
def hex4 (n : ℕ) : List Char :=
  [(n / 4096 % 16).digitChar, (n / 256 % 16).digitChar, (n / 16 % 16).digitChar,
    (n % 16).digitChar]

/-- The escape of a code unit. -/
def unitEscape (n : ℕ) : List Char := '\\' :: 'u' :: hex4 n

/-- A character as a string has it. -/
def escape (c : Char) : List Char :=
  if c = '"' then ['\\', '"']
  else if c = '\\' then ['\\', '\\']
  else if c = '\n' then ['\\', 'n']
  else if c = '\r' then ['\\', 'r']
  else if c = '\t' then ['\\', 't']
  else if c = '\x0c' then ['\\', 'f']
  else if c = '\x08' then ['\\', 'b']
  else if 32 ≤ c.toNat ∧ c.toNat ≤ 126 then [c]
  else if c.toNat < 0x10000 then unitEscape c.toNat
  else unitEscape (0xD800 + (c.toNat - 0x10000) / 1024)
    ++ unitEscape (0xDC00 + (c.toNat - 0x10000) % 1024)

/-- A string with its quotation marks. -/
def quote (s : String) : List Char := '"' :: (s.toList.flatMap escape ++ ['"'])

/-- The value of a hexadecimal digit. -/
def hexValue (c : Char) : Option ℕ :=
  if c.isDigit then some (c.toNat - 48)
  else if 'a' ≤ c ∧ c ≤ 'f' then some (c.toNat - 87)
  else if 'A' ≤ c ∧ c ≤ 'F' then some (c.toNat - 55)
  else none

/-- The code unit of four hexadecimal digits at the head of a text. -/
def readHex4 : List Char → Option (ℕ × List Char)
  | a :: b :: c :: d :: cs =>
    match hexValue a, hexValue b, hexValue c, hexValue d with
    | some a, some b, some c, some d => some (a * 4096 + b * 256 + c * 16 + d, cs)
    | _, _, _, _ => none
  | _ => none

/-- A character that is escaped by a letter. -/
def letterEscape : Char → Option Char
  | '"' => some '"'
  | '\\' => some '\\'
  | '/' => some '/'
  | 'n' => some '\n'
  | 'r' => some '\r'
  | 't' => some '\t'
  | 'f' => some '\x0c'
  | 'b' => some '\x08'
  | _ => none

/-- A character that is escaped by its code: two units where the first one is
a high surrogate. -/
def readUnits (cs : List Char) : Option (Char × List Char) :=
  match readHex4 cs with
  | none => none
  | some (high, cs) =>
    if 0xD800 ≤ high ∧ high < 0xDC00 then
      match cs with
      | '\\' :: 'u' :: cs =>
        match readHex4 cs with
        | none => none
        | some (low, cs) =>
          if 0xDC00 ≤ low ∧ low < 0xE000 then
            some (Char.ofNat (0x10000 + (high - 0xD800) * 1024 + (low - 0xDC00)), cs)
          else none
      | _ => none
    else if 0xDC00 ≤ high ∧ high < 0xE000 then none
    else some (Char.ofNat high, cs)

/-- An escape, behind its backslash. -/
def readEscape : List Char → Option (Char × List Char)
  | [] => none
  | e :: cs => if e = 'u' then readUnits cs else (letterEscape e).map fun c => (c, cs)

/-- A character of a string, and what is left of the text; control characters
are refused. -/
def readStringChar : List Char → Option (Char × List Char)
  | [] => none
  | c :: cs =>
    if c = '\\' then readEscape cs
    else if c.toNat < 32 then none
    else some (c, cs)

/-- A string, behind its opening quotation mark. -/
def readString : ℕ → List Char → Option (List Char × List Char)
  | 0, _ => none
  | fuel + 1, cs =>
    if cs.head? = some '"' then some ([], cs.tail)
    else do
      let (c, cs) ← readStringChar cs
      let (s, cs) ← readString fuel cs
      some (c :: s, cs)

/-! ## Numbers -/

/-- A fraction, where there is one. -/
def scanFraction : List Char → List Char × List Char
  | [] => ([], [])
  | c :: cs =>
    let digits := cs.span Char.isDigit
    if c = '.' ∧ digits.1 ≠ [] then (c :: digits.1, digits.2) else ([], c :: cs)

/-- The sign of an exponent. -/
def scanSign : List Char → List Char × List Char
  | [] => ([], [])
  | c :: cs => if c = '+' ∨ c = '-' then ([c], cs) else ([], c :: cs)

/-- An exponent, where there is one. -/
def scanExponent : List Char → List Char × List Char
  | [] => ([], [])
  | c :: cs =>
    let digits := (scanSign cs).2.span Char.isDigit
    if (c = 'e' ∨ c = 'E') ∧ digits.1 ≠ [] then
      (c :: ((scanSign cs).1 ++ digits.1), digits.2)
    else ([], c :: cs)

/-- The digits of a whole number without a leading zero. -/
def scanWhole : List Char → Option (List Char × List Char)
  | [] => none
  | c :: cs =>
    if c = '0' then some (['0'], cs)
    else if c.isDigit then some (c :: (cs.span Char.isDigit).1, (cs.span Char.isDigit).2)
    else none

/-- A number without its sign. -/
def scanUnsigned (cs : List Char) : Option (List Char × List Char) :=
  (scanWhole cs).map fun whole =>
    let fraction := scanFraction whole.2
    let exponent := scanExponent fraction.2
    (whole.1 ++ fraction.1 ++ exponent.1, exponent.2)

/-- **The number at the head of a text**, as the grammar has it. -/
def scanNumber : List Char → Option (List Char × List Char)
  | [] => none
  | c :: cs =>
    if c = '-' then (scanUnsigned cs).map fun token => (c :: token.1, token.2)
    else scanUnsigned (c :: cs)

/-! ## Values -/

variable {ν : Type} (numbers : JsonNumbers ν)

mutual

/-- **`json.dumps`.** -/
def dumps : Json ν → List Char
  | null => ['n', 'u', 'l', 'l']
  | bool true => ['t', 'r', 'u', 'e']
  | bool false => ['f', 'a', 'l', 's', 'e']
  | num n => numbers.text n
  | str s => quote s
  | arr [] => ['[', ']']
  | arr (x :: xs) => '[' :: (dumps x ++ dumpsElements xs)
  | obj [] => ['{', '}']
  | obj ((k, v) :: ms) => '{' :: (quote k ++ ':' :: ' ' :: (dumps v ++ dumpsMembers ms))

/-- The elements after the first, and the bracket. -/
def dumpsElements : List (Json ν) → List Char
  | [] => [']']
  | x :: xs => ',' :: ' ' :: (dumps x ++ dumpsElements xs)

/-- The members after the first, and the brace. -/
def dumpsMembers : List (String × Json ν) → List Char
  | [] => ['}']
  | (k, v) :: ms => ',' :: ' ' :: (quote k ++ ':' :: ' ' :: (dumps v ++ dumpsMembers ms))

end

/-- Whitespace between the tokens. -/
def isSpace (c : Char) : Bool := c = ' ' || c = '\t' || c = '\n' || c = '\r'

def skipSpaces (cs : List Char) : List Char := cs.dropWhile isSpace

/-- A key with its colon, at the quotation mark. -/
def readKey (fuel : ℕ) : List Char → Option (String × List Char)
  | '"' :: cs =>
    match readString fuel cs with
    | none => none
    | some (k, cs) =>
      match skipSpaces cs with
      | ':' :: cs => some (String.ofList k, skipSpaces cs)
      | _ => none
  | _ => none

mutual

/-- **A value at the head of a text.** The fuel bounds the depth and the
length of what is read. -/
def readValue : ℕ → List Char → Option (Json ν × List Char)
  | 0, _ => none
  | _ + 1, [] => none
  | fuel + 1, c :: cs =>
    if c = '"' then (readString fuel cs).map fun (s, cs) => (str (String.ofList s), cs)
    else if c = '{' then
      if (skipSpaces cs).head? = some '}' then some (obj [], (skipSpaces cs).tail)
      else (readMembers fuel (skipSpaces cs)).map fun (ms, cs) => (obj ms, cs)
    else if c = '[' then
      if (skipSpaces cs).head? = some ']' then some (arr [], (skipSpaces cs).tail)
      else (readElements fuel (skipSpaces cs)).map fun (xs, cs) => (arr xs, cs)
    else if ['n', 'u', 'l', 'l'].isPrefixOf (c :: cs) then some (null, cs.drop 3)
    else if ['t', 'r', 'u', 'e'].isPrefixOf (c :: cs) then some (bool true, cs.drop 3)
    else if ['f', 'a', 'l', 's', 'e'].isPrefixOf (c :: cs) then some (bool false, cs.drop 4)
    else do
      let (token, cs) ← scanNumber (c :: cs)
      let n ← numbers.read token
      some (num n, cs)

/-- Elements up to the bracket. -/
def readElements : ℕ → List Char → Option (List (Json ν) × List Char)
  | 0, _ => none
  | fuel + 1, cs => do
    let (x, cs) ← readValue fuel cs
    match skipSpaces cs with
    | ']' :: cs => some ([x], cs)
    | ',' :: cs => do
      let (xs, cs) ← readElements fuel (skipSpaces cs)
      some (x :: xs, cs)
    | _ => none

/-- Members up to the brace. -/
def readMembers : ℕ → List Char → Option (List (String × Json ν) × List Char)
  | 0, _ => none
  | fuel + 1, cs => do
    let (k, cs) ← readKey fuel cs
    let (v, cs) ← readValue fuel cs
    match skipSpaces cs with
    | '}' :: cs => some ([(k, v)], cs)
    | ',' :: cs => do
      let (ms, cs) ← readMembers fuel (skipSpaces cs)
      some ((k, v) :: ms, cs)
    | _ => none

end

/-- **`json.loads`**; `none` where it raises. Nothing in a text is deeper or
longer than the text. -/
def loads (cs : List Char) : Option (Json ν) :=
  match readValue numbers (cs.length + 1) (skipSpaces cs) with
  | some (v, rest) => if skipSpaces rest = [] then some v else none
  | none => none

/-- `d[key]` of an object; `none` where there is no such key. -/
def get? (members : List (String × Json ν)) (key : String) : Option (Json ν) :=
  (members.reverse.find? (·.1 = key)).map Prod.snd

/-! ## Other values in the place of numbers -/

section Bind

variable {μ : Type}

mutual

/-- **A value with another one in the place of each number.** -/
def bind (f : μ → Json ν) : Json μ → Json ν
  | null => null
  | bool b => bool b
  | num n => f n
  | str s => str s
  | arr xs => arr (bindElements f xs)
  | obj members => obj (bindMembers f members)

def bindElements (f : μ → Json ν) : List (Json μ) → List (Json ν)
  | [] => []
  | x :: xs => bind f x :: bindElements f xs

def bindMembers (f : μ → Json ν) : List (String × Json μ) → List (String × Json ν)
  | [] => []
  | (k, v) :: members => (k, bind f v) :: bindMembers f members

end

variable {f : ν → Json μ} {g : μ → Json ν}

mutual

/-- Numbers that are replaced and put back. -/
theorem bind_bind (h : ∀ n, (f n).bind g = num n) : ∀ v : Json ν, (v.bind f).bind g = v
  | null | bool _ | str _ => rfl
  | num n => h n
  | arr xs => congrArg arr (bindElements_bindElements h xs)
  | obj members => congrArg obj (bindMembers_bindMembers h members)

theorem bindElements_bindElements (h : ∀ n, (f n).bind g = num n) :
    ∀ xs : List (Json ν), bindElements g (bindElements f xs) = xs
  | [] => rfl
  | x :: xs => congrArg₂ List.cons (bind_bind h x) (bindElements_bindElements h xs)

theorem bindMembers_bindMembers (h : ∀ n, (f n).bind g = num n) :
    ∀ members : List (String × Json ν), bindMembers g (bindMembers f members) = members
  | [] => rfl
  | (k, v) :: members => congrArg₂ (fun w ms => (k, w) :: ms) (bind_bind h v)
    (bindMembers_bindMembers h members)

end

end Bind

/-! ## Strings are read back -/

theorem hexValue_digitChar {n : ℕ} (h : n < 16) : hexValue n.digitChar = some n := by
  interval_cases n <;> rfl

theorem readHex4_hex4 {n : ℕ} (h : n < 0x10000) (cs : List Char) :
    readHex4 (hex4 n ++ cs) = some (n, cs) := by
  have hlt : ∀ m, m % 16 < 16 := fun m => Nat.mod_lt m (by decide)
  have hsum : n / 4096 % 16 * 4096 + n / 256 % 16 * 256 + n / 16 % 16 * 16 + n % 16 = n := by
    omega
  simp only [hex4, List.cons_append, List.nil_append, readHex4, hexValue_digitChar (hlt _), hsum]

/-- A code unit is read back where it is a character by itself. -/
theorem readUnits_hex4 {n : ℕ} (h : n < 0x10000) (hn : n < 0xD800 ∨ 0xE000 ≤ n)
    (cs : List Char) : readUnits (hex4 n ++ cs) = some (Char.ofNat n, cs) := by
  have hhigh : ¬ (0xD800 ≤ n ∧ n < 0xDC00) := by omega
  have hlow : ¬ (0xDC00 ≤ n ∧ n < 0xE000) := by omega
  simp only [readUnits, readHex4_hex4 h, if_neg hhigh, if_neg hlow]

/-- A surrogate pair is read back. -/
theorem readUnits_pair {high low : ℕ} (hhigh : 0xD800 ≤ high ∧ high < 0xDC00)
    (hlow : 0xDC00 ≤ low ∧ low < 0xE000) (cs : List Char) :
    readUnits (hex4 high ++ (unitEscape low ++ cs))
      = some (Char.ofNat (0x10000 + (high - 0xD800) * 1024 + (low - 0xDC00)), cs) := by
  have h : high < 0x10000 := by omega
  have h' : low < 0x10000 := by omega
  simp only [readUnits, readHex4_hex4 h, if_pos hhigh, unitEscape, List.cons_append,
    readHex4_hex4 h', if_pos hlow]

/-- An escape by the code. -/
theorem readStringChar_unitEscape (n : ℕ) (cs : List Char) :
    readStringChar (unitEscape n ++ cs) = readUnits (hex4 n ++ cs) := by
  simp [unitEscape, readStringChar, readEscape]

/-- **A character is read back.** -/
theorem readStringChar_escape (c : Char) (cs : List Char) :
    readStringChar (escape c ++ cs) = some (c, cs) := by
  have hvalid : c.toNat < 0xD800 ∨ 0xDFFF < c.toNat ∧ c.toNat < 0x110000 := c.valid
  unfold escape
  split_ifs with h1 h2 h3 h4 h5 h6 h7 hprintable hbasic
  · rw [h1]; rfl
  · rw [h2]; rfl
  · rw [h3]; rfl
  · rw [h4]; rfl
  · rw [h5]; rfl
  · rw [h6]; rfl
  · rw [h7]; rfl
  · simp only [List.cons_append, List.nil_append, readStringChar, if_neg h2,
      if_neg (not_lt.mpr hprintable.1)]
  · have hread := readUnits_hex4 hbasic (by omega) cs
    rw [Char.ofNat_toNat] at hread
    rw [readStringChar_unitEscape, hread]
  · generalize hhigh : 0xD800 + (c.toNat - 0x10000) / 1024 = high
    generalize hlow : 0xDC00 + (c.toNat - 0x10000) % 1024 = low
    have hhigh' : 0xD800 ≤ high ∧ high < 0xDC00 := by omega
    have hlow' : 0xDC00 ≤ low ∧ low < 0xE000 := by omega
    have hread := readUnits_pair hhigh' hlow' cs
    have hcode : 0x10000 + (high - 0xD800) * 1024 + (low - 0xDC00) = c.toNat := by omega
    rw [hcode, Char.ofNat_toNat] at hread
    rw [List.append_assoc, readStringChar_unitEscape, hread]

/-- A character that is escaped does not end the string. -/
theorem exists_escape_eq_cons (c : Char) : ∃ d ds, escape c = d :: ds ∧ d ≠ '"' := by
  unfold escape
  split_ifs with h1 <;> first | exact ⟨_, _, rfl, by decide⟩ | exact ⟨_, _, rfl, h1⟩

theorem length_le_length_flatMap_escape (s : List Char) : s.length ≤ (s.flatMap escape).length := by
  induction s with
  | nil => exact le_rfl
  | cons c s ih =>
    obtain ⟨d, ds, hescape, -⟩ := exists_escape_eq_cons c
    rw [List.flatMap_cons, List.length_append, List.length_cons, hescape, List.length_cons]
    omega

/-- **A string is read back.** -/
theorem readString_flatMap (s : List Char) {fuel : ℕ} (h : s.length < fuel) (cs : List Char) :
    readString fuel (s.flatMap escape ++ '"' :: cs) = some (s, cs) := by
  induction s generalizing fuel with
  | nil =>
    obtain ⟨fuel, rfl⟩ := Nat.exists_eq_succ_of_ne_zero h.ne_bot
    rfl
  | cons c s ih =>
    obtain ⟨fuel, rfl⟩ := Nat.exists_eq_succ_of_ne_zero (Nat.ne_of_gt (Nat.zero_lt_of_lt h))
    obtain ⟨d, ds, hescape, hd⟩ := exists_escape_eq_cons c
    have hne : ((c :: s).flatMap escape ++ '"' :: cs).head? ≠ some '"' := by
      rw [List.flatMap_cons, hescape]
      simpa using hd
    rw [readString, if_neg hne, List.flatMap_cons, List.append_assoc, readStringChar_escape]
    simp [ih (Nat.lt_of_succ_lt_succ h)]

/-! ## Numbers are scanned -/

/-- A text at whose head a number ends. -/
def Stops (cs : List Char) : Prop :=
  ∀ c ∈ cs.head?, c.isDigit = false ∧ c ∉ ['.', 'e', 'E', '+', '-']

theorem stops_cons {c : Char} {cs : List Char} (hdigit : c.isDigit = false)
    (h : c ∉ ['.', 'e', 'E', '+', '-']) : Stops (c :: cs) := by
  rintro _ ⟨⟩
  exact ⟨hdigit, h⟩

theorem stops_nil : Stops [] := by rintro _ ⟨⟩

section Scan

variable {r : List Char} (hr : Stops r)
include hr

/-- **Scanning digits goes no further** where a number ends. -/
theorem span_append (cs : List Char) :
    (cs ++ r).span Char.isDigit
      = ((cs.span Char.isDigit).1, (cs.span Char.isDigit).2 ++ r) := by
  simp only [List.span_eq_takeWhile_dropWhile]
  induction cs with
  | nil =>
    cases r with
    | nil => rfl
    | cons d r => simp [(hr d rfl).1]
  | cons c cs ih =>
    by_cases hc : c.isDigit = true
    · simp only [List.cons_append, List.takeWhile_cons_of_pos hc, List.dropWhile_cons_of_pos hc]
      rw [Prod.mk.injEq] at ih ⊢
      exact ⟨congrArg _ ih.1, ih.2⟩
    · simp [hc]

theorem scanFraction_append (cs : List Char) :
    scanFraction (cs ++ r) = ((scanFraction cs).1, (scanFraction cs).2 ++ r) := by
  cases cs with
  | nil =>
    cases r with
    | nil => rfl
    | cons d r =>
      have hd : d ≠ '.' := fun h => (hr d rfl).2 (by simp [h])
      simp [scanFraction, hd]
  | cons c cs =>
    simp only [List.cons_append, scanFraction, span_append hr]
    split_ifs <;> rfl

theorem scanSign_append (cs : List Char) :
    scanSign (cs ++ r) = ((scanSign cs).1, (scanSign cs).2 ++ r) := by
  cases cs with
  | nil =>
    cases r with
    | nil => rfl
    | cons d r =>
      have hd : ¬ (d = '+' ∨ d = '-') := by
        rintro (h | h) <;> exact (hr d rfl).2 (by simp [h])
      simp [scanSign, hd]
  | cons c cs =>
    simp only [List.cons_append, scanSign]
    split_ifs <;> rfl

theorem scanExponent_append (cs : List Char) :
    scanExponent (cs ++ r) = ((scanExponent cs).1, (scanExponent cs).2 ++ r) := by
  cases cs with
  | nil =>
    cases r with
    | nil => rfl
    | cons d r =>
      have hd : ¬ (d = 'e' ∨ d = 'E') := by
        rintro (h | h) <;> exact (hr d rfl).2 (by simp [h])
      simp [scanExponent, hd]
  | cons c cs =>
    simp only [List.cons_append, scanExponent, scanSign_append hr, span_append hr]
    split_ifs <;> rfl

theorem scanUnsigned_append {cs token rest : List Char}
    (h : scanUnsigned cs = some (token, rest)) :
    scanUnsigned (cs ++ r) = some (token, rest ++ r) := by
  have hwhole : ∀ whole, scanWhole cs = some whole →
      scanWhole (cs ++ r) = some (whole.1, whole.2 ++ r) := by
    intro whole hwhole
    cases cs with
    | nil => cases hwhole
    | cons c cs =>
      simp only [List.cons_append, scanWhole, span_append hr] at hwhole ⊢
      split_ifs at hwhole ⊢ <;> obtain rfl := Option.some.inj hwhole <;> rfl
  obtain ⟨whole, hscan, htoken⟩ := Option.map_eq_some_iff.mp h
  obtain ⟨rfl, rfl⟩ := Prod.mk.inj htoken
  rw [scanUnsigned, hwhole whole hscan]
  simp only [Option.map_some, scanFraction_append hr, scanExponent_append hr]

/-- **A number is scanned up to where it ends.** -/
theorem scanNumber_append {cs token rest : List Char}
    (h : scanNumber cs = some (token, rest)) :
    scanNumber (cs ++ r) = some (token, rest ++ r) := by
  cases cs with
  | nil => cases h
  | cons c cs =>
    rw [scanNumber] at h
    rw [List.cons_append, scanNumber]
    split_ifs at h ⊢ with hc
    · obtain ⟨unsigned, hscan, htoken⟩ := Option.map_eq_some_iff.mp h
      obtain ⟨rfl, rfl⟩ := Prod.mk.inj htoken
      exact Option.map_eq_some_iff.mpr ⟨_, scanUnsigned_append hr hscan, rfl⟩
    · exact scanUnsigned_append hr h

end Scan

/-- A number starts with a sign or a digit. -/
theorem head_of_scanNumber {c : Char} {cs : List Char} {token : List Char × List Char}
    (h : scanNumber (c :: cs) = some token) : c = '-' ∨ c.isDigit = true := by
  rw [scanNumber] at h
  split_ifs at h with hc
  · exact .inl hc
  · obtain ⟨whole, hscan, -⟩ := Option.map_eq_some_iff.mp h
    rw [scanWhole] at hscan
    split_ifs at hscan with hzero hdigit
    · exact .inr (hzero ▸ rfl)
    · exact .inr hdigit

end Json

/-- **A number that is read back**: its text is one of the grammar, and is
read as the number. -/
structure JsonNumbers.ReadsBack {ν : Type} (numbers : JsonNumbers ν) (n : ν) : Prop where
  scan : Json.scanNumber (numbers.text n) = some (numbers.text n, [])
  read : numbers.read (numbers.text n) = some n

namespace Json

variable {ν : Type} (numbers : JsonNumbers ν)

/-! ## Values are read back -/

mutual

/-- All numbers of a value are read back. -/
def Readable : Json ν → Prop
  | num n => numbers.ReadsBack n
  | arr xs => ReadableElements xs
  | obj ms => ReadableMembers ms
  | _ => True

def ReadableElements : List (Json ν) → Prop
  | [] => True
  | x :: xs => Readable x ∧ ReadableElements xs

def ReadableMembers : List (String × Json ν) → Prop
  | [] => True
  | (_, v) :: ms => Readable v ∧ ReadableMembers ms

end

variable {numbers}

/-- A digit is no character of any other token. -/
theorem isDigit_cases {c : Char} (h : c.isDigit = true) :
    isSpace c = false ∧ c ∉ ['"', '{', '}', '[', ']', 'n', 't', 'f', '-'] := by
  refine ⟨?_, fun hmem => ?_⟩
  · simp only [isSpace, Bool.or_eq_false_iff, decide_eq_false_iff_not]
    refine ⟨⟨⟨?_, ?_⟩, ?_⟩, ?_⟩ <;> rintro rfl <;> cases h
  · simp only [List.mem_cons, List.not_mem_nil, or_false] at hmem
    rcases hmem with rfl | rfl | rfl | rfl | rfl | rfl | rfl | rfl | rfl <;> cases h

/-- The text of a number. -/
theorem exists_text_eq_cons {n : ν} (h : numbers.ReadsBack n) :
    ∃ c cs, numbers.text n = c :: cs ∧ (c = '-' ∨ c.isDigit = true) := by
  have hscan := h.scan
  cases htext : numbers.text n with
  | nil => rw [htext] at hscan; cases hscan
  | cons c cs =>
    rw [htext] at hscan
    exact ⟨c, cs, rfl, head_of_scanNumber hscan⟩

/-- **How the text of a value starts.** -/
theorem exists_dumps_eq_cons {v : Json ν} (h : v.Readable numbers) :
    ∃ c cs, dumps numbers v = c :: cs ∧ isSpace c = false ∧ c ≠ ']' ∧ c ≠ '}' := by
  cases v with
  | null => exact ⟨_, _, rfl, rfl, by decide, by decide⟩
  | bool b => cases b <;> exact ⟨_, _, rfl, rfl, by decide, by decide⟩
  | num n =>
    obtain ⟨c, cs, htext, hc⟩ := exists_text_eq_cons h
    refine ⟨c, cs, by rw [dumps, htext], ?_⟩
    rcases hc with rfl | hdigit
    · decide
    · obtain ⟨hspace, hne⟩ := isDigit_cases hdigit
      exact ⟨hspace, fun h => hne (by simp [h]), fun h => hne (by simp [h])⟩
  | str s => exact ⟨_, _, rfl, rfl, by decide, by decide⟩
  | arr xs => cases xs <;> exact ⟨_, _, rfl, rfl, by decide, by decide⟩
  | obj ms => cases ms <;> exact ⟨_, _, rfl, rfl, by decide, by decide⟩

theorem skipSpaces_cons {c : Char} (h : isSpace c = false) (cs : List Char) :
    skipSpaces (c :: cs) = c :: cs := by
  simp [skipSpaces, h]

theorem skipSpaces_blank (cs : List Char) : skipSpaces (' ' :: cs) = skipSpaces cs := rfl

theorem skipSpaces_comma (cs : List Char) : skipSpaces (',' :: cs) = ',' :: cs := rfl

theorem skipSpaces_colon (cs : List Char) : skipSpaces (':' :: cs) = ':' :: cs := rfl

theorem skipSpaces_dumps {v : Json ν} (h : v.Readable numbers) (r : List Char) :
    skipSpaces (dumps numbers v ++ r) = dumps numbers v ++ r := by
  obtain ⟨c, cs, hdumps, hspace, -⟩ := exists_dumps_eq_cons h
  rw [hdumps, List.cons_append, skipSpaces_cons hspace]

/-- A number ends where the next token of an array begins. -/
theorem stops_dumpsElements (numbers : JsonNumbers ν) (xs : List (Json ν)) (r : List Char) :
    Stops (dumpsElements numbers xs ++ r) := by
  cases xs <;> exact stops_cons rfl (by decide)

theorem stops_dumpsMembers (numbers : JsonNumbers ν) (ms : List (String × Json ν)) (r : List Char) :
    Stops (dumpsMembers numbers ms ++ r) := by
  cases ms <;> exact stops_cons rfl (by decide)

/-- A key is read back, with its colon. -/
theorem readKey_quote (k : String) {fuel : ℕ} (h : k.toList.length < fuel) (cs : List Char) :
    readKey fuel (quote k ++ ':' :: cs) = some (k, skipSpaces cs) := by
  have hquote : quote k ++ ':' :: cs = '"' :: (k.toList.flatMap escape ++ '"' :: ':' :: cs) := by
    simp [quote]
  simp only [hquote, readKey, readString_flatMap k.toList h, skipSpaces_colon, String.ofList_toList]

theorem length_lt_length_quote (s : String) : s.toList.length + 1 < (quote s).length := by
  have := length_le_length_flatMap_escape s.toList
  simp only [quote, List.length_cons, List.length_append, List.length_nil]
  omega

/-- A number is read back where it ends. -/
theorem readValue_num {n : ν} (h : numbers.ReadsBack n) {r : List Char} (hr : Stops r)
    {fuel : ℕ} (hfuel : 0 < fuel) :
    readValue numbers fuel (numbers.text n ++ r) = some (num n, r) := by
  obtain ⟨fuel, rfl⟩ := Nat.exists_eq_succ_of_ne_zero hfuel.ne'
  obtain ⟨c, cs, htext, hc⟩ := exists_text_eq_cons h
  have hscan := scanNumber_append hr h.scan
  have hread := h.read
  rw [htext, List.nil_append, List.cons_append] at hscan
  rw [htext] at hread
  have hne : c ∉ ['"', '{', '[', 'n', 't', 'f'] := by
    rcases hc with rfl | hdigit
    · decide
    · intro hmem
      refine (isDigit_cases hdigit).2 ?_
      simp only [List.mem_cons, List.not_mem_nil, or_false] at hmem ⊢
      tauto
  simp only [List.mem_cons, List.not_mem_nil, or_false, not_or] at hne
  obtain ⟨h1, h2, h3, h4, h5, h6⟩ := hne
  rw [htext, List.cons_append, readValue, if_neg h1, if_neg h2, if_neg h3,
    if_neg (by simp [List.isPrefixOf, Ne.symm h4]), if_neg (by simp [List.isPrefixOf, Ne.symm h5]),
    if_neg (by simp [List.isPrefixOf, Ne.symm h6]), hscan]
  simp [hread]

mutual

/-- **A value is read back**, with what follows it. -/
theorem readValue_dumps : ∀ (v : Json ν), v.Readable numbers → ∀ {n : ℕ},
    (dumps numbers v).length ≤ n → ∀ {r : List Char}, Stops r →
    readValue numbers n (dumps numbers v ++ r) = some (v, r)
  | null, _, fuel + 1, _, r, _ => rfl
  | bool true, _, fuel + 1, _, r, _ => rfl
  | bool false, _, fuel + 1, _, r, _ => rfl
  | num n, h, fuel, hfuel, r, hr => by
    obtain ⟨c, cs, htext, -⟩ := exists_text_eq_cons h
    refine readValue_num h hr (lt_of_lt_of_le ?_ hfuel)
    rw [dumps, htext]
    exact Nat.succ_pos _
  | str s, _, fuel + 1, hfuel, r, _ => by
    have hlt := length_lt_length_quote s
    have hs : s.toList.length < fuel := by
      rw [dumps] at hfuel
      omega
    have hquote : dumps numbers (str s) ++ r = '"' :: (s.toList.flatMap escape ++ '"' :: r) := by
      simp [dumps, quote]
    rw [hquote, readValue, if_pos rfl, readString_flatMap s.toList hs]
    simp
  | arr [], _, fuel + 1, _, r, _ => rfl
  | arr (x :: xs), h, fuel + 1, hfuel, r, _ => by
    have hx : x.Readable numbers := h.1
    obtain ⟨c, cs, hdumps, hspace, hne, -⟩ := exists_dumps_eq_cons hx
    have hskip := skipSpaces_dumps hx (dumpsElements numbers xs ++ r)
    have hhead : (dumps numbers x ++ (dumpsElements numbers xs ++ r)).head? ≠ some ']' := by
      rw [hdumps]
      simpa using hne
    have hread := readElements_dumps x xs h (n := fuel) (by
      simp only [dumps, List.length_cons] at hfuel
      omega) (r := r)
    rw [dumps, List.cons_append, List.append_assoc, readValue, if_neg (by decide),
      if_neg (by decide), if_pos rfl, hskip, if_neg hhead, hread]
    rfl
  | obj [], _, fuel + 1, _, r, _ => rfl
  | obj ((k, v) :: ms), h, fuel + 1, hfuel, r, _ => by
    have hread := readMembers_dumps k v ms h (n := fuel) (by
      simp only [dumps, List.length_cons] at hfuel
      omega) (r := r)
    have hskip : skipSpaces (quote k ++ ':' :: ' ' :: (dumps numbers v
        ++ (dumpsMembers numbers ms ++ r))) = quote k ++ ':' :: ' ' :: (dumps numbers v
        ++ (dumpsMembers numbers ms ++ r)) := skipSpaces_cons rfl _
    have hhead : (quote k ++ ':' :: ' ' :: (dumps numbers v
        ++ (dumpsMembers numbers ms ++ r))).head? ≠ some '}' := by
      rw [quote]
      simp
    have htext : dumps numbers (obj ((k, v) :: ms)) ++ r
        = '{' :: (quote k ++ ':' :: ' ' :: (dumps numbers v
          ++ (dumpsMembers numbers ms ++ r))) := by
      simp [dumps]
    rw [htext, readValue, if_neg (by decide), if_pos rfl, hskip, if_neg hhead, hread]
    rfl
  | null, _, 0, hfuel, _, _ => absurd hfuel (by simp [dumps])
  | bool true, _, 0, hfuel, _, _ => absurd hfuel (by simp [dumps])
  | bool false, _, 0, hfuel, _, _ => absurd hfuel (by simp [dumps])
  | str _, _, 0, hfuel, _, _ => absurd hfuel (by simp [dumps, quote])
  | arr [], _, 0, hfuel, _, _ => absurd hfuel (by simp [dumps])
  | arr (_ :: _), _, 0, hfuel, _, _ => absurd hfuel (by simp [dumps])
  | obj [], _, 0, hfuel, _, _ => absurd hfuel (by simp [dumps])
  | obj (_ :: _), _, 0, hfuel, _, _ => absurd hfuel (by simp [dumps])

theorem readElements_dumps : ∀ (x : Json ν) (xs : List (Json ν)),
    ReadableElements numbers (x :: xs) → ∀ {n : ℕ},
    (dumps numbers x ++ dumpsElements numbers xs).length ≤ n → ∀ {r : List Char},
    readElements numbers n (dumps numbers x ++ (dumpsElements numbers xs ++ r))
      = some (x :: xs, r)
  | x, xs, h, 0, hfuel, r => by
    obtain ⟨c, cs, hdumps, -⟩ := exists_dumps_eq_cons h.1
    rw [hdumps] at hfuel
    exact absurd hfuel (by simp)
  | x, [], h, fuel + 1, hfuel, r => by
    have hx := readValue_dumps x h.1 (n := fuel) (by
      simp only [dumpsElements, List.length_append, List.length_cons, List.length_nil] at hfuel
      omega) (stops_dumpsElements numbers [] r)
    rw [readElements, hx]
    rfl
  | x, y :: ys, h, fuel + 1, hfuel, r => by
    have hx := readValue_dumps x h.1 (n := fuel) (by
      simp only [dumpsElements, List.length_append, List.length_cons] at hfuel
      omega) (stops_dumpsElements numbers (y :: ys) r)
    have hys := readElements_dumps y ys h.2 (n := fuel) (by
      simp only [dumpsElements, List.length_append, List.length_cons] at hfuel ⊢
      omega) (r := r)
    have hskip := skipSpaces_dumps (v := y) h.2.1 (dumpsElements numbers ys ++ r)
    have htext : dumpsElements numbers (y :: ys) ++ r
        = ',' :: ' ' :: (dumps numbers y ++ (dumpsElements numbers ys ++ r)) := by
      simp [dumpsElements]
    rw [readElements, hx]
    simp only [htext, Option.bind_eq_bind, Option.bind_some, skipSpaces_comma, skipSpaces_blank,
      hskip, hys]

theorem readMembers_dumps : ∀ (k : String) (v : Json ν) (ms : List (String × Json ν)),
    ReadableMembers numbers ((k, v) :: ms) → ∀ {n : ℕ},
    (quote k ++ ':' :: ' ' :: (dumps numbers v ++ dumpsMembers numbers ms)).length ≤ n →
    ∀ {r : List Char},
    readMembers numbers n (quote k ++ ':' :: ' ' :: (dumps numbers v
      ++ (dumpsMembers numbers ms ++ r))) = some ((k, v) :: ms, r)
  | k, v, ms, h, 0, hfuel, r => absurd hfuel (by simp [quote])
  | k, v, [], h, fuel + 1, hfuel, r => by
    have hlt := length_lt_length_quote k
    simp only [dumpsMembers, List.length_append, List.length_cons, List.length_nil] at hfuel
    have hv := readValue_dumps v h.1 (n := fuel) (by omega)
      (stops_dumpsMembers numbers [] r)
    rw [readMembers, readKey_quote k (by omega), skipSpaces_blank, skipSpaces_dumps h.1]
    simp only [Option.bind_eq_bind, Option.bind_some, hv]
    rfl
  | k, v, (l, w) :: ms, h, fuel + 1, hfuel, r => by
    have hlt := length_lt_length_quote k
    simp only [dumpsMembers, List.length_append, List.length_cons] at hfuel
    have hv := readValue_dumps v h.1 (n := fuel) (by omega)
      (stops_dumpsMembers numbers ((l, w) :: ms) r)
    have hms := readMembers_dumps l w ms h.2 (n := fuel) (by
      simp only [List.length_append, List.length_cons]
      omega) (r := r)
    have hskip : skipSpaces (quote l ++ ':' :: ' ' :: (dumps numbers w
        ++ (dumpsMembers numbers ms ++ r))) = quote l ++ ':' :: ' ' :: (dumps numbers w
        ++ (dumpsMembers numbers ms ++ r)) := skipSpaces_cons rfl _
    have htext : dumpsMembers numbers ((l, w) :: ms) ++ r
        = ',' :: ' ' :: (quote l ++ ':' :: ' ' :: (dumps numbers w
          ++ (dumpsMembers numbers ms ++ r))) := by
      simp [dumpsMembers]
    rw [readMembers, readKey_quote k (by omega), skipSpaces_blank, skipSpaces_dumps h.1]
    simp only [Option.bind_eq_bind, Option.bind_some, hv]
    simp only [htext, skipSpaces_comma, skipSpaces_blank, hskip, hms, Option.bind_some]

end

/-- **What is written is read back**, also with whitespace behind it. -/
theorem loads_dumps {v : Json ν} (h : v.Readable numbers) {r : List Char} (hr : skipSpaces r = []) :
    loads numbers (dumps numbers v ++ r) = some v := by
  have hstops : Stops r := by
    cases r with
    | nil => exact stops_nil
    | cons c r =>
      cases hc : isSpace c with
      | false => rw [skipSpaces_cons hc] at hr; cases hr
      | true =>
        simp only [isSpace, Bool.or_eq_true, decide_eq_true_eq] at hc
        rcases hc with ((rfl | rfl) | rfl) | rfl <;> exact stops_cons rfl (by decide)
  have hlen : (dumps numbers v).length ≤ (dumps numbers v ++ r).length + 1 := by
    rw [List.length_append]
    omega
  rw [loads, skipSpaces_dumps h, readValue_dumps v h hlen hstops]
  exact if_pos hr

/-! ## Lines of values -/

/-- A text without control characters. -/
def Printable (cs : List Char) : Prop := ∀ c ∈ cs, 32 ≤ c.toNat

theorem printable_nil : Printable [] := by simp [Printable]

@[simp] theorem printable_cons {c : Char} {cs : List Char} :
    Printable (c :: cs) ↔ 32 ≤ c.toNat ∧ Printable cs := by
  simp [Printable]

@[simp] theorem printable_append {cs ds : List Char} :
    Printable (cs ++ ds) ↔ Printable cs ∧ Printable ds := by
  simp [Printable, or_imp, forall_and]

theorem le_toNat_of_isDigit {c : Char} (h : c.isDigit = true) : 32 ≤ c.toNat := by
  have hle : 48 ≤ c.toNat := by
    simp only [Char.isDigit, Bool.and_eq_true, decide_eq_true_eq, ge_iff_le,
      UInt32.le_iff_toNat_le] at h
    exact h.1
  omega

theorem printable_unitEscape (n : ℕ) : Printable (unitEscape n) := by
  have hdigit : ∀ m, m % 16 < 16 → 32 ≤ (m % 16).digitChar.toNat := by
    intro m
    generalize m % 16 = d
    intro hd
    interval_cases d <;> decide
  have hlt : ∀ m, m % 16 < 16 := fun m => Nat.mod_lt m (by decide)
  simp only [unitEscape, hex4, printable_cons, hdigit _ (hlt _), printable_nil, and_true]
  decide

theorem printable_escape (c : Char) : Printable (escape c) := by
  unfold escape
  split_ifs with h1 h2 h3 h4 h5 h6 h7 hprintable
  iterate 7 simp only [printable_cons, printable_nil, and_true]; decide
  · exact printable_cons.mpr ⟨hprintable.1, printable_nil⟩
  · exact printable_unitEscape _
  · exact printable_append.mpr ⟨printable_unitEscape _, printable_unitEscape _⟩

theorem printable_quote (s : String) : Printable (quote s) := by
  have hmem : Printable (s.toList.flatMap escape) := fun d hd => by
    obtain ⟨c, -, hc⟩ := List.mem_flatMap.mp hd
    exact printable_escape c d hc
  simp only [quote, printable_cons, printable_append, hmem, printable_nil, and_true, true_and]
  decide

/-- The digits of a number. -/
theorem printable_span (cs : List Char) : Printable (cs.span Char.isDigit).1 := by
  rw [List.span_eq_takeWhile_dropWhile]
  exact fun c hc => le_toNat_of_isDigit (List.mem_takeWhile_imp hc)

theorem printable_scanFraction (cs : List Char) : Printable (scanFraction cs).1 := by
  cases cs with
  | nil => exact printable_nil
  | cons c cs =>
    simp only [scanFraction]
    split_ifs with h
    · rw [h.1, printable_cons]
      exact ⟨by decide, printable_span cs⟩
    · exact printable_nil

theorem printable_scanSign (cs : List Char) : Printable (scanSign cs).1 := by
  cases cs with
  | nil => exact printable_nil
  | cons c cs =>
    simp only [scanSign]
    split_ifs with h
    · rcases h with rfl | rfl <;> simp only [printable_cons, printable_nil, and_true] <;> decide
    · exact printable_nil

theorem printable_scanExponent (cs : List Char) : Printable (scanExponent cs).1 := by
  cases cs with
  | nil => exact printable_nil
  | cons c cs =>
    simp only [scanExponent]
    split_ifs with h
    · have hc : 32 ≤ c.toNat := by rcases h.1 with rfl | rfl <;> decide
      simp only [printable_cons, printable_append]
      exact ⟨hc, printable_scanSign cs, printable_span _⟩
    · exact printable_nil

theorem printable_scanUnsigned {cs : List Char} {token : List Char × List Char}
    (h : scanUnsigned cs = some token) : Printable token.1 := by
  obtain ⟨whole, hwhole, rfl⟩ := Option.map_eq_some_iff.mp h
  have hp : Printable whole.1 := by
    cases cs with
    | nil => cases hwhole
    | cons c cs =>
      rw [scanWhole] at hwhole
      split_ifs at hwhole with hzero hdigit <;> obtain rfl := Option.some.inj hwhole
      · simp only [printable_cons, printable_nil, and_true]
        decide
      · exact printable_cons.mpr ⟨le_toNat_of_isDigit hdigit, printable_span cs⟩
  simp only [printable_append]
  exact ⟨⟨hp, printable_scanFraction _⟩, printable_scanExponent _⟩

/-- A number has no control characters. -/
theorem printable_text {n : ν} (h : numbers.ReadsBack n) : Printable (numbers.text n) := by
  have hscan := h.scan
  generalize numbers.text n = text at hscan
  cases hcs : text with
  | nil => exact printable_nil
  | cons c cs =>
    rw [hcs, scanNumber] at hscan
    split_ifs at hscan with hc
    · obtain ⟨unsigned, hunsigned, htoken⟩ := Option.map_eq_some_iff.mp hscan
      have htext : c :: unsigned.1 = c :: cs := congrArg Prod.fst htoken
      rw [← htext, hc, printable_cons]
      exact ⟨by decide, printable_scanUnsigned hunsigned⟩
    · exact printable_scanUnsigned hscan

mutual

/-- **The text of a value has no control characters**, so it is one line. -/
theorem printable_dumps : ∀ (v : Json ν), v.Readable numbers → Printable (dumps numbers v)
  | null, _ | bool true, _ | bool false, _ => by
    simp only [dumps, printable_cons, printable_nil, and_true]
    decide
  | num _, h => printable_text h
  | str s, _ => printable_quote s
  | arr [], _ | obj [], _ => by
    simp only [dumps, printable_cons, printable_nil, and_true]
    decide
  | arr (x :: xs), h => by
    simp only [dumps, printable_cons, printable_append]
    exact ⟨by decide, printable_dumps x h.1, printable_dumpsElements xs h.2⟩
  | obj ((k, v) :: ms), h => by
    simp only [dumps, printable_cons, printable_append]
    exact ⟨by decide, printable_quote k, by decide, by decide, printable_dumps v h.1,
      printable_dumpsMembers ms h.2⟩

theorem printable_dumpsElements : ∀ (xs : List (Json ν)), ReadableElements numbers xs →
    Printable (dumpsElements numbers xs)
  | [], _ => by
    simp only [dumpsElements, printable_cons, printable_nil, and_true]
    decide
  | x :: xs, h => by
    simp only [dumpsElements, printable_cons, printable_append]
    exact ⟨by decide, by decide, printable_dumps x h.1, printable_dumpsElements xs h.2⟩

theorem printable_dumpsMembers : ∀ (ms : List (String × Json ν)),
    ReadableMembers numbers ms → Printable (dumpsMembers numbers ms)
  | [], _ => by
    simp only [dumpsMembers, printable_cons, printable_nil, and_true]
    decide
  | (k, v) :: ms, h => by
    simp only [dumpsMembers, printable_cons, printable_append]
    exact ⟨by decide, by decide, printable_quote k, by decide, by decide, printable_dumps v h.1,
      printable_dumpsMembers ms h.2⟩

end

/-- Whether a character ends a line. -/
def endsLine (c : Char) : Bool := c = '\n' || c = '\r'

/-- The values of the lines of a text; lines that cannot be read are passed
over. -/
def loadsLines (numbers : JsonNumbers ν) (text : List Char) : List (Json ν) :=
  (text.splitOnP endsLine).filterMap (loads numbers)

/-- Values, one on a line. -/
def dumpsLines (numbers : JsonNumbers ν) (vs : List (Json ν)) : List Char :=
  vs.flatMap fun v => dumps numbers v ++ ['\n']

theorem dumpsLines_append (vs ws : List (Json ν)) :
    dumpsLines numbers (vs ++ ws) = dumpsLines numbers vs ++ dumpsLines numbers ws :=
  List.flatMap_append

/-- **Values that are written line by line are read back.** -/
theorem loadsLines_dumpsLines {vs : List (Json ν)} (h : ∀ v ∈ vs, v.Readable numbers) :
    loadsLines numbers (dumpsLines numbers vs) = vs := by
  induction vs with
  | nil => rfl
  | cons v vs ih =>
    obtain ⟨hv, hvs⟩ := List.forall_mem_cons.mp h
    have hline : ∀ c ∈ dumps numbers v, endsLine c = false := fun c hc => by
      have hle := printable_dumps v hv c hc
      simp only [endsLine, Bool.or_eq_false_iff, decide_eq_false_iff_not]
      constructor <;> rintro rfl <;> exact absurd hle (by decide)
    have hread : loads numbers (dumps numbers v) = some v := by
      simpa using loads_dumps hv (r := []) rfl
    have hsplit : dumpsLines numbers (v :: vs)
        = dumps numbers v ++ '\n' :: dumpsLines numbers vs := by
      simp [dumpsLines]
    rw [hsplit, loadsLines, List.splitOnP_append_cons_of_forall_mem hline _ rfl,
      List.filterMap_cons_some hread]
    exact congrArg (v :: ·) (ih hvs)

end Json
