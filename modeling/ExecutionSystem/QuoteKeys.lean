import ExecutionSystem.PythonData
import ExecutionSystem.Quotes

/-!
# Quote keys are read back

A quote, a bar and a subscription of an option contract are found under one
text, which `to_quote_symbol` prints and `_parse_symbol_to_ib_contract` of the
broker reads: four words with a blank between them. The symbol and the
expiry are words, the strike is printed as an integer where it is one, and
the right is a letter.

The reader splits at whitespace and tries two orders of the last two words.
A key has the first order, for its third word reads as a float, so the
broker gets the contract that was meant (`parse_toQuoteSymbol`), and two
contracts with one key are the same option. How floats are printed and read
is a parameter, and all that is asked of it is that the strikes at hand are
read back (`Builtins.ReadsBack`).
-/

/-! ## Words -/

namespace List

variable {α : Type*} {p : α → Bool} {xs ys : List α} {sep : α}

/-- The runs of elements between those that `p` separates at. -/
def wordsBy (p : α → Bool) (xs : List α) : List (List α) :=
  (xs.splitOnP p).filter (!·.isEmpty)

theorem wordsBy_eq_singleton (hne : xs ≠ []) (h : ∀ x ∈ xs, p x = false) :
    xs.wordsBy p = [xs] := by
  rw [wordsBy, splitOnP_eq_singleton h, filter_cons, if_pos (by simp [hne]), filter_nil]

/-- A separator ends a word. -/
theorem wordsBy_append_cons (hne : xs ≠ []) (h : ∀ x ∈ xs, p x = false) (hsep : p sep = true) :
    (xs ++ sep :: ys).wordsBy p = xs :: ys.wordsBy p := by
  rw [wordsBy, splitOnP_append_cons_of_forall_mem h sep hsep, filter_cons,
    if_pos (by simp [hne]), wordsBy]

end List

/-- Whether a character is whitespace, as `str.isspace` has it. -/
def isSpaceChar (c : Char) : Bool :=
  (9 ≤ c.toNat && c.toNat ≤ 13) || (28 ≤ c.toNat && c.toNat ≤ 32)
    || (0x2000 ≤ c.toNat && c.toNat ≤ 0x200A)
    || [0x85, 0xA0, 0x1680, 0x2028, 0x2029, 0x202F, 0x205F, 0x3000].contains c.toNat

/-- `s.split()`. -/
def splitWords (s : String) : List String := (s.toList.wordsBy isSpaceChar).map String.ofList

/-- A text without whitespace that is not empty. -/
def IsWord (s : String) : Prop := s ≠ "" ∧ ∀ c ∈ s.toList, isSpaceChar c = false

instance (s : String) : Decidable (IsWord s) :=
  decidable_of_iff (s ≠ "" ∧ s.toList.all fun c => !isSpaceChar c) (by simp [IsWord])

theorem IsWord.toList_ne_nil {s : String} (h : IsWord s) : s.toList ≠ [] :=
  fun hnil => h.1 (String.toList_eq_nil_iff.mp hnil)

/-- A word that is split off at a blank. -/
theorem splitWords_cons {w s : String} (hw : IsWord w) :
    splitWords (w ++ " " ++ s) = w :: splitWords s := by
  have hlist : (w ++ " " ++ s).toList = w.toList ++ ' ' :: s.toList := by simp
  rw [splitWords, hlist, List.wordsBy_append_cons hw.toList_ne_nil hw.2 rfl, List.map_cons,
    String.ofList_toList]
  rfl

theorem splitWords_eq_singleton {w : String} (hw : IsWord w) : splitWords w = [w] := by
  rw [splitWords, List.wordsBy_eq_singleton hw.toList_ne_nil hw.2, List.map_singleton,
    String.ofList_toList]

/-- The range of the digits. -/
theorem toNat_of_isDigit {c : Char} (h : c.isDigit) : 48 ≤ c.toNat ∧ c.toNat ≤ 57 := by
  simp only [Char.isDigit, Bool.and_eq_true, decide_eq_true_eq, ge_iff_le,
    UInt32.le_iff_toNat_le] at h
  exact h

/-- Digits are no whitespace. -/
theorem isSpaceChar_of_isDigit {c : Char} (h : c.isDigit) : isSpaceChar c = false := by
  have hrange := toNat_of_isDigit h
  unfold isSpaceChar
  simp only [Bool.or_eq_false_iff, Bool.and_eq_false_iff, decide_eq_false_iff_not,
    List.contains_eq_mem, List.mem_cons, List.not_mem_nil, or_false]
  omega

/-- The digits of a number are a word. -/
theorem isWord_toString (n : ℕ) : IsWord (toString n) := by
  rw [Nat.toString_eq_repr]
  refine ⟨Nat.repr_ne_empty, fun c hc => isSpaceChar_of_isDigit ?_⟩
  rw [Nat.toList_repr] at hc
  exact Nat.isDigit_of_mem_toDigits (by decide) (by decide) hc

/-! ## Contracts of the broker -/

/-- What a contract of the broker is for. -/
inductive SecType where
  | stk
  | opt
  | ind
  deriving DecidableEq

/-- **A contract as `ib_async` has it**, with what the client reads of it. -/
structure IbContract where
  secType : SecType
  symbol : String
  lastTradeDateOrContractMonth : String := ""
  strike : PyFloat := .finite 0
  right : String := ""
  exchange : String
  currency : String
  deriving DecidableEq

namespace IbContract

/-- `Option(..., "SMART", currency="USD")`. -/
def option (symbol expiry : String) (strike : PyFloat) (right : String) : IbContract where
  secType := .opt
  symbol := symbol
  lastTradeDateOrContractMonth := expiry
  strike := strike
  right := right
  exchange := "SMART"
  currency := "USD"

/-- `Stock(symbol, "SMART", "USD")`. -/
def stock (symbol : String) : IbContract where
  secType := .stk
  symbol := symbol
  exchange := "SMART"
  currency := "USD"

/-- `Index(symbol, "CBOE", "USD")`. -/
def index (symbol : String) : IbContract where
  secType := .ind
  symbol := symbol
  exchange := "CBOE"
  currency := "USD"

end IbContract

/-- `upper` of a character, as far as it gives an ASCII letter: the long s
is the one character besides the small letters that does. -/
def upperChar (c : Char) : Char := if c = 'ſ' then 'S' else c.toUpper

/-- Whether a text starts with `"C"` when it is in capitals. -/
def startsWithC (right : String) : Bool := (right.toList.head?.map upperChar) = some 'C'

section Client

variable (py : Builtins)

/-- The text of the model's pattern for an expiry: eight digits. -/
def EightDigits (expiry : String) : Prop :=
  expiry.toList.length = 8 ∧ ∀ c ∈ expiry.toList, py.isDecimal c = true

instance (expiry : String) : Decidable (EightDigits py expiry) :=
  decidable_of_iff (expiry.toList.length = 8 ∧ expiry.toList.all py.isDecimal)
    (by simp [EightDigits])

/-- The right that both readers see in a text: `"C"` at its start, or not. -/
def rightOf (right : String) : OptionRight := if startsWithC right then .call else .put

/-- `_from_ib_contract`; `none` where the model's validation raises. A
contract of the model has a finite strike. -/
def fromIbContract (ib : IbContract) : Option OptionContract :=
  match ib.strike with
  | .finite strike =>
    if h : ib.symbol ≠ "" ∧ EightDigits py ib.lastTradeDateOrContractMonth ∧ 0 < strike then
      some
        { symbol := ib.symbol
          expiry := ib.lastTradeDateOrContractMonth
          strike := strike
          right := rightOf ib.right
          strike_pos := h.2.2
          multiplier_pos := OptionContract.hundred_pos }
    else none
  | _ => none

/-- The letter of a right. -/
def OptionRight.char : OptionRight → String
  | .call => "C"
  | .put => "P"

/-- **`_parse_symbol_to_ib_contract`.** -/
def parseSymbolToIbContract (sym : String) : IbContract :=
  match splitWords sym with
  | underlying :: expiry :: third :: fourth :: _ =>
    match py.parseFloat third with
    | some strike => .option underlying expiry strike (rightOf fourth).char
    | none =>
      match py.parseFloat fourth with
      | some strike => .option underlying expiry strike (rightOf third).char
      | none => .stock sym
  | _ =>
    if String.ofList (sym.toList.map upperChar) ∈ ["SPX", "NDX", "RUT", "XSP"] then .index sym
    else .stock sym

end Client

/-! ## Keys -/

/-- The strike as a key prints it. -/
def Builtins.strikeText (py : Builtins) (strike : Price) : String :=
  if strike.den = 1 then toString strike.num else py.floatRepr (.finite strike)

/-- **A strike that is read back**: the text printed of it is read as the
strike, and has no whitespace. -/
structure Builtins.ReadsBack (py : Builtins) (strike : Price) : Prop where
  parse : py.parseFloat (py.strikeText strike) = some (.finite strike)
  word : strike.den ≠ 1 → IsWord (py.floatRepr (.finite strike))

namespace OptionContract

/-- `to_quote_symbol`, with the built-in printing of floats. -/
def quoteSymbol (py : Builtins) (c : OptionContract) : String :=
  c.toQuoteSymbol fun strike => py.floatRepr (.finite strike)

variable {py : Builtins} {c d : OptionContract}

/-- A key is four words. -/
theorem quoteSymbol_eq (py : Builtins) (c : OptionContract) : c.quoteSymbol py
    = c.symbol ++ " " ++ (c.expiry ++ " " ++ (py.strikeText c.strike ++ " " ++ c.right.char)) := by
  have hkey : c.quoteSymbol py
      = c.symbol ++ " " ++ c.expiry ++ " " ++ py.strikeText c.strike ++ " " ++ c.right.char := rfl
  rw [hkey]
  simp only [String.append_assoc]

/-- The printed strike is a word. -/
theorem isWord_strikeText (h : py.ReadsBack c.strike) : IsWord (py.strikeText c.strike) := by
  unfold Builtins.strikeText
  split_ifs with hden
  · obtain ⟨n, hn⟩ := Int.eq_ofNat_of_zero_le (Rat.num_pos.mpr c.strike_pos).le
    rw [hn]
    exact isWord_toString n
  · exact h.word hden

theorem isWord_char (r : OptionRight) : IsWord r.char := by
  cases r with
  | call => decide
  | put => decide

theorem rightOf_char (r : OptionRight) : rightOf r.char = r := by
  cases r with
  | call => rfl
  | put => rfl

/-- A contract whose key can be split: its symbol is a word, and its expiry
eight digits. -/
structure HasKey (py : Builtins) (c : OptionContract) : Prop where
  symbol : IsWord c.symbol
  expiry : EightDigits py c.expiry

/-- Where no digit is whitespace, eight digits are a word. -/
theorem HasKey.isWord_expiry (hpy : ∀ ch, py.isDecimal ch = true → isSpaceChar ch = false)
    (hc : c.HasKey py) : IsWord c.expiry := by
  refine ⟨fun hnil => ?_, fun ch hch => hpy ch (hc.expiry.2 ch hch)⟩
  have hlength := hc.expiry.1
  rw [hnil] at hlength
  exact absurd hlength (by decide)

/-- A key splits into its four words. -/
theorem splitWords_quoteSymbol (hpy : ∀ ch, py.isDecimal ch = true → isSpaceChar ch = false)
    (hc : c.HasKey py) (hstrike : py.ReadsBack c.strike) : splitWords (c.quoteSymbol py)
      = [c.symbol, c.expiry, py.strikeText c.strike, c.right.char] := by
  rw [quoteSymbol_eq, splitWords_cons hc.symbol, splitWords_cons (hc.isWord_expiry hpy),
    splitWords_cons (isWord_strikeText hstrike), splitWords_eq_singleton (isWord_char _)]

/-- **A key is read as its contract.** -/
theorem parse_quoteSymbol (hpy : ∀ ch, py.isDecimal ch = true → isSpaceChar ch = false)
    (hc : c.HasKey py) (hstrike : py.ReadsBack c.strike) :
    parseSymbolToIbContract py (c.quoteSymbol py)
      = .option c.symbol c.expiry (.finite c.strike) c.right.char := by
  unfold parseSymbolToIbContract
  -- the third word reads as a float, so the first of the two orders is taken
  simp only [splitWords_quoteSymbol hpy hc hstrike, hstrike.parse, rightOf_char]

/-- What is read of a contract of the broker that a contract was printed as. -/
theorem fromIbContract_option (hc : c.HasKey py) :
    (fromIbContract py (.option c.symbol c.expiry (.finite c.strike) c.right.char)).map identity
      = some c.identity := by
  have hvalid : c.symbol ≠ "" ∧ EightDigits py c.expiry ∧ 0 < c.strike :=
    ⟨hc.symbol.1, hc.expiry, c.strike_pos⟩
  simp only [fromIbContract, IbContract.option, dif_pos hvalid, Option.map_some, identity,
    rightOf_char]

/-- Contracts with one key are the same option. -/
theorem identity_eq_of_quoteSymbol
    (hpy : ∀ ch, py.isDecimal ch = true → isSpaceChar ch = false)
    (hc : c.HasKey py) (hd : d.HasKey py) (hcs : py.ReadsBack c.strike)
    (hds : py.ReadsBack d.strike) (h : c.quoteSymbol py = d.quoteSymbol py) :
    c.identity = d.identity := by
  have hread := fromIbContract_option hc
  rw [← parse_quoteSymbol hpy hc hcs, h, parse_quoteSymbol hpy hd hds,
    fromIbContract_option hd] at hread
  exact (Option.some.inj hread).symm

/-- **Quote keys are read back**: the broker reads the key of a contract as
the option with its symbol, expiry, strike and right, gets these back from
it, and two contracts have one key only where they agree on the four. -/
theorem quoteSymbol_readsBack (py : Builtins)
    (hpy : ∀ ch, py.isDecimal ch = true → isSpaceChar ch = false) (c d : OptionContract)
    (hc : c.HasKey py) (hd : d.HasKey py) (hcs : py.ReadsBack c.strike)
    (hds : py.ReadsBack d.strike) :
    parseSymbolToIbContract py (c.quoteSymbol py)
        = .option c.symbol c.expiry (.finite c.strike) c.right.char
      ∧ (fromIbContract py (parseSymbolToIbContract py (c.quoteSymbol py))).map identity
        = some c.identity
      ∧ (c.quoteSymbol py = d.quoteSymbol py → c.identity = d.identity) :=
  ⟨parse_quoteSymbol hpy hc hcs, by
    rw [parse_quoteSymbol hpy hc hcs]
    exact fromIbContract_option hc,
    identity_eq_of_quoteSymbol hpy hc hd hcs hds⟩

/-- The conversions at the strikes 600 and 600.5. -/
def sampleConversions : Builtins :=
  { sampleBuiltins with
    parseFloat := fun s =>
      if s = "600" then some (.finite 600) else if s = "600.5" then some (.finite (1201 / 2))
      else none
    floatRepr := fun x => if x = .finite 600 then "600.0" else "600.5" }

theorem sixHundred_pos : (0 : Price) < 600 := by norm_num

/-- A call and a put of one expiry, one with a fractional strike. -/
theorem quoteSymbol_readsBack_xsp :
    ∃ c d : OptionContract, c.strike = 600 ∧ d.strike = 1201 / 2
      ∧ parseSymbolToIbContract sampleConversions (c.quoteSymbol sampleConversions)
        = .option c.symbol c.expiry (.finite c.strike) c.right.char
      ∧ (c.quoteSymbol sampleConversions = d.quoteSymbol sampleConversions →
        c.identity = d.identity) := by
  let c : OptionContract :=
    { symbol := "XSP", expiry := "20260730", strike := 600, right := .call
      strike_pos := sixHundred_pos, multiplier_pos := OptionContract.hundred_pos }
  let d : OptionContract :=
    { symbol := "XSP", expiry := "20260730", strike := 1201 / 2, right := .put
      strike_pos := by norm_num, multiplier_pos := OptionContract.hundred_pos }
  have hpy : ∀ ch, sampleConversions.isDecimal ch = true → isSpaceChar ch = false :=
    fun _ h => isSpaceChar_of_isDigit h
  have hsymbol : IsWord "XSP" := by decide
  have hexpiry : EightDigits sampleConversions "20260730" := by decide
  have hc : sampleConversions.ReadsBack 600 := ⟨by decide +kernel, fun h => absurd rfl h⟩
  have hd : sampleConversions.ReadsBack (1201 / 2) :=
    ⟨by decide +kernel, fun _ => by decide +kernel⟩
  have h := quoteSymbol_readsBack sampleConversions hpy c d ⟨hsymbol, hexpiry⟩
    ⟨hsymbol, hexpiry⟩ hc hd
  exact ⟨c, d, rfl, rfl, h.1, h.2.2⟩

end OptionContract
