import Robotd.Lib.Delimiter

/-!
# Decimal numbers, words and lines as the C library reads them

A text is a list of `Char`s, each standing for one byte. `number` is the subject sequence shared
by `strtol`, `strtoul` and the `scanf` conversions: white space, an optional sign, decimal
digits. The conversions differ only in how they saturate and truncate its value; `decimal` is
what `%u` prints. The main results are `scanU16_decimal_line` and `atoi_decimal`.
-/

namespace Lib.CLib

/-- The white space of the C locale. -/
def isSpace (c : Char) : Bool := c == ' ' || (9 ≤ c.toNat && c.toNat ≤ 13)

/-- The control characters of the C locale. -/
def isCntrl (c : Char) : Bool := c.toNat < 32 || c.toNat == 127

/-- The decimal digits of `n`, as `%u` prints them. -/
def decimal (n : Nat) : List Char := Nat.toDigits 10 n

/-- Split an optional sign off a text; `true` stands for a minus sign. -/
def sign : List Char → Bool × List Char
  | '-' :: rest => (true, rest)
  | '+' :: rest => (false, rest)
  | text => (false, text)

/-- The number at the start of a text, as a sign and a magnitude of any size: white space, an
optional sign and at least one digit. -/
def number (text : List Char) : Option (Bool × Nat) :=
  let (negative, rest) := sign (text.dropWhile isSpace)
  let digits := rest.takeWhile Char.isDigit
  if digits.isEmpty then none else some (negative, Nat.ofDigitChars 10 digits 0)

/-- The integer that `number` denotes. -/
def denoted : Bool × Nat → Int
  | (negative, n) => if negative then -n else n

/-- `strtoul` with a 64-bit result: it saturates, and negates modulo `2 ^ 64`. -/
def strtoul : Bool × Nat → Nat
  | (negative, n) =>
      if 2 ^ 64 ≤ n then 2 ^ 64 - 1 else if negative then (2 ^ 64 - n) % 2 ^ 64 else n

/-- `strtol` with a 64-bit result: it saturates at both ends. -/
def strtol : Bool × Nat → Int
  | (negative, n) =>
      if negative then (if 2 ^ 63 < n then -2 ^ 63 else -n)
      else if 2 ^ 63 ≤ n then 2 ^ 63 - 1 else n

/-- `atoi`: the value of `strtol` truncated to a 32-bit `int`; 0 when there is no number. -/
def atoi (text : List Char) : Int :=
  match number text with
  | some n => Int.bmod (strtol n) (2 ^ 32)
  | none => 0

/-- The outcome of a `scanf` of one number: how many items were assigned (`-1` at the end of the
file), the value when there is one, and whether the conversion reported `ERANGE`. -/
structure Scan where
  wordsRead : Int
  value : Nat
  outOfRange : Bool
  deriving DecidableEq, Repr

/-- `fscanf(f, "%hu", &value)`: the value of `strtoul` truncated to 16 bits. -/
def scanU16 (text : List Char) : Scan :=
  match number text with
  | some n => ⟨1, strtoul n % 2 ^ 16, decide (2 ^ 64 ≤ n.2)⟩
  | none => ⟨if (text.dropWhile isSpace).isEmpty then -1 else 0, 0, false⟩

/-- The word that `fscanf(f, "%s", buffer)` stores: empty when only white space is left. -/
def scanWord (text : List Char) : List Char :=
  (text.dropWhile isSpace).takeWhile fun c => !isSpace c

/-- `std::getline`: the characters before the first newline. -/
def getLine (text : List Char) : List Char := text.takeWhile (· ≠ '\n')

theorem isSpace_of_mem_scanWord {text : List Char} {c : Char} (h : c ∈ scanWord text) :
    isSpace c = false := by
  simpa using List.mem_takeWhile_imp h

/-- What follows the line does not matter to either reader. -/
theorem scanWord_line {text : List Char} (hne : text ≠ []) (h : ∀ c ∈ text, isSpace c = false)
    (rest : List Char) : scanWord (text ++ '\n' :: rest) = text := by
  obtain ⟨c, tail, rfl⟩ := List.exists_cons_of_ne_nil hne
  have hkeep : (c :: tail ++ '\n' :: rest).dropWhile isSpace = c :: tail ++ '\n' :: rest := by
    simp [h c (by simp)]
  rw [scanWord, hkeep, List.takeWhile_append_of_pos fun c hc => by simp [h c hc]]
  simp [isSpace]

theorem getLine_line {text : List Char} (h : '\n' ∉ text) (rest : List Char) :
    getLine (text ++ '\n' :: rest) = text := takeWhile_ne h rest

/-- A line that is a word is read back by `%s`, and no other line is. -/
theorem scanWord_line_eq_iff {text : List Char} :
    scanWord (text ++ ['\n']) = text ↔ ∀ c ∈ text, isSpace c = false := by
  constructor
  · intro h c hc
    rw [← h] at hc
    exact isSpace_of_mem_scanWord hc
  · intro h
    cases text with
    | nil => decide
    | cons c rest => exact scanWord_line (by simp) h []

theorem getLine_line_eq_iff {text : List Char} :
    getLine (text ++ ['\n']) = text ↔ '\n' ∉ text := by
  constructor
  · intro h
    rw [← h]
    exact not_mem_takeWhile_ne '\n' _
  · exact fun h => getLine_line h []

/-! ## Reading back what `%u` printed -/

theorem decimal_ne_nil (n : Nat) : decimal n ≠ [] := Nat.toDigits_ne_nil

theorem isDigit_of_mem_decimal {n : Nat} {c : Char} (h : c ∈ decimal n) : c.isDigit = true :=
  Nat.isDigit_of_mem_toDigits (by decide) (by decide) h

theorem toNat_of_isDigit {c : Char} (h : c.isDigit = true) : 48 ≤ c.toNat ∧ c.toNat ≤ 57 :=
  Char.isDigit_iff_toNat.mp h

/-- A digit is no control character. -/
theorem isCntrl_of_isDigit {c : Char} (h : c.isDigit = true) : isCntrl c = false := by
  obtain ⟨hlow, hhigh⟩ := toNat_of_isDigit h
  rw [isCntrl, Bool.or_eq_false_iff, decide_eq_false_iff_not, beq_eq_false_iff_ne]
  omega

/-- A digit is neither white space nor a sign. -/
theorem isSpace_of_isDigit {c : Char} (h : c.isDigit = true) :
    isSpace c = false ∧ c ≠ '-' ∧ c ≠ '+' := by
  have hrange := toNat_of_isDigit h
  refine ⟨?_, ?_, ?_⟩
  · have hspace : c ≠ ' ' := by
      rintro rfl
      exact absurd hrange.1 (by decide)
    have hcontrol : ¬ c.toNat ≤ 13 := by omega
    simp [isSpace, hspace, hcontrol]
  · rintro rfl
    exact absurd hrange.1 (by decide)
  · rintro rfl
    exact absurd hrange.1 (by decide)

/-- Digits followed by something that is not a digit read back as exactly those digits. -/
theorem number_digits {digits rest : List Char} (hne : digits ≠ [])
    (hdigits : ∀ c ∈ digits, c.isDigit = true) (hrest : ∀ c ∈ rest.head?, c.isDigit = false) :
    number (digits ++ rest) = some (false, Nat.ofDigitChars 10 digits 0) := by
  have htake : (digits ++ rest).takeWhile Char.isDigit = digits := by
    rw [List.takeWhile_append_of_pos hdigits]
    cases rest with
    | nil => simp
    | cons c rest => simp [hrest c (by simp)]
  obtain ⟨c, tail, rfl⟩ := List.exists_cons_of_ne_nil hne
  obtain ⟨hspace, hminus, hplus⟩ := isSpace_of_isDigit (hdigits c (by simp))
  have hdrop : (c :: tail ++ rest).dropWhile isSpace = c :: tail ++ rest := by
    simp [hspace]
  have hsign : sign (c :: tail ++ rest) = (false, c :: tail ++ rest) := by
    unfold sign
    split
    · simp_all
    · simp_all
    · rfl
  simp only [number, hdrop, hsign, htake, List.isEmpty_cons, Bool.false_eq_true, if_false]

theorem number_decimal {n : Nat} {rest : List Char} (hrest : ∀ c ∈ rest.head?, c.isDigit = false) :
    number (decimal n ++ rest) = some (false, n) := by
  rw [number_digits (decimal_ne_nil n) (fun c => isDigit_of_mem_decimal) hrest]
  simp [decimal]

/-- The 16-bit conversion of a printed line is the printed number modulo `2 ^ 16`. -/
theorem scanU16_decimal_line {n : Nat} (hn : n < 2 ^ 64) :
    scanU16 (decimal n ++ ['\n']) = ⟨1, n % 2 ^ 16, false⟩ := by
  have hnumber : number (decimal n ++ ['\n']) = some (false, n) :=
    number_decimal (by simp)
  have hle : ¬ 2 ^ 64 ≤ n := by omega
  simp only [scanU16, hnumber, strtoul, hle, Bool.false_eq_true, if_false,
    decide_false]

/-- `atoi` inverts `%u` on the non-negative `int`s. -/
theorem atoi_decimal {n : Nat} (hn : n < 2 ^ 31) : atoi (decimal n) = n := by
  have hnumber : number (decimal n) = some (false, n) := by
    rw [← List.append_nil (decimal n)]
    exact number_decimal (by simp)
  have hle : ¬ 2 ^ 63 ≤ n := by omega
  have hbmod : Int.bmod (n : Int) (2 ^ 32) = n := by
    apply Int.bmod_eq_of_le <;> omega
  simp only [atoi, hnumber, strtol, if_neg hle, Bool.false_eq_true, if_false, hbmod]

end Lib.CLib
