import Robotd.Log.Format

/-!
# What a format says

A format without colons is a sequence of characters and fields. `format_eq_iff` says that the
formatter accepts exactly these sequences in which all fields have their arguments, numbered by the
fields or by none of them, and puts the arguments in their places. `Numeral.read_iff` is about the
numbers in a format, whose overflow is not always noticed.
-/

namespace Robotd.Fmt

open Lib Lib.CLib

/-! ## Numbers -/

section Numbers

variable {digits rest : List Char}

/-- A number of 32 bits is read as it is. -/
theorem addDigits_exact {value : Nat} (hdigits : ∀ c ∈ digits, c.isDigit = true)
    (hrest : (current rest).isDigit = false) (h : Nat.ofDigitChars 10 digits value < 2 ^ 32) :
    addDigits value (digits ++ rest) = (Nat.ofDigitChars 10 digits value, rest) := by
  induction digits generalizing value with
  | nil =>
      cases rest with
      | nil => rfl
      | cons c rest =>
          have hc : ¬ c.isDigit = true := Bool.eq_false_iff.mp hrest
          rw [List.nil_append, addDigits, if_neg hc]
          rfl
  | cons c digits ih =>
      rw [Nat.ofDigitChars_cons] at h ⊢
      have hgrows : 10 * value + (c.toNat - '0'.toNat) ≤
          Nat.ofDigitChars 10 digits (10 * value + (c.toNat - '0'.toNat)) := by
        rw [Nat.ofDigitChars_eq_ofDigitChars_zero]
        have hpos : 1 ≤ 10 ^ digits.length := Nat.one_le_pow _ _ (by decide)
        nlinarith
      have hzero : '0'.toNat = 48 := rfl
      rw [hzero] at hgrows h ⊢
      have hnew : (value * 10 + (c.toNat - 48)) % 2 ^ 32 = 10 * value + (c.toNat - 48) := by
        rw [Nat.mod_eq_of_lt (by omega)]
        omega
      rw [List.cons_append, addDigits, if_pos (hdigits c List.mem_cons_self)]
      dsimp only
      rw [hnew, if_neg (by omega)]
      exact ih (fun d hd => hdigits d (List.mem_cons_of_mem c hd)) h

/-- Once there are more digits than fit, the value stays large, whatever they come to. -/
theorem addDigits_large {value : Nat} (s : List Char) (h : 429496729 ≤ value) :
    429496729 ≤ (addDigits value s).1 := by
  fun_induction addDigits with
  | case1 => exact h
  | case2 =>
      show 429496729 ≤ 2 ^ 32 - 1
      decide
  | case3 value c s _ newValue hnot ih =>
      exact ih (h.trans (Nat.not_lt.mp hnot))
  | case4 => exact h

theorem addDigits_overflow {value : Nat} (hdigits : ∀ c ∈ digits, c.isDigit = true)
    (hvalue : value < 2 ^ 32) (h : 2 ^ 32 ≤ Nat.ofDigitChars 10 digits value) :
    429496729 ≤ (addDigits value (digits ++ rest)).1 := by
  induction digits generalizing value with
  | nil => exact absurd h (Nat.not_le.mpr hvalue)
  | cons c digits ih =>
      obtain ⟨hlow, hhigh⟩ := toNat_of_isDigit (hdigits c List.mem_cons_self)
      by_cases hfits : value * 10 + (c.toNat - 48) < 2 ^ 32
      · rw [List.cons_append, addDigits, if_pos (hdigits c List.mem_cons_self)]
        dsimp only
        rw [Nat.mod_eq_of_lt hfits, if_neg (by omega)]
        refine ih (fun d hd => hdigits d (List.mem_cons_of_mem c hd)) hfits ?_
        rwa [Nat.ofDigitChars_cons, Nat.mul_comm 10] at h
      · exact addDigits_large _ (by omega)

/-- A number below `2 ^ 31` is read as it is. Any other is rejected, or read as another one that is
too large for the number of an argument. -/
theorem parseNonnegativeInt_digits (hdigits : ∀ c ∈ digits, c.isDigit = true)
    (hrest : (current rest).isDigit = false) :
    (Nat.ofDigitChars 10 digits 0 < 2 ^ 31 →
      parseNonnegativeInt (digits ++ rest) = .ok (Nat.ofDigitChars 10 digits 0, rest)) ∧
    (2 ^ 31 ≤ Nat.ofDigitChars 10 digits 0 → ∀ read, parseNonnegativeInt (digits ++ rest) = .ok read →
      429496729 ≤ read.1 ∧ read.1 ≠ Nat.ofDigitChars 10 digits 0) := by
  refine ⟨fun hsmall => ?_, fun hlarge read hread => ?_⟩
  · have hexact : addDigits 0 (digits ++ rest) = (Nat.ofDigitChars 10 digits 0, rest) :=
      addDigits_exact hdigits hrest (by omega)
    rw [parseNonnegativeInt, hexact, if_neg (by omega)]
  · rw [parseNonnegativeInt] at hread
    split_ifs at hread with htoo
    obtain rfl := Except.ok.inj hread
    by_cases hfits : Nat.ofDigitChars 10 digits 0 < 2 ^ 32
    · rw [addDigits_exact hdigits hrest hfits] at htoo
      exact absurd hlarge (by omega)
    · exact ⟨addDigits_overflow hdigits (by decide) (Nat.not_lt.mp hfits), by omega⟩

end Numbers

/-! ## The loop -/

/-- What is written for a format, if nothing is thrown. -/
inductive Writes : Formatter → List Char → List Char → Prop where
  | done (f : Formatter) : Writes f [] []
  | char {f : Formatter} {c : Char} {s text : List Char} (hc : c ≠ '{' ∧ c ≠ '}') (h : Writes f s text) :
      Writes f (c :: s) (c :: text)
  | brace {f : Formatter} {c : Char} {s text : List Char} (hc : c = '{' ∨ c = '}') (h : Writes f s text) :
      Writes f (c :: c :: s) (c :: text)
  | field {f f' : Formatter} {s rest value text : List Char} (hs : s.head? ≠ some '{')
      (hfield : formatField f s = .ok (value, f', rest)) (h : Writes f' rest text) :
      Writes f ('{' :: s) (value ++ text)

section Loop

variable {f : Formatter} {start out s text : List Char}

theorem writes_nil : Writes f [] text ↔ text = [] := by
  constructor
  · intro h
    cases h
    rfl
  · rintro rfl
    exact .done f

theorem writes_char {c : Char} (hc : c ≠ '{' ∧ c ≠ '}') :
    Writes f (c :: s) text ↔ ∃ rest, text = c :: rest ∧ Writes f s rest := by
  constructor
  · intro h
    cases h with
    | char _ h => exact ⟨_, rfl, h⟩
    | brace hbrace _ =>
        rcases hbrace with rfl | rfl
        · exact absurd rfl hc.1
        · exact absurd rfl hc.2
    | field => exact absurd rfl hc.1
  · rintro ⟨rest, rfl, h⟩
    exact .char hc h

theorem writes_brace {c : Char} (hc : c = '{' ∨ c = '}') :
    Writes f (c :: c :: s) text ↔ ∃ rest, text = c :: rest ∧ Writes f s rest := by
  constructor
  · intro h
    cases h with
    | char hne _ =>
        rcases hc with rfl | rfl
        · exact absurd rfl hne.1
        · exact absurd rfl hne.2
    | brace _ h => exact ⟨_, rfl, h⟩
    | field hs => exact absurd rfl hs
  · rintro ⟨rest, rfl, h⟩
    exact .brace hc h

theorem not_writes_close (hs : s.head? ≠ some '}') : ¬ Writes f ('}' :: s) text := by
  intro h
  cases h with
  | char hne _ => exact hne.2 rfl
  | brace _ _ => exact hs rfl

theorem writes_field (hs : s.head? ≠ some '{') : Writes f ('{' :: s) text ↔
    ∃ value f' rest written, formatField f s = .ok (value, f', rest) ∧ text = value ++ written ∧
      Writes f' rest written := by
  constructor
  · intro h
    cases h with
    | char hne _ => exact absurd rfl hne.1
    | brace _ _ => exact absurd rfl hs
    | field _ hfield h => exact ⟨_, _, _, _, hfield, rfl, h⟩
  · rintro ⟨value, f', rest, written, hfield, rfl, h⟩
    exact .field hs hfield h

/-- The loop writes what it has, and then what the rest of the format says. -/
theorem formatLoop_iff : formatLoop f start out s = (text, none) ↔
    ∃ written, text = out ++ start ++ written ∧ Writes f s written := by
  fun_induction formatLoop f start out s with
  | case1 f start out =>
      simp only [writes_nil, exists_eq_right, List.append_nil, Prod.mk.injEq, and_true]
      exact eq_comm
  | case2 f start out c s hc ih =>
      rw [ih]
      constructor
      · rintro ⟨written, rfl, h⟩
        exact ⟨c :: written, by simp, (writes_char hc).mpr ⟨written, rfl, h⟩⟩
      · rintro ⟨written, rfl, h⟩
        obtain ⟨rest, rfl, hrest⟩ := (writes_char hc).mp h
        exact ⟨rest, by simp, hrest⟩
  | case3 f start out c s hc hhead ih =>
      have hbrace : c = '{' ∨ c = '}' := by
        rw [not_and_or, not_not, not_not] at hc
        exact hc
      obtain ⟨rest, rfl⟩ : ∃ rest, s = c :: rest := ⟨s.tail, (List.cons_head?_tail hhead).symm⟩
      rw [ih]
      constructor
      · rintro ⟨written, rfl, h⟩
        exact ⟨c :: written, by simp, (writes_brace hbrace).mpr ⟨written, rfl, h⟩⟩
      · rintro ⟨written, rfl, h⟩
        obtain ⟨rest', rfl, hrest⟩ := (writes_brace hbrace).mp h
        exact ⟨rest', by simp, hrest⟩
  | case4 f start out s hc hhead =>
      refine iff_of_false (by simp) ?_
      rintro ⟨written, rfl, h⟩
      exact not_writes_close hhead h
  | case5 f start out c s hc hhead hclose message hfield =>
      obtain rfl : c = '{' := by
        rw [not_and_or, not_not, not_not] at hc
        exact hc.resolve_right hclose
      refine iff_of_false (by simp) ?_
      rintro ⟨written, rfl, h⟩
      obtain ⟨value, f', rest, written, hok, -⟩ := (writes_field hhead).mp h
      rw [hfield] at hok
      cases hok
  | case6 f start out c s hc hhead hclose value f' rest hfield ih =>
      obtain rfl : c = '{' := by
        rw [not_and_or, not_not, not_not] at hc
        exact hc.resolve_right hclose
      rw [ih]
      constructor
      · rintro ⟨written, rfl, h⟩
        exact ⟨value ++ written, by simp, (writes_field hhead).mpr ⟨_, _, _, _, hfield, rfl, h⟩⟩
      · rintro ⟨text, rfl, h⟩
        obtain ⟨value', f'', rest', written, hok, rfl, hwritten⟩ := (writes_field hhead).mp h
        rw [hfield] at hok
        obtain ⟨rfl, rfl, rfl⟩ : value = value' ∧ f' = f'' ∧ rest = rest' := by
          simpa using Except.ok.inj hok
        exact ⟨written, by simp, hwritten⟩

theorem format_iff {args : List Arg} :
    format args s = (text, none) ↔ Writes ⟨args, 0⟩ s text := by
  rw [format, formatLoop_iff]
  simp

end Loop

/-! ## Fields without a specification -/

/-- An argument, as it is shown where nothing is specified. -/
def plain : Arg → List Char
  | .int value => (if value < 0 then ['-'] else []) ++ decimal value.natAbs
  | .uint value => decimal value
  | .string text => text

theorem writeArg_default (arg : Arg) : writeArg .default arg = .ok (plain arg) := by
  cases arg with
  | int value => simp [writeArg, writeInt, alignInt, FormatSpec.default, plain]
  | uint value => simp [writeArg, writeInt, alignInt, FormatSpec.default, plain]
  | string text => simp [writeArg, writeStr, alignStr, FormatSpec.default, plain]

section Default

variable {f f' : Formatter} {arg : Arg} {s rest value : List Char}

theorem current_eq {c : Char} (hc : c ≠ Char.ofNat 0) : current s = c ↔ ∃ rest, s = c :: rest := by
  cases s with
  | nil => simpa [current] using hc.symm
  | cons d s => simp [current]

theorem formatArg_iff (hs : current s ≠ ':') : formatArg f arg s = .ok (value, f', rest) ↔
    s = '}' :: rest ∧ f' = f ∧ value = plain arg := by
  have hcolon : parseColon f arg s = .ok (.default, f, s) := if_neg hs
  rw [formatArg, hcolon, bind_eq_ok]
  constructor
  · rintro ⟨read, hread, hok⟩
    obtain rfl := Except.ok.inj hread
    dsimp only at hok
    split_ifs at hok with hbrace
    · cases hok
    · obtain ⟨tail, rfl⟩ := (current_eq (by decide)).mp (not_not.mp hbrace)
      rw [writeArg_default] at hok
      obtain ⟨rfl, rfl, rfl⟩ : plain arg = value ∧ f = f' ∧ tail = rest := by
        simpa using Except.ok.inj hok
      exact ⟨rfl, rfl, rfl⟩
  · rintro ⟨rfl, rfl, rfl⟩
    refine ⟨_, rfl, ?_⟩
    dsimp only
    rw [if_neg (by simp [current]), writeArg_default]
    rfl

theorem doGetArg_eq_ok {index : Nat} : f.doGetArg index = .ok arg ↔ f.args[index]? = some arg := by
  rw [Formatter.doGetArg]
  cases f.args[index]? with
  | none => exact iff_of_false (fun h => by cases h) (by simp)
  | some value => simp

theorem getArg_eq_ok {index : Nat} : f.getArg index = .ok (arg, f') ↔
    f.nextArgIndex ≤ 0 ∧ f.args[index]? = some arg ∧ f' = { f with nextArgIndex := -1 } := by
  rw [Formatter.getArg, Formatter.checkNoAutoIndex]
  split_ifs with hauto
  · exact iff_of_false (fun h => by cases h) fun h => absurd h.1 (Int.not_le.mpr hauto)
  · rw [bind_eq_ok]
    constructor
    · rintro ⟨g, hg, hok⟩
      obtain rfl := Except.ok.inj hg
      obtain ⟨value, hvalue, hpair⟩ := bind_eq_ok.mp hok
      obtain ⟨rfl, rfl⟩ : value = arg ∧ _ = f' := by simpa using Except.ok.inj hpair
      exact ⟨Int.not_lt.mp hauto, doGetArg_eq_ok.mp hvalue, rfl⟩
    · rintro ⟨-, harg, rfl⟩
      exact ⟨_, rfl, bind_eq_ok.mpr ⟨arg, doGetArg_eq_ok.mpr harg, rfl⟩⟩

theorem nextArg_eq_ok : f.nextArg = .ok (arg, f') ↔ 0 ≤ f.nextArgIndex ∧
    f.args[f.nextArgIndex.toNat]? = some arg ∧ f' = { f with nextArgIndex := f.nextArgIndex + 1 } := by
  rw [Formatter.nextArg]
  split_ifs with hauto
  · rw [bind_eq_ok]
    constructor
    · rintro ⟨value, hvalue, hpair⟩
      obtain ⟨rfl, rfl⟩ : value = arg ∧ _ = f' := by simpa using Except.ok.inj hpair
      exact ⟨hauto, doGetArg_eq_ok.mp hvalue, rfl⟩
    · rintro ⟨-, harg, rfl⟩
      exact ⟨arg, doGetArg_eq_ok.mpr harg, rfl⟩
  · exact iff_of_false (fun h => by cases h) fun h => absurd h.1 hauto

theorem atField_eq_ok {α : Type} {x : Result α} {a : α} : atField s x = .ok a ↔ x = .ok a := by
  cases x with
  | ok value => rfl
  | error message => exact iff_of_false (fun h => by cases h) (fun h => by cases h)

theorem isNameStart_of_isDigit {c : Char} (h : c.isDigit = true) : isNameStart c = false := by
  obtain ⟨hlow, hhigh⟩ := toNat_of_isDigit h
  have hunder : c ≠ '_' := by
    rintro rfl
    exact absurd hhigh (by decide)
  have halpha : c.isAlpha = false := by
    change c.val.toNat ≤ 57 at hhigh
    have hupper : 'A'.val.toNat = 65 := rfl
    have hlower : 'a'.val.toNat = 97 := rfl
    simp only [Char.isAlpha, Char.isUpper, Char.isLower, ge_iff_le, UInt32.le_iff_toNat_le,
      Bool.or_eq_false_iff, Bool.and_eq_false_iff, decide_eq_false_iff_not]
    constructor <;> omega
  rw [isNameStart, halpha, Bool.false_or]
  exact beq_false_of_ne hunder

/-- The argument of a field that has a number. -/
theorem parseArg_index {digits : List Char} (hne : digits ≠ []) (hdigits : ∀ c ∈ digits, c.isDigit = true)
    (hrest : (current rest).isDigit = false) (hargs : f.args.length ≤ 429496729) :
    parseArg f (digits ++ rest) = .ok (arg, f', s) ↔
      s = rest ∧ f.getArg (Nat.ofDigitChars 10 digits 0) = .ok (arg, f') := by
  have hcurrent : (current (digits ++ rest)).isDigit = true := by
    cases digits with
    | nil => exact absurd rfl hne
    | cons c digits => exact hdigits c List.mem_cons_self
  rw [parseArg, if_neg (by rw [isNameStart_of_isDigit hcurrent]; exact Bool.false_ne_true),
    parseArgIndex, if_pos hcurrent, bind_eq_ok]
  obtain ⟨hsmall, hlarge⟩ := parseNonnegativeInt_digits hdigits hrest
  constructor
  · rintro ⟨read, hread, hok⟩
    obtain ⟨found, hfound, hpair⟩ := bind_eq_ok.mp hok
    rw [atField_eq_ok] at hfound
    obtain ⟨rfl, rfl, rfl⟩ : found.1 = arg ∧ found.2 = f' ∧ read.2 = s := by
      simpa using Except.ok.inj hpair
    by_cases hfits : Nat.ofDigitChars 10 digits 0 < 2 ^ 31
    · rw [hsmall hfits] at hread
      obtain rfl := Except.ok.inj hread
      exact ⟨rfl, hfound⟩
    · -- no argument has the number that has been read
      obtain ⟨hbig, -⟩ := hlarge (Nat.not_lt.mp hfits) read hread
      obtain ⟨-, hnone, -⟩ := getArg_eq_ok.mp hfound
      rw [List.getElem?_eq_none (hargs.trans hbig)] at hnone
      cases hnone
  · rintro ⟨rfl, hget⟩
    have hfits : Nat.ofDigitChars 10 digits 0 < 2 ^ 31 := by
      obtain ⟨-, hsome, -⟩ := getArg_eq_ok.mp hget
      obtain ⟨hlength, -⟩ := List.getElem?_eq_some_iff.mp hsome
      omega
    exact ⟨_, hsmall hfits, bind_eq_ok.mpr ⟨_, atField_eq_ok.mpr hget, rfl⟩⟩

/-- The argument of any other field. -/
theorem parseArg_next (hs : (current s).isDigit = false) :
    parseArg f s = .ok (arg, f', rest) ↔
      rest = s ∧ isNameStart (current s) = false ∧ f.nextArg = .ok (arg, f') := by
  rw [parseArg]
  split_ifs with hname
  · refine iff_of_false (fun h => ?_) fun h => by simp [hname] at h
    obtain ⟨_, _, hthrow⟩ := bind_eq_ok.mp h
    cases hthrow
  · rw [parseArgIndex, if_neg (by rw [hs]; exact Bool.false_ne_true), bind_eq_ok]
    constructor
    · rintro ⟨found, hfound, hpair⟩
      obtain ⟨rfl, rfl, rfl⟩ : found.1 = arg ∧ found.2 = f' ∧ s = rest := by
        simpa using Except.ok.inj hpair
      exact ⟨rfl, Bool.eq_false_iff.mpr hname, atField_eq_ok.mp hfound⟩
    · rintro ⟨rfl, -, hnext⟩
      exact ⟨_, atField_eq_ok.mpr hnext, rfl⟩

end Default

/-! ## Pieces -/

/-- The number of an argument, as it is written in a field. -/
structure Numeral where
  digits : List Char
  ne_nil : digits ≠ []
  isDigit : ∀ c ∈ digits, c.isDigit = true

namespace Numeral

def value (number : Numeral) : Nat := Nat.ofDigitChars 10 number.digits 0

theorem head?_ne (number : Numeral) {rest : List Char} : (number.digits ++ rest).head? ≠ some '{' := by
  obtain ⟨digits, hne, hdigits⟩ := number
  cases digits with
  | nil => exact absurd rfl hne
  | cons c digits =>
      rintro h
      obtain rfl : c = '{' := by simpa using h
      exact absurd (hdigits '{' List.mem_cons_self) (by decide)

/-- The digits that `s` begins with. -/
theorem exists_append {s : List Char} (h : (current s).isDigit = true) :
    ∃ (number : Numeral) (rest : List Char), s = number.digits ++ rest ∧
      (current rest).isDigit = false := by
  cases s with
  | nil => exact absurd h (by decide)
  | cons c s =>
      have hc : c.isDigit = true := h
      refine ⟨⟨c :: s.takeWhile Char.isDigit, List.cons_ne_nil _ _, ?_⟩, s.dropWhile Char.isDigit, ?_, ?_⟩
      · intro d hd
        rcases List.mem_cons.mp hd with rfl | hd
        · exact hc
        · exact List.mem_takeWhile_imp hd
      · rw [List.cons_append, List.takeWhile_append_dropWhile]
      · have hhead := List.head?_dropWhile_not Char.isDigit s
        cases hrest : s.dropWhile Char.isDigit with
        | nil => decide
        | cons d rest =>
            rw [hrest] at hhead
            show d.isDigit = false
            simpa using hhead

/-- A number is read as it is if and only if it is below `2 ^ 31`. A larger one that is not rejected
is read as another one, which is large too. -/
theorem read_iff (number : Numeral) {rest : List Char} (hrest : (current rest).isDigit = false) :
    (parseNonnegativeInt (number.digits ++ rest) = .ok (number.value, rest) ↔ number.value < 2 ^ 31) ∧
      ∀ read, parseNonnegativeInt (number.digits ++ rest) = .ok read →
        read = (number.value, rest) ∨ 429496729 ≤ read.1 := by
  obtain ⟨hsmall, hlarge⟩ := parseNonnegativeInt_digits number.isDigit hrest
  refine ⟨⟨fun hread => ?_, hsmall⟩, fun read hread => ?_⟩
  · by_contra hbig
    exact (hlarge (Nat.not_lt.mp hbig) _ hread).2 rfl
  · by_cases hfits : number.value < 2 ^ 31
    · rw [hsmall hfits] at hread
      exact .inl (Except.ok.inj hread).symm
    · exact .inr (hlarge (Nat.not_lt.mp hfits) read hread).1

theorem seven_read : parseNonnegativeInt (['7'] ++ ['}']) = .ok (7, ['}']) := by
  have hrest : (current ['}']).isDigit = false := by decide
  exact (read_iff ⟨['7'], by decide, by simp⟩ hrest).1.mpr (by decide)

/-- The new value has wrapped around and is not below the one before. -/
example : parseNonnegativeInt "5000000000\x7d".toList = .ok (705032704, ['}']) := by decide +kernel

end Numeral

/-- What a format without specifications is made of. -/
inductive Piece where
  | char (c : Char)
  | next
  | index (number : Numeral)

/-- A brace that stands for itself is doubled. -/
def Piece.text : Piece → List Char
  | .char c => if c = '{' ∨ c = '}' then [c, c] else [c]
  | .next => ['{', '}']
  | .index number => '{' :: number.digits ++ ['}']

def unparse (pieces : List Piece) : List Char := pieces.flatMap Piece.text

/-- The text, if the fields take the arguments one after the other. -/
def fillNext : List Piece → List Arg → Option (List Char)
  | [], _ => some []
  | .char c :: pieces, args => (fillNext pieces args).map (c :: ·)
  | .next :: pieces, arg :: args => (fillNext pieces args).map (plain arg ++ ·)
  | .next :: _, [] => none
  | .index _ :: _, _ => none

/-- The text, if the fields take the arguments by their numbers. -/
def fillIndex (args : List Arg) : List Piece → Option (List Char)
  | [] => some []
  | .char c :: pieces => (fillIndex args pieces).map (c :: ·)
  | .next :: _ => none
  | .index number :: pieces =>
      args[number.value]?.bind fun arg => (fillIndex args pieces).map (plain arg ++ ·)

/-- The fields go on as they have begun. -/
def Fills (f : Formatter) (pieces : List Piece) (text : List Char) : Prop :=
  (0 ≤ f.nextArgIndex ∧ fillNext pieces (f.args.drop f.nextArgIndex.toNat) = some text) ∨
    (f.nextArgIndex ≤ 0 ∧ fillIndex f.args pieces = some text)

section Pieces

variable {f f' : Formatter} {pieces : List Piece} {number : Numeral} {s rest value text : List Char}

theorem fills_nil : Fills f [] text ↔ text = [] := by
  simp only [Fills, fillNext, fillIndex, Option.some.injEq]
  have htotal : 0 ≤ f.nextArgIndex ∨ f.nextArgIndex ≤ 0 := le_total _ _
  constructor
  · rintro (⟨-, h⟩ | ⟨-, h⟩) <;> exact h.symm
  · rintro rfl
    exact htotal.imp (fun h => ⟨h, rfl⟩) fun h => ⟨h, rfl⟩

theorem fills_char {c : Char} :
    Fills f (.char c :: pieces) text ↔ ∃ rest, text = c :: rest ∧ Fills f pieces rest := by
  simp only [Fills, fillNext, fillIndex, Option.map_eq_some_iff]
  constructor
  · rintro (⟨h, rest, hfill, rfl⟩ | ⟨h, rest, hfill, rfl⟩)
    · exact ⟨rest, rfl, Or.inl ⟨h, hfill⟩⟩
    · exact ⟨rest, rfl, Or.inr ⟨h, hfill⟩⟩
  · rintro ⟨rest, rfl, ⟨h, hfill⟩ | ⟨h, hfill⟩⟩
    · exact Or.inl ⟨h, rest, hfill, rfl⟩
    · exact Or.inr ⟨h, rest, hfill, rfl⟩

theorem fills_next : Fills f (.next :: pieces) text ↔
    ∃ arg f' rest, f.nextArg = .ok (arg, f') ∧ text = plain arg ++ rest ∧ Fills f' pieces rest := by
  have hstep (h : 0 ≤ f.nextArgIndex) : (f.nextArgIndex + 1).toNat = f.nextArgIndex.toNat + 1 := by omega
  simp only [Fills, fillIndex, reduceCtorEq, and_false, or_false, nextArg_eq_ok]
  rw [List.drop_eq_getElem?_toList_append]
  constructor
  · rintro ⟨h, hfill⟩
    cases harg : f.args[f.nextArgIndex.toNat]? with
    | none =>
        rw [harg, List.drop_eq_nil_of_le (by grind)] at hfill
        cases hfill
    | some arg =>
        rw [harg] at hfill
        obtain ⟨rest, hrest, rfl⟩ := Option.map_eq_some_iff.mp hfill
        rw [← hstep h] at hrest
        exact ⟨arg, _, rest, ⟨h, rfl, rfl⟩, rfl, Or.inl ⟨Int.add_nonneg h (by decide), hrest⟩⟩
  · rintro ⟨arg, f', rest, ⟨h, harg, rfl⟩, rfl, ⟨-, hfill⟩ | ⟨hneg, -⟩⟩
    · rw [hstep h] at hfill
      rw [harg]
      exact ⟨h, Option.map_eq_some_iff.mpr ⟨rest, hfill, rfl⟩⟩
    · exact absurd hneg (by dsimp only; omega)

theorem fills_index : Fills f (.index number :: pieces) text ↔
    ∃ arg f' rest, f.getArg number.value = .ok (arg, f') ∧ text = plain arg ++ rest ∧
      Fills f' pieces rest := by
  simp only [Fills, fillNext, fillIndex, reduceCtorEq, and_false, false_or, getArg_eq_ok,
    Option.bind_eq_some_iff, Option.map_eq_some_iff]
  constructor
  · rintro ⟨h, arg, harg, rest, hfill, rfl⟩
    exact ⟨arg, _, rest, ⟨h, harg, rfl⟩, rfl, Or.inr ⟨by dsimp only; omega, hfill⟩⟩
  · rintro ⟨arg, f', rest, ⟨h, harg, rfl⟩, rfl, ⟨hpos, -⟩ | ⟨-, hfill⟩⟩
    · exact absurd hpos (by dsimp only; omega)
    · exact ⟨h, arg, harg, rest, hfill, rfl⟩

theorem formatField_next : formatField f ('}' :: rest) = .ok (value, f', s) ↔
    s = rest ∧ ∃ arg, f.nextArg = .ok (arg, f') ∧ value = plain arg := by
  have hcolon : current ('}' :: rest) ≠ ':' := by simp [current]
  rw [formatField, bind_eq_ok]
  constructor
  · rintro ⟨⟨arg, f₁, s₁⟩, harg, hformat⟩
    obtain ⟨rfl, -, hnext⟩ := (parseArg_next (by simp [current])).mp harg
    obtain ⟨hs, rfl, rfl⟩ := (formatArg_iff hcolon).mp hformat
    exact ⟨(List.tail_eq_of_cons_eq hs).symm, arg, hnext, rfl⟩
  · rintro ⟨rfl, arg, hnext, rfl⟩
    have hname : isNameStart (current ('}' :: s)) = false := by
      show isNameStart '}' = false
      decide
    exact ⟨_, (parseArg_next (by simp [current])).mpr ⟨rfl, hname, hnext⟩,
      (formatArg_iff hcolon).mpr ⟨rfl, rfl, rfl⟩⟩

theorem formatField_index (hargs : f.args.length ≤ 429496729) :
    formatField f (number.digits ++ '}' :: rest) = .ok (value, f', s) ↔
      s = rest ∧ ∃ arg, f.getArg number.value = .ok (arg, f') ∧ value = plain arg := by
  have hcolon : current ('}' :: rest) ≠ ':' := by simp [current]
  have hparse (arg : Arg) (f' : Formatter) (s : List Char) :
      parseArg f (number.digits ++ '}' :: rest) = .ok (arg, f', s) ↔
        s = '}' :: rest ∧ f.getArg number.value = .ok (arg, f') :=
    parseArg_index number.ne_nil number.isDigit (by simp [current]) hargs
  rw [formatField, bind_eq_ok]
  constructor
  · rintro ⟨⟨arg, f₁, s₁⟩, harg, hformat⟩
    obtain ⟨rfl, hget⟩ := (hparse arg f₁ s₁).mp harg
    obtain ⟨hs, rfl, rfl⟩ := (formatArg_iff hcolon).mp hformat
    exact ⟨(List.tail_eq_of_cons_eq hs).symm, arg, hget, rfl⟩
  · rintro ⟨rfl, arg, hget, rfl⟩
    exact ⟨_, (hparse _ _ _).mpr ⟨rfl, hget⟩, (formatArg_iff hcolon).mpr ⟨rfl, rfl, rfl⟩⟩

theorem current_ne {c : Char} (hc : c ≠ Char.ofNat 0) (hs : c ∉ s) : current s ≠ c := by
  intro h
  obtain ⟨rest, rfl⟩ := (current_eq hc).mp h
  exact hs List.mem_cons_self

/-- Only these two kinds of fields have no colon. -/
theorem formatField_cases (hargs : f.args.length ≤ 429496729) (hs : ':' ∉ s)
    (h : formatField f s = .ok (value, f', rest)) : f'.args = f.args ∧
    (s = '}' :: rest ∨ ∃ number : Numeral, s = number.digits ++ '}' :: rest) := by
  obtain ⟨⟨arg, f₁, s₁⟩, harg, hformat⟩ := bind_eq_ok.mp h
  by_cases hdigit : (current s).isDigit = true
  · obtain ⟨number, tail, rfl, htail⟩ := Numeral.exists_append hdigit
    obtain ⟨rfl, hget⟩ := (parseArg_index number.ne_nil number.isDigit htail hargs).mp harg
    have hcolon : ':' ∉ s₁ := fun hmem => hs (List.mem_append_right _ hmem)
    obtain ⟨rfl, rfl, -⟩ := (formatArg_iff (current_ne (by decide) hcolon)).mp hformat
    obtain ⟨-, -, rfl⟩ := getArg_eq_ok.mp hget
    exact ⟨rfl, Or.inr ⟨number, rfl⟩⟩
  · obtain ⟨rfl, -, hnext⟩ := (parseArg_next (Bool.eq_false_iff.mpr hdigit)).mp harg
    obtain ⟨rfl, rfl, -⟩ := (formatArg_iff (current_ne (by decide) hs)).mp hformat
    obtain ⟨-, -, rfl⟩ := nextArg_eq_ok.mp hnext
    exact ⟨rfl, Or.inl rfl⟩

theorem unparse_cons (piece : Piece) (pieces : List Piece) :
    unparse (piece :: pieces) = piece.text ++ unparse pieces := List.flatMap_cons

theorem writes_unparse_iff (hargs : f.args.length ≤ 429496729) :
    Writes f (unparse pieces) text ↔ Fills f pieces text := by
  induction pieces generalizing f text with
  | nil => rw [fills_nil, unparse, List.flatMap_nil, writes_nil]
  | cons piece pieces ih =>
      rw [unparse_cons]
      cases piece with
      | char c =>
          rw [fills_char, Piece.text]
          split_ifs with hc
          · simp only [List.cons_append, List.nil_append, writes_brace hc, ih hargs]
          · simp only [List.cons_append, List.nil_append, writes_char (not_or.mp hc), ih hargs]
      | next =>
          have htext : Piece.text .next ++ unparse pieces = '{' :: '}' :: unparse pieces := rfl
          rw [fills_next, htext, writes_field (by simp)]
          constructor
          · rintro ⟨value, f', rest, written, hfield, rfl, hwrites⟩
            obtain ⟨rfl, arg, hnext, rfl⟩ := formatField_next.mp hfield
            obtain ⟨-, -, rfl⟩ := nextArg_eq_ok.mp hnext
            exact ⟨arg, _, written, hnext, rfl,
              (ih (f := { f with nextArgIndex := f.nextArgIndex + 1 }) hargs).mp hwrites⟩
          · rintro ⟨arg, f', rest, hnext, rfl, hfills⟩
            obtain ⟨-, -, rfl⟩ := nextArg_eq_ok.mp hnext
            exact ⟨_, _, _, rest, formatField_next.mpr ⟨rfl, arg, hnext, rfl⟩, rfl,
              (ih (f := { f with nextArgIndex := f.nextArgIndex + 1 }) hargs).mpr hfills⟩
      | index number =>
          have htext : Piece.text (.index number) ++ unparse pieces =
              '{' :: (number.digits ++ '}' :: unparse pieces) := by
            simp [Piece.text]
          rw [fills_index, htext, writes_field number.head?_ne]
          constructor
          · rintro ⟨value, f', rest, written, hfield, rfl, hwrites⟩
            obtain ⟨rfl, arg, hget, rfl⟩ := (formatField_index hargs).mp hfield
            obtain ⟨-, -, rfl⟩ := getArg_eq_ok.mp hget
            exact ⟨arg, _, written, hget, rfl, (ih (f := { f with nextArgIndex := -1 }) hargs).mp hwrites⟩
          · rintro ⟨arg, f', rest, hget, rfl, hfills⟩
            obtain ⟨-, -, rfl⟩ := getArg_eq_ok.mp hget
            exact ⟨_, _, _, rest, (formatField_index hargs).mpr ⟨rfl, arg, hget, rfl⟩, rfl,
              (ih (f := { f with nextArgIndex := -1 }) hargs).mpr hfills⟩

theorem Writes.exists_pieces (hargs : f.args.length ≤ 429496729) (hs : ':' ∉ s) (h : Writes f s text) :
    ∃ pieces, s = unparse pieces := by
  induction h with
  | done => exact ⟨[], rfl⟩
  | @char f c s text hc _ ih =>
      obtain ⟨pieces, rfl⟩ := ih hargs fun hmem => hs (List.mem_cons_of_mem c hmem)
      refine ⟨.char c :: pieces, ?_⟩
      rw [unparse_cons, Piece.text, if_neg (not_or.mpr hc), List.singleton_append]
  | @brace f c s text hc _ ih =>
      obtain ⟨pieces, rfl⟩ := ih hargs fun hmem =>
        hs (List.mem_cons_of_mem c (List.mem_cons_of_mem c hmem))
      refine ⟨.char c :: pieces, ?_⟩
      rw [unparse_cons, Piece.text, if_pos hc, List.cons_append, List.singleton_append]
  | @field f f' s rest value text hhead hfield _ ih =>
      have hfields : ':' ∉ s := fun hmem => hs (List.mem_cons_of_mem _ hmem)
      obtain ⟨hsame, hcases⟩ := formatField_cases hargs hfields hfield
      rw [hsame] at ih
      rcases hcases with rfl | ⟨number, rfl⟩
      · obtain ⟨pieces, rfl⟩ := ih hargs fun hmem => hfields (List.mem_cons_of_mem _ hmem)
        exact ⟨.next :: pieces, rfl⟩
      · obtain ⟨pieces, rfl⟩ := ih hargs fun hmem =>
          hfields (List.mem_append_right _ (List.mem_cons_of_mem _ hmem))
        exact ⟨.index number :: pieces, by simp [unparse_cons, Piece.text]⟩

/-! ## What a message shows -/

def Piece.isNext : Piece → Bool
  | .next => true
  | _ => false

/-- The argument that a field names. -/
def Piece.named (args : List Arg) : Piece → Option Arg
  | .index number => args[number.value]?
  | _ => none

/-- The arguments of the fields. -/
def used (pieces : List Piece) (args : List Arg) : List Arg :=
  args.take (pieces.countP Piece.isNext) ++ pieces.filterMap (Piece.named args)

variable {args : List Arg} {c : Char}

theorem mem_fillNext (h : fillNext pieces args = some text) :
    (∀ args', pieces.filterMap (Piece.named args') = []) ∧
    (c ∈ text ↔ .char c ∈ pieces ∨ ∃ arg ∈ args.take (pieces.countP Piece.isNext), c ∈ plain arg) := by
  induction pieces generalizing args text with
  | nil =>
      obtain rfl := Option.some.inj h
      simp
  | cons piece pieces ih =>
      cases piece with
      | char d =>
          obtain ⟨rest, hrest, rfl⟩ := Option.map_eq_some_iff.mp h
          obtain ⟨hnone, hmem⟩ := ih hrest
          refine ⟨fun args' => by rw [List.filterMap_cons_none rfl, hnone], ?_⟩
          rw [List.mem_cons, hmem, List.mem_cons, List.countP_cons_of_neg (by simp [Piece.isNext]), or_assoc,
            Piece.char.injEq]
      | next =>
          cases args with
          | nil => cases h
          | cons arg args =>
              obtain ⟨rest, hrest, rfl⟩ := Option.map_eq_some_iff.mp h
              obtain ⟨hnone, hmem⟩ := ih hrest
              refine ⟨fun args' => by rw [List.filterMap_cons_none rfl, hnone], ?_⟩
              rw [List.mem_append, hmem, List.countP_cons_of_pos rfl, List.take_succ_cons]
              simp only [List.mem_cons, reduceCtorEq, false_or, exists_eq_or_imp]
              exact or_left_comm
      | index number => cases h

theorem mem_fillIndex (h : fillIndex args pieces = some text) : pieces.countP Piece.isNext = 0 ∧
    (c ∈ text ↔ .char c ∈ pieces ∨ ∃ arg ∈ pieces.filterMap (Piece.named args), c ∈ plain arg) := by
  induction pieces generalizing text with
  | nil =>
      obtain rfl := Option.some.inj h
      simp
  | cons piece pieces ih =>
      cases piece with
      | char d =>
          obtain ⟨rest, hrest, rfl⟩ := Option.map_eq_some_iff.mp h
          obtain ⟨hnone, hmem⟩ := ih hrest
          refine ⟨by rw [List.countP_cons_of_neg (by simp [Piece.isNext]), hnone], ?_⟩
          rw [List.mem_cons, hmem, List.mem_cons, List.filterMap_cons_none rfl, or_assoc, Piece.char.injEq]
      | next => cases h
      | index number =>
          obtain ⟨arg, harg, hmap⟩ := Option.bind_eq_some_iff.mp h
          obtain ⟨rest, hrest, rfl⟩ := Option.map_eq_some_iff.mp hmap
          obtain ⟨hnone, hmem⟩ := ih hrest
          refine ⟨by rw [List.countP_cons_of_neg (by simp [Piece.isNext]), hnone], ?_⟩
          have hnamed : Piece.named args (.index number) = some arg := harg
          rw [List.mem_append, hmem, List.filterMap_cons_some hnamed]
          simp only [List.mem_cons, reduceCtorEq, false_or, exists_eq_or_imp]
          exact or_left_comm

/-- A character of the text is one of the format or of an argument that a field takes. -/
theorem mem_fill (h : fillNext pieces args = some text ∨ fillIndex args pieces = some text) :
    c ∈ text ↔ .char c ∈ pieces ∨ ∃ arg ∈ used pieces args, c ∈ plain arg := by
  rcases h with hnext | hindex
  · obtain ⟨hnone, hmem⟩ := mem_fillNext (c := c) hnext
    rw [hmem, used, hnone, List.append_nil]
  · obtain ⟨hnone, hmem⟩ := mem_fillIndex (c := c) hindex
    rw [hmem, used, hnone, List.take_zero, List.nil_append]

theorem mem_unparse : '\n' ∈ unparse pieces ↔ .char '\n' ∈ pieces := by
  induction pieces with
  | nil => simp [unparse]
  | cons piece pieces ih =>
      rw [unparse_cons, List.mem_append, ih, List.mem_cons]
      refine or_congr ?_ Iff.rfl
      cases piece with
      | char d =>
          rw [Piece.text, Piece.char.injEq]
          split_ifs <;> simp
      | next => simp [Piece.text]
      | index number =>
          have hnot : '\n' ∉ number.digits := fun hmem =>
            absurd (number.isDigit '\n' hmem) (by decide)
          simp [Piece.text, hnot]

/-- Without arguments a line feed can only come from the format. -/
theorem mem_unparse_iff : '\n' ∈ unparse pieces ↔
    .char '\n' ∈ pieces ∨ ∃ arg ∈ used pieces [], '\n' ∈ plain arg := by
  have hused : used pieces [] = [] := by
    rw [used, List.take_nil, List.nil_append, List.filterMap_eq_nil_iff]
    intro piece _
    cases piece <;> rfl
  rw [mem_unparse, hused]
  simp

theorem format_unparse_iff (hargs : args.length ≤ 429496729) : format args (unparse pieces) = (text, none) ↔
    fillNext pieces args = some text ∨ fillIndex args pieces = some text := by
  rw [format_iff, writes_unparse_iff (f := ⟨args, 0⟩) hargs]
  simp [Fills]

/-- Fields take the arguments one after the other, or all by their numbers. -/
theorem format_eq_iff {args : List Arg} (hargs : args.length ≤ 429496729) :
    (∀ pieces text, format args (unparse pieces) = (text, none) ↔
      fillNext pieces args = some text ∨ fillIndex args pieces = some text) ∧
    (∀ s text, ':' ∉ s → format args s = (text, none) → ∃ pieces, s = unparse pieces) := by
  refine ⟨fun pieces text => format_unparse_iff hargs, fun s text hs h => ?_⟩
  exact (format_iff.mp h).exists_pieces (f := ⟨args, 0⟩) hargs hs

theorem two_arguments_switched : format [.string ['a'], .int (-7)]
    (unparse [.index ⟨['1'], by decide, by simp⟩, .char '{', .index ⟨['0'], by decide, by simp⟩]) =
      (['-', '7', '{', 'a'], none) :=
  ((format_eq_iff (by simp)).1 _ _).mpr (Or.inr (by decide +kernel))

end Pieces

end Robotd.Fmt
