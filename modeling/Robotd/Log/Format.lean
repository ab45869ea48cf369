import Robotd.Lib.CLib
import Robotd.Lib.Yields

/-!
# Format strings

`BasicFormatter` of the vendored `format.h`, for arguments without names that are strings or
integers. An error ends the formatting, and what has been written before stays written. A format is
a string in memory: where it has ended, a null character is read.
-/

namespace Robotd.Fmt

open Lib Lib.CLib

/-- An argument, by its type: `INT` and `LONG_LONG`, `UINT` and `ULONG_LONG`, `STRING` and, but for
the format type `p` that shows its address, `CSTRING`. -/
inductive Arg where
  | int (value : Int)
  | uint (value : Nat)
  | string (value : List Char)
  deriving DecidableEq, Repr

inductive Alignment where
  | default
  | left
  | right
  | center
  | numeric
  deriving DecidableEq, Repr

structure FormatSpec where
  align : Alignment
  fill : Char
  width : Nat
  signFlag : Bool
  plusFlag : Bool
  minusFlag : Bool
  hashFlag : Bool
  precision : Option Nat
  type : Option Char
  deriving DecidableEq, Repr

/-- What the constructor of `FormatSpec` sets. -/
def FormatSpec.default : FormatSpec := ⟨.default, ' ', 0, false, false, false, false, none, none⟩

/-- The message of a `FormatError`. -/
abbrev Result (α : Type) : Type := Except String α

/-- `*s`. -/
def current (s : List Char) : Char := s.headD (Char.ofNat 0)

/-! ## Arguments -/

structure Formatter where
  args : List Arg
  nextArgIndex : Int

namespace Formatter

/-- `do_get_arg`. -/
def doGetArg (f : Formatter) (index : Nat) : Result Arg :=
  match f.args[index]? with
  | some arg => .ok arg
  | none => .error "argument index out of range"

/-- `next_arg`. -/
def nextArg (f : Formatter) : Result (Arg × Formatter) := do
  if 0 ≤ f.nextArgIndex then
    let arg ← f.doGetArg f.nextArgIndex.toNat
    return (arg, { f with nextArgIndex := f.nextArgIndex + 1 })
  else
    throw "cannot switch from manual to automatic argument indexing"

/-- `check_no_auto_index`. -/
def checkNoAutoIndex (f : Formatter) : Result Formatter :=
  if 0 < f.nextArgIndex then
    .error "cannot switch from automatic to manual argument indexing"
  else
    .ok { f with nextArgIndex := -1 }

/-- `get_arg`. -/
def getArg (f : Formatter) (index : Nat) : Result (Arg × Formatter) := do
  let f ← f.checkNoAutoIndex
  return (← f.doGetArg index, f)

end Formatter

def isNameStart (c : Char) : Bool := c.isAlpha || c == '_'

/-- The loop of `parse_nonnegative_int`, with an `unsigned` of 32 bits. -/
def addDigits (value : Nat) : List Char → Nat × List Char
  | [] => (value, [])
  | c :: s =>
      if c.isDigit then
        let newValue := (value * 10 + (c.toNat - 48)) % 2 ^ 32
        if newValue < value then (2 ^ 32 - 1, s) else addDigits newValue s
      else
        (value, c :: s)

/-- `parse_nonnegative_int`. -/
def parseNonnegativeInt (s : List Char) : Result (Nat × List Char) :=
  if 2 ^ 31 - 1 < (addDigits 0 s).1 then .error "number is too big" else .ok (addDigits 0 s)

/-- The error of an argument that `parse_arg_index` throws. -/
def atField {α : Type} (s : List Char) : Result α → Result α
  | .ok value => .ok value
  | .error message =>
      .error (if current s ≠ '}' ∧ current s ≠ ':' then "invalid format string" else message)

/-- `parse_arg_index`. -/
def parseArgIndex (f : Formatter) (s : List Char) : Result (Arg × Formatter × List Char) := do
  if (current s).isDigit then
    let (index, s) ← parseNonnegativeInt s
    let (arg, f) ← atField s (f.getArg index)
    return (arg, f, s)
  else
    let (arg, f) ← atField s f.nextArg
    return (arg, f, s)

/-- `parse_arg_name`. No argument has a name. -/
def parseArgName (f : Formatter) : Result (Arg × Formatter × List Char) := do
  let _ ← f.checkNoAutoIndex
  throw "argument not found"

def parseArg (f : Formatter) (s : List Char) : Result (Arg × Formatter × List Char) :=
  if isNameStart (current s) then parseArgName f else parseArgIndex f s

/-! ## Specifications -/

/-- `require_numeric_argument`. -/
def requireNumericArgument (arg : Arg) (spec : Char) : Result Unit :=
  match arg with
  | .string _ => .error ("format specifier '" ++ String.singleton spec ++ "' requires numeric argument")
  | _ => .ok ()

def alignmentOf : Char → Option Alignment
  | '<' => some .left
  | '>' => some .right
  | '=' => some .numeric
  | '^' => some .center
  | _ => none

/-- An alignment that has been found at the pointer `p`. -/
def alignWith (arg : Arg) (align : Alignment) (spec : FormatSpec) (s : List Char) :
    Result (FormatSpec × List Char) := do
  if align = .numeric then
    requireNumericArgument arg '='
  return ({ spec with align := align }, s)

/-- The fill and the alignment. The second character is tried first. -/
def parseAlign (arg : Arg) (spec : FormatSpec) (s : List Char) : Result (FormatSpec × List Char) :=
  match alignmentOf (current s.tail) with
  | some align =>
      if current s = '}' then .ok ({ spec with align := align }, s)
      else if current s = '{' then .error "invalid fill character '\x7b'"
      else alignWith arg align { spec with fill := current s } (s.drop 2)
  | none => match alignmentOf (current s) with
      | some align => alignWith arg align spec s.tail
      | none => .ok (spec, s)

/-- `check_sign`. -/
def checkSign (arg : Arg) (sign : Char) : Result Unit := do
  requireNumericArgument arg sign
  match arg with
  | .uint _ => throw ("format specifier '" ++ String.singleton sign ++ "' requires signed argument")
  | _ => return ()

def parseSign (arg : Arg) (spec : FormatSpec) (s : List Char) : Result (FormatSpec × List Char) := do
  if current s = '+' then
    checkSign arg '+'
    return ({ spec with signFlag := true, plusFlag := true }, s.tail)
  else if current s = '-' then
    checkSign arg '-'
    return ({ spec with minusFlag := true }, s.tail)
  else if current s = ' ' then
    checkSign arg ' '
    return ({ spec with signFlag := true }, s.tail)
  else
    return (spec, s)

def parseHash (arg : Arg) (spec : FormatSpec) (s : List Char) : Result (FormatSpec × List Char) := do
  if current s = '#' then
    requireNumericArgument arg '#'
    return ({ spec with hashFlag := true }, s.tail)
  else
    return (spec, s)

def parseZero (arg : Arg) (spec : FormatSpec) (s : List Char) : Result (FormatSpec × List Char) := do
  if current s = '0' then
    requireNumericArgument arg '0'
    return ({ spec with align := .numeric, fill := '0' }, s.tail)
  else
    return (spec, s)

/-- The value of an argument that stands for a width or a precision. -/
def countOf (what : String) (arg : Arg) : Result Nat := do
  let value ← match arg with
    | .int value => if value < 0 then throw ("negative " ++ what) else pure value.toNat
    | .uint value => pure value
    | .string _ => throw (what ++ " is not integer")
  if 2 ^ 31 - 1 < value then throw "number is too big" else return value

/-- A width or a precision that is given by an argument. -/
def parseCount (what : String) (f : Formatter) (s : List Char) : Result (Nat × Formatter × List Char) := do
  let (arg, f, s) ← parseArg f s
  if current s ≠ '}' then
    throw "invalid format string"
  return (← countOf what arg, f, s.tail)

def parseWidth (f : Formatter) (spec : FormatSpec) (s : List Char) :
    Result (FormatSpec × Formatter × List Char) := do
  if (current s).isDigit then
    let (width, s) ← parseNonnegativeInt s
    return ({ spec with width := width }, f, s)
  else if current s = '{' then
    let (width, f, s) ← parseCount "width" f s.tail
    return ({ spec with width := width }, f, s)
  else
    return (spec, f, s)

/-- The precision after its point. -/
def parsePrecisionValue (f : Formatter) (s : List Char) : Result (Nat × Formatter × List Char) := do
  if (current s).isDigit then
    let (precision, s) ← parseNonnegativeInt s
    return (precision, f, s)
  else if current s = '{' then
    parseCount "precision" f s.tail
  else
    throw "missing precision specifier"

def parsePrecision (f : Formatter) (arg : Arg) (spec : FormatSpec) (s : List Char) :
    Result (FormatSpec × Formatter × List Char) := do
  if current s = '.' then
    let (precision, f, s) ← parsePrecisionValue f s.tail
    match arg with
    | .string _ => return ({ spec with precision := some precision }, f, s)
    | _ => throw "precision not allowed in integer format specifier"
  else
    return (spec, f, s)

def parseType (spec : FormatSpec) (s : List Char) : FormatSpec × List Char :=
  if s = [] ∨ current s = '}' then (spec, s) else ({ spec with type := some (current s) }, s.tail)

/-- What follows a colon. -/
def parseSpec (f : Formatter) (arg : Arg) (s : List Char) : Result (FormatSpec × Formatter × List Char) := do
  let (spec, s) ← parseAlign arg .default s
  let (spec, s) ← parseSign arg spec s
  let (spec, s) ← parseHash arg spec s
  let (spec, s) ← parseZero arg spec s
  let (spec, f, s) ← parseWidth f spec s
  let (spec, f, s) ← parsePrecision f arg spec s
  let (spec, s) := parseType spec s
  return (spec, f, s)

/-! ## Writing -/

/-- `report_unknown_type`. -/
def unknownType (code : Char) (type : String) : String :=
  let shown := if 32 ≤ code.toNat ∧ code.toNat < 127 then [code]
    else ['\\', 'x'] ++ List.replicate (2 - (Nat.toDigits 16 code.toNat).length) '0' ++
      Nat.toDigits 16 code.toNat
  "unknown format code '" ++ String.ofList shown ++ "' for " ++ type

/-- `fill_padding`. -/
def fillPadding (fill : Char) (width : Nat) (content : List Char) : List Char :=
  let padding := width - content.length
  List.replicate (padding / 2) fill ++ content ++ List.replicate (padding - padding / 2) fill

/-- `write_str` of a text that has been cut. -/
def alignStr (spec : FormatSpec) (text : List Char) : List Char :=
  if text.length < spec.width then
    match spec.align with
    | .right => List.replicate (spec.width - text.length) spec.fill ++ text
    | .center => fillPadding spec.fill spec.width text
    | _ => text ++ List.replicate (spec.width - text.length) spec.fill
  else
    text

/-- `write_str`. -/
def writeStr (spec : FormatSpec) (text : List Char) : Result (List Char) :=
  match spec.type with
  | none | some 's' => .ok (alignStr spec (spec.precision.elim text text.take))
  | some code => .error (unknownType code "string")

/-- `prepare_int_buffer` and the digits. An integer that is formatted has no precision. -/
def alignInt (spec : FormatSpec) (sign digits : List Char) : List Char :=
  let padding := List.replicate (spec.width - (sign ++ digits).length) spec.fill
  if spec.width ≤ (sign ++ digits).length then
    sign ++ digits
  else
    match spec.align with
    | .left => sign ++ digits ++ padding
    | .center => fillPadding spec.fill spec.width (sign ++ digits)
    | .numeric => sign ++ padding ++ digits
    | _ => padding ++ sign ++ digits

/-- `write_int`. -/
def writeInt (spec : FormatSpec) (value : Int) : Result (List Char) :=
  let sign := if value < 0 then ['-']
    else if spec.signFlag then [if spec.plusFlag then '+' else ' '] else []
  let based (mark digits : List Char) : Result (List Char) :=
    .ok (alignInt spec (sign ++ if spec.hashFlag then mark else []) digits)
  match spec.type with
  | none | some 'd' => .ok (alignInt spec sign (decimal value.natAbs))
  | some 'x' => based ['0', 'x'] (Nat.toDigits 16 value.natAbs)
  | some 'X' => based ['0', 'X'] ((Nat.toDigits 16 value.natAbs).map Char.toUpper)
  | some 'b' => based ['0', 'b'] (Nat.toDigits 2 value.natAbs)
  | some 'B' => based ['0', 'B'] (Nat.toDigits 2 value.natAbs)
  | some 'o' => based ['0'] (Nat.toDigits 8 value.natAbs)
  | some code => .error (unknownType code "integer")

/-- `BasicArgFormatter::visit`. -/
def writeArg (spec : FormatSpec) : Arg → Result (List Char)
  | .int value => writeInt spec value
  | .uint value => writeInt spec value
  | .string text => writeStr spec text

/-! ## Widths -/

/-- The content, with fill characters before it, behind it and between two parts of it. -/
def Pads (fill : Char) (width : Nat) (content text : List Char) : Prop :=
  ∃ x y before between behind, content = x ++ y ∧
    text = List.replicate before fill ++ x ++ List.replicate between fill ++ y ++
      List.replicate behind fill ∧
    text.length = max width content.length

section Widths

variable {spec : FormatSpec} {content : List Char}

theorem pads_fillPadding (fill : Char) {width : Nat} (h : content.length ≤ width) :
    Pads fill width content (fillPadding fill width content) := by
  refine ⟨content, [], (width - content.length) / 2, 0,
    width - content.length - (width - content.length) / 2, (List.append_nil _).symm, ?_, ?_⟩
  · rw [fillPadding, List.replicate_zero, List.append_nil, List.append_nil]
  · simp only [fillPadding, List.length_append, List.length_replicate]
    omega

theorem pads_alignStr (spec : FormatSpec) (text : List Char) :
    Pads spec.fill spec.width text (alignStr spec text) := by
  rw [alignStr]
  split_ifs with hshort
  · split
    · exact ⟨text, [], spec.width - text.length, 0, 0, by simp, by simp, by simp; omega⟩
    · exact pads_fillPadding _ hshort.le
    · exact ⟨text, [], 0, 0, spec.width - text.length, by simp, by simp, by simp; omega⟩
  · exact ⟨text, [], 0, 0, 0, by simp, by simp, by omega⟩

theorem pads_alignInt (spec : FormatSpec) (sign digits : List Char) :
    Pads spec.fill spec.width (sign ++ digits) (alignInt spec sign digits) := by
  rw [alignInt]
  generalize hlack : spec.width - (sign ++ digits).length = lack
  split_ifs with hlong
  · exact ⟨sign, digits, 0, 0, 0, rfl, by simp, by omega⟩
  · rw [Nat.not_le, List.length_append] at hlong
    rw [List.length_append] at hlack
    split
    · exact ⟨sign, digits, 0, 0, lack, rfl, by simp, by simp; omega⟩
    · exact pads_fillPadding _ (by rw [List.length_append]; omega)
    · exact ⟨sign, digits, 0, lack, 0, rfl, by simp, by simp; omega⟩
    · exact ⟨sign, digits, lack, 0, 0, rfl, by simp, by simp; omega⟩

theorem alignStr_zero (text : List Char) : alignStr { spec with width := 0 } text = text :=
  if_neg (Nat.not_lt_zero _)

theorem alignInt_zero (sign digits : List Char) :
    alignInt { spec with width := 0 } sign digits = sign ++ digits := by
  rw [alignInt, if_pos (Nat.zero_le _)]

theorem writeStr_pads {text : List Char} (h : writeStr { spec with width := 0 } text = .ok content) :
    ∃ padded, writeStr spec text = .ok padded ∧ Pads spec.fill spec.width content padded := by
  rw [writeStr] at h ⊢
  dsimp only at h
  split at h
  · rw [alignStr_zero] at h
    obtain rfl := Except.ok.inj h
    exact ⟨_, rfl, pads_alignStr spec _⟩
  · rw [alignStr_zero] at h
    obtain rfl := Except.ok.inj h
    exact ⟨_, rfl, pads_alignStr spec _⟩
  · cases h

theorem writeInt_pads {value : Int} (h : writeInt { spec with width := 0 } value = .ok content) :
    ∃ padded, writeInt spec value = .ok padded ∧ Pads spec.fill spec.width content padded := by
  simp only [writeInt, alignInt_zero] at h ⊢
  split at h
  case h_8 => cases h
  all_goals
    obtain rfl := Except.ok.inj h
    exact ⟨_, rfl, pads_alignInt spec _ _⟩

/-- A width cuts nothing off: it only adds fill characters, as many as are lacking. -/
theorem width_only_pads {arg : Arg} (h : writeArg { spec with width := 0 } arg = .ok content) :
    ∃ padded, writeArg spec arg = .ok padded ∧ Pads spec.fill spec.width content padded := by
  cases arg with
  | int value => exact writeInt_pads h
  | uint value => exact writeInt_pads h
  | string text => exact writeStr_pads h

theorem minus_padded : ∃ padded,
    writeArg ⟨.numeric, '0', 7, false, false, false, false, none, none⟩ (.int (-42)) = .ok padded ∧
      Pads '0' 7 ['-', '4', '2'] padded :=
  width_only_pads (by decide)

end Widths

/-! ## The formatter -/

/-- The specification, if there is one. -/
def parseColon (f : Formatter) (arg : Arg) (s : List Char) : Result (FormatSpec × Formatter × List Char) :=
  if current s = ':' then parseSpec f arg s.tail else .ok (.default, f, s)

/-- `BasicFormatter::format` of an argument. -/
def formatArg (f : Formatter) (arg : Arg) (s : List Char) : Result (List Char × Formatter × List Char) := do
  let (spec, f, s) ← parseColon f arg s
  if current s ≠ '}' then
    throw "missing '\x7d' in format string"
  return (← writeArg spec arg, f, s.tail)

/-- A replacement field, from what follows its brace. -/
def formatField (f : Formatter) (s : List Char) : Result (List Char × Formatter × List Char) := do
  let (arg, f, s) ← parseArg f s
  formatArg f arg s

section Length

variable {f : Formatter} {arg : Arg} {spec : FormatSpec} {s : List Char}

theorem length_addDigits (value : Nat) (s : List Char) : (addDigits value s).2.length ≤ s.length := by
  fun_induction addDigits with
  | case1 => exact le_rfl
  | case2 => exact Nat.le_succ _
  | case3 _ _ _ _ _ _ ih => exact ih.trans (Nat.le_succ _)
  | case4 => exact le_rfl

theorem length_parseNonnegativeInt :
    Yields (fun read => read.2.length ≤ s.length) (parseNonnegativeInt s) :=
  yields_ite (fun _ => yields_error) fun _ => yields_ok (length_addDigits 0 s)

theorem length_parseArg : Yields (fun read => read.2.2.length ≤ s.length) (parseArg f s) := by
  refine yields_ite (fun _ => ?_) fun _ => yields_ite (fun _ => ?_) fun _ => ?_
  · exact yields_bind (yields_true _) fun _ _ => yields_throw
  · refine yields_bind length_parseNonnegativeInt fun read hread => ?_
    exact yields_bind (yields_true _) fun _ _ => yields_pure hread
  · exact yields_bind (yields_true _) fun _ _ => yields_pure le_rfl

theorem length_tail : s.tail.length ≤ s.length := by
  rw [List.length_tail]
  exact Nat.sub_le _ _

theorem length_parseCount (what : String) :
    Yields (fun read => read.2.2.length ≤ s.length) (parseCount what f s) := by
  refine yields_bind length_parseArg fun read hread => ?_
  refine yields_ite (fun _ => yields_throw) fun _ => ?_
  exact yields_bind (yields_true _) fun _ _ => yields_pure (length_tail.trans hread)

theorem length_alignWith {align : Alignment} :
    Yields (fun read => read.2.length ≤ s.length) (alignWith arg align spec s) := by
  refine yields_ite (fun _ => ?_) fun _ => yields_pure le_rfl
  exact yields_bind (yields_true _) fun _ _ => yields_pure le_rfl

theorem length_parseAlign : Yields (fun read => read.2.length ≤ s.length) (parseAlign arg spec s) := by
  rw [parseAlign]
  split
  · refine yields_ite (fun _ => yields_ok le_rfl) fun _ => yields_ite (fun _ => yields_error) fun _ => ?_
    exact length_alignWith.mono fun read h => h.trans (List.drop_sublist 2 s).length_le
  · split
    · exact length_alignWith.mono fun read h => h.trans length_tail
    · exact yields_ok le_rfl

theorem length_parseSign : Yields (fun read => read.2.length ≤ s.length) (parseSign arg spec s) := by
  refine yields_ite (fun _ => ?_) fun _ => yields_ite (fun _ => ?_) fun _ =>
    yields_ite (fun _ => ?_) fun _ => yields_pure le_rfl
  all_goals exact yields_bind (yields_true _) fun _ _ => yields_pure length_tail

theorem length_parseHash : Yields (fun read => read.2.length ≤ s.length) (parseHash arg spec s) :=
  yields_ite (fun _ => yields_bind (yields_true _) fun _ _ => yields_pure length_tail) fun _ =>
    yields_pure le_rfl

theorem length_parseZero : Yields (fun read => read.2.length ≤ s.length) (parseZero arg spec s) :=
  yields_ite (fun _ => yields_bind (yields_true _) fun _ _ => yields_pure length_tail) fun _ =>
    yields_pure le_rfl

theorem length_parseWidth : Yields (fun read => read.2.2.length ≤ s.length) (parseWidth f spec s) := by
  refine yields_ite (fun _ => ?_) fun _ => yields_ite (fun _ => ?_) fun _ => yields_pure le_rfl
  · exact yields_bind length_parseNonnegativeInt fun _ h => yields_pure h
  · exact yields_bind (length_parseCount _) fun _ h => yields_pure (h.trans length_tail)

theorem length_parsePrecision :
    Yields (fun read => read.2.2.length ≤ s.length) (parsePrecision f arg spec s) := by
  refine yields_ite (fun _ => ?_) fun _ => yields_pure le_rfl
  have hvalue : Yields (fun read => read.2.2.length ≤ s.length) (parsePrecisionValue f s.tail) := by
    refine yields_ite (fun _ => ?_) fun _ => yields_ite (fun _ => ?_) fun _ => yields_throw
    · exact yields_bind length_parseNonnegativeInt fun _ h => yields_pure (h.trans length_tail)
    · exact (length_parseCount _).mono fun _ h => h.trans (length_tail.trans length_tail)
  refine yields_bind hvalue fun read h => ?_
  cases arg with
  | string => exact yields_pure h
  | _ => exact yields_throw

theorem length_parseType : (parseType spec s).2.length ≤ s.length := by
  rw [parseType]
  split_ifs
  · exact le_rfl
  · exact length_tail

theorem length_parseSpec : Yields (fun read => read.2.2.length ≤ s.length) (parseSpec f arg s) := by
  refine yields_bind length_parseAlign fun read h => ?_
  refine yields_bind (length_parseSign.mono fun _ h' => h'.trans h) fun read h => ?_
  refine yields_bind (length_parseHash.mono fun _ h' => h'.trans h) fun read h => ?_
  refine yields_bind (length_parseZero.mono fun _ h' => h'.trans h) fun read h => ?_
  refine yields_bind (length_parseWidth.mono fun _ h' => h'.trans h) fun read h => ?_
  refine yields_bind (length_parsePrecision.mono fun _ h' => h'.trans h) fun read h => ?_
  exact yields_pure (length_parseType.trans h)

/-- The closing brace is read. -/
theorem length_formatArg : Yields (fun read => read.2.2.length < s.length) (formatArg f arg s) := by
  have hspec : Yields (fun read => read.2.2.length ≤ s.length) (parseColon f arg s) :=
    yields_ite (fun _ => length_parseSpec.mono fun _ h => h.trans length_tail) fun _ => yields_ok le_rfl
  refine yields_bind hspec fun read h => ?_
  refine yields_ite (fun _ => yields_throw) fun hbrace => ?_
  refine yields_bind (yields_true _) fun _ _ => yields_pure ?_
  obtain ⟨spec, f, rest⟩ := read
  cases rest with
  | nil =>
      have hend : current [] = '}' := not_not.mp hbrace
      exact absurd hend (by decide)
  | cons c rest => exact h

theorem length_formatField : Yields (fun read => read.2.2.length < s.length) (formatField f s) :=
  yields_bind length_parseArg fun _ h => length_formatArg.mono fun _ h' => h'.trans_le h

end Length

/-- The loop of `BasicFormatter::format`, with the text from `start` on that is still to be written,
and what has been written: the text, and the message of the error if one is thrown. -/
def formatLoop (f : Formatter) (start out : List Char) (s : List Char) : List Char × Option String :=
  match s with
  | [] => (out ++ start, none)
  | c :: s =>
      if c ≠ '{' ∧ c ≠ '}' then
        formatLoop f (start ++ [c]) out s
      else if s.head? = some c then
        formatLoop f [] (out ++ start ++ [c]) s.tail
      else if c = '}' then
        (out, some "unmatched '\x7d' in format string")
      else
        match _h : formatField f s with
        | .error message => (out ++ start, some message)
        | .ok (text, f, rest) => formatLoop f [] (out ++ start ++ text) rest
termination_by s.length
decreasing_by
  · exact Nat.lt_succ_self _
  · exact Nat.lt_succ_of_le length_tail
  · exact (length_formatField _ _h).trans (Nat.lt_succ_self _)

/-- `BasicFormatter::format`. -/
def format (args : List Arg) (s : List Char) : List Char × Option String := formatLoop ⟨args, 0⟩ [] [] s

example : format [.string ['a'], .int (-7)] "\x7b0\x7d: \x7b1:>4\x7d\x7d\x7d".toList =
    ("a:   -7\x7d".toList, none) := by
  decide +kernel

end Robotd.Fmt
