import Robotd.Loader.Fresh

/-!
# Which sizes are parsed exactly

`size_parse` hands a string of digits of any length to `atoi`, stores the `int` in an
`unsigned long` and multiplies it there. `Denotes` says which texts are sizes and what they come
to, `wrapped` what the code makes of the digits, and `size_parse_exact_iff` for which texts the
two agree.
-/

namespace Robotd

open Lib Lib.CLib Load

/-- The text is a non-empty string of decimal digits with this value, followed by nothing or by a
suffix with this factor. -/
def Denotes (size : String) (value factor : Nat) : Prop :=
  ∃ digits suffix, size.toList = digits ++ suffix.toList ∧ digits ≠ [] ∧
    (∀ c ∈ digits, c.isDigit = true) ∧
    suffix ∈ [none, some 'k', some 'K', some 'm', some 'M'] ∧
    value = Nat.ofDigitChars 10 digits 0 ∧ factor = unitOf suffix

/-- The text is a size, of so many bytes. -/
def IsSize (size : String) (bytes : Nat) : Prop :=
  ∃ value factor, Denotes size value factor ∧ 0 < value ∧ value * factor < 2 ^ 64 ∧
    bytes = value * factor

/-- The two variables that `size_parse` is called with: the local `logsize` and the static
`ramsize`. -/
inductive SizeVariable where
  | logsize
  | ramsize
  deriving DecidableEq, Repr

def SizeVariable.store : SizeVariable → Nat → Loader → Loader
  | .logsize, _, s => s
  | .ramsize, n, s => { s with ramsize := n }

/-- `size_parse` is exact on this text: it returns 0 for a size and for nothing else, and then
its output is the size. -/
def ParsesExactly (size : String) : Prop :=
  ∀ (variable_ : SizeVariable) (s : Loader),
    ((∃ n s', (sizeParse size fun n => modify (variable_.store n)).run s = .next n s') ↔
      ∃ n, IsSize size n) ∧
    ∀ n s', (sizeParse size fun n => modify (variable_.store n)).run s = .next n s' →
      IsSize size n ∧ s' = variable_.store n s

/-- What `atoi` and the conversion to `unsigned long` make of a value. -/
def wrapped (value : Nat) : Nat :=
  if 2 ^ 63 ≤ value then 2 ^ 64 - 1
  else if value % 2 ^ 32 < 2 ^ 31 then value % 2 ^ 32
  else 2 ^ 64 - 2 ^ 32 + value % 2 ^ 32

/-- The value fits into an `int`; or it is lost, and the product is the right one or is missed all
the same. -/
def WrapsRight (value factor : Nat) : Prop :=
  value < 2 ^ 31 ∨
    (value < 2 ^ 63 ∧ 2 ^ 64 ≤ value * factor ∧ value % 2 ^ 32 = 0) ∨
    (value * factor < 2 ^ 64 ∧ 2 ^ 64 ≤ (value + 2 ^ 31) * factor ∧
      (value < 2 ^ 63 ∨ value = 2 ^ 64 - 1))

instance (value factor : Nat) : Decidable (WrapsRight value factor) :=
  inferInstanceAs (Decidable (_ ∨ _ ∨ _))

/-! ## The digits -/

theorem atoiUnsigned_nil : atoiUnsigned [] = 0 := by decide

/-- `atoi` on a string of digits, saturated at 64 bits and cut off at 32. -/
theorem atoiUnsigned_digits {digits : List Char} (hne : digits ≠ [])
    (hdigits : ∀ c ∈ digits, c.isDigit = true) :
    atoiUnsigned digits = wrapped (Nat.ofDigitChars 10 digits 0) := by
  have hnumber : number digits = some (false, Nat.ofDigitChars 10 digits 0) := by
    have h : number (digits ++ []) = some (false, Nat.ofDigitChars 10 digits 0) :=
      number_digits hne hdigits nofun
    rwa [List.append_nil] at h
  generalize Nat.ofDigitChars 10 digits 0 = value at hnumber
  have hatoi : atoi digits =
      Int.bmod (if 2 ^ 63 ≤ value then 2 ^ 63 - 1 else (value : Int)) (2 ^ 32) := by
    simp only [atoi, hnumber, strtol, Bool.false_eq_true, if_false]
  rw [atoiUnsigned, hatoi, wrapped]
  by_cases hlarge : 2 ^ 63 ≤ value
  · rw [if_pos hlarge, if_pos hlarge]
    decide
  · rw [if_neg hlarge, if_neg hlarge, Int.bmod_def]
    -- the low half of the value, taken for an `int`
    by_cases hlow : value % 2 ^ 32 < 2 ^ 31
    · rw [if_pos hlow, if_pos (by omega)]
      omega
    · rw [if_neg hlow, if_neg (by omega)]
      omega

/-- The regular expression is the form of a size, but for the digits that may be missing. -/
theorem sizeMatch_eq_some_iff {size : String} {digits : List Char} {suffix : Option Char} :
    sizeMatch size = some (digits, suffix) ↔ size.toList = digits ++ suffix.toList ∧
      (∀ c ∈ digits, c.isDigit = true) ∧
      suffix ∈ [none, some 'k', some 'K', some 'm', some 'M'] := by
  constructor
  · intro hmatch
    have hsplit := List.takeWhile_append_dropWhile (p := Char.isDigit) (l := size.toList)
    have hdigits : ∀ c ∈ size.toList.takeWhile Char.isDigit, c.isDigit = true :=
      fun c hc => List.mem_takeWhile_imp hc
    unfold sizeMatch at hmatch
    split at hmatch
    · rename_i hrest
      cases hmatch
      rw [hrest] at hsplit
      exact ⟨hsplit.symm, hdigits, by simp⟩
    · rename_i c hrest
      split at hmatch
      · rename_i hmem
        cases hmatch
        rw [hrest] at hsplit
        exact ⟨hsplit.symm, hdigits, by simpa using hmem⟩
      · cases hmatch
    · cases hmatch
  · intro h
    obtain ⟨hsize, hdigits, hsuffix⟩ := h
    -- no suffix is a digit, so the digits end where it starts
    have hend : ∀ c ∈ suffix, c.isDigit = false := by
      intro c hc
      cases hc
      simp only [List.mem_cons, Option.some.injEq, reduceCtorEq, false_or, List.not_mem_nil,
        or_false] at hsuffix
      rcases hsuffix with rfl | rfl | rfl | rfl <;> decide
    have htake : size.toList.takeWhile Char.isDigit = digits := by
      rw [hsize, List.takeWhile_append_of_pos hdigits]
      cases suffix with
      | none => simp
      | some c => simp [hend c rfl]
    have hdrop : size.toList.dropWhile Char.isDigit = suffix.toList := by
      rw [hsize, List.dropWhile_append_of_pos hdigits]
      cases suffix with
      | none => simp
      | some c => simp [hend c rfl]
    rw [sizeMatch, htake, hdrop]
    cases suffix with
    | none => rfl
    | some c =>
        have hmem : c ∈ ['k', 'K', 'm', 'M'] := by simpa using hsuffix
        exact if_pos hmem

/-- A text denotes one value and one factor at most. -/
theorem Denotes.unique {size : String} {value factor value' factor' : Nat}
    (h : Denotes size value factor) (h' : Denotes size value' factor') :
    value' = value ∧ factor' = factor := by
  obtain ⟨digits, suffix, hsize, -, hdigits, hsuffix, rfl, rfl⟩ := h
  obtain ⟨digits', suffix', hsize', -, hdigits', hsuffix', rfl, rfl⟩ := h'
  have hmatch := sizeMatch_eq_some_iff.mpr ⟨hsize, hdigits, hsuffix⟩
  have hmatch' := sizeMatch_eq_some_iff.mpr ⟨hsize', hdigits', hsuffix'⟩
  cases hmatch.symm.trans hmatch'
  exact ⟨rfl, rfl⟩

/-! ## The code -/

/-- `size_parse` returns 0 exactly with what `parseSize` says, for either variable. -/
theorem sizeParse_next_iff {size : String} {variable_ : SizeVariable} {s s' : Loader} {n : Nat} :
    (sizeParse size fun n => modify (variable_.store n)).run s = .next n s' ↔
      parseSize size = .bytes n ∧ s' = variable_.store n s := by
  have htwice : ∀ m n, variable_.store n (variable_.store m s) = variable_.store n s := by
    cases variable_ <;> exact fun _ _ => rfl
  constructor
  · intro hrun
    have hmeets : (sizeParse size fun n => modify (variable_.store n)).Meets s
        (fun n s' => parseSize size = .bytes n ∧ s' = variable_.store n s) (fun _ _ => True) True :=
      meets_sizeParse htwice (fun n hn => ⟨hn, rfl⟩)
        fun _ _ _ _ _ => meets_reject (fun _ _ => trivial) _ _
    rw [Meets, hrun] at hmeets
    exact hmeets
  · intro h
    obtain ⟨hbytes, rfl⟩ := h
    have hmeets : (sizeParse size fun n => modify (variable_.store n)).Meets s
        (fun n' s' => n' = n ∧ s' = variable_.store n s) (fun _ _ => False) False := by
      refine meets_sizeParse htwice (fun n' hn' => ?_) fun hno => absurd hbytes (hno n)
      cases hbytes.symm.trans hn'
      exact ⟨rfl, rfl⟩
    unfold Meets at hmeets
    split at hmeets
    · obtain ⟨rfl, rfl⟩ := hmeets
      assumption
    · exact hmeets.elim
    · exact hmeets.elim

/-- A text that denotes something is parsed to the product of what `atoi` makes of the value. -/
theorem parseSize_of_denotes {size : String} {value factor n : Nat} (h : Denotes size value factor) :
    parseSize size = .bytes n ↔ wrapped value ≠ 0 ∧ n = wrapped value * factor % 2 ^ 64 := by
  obtain ⟨digits, suffix, hsize, hne, hdigits, hsuffix, rfl, rfl⟩ := h
  rw [parseSize, sizeMatch_eq_some_iff.mpr ⟨hsize, hdigits, hsuffix⟩]
  dsimp only
  rw [atoiUnsigned_digits hne hdigits]
  split
  · rename_i hzero
    simp [hzero]
  · rename_i hpos
    simp only [ParsedSize.bytes.injEq, hpos, ne_eq, not_false_eq_true, true_and]
    exact eq_comm

/-- A text that denotes nothing is not parsed: it is malformed, or has no digits. -/
theorem denotes_of_parseSize {size : String} {n : Nat} (h : parseSize size = .bytes n) :
    ∃ value factor, Denotes size value factor := by
  unfold parseSize at h
  split at h
  · cases h
  · rename_i digits suffix hmatch
    obtain ⟨hsize, hdigits, hsuffix⟩ := sizeMatch_eq_some_iff.mp hmatch
    have hne : digits ≠ [] := by
      intro hnil
      rw [hnil, atoiUnsigned_nil, if_pos rfl] at h
      cases h
    exact ⟨_, _, digits, suffix, hsize, hne, hdigits, hsuffix, rfl, rfl⟩

/-! ## Exactness -/

/-- The three factors. -/
theorem Denotes.factor_cases {size : String} {value factor : Nat} (h : Denotes size value factor) :
    factor = 1 ∨ factor = 1024 ∨ factor = 1048576 := by
  obtain ⟨digits, suffix, -, -, -, hsuffix, -, rfl⟩ := h
  simp only [List.mem_cons, List.not_mem_nil, or_false] at hsuffix
  rcases hsuffix with rfl | rfl | rfl | rfl | rfl
  · exact .inl rfl
  · exact .inr (.inl rfl)
  · exact .inr (.inl rfl)
  · exact .inr (.inr rfl)
  · exact .inr (.inr rfl)

/-- The product comes out right, or no product comes out where there should be none. -/
def RightProduct (value factor : Nat) : Prop :=
  (wrapped value ≠ 0 ↔ 0 < value ∧ value * factor < 2 ^ 64) ∧
    (wrapped value ≠ 0 → wrapped value * factor % 2 ^ 64 = value * factor)

theorem rightProduct_iff {value factor : Nat}
    (hfactor : factor = 1 ∨ factor = 1024 ∨ factor = 1048576) :
    RightProduct value factor ↔ WrapsRight value factor := by
  unfold RightProduct WrapsRight wrapped
  by_cases hlarge : 2 ^ 63 ≤ value
  · -- saturated: the only value that comes out right is the one that is all ones
    simp only [if_pos hlarge]
    rcases hfactor with rfl | rfl | rfl <;> omega
  · by_cases hlow : value % 2 ^ 32 < 2 ^ 31
    · simp only [if_neg hlarge, if_pos hlow]
      rcases hfactor with rfl | rfl | rfl <;> omega
    · -- negative as an `int`: the product counts down from `2 ^ 64`
      simp only [if_neg hlarge, if_neg hlow]
      rcases hfactor with rfl | rfl | rfl <;> omega

theorem isSize_iff_of_denotes {size : String} {value factor n : Nat} (h : Denotes size value factor) :
    IsSize size n ↔ 0 < value ∧ value * factor < 2 ^ 64 ∧ n = value * factor := by
  constructor
  · intro hsize
    obtain ⟨value', factor', h', hpos, hlt, rfl⟩ := hsize
    obtain ⟨rfl, rfl⟩ := h.unique h'
    exact ⟨hpos, hlt, rfl⟩
  · intro hn
    exact ⟨value, factor, h, hn⟩

/-- The code is exact where its product is the right one, and on every text that denotes nothing. -/
theorem parsesExactly_iff {size : String} : ParsesExactly size ↔
    ∀ value factor, Denotes size value factor → RightProduct value factor := by
  constructor
  · intro hexact value factor h
    -- either variable and any state of the loader will do
    obtain ⟨hzero, houtput⟩ := hexact .logsize Loader.initial
    simp only [sizeParse_next_iff, parseSize_of_denotes h, isSize_iff_of_denotes h] at hzero houtput
    constructor
    · constructor
      · intro hwrapped
        obtain ⟨n, hpos, hlt, -⟩ := hzero.mp ⟨_, _, ⟨hwrapped, rfl⟩, rfl⟩
        exact ⟨hpos, hlt⟩
      · intro hsize
        obtain ⟨n, s', ⟨hwrapped, -⟩, -⟩ := hzero.mpr ⟨_, hsize.1, hsize.2, rfl⟩
        exact hwrapped
    · intro hwrapped
      obtain ⟨⟨-, -, hproduct⟩, -⟩ := houtput _ _ ⟨⟨hwrapped, rfl⟩, rfl⟩
      exact hproduct
  · intro hright variable_ s
    have hnext : ∀ n s', (sizeParse size fun n => modify (variable_.store n)).run s = .next n s' →
        IsSize size n ∧ s' = variable_.store n s := by
      intro n s' hrun
      obtain ⟨hbytes, rfl⟩ := sizeParse_next_iff.mp hrun
      obtain ⟨value, factor, h⟩ := denotes_of_parseSize hbytes
      obtain ⟨hiff, hproduct⟩ := hright value factor h
      obtain ⟨hwrapped, rfl⟩ := (parseSize_of_denotes h).mp hbytes
      obtain ⟨hpos, hlt⟩ := hiff.mp hwrapped
      exact ⟨(isSize_iff_of_denotes h).mpr ⟨hpos, hlt, hproduct hwrapped⟩, rfl⟩
    refine ⟨⟨fun hrun => ?_, fun hsize => ?_⟩, hnext⟩
    · obtain ⟨n, s', hrun⟩ := hrun
      exact ⟨n, (hnext n s' hrun).1⟩
    · obtain ⟨n, value, factor, h, hpos, hlt, -⟩ := hsize
      have hwrapped := (hright value factor h).1.mpr ⟨hpos, hlt⟩
      exact ⟨_, _, sizeParse_next_iff.mpr ⟨(parseSize_of_denotes h).mpr ⟨hwrapped, rfl⟩, rfl⟩⟩

/-- A text is parsed exactly when its value fits into an `int`, or is lost without effect. -/
theorem size_parse_exact_iff (size : String) : ParsesExactly size ↔
    ∀ value factor, Denotes size value factor → WrapsRight value factor := by
  rw [parsesExactly_iff]
  constructor
  · intro hright value factor h
    exact (rightProduct_iff h.factor_cases).mp (hright value factor h)
  · intro hwraps value factor h
    exact (rightProduct_iff h.factor_cases).mpr (hwraps value factor h)

/-- `2 ^ 32 + 1` bytes are parsed as one byte. -/
theorem large_size_not_exact : ¬ ∀ size, ParsesExactly size := by
  intro hall
  have hrun : (sizeParse "4294967297" fun n => modify (SizeVariable.ramsize.store n)).run
      Loader.initial = .next 1 { Loader.initial with ramsize := 1 } := by
    decide +kernel
  obtain ⟨⟨value, factor, h, -, -, hone⟩, -⟩ := (hall "4294967297" .ramsize Loader.initial).2 _ _ hrun
  have hlarge : Denotes "4294967297" 4294967297 1 :=
    ⟨['4', '2', '9', '4', '9', '6', '7', '2', '9', '7'], none, rfl, by simp,
      List.all_eq_true.mp rfl, by simp, by simp [Nat.ofDigitChars], rfl⟩
  obtain ⟨rfl, rfl⟩ := hlarge.unique h
  omega

end Robotd
