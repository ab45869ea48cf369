import Robotd.Lib.Delimiter

/-!
# The lines of a backtrace

The handler `self_debug` looks for the parts of each line of `backtrace_symbols` and writes zeros
between them. `scan` is its loop over a line and `splitLine` its writes, through pointers that may
be null. The writes rest on the form of the line, which the handler only checks in part;
`parse_safe_iff` says for which lines they are right.
-/

namespace Robotd

open Lib

/-! ## The code -/

/-- The end of a string in memory. -/
def nul : Char := Char.ofNat 0

/-- The string at the start of this memory. -/
def cString (memory : List Char) : List Char := memory.takeWhile (· ≠ nul)

/-- The pointers that the handler sets in a line; `none` is a null pointer. -/
structure Marks where
  beginName : Option Nat
  beginOffset : Option Nat
  endOffset : Option Nat
  beginAddr : Option Nat
  endAddr : Option Nat
  deriving DecidableEq, Repr

def Marks.null : Marks := ⟨none, none, none, none, none⟩

/-- The loop of the handler over the rest of a line, from this position on. -/
def scan : List Char → Nat → Marks → Marks
  | [], _, marks => marks
  | c :: rest, p, marks =>
      if c = '(' then
        scan rest (p + 1) { marks with beginName := some p }
      else if c = '+' then
        scan rest (p + 1) { marks with beginOffset := some p }
      else if c = ')' ∧ marks.beginOffset ≠ none then
        scan rest (p + 1) { marks with endOffset := some p }
      else if c = '[' then
        scan rest (p + 1) { marks with beginAddr := some p }
      else if c = ']' then
        { marks with endAddr := some p }
      else
        scan rest (p + 1) marks

/-- The test before a line is split. -/
def Marks.found (marks : Marks) : Bool := match marks.beginName, marks.beginOffset, marks.endOffset with
  | some beginName, some beginOffset, some _ => beginName < beginOffset
  | _, _, _ => false

/-- `*p++ = '\0'`, unless the pointer is null. -/
def terminate (p : Option Nat) (memory : List Char) : Option (Nat × List Char) :=
  p.map fun p => (p + 1, memory.set p nul)

/-- Split the line at the pointers, demangle the name and put the parts together; `none` when a
null pointer is written through. -/
def splitLine (demangle : List Char → Option (List Char)) (marks : Marks) (memory : List Char) :
    Option (List Char) := do
  let (beginName, memory) ← terminate marks.beginName memory
  let (beginOffset, memory) ← terminate marks.beginOffset memory
  let (_, memory) ← terminate marks.endOffset memory
  let (beginAddr, memory) ← terminate marks.beginAddr memory
  let (_, memory) ← terminate marks.endAddr memory
  let name := cString (memory.drop beginName)
  return cString memory ++ ": ".toList ++ (demangle name).getD name ++ "()+".toList ++
    cString (memory.drop beginOffset) ++ " [".toList ++ cString (memory.drop beginAddr) ++ "]".toList

/-- The message that the handler writes for a line. -/
def printLine (demangle : List Char → Option (List Char)) (line : List Char) : Option (List Char) :=
  let memory := line ++ [nul]
  let marks := scan line 0 Marks.null
  if marks.found then splitLine demangle marks memory else some (cString memory)

/-! ## Lines that are split well -/

/-- The parts of a line: `module(name+offset) [address]`, with something after the parenthesis and
at the end. -/
structure Parts where
  module_ : List Char
  name : List Char
  offset : List Char
  gap : List Char
  address : List Char
  rest : List Char

namespace Parts

def line (parts : Parts) : List Char :=
  parts.module_ ++ '(' :: (parts.name ++ '+' :: (parts.offset ++ ')' :: (parts.gap ++ '[' ::
    (parts.address ++ ']' :: parts.rest))))

/-- The message for a line with these parts. -/
def message (demangle : List Char → Option (List Char)) (parts : Parts) : List Char :=
  parts.module_ ++ ": ".toList ++ (demangle parts.name).getD parts.name ++ "()+".toList ++
    parts.offset ++ " [".toList ++ parts.address ++ "]".toList

/-- Each delimiter is the last of its kind before the first `]`. -/
structure Delimited (parts : Parts) : Prop where
  name : '(' ∉ parts.name ++ parts.offset ++ parts.gap ++ parts.address
  offset : '+' ∉ parts.offset ++ parts.gap ++ parts.address
  close : ')' ∉ parts.gap ++ parts.address
  addr : '[' ∉ parts.address
  head : ']' ∉ parts.module_ ++ parts.name ++ parts.offset ++ parts.gap ++ parts.address

end Parts

/-- The part of a line that the handler looks at, up to the first `]`. -/
def lineHead (line : List Char) : List Char := line.takeWhile (· ≠ ']')

/-- Before the first `]` there is a plus after the last parenthesis that opens, and a parenthesis
that closes after some plus. -/
def Splits (line : List Char) : Prop :=
  (∃ x y, lineHead line = x ++ '(' :: y ∧ '(' ∉ y ∧ '+' ∈ y) ∧
    ∃ x y, lineHead line = x ++ '+' :: y ∧ ')' ∈ y

/-- The line is `module(name+offset)`, then an address in brackets. -/
def WellFormed (line : List Char) : Prop := ∃ parts : Parts, parts.Delimited ∧ line = parts.line

/-- A line that is split has its five pointers in order, and is printed as the four parts between
them; any other line is printed as it is. -/
structure ParsesSafely (demangle : List Char → Option (List Char)) (line : List Char) : Prop where
  split : (scan line 0 Marks.null).found = true → ∃ n o e a d,
    scan line 0 Marks.null = ⟨some n, some o, some e, some a, some d⟩ ∧
      n < o ∧ o < e ∧ e < a ∧ a < d ∧ d < line.length ∧
      printLine demangle line = some (Parts.message demangle ⟨line.take n, (line.take o).drop (n + 1),
        (line.take e).drop (o + 1), (line.take a).drop (e + 1), (line.take d).drop (a + 1),
        line.drop (d + 1)⟩)
  whole : (scan line 0 Marks.null).found = false → printLine demangle line = some line

variable {demangle : List Char → Option (List Char)} {line done rest : List Char} {marks : Marks}
  {parts : Parts}

/-! ## The loop -/

/-- The pointers after this much of a line: those to the last of each delimiter, but that a
parenthesis that closes does not count before the first plus. -/
structure Marks.Fits (marks : Marks) (done : List Char) : Prop where
  beginName : ∀ p, marks.beginName = some p ↔ LastAt '(' done p
  beginOffset : ∀ p, marks.beginOffset = some p ↔ LastAt '+' done p
  endOffset : ∀ p, marks.endOffset = some p ↔ LastAt ')' done p ∧ '+' ∈ done.take p
  beginAddr : ∀ p, marks.beginAddr = some p ↔ LastAt '[' done p

theorem Marks.null_fits : Marks.null.Fits [] := by
  have hnone : ∀ (a : Char) (p : Nat), ¬ LastAt a [] p := fun a p h => Nat.not_lt_zero p h.lt_length
  refine ⟨fun p => ?_, fun p => ?_, fun p => ?_, fun p => ?_⟩
  · exact iff_of_false nofun (hnone _ _)
  · exact iff_of_false nofun (hnone _ _)
  · exact iff_of_false nofun fun h => hnone _ _ h.1
  · exact iff_of_false nofun (hnone _ _)

/-- The first plus has been seen when there is a pointer to the last one. -/
theorem Marks.Fits.plus_iff (h : marks.Fits done) : marks.beginOffset ≠ none ↔ '+' ∈ done := by
  rw [← exists_lastAt, Option.ne_none_iff_exists']
  exact exists_congr h.beginOffset

/-- A character that is not a parenthesis that closes leaves the place of the last one. -/
theorem closing_concat {c : Char} (hc : c ≠ ')') {p : Nat} :
    LastAt ')' (done ++ [c]) p ∧ '+' ∈ (done ++ [c]).take p ↔ LastAt ')' done p ∧ '+' ∈ done.take p := by
  rw [lastAt_concat_ne hc]
  refine and_congr_right fun h => ?_
  rw [List.take_append_of_le_length h.lt_length.le]

/-- What the loop does with one character keeps the pointers where they should be. -/
theorem scan_fits (h : marks.Fits done) :
    (scan rest done.length marks).Fits (done ++ lineHead rest) ∧
      (scan rest done.length marks).endAddr =
        if ']' ∈ rest then some (done ++ lineHead rest).length else marks.endAddr := by
  induction rest generalizing done marks with
  | nil =>
      rw [scan, lineHead, List.takeWhile_nil, List.append_nil]
      exact ⟨h, rfl⟩
  | cons c rest ih =>
      -- the loop goes on with pointers that fit
      have hnext : ∀ marks' : Marks, c ≠ ']' → marks'.endAddr = marks.endAddr →
          marks'.Fits (done ++ [c]) →
            (scan rest (done.length + 1) marks').Fits (done ++ lineHead (c :: rest)) ∧
            (scan rest (done.length + 1) marks').endAddr =
              if ']' ∈ c :: rest then some (done ++ lineHead (c :: rest)).length else marks.endAddr := by
        intro marks' hc haddr hfits
        have hhead : lineHead (c :: rest) = c :: lineHead rest := by simp [lineHead, hc]
        have hmem : ']' ∈ c :: rest ↔ ']' ∈ rest := by simp [hc.symm]
        have hih := ih hfits
        rw [List.length_append, List.length_singleton, List.append_assoc, List.singleton_append,
          ← hhead, haddr] at hih
        simpa only [hmem] using hih
      rw [scan]
      by_cases hname : c = '('
      · subst hname
        rw [if_pos rfl]
        refine hnext _ (by decide) rfl ⟨fun p => ?_, fun p => ?_, fun p => ?_, fun p => ?_⟩
        · rw [lastAt_concat_self, Option.some.injEq, eq_comm]
        · rw [lastAt_concat_ne (by decide), h.beginOffset]
        · rw [closing_concat (by decide), h.endOffset]
        · rw [lastAt_concat_ne (by decide), h.beginAddr]
      rw [if_neg hname]
      by_cases hoffset : c = '+'
      · subst hoffset
        rw [if_pos rfl]
        refine hnext _ (by decide) rfl ⟨fun p => ?_, fun p => ?_, fun p => ?_, fun p => ?_⟩
        · rw [lastAt_concat_ne (by decide), h.beginName]
        · rw [lastAt_concat_self, Option.some.injEq, eq_comm]
        · rw [closing_concat (by decide), h.endOffset]
        · rw [lastAt_concat_ne (by decide), h.beginAddr]
      rw [if_neg hoffset]
      by_cases hclose : c = ')' ∧ marks.beginOffset ≠ none
      · obtain ⟨rfl, hplus⟩ := hclose
        rw [if_pos ⟨rfl, hplus⟩]
        refine hnext _ (by decide) rfl ⟨fun p => ?_, fun p => ?_, fun p => ?_, fun p => ?_⟩
        · rw [lastAt_concat_ne (by decide), h.beginName]
        · rw [lastAt_concat_ne (by decide), h.beginOffset]
        · rw [lastAt_concat_self, Option.some.injEq, eq_comm]
          refine (and_iff_left_of_imp ?_).symm
          rintro rfl
          rw [List.take_left]
          exact h.plus_iff.mp hplus
        · rw [lastAt_concat_ne (by decide), h.beginAddr]
      rw [if_neg hclose]
      by_cases haddr : c = '['
      · subst haddr
        rw [if_pos rfl]
        refine hnext _ (by decide) rfl ⟨fun p => ?_, fun p => ?_, fun p => ?_, fun p => ?_⟩
        · rw [lastAt_concat_ne (by decide), h.beginName]
        · rw [lastAt_concat_ne (by decide), h.beginOffset]
        · rw [closing_concat (by decide), h.endOffset]
        · rw [lastAt_concat_self, Option.some.injEq, eq_comm]
      rw [if_neg haddr]
      by_cases hend : c = ']'
      · subst hend
        rw [if_pos rfl]
        have hhead : lineHead (']' :: rest) = [] := by simp [lineHead]
        rw [hhead, List.append_nil, if_pos (by simp)]
        exact ⟨⟨h.beginName, h.beginOffset, h.endOffset, h.beginAddr⟩, rfl⟩
      rw [if_neg hend]
      refine hnext _ hend rfl ⟨fun p => ?_, fun p => ?_, fun p => ?_, fun p => ?_⟩
      · rw [lastAt_concat_ne hname, h.beginName]
      · rw [lastAt_concat_ne hoffset, h.beginOffset]
      · by_cases hparen : c = ')'
        · -- no plus has been seen, so this parenthesis does not count
          subst hparen
          have hplus : '+' ∉ done := fun hmem => hclose ⟨rfl, h.plus_iff.mpr hmem⟩
          rw [h.endOffset]
          refine iff_of_false (fun hold => hplus (List.mem_of_mem_take hold.2)) fun hnew => ?_
          obtain ⟨hlast, hmem⟩ := hnew
          rw [lastAt_concat_self.mp hlast, List.take_left] at hmem
          exact hplus hmem
        · rw [closing_concat hparen, h.endOffset]
      · rw [lastAt_concat_ne haddr, h.beginAddr]

/-- The pointers after the whole loop. -/
theorem scan_line (line : List Char) : (scan line 0 Marks.null).Fits (lineHead line) ∧
    (scan line 0 Marks.null).endAddr = if ']' ∈ line then some (lineHead line).length else none :=
  scan_fits Marks.null_fits

/-! ## The test -/

theorem Marks.found_iff : marks.found = true ↔ ∃ n o e, marks.beginName = some n ∧
    marks.beginOffset = some o ∧ marks.endOffset = some e ∧ n < o := by
  obtain ⟨beginName, beginOffset, endOffset, beginAddr, endAddr⟩ := marks
  cases beginName <;> cases beginOffset <;> cases endOffset <;> simp [Marks.found]

/-- The handler splits a line for the sake of its parentheses and pluses alone. -/
theorem found_iff_splits : (scan line 0 Marks.null).found = true ↔ Splits line := by
  obtain ⟨hfits, -⟩ := scan_line line
  rw [Marks.found_iff]
  constructor
  · rintro ⟨n, o, e, hn, ho, he, hlt⟩
    obtain ⟨x, y, hhead, hy, rfl⟩ := (hfits.beginName n).mp hn
    have hlast := (hfits.beginOffset o).mp ho
    obtain ⟨⟨u, v, hhead', -, rfl⟩, hplus⟩ := (hfits.endOffset e).mp he
    refine ⟨⟨x, y, hhead, hy, ?_⟩, ?_⟩
    · have hsplit : lineHead line = (x ++ ['(']) ++ y := by
        rw [hhead]
        simp
      rw [hsplit] at hlast
      exact hlast.mem_right (by simpa using hlt)
    · rw [hhead', List.take_left] at hplus
      obtain ⟨z, w, rfl⟩ := List.append_of_mem hplus
      exact ⟨z, w ++ ')' :: v, by rw [hhead']; simp, by simp⟩
  · rintro ⟨⟨x, y, hhead, hy, hplus⟩, u, v, hhead', hclose⟩
    obtain ⟨o, ho⟩ := exists_lastAt.mpr hplus
    obtain ⟨e, he⟩ := exists_lastAt.mpr hclose
    have hn : LastAt '(' (lineHead line) x.length := ⟨x, y, hhead, hy, rfl⟩
    have ho' : LastAt '+' (lineHead line) (x.length + (1 + o)) := by
      rw [hhead]
      exact (ho.append ['(']).append x
    have he' : LastAt ')' (lineHead line) (u.length + (1 + e)) := by
      rw [hhead']
      exact (he.append ['+']).append u
    refine ⟨x.length, _, _, (hfits.beginName _).mpr hn, (hfits.beginOffset _).mpr ho',
      (hfits.endOffset _).mpr ⟨he', ?_⟩, by omega⟩
    rw [hhead', Nat.add_comm 1 e, List.take_length_add_append]
    simp

/-! ## The writes -/

theorem cString_append {x : List Char} (hx : nul ∉ x) (y : List Char) : cString (x ++ nul :: y) = x :=
  takeWhile_ne hx y

theorem set_length_add (x y : List Char) (k : Nat) (c : Char) :
    (x ++ y).set (x.length + k) c = x ++ y.set k c := by
  rw [List.set_append_right _ _ (Nat.le_add_right _ _), Nat.add_sub_cancel_left]

namespace Parts

/-- The pointers to the delimiters. -/
def places (parts : Parts) : Marks where
  beginName := some parts.module_.length
  beginOffset := some (parts.module_.length + (parts.name.length + 1))
  endOffset := some (parts.module_.length + (parts.name.length + (parts.offset.length + 1) + 1))
  beginAddr := some (parts.module_.length + (parts.name.length + (parts.offset.length +
    (parts.gap.length + 1) + 1) + 1))
  endAddr := some (parts.module_.length + (parts.name.length + (parts.offset.length +
    (parts.gap.length + (parts.address.length + 1) + 1) + 1) + 1))

theorem lineHead_line (h : parts.Delimited) : lineHead parts.line =
    parts.module_ ++ '(' :: (parts.name ++ '+' :: (parts.offset ++ ')' :: (parts.gap ++ '[' ::
      parts.address))) := by
  have hline : parts.line = (parts.module_ ++ '(' :: (parts.name ++ '+' :: (parts.offset ++ ')' ::
      (parts.gap ++ '[' :: parts.address)))) ++ ']' :: parts.rest := by
    simp [line]
  have hhead := h.head
  rw [hline, lineHead]
  refine takeWhile_ne (fun hmem => ?_) _
  simp at hmem hhead
  tauto

theorem scan_line (h : parts.Delimited) : scan parts.line 0 Marks.null = parts.places := by
  obtain ⟨hfits, haddr⟩ := Robotd.scan_line parts.line
  rw [lineHead_line h] at hfits haddr
  have hname := h.name
  have hoffset := h.offset
  have hclose := h.close
  simp only [List.mem_append, not_or] at hname hoffset hclose
  have hn := (hfits.beginName _).mpr ⟨_, _, rfl, by simp [hname], rfl⟩
  have ho : LastAt '+' (parts.name ++ '+' :: (parts.offset ++ ')' :: (parts.gap ++ '[' ::
      parts.address))) parts.name.length := ⟨_, _, rfl, by simp [hoffset], rfl⟩
  have he : LastAt ')' (parts.offset ++ ')' :: (parts.gap ++ '[' :: parts.address))
      parts.offset.length := ⟨_, _, rfl, by simp [hclose], rfl⟩
  have ha : LastAt '[' (parts.gap ++ '[' :: parts.address) parts.gap.length :=
    ⟨_, _, rfl, h.addr, rfl⟩
  have ho' := (hfits.beginOffset _).mpr ((ho.cons '(').append _)
  have he' := (hfits.endOffset _).mpr ⟨(((he.cons '+').append _).cons '(').append _, by
    simp [List.take_length_add_append]⟩
  have ha' := (hfits.beginAddr _).mpr ((((((ha.cons ')').append _).cons '+').append _).cons '(').append _)
  rw [if_pos (by simp [line])] at haddr
  generalize scan parts.line 0 Marks.null = marks at hn ho' he' ha' haddr
  obtain ⟨beginName, beginOffset, endOffset, beginAddr, endAddr⟩ := marks
  obtain rfl := hn
  obtain rfl := ho'
  obtain rfl := he'
  obtain rfl := ha'
  obtain rfl := haddr
  simp [places]

theorem found_places (parts : Parts) : parts.places.found = true := by
  simp [places, Marks.found]

/-- A line with these parts is split at its delimiters, and printed from its parts. -/
theorem printLine_line (h : parts.Delimited) (hnul : nul ∉ parts.line) :
    printLine demangle parts.line = some (parts.message demangle) := by
  rw [printLine, scan_line h, if_pos parts.found_places]
  simp only [line, List.mem_append, List.mem_cons, not_or] at hnul
  have hset : ∀ (x y : List Char) (c : Char), (x ++ c :: y).set x.length nul = x ++ nul :: y :=
    fun x y c => set_length_add x (c :: y) 0 nul
  have hdrop : ∀ (x y : List Char) (k : Nat), (x ++ y).drop (x.length + k + 1) = y.drop (k + 1) :=
    fun x y k => List.drop_length_add_append (k + 1)
  have hafter : ∀ (x y : List Char) (c : Char), (x ++ c :: y).drop (x.length + 1) = y :=
    fun x y c => List.drop_length_add_append 1
  simp only [splitLine, terminate, places, line, Option.map_some, Option.bind_eq_bind,
    Option.bind_some, List.append_assoc, List.cons_append, set_length_add, List.set_cons_succ, hset,
    hdrop, hafter, List.drop_succ_cons]
  rw [cString_append hnul.1, cString_append hnul.2.2.1, cString_append hnul.2.2.2.2.1,
    cString_append hnul.2.2.2.2.2.2.2.2.1, message]
  simp

/-- The parts of a line are what lies between the pointers. -/
theorem between_places (parts : Parts) : (⟨parts.line.take parts.module_.length,
    (parts.line.take (parts.module_.length + (parts.name.length + 1))).drop (parts.module_.length + 1),
    (parts.line.take (parts.module_.length + (parts.name.length + (parts.offset.length + 1) + 1))).drop
      (parts.module_.length + (parts.name.length + 1) + 1),
    (parts.line.take (parts.module_.length + (parts.name.length + (parts.offset.length +
      (parts.gap.length + 1) + 1) + 1))).drop
        (parts.module_.length + (parts.name.length + (parts.offset.length + 1) + 1) + 1),
    (parts.line.take (parts.module_.length + (parts.name.length + (parts.offset.length +
      (parts.gap.length + (parts.address.length + 1) + 1) + 1) + 1))).drop
        (parts.module_.length + (parts.name.length + (parts.offset.length +
          (parts.gap.length + 1) + 1) + 1) + 1),
    parts.line.drop (parts.module_.length + (parts.name.length + (parts.offset.length +
      (parts.gap.length + (parts.address.length + 1) + 1) + 1) + 1) + 1)⟩ : Parts) = parts := by
  have htake : ∀ (x y : List Char) (k : Nat), (x ++ y).take (x.length + k) = x ++ y.take k :=
    fun x y k => List.take_length_add_append k
  have hdrop : ∀ (x y : List Char) (k : Nat), (x ++ y).drop (x.length + k + 1) = y.drop (k + 1) :=
    fun x y k => List.drop_length_add_append (k + 1)
  have hafter : ∀ (x y : List Char) (c : Char), (x ++ c :: y).drop (x.length + 1) = y :=
    fun x y c => List.drop_length_add_append 1
  simp only [line, htake, List.take_left, List.take_succ_cons, hdrop, hafter, List.drop_succ_cons]

end Parts

/-- Five pointers in order take the line apart. -/
theorem wellFormed_of_places {n o e a d : Nat}
    (hscan : scan line 0 Marks.null = ⟨some n, some o, some e, some a, some d⟩) (hno : n < o)
    (hoe : o < e) (hea : e < a) : WellFormed line := by
  obtain ⟨hfits, haddr⟩ := scan_line line
  rw [hscan] at hfits haddr
  have hclosed : ']' ∈ line := by
    by_contra hno
    rw [if_neg hno] at haddr
    cases haddr
  obtain ⟨rest, hline⟩ : ∃ rest, line = lineHead line ++ ']' :: rest := exists_eq_takeWhile_ne hclosed
  have hopen : ']' ∉ lineHead line := not_mem_takeWhile_ne ']' line
  generalize lineHead line = head at hfits hline hopen
  -- the delimiters from the last to the first, each in what lies before the one after it
  obtain ⟨x, address, rfl, haddress, rfl⟩ := (hfits.beginAddr a).mp rfl
  obtain ⟨hlast, hclose⟩ := (lastAt_append_left hea).mp ((hfits.endOffset e).mp rfl).1
  obtain ⟨y, gap, rfl, hgap, rfl⟩ := hlast
  have hplus := (hfits.beginOffset o).mp rfl
  rw [List.append_assoc, lastAt_append_left hoe] at hplus
  obtain ⟨⟨z, offset, rfl, hoffset, rfl⟩, hplus⟩ := hplus
  have hname := (hfits.beginName n).mp rfl
  rw [List.append_assoc, List.append_assoc, lastAt_append_left hno] at hname
  obtain ⟨⟨module_, name, rfl, hname, rfl⟩, hparen⟩ := hname
  refine ⟨⟨module_, name, offset, gap, address, rest⟩, ⟨?_, ?_, ?_, haddress, ?_⟩, ?_⟩
  · simp at hname hparen ⊢
    tauto
  · simp at hoffset hplus ⊢
    tauto
  · simp at hgap hclose ⊢
    tauto
  · simp at hopen ⊢
    tauto
  · rw [hline, Parts.line]
    simp

/-- A line that does not pass the test is printed as it is. -/
theorem printLine_of_not_splits (hsplits : ¬ Splits line) (hnul : nul ∉ line) :
    printLine demangle line = some line := by
  have hfound : ¬ (scan line 0 Marks.null).found = true := fun h => hsplits (found_iff_splits.mp h)
  rw [printLine, if_neg hfound, cString_append hnul]

/-- The test leaves the two pointers to the address, which may be null. -/
theorem splitLine_eq_none_iff {n o e : Nat} {addr end_ : Option Nat} {memory : List Char} :
    splitLine demangle ⟨some n, some o, some e, addr, end_⟩ memory = none ↔
      addr = none ∨ end_ = none := by
  cases addr <;> cases end_ <;> simp [splitLine, terminate]

/-- The handler writes through a null pointer exactly at the lines that it splits and that have no
`[` before the first `]`, or no `]`. -/
theorem printLine_eq_none_iff : printLine demangle line = none ↔
    Splits line ∧ ('[' ∉ lineHead line ∨ ']' ∉ line) := by
  obtain ⟨hfits, hend⟩ := scan_line line
  have haddr : (scan line 0 Marks.null).beginAddr = none ↔ '[' ∉ lineHead line := by
    rw [← exists_lastAt, not_exists, Option.eq_none_iff_forall_ne_some]
    exact forall_congr' fun p => not_congr (hfits.beginAddr p)
  have hbracket : (scan line 0 Marks.null).endAddr = none ↔ ']' ∉ line := by
    rw [hend]
    split <;> simp [*]
  rw [← haddr, ← hbracket, ← found_iff_splits, printLine]
  by_cases hfound : (scan line 0 Marks.null).found = true
  · obtain ⟨n, o, e, hn, ho, he, -⟩ := Marks.found_iff.mp hfound
    have hmarks : scan line 0 Marks.null = ⟨some n, some o, some e,
        (scan line 0 Marks.null).beginAddr, (scan line 0 Marks.null).endAddr⟩ := by
      rw [← hn, ← ho, ← he]
    rw [if_pos hfound, and_iff_right hfound, hmarks]
    exact splitLine_eq_none_iff
  · rw [if_neg hfound]
    exact iff_of_false nofun fun h => hfound h.1

/-- A line is parsed safely exactly when it is well formed, or the test lets it through whole. -/
theorem parse_safe_iff (demangle : List Char → Option (List Char)) (hnul : nul ∉ line) :
    ParsesSafely demangle line ↔ (Splits line → WellFormed line) := by
  constructor
  · intro hsafe hsplits
    obtain ⟨n, o, e, a, d, hscan, hno, hoe, hea, -⟩ := hsafe.split (found_iff_splits.mpr hsplits)
    exact wellFormed_of_places hscan hno hoe hea
  · intro hwell
    refine ⟨fun hfound => ?_, fun hfound => ?_⟩
    · obtain ⟨parts, hdelimited, rfl⟩ := hwell (found_iff_splits.mp hfound)
      refine ⟨_, _, _, _, _, Parts.scan_line hdelimited, ?_, ?_, ?_, ?_, ?_, ?_⟩
      · omega
      · omega
      · omega
      · omega
      · simp [Parts.line]
      · rw [Parts.between_places, Parts.printLine_line hdelimited hnul]
    · refine printLine_of_not_splits (fun hsplits => ?_) hnul
      exact Bool.false_ne_true (hfound.symm.trans (found_iff_splits.mpr hsplits))

/-- A line of the shipped program. -/
def usualLine : Parts where
  module_ := "./robot".toList
  name := "_ZN5robot6masterE".toList
  offset := "0x15c".toList
  gap := " ".toList
  address := "0x8048a6d".toList
  rest := []

theorem usual_line_parsed : ParsesSafely (fun _ => none) usualLine.line :=
  (parse_safe_iff (fun _ => none) (by decide)).mpr fun _ =>
    ⟨usualLine, ⟨by decide, by decide, by decide, by decide, by decide⟩, rfl⟩

/-- A line for a program in a directory `(a+b)]`. -/
def strayLine : List Char := "/srv/(a+b)]/robot(main+0x1c) [0x400b2c]".toList

/-- It is split before the address is found, through a null pointer. -/
theorem stray_line_not_parsed : ¬ ∀ demangle line, nul ∉ line → ParsesSafely demangle line := by
  intro hall
  have hscan : scan strayLine 0 Marks.null = ⟨some 5, some 7, some 9, none, some 10⟩ := by
    decide +kernel
  obtain ⟨n, o, e, a, d, hset, -⟩ := (hall (fun _ => none) strayLine (by decide +kernel)).split (by
    rw [hscan]
    decide)
  rw [hscan] at hset
  cases hset

end Robotd
