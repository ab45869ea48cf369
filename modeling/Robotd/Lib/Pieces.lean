import Robotd.Lib.Delimiter

/-!
# Texts that arrive in pieces

A parser takes something off the front of a text and leaves the rest. It is `Settled` by a text when
more text changes nothing of what it takes, so that it may run before the rest has arrived. Settled
parsers compose (`Settled.bind`); what ends at a delimiter is settled once the delimiter is there.
-/

namespace Lib

variable {α β γ : Type}

/-- What is taken, with more text left over. -/
def leaving (y : List α) (taken : β × List α) : β × List α := (taken.1, taken.2 ++ y)

/-- More text is only left over. -/
def Settled (p : List α → Option (β × List α)) (x : List α) : Prop :=
  ∀ y, p (x ++ y) = (p x).map (leaving y)

variable {p : List α → Option (β × List α)} {x : List α}

theorem Settled.append (h : Settled p x) (y : List α) : Settled p (x ++ y) := by
  intro z
  rw [List.append_assoc, h, h y, Option.map_map]
  cases p x with
  | none => rfl
  | some taken => simp [leaving]

/-- What is taken from a text that settles a parser is what is taken from any longer one. -/
theorem Settled.some_append {b : β} {rest : List α} (h : Settled p x) (htaken : p x = some (b, rest))
    (y : List α) : p (x ++ y) = some (b, rest ++ y) := by
  rw [h, htaken, Option.map_some, leaving]

theorem Settled.none_append (h : Settled p x) (hnone : p x = none) (y : List α) :
    p (x ++ y) = none := by
  rw [h, hnone, Option.map_none]

/-- One parser and then another, which may depend on what the first has taken. -/
theorem Settled.bind {q : β → List α → Option (γ × List α)} (h : Settled p x)
    (hnext : ∀ b rest, p x = some (b, rest) → Settled (q b) rest) :
    Settled (fun text => (p text).bind fun taken => q taken.1 taken.2) x := by
  intro y
  dsimp only
  cases htaken : p x with
  | none => rw [h.none_append htaken, Option.bind_none, Option.map_none]
  | some taken =>
      rw [h.some_append htaken, Option.bind_some, Option.bind_some]
      exact hnext taken.1 taken.2 htaken y

/-! ## Words -/

section Span

variable {f : α → Bool}

theorem takeWhile_append_of_mem (h : ∃ a ∈ x, f a = false) (y : List α) :
    (x ++ y).takeWhile f = x.takeWhile f := by
  obtain ⟨a, ha, hf⟩ := h
  rw [List.takeWhile_append, if_neg]
  intro hlength
  have hall : x.takeWhile f = x := (List.takeWhile_prefix f).eq_of_length hlength
  have htrue : f a = true := List.mem_takeWhile_imp (hall ▸ ha)
  rw [hf] at htrue
  cases htrue

theorem dropWhile_append_of_mem (h : ∃ a ∈ x, f a = false) (y : List α) :
    (x ++ y).dropWhile f = x.dropWhile f ++ y := by
  obtain ⟨a, ha, hf⟩ := h
  rw [List.dropWhile_append, if_neg]
  rw [List.isEmpty_iff, List.dropWhile_eq_nil_iff]
  intro hall
  have htrue : f a = true := hall a ha
  rw [hf] at htrue
  cases htrue

end Span

/-! ## Delimiters -/

section Delimiter

variable [DecidableEq α] {sep l y : List α}

theorem eq_append_of_cut (h : cut sep l = some (x, y)) : l = x ++ sep ++ y := by
  induction l generalizing x with
  | nil => cases h
  | cons a l ih =>
      rw [cut] at h
      split at h
      · rename_i hprefix
        cases h
        rw [List.nil_append]
        exact (List.prefix_iff_eq_append.mp hprefix).symm
      · obtain ⟨⟨before, after⟩, hcut, htaken⟩ := Option.map_eq_some_iff.mp h
        cases htaken
        rw [ih hcut]
        rfl

theorem isSome_cut_iff (hne : sep ≠ []) : (cut sep l).isSome = true ↔ sep <:+: l := by
  induction l with
  | nil =>
      rw [cut, List.infix_nil]
      exact iff_of_false (by simp) hne
  | cons a l ih =>
      rw [cut, List.infix_cons_iff, ← ih]
      split
      · rename_i hprefix
        exact iff_of_true rfl (.inl hprefix)
      · rename_i hprefix
        rw [Option.isSome_map]
        exact (or_iff_right hprefix).symm

theorem settled_cut (hne : sep ≠ []) (h : sep <:+: x) : Settled (cut sep) x := by
  intro y
  induction x with
  | nil => exact absurd (List.infix_nil.mp h) hne
  | cons a x ih =>
      rw [List.cons_append, cut, cut]
      by_cases hprefix : sep <+: a :: x
      · have hlonger : sep <+: a :: (x ++ y) := hprefix.trans (List.prefix_append (a :: x) y)
        rw [if_pos hlonger, if_pos hprefix, Option.map_some, ← List.cons_append,
          List.drop_append_of_le_length hprefix.length_le, leaving]
      · have hinner : sep <:+: x := (List.infix_cons_iff.mp h).resolve_left hprefix
        have hlonger : ¬ sep <+: a :: (x ++ y) := by
          intro hlong
          refine hprefix (List.prefix_of_prefix_length_le hlong (List.prefix_append (a :: x) y) ?_)
          exact hinner.length_le.trans (Nat.le_succ _)
        rw [if_neg hlonger, if_neg hprefix, ih hinner, Option.map_map, Option.map_map]
        rfl

/-- The separator is found where it was put, if what lies before it does not have its last
element. -/
theorem cut_append_last {b : α} {s z : List α} (hs : b ∉ s) (hz : b ∉ z) (y : List α) :
    cut (s ++ [b]) (z ++ (s ++ [b]) ++ y) = some (z, y) := by
  induction z with
  | nil =>
      obtain ⟨a, l, hl⟩ := List.exists_cons_of_ne_nil (l := s ++ [b]) (by simp)
      have hprefix : a :: l <+: a :: (l ++ y) := List.prefix_append (a :: l) y
      rw [List.nil_append, hl, List.cons_append, cut, if_pos hprefix, ← List.cons_append, List.drop_left]
  | cons a z ih =>
      have hprefix : ¬ s ++ [b] <+: a :: (z ++ (s ++ [b]) ++ y) := by
        intro hprefix
        -- the last element would stand before the separator
        have hshort : s ++ [b] <+: a :: (z ++ s) := by
          refine List.prefix_of_prefix_length_le hprefix ⟨b :: y, by simp⟩ ?_
          simp
        have hmem : b ∈ a :: (z ++ s) := hshort.subset (by simp)
        rcases List.mem_append.mp (show b ∈ (a :: z) ++ s from hmem) with hmem | hmem
        · exact hz hmem
        · exact hs hmem
      rw [List.cons_append, List.cons_append, cut, if_neg hprefix,
        ih fun hmem => hz (List.mem_cons_of_mem a hmem), Option.map_some]

/-- A record that stops the others is among those that the text has. -/
def Stops (d : α) (stop x : List α) : Prop :=
  stop ++ [d] <+: x ∨ d :: (stop ++ [d]) <:+: x

omit [DecidableEq α] in
theorem Stops.mem {d : α} {stop : List α} (h : Stops d stop x) : d ∈ x := by
  rcases h with hprefix | hinfix
  · exact hprefix.subset (by simp)
  · exact hinfix.subset (by simp)

/-- The record that stops the others is the first one, or it is after that. -/
theorem Stops.tail {d : α} {stop record rest : List α} (hstop : d ∉ stop) (hrecord : d ∉ record)
    (h : Stops d stop (record ++ d :: rest)) : record = stop ∨ Stops d stop rest := by
  rcases h with ⟨y, hy⟩ | ⟨before, y, hy⟩
  · left
    rw [List.append_assoc, List.singleton_append] at hy
    have htake := congrArg (List.takeWhile (· ≠ d)) hy
    rw [takeWhile_ne hstop, takeWhile_ne hrecord] at htake
    exact htake.symm
  · right
    rw [List.append_assoc, List.cons_append, List.append_assoc, List.singleton_append] at hy
    rcases List.append_eq_append_iff.mp hy with ⟨w, hw, hrest⟩ | ⟨w, hw, hrest⟩
    · cases w with
      | nil =>
          rw [List.nil_append] at hrest
          refine .inl ⟨y, ?_⟩
          rw [List.append_assoc, List.singleton_append]
          exact (List.cons.inj hrest).2
      | cons c w =>
          obtain ⟨rfl, -⟩ := List.cons.inj hrest
          exact absurd (hw ▸ List.mem_append_right _ List.mem_cons_self) hrecord
    · cases w with
      | nil =>
          rw [List.nil_append] at hrest
          refine .inl ⟨y, ?_⟩
          rw [List.append_assoc, List.singleton_append]
          exact (List.cons.inj hrest).2.symm
      | cons c w =>
          refine .inr ⟨w, y, ?_⟩
          rw [List.append_assoc, List.cons_append, List.append_assoc, List.singleton_append]
          exact (List.cons.inj hrest).2.symm

theorem recordsUntil_append {d : α} {stop : List α} (hstop : d ∉ stop) (h : Stops d stop x)
    (y : List α) : recordsUntil d stop (x ++ y) =
      ((recordsUntil d stop x).1, (recordsUntil d stop x).2 ++ y) := by
  induction hn : x.length using Nat.strong_induction_on generalizing x with
  | _ n ih =>
      subst hn
      obtain ⟨record, rest, rfl, hrecord⟩ := List.eq_append_cons_of_mem h.mem
      rw [List.append_assoc, List.cons_append, recordsUntil_cons hrecord, recordsUntil_cons hrecord]
      by_cases hsame : record = stop
      · rw [if_pos hsame, if_pos hsame]
      · have hrest := (h.tail hstop hrecord).resolve_left hsame
        rw [if_neg hsame, if_neg hsame, ih rest.length (by simp; omega) hrest rfl]

/-- No record has the delimiter. -/
theorem not_mem_record {d : α} {stop record : List α} (h : record ∈ (recordsUntil d stop l).1) :
    d ∉ record := by
  induction hn : l.length using Nat.strong_induction_on generalizing l with
  | _ n ih =>
      subst hn
      rw [recordsUntil] at h
      split at h
      · cases h
      · rename_i hne
        dsimp only at h
        split at h
        · cases h
        · rcases List.mem_cons.mp h with rfl | hlater
          · exact not_mem_takeWhile_ne d l
          · refine ih _ ?_ hlater rfl
            have hpos := List.length_pos_of_ne_nil hne
            have hdrop := (List.dropWhile_sublist (l := l) fun a => decide (a ≠ d)).length_le
            simp only [List.length_tail]
            omega

end Delimiter

end Lib
