import Mathlib

/-!
# Delimiters in lists

Where an element occurs for the last time (`LastAt`), and how a list is cut at the first occurrence
of a separator (`cut`) or into records that end with a delimiter (`recordsUntil`). What was joined
with a separator that does not occur in it is taken apart again by `cut_append` and
`recordsUntil_flatMap`.
-/

namespace Lib

variable {α : Type}

/-! ## The last occurrence -/

/-- The element occurs at this position, and not after it. -/
def LastAt (a : α) (l : List α) (p : Nat) : Prop := ∃ x y, l = x ++ a :: y ∧ a ∉ y ∧ x.length = p

section LastAt

variable {a b : α} {l x y : List α} {p q : Nat}

theorem LastAt.getElem? (h : LastAt a l p) : l[p]? = some a := by
  obtain ⟨x, y, rfl, -, rfl⟩ := h
  simp

theorem LastAt.lt_length (h : LastAt a l p) : p < l.length := by
  obtain ⟨x, y, rfl, -, rfl⟩ := h
  simp

/-- The last element is the last occurrence of itself, -/
theorem lastAt_concat_self : LastAt a (l ++ [a]) p ↔ p = l.length := by
  constructor
  · rintro ⟨x, y, h, hy, rfl⟩
    rcases List.eq_nil_or_concat y with rfl | ⟨y, c, rfl⟩
    · exact congrArg List.length (List.append_inj' h rfl).1.symm
    · have hsplit : l ++ [a] = (x ++ a :: y) ++ [c] := by
        rw [h]
        simp
      obtain ⟨-, hc⟩ := List.append_inj' hsplit rfl
      obtain rfl := (List.cons.inj hc).1
      exact absurd hy (by simp)
  · rintro rfl
    exact ⟨l, [], rfl, List.not_mem_nil, rfl⟩

/-- and of no other. -/
theorem lastAt_concat_ne (hb : b ≠ a) : LastAt a (l ++ [b]) p ↔ LastAt a l p := by
  constructor
  · rintro ⟨x, y, h, hy, rfl⟩
    rcases List.eq_nil_or_concat y with rfl | ⟨y, c, rfl⟩
    · exact absurd (List.cons.inj (List.append_inj' h rfl).2).1 hb
    · have hsplit : l ++ [b] = (x ++ a :: y) ++ [c] := by
        rw [h]
        simp
      obtain ⟨rfl, -⟩ := List.append_inj' hsplit rfl
      exact ⟨x, y, rfl, fun hmem => hy (by simp [hmem]), rfl⟩
  · rintro ⟨x, y, rfl, hy, hp⟩
    refine ⟨x, y ++ [b], by simp, fun hmem => ?_, hp⟩
    rcases List.mem_append.mp hmem with hmem | hmem
    · exact hy hmem
    · exact hb (List.mem_singleton.mp hmem).symm

theorem exists_lastAt : (∃ p, LastAt a l p) ↔ a ∈ l := by
  constructor
  · rintro ⟨p, h⟩
    exact List.mem_of_getElem? h.getElem?
  · intro h
    induction l using List.reverseRecOn with
    | nil => cases h
    | append_singleton l b ih =>
        by_cases hb : b = a
        · subst hb
          exact ⟨l.length, lastAt_concat_self.mpr rfl⟩
        · have hmem : a ∈ l := by
            rcases List.mem_append.mp h with hmem | hmem
            · exact hmem
            · exact absurd (List.mem_singleton.mp hmem).symm hb
          obtain ⟨p, hp⟩ := ih hmem
          exact ⟨p, (lastAt_concat_ne hb).mpr hp⟩

theorem LastAt.append (h : LastAt a y p) (x : List α) : LastAt a (x ++ y) (x.length + p) := by
  obtain ⟨u, v, rfl, hv, rfl⟩ := h
  exact ⟨x ++ u, v, by simp, hv, by simp⟩

theorem LastAt.cons (h : LastAt a l p) (b : α) : LastAt a (b :: l) (p + 1) := by
  obtain ⟨u, v, rfl, hv, rfl⟩ := h
  exact ⟨b :: u, v, rfl, hv, rfl⟩

/-- An occurrence in the first part is the last one when there is none in the second. -/
theorem lastAt_append_left (hp : p < x.length) : LastAt a (x ++ y) p ↔ LastAt a x p ∧ a ∉ y := by
  constructor
  · rintro ⟨u, v, h, hv, rfl⟩
    rcases List.append_eq_append_iff.mp h with ⟨w, rfl, hw⟩ | ⟨w, rfl, hw⟩
    · rw [List.length_append] at hp
      omega
    · cases w with
      | nil => simp at hp
      | cons c w =>
          obtain ⟨rfl, rfl⟩ := List.cons.inj hw
          have hnot : a ∉ w ∧ a ∉ y := by simpa using hv
          exact ⟨⟨u, w, rfl, hnot.1, rfl⟩, hnot.2⟩
  · rintro ⟨⟨u, v, rfl, hv, rfl⟩, hy⟩
    exact ⟨u, v ++ y, by simp, by simp [hv, hy], rfl⟩

/-- A last occurrence that is not in the first part is in the second. -/
theorem LastAt.mem_right (h : LastAt a (x ++ y) p) (hp : x.length ≤ p) : a ∈ y := by
  have hget := h.getElem?
  rw [List.getElem?_append_right hp] at hget
  exact List.mem_of_getElem? hget

end LastAt

/-! ## The first occurrence -/

section First

variable [DecidableEq α] {a : α} {x : List α}

theorem takeWhile_ne (hx : a ∉ x) (y : List α) : (x ++ a :: y).takeWhile (· ≠ a) = x := by
  rw [List.takeWhile_append_of_pos]
  · simp
  · intro b hb
    simpa using fun heq : b = a => hx (heq ▸ hb)

theorem dropWhile_ne (hx : a ∉ x) (y : List α) : (x ++ a :: y).dropWhile (· ≠ a) = a :: y := by
  rw [List.dropWhile_append_of_pos]
  · simp
  · intro b hb
    simpa using fun heq : b = a => hx (heq ▸ hb)

theorem not_mem_takeWhile_ne (a : α) (l : List α) : a ∉ l.takeWhile (· ≠ a) := by
  intro hmem
  simpa using List.mem_takeWhile_imp hmem

/-- A list with the element is what lies before its first occurrence, the element and a rest. -/
theorem exists_eq_takeWhile_ne {l : List α} (h : a ∈ l) : ∃ y, l = l.takeWhile (· ≠ a) ++ a :: y := by
  obtain ⟨x, y, hl, hx⟩ := List.eq_append_cons_of_mem h
  refine ⟨y, ?_⟩
  rw [hl, takeWhile_ne hx]

end First

/-! ## Cutting -/

section Cut

variable [DecidableEq α]

/-- What lies before the first occurrence of a separator, and what lies after it. -/
def cut (sep : List α) : List α → Option (List α × List α)
  | [] => none
  | a :: l =>
      if sep <+: a :: l then some ([], (a :: l).drop sep.length)
      else (cut sep l).map fun (x, y) => (a :: x, y)

/-- The separator is found where it was put, if what lies before it does not have its first
element. -/
theorem cut_append {b : α} {sep x : List α} (hx : b ∉ x) (y : List α) :
    cut (b :: sep) (x ++ b :: sep ++ y) = some (x, y) := by
  induction x with
  | nil =>
      have hprefix : b :: sep <+: b :: (sep ++ y) := List.prefix_append (b :: sep) y
      rw [List.nil_append, List.cons_append, cut, if_pos hprefix]
      simp
  | cons a x ih =>
      have hne : b ≠ a := fun heq => hx (heq ▸ List.mem_cons_self)
      have hprefix : ¬ b :: sep <+: a :: (x ++ b :: sep ++ y) := fun h =>
        hne (List.cons_prefix_cons.mp h).1
      rw [List.cons_append, List.cons_append, cut, if_neg hprefix,
        ih fun hmem => hx (List.mem_cons_of_mem a hmem), Option.map_some]

/-- The records up to the one that stops them, and what lies after it. Each record ends at the
delimiter, or with the list. -/
def recordsUntil (d : α) (stop : List α) (l : List α) : List (List α) × List α :=
  if l = [] then
    ([], [])
  else
    let record := l.takeWhile (· ≠ d)
    let rest := (l.dropWhile (· ≠ d)).tail
    if record = stop then
      ([], rest)
    else
      let (records, rest) := recordsUntil d stop rest
      (record :: records, rest)
termination_by l.length
decreasing_by
  have hpos := List.length_pos_of_ne_nil ‹l ≠ []›
  have hdrop := (List.dropWhile_sublist (l := l) fun a => decide (a ≠ d)).length_le
  simp only [List.length_tail]
  omega

/-- One record, and then the others. -/
theorem recordsUntil_cons {d : α} {stop x : List α} (hx : d ∉ x) (y : List α) :
    recordsUntil d stop (x ++ d :: y) =
      if x = stop then ([], y) else (x :: (recordsUntil d stop y).1, (recordsUntil d stop y).2) := by
  rw [recordsUntil, if_neg (by simp)]
  simp only [takeWhile_ne hx y, dropWhile_ne hx y, List.tail_cons]

/-- Records that were each ended with the delimiter are found again, up to the one that stops
them. -/
theorem recordsUntil_flatMap {d : α} {stop : List α} {records : List (List α)} (hstop : d ∉ stop)
    (hrecords : ∀ x ∈ records, d ∉ x ∧ x ≠ stop) (rest : List α) :
    recordsUntil d stop (records.flatMap (· ++ [d]) ++ (stop ++ d :: rest)) = (records, rest) := by
  induction records with
  | nil =>
      rw [List.flatMap_nil, List.nil_append, recordsUntil_cons hstop, if_pos rfl]
  | cons x records ih =>
      obtain ⟨hx, hne⟩ := hrecords x List.mem_cons_self
      rw [List.flatMap_cons, List.append_assoc, List.append_assoc, List.singleton_append,
        recordsUntil_cons hx, if_neg hne, ih fun z hz => hrecords z (List.mem_cons_of_mem x hz)]

end Cut

end Lib
