import Mathlib.Data.List.DropRight

/-! Splitting a list at blanks and at line ends: the words between blanks, the list without
the blanks at its edges, the lines of a text and the first separator. -/
namespace Splitting

variable {α : Type*} {blank : α → Bool} {xs ys : List α}

/-- The maximal nonempty runs without a blank. -/
def words (blank : α → Bool) (xs : List α) : List (List α) :=
  (xs.splitOnP blank).filter fun word => !word.isEmpty

def trimStart (blank : α → Bool) (xs : List α) : List α := xs.dropWhile blank

def trimEnd (blank : α → Bool) (xs : List α) : List α := xs.rdropWhile blank

def trim (blank : α → Bool) (xs : List α) : List α := trimEnd blank (trimStart blank xs)

def Trimmed (blank : α → Bool) (xs : List α) : Prop :=
  (∀ a ∈ xs.head?, blank a = false) ∧ ∀ a ∈ xs.getLast?, blank a = false

instance : Decidable (Trimmed blank xs) := inferInstanceAs (Decidable (_ ∧ _))

theorem words_append_cons {sep : α} (hsep : blank sep = true) :
    words blank (xs ++ sep :: ys) = words blank xs ++ words blank ys := by
  simp [words, List.splitOnP_append_cons xs ys hsep]

theorem words_of_no_blank (hne : xs ≠ []) (h : ∀ a ∈ xs, blank a = false) :
    words blank xs = [xs] := by
  simp [words, List.splitOnP_eq_singleton h, hne]

theorem trim_within (blank : α → Bool) (xs : List α) : trim blank xs <:+: xs := by
  obtain ⟨tail, htail⟩ := List.rdropWhile_prefix blank (trimStart blank xs)
  obtain ⟨front, hfront⟩ : xs.dropWhile blank <:+ xs := List.dropWhile_suffix blank
  exact ⟨front, tail, by rw [List.append_assoc, trim, trimEnd, htail, trimStart, hfront]⟩

theorem trim_start_eq_self : trimStart blank xs = xs ↔ ∀ a ∈ xs.head?, blank a = false := by
  cases xs with
  | nil => simp [trimStart]
  | cons a xs => simp [trimStart, List.dropWhile_eq_self_iff]

theorem trim_end_eq_self : trimEnd blank xs = xs ↔ ∀ a ∈ xs.getLast?, blank a = false := by
  rw [trimEnd, List.rdropWhile_eq_self_iff]
  constructor
  · intro h a ha
    obtain ⟨hne, rfl⟩ := List.mem_getLast?_eq_getLast ha
    exact Bool.eq_false_iff.mpr (h hne)
  · intro h hne
    exact Bool.eq_false_iff.mp (h _ (List.getLast_mem_getLast? hne))

theorem trim_eq_self : trim blank xs = xs ↔ Trimmed blank xs := by
  constructor
  · intro h
    -- Both cuts only shorten, so neither can have cut anything.
    have hend : (trim blank xs).length ≤ (trimStart blank xs).length :=
      (List.rdropWhile_prefix blank (trimStart blank xs)).length_le
    have hstart : trimStart blank xs = xs := by
      apply (List.dropWhile_suffix blank).eq_of_length_le
      rw [h] at hend
      exact hend
    rw [trim, hstart] at h
    exact ⟨trim_start_eq_self.mp hstart, trim_end_eq_self.mp h⟩
  · rintro ⟨hhead, hlast⟩
    rw [trim, trim_start_eq_self.mpr hhead, trim_end_eq_self.mpr hlast]

theorem trimmed_of_no_blank (h : ∀ a ∈ xs, blank a = false) : Trimmed blank xs := by
  constructor
  · intro a ha
    exact h a (List.mem_of_mem_head? ha)
  · intro a ha
    exact h a (List.mem_of_mem_getLast? ha)

theorem trim_cons_blank {a : α} (ha : blank a = true) : trim blank (a :: xs) = trim blank xs := by
  simp [trim, trimStart, List.dropWhile_cons_of_pos ha]

/-- What stands before and after is separated by a blank, or empty. -/
def Delimited (blank : α → Bool) (before after : List α) : Prop :=
  (∀ a ∈ before.getLast?, blank a = true) ∧ ∀ a ∈ after.head?, blank a = true

theorem Delimited.nested {before after inner outer : List α} (h : Delimited blank before after)
    (k : Delimited blank inner outer) : Delimited blank (before ++ inner) (outer ++ after) := by
  constructor
  · intro a ha
    rw [List.getLast?_append] at ha
    cases hinner : inner.getLast? with
    | some last =>
      rw [hinner, Option.some_or] at ha
      exact k.1 a (hinner ▸ ha)
    | none =>
      rw [hinner, Option.none_or] at ha
      exact h.1 a ha
  · intro a ha
    cases outer with
    | nil => exact h.2 a ha
    | cons first outer => exact k.2 a ha

theorem mem_split_of_delimited {before word after : List α} (h : Delimited blank before after)
    (hword : ∀ a ∈ word, blank a = false) :
    word ∈ (before ++ (word ++ after)).splitOnP blank := by
  have hafter : word ∈ (word ++ after).splitOnP blank := by
    cases after with
    | nil => simp [List.splitOnP_eq_singleton hword]
    | cons sep after =>
      rw [List.splitOnP_append_cons_of_forall_mem hword sep (h.2 sep rfl)]
      simp
  rcases List.eq_nil_or_concat before with rfl | ⟨before, sep, rfl⟩
  · exact hafter
  · have hsep : blank sep = true := h.1 sep (by simp)
    rw [List.concat_eq_append, List.append_assoc, List.singleton_append,
      List.splitOnP_append_cons before (word ++ after) hsep]
    exact List.mem_append_right _ hafter

section Separators

variable [DecidableEq α]

def splitOnce (sep : α) : List α → Option (List α × List α)
  | [] => none
  | a :: xs =>
    if a = sep then some ([], xs) else (splitOnce sep xs).map fun parts => (a :: parts.1, parts.2)

theorem split_once_append {sep : α} (h : sep ∉ xs) :
    splitOnce sep (xs ++ sep :: ys) = some (xs, ys) := by
  induction xs with
  | nil => simp [splitOnce]
  | cons a xs ih =>
    rw [List.mem_cons, not_or] at h
    simp [splitOnce, Ne.symm h.1, ih h.2]

theorem split_once_none {sep : α} (h : sep ∉ xs) : splitOnce sep xs = none := by
  induction xs with
  | nil => rfl
  | cons a xs ih =>
    rw [List.mem_cons, not_or] at h
    simp [splitOnce, Ne.symm h.1, ih h.2]

theorem split_once_iff {sep : α} {left right : List α} :
    splitOnce sep xs = some (left, right) ↔ xs = left ++ sep :: right ∧ sep ∉ left := by
  constructor
  · intro h
    induction xs generalizing left with
    | nil => cases h
    | cons a xs ih =>
      rw [splitOnce] at h
      by_cases ha : a = sep
      · rw [if_pos ha] at h
        cases h
        exact ⟨by rw [ha, List.nil_append], List.not_mem_nil⟩
      · rw [if_neg ha] at h
        obtain ⟨parts, hparts, heq⟩ := Option.map_eq_some_iff.mp h
        cases heq
        obtain ⟨hxs, hfree⟩ := ih hparts
        exact ⟨by rw [List.cons_append, ← hxs], List.not_mem_cons_of_ne_of_not_mem (Ne.symm ha) hfree⟩
  · rintro ⟨rfl, hfree⟩
    exact split_once_append hfree

/-- A line that was ended loses one carriage return. -/
def stripReturn (carriage : α) (line : List α) : List α :=
  if line.getLast? = some carriage then line.dropLast else line

/-- The lines of a text: the rest after the last line end is a line only if it is nonempty, and
keeps its carriage return. -/
def lines (carriage newline : α) (text : List α) : List (List α) :=
  let pieces := text.splitOnP (· == newline)
  pieces.dropLast.map (stripReturn carriage) ++ pieces.getLast?.toList.filter fun line =>
    !line.isEmpty

theorem lines_nil {carriage newline : α} : lines carriage newline [] = [] := by
  simp [lines]

theorem lines_append {carriage newline : α} {line : List α} (h : newline ∉ line)
    (hne : newline ≠ carriage) (rest : List α) :
    lines carriage newline (line ++ carriage :: newline :: rest) =
      line :: lines carriage newline rest := by
  have hline : ∀ a ∈ line ++ [carriage], (a == newline) = false := by
    intro a ha
    rcases List.mem_append.mp ha with ha | ha
    · exact beq_eq_false_iff_ne.mpr fun heq => h (heq ▸ ha)
    · rw [List.mem_singleton.mp ha]
      exact beq_eq_false_iff_ne.mpr hne.symm
  have hpieces : (line ++ carriage :: newline :: rest).splitOnP (· == newline) =
      (line ++ [carriage]) :: rest.splitOnP (· == newline) := by
    have := List.splitOnP_append_cons_of_forall_mem hline newline (by simp) rest
    simpa using this
  have hrest : rest.splitOnP (· == newline) ≠ [] := List.splitOnP_ne_nil _ _
  simp only [lines, hpieces]
  rw [List.dropLast_cons_of_ne_nil hrest, List.getLast?_cons_of_ne_nil hrest]
  simp [stripReturn]

end Separators

/-- The Unicode property `White_Space`. -/
def isWhitespace (c : Char) : Bool :=
  let n := c.toNat
  decide (9 ≤ n ∧ n ≤ 13) || n == 0x20 || n == 0x85 || n == 0xa0 || n == 0x1680 ||
    decide (0x2000 ≤ n ∧ n ≤ 0x200a) || n == 0x2028 || n == 0x2029 || n == 0x202f ||
    n == 0x205f || n == 0x3000

theorem is_whitespace_space : isWhitespace ' ' = true := by decide

theorem not_whitespace_of_graphic {c : Char} (hlow : 0x21 ≤ c.toNat) (hhigh : c.toNat ≤ 0x7e) :
    isWhitespace c = false := by
  simp only [isWhitespace, Bool.or_eq_false_iff, decide_eq_false_iff_not, beq_eq_false_iff_ne]
  omega

end Splitting
