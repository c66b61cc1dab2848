import Mathlib.Data.List.Basic
import Mathlib.Data.List.Sublists

/-! Lines of a text, cut where Python cuts them and with their terminators, and the translation of
carriage returns that reading a text file makes. -/
namespace TextLines

abbrev Text := List Char

/-- The characters `str.splitlines` cuts after. -/
def isBoundary (c : Char) : Bool :=
  ['\n', '\r', '\x0b', '\x0c', '\x1c', '\x1d', '\x1e', '\u0085', '\u2028', '\u2029'].contains c

def push (c : Char) : List Text → List Text
  | [] => [[c]]
  | line :: lines => (c :: line) :: lines

/-- `splitlines(keepends=True)`; a carriage return and a newline are one terminator. -/
def splitlines : Text → List Text
  | [] => []
  | c :: rest =>
    if isBoundary c ∧ ¬ (c = '\r' ∧ rest.head? = some '\n') then [c] :: splitlines rest
    else push c (splitlines rest)

/-- The universal newlines of a text file: each of the three newlines is read as one character. -/
def universal : Text → Text
  | [] => []
  | c :: rest =>
    if c = '\r' then
      if rest.head? = some '\n' then universal rest else '\n' :: universal rest
    else c :: universal rest

theorem boundary_return : isBoundary '\r' = true := by decide

theorem boundary_newline : isBoundary '\n' = true := by decide

theorem push_flatten (c : Char) (lines : List Text) : (push c lines).flatten = c :: lines.flatten := by
  cases lines <;> simp [push]

@[simp] theorem splitlines_flatten (text : Text) : (splitlines text).flatten = text := by
  induction text with
  | nil => rfl
  | cons c rest ih =>
    rw [splitlines]
    split
    · simp [ih]
    · rw [push_flatten, ih]

theorem splitlines_eq_nil {text : Text} : splitlines text = [] ↔ text = [] := by
  constructor
  · intro h
    rw [← splitlines_flatten text, h, List.flatten_nil]
  · rintro rfl
    rfl

theorem splitlines_append (before after : Text) :
    splitlines (before ++ '\n' :: after) = splitlines (before ++ ['\n']) ++ splitlines after := by
  induction before with
  | nil => simp [splitlines, boundary_newline]
  | cons c rest ih =>
    have hhead : (rest ++ '\n' :: after).head? = (rest ++ ['\n']).head? := by
      cases rest <;> rfl
    have hne : splitlines (rest ++ ['\n']) ≠ [] := by
      rw [ne_eq, splitlines_eq_nil]
      exact List.append_ne_nil_of_right_ne_nil _ (List.cons_ne_nil _ _)
    simp only [List.cons_append, splitlines, hhead, ih]
    split
    · rfl
    · obtain ⟨line, lines, hlines⟩ := List.exists_cons_of_ne_nil hne
      rw [hlines]
      rfl

theorem universal_no_return (text : Text) : '\r' ∉ universal text := by
  induction text with
  | nil => simp [universal]
  | cons c rest ih =>
    rw [universal]
    split
    · split
      · exact ih
      · exact fun h => (List.mem_cons.mp h).elim (by decide) ih
    · next hne => exact fun h => (List.mem_cons.mp h).elim (fun heq => hne heq.symm) ih

theorem universal_of_no_return {text : Text} (h : '\r' ∉ text) : universal text = text := by
  induction text with
  | nil => rfl
  | cons c rest ih =>
    rw [List.mem_cons, not_or] at h
    rw [universal, if_neg (Ne.symm h.1), ih h.2]

theorem splitlines_universal (text : Text) :
    splitlines (universal text) = (splitlines text).map universal := by
  induction text with
  | nil => rfl
  | cons c rest ih =>
    by_cases hreturn : c = '\r'
    · subst hreturn
      by_cases hnext : rest.head? = some '\n'
      · rw [universal, if_pos rfl, if_pos hnext, ih, splitlines, if_neg (by simp [hnext])]
        obtain ⟨rest, rfl⟩ : ∃ tail, rest = '\n' :: tail := by
          cases rest with
          | nil => cases hnext
          | cons d tail => exact ⟨tail, by cases hnext; rfl⟩
        simp [splitlines, boundary_newline, push, universal]
      · rw [universal, if_pos rfl, if_neg hnext, splitlines, splitlines, ih,
          if_pos (by simp [boundary_newline]), if_pos (by simp [boundary_return, hnext])]
        rfl
    · rw [universal, if_neg hreturn, splitlines, splitlines, ih]
      by_cases hboundary : isBoundary c = true
      · rw [if_pos (by simp [hboundary, hreturn]), if_pos (by simp [hboundary, hreturn])]
        simp [universal, hreturn]
      · rw [if_neg (by simp [hboundary]), if_neg (by simp [hboundary])]
        cases splitlines rest with
        | nil => simp [push, universal, hreturn]
        | cons line lines => simp [push, universal, hreturn]

/-- Every line but the last one ends where the text is cut. -/
theorem splitlines_terminated {text line : Text} (h : line ∈ (splitlines text).dropLast) :
    ∃ init c, line = init ++ [c] ∧ isBoundary c = true := by
  induction text generalizing line with
  | nil => cases h
  | cons c rest ih =>
    rw [splitlines] at h
    split at h
    · next hcut =>
      cases hrest : splitlines rest with
      | nil =>
        rw [hrest] at h
        cases h
      | cons next lines =>
        rw [hrest, List.dropLast_cons_cons, ← hrest] at h
        rcases List.mem_cons.mp h with rfl | h
        · exact ⟨[], c, rfl, hcut.1⟩
        · exact ih h
    · cases hrest : splitlines rest with
      | nil =>
        rw [hrest] at h
        cases h
      | cons first lines =>
        rw [hrest] at h ih
        cases lines with
        | nil => cases h
        | cons next lines =>
          rw [push, List.dropLast_cons_cons] at h
          rcases List.mem_cons.mp h with rfl | h
          · obtain ⟨init, d, rfl, hboundary⟩ := ih (List.mem_cons_self)
            exact ⟨c :: init, d, rfl, hboundary⟩
          · exact ih (List.mem_cons_of_mem _ h)

/-- Text without a terminator inside, and with one at its end. -/
def Terminated (line : Text) : Prop :=
  ∃ content terminator, line = content ++ [terminator] ∧ isBoundary terminator = true ∧
    ∀ c ∈ content, isBoundary c = false

/-- Lines as they follow one another in a text: only the last one may lack a terminator. -/
inductive Lines : List Text → Prop where
  | nil : Lines []
  | last {line : Text} : line ≠ [] → (∀ c ∈ line, isBoundary c = false) → Lines [line]
  | cons {line : Text} {lines : List Text} : Terminated line → Lines lines → Lines (line :: lines)

theorem lines_push {c : Char} {lines : List Text} (hc : isBoundary c = false) (h : Lines lines) :
    Lines (push c lines) := by
  cases h with
  | nil => exact .last (List.cons_ne_nil _ _) (by simpa using hc)
  | last hne hplain => exact .last (List.cons_ne_nil _ _) (by simpa [hc] using hplain)
  | cons hline hlines =>
    obtain ⟨content, terminator, rfl, hboundary, hplain⟩ := hline
    exact .cons ⟨c :: content, terminator, rfl, hboundary, by simpa [hc] using hplain⟩ hlines

theorem splitlines_lines {text : Text} (h : '\r' ∉ text) : Lines (splitlines text) := by
  induction text with
  | nil => exact .nil
  | cons c rest ih =>
    rw [List.mem_cons, not_or] at h
    have hrest := ih h.2
    rw [splitlines]
    split
    · next hcut => exact .cons ⟨[], c, rfl, hcut.1, by simp⟩ hrest
    · next hcut =>
      refine lines_push ?_ hrest
      by_contra hboundary
      exact hcut ⟨by simpa using hboundary, fun hreturn => h.1 hreturn.1.symm⟩

theorem Lines.sublist {lines kept : List Text} (h : Lines lines) (hsub : kept.Sublist lines) :
    Lines kept := by
  induction h generalizing kept with
  | nil =>
    rw [List.sublist_nil.mp hsub]
    exact .nil
  | @last line hne hplain =>
    cases hsub with
    | cons _ hsub =>
      rw [List.sublist_nil.mp hsub]
      exact .nil
    | cons_cons _ hsub =>
      rw [List.sublist_nil.mp hsub]
      exact .last hne hplain
  | @cons line lines hline _ ih =>
    cases hsub with
    | cons _ hsub => exact ih hsub
    | cons_cons _ hsub => exact .cons hline (ih hsub)

theorem splitlines_plain_append {content : Text} (h : ∀ c ∈ content, isBoundary c = false)
    (rest : Text) : splitlines (content ++ rest) = content.foldr push (splitlines rest) := by
  induction content with
  | nil => rfl
  | cons c content ih =>
    rw [List.forall_mem_cons] at h
    rw [List.cons_append, splitlines, if_neg (by simp [h.1]), ih h.2, List.foldr_cons]

theorem foldr_push_cons (content line : Text) (lines : List Text) :
    content.foldr push (line :: lines) = (content ++ line) :: lines := by
  induction content with
  | nil => rfl
  | cons c content ih => rw [List.foldr_cons, ih, push, List.cons_append]

theorem splitlines_plain {line : Text} (hne : line ≠ []) (h : ∀ c ∈ line, isBoundary c = false) :
    splitlines line = [line] := by
  have hfold := splitlines_plain_append h []
  rw [List.append_nil] at hfold
  rw [hfold]
  obtain ⟨init, c, rfl⟩ := (List.eq_nil_or_concat line).resolve_left hne
  rw [List.concat_eq_append, List.foldr_append]
  exact foldr_push_cons init [c] []

/-- Lines that follow one another are the lines of their text. -/
theorem splitlines_join {lines : List Text} (h : Lines lines) (hreturn : '\r' ∉ lines.flatten) :
    splitlines lines.flatten = lines := by
  induction h with
  | nil => rfl
  | @last line hne hplain =>
    rw [List.flatten_singleton, splitlines_plain hne hplain]
  | @cons line lines hline _ ih =>
    obtain ⟨content, terminator, rfl, hboundary, hplain⟩ := hline
    simp only [List.flatten_cons, List.mem_append, not_or, List.mem_singleton] at hreturn
    have hcut : splitlines (terminator :: lines.flatten) = [terminator] :: lines := by
      rw [splitlines, if_pos ⟨hboundary, fun h => hreturn.1.2 h.1.symm⟩, ih hreturn.2]
    rw [List.flatten_cons, List.append_assoc, List.singleton_append,
      splitlines_plain_append hplain, hcut, foldr_push_cons]

theorem universal_plain_append {content : Text} (h : '\r' ∉ content) (rest : Text) :
    universal (content ++ rest) = content ++ universal rest := by
  induction content with
  | nil => rfl
  | cons c content ih =>
    rw [List.mem_cons, not_or] at h
    rw [List.cons_append, universal, if_neg (Ne.symm h.1), ih h.2, List.cons_append]

theorem no_return {content : Text} (h : ∀ c ∈ content, isBoundary c = false) : '\r' ∉ content :=
  fun hmem => absurd (h _ hmem) (by decide)

theorem splitlines_cons (c : Char) (rest : Text) :
    ∃ line lines, splitlines (c :: rest) = (c :: line) :: lines := by
  rw [splitlines]
  split
  · exact ⟨[], _, rfl⟩
  · cases splitlines rest with
    | nil => exact ⟨[], [], rfl⟩
    | cons line lines => exact ⟨line, lines, rfl⟩

theorem splitlines_newline (rest : Text) : splitlines ('\n' :: rest) = ['\n'] :: splitlines rest := by
  rw [splitlines, if_pos ⟨boundary_newline, fun h => absurd h.1 (by decide)⟩]

theorem Lines.split {before after : List Text} {line : Text} (h : Lines (before ++ line :: after)) :
    (∀ earlier ∈ before, Terminated earlier) ∧ (after = [] ∨ Terminated line) := by
  induction before with
  | nil =>
    refine ⟨by simp, ?_⟩
    cases h with
    | last => exact .inl rfl
    | cons hline => exact .inr hline
  | cons earlier before ih =>
    rw [List.cons_append] at h
    generalize hrest : before ++ line :: after = rest at h
    cases h with
    | last => simp at hrest
    | cons hline hlines =>
      rw [← hrest] at hlines
      obtain ⟨hbefore, hafter⟩ := ih hlines
      exact ⟨List.forall_mem_cons.mpr ⟨hline, hbefore⟩, hafter⟩

/-- Where newlines are the only boundaries, a line starts the text or follows a newline, and ends
the text or with a newline. -/
theorem line_placed {text line : Text} (hreturn : '\r' ∉ text)
    (honly : ∀ c ∈ text, isBoundary c = true → c = '\n') (h : line ∈ splitlines text) :
    ∃ before after, text = before ++ (line ++ after) ∧
      (before = [] ∨ ∃ init, before = init ++ ['\n']) ∧
      (after = [] ∨ line.getLast? = some '\n') := by
  obtain ⟨earlier, later, hsplit⟩ := List.append_of_mem h
  have hlines := splitlines_lines hreturn
  have htext := splitlines_flatten text
  rw [hsplit] at hlines htext
  rw [List.flatten_append, List.flatten_cons] at htext
  obtain ⟨hearlier, hlater⟩ := hlines.split
  have hends : ∀ l ∈ splitlines text, Terminated l → ∃ init, l = init ++ ['\n'] := by
    rintro l hl ⟨init, c, rfl, hboundary, -⟩
    have hmem : c ∈ text := by
      rw [← splitlines_flatten text]
      exact List.mem_flatten.mpr ⟨_, hl, by simp⟩
    exact ⟨init, by rw [honly c hmem hboundary]⟩
  refine ⟨earlier.flatten, later.flatten, htext.symm, ?_, ?_⟩
  · rcases List.eq_nil_or_concat earlier with rfl | ⟨init, last, rfl⟩
    · exact .inl rfl
    · rw [List.concat_eq_append] at hsplit hearlier ⊢
      obtain ⟨stem, hstem⟩ := hends last (by rw [hsplit]; simp) (hearlier last (by simp))
      exact .inr ⟨init.flatten ++ stem, by simp [hstem]⟩
  · rcases hlater with rfl | hline
    · exact .inl rfl
    · obtain ⟨stem, hstem⟩ := hends line h hline
      exact .inr (by simp [hstem])

end TextLines
