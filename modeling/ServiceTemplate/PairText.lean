import Mathlib.Data.List.Infix
import Mathlib.Tactic.ByContra

/-! Two adjacent elements as a separator: replacing them by one and splitting at them, both from
the left. -/
namespace PairText

variable {α : Type*} [DecidableEq α] {a b c x y : α} {text rest : List α}

/-- `str::replace` of one element. -/
def replaceOne (c : α) (replacement text : List α) : List α :=
  text.flatMap fun d => if d = c then replacement else [d]

/-- `str::replace` of two elements by one. -/
def replacePair (a b c : α) : List α → List α
  | x :: y :: rest =>
    if x = a ∧ y = b then c :: replacePair a b c rest else x :: replacePair a b c (y :: rest)
  | text => text

def consHead (x : α) : List (List α) → List (List α)
  | [] => [[x]]
  | piece :: pieces => (x :: piece) :: pieces

/-- `str::split` at two elements. -/
def splitPair (a b : α) : List α → List (List α)
  | x :: y :: rest =>
    if x = a ∧ y = b then [] :: splitPair a b rest else consHead x (splitPair a b (y :: rest))
  | text => [text]

theorem replace_pair_cons (h : x ≠ a) (rest : List α) :
    replacePair a b c (x :: rest) = x :: replacePair a b c rest := by
  cases rest with
  | nil => rfl
  | cons y rest => rw [replacePair, if_neg fun hx => h hx.1]

theorem replace_pair_skip (h : y ≠ b) (hy : y ≠ a) (rest : List α) :
    replacePair a b c (a :: y :: rest) = a :: y :: replacePair a b c rest := by
  rw [replacePair, if_neg fun hx => h hx.2, replace_pair_cons hy]

theorem replace_pair_length (a b c : α) (text : List α) :
    (replacePair a b c text).length ≤ text.length := by
  fun_induction replacePair a b c text with
  | case1 x y rest _ ih =>
    simp only [List.length_cons]
    omega
  | case2 x y rest _ ih =>
    simp only [List.length_cons] at ih ⊢
    omega
  | case3 => exact Nat.le_refl _

omit [DecidableEq α] in
theorem pair_infix_cons :
    [a, b] <:+: x :: y :: rest ↔ (x = a ∧ y = b) ∨ [a, b] <:+: y :: rest := by
  rw [List.infix_cons_iff, List.cons_prefix_cons, List.cons_prefix_cons]
  simp only [List.nil_prefix, and_true]
  exact or_congr_left ⟨fun h => ⟨h.1.symm, h.2.symm⟩, fun h => ⟨h.1.symm, h.2.symm⟩⟩

omit [DecidableEq α] in
theorem no_pair_short (h : ∀ x y rest, text ≠ x :: y :: rest) : ¬ [a, b] <:+: text := by
  rintro ⟨before, after, rfl⟩
  cases before with
  | nil => exact h a b after rfl
  | cons x before =>
    cases before with
    | nil => exact h x a _ rfl
    | cons y before => exact h x y _ rfl

/-- A replacement shortens, so only a text without the pair stays. -/
theorem replace_pair_eq_self : replacePair a b c text = text ↔ ¬ [a, b] <:+: text := by
  fun_induction replacePair a b c text with
  | case1 x y rest hpair ih =>
    have hshort := replace_pair_length a b c rest
    constructor
    · intro h
      have hlength := congrArg List.length h
      simp only [List.length_cons] at hlength
      omega
    · intro h
      exact absurd (pair_infix_cons.mpr (.inl hpair)) h
  | case2 x y rest hpair ih =>
    rw [List.cons.injEq, pair_infix_cons, not_or, ← ih]
    exact ⟨fun h => ⟨hpair, h.2⟩, fun h => ⟨rfl, h.2⟩⟩
  | case3 text hshort => exact ⟨fun _ => no_pair_short hshort, fun _ => rfl⟩

theorem replace_pair_shrinks (h : replacePair a b c text ≠ text) :
    (replacePair a b c text).length < text.length := by
  fun_induction replacePair a b c text with
  | case1 x y rest _ ih =>
    have hshort := replace_pair_length a b c rest
    simp only [List.length_cons]
    omega
  | case2 x y rest _ ih => exact Nat.succ_lt_succ (ih fun heq => h (by rw [heq]))
  | case3 => exact absurd rfl h

omit [DecidableEq α] in
theorem cons_head_ne_nil (x : α) (pieces : List (List α)) : consHead x pieces ≠ [] := by
  cases pieces with
  | nil => exact List.cons_ne_nil _ _
  | cons piece pieces => exact List.cons_ne_nil _ _

theorem split_pair_ne_nil (a b : α) (text : List α) : splitPair a b text ≠ [] := by
  fun_induction splitPair a b text with
  | case1 => exact List.cons_ne_nil _ _
  | case2 x y rest _ ih => exact cons_head_ne_nil x _
  | case3 => exact List.cons_ne_nil _ _

theorem split_pair_singleton (h : ¬ [a, b] <:+: text) : splitPair a b text = [text] := by
  fun_induction splitPair a b text with
  | case1 x y rest hpair ih => exact absurd (pair_infix_cons.mpr (.inl hpair)) h
  | case2 x y rest _ ih =>
    rw [ih fun hrest => h (pair_infix_cons.mpr (.inr hrest))]
    rfl
  | case3 => rfl

/-- The first separator is the one after a piece that neither holds it nor starts it. -/
theorem split_pair_append {piece : List α} (h : ¬ [a, b] <:+: piece ++ [a]) (rest : List α) :
    splitPair a b (piece ++ a :: b :: rest) = piece :: splitPair a b rest := by
  induction piece with
  | nil => rw [List.nil_append, splitPair, if_pos ⟨rfl, rfl⟩]
  | cons x piece ih =>
    have htail : ¬ [a, b] <:+: piece ++ [a] := fun hpair =>
      h (hpair.trans (List.suffix_cons x _).isInfix)
    have hstep : splitPair a b (x :: (piece ++ a :: b :: rest)) =
        consHead x (splitPair a b (piece ++ a :: b :: rest)) := by
      cases piece with
      | nil =>
        have hfirst : ¬ (x = a ∧ a = b) := fun hpair => h (pair_infix_cons.mpr (.inl hpair))
        rw [List.nil_append, splitPair, if_neg hfirst]
      | cons y piece =>
        have hfirst : ¬ (x = a ∧ y = b) := fun hpair => h (pair_infix_cons.mpr (.inl hpair))
        rw [List.cons_append, splitPair, if_neg hfirst]
    rw [List.cons_append, hstep, ih htail]
    rfl

/-- A map that keeps the separator's elements apart from all others keeps the pieces. -/
theorem split_pair_map {f : α → α} (ha : ∀ x, f x = a ↔ x = a) (hb : ∀ x, f x = b ↔ x = b)
    (text : List α) : splitPair a b (text.map f) = (splitPair a b text).map (List.map f) := by
  fun_induction splitPair a b text with
  | case1 x y rest hpair ih =>
    rw [List.map_cons, List.map_cons, splitPair, if_pos ⟨(ha x).mpr hpair.1, (hb y).mpr hpair.2⟩, ih]
    rfl
  | case2 x y rest hpair ih =>
    rw [List.map_cons] at ih
    rw [List.map_cons, List.map_cons, splitPair,
      if_neg fun h => hpair ⟨(ha x).mp h.1, (hb y).mp h.2⟩, ih]
    cases splitPair a b (y :: rest) with
    | nil => rfl
    | cons piece pieces => rfl
  | case3 text hshort =>
    rcases text with _ | ⟨x, _ | ⟨y, rest⟩⟩
    · rfl
    · rfl
    · exact absurd rfl (hshort x y rest)

theorem split_pair_join {pieces : List (List α)} (hne : pieces ≠ [])
    (h : ∀ piece ∈ pieces, ¬ [a, b] <:+: piece ++ [a]) :
    splitPair a b ([a, b].intercalate pieces) = pieces := by
  induction pieces with
  | nil => exact absurd rfl hne
  | cons piece pieces ih =>
    have hpiece := h piece List.mem_cons_self
    cases pieces with
    | nil =>
      have hwhole : ¬ [a, b] <:+: piece := fun hpair =>
        hpiece (hpair.trans (List.prefix_append piece [a]).isInfix)
      simpa [List.intercalate] using split_pair_singleton hwhole
    | cons next pieces =>
      have hjoin : [a, b].intercalate (piece :: next :: pieces) =
          piece ++ a :: b :: [a, b].intercalate (next :: pieces) := by
        simp [List.intercalate]
      rw [hjoin, split_pair_append hpiece,
        ih (List.cons_ne_nil _ _) fun p hp => h p (List.mem_cons_of_mem _ hp)]

/-- Replacing the separators joins the pieces by the replacement. -/
theorem replace_pair_join (a b c : α) (text : List α) :
    replacePair a b c text = [c].intercalate (splitPair a b text) := by
  fun_induction splitPair a b text with
  | case1 x y rest hpair ih =>
    rw [replacePair, if_pos hpair, ih]
    obtain ⟨piece, pieces, hsplit⟩ := List.exists_cons_of_ne_nil (split_pair_ne_nil a b rest)
    rw [hsplit]
    simp [List.intercalate]
  | case2 x y rest hpair ih =>
    rw [replacePair, if_neg hpair, ih]
    obtain ⟨piece, pieces, hsplit⟩ := List.exists_cons_of_ne_nil (split_pair_ne_nil a b (y :: rest))
    rw [hsplit]
    cases pieces with
    | nil => simp [List.intercalate, consHead]
    | cons next pieces => simp [List.intercalate, consHead]
  | case3 text hshort =>
    rw [replace_pair_eq_self.mpr (no_pair_short hshort)]
    simp [List.intercalate]

/-- A text without the separator is one piece; any other is split at its first separator. -/
theorem split_pair_cases (a b : α) (text : List α) :
    (¬ [a, b] <:+: text ∧ splitPair a b text = [text]) ∨
      ∃ first rest, text = first ++ a :: b :: rest ∧ ¬ [a, b] <:+: first ++ [a] ∧
        splitPair a b text = first :: splitPair a b rest := by
  fun_induction splitPair a b text with
  | case1 x y rest hpair ih =>
    obtain ⟨rfl, rfl⟩ := hpair
    exact .inr ⟨[], rest, rfl, no_pair_short (by simp), rfl⟩
  | case2 x y rest hpair ih =>
    rcases ih with ⟨hfree, hsplit⟩ | ⟨first, tail, hsplits, hclean, hsplit⟩
    · refine .inl ⟨fun h => (pair_infix_cons.mp h).elim hpair hfree, ?_⟩
      rw [hsplit]
      rfl
    · refine .inr ⟨x :: first, tail, by rw [hsplits]; rfl, ?_, by rw [hsplit]; rfl⟩
      -- the separator cannot start at the new element, since the text goes on with `y`
      cases first with
      | nil =>
        obtain ⟨rfl, -⟩ := List.cons.inj hsplits
        exact fun h => (pair_infix_cons.mp h).elim hpair hclean
      | cons z first =>
        obtain ⟨rfl, -⟩ := List.cons.inj hsplits
        exact fun h => (pair_infix_cons.mp h).elim hpair hclean
  | case3 text hshort => exact .inl ⟨no_pair_short hshort, rfl⟩

/-- No piece holds the separator; before the last one, none ends in what would start it. -/
theorem split_pair_pieces {pieces : List (List α)} {last : List α}
    (h : splitPair a b text = pieces ++ [last]) :
    (∀ piece ∈ pieces, ¬ [a, b] <:+: piece ++ [a]) ∧ ¬ [a, b] <:+: last := by
  induction pieces generalizing text with
  | nil =>
    rcases split_pair_cases a b text with ⟨hfree, hsplit⟩ | ⟨first, rest, -, -, hsplit⟩
    · rw [hsplit, List.nil_append, List.singleton_inj] at h
      exact ⟨by simp, h ▸ hfree⟩
    · rw [hsplit, List.nil_append, List.cons.injEq] at h
      exact absurd h.2 (split_pair_ne_nil a b rest)
  | cons piece pieces ih =>
    rcases split_pair_cases a b text with ⟨-, hsplit⟩ | ⟨first, rest, -, hclean, hsplit⟩
    · rw [hsplit, List.cons_append, List.cons.injEq] at h
      exact absurd h.2.symm (by simp)
    · rw [hsplit, List.cons_append, List.cons.injEq] at h
      obtain ⟨rfl, hrest⟩ := h
      obtain ⟨hpieces, hlast⟩ := ih hrest
      exact ⟨List.forall_mem_cons.mpr ⟨hclean, hpieces⟩, hlast⟩

end PairText
