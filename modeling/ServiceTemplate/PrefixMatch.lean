import Mathlib.Data.List.Basic

/-! Matching the start of a stream against a word while the stream arrives in pieces. -/
namespace PrefixMatch

variable {α : Type*} [DecidableEq α] {word seen piece : List α}

/-- A proper start of the word: more of the word is to come. -/
def Within (word seen : List α) : Prop := seen <+: word ∧ seen.length < word.length

instance (word seen : List α) : Decidable (Within word seen) :=
  inferInstanceAs (Decidable (_ ∧ _))

/-- How far the stream matches, until that is decided by what was seen or by the end. -/
def position (word seen : List α) (ended : Bool) : Option ℕ :=
  if ended = false ∧ Within word seen then some seen.length else none

def advance (word : List α) (matched : ℕ) (piece : List α) : Option ℕ :=
  let rest := word.drop matched
  if piece ≠ [] ∧ piece.length < rest.length ∧ piece <+: rest then some (matched + piece.length)
  else none

omit [DecidableEq α] in
theorem Within.of_append (h : Within word (seen ++ piece)) : Within word seen := by
  refine ⟨(List.prefix_append seen piece).trans h.1, ?_⟩
  have hlt := h.2
  rw [List.length_append] at hlt
  omega

omit [DecidableEq α] in
theorem within_append_iff (h : Within word seen) :
    Within word (seen ++ piece) ↔
      piece.length < (word.drop seen.length).length ∧ piece <+: word.drop seen.length := by
  obtain ⟨⟨rest, rfl⟩, -⟩ := h
  rw [Within, List.drop_left, List.prefix_append_right_inj, List.length_append,
    List.length_append, Nat.add_lt_add_iff_left]
  exact And.comm

theorem position_eq_some {ended : Bool} {matched : ℕ} :
    position word seen ended = some matched ↔
      ended = false ∧ Within word seen ∧ seen.length = matched := by
  simp only [position]
  split
  · rename_i h
    simp [h]
  · rename_i h
    constructor
    · intro hnone
      cases hnone
    · rintro ⟨hended, hwithin, -⟩
      exact absurd ⟨hended, hwithin⟩ h

/-- The pieces are forgotten: matching one more moves to the position of all that was seen. -/
theorem advance_position {ended : Bool} {matched : ℕ}
    (h : position word seen ended = some matched) (hne : piece ≠ []) :
    advance word matched piece = position word (seen ++ piece) ended := by
  obtain ⟨hended, hwithin, rfl⟩ := position_eq_some.mp h
  simp only [advance, position, hne, ne_eq, not_false_eq_true, true_and, hended,
    List.length_append, within_append_iff hwithin]

theorem position_ended (word seen : List α) : position word seen true = none := by
  simp [position]

theorem position_extend {ended : Bool} (h : position word seen ended = none) (piece : List α)
    (ends : Bool) : position word (seen ++ piece) (ended || ends) = none := by
  by_contra hsome
  obtain ⟨matched, hmatched⟩ := Option.ne_none_iff_exists'.mp hsome
  obtain ⟨hended, hwithin, -⟩ := position_eq_some.mp hmatched
  rw [position, if_pos ⟨(Bool.or_eq_false_iff.mp hended).1, hwithin.of_append⟩] at h
  cases h

end PrefixMatch
