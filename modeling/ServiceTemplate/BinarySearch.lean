import Mathlib.Order.Defs.LinearOrder
import Mathlib.Order.Compare
import Mathlib.Order.Lattice
import Mathlib.Data.List.GetD

/-! Binary search over the places of a sorted list, as a standard library does it: the range is
halved without an early exit, and the last place is compared once more. -/
namespace BinarySearch

variable {α : Type*}

/-- `order i` is how the element at `i` compares with what is looked for. The range starts at `base`
and has `size` places; a range of one place is decided. -/
def narrow (order : ℕ → Ordering) : ℕ → ℕ → ℕ → ℕ
  | 0, base, _ => base
  | fuel + 1, base, size =>
    if size ≤ 1 then base
    else
      let half := size / 2
      let mid := base + half
      narrow order fuel (if order mid = .gt then base else mid) (size - half)

/-- The place of an element, or where it would be inserted. -/
def search (order : ℕ → Ordering) (length : ℕ) : Except ℕ ℕ :=
  if length = 0 then .error 0
  else
    let base := narrow order length 0 length
    match order base with
    | .eq => .ok base
    | .lt => .error (base + 1)
    | .gt => .error base

def binarySearch [LinearOrder α] [Inhabited α] (xs : List α) (x : α) : Except ℕ ℕ :=
  search (fun i => compare (xs.getD i default) x) xs.length

/-- Smaller elements come first and larger ones last. -/
structure Ordered (order : ℕ → Ordering) (length : ℕ) : Prop where
  above : ∀ i j, i ≤ j → j < length → order i = .gt → order j = .gt
  below : ∀ i j, i ≤ j → j < length → order i ≠ .lt → order j ≠ .lt

variable {order : ℕ → Ordering} {length base size fuel : ℕ}

theorem narrow_range (order : ℕ → Ordering) (fuel base size : ℕ) (hsize : 0 < size) :
    base ≤ narrow order fuel base size ∧ narrow order fuel base size < base + size := by
  induction fuel generalizing base size with
  | zero => exact ⟨Nat.le_refl _, by simp only [narrow]; omega⟩
  | succ fuel ih =>
    simp only [narrow]
    by_cases hone : size ≤ 1
    · rw [if_pos hone]
      omega
    rw [if_neg hone]
    by_cases hgt : order (base + size / 2) = .gt
    · rw [if_pos hgt]
      have hrange := ih base (size - size / 2) (by omega)
      omega
    · rw [if_neg hgt]
      have hrange := ih (base + size / 2) (size - size / 2) (by omega)
      omega

theorem narrow_finds (h : Ordered order length) (hfuel : size ≤ fuel)
    (hlength : base + size ≤ length) (hfound : ∃ i, base ≤ i ∧ i < base + size ∧ order i = .eq) :
    order (narrow order fuel base size) = .eq := by
  induction fuel generalizing base size with
  | zero =>
    rcases hfound with ⟨i, hlow, hhigh, -⟩
    omega
  | succ fuel ih =>
    rcases hfound with ⟨i, hlow, hhigh, heq⟩
    simp only [narrow]
    by_cases hone : size ≤ 1
    · rw [if_pos hone]
      have hi : i = base := by omega
      exact hi ▸ heq
    rw [if_neg hone]
    by_cases hgt : order (base + size / 2) = .gt
    · rw [if_pos hgt]
      have hbefore : i < base + size / 2 := by
        by_contra hafter
        have habove := h.above _ i (Nat.le_of_not_lt hafter) (by omega) hgt
        rw [heq] at habove
        cases habove
      exact ih (by omega) (by omega) ⟨i, hlow, by omega, heq⟩
    · rw [if_neg hgt]
      by_cases hbefore : i < base + size / 2
      · have hnotlt := h.below i (base + size / 2) (by omega) (by omega) (by simp [heq])
        have hmid : order (base + size / 2) = .eq := by
          cases hcase : order (base + size / 2) with
          | eq => rfl
          | lt => exact absurd hcase hnotlt
          | gt => exact absurd hcase hgt
        exact ih (by omega) (by omega) ⟨base + size / 2, by omega, by omega, hmid⟩
      · exact ih (by omega) (by omega) ⟨i, by omega, by omega, heq⟩

theorem search_ok (h : Ordered order length) :
    (∃ i, search order length = .ok i) ↔ ∃ i, i < length ∧ order i = .eq := by
  simp only [search]
  by_cases hzero : length = 0
  · subst hzero
    simp
  rw [if_neg hzero]
  have hrange := narrow_range order length 0 length (by omega)
  constructor
  · rintro ⟨i, hi⟩
    split at hi
    · next heq => exact ⟨_, by omega, heq⟩
    · cases hi
    · cases hi
  · rintro ⟨i, hi, heq⟩
    have hfound : order (narrow order length 0 length) = .eq :=
      narrow_finds h (Nat.le_refl length) (by omega) ⟨i, by omega, by omega, heq⟩
    rw [hfound]
    exact ⟨_, rfl⟩

theorem ordered_of_sorted [LinearOrder α] [Inhabited α] {xs : List α}
    (h : xs.Pairwise (· ≤ ·)) (x : α) :
    Ordered (fun i => compare (xs.getD i default) x) xs.length := by
  have hle : ∀ i j, i ≤ j → j < xs.length → xs.getD i default ≤ xs.getD j default := by
    intro i j hij hj
    rw [List.getD_eq_getElem _ _ (by omega : i < xs.length), List.getD_eq_getElem _ _ hj]
    by_cases hsame : i = j
    · subst hsame
      exact le_rfl
    · exact List.pairwise_iff_getElem.mp h i j (by omega) hj (by omega)
  constructor
  · intro i j hij hj hgt
    rw [compare_gt_iff_gt] at hgt ⊢
    exact lt_of_lt_of_le hgt (hle i j hij hj)
  · intro i j hij hj hnotlt
    rw [ne_eq, compare_lt_iff_lt] at hnotlt ⊢
    intro hlt
    exact hnotlt (lt_of_le_of_lt (hle i j hij hj) hlt)

theorem binary_search_ok [LinearOrder α] [Inhabited α] {xs : List α}
    (h : xs.Pairwise (· ≤ ·)) (x : α) : (∃ i, binarySearch xs x = .ok i) ↔ x ∈ xs := by
  rw [binarySearch, search_ok (ordered_of_sorted h x), List.mem_iff_getElem]
  constructor
  · rintro ⟨i, hi, heq⟩
    rw [compare_eq_iff_eq, List.getD_eq_getElem _ _ hi] at heq
    exact ⟨i, hi, heq⟩
  · rintro ⟨i, hi, heq⟩
    refine ⟨i, hi, ?_⟩
    rw [compare_eq_iff_eq, List.getD_eq_getElem _ _ hi]
    exact heq

end BinarySearch
