import Mathlib.Data.List.Sort

/-! The least `n` elements of a list in an order, by sorting and cutting, and by rank. The ranks are
what merges of separately cut lists are about. -/
namespace LeastRanked

variable {α : Type*} (r : α → α → Prop) [DecidableRel r]

def least (n : ℕ) (l : List α) : List α := (l.insertionSort r).take n

def rank (l : List α) (x : α) : ℕ := l.countP fun y => r y x

def AntisymmOn (l : List α) : Prop := ∀ x ∈ l, ∀ y ∈ l, r x y → r y x → x = y

variable {r} {n : ℕ} {l l' a b : List α} {x : α}

theorem least_length (n : ℕ) (l : List α) : (least r n l).length ≤ n := List.length_take_le _ _

theorem mem_of_mem_least (h : x ∈ least r n l) : x ∈ l :=
  (List.mem_insertionSort r).mp (List.mem_of_mem_take h)

theorem rank_append (a b : List α) (x : α) : rank r (a ++ b) x = rank r a x + rank r b x :=
  List.countP_append

theorem rank_perm (h : l.Perm l') (x : α) : rank r l x = rank r l' x := h.countP_eq _

theorem least_nodup (n : ℕ) (h : l.Nodup) : (least r n l).Nodup :=
  ((List.perm_insertionSort r l).nodup_iff.mpr h).sublist (List.take_sublist _ _)

variable [IsTrans α r]

theorem rank_take (h : l.Pairwise r) (n : ℕ) (x : α) :
    rank r (l.take n) x = min (rank r l x) n := by
  induction l generalizing n with
  | nil => simp [rank]
  | cons y l ih =>
    cases n with
    | zero => simp [rank]
    | succ n =>
      obtain ⟨hy, hl⟩ := List.pairwise_cons.mp h
      have ih := ih hl n
      simp only [rank] at ih
      by_cases hyx : r y x
      · simp [rank, hyx, ih]
      · -- Nothing behind the first element that is after `x` counts.
        have hnone : ∀ z ∈ y :: l, ¬ r z x := by
          intro z hz hzx
          rcases List.mem_cons.mp hz with rfl | hz
          · exact hyx hzx
          · exact hyx (IsTrans.trans _ _ _ (hy z hz) hzx)
        have hzero : rank r (y :: l) x = 0 := by
          simpa [rank, List.countP_eq_zero] using hnone
        have htake : rank r ((y :: l).take (n + 1)) x = 0 := by
          refine List.countP_eq_zero.mpr fun z hz => ?_
          simpa using hnone z (List.mem_of_mem_take hz)
        rw [hzero, htake, Nat.zero_min]

variable [Std.Total r]

theorem rank_least (n : ℕ) (l : List α) (x : α) : rank r (least r n l) x = min (rank r l x) n := by
  rw [least, rank_take (List.pairwise_insertionSort r l), rank_perm (List.perm_insertionSort r l)]

omit [IsTrans α r] in
theorem rank_pos (h : x ∈ l) : 0 < rank r l x :=
  List.countP_pos_iff.mpr ⟨x, h, decide_eq_true (refl_of r x)⟩

theorem mem_least (hl : l.Nodup) (hr : AntisymmOn r l) :
    x ∈ least r n l ↔ x ∈ l ∧ rank r l x ≤ n := by
  have hperm := List.perm_insertionSort r l
  have hsorted := List.pairwise_insertionSort r l
  have hsplit : rank r l x = rank r (least r n l) x + rank r ((l.insertionSort r).drop n) x := by
    rw [← rank_append, least, List.take_append_drop, rank_perm hperm]
  rw [← List.take_append_drop n (l.insertionSort r), List.pairwise_append] at hsorted
  have hapart := hperm.nodup_iff.mpr hl
  rw [← List.take_append_drop n (l.insertionSort r), List.nodup_append] at hapart
  constructor
  · intro hx
    refine ⟨mem_of_mem_least hx, ?_⟩
    have hbehind : rank r ((l.insertionSort r).drop n) x = 0 := by
      refine List.countP_eq_zero.mpr fun y hy => ?_
      intro hyx
      have hxy := hsorted.2.2 x hx y hy
      have hmem := hperm.mem_iff.mp (List.mem_of_mem_drop hy)
      have hsame := hr x (mem_of_mem_least hx) y hmem hxy (of_decide_eq_true hyx)
      exact hapart.2.2 x hx y hy hsame
    have hcut := rank_least (r := r) n l x
    omega
  · rintro ⟨hx, hrank⟩
    rw [← hperm.mem_iff, ← List.take_append_drop n (l.insertionSort r), List.mem_append] at hx
    rcases hx with hx | hx
    · exact hx
    · exfalso
      have hpos : 0 < rank r ((l.insertionSort r).drop n) x := rank_pos hx
      have hfull : rank r (least r n l) x = (least r n l).length :=
        List.countP_eq_length.mpr fun y hy => decide_eq_true (hsorted.2.2 y hy x hx)
      have hlength : (least r n l).length = n := by
        rw [least, List.length_take]
        have hdrop := List.length_pos_of_mem hx
        rw [List.length_drop] at hdrop
        omega
      omega

theorem mem_least_append (hl : (a ++ b).Nodup) (hr : AntisymmOn r (a ++ b)) :
    x ∈ least r n (a ++ b) ↔
      x ∈ least r n a ++ least r n b ∧ rank r (least r n a ++ least r n b) x ≤ n := by
  obtain ⟨ha, hb, _⟩ := List.nodup_append.mp hl
  have hra : AntisymmOn r a := fun x hx y hy =>
    hr x (List.mem_append_left _ hx) y (List.mem_append_left _ hy)
  have hrb : AntisymmOn r b := fun x hx y hy =>
    hr x (List.mem_append_right _ hx) y (List.mem_append_right _ hy)
  rw [mem_least hl hr, List.mem_append, List.mem_append, mem_least ha hra, mem_least hb hrb,
    rank_append, rank_append, rank_least, rank_least]
  constructor
  · rintro ⟨hx | hx, hrank⟩
    · exact ⟨.inl ⟨hx, by omega⟩, by omega⟩
    · exact ⟨.inr ⟨hx, by omega⟩, by omega⟩
  · rintro ⟨⟨hx, _⟩ | ⟨hx, _⟩, hrank⟩
    · have hpos : 0 < rank r a x := rank_pos hx
      exact ⟨.inl hx, by omega⟩
    · have hpos : 0 < rank r b x := rank_pos hx
      exact ⟨.inr hx, by omega⟩

theorem mem_least_perm (hl : l.Nodup) (hr : AntisymmOn r l) (h : l.Perm l') :
    x ∈ least r n l ↔ x ∈ least r n l' := by
  have hr' : AntisymmOn r l' := fun x hx y hy =>
    hr x (h.mem_iff.mpr hx) y (h.mem_iff.mpr hy)
  rw [mem_least hl hr, mem_least (h.nodup_iff.mp hl) hr', h.mem_iff, rank_perm h]

end LeastRanked
