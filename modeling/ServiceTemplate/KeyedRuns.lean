import Mathlib.Data.List.Sort
import Mathlib.Order.Defs.LinearOrder

/-! Lists sorted by a key, in which the elements of one key stand together: the first or the last of
each run is what a lookup by key finds. -/
namespace KeyedRuns

variable {α κ : Type*} [DecidableEq κ] {key : α → κ} {keep : κ → Bool}

/-- The last element of each run, for the keys that are kept. -/
def lastOfRuns (key : α → κ) (keep : κ → Bool) : List α → List α
  | [] => []
  | a :: rest =>
    if rest.head?.any (fun b => key b = key a) || !keep (key a) then lastOfRuns key keep rest
    else a :: lastOfRuns key keep rest

/-- The first element of each run, for the keys that are kept; the key before the list is given. -/
def firstOfRuns (key : α → κ) (keep : κ → Bool) : Option κ → List α → List α
  | _, [] => []
  | previous, a :: rest =>
    if decide (previous = some (key a)) || !keep (key a) then firstOfRuns key keep (some (key a)) rest
    else a :: firstOfRuns key keep (some (key a)) rest

section Lookup

variable {before : α → α → Prop}

/-- Elements of one key stand in the order `before`. -/
def Ordered (key : α → κ) (before : α → α → Prop) (xs : List α) : Prop :=
  xs.Pairwise fun a b => key a = key b → before a b

omit [DecidableEq κ] in
theorem Ordered.reverse {xs : List α} (h : Ordered key before xs) :
    Ordered key (fun a b => before b a) xs.reverse := by
  rw [Ordered, List.pairwise_reverse]
  exact h.imp fun hab hkey => hab hkey.symm

theorem find_eq_some {xs : List α} (h : Ordered key before xs) (hasymm : ∀ a b, before a b → ¬ before b a)
    {a : α} (hmem : a ∈ xs) (hleast : ∀ b ∈ xs, key b = key a → b = a ∨ before a b) :
    xs.find? (fun b => key b = key a) = some a := by
  cases hfind : xs.find? (fun b => key b = key a) with
  | none =>
    have hnone := List.find?_eq_none.mp hfind a hmem
    simp at hnone
  | some found =>
    obtain ⟨hkey, front, back, rfl, hfront⟩ := List.find?_eq_some_iff_append.mp hfind
    simp only [decide_eq_true_eq] at hkey
    rcases List.mem_append.mp hmem with hin | hin
    · have hnot := hfront a hin
      simp at hnot
    · rcases List.mem_cons.mp hin with rfl | hin
      · rfl
      · have hbefore : before found a :=
          (List.pairwise_cons.mp (List.pairwise_append.mp h).2.1).1 a hin hkey
        rcases hleast found (by simp) hkey with heq | hafter
        · rw [heq]
        · exact absurd hbefore (hasymm _ _ hafter)

theorem find_perm {xs ys : List α} (hx : Ordered key before xs) (hy : Ordered key before ys)
    (hasymm : ∀ a b, before a b → ¬ before b a) (hperm : xs.Perm ys) (k : κ) :
    xs.find? (fun a => key a = k) = ys.find? (fun a => key a = k) := by
  cases hfind : xs.find? (fun a => key a = k) with
  | none =>
    symm
    rw [List.find?_eq_none] at hfind ⊢
    intro a ha
    exact hfind a (hperm.mem_iff.mpr ha)
  | some found =>
    obtain ⟨hkey, front, back, hsplit, hfront⟩ := List.find?_eq_some_iff_append.mp hfind
    simp only [decide_eq_true_eq] at hkey
    subst hkey
    symm
    apply find_eq_some hy hasymm (hperm.mem_iff.mp (List.mem_of_find?_eq_some hfind))
    intro b hb hbkey
    rw [← hperm.mem_iff, hsplit] at hb
    rw [hsplit] at hx
    rcases List.mem_append.mp hb with hin | hin
    · have hnot := hfront b hin
      simp [hbkey] at hnot
    · rcases List.mem_cons.mp hin with rfl | hin
      · exact .inl rfl
      · right
        exact (List.pairwise_cons.mp (List.pairwise_append.mp hx).2.1).1 b hin hbkey.symm

end Lookup

section Runs

theorem last_of_runs_sublist (key : α → κ) (keep : κ → Bool) (xs : List α) :
    (lastOfRuns key keep xs).Sublist xs := by
  induction xs with
  | nil => exact .refl _
  | cons a xs ih =>
    unfold lastOfRuns
    split_ifs
    · exact ih.cons _
    · exact ih.cons_cons _

theorem first_of_runs_sublist (key : α → κ) (keep : κ → Bool) (previous : Option κ) (xs : List α) :
    (firstOfRuns key keep previous xs).Sublist xs := by
  induction xs generalizing previous with
  | nil => exact .refl _
  | cons a xs ih =>
    unfold firstOfRuns
    split_ifs
    · exact (ih _).cons _
    · exact (ih _).cons_cons _

theorem last_of_runs_map {β : Type*} (f : β → α) (key : α → κ) (keep : κ → Bool) (xs : List β) :
    lastOfRuns key keep (xs.map f) = (lastOfRuns (key ∘ f) keep xs).map f := by
  induction xs with
  | nil => rfl
  | cons a xs ih =>
    have hhead : (xs.map f).head?.any (fun b => key b = key (f a)) =
        xs.head?.any fun b => (key ∘ f) b = (key ∘ f) a := by
      cases xs <;> rfl
    simp only [List.map_cons, lastOfRuns, hhead, ih, Function.comp_apply]
    split_ifs <;> rfl

theorem first_of_runs_map {β : Type*} (f : β → α) (key : α → κ) (keep : κ → Bool)
    (previous : Option κ) (xs : List β) :
    firstOfRuns key keep previous (xs.map f) = (firstOfRuns (key ∘ f) keep previous xs).map f := by
  induction xs generalizing previous with
  | nil => rfl
  | cons a xs ih =>
    simp only [List.map_cons, firstOfRuns, ih, Function.comp_apply]
    split_ifs <;> rfl

end Runs

section Sorted

variable {κ : Type*} [LinearOrder κ] {key : α → κ} {keep : κ → Bool} {xs : List α}

def Sorted (key : α → κ) (xs : List α) : Prop := xs.Pairwise fun a b => key a ≤ key b

theorem Sorted.head_le {a : α} (h : Sorted key (a :: xs)) {b : α} (hb : b ∈ xs) : key a ≤ key b :=
  (List.pairwise_cons.mp h).1 b hb

theorem Sorted.tail {a : α} (h : Sorted key (a :: xs)) : Sorted key xs := (List.pairwise_cons.mp h).2

/-- Where the next key differs, the key does not come again. -/
theorem Sorted.head_lt {a : α} (h : Sorted key (a :: xs))
    (hnext : xs.head?.any (fun b => key b = key a) = false) {b : α} (hb : b ∈ xs) :
    key a < key b := by
  cases xs with
  | nil => cases hb
  | cons c xs =>
    simp only [List.head?_cons, Option.any_some, decide_eq_false_iff_not] at hnext
    have hac : key a < key c := lt_of_le_of_ne (h.head_le (by simp)) (Ne.symm hnext)
    rcases List.mem_cons.mp hb with rfl | hb
    · exact hac
    · exact lt_of_lt_of_le hac (h.tail.head_le hb)

theorem find_none_of_lt {k : κ} (h : ∀ b ∈ xs, k < key b) : xs.find? (fun b => key b = k) = none := by
  rw [List.find?_eq_none]
  intro b hb
  simpa using (ne_of_lt (h b hb)).symm

theorem last_of_runs_find (h : Sorted key xs) (k : κ) :
    (lastOfRuns key keep xs).find? (fun a => key a = k) =
      if keep k then xs.reverse.find? (fun a => key a = k) else none := by
  induction xs with
  | nil => simp [lastOfRuns]
  | cons a xs ih =>
    have hrest := ih h.tail
    rw [List.reverse_cons, List.find?_append]
    simp only [lastOfRuns]
    by_cases hkey : key a = k
    · subst hkey
      by_cases hnext : xs.head?.any (fun b => key b = key a) = true
      · -- The run goes on, so its last element is in the rest.
        rw [hnext, Bool.true_or, if_pos rfl, hrest]
        have hsome : (xs.reverse.find? fun b => key b = key a).isSome = true := by
          obtain ⟨b, hb, hbkey⟩ := (Option.any_eq_true _ _).mp hnext
          rw [List.find?_isSome]
          exact ⟨b, List.mem_reverse.mpr (List.mem_of_mem_head? hb), hbkey⟩
        obtain ⟨found, hfound⟩ := Option.isSome_iff_exists.mp hsome
        rw [hfound, Option.some_or]
      · rw [Bool.not_eq_true] at hnext
        rw [hnext, Bool.false_or]
        by_cases hkeep : keep (key a) = true
        · have hlater : xs.reverse.find? (fun b => key b = key a) = none := by
            apply find_none_of_lt
            intro b hb
            exact h.head_lt hnext (List.mem_reverse.mp hb)
          simp [hkeep, hlater]
        · simp [hkeep, hrest]
    · have hone : [a].find? (fun b => key b = k) = none := by simp [hkey]
      rw [hone, Option.or_none, ← hrest]
      split_ifs
      · rfl
      · simp [hkey]

theorem last_of_runs_nodup (h : Sorted key xs) : ((lastOfRuns key keep xs).map key).Nodup := by
  induction xs with
  | nil => exact List.nodup_nil
  | cons a xs ih =>
    unfold lastOfRuns
    split_ifs with hskip
    · exact ih h.tail
    · rw [List.map_cons, List.nodup_cons]
      refine ⟨?_, ih h.tail⟩
      intro hmem
      obtain ⟨b, hb, hkey⟩ := List.mem_map.mp hmem
      rw [Bool.or_eq_true, not_or, Bool.not_eq_true] at hskip
      exact ne_of_lt (h.head_lt hskip.1 ((last_of_runs_sublist key keep xs).subset hb)) hkey.symm

theorem first_of_runs_find (h : Sorted key xs) {previous : Option κ}
    (hprevious : ∀ p ∈ previous, ∀ a ∈ xs, p ≤ key a) (k : κ) :
    (firstOfRuns key keep previous xs).find? (fun a => key a = k) =
      if keep k && previous ≠ some k then xs.find? (fun a => key a = k) else none := by
  induction xs generalizing previous with
  | nil => simp [firstOfRuns]
  | cons a xs ih =>
    have hnext : ∀ p ∈ some (key a), ∀ b ∈ xs, p ≤ key b := by
      rintro p ⟨⟩ b hb
      exact h.head_le hb
    have hrest := ih h.tail hnext
    simp only [firstOfRuns]
    by_cases hkey : key a = k
    · subst hkey
      have hlater : (firstOfRuns key keep (some (key a)) xs).find? (fun b => key b = key a) = none := by
        simp [hrest]
      by_cases hprev : previous = some (key a)
      · simp [hprev, hlater]
      · by_cases hkeep : keep (key a) = true
        · simp [hprev, hkeep]
        · simp [hkeep, hlater]
    · have hskipped : (a :: xs).find? (fun b => key b = k) = xs.find? fun b => key b = k := by
        simp [hkey]
      have hsame : (if keep k && (some (key a) : Option κ) ≠ some k then
          xs.find? (fun b => key b = k) else none) =
            if keep k && previous ≠ some k then xs.find? (fun b => key b = k) else none := by
        by_cases hprev : previous = some k
        · -- Every later key is above the one before the list.
          have hle : k ≤ key a := hprevious k hprev a (by simp)
          have hnone : xs.find? (fun b => key b = k) = none := by
            apply find_none_of_lt
            intro b hb
            exact lt_of_lt_of_le (lt_of_le_of_ne hle (Ne.symm hkey)) (h.head_le hb)
          simp [hnone]
        · simp [hkey, hprev]
      rw [hskipped, ← hsame, ← hrest]
      split_ifs
      · rfl
      · simp [hkey]

theorem first_of_runs_nodup (h : Sorted key xs) {previous : Option κ}
    (hprevious : ∀ p ∈ previous, ∀ a ∈ xs, p ≤ key a) :
    ((firstOfRuns key keep previous xs).map key).Nodup := by
  induction xs generalizing previous with
  | nil => exact List.nodup_nil
  | cons a xs ih =>
    have hnext : ∀ p ∈ some (key a), ∀ b ∈ xs, p ≤ key b := by
      rintro p ⟨⟩ b hb
      exact h.head_le hb
    unfold firstOfRuns
    split_ifs
    · exact ih h.tail hnext
    · rw [List.map_cons, List.nodup_cons]
      refine ⟨?_, ih h.tail hnext⟩
      intro hmem
      obtain ⟨b, hb, hkey⟩ := List.mem_map.mp hmem
      have hfind : (firstOfRuns key keep (some (key a)) xs).find? (fun b => key b = key a) = none := by
        rw [first_of_runs_find h.tail hnext]
        simp
      exact absurd hkey (by simpa using List.find?_eq_none.mp hfind b hb)

end Sorted

end KeyedRuns
