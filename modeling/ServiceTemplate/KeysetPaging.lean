import Mathlib.Data.List.Sort
import Mathlib.Data.List.Nodup

/-! Keyset paging: a collection read page by page in the order of a key, each page resuming
behind the last key of the one before it. A short page ends the reading. The collection may
change between two pages. -/
namespace KeysetPaging

variable {α κ : Type*} [LinearOrder κ] (key : α → κ)

def After (after : Option κ) (x : α) : Prop := ∀ k ∈ after, k < key x

instance (after : Option κ) (x : α) : Decidable (After key after x) :=
  match after with
  | none => isTrue (by simp [After])
  | some k => decidable_of_iff (k < key x) (by simp [After])

def page (after : Option κ) (limit : ℕ) (rows : List α) : List α :=
  ((rows.filter fun x => After key after x).insertionSort fun x y => key x ≤ key y).take limit

def pages (limit : ℕ) : Option κ → List (List α) → List (List α)
  | _, [] => []
  | after, rows :: rest =>
    let read := page key after limit rows
    if read.length < limit then [read] else read :: pages limit (read.getLast?.map key) rest

def Finished (limit : ℕ) (read : List (List α)) : Prop := ∃ last ∈ read.getLast?, last.length < limit

variable {key} {after : Option κ} {limit : ℕ} {rows : List α} {x : α}

theorem mem_page (h : x ∈ page key after limit rows) : x ∈ rows ∧ After key after x := by
  have hmem := (List.mem_insertionSort _).mp (List.mem_of_mem_take h)
  simpa using hmem

theorem page_sorted (hkeys : (rows.map key).Nodup) :
    (page key after limit rows).Pairwise fun x y => key x < key y := by
  let behind := rows.filter fun x => After key after x
  have hsorted : (behind.insertionSort fun x y => key x ≤ key y).Pairwise fun x y => key x ≤ key y :=
    List.pairwise_insertionSort _ _
  have hnodup : ((behind.insertionSort fun x y => key x ≤ key y).map key).Nodup := by
    apply (((List.perm_insertionSort _ behind).map key).nodup_iff).mpr
    exact hkeys.sublist (List.filter_sublist.map key)
  have hstrict : (behind.insertionSort fun x y => key x ≤ key y).Pairwise fun x y =>
      key x < key y := by
    refine (hsorted.and (List.pairwise_map.mp hnodup)).imp ?_
    rintro x y ⟨hle, hne⟩
    exact lt_of_le_of_ne hle hne
  exact hstrict.sublist (List.take_sublist _ _)

/-- What a page leaves out lies behind all of a full page. -/
theorem page_full (hx : x ∈ rows) (hafter : After key after x)
    (hout : x ∉ page key after limit rows) :
    (page key after limit rows).length = limit ∧ ∀ y ∈ page key after limit rows, key y ≤ key x := by
  let sorted := (rows.filter fun x => After key after x).insertionSort fun x y => key x ≤ key y
  have hmem : x ∈ sorted := by
    apply (List.mem_insertionSort _).mpr
    simp [hx, hafter]
  have hsorted : sorted.Pairwise fun x y => key x ≤ key y := List.pairwise_insertionSort _ _
  rw [← List.take_append_drop limit sorted] at hmem hsorted
  have hbehind : x ∈ sorted.drop limit := (List.mem_append.mp hmem).resolve_left hout
  constructor
  · have hpos := List.length_pos_of_mem hbehind
    rw [List.length_drop] at hpos
    have hlength : (page key after limit rows).length = min limit sorted.length := List.length_take
    omega
  · intro y hy
    exact (List.pairwise_append.mp hsorted).2.2 y hy x hbehind

/-- The cursor behind a full page admits exactly what lies behind the page's last key. -/
theorem after_last {read : List α} {last : α} (hlast : read.getLast? = some last) :
    After key (read.getLast?.map key) x ↔ key last < key x := by
  simp [After, hlast]

theorem page_last_greatest (hkeys : (rows.map key).Nodup) {last : α}
    (hlast : (page key after limit rows).getLast? = some last) :
    ∀ y ∈ page key after limit rows, key y ≤ key last := by
  intro y hy
  obtain ⟨front, hsplit⟩ := List.getLast?_eq_some_iff.mp hlast
  have hsorted : (page key after limit rows).Pairwise fun x y => key x < key y := page_sorted hkeys
  rw [hsplit, List.pairwise_append] at hsorted
  rw [hsplit, List.mem_append, List.mem_singleton] at hy
  rcases hy with hy | rfl
  · exact le_of_lt (hsorted.2.2 y hy last (List.mem_singleton_self _))
  · exact le_refl _

theorem pages_length_le (after : Option κ) (limit : ℕ) (tables : List (List α)) :
    (pages key limit after tables).length ≤ tables.length := by
  induction tables generalizing after with
  | nil => exact Nat.le_refl 0
  | cons rows rest ih =>
    simp only [pages]
    split
    · simp
    · exact Nat.succ_le_succ (ih _)

theorem mem_pages {tables : List (List α)} (h : x ∈ (pages key limit after tables).flatten) :
    ∃ rows ∈ tables, x ∈ rows := by
  induction tables generalizing after with
  | nil => simp [pages] at h
  | cons rows rest ih =>
    simp only [pages] at h
    split at h
    · rw [List.flatten_singleton] at h
      exact ⟨rows, List.mem_cons_self, (mem_page h).1⟩
    · rw [List.flatten_cons, List.mem_append] at h
      rcases h with h | h
      · exact ⟨rows, List.mem_cons_self, (mem_page h).1⟩
      · obtain ⟨rows', hmem, hx⟩ := ih h
        exact ⟨rows', List.mem_cons_of_mem rows hmem, hx⟩

/-- A full page of a positive limit has a last element. -/
theorem full_page_last (hlimit : 0 < limit) (hfull : ¬ (page key after limit rows).length < limit) :
    ∃ last, (page key after limit rows).getLast? = some last := by
  cases hlast : (page key after limit rows).getLast? with
  | none =>
    rw [List.getLast?_eq_none_iff.mp hlast, List.length_nil] at hfull
    exact absurd hlimit hfull
  | some last => exact ⟨last, rfl⟩

theorem pages_after (hlimit : 0 < limit) {tables : List (List α)}
    (h : x ∈ (pages key limit after tables).flatten) : After key after x := by
  induction tables generalizing after with
  | nil => simp [pages] at h
  | cons rows rest ih =>
    simp only [pages] at h
    split at h
    · rw [List.flatten_singleton] at h
      exact (mem_page h).2
    · rename_i hfull
      rw [List.flatten_cons, List.mem_append] at h
      rcases h with h | h
      · exact (mem_page h).2
      · obtain ⟨last, hlast⟩ := full_page_last hlimit hfull
        have hlt := (after_last hlast).mp (ih h)
        intro k hk
        exact lt_trans ((mem_page (List.mem_of_getLast? hlast)).2 k hk) hlt

theorem pages_sorted (hlimit : 0 < limit) {tables : List (List α)}
    (hkeys : ∀ rows ∈ tables, (rows.map key).Nodup) :
    (pages key limit after tables).flatten.Pairwise fun x y => key x < key y := by
  induction tables generalizing after with
  | nil => simp [pages]
  | cons rows rest ih =>
    have hrows := hkeys rows List.mem_cons_self
    simp only [pages]
    split
    · rw [List.flatten_singleton]
      exact page_sorted hrows
    · rename_i hfull
      obtain ⟨last, hlast⟩ := full_page_last hlimit hfull
      rw [List.flatten_cons, List.pairwise_append]
      refine ⟨page_sorted hrows, ih fun r hr => hkeys r (List.mem_cons_of_mem rows hr), ?_⟩
      intro y hy x hx
      have hlt := (after_last hlast).mp (pages_after hlimit hx)
      exact lt_of_le_of_lt (page_last_greatest hrows hlast y hy) hlt

theorem finished_cons {read : List α} {rest : List (List α)} (hfull : ¬ read.length < limit) :
    Finished limit (read :: rest) ↔ Finished limit rest := by
  cases rest with
  | nil => simp [Finished, Nat.not_lt.mp hfull]
  | cons next rest => simp [Finished, List.getLast?_cons_cons]

/-- What is there for every page read, behind the cursor, is read. -/
theorem mem_pages_of_persistent (hlimit : 0 < limit) {tables : List (List α)}
    (hkeys : ∀ rows ∈ tables, (rows.map key).Nodup)
    (hfinished : Finished limit (pages key limit after tables)) (hafter : After key after x)
    (hx : ∀ rows ∈ tables.take (pages key limit after tables).length, x ∈ rows) :
    x ∈ (pages key limit after tables).flatten := by
  induction tables generalizing after with
  | nil => simp [pages, Finished] at hfinished
  | cons rows rest ih =>
    simp only [pages] at hfinished hx ⊢
    split at hfinished
    · rename_i hshort
      rw [if_pos hshort] at hx ⊢
      have hrow : x ∈ rows := hx rows (by simp)
      rw [List.flatten_singleton]
      by_contra hout
      exact absurd (page_full hrow hafter hout).1 (Nat.ne_of_lt hshort)
    · rename_i hfull
      rw [if_neg hfull, List.length_cons, List.take_succ_cons, List.forall_mem_cons] at hx
      rw [if_neg hfull, List.flatten_cons, List.mem_append]
      by_cases hread : x ∈ page key after limit rows
      · exact .inl hread
      · -- a full page without `x` ends before it
        right
        obtain ⟨last, hlast⟩ := full_page_last hlimit hfull
        have hmem := List.mem_of_getLast? hlast
        have hle := (page_full hx.1 hafter hread).2 last hmem
        have hne : key last ≠ key x := by
          intro heq
          have hsame := List.inj_on_of_nodup_map (hkeys rows List.mem_cons_self)
            (mem_page hmem).1 hx.1 heq
          exact hread (hsame ▸ hmem)
        exact ih (fun r hr => hkeys r (List.mem_cons_of_mem rows hr))
          ((finished_cons hfull).mp hfinished)
          ((after_last hlast).mpr (lt_of_le_of_ne hle hne)) hx.2

def remaining (key : α → κ) (after : Option κ) (rows : List α) : List α :=
  rows.filter fun x => After key after x

theorem remaining_full (hlimit : 0 < limit) (hkeys : (rows.map key).Nodup)
    (hfull : ¬ (page key after limit rows).length < limit) :
    (remaining key ((page key after limit rows).getLast?.map key) rows).length + limit ≤
      (remaining key after rows).length := by
  obtain ⟨last, hlast⟩ := full_page_last hlimit hfull
  let sorted := (remaining key after rows).insertionSort fun x y => key x ≤ key y
  have hlength : sorted.length = (remaining key after rows).length := List.length_insertionSort _ _
  have hsubset : remaining key ((page key after limit rows).getLast?.map key) rows ⊆
      sorted.drop limit := by
    intro x hx
    obtain ⟨hrow, hbehind⟩ := List.mem_filter.mp hx
    have hlt := (after_last hlast).mp (of_decide_eq_true hbehind)
    have hafter : After key after x := by
      intro k hk
      exact lt_trans ((mem_page (List.mem_of_getLast? hlast)).2 k hk) hlt
    have hmem : x ∈ sorted := by
      apply (List.mem_insertionSort _).mpr
      simp [remaining, hrow, hafter]
    rw [← List.take_append_drop limit sorted, List.mem_append] at hmem
    apply hmem.resolve_left
    intro hread
    exact absurd hlt (not_lt_of_ge (page_last_greatest hkeys hlast x hread))
  have hnodup : (remaining key ((page key after limit rows).getLast?.map key) rows).Nodup :=
    (List.Nodup.of_map key hkeys).filter _
  have hle := (List.subperm_of_subset hnodup hsubset).length_le
  have hpage : (page key after limit rows).length = min limit sorted.length := List.length_take
  rw [List.length_drop] at hle
  omega

theorem pages_finished (hlimit : 0 < limit) (hkeys : (rows.map key).Nodup) {n : ℕ}
    (hn : (remaining key after rows).length / limit + 1 ≤ n) :
    Finished limit (pages key limit after (List.replicate n rows)) := by
  induction n generalizing after with
  | zero => exact absurd hn (Nat.not_succ_le_zero _)
  | succ n ih =>
    rw [List.replicate_succ]
    simp only [pages]
    split
    · rename_i hshort
      exact ⟨_, rfl, hshort⟩
    · rename_i hfull
      rw [finished_cons hfull]
      apply ih
      have hstep : _ / limit ≤ _ / limit :=
        Nat.div_le_div_right (remaining_full hlimit hkeys hfull)
      rw [Nat.add_div_right _ hlimit] at hstep
      omega

end KeysetPaging
