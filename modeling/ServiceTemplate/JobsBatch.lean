import ServiceTemplate.JobsTable

/-! One batch of completions: the list it was taken as, the statement that completes it and the
flags read from its answer. The batch statement does what one COMPLETE after another does. -/
namespace JobsBatch

open JobsTable
open scoped List

section SwapRemove

variable {α : Type*}

def swapRemove (xs : List α) (index : ℕ) : List α :=
  match xs.getLast? with
  | none => []
  | some last => (xs.set index last).dropLast

theorem swap_remove_perm {xs : List α} {index : ℕ} {x : α} (h : xs[index]? = some x) :
    xs.Perm (x :: swapRemove xs index) := by
  obtain ⟨hindex, rfl⟩ := List.getElem?_eq_some_iff.mp h
  rcases List.eq_nil_or_concat xs with rfl | ⟨front, last, rfl⟩
  · cases hindex
  · simp only [List.concat_eq_append, List.length_append, List.length_singleton] at hindex ⊢
    have hremoved : swapRemove (front ++ [last]) index = ((front ++ [last]).set index last).dropLast := by
      rw [swapRemove, List.getLast?_concat]
    rw [hremoved]
    by_cases hlast : index = front.length
    · subst hlast
      rw [List.set_append_right _ _ (Nat.le_refl _), Nat.sub_self, List.set_cons_zero,
        List.dropLast_concat, List.getElem_concat_length rfl]
      exact List.perm_append_comm
    · have hfront : index < front.length := by omega
      rw [List.set_append_left _ _ hfront, List.dropLast_concat, List.getElem_append_left hfront]
      -- The hole at `index` is filled by `last`.
      have hsplit : front = front.take index ++ front[index] :: front.drop (index + 1) := by
        rw [← List.drop_eq_getElem_cons hfront, List.take_append_drop]
      calc front ++ [last] ~ last :: front := List.perm_append_comm
        _ ~ last :: (front.take index ++ front[index] :: front.drop (index + 1)) := by
            rw [← hsplit]
        _ ~ last :: front[index] :: (front.take index ++ front.drop (index + 1)) :=
            List.perm_middle.cons _
        _ ~ front[index] :: last :: (front.take index ++ front.drop (index + 1)) :=
            List.Perm.swap _ _ _
        _ ~ front[index] :: front.set index last := by
            rw [List.set_eq_take_append_cons_drop, if_pos hfront]
            exact List.perm_middle.symm.cons _

theorem mem_of_mem_swap_remove {xs : List α} {index : ℕ} {x y : α} (h : xs[index]? = some x)
    (hy : y ∈ swapRemove xs index) : y ∈ xs :=
  (swap_remove_perm h).mem_iff.mpr (List.mem_cons_of_mem _ hy)

end SwapRemove

abbrev Key := JobId × ℕ

def Row.heldBy (row : Row) (key : Key) : Bool := row.id = key.1 && row.fencedBy key.2

def complete (now : Time) (rows : List Row) (key : Key) : List Row × ℕ :=
  (rows.map fun row => if Row.heldBy row key then row.execute now .complete else row,
    rows.countP fun row => Row.heldBy row key)

def completeBatch (now : Time) (rows : List Row) (keys : List Key) : List Row :=
  rows.map fun row => if keys.any (Row.heldBy row) then row.execute now .complete else row

def completedBy (rows : List Row) (keys : List Key) : List Key :=
  (rows.filter fun row => keys.any (Row.heldBy row)).map fun row => (row.id, row.claimGeneration)

def completeEach (now : Time) (rows : List Row) (keys : List Key) : List Row :=
  keys.foldl (fun rows key => (complete now rows key).1) rows

theorem held_by_iff {row : Row} {key : Key} :
    Row.heldBy row key = true ↔
      (row.id, row.claimGeneration) = key ∧ row.claimExpiresAt.isSome = true := by
  obtain ⟨id, generation⟩ := key
  simp only [Row.heldBy, Row.fencedBy, Bool.and_eq_true, decide_eq_true_eq, Prod.mk.injEq,
    and_assoc]

theorem completed_not_held (row : Row) (now : Time) (key : Key) :
    Row.heldBy (row.execute now .complete) key = false := by
  simp [Row.heldBy, Row.fencedBy, Row.execute]

theorem complete_each (now : Time) (keys : List Key) (rows : List Row) :
    completeEach now rows keys = completeBatch now rows keys := by
  induction keys generalizing rows with
  | nil => simp [completeEach, completeBatch]
  | cons key keys ih =>
    have htail : completeEach now rows (key :: keys) =
        completeEach now (complete now rows key).1 keys := rfl
    rw [htail, ih, completeBatch, completeBatch, complete, List.map_map]
    refine List.map_congr_left fun row _ => ?_
    rw [Function.comp_apply, List.any_cons]
    by_cases hheld : Row.heldBy row key = true
    · have hno : keys.any (Row.heldBy (row.execute now .complete)) = false := by
        rw [List.any_eq_false]
        intro other _
        rw [completed_not_held]
        exact Bool.false_ne_true
      rw [if_pos hheld, hno, hheld]
      rfl
    · rw [if_neg hheld, Bool.eq_false_iff.mpr hheld, Bool.false_or]

theorem mem_completed_by {rows : List Row} {keys : List Key} {key : Key} :
    key ∈ completedBy rows keys ↔ key ∈ keys ∧ ∃ row ∈ rows, Row.heldBy row key = true := by
  simp only [completedBy, List.mem_map, List.mem_filter, List.any_eq_true]
  constructor
  · rintro ⟨row, ⟨hrow, other, hother, hheld⟩, rfl⟩
    obtain ⟨rfl, hlease⟩ := held_by_iff.mp hheld
    exact ⟨hother, row, hrow, hheld⟩
  · rintro ⟨hkey, row, hrow, hheld⟩
    exact ⟨row, ⟨hrow, key, hkey, hheld⟩, (held_by_iff.mp hheld).1⟩

def UniqueIds (rows : List Row) : Prop := (rows.map Row.id).Nodup

instance (rows : List Row) : Decidable (UniqueIds rows) := inferInstanceAs (Decidable (List.Nodup _))

theorem held_count {rows : List Row} (hrows : UniqueIds rows) (key : Key) :
    (rows.countP fun row => Row.heldBy row key) =
      if ∃ row ∈ rows, Row.heldBy row key = true then 1 else 0 := by
  have hle : (rows.countP fun row => Row.heldBy row key) ≤ 1 := by
    have hcount : (rows.map Row.id).count key.1 ≤ 1 := List.nodup_iff_count_le_one.mp hrows key.1
    rw [List.count, List.countP_map] at hcount
    refine Nat.le_trans (List.countP_mono_left ?_) hcount
    intro row _ hheld
    simp only [Row.heldBy, Bool.and_eq_true, decide_eq_true_eq] at hheld
    simpa using hheld.1
  by_cases hexists : ∃ row ∈ rows, Row.heldBy row key = true
  · rw [if_pos hexists]
    exact Nat.le_antisymm hle (List.countP_pos_iff.mpr hexists)
  · rw [if_neg hexists, List.countP_eq_zero]
    exact fun row hrow hheld => hexists ⟨row, hrow, hheld⟩

theorem complete_batch_ids (now : Time) (rows : List Row) (keys : List Key) :
    (completeBatch now rows keys).map Row.id = rows.map Row.id := by
  rw [completeBatch, List.map_map]
  refine List.map_congr_left fun row _ => ?_
  rw [Function.comp_apply]
  split <;> rfl

/-- What a COMPLETE affects after the ones before it, when no pair occurs twice. -/
theorem affected_each {rows : List Row} (hrows : UniqueIds rows) (now : Time) {front back : List Key}
    {key : Key} (hkeys : (front ++ key :: back).Nodup) :
    (complete now (completeEach now rows front) key).2 =
      if key ∈ completedBy rows (front ++ key :: back) then 1 else 0 := by
  have hunique : UniqueIds (completeBatch now rows front) := by
    rw [UniqueIds, complete_batch_ids]
    exact hrows
  have hother : key ∉ front := fun hmem =>
    List.disjoint_of_nodup_append hkeys hmem List.mem_cons_self
  have hheld : (∃ row ∈ completeBatch now rows front, Row.heldBy row key = true) ↔
      key ∈ completedBy rows (front ++ key :: back) := by
    rw [mem_completed_by]
    simp only [completeBatch, List.mem_map]
    constructor
    · rintro ⟨_, ⟨row, hrow, rfl⟩, hheld⟩
      split at hheld
      · rw [completed_not_held] at hheld
        cases hheld
      · exact ⟨List.mem_append_right _ List.mem_cons_self, row, hrow, hheld⟩
    · rintro ⟨_, row, hrow, hheld⟩
      refine ⟨row, ⟨row, hrow, if_neg ?_⟩, hheld⟩
      rw [List.any_eq_true]
      rintro ⟨earlier, hearlier, hsame⟩
      rw [← (held_by_iff.mp hheld).1, (held_by_iff.mp hsame).1] at hother
      exact hother hearlier
  rw [complete_each, complete, held_count hunique]
  simp only [hheld]

/-- The answer names every completed row once, by a position it has in the arrays. -/
def Answers (keys completed : List Key) (positions : List ℤ) : Prop :=
  (positions.map fun position =>
    if 1 ≤ position then keys[(position - 1).toNat]? else none).Perm (completed.map some)

instance (keys completed : List Key) (positions : List ℤ) :
    Decidable (Answers keys completed positions) := inferInstanceAs (Decidable (List.Perm _ _))

abbrev Answer := Except Unit Bool

/-- `*flag = Ok(true)` where the position has one. -/
def flag (applied : List Answer) (position : ℤ) : List Answer :=
  if 1 ≤ position then applied.set (position - 1).toNat (.ok true) else applied

def applied (count : ℕ) (positions : List ℤ) : List Answer :=
  positions.foldl flag (List.replicate count (.ok false))

theorem flag_length (flags : List Answer) (position : ℤ) :
    (flag flags position).length = flags.length := by
  unfold flag
  split
  · exact List.length_set
  · rfl

theorem flags_getElem (positions : List ℤ) (flags : List Answer) {index : ℕ}
    (hindex : index < flags.length) :
    (positions.foldl flag flags)[index]? =
      if ((index : ℤ) + 1) ∈ positions then some (.ok true) else flags[index]? := by
  induction positions generalizing flags with
  | nil => simp
  | cons position positions ih =>
    rw [List.foldl_cons, ih _ (by rw [flag_length]; exact hindex)]
    by_cases hlater : ((index : ℤ) + 1) ∈ positions
    · rw [if_pos hlater, if_pos (List.mem_cons_of_mem _ hlater)]
    · rw [if_neg hlater, flag]
      by_cases hhere : (index : ℤ) + 1 = position
      · have hpos : 1 ≤ position := by omega
        have hto : (position - 1).toNat = index := by omega
        rw [if_pos hpos, hto, List.getElem?_set_self hindex, hhere, if_pos List.mem_cons_self]
      · have hmem : ((index : ℤ) + 1) ∉ position :: positions := by
          rw [List.mem_cons, not_or]
          exact ⟨hhere, hlater⟩
        rw [if_neg hmem]
        split
        · exact List.getElem?_set_ne (by omega)
        · rfl

/-- Every flag is its own pair's: the answer is read by position. -/
theorem applied_getElem {keys completed : List Key} {positions : List ℤ} (hkeys : keys.Nodup)
    (hanswer : Answers keys completed positions) {index : ℕ} {key : Key}
    (hkey : keys[index]? = some key) :
    (applied keys.length positions)[index]? = some (.ok (decide (key ∈ completed))) := by
  obtain ⟨hindex, hget⟩ := List.getElem?_eq_some_iff.mp hkey
  have hmem : ((index : ℤ) + 1) ∈ positions ↔ key ∈ completed := by
    have hsome : key ∈ completed ↔ some key ∈ completed.map some :=
      (List.mem_map_of_injective (Option.some_injective _)).symm
    rw [hsome, ← hanswer.mem_iff, List.mem_map]
    constructor
    · intro hposition
      refine ⟨_, hposition, ?_⟩
      have hto : ((index : ℤ) + 1 - 1).toNat = index := by omega
      rw [if_pos (by omega), hto, hkey]
    · rintro ⟨position, hposition, hnamed⟩
      by_cases hpos : 1 ≤ position
      · rw [if_pos hpos] at hnamed
        obtain ⟨hother, hsame⟩ := List.getElem?_eq_some_iff.mp hnamed
        have hequal : (position - 1).toNat = index :=
          (List.Nodup.getElem_inj_iff hkeys).mp (hsame.trans hget.symm)
        have hback : position = (index : ℤ) + 1 := by omega
        rw [← hback]
        exact hposition
      · rw [if_neg hpos] at hnamed
        cases hnamed
  rw [applied, flags_getElem _ _ (by rw [List.length_replicate]; exact hindex),
    List.getElem?_replicate, if_pos hindex]
  by_cases hcompleted : key ∈ completed
  · rw [if_pos (hmem.mpr hcompleted), decide_eq_true hcompleted]
  · rw [if_neg (fun h => hcompleted (hmem.mp h)), decide_eq_false hcompleted]

end JobsBatch
