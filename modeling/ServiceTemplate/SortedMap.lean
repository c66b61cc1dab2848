import Mathlib.Order.Defs.LinearOrder
import Mathlib.Order.Basic
import Mathlib.Order.Lattice
import Mathlib.Data.List.Nodup
import Mathlib.Data.List.Perm.Basic

/-! Maps as lists sorted by their keys. Sorted lists with equal lookups are equal, so a map built
by insertions does not remember their order. -/

/-- Entries with strictly increasing keys. -/
@[ext] structure SortedMap (K V : Type*) [LinearOrder K] where
  entries : List (K × V)
  sorted : entries.Pairwise fun a b => a.1 < b.1

namespace SortedMap

variable {K V W : Type*} [LinearOrder K] {k l : K} {v : V}

def empty : SortedMap K V := ⟨[], .nil⟩

def lookup (k : K) : List (K × V) → Option V
  | [] => none
  | (l, v) :: rest => if k = l then some v else lookup k rest

def get? (m : SortedMap K V) (k : K) : Option V := lookup k m.entries

def insertEntry (k : K) (v : V) : List (K × V) → List (K × V)
  | [] => [(k, v)]
  | (l, w) :: rest =>
    if k < l then (k, v) :: (l, w) :: rest
    else if k = l then (k, v) :: rest
    else (l, w) :: insertEntry k v rest

theorem mem_insert_entry {entries : List (K × V)} {e : K × V} (h : e ∈ insertEntry k v entries) :
    e = (k, v) ∨ e ∈ entries := by
  induction entries with
  | nil => exact .inl (List.mem_singleton.mp h)
  | cons head rest ih =>
    obtain ⟨l, w⟩ := head
    simp only [insertEntry] at h
    split at h
    · exact List.mem_cons.mp h
    · split at h
      · exact (List.mem_cons.mp h).imp_right (List.mem_cons_of_mem _)
      · rcases List.mem_cons.mp h with rfl | h
        · exact .inr List.mem_cons_self
        · exact (ih h).imp_right (List.mem_cons_of_mem _)

theorem insert_entry_sorted {entries : List (K × V)} (h : entries.Pairwise fun a b => a.1 < b.1) :
    (insertEntry k v entries).Pairwise fun a b => a.1 < b.1 := by
  induction entries with
  | nil => exact List.pairwise_singleton _ _
  | cons head rest ih =>
    obtain ⟨l, w⟩ := head
    obtain ⟨hhead, hrest⟩ := List.pairwise_cons.mp h
    simp only [insertEntry]
    split
    · rename_i hlt
      refine List.pairwise_cons.mpr ⟨?_, h⟩
      intro e he
      rcases List.mem_cons.mp he with rfl | he
      · exact hlt
      · exact hlt.trans (hhead e he)
    · split
      · rename_i heq
        subst heq
        exact List.pairwise_cons.mpr ⟨hhead, hrest⟩
      · rename_i hle hne
        refine List.pairwise_cons.mpr ⟨?_, ih hrest⟩
        intro e he
        rcases mem_insert_entry he with rfl | he
        · exact lt_of_le_of_ne (not_lt.mp hle) (Ne.symm hne)
        · exact hhead e he

def insert (m : SortedMap K V) (k : K) (v : V) : SortedMap K V :=
  ⟨insertEntry k v m.entries, insert_entry_sorted m.sorted⟩

def ofList (entries : List (K × V)) : SortedMap K V :=
  entries.foldl (fun m entry => m.insert entry.1 entry.2) empty

def mapValues (f : V → W) (m : SortedMap K V) : SortedMap K W where
  entries := m.entries.map fun entry => (entry.1, f entry.2)
  sorted := List.pairwise_map.mpr m.sorted

def extend (m n : SortedMap K V) : SortedMap K V :=
  n.entries.foldl (fun m entry => m.insert entry.1 entry.2) m

@[simp] theorem get_empty : (empty : SortedMap K V).get? k = none := rfl

theorem lookup_insert_entry (entries : List (K × V)) :
    lookup l (insertEntry k v entries) = if l = k then some v else lookup l entries := by
  induction entries with
  | nil => rfl
  | cons head rest ih =>
    obtain ⟨l', w⟩ := head
    simp only [insertEntry]
    split
    · rfl
    · split
      · rename_i heq
        subst heq
        by_cases hl : l = k
        · simp [lookup, hl]
        · simp [lookup, hl]
      · rename_i hne
        by_cases hl : l = l'
        · subst hl
          simp [lookup, Ne.symm hne]
        · simp [lookup, hl, ih]

theorem get_insert (m : SortedMap K V) :
    (m.insert k v).get? l = if l = k then some v else m.get? l :=
  lookup_insert_entry m.entries

@[simp] theorem get_insert_self (m : SortedMap K V) : (m.insert k v).get? k = some v := by
  rw [get_insert, if_pos rfl]

theorem get_insert_ne (m : SortedMap K V) (h : l ≠ k) : (m.insert k v).get? l = m.get? l := by
  rw [get_insert, if_neg h]

theorem lookup_map (f : K → V → W) (entries : List (K × V)) :
    lookup k (entries.map fun entry => (entry.1, f entry.1 entry.2)) =
      (lookup k entries).map (f k) := by
  induction entries with
  | nil => rfl
  | cons head rest ih =>
    by_cases hk : k = head.1
    · simp [lookup, hk]
    · simp [lookup, hk, ih]

theorem get_map_values (f : V → W) (m : SortedMap K V) : (m.mapValues f).get? k = (m.get? k).map f :=
  lookup_map (fun _ => f) m.entries

theorem lookup_mem {entries : List (K × V)} (h : lookup k entries = some v) : (k, v) ∈ entries := by
  induction entries with
  | nil => cases h
  | cons head rest ih =>
    obtain ⟨l, w⟩ := head
    simp only [lookup] at h
    split at h
    · rename_i heq
      cases h
      rw [heq]
      exact List.mem_cons_self
    · exact List.mem_cons_of_mem _ (ih h)

theorem lookup_of_mem {entries : List (K × V)} (hsorted : entries.Pairwise fun a b => a.1 < b.1)
    (h : (k, v) ∈ entries) : lookup k entries = some v := by
  induction entries with
  | nil => cases h
  | cons head rest ih =>
    obtain ⟨hhead, hrest⟩ := List.pairwise_cons.mp hsorted
    rcases List.mem_cons.mp h with rfl | h
    · simp [lookup]
    · have hne : k ≠ head.1 := (hhead _ h).ne'
      simp only [lookup, hne, if_false]
      exact ih hrest h

theorem get_some {m : SortedMap K V} : m.get? k = some v ↔ (k, v) ∈ m.entries :=
  ⟨lookup_mem, lookup_of_mem m.sorted⟩

theorem ext_get {m n : SortedMap K V} (h : ∀ k, m.get? k = n.get? k) : m = n := by
  have hmem : ∀ e, e ∈ m.entries ↔ e ∈ n.entries := by
    intro e
    rw [← get_some (k := e.1) (v := e.2), ← get_some (k := e.1) (v := e.2), h]
  have hnodup : ∀ m : SortedMap K V, m.entries.Nodup := fun m =>
    m.sorted.imp fun hlt heq => hlt.ne (congrArg Prod.fst heq)
  have hperm : m.entries.Perm n.entries :=
    (List.perm_ext_iff_of_nodup (hnodup m) (hnodup n)).mpr hmem
  apply SortedMap.ext
  exact hperm.eq_of_pairwise (fun a b _ _ hab hba => absurd hab (lt_asymm hba)) m.sorted n.sorted

theorem insert_present {m : SortedMap K V} (h : m.get? k = some v) : m.insert k v = m := by
  apply ext_get
  intro l
  rw [get_insert]
  by_cases hl : l = k
  · rw [if_pos hl, hl, h]
  · rw [if_neg hl]

theorem get_foldl_insert (m : SortedMap K V) {entries : List (K × V)}
    (hsorted : entries.Pairwise fun a b => a.1 < b.1) :
    (entries.foldl (fun m entry => m.insert entry.1 entry.2) m).get? k =
      (lookup k entries).or (m.get? k) := by
  induction entries generalizing m with
  | nil => rfl
  | cons head rest ih =>
    obtain ⟨l, v⟩ := head
    obtain ⟨hhead, hrest⟩ := List.pairwise_cons.mp hsorted
    rw [List.foldl_cons, ih _ hrest, get_insert]
    by_cases hk : k = l
    · subst hk
      have hnone : lookup k rest = none := by
        by_contra hsome
        obtain ⟨w, hw⟩ := Option.ne_none_iff_exists'.mp hsome
        exact (hhead _ (lookup_mem hw)).ne rfl
      simp [lookup, hnone]
    · simp [lookup, hk]

theorem get_extend (m n : SortedMap K V) : (m.extend n).get? k = (n.get? k).or (m.get? k) :=
  get_foldl_insert m n.sorted

theorem get_of_list {entries : List (K × V)} (h : (entries.map Prod.fst).Nodup) :
    (ofList entries).get? k = some v ↔ (k, v) ∈ entries := by
  rw [← List.reverse_reverse entries] at h ⊢
  generalize entries.reverse = entries at h ⊢
  induction entries with
  | nil => simp [ofList]
  | cons head rest ih =>
    obtain ⟨l, w⟩ := head
    have hlast : ofList ((l, w) :: rest).reverse = (ofList rest.reverse).insert l w := by
      simp [ofList]
    rw [List.map_reverse, List.nodup_reverse, List.map_cons, List.nodup_cons] at h
    rw [List.map_reverse, List.nodup_reverse] at ih
    rw [hlast, get_insert, List.mem_reverse, List.mem_cons, Prod.mk.injEq]
    by_cases hk : k = l
    · subst hk
      have hnew : (k, v) ∉ rest := fun hmem => h.1 (List.mem_map.mpr ⟨_, hmem, rfl⟩)
      simp [hnew, eq_comm]
    · simp [hk, ih h.2]

theorem of_list_perm {entries entries' : List (K × V)} (hkeys : (entries.map Prod.fst).Nodup)
    (h : entries.Perm entries') : ofList entries = ofList entries' := by
  apply ext_get
  intro k
  apply Option.ext
  intro v
  rw [get_of_list hkeys, get_of_list ((h.map Prod.fst).nodup_iff.mp hkeys), h.mem_iff]

end SortedMap
