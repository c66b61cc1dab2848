import Mathlib.Data.List.Basic

/-! TOML documents as trees, the places in them, and the first bad place of a search that descends
into tables alone. -/
namespace TomlTree

/-- Numbers and dates keep their literal text. -/
inductive Toml where
  | string (text : List Char)
  | integer (value : Int)
  | float (literal : List Char)
  | boolean (value : Bool)
  | datetime (literal : List Char)
  | array (items : List Toml)
  | table (entries : List (List Char × Toml))

abbrev Table := List (List Char × Toml)

abbrev KeyPath := List (List Char)

def Toml.isTable : Toml → Bool
  | .table _ => true
  | _ => false

/-- A value below another one; the elements of an array add no key. -/
inductive Occurs : Toml → KeyPath → Toml → Prop
  | here (value) : Occurs value [] value
  | member {entries key value path place} : (key, value) ∈ entries → Occurs value path place →
      Occurs (.table entries) (key :: path) place
  | element {items item path place} : item ∈ items → Occurs item path place →
      Occurs (.array items) path place

/-- A value below another one, through tables alone. -/
inductive Reached : Toml → KeyPath → Toml → Prop
  | here (value) : Reached value [] value
  | member {entries key value path place} : (key, value) ∈ entries → Reached value path place →
      Reached (.table entries) (key :: path) place

theorem Reached.occurs {value place : Toml} {path : KeyPath} (h : Reached value path place) :
    Occurs value path place := by
  induction h with
  | here value => exact .here value
  | member hmem _ ih => exact .member hmem ih

mutual

/-- The path of the first bad entry of a table, its own before those inside it. -/
def firstEntry (bad : KeyPath → Toml → Bool) (path : KeyPath) : Table → Option KeyPath
  | [] => none
  | (key, value) :: rest =>
    if bad (path ++ [key]) value then some (path ++ [key])
    else
      match firstInside bad (path ++ [key]) value with
      | some found => some found
      | none => firstEntry bad path rest

def firstInside (bad : KeyPath → Toml → Bool) (path : KeyPath) : Toml → Option KeyPath
  | .table entries => firstEntry bad path entries
  | .array _ => none
  | .string _ => none
  | .integer _ => none
  | .float _ => none
  | .boolean _ => none
  | .datetime _ => none

end

/-- Induction over a value: the parts of an array or a table first. -/
theorem Toml.induct {P : Toml → Prop} (scalar : ∀ value : Toml, (∀ items, value ≠ .array items) →
      (∀ entries, value ≠ .table entries) → P value)
    (array : ∀ items, (∀ item ∈ items, P item) → P (.array items))
    (table : ∀ entries : Table, (∀ entry ∈ entries, P entry.2) → P (.table entries)) (v : Toml) :
    P v := by
  refine Toml.rec (motive_1 := P) (motive_2 := fun items => ∀ item ∈ items, P item)
    (motive_3 := fun entries => ∀ entry ∈ entries, P entry.2) (motive_4 := fun entry => P entry.2)
    ?_ ?_ ?_ ?_ ?_ array table ?_ ?_ ?_ ?_ ?_ v
  · exact fun text => scalar _ nofun nofun
  · exact fun value => scalar _ nofun nofun
  · exact fun literal => scalar _ nofun nofun
  · exact fun value => scalar _ nofun nofun
  · exact fun literal => scalar _ nofun nofun
  · simp
  · exact fun item items hitem hitems => List.forall_mem_cons.mpr ⟨hitem, hitems⟩
  · simp
  · exact fun entry entries hentry hentries => List.forall_mem_cons.mpr ⟨hentry, hentries⟩
  · exact fun key value hvalue => hvalue

variable {bad : KeyPath → Toml → Bool} {path found : KeyPath} {value : Toml}

theorem first_entry_find (bad : KeyPath → Toml → Bool) (path : KeyPath) (entries : Table) :
    firstEntry bad path entries = entries.findSome? fun entry =>
      if bad (path ++ [entry.1]) entry.2 then some (path ++ [entry.1])
      else firstInside bad (path ++ [entry.1]) entry.2 := by
  induction entries with
  | nil => simp [firstEntry]
  | cons entry rest ih =>
    obtain ⟨key, value⟩ := entry
    rw [firstEntry, List.findSome?_cons, ih]
    split
    · rfl
    · cases firstInside bad (path ++ [key]) value with
      | some found => rfl
      | none => rfl

theorem reached_scalar (htable : ∀ entries, value ≠ .table entries) {place : Toml}
    (h : Reached value path place) : path = [] := by
  cases h with
  | here => rfl
  | member => exact absurd rfl (htable _)

/-- What the search reports is a bad place it reaches, and it reports one if there is any. -/
theorem first_inside_spec (value : Toml) (path : KeyPath) :
    (∀ found, firstInside bad path value = some found → ∃ below place, below ≠ [] ∧
      found = path ++ below ∧ Reached value below place ∧ bad found place = true) ∧
    (firstInside bad path value = none → ∀ below place, below ≠ [] →
      Reached value below place → bad (path ++ below) place = false) := by
  induction value using Toml.induct generalizing path with
  | scalar value harray htable =>
    have hnone : firstInside bad path value = none := by
      cases value with
      | table entries => exact absurd rfl (htable entries)
      | array items => exact absurd rfl (harray items)
      | _ => simp [firstInside]
    refine ⟨fun found h => ?_, fun _ below place hbelow h => ?_⟩
    · rw [hnone] at h
      cases h
    · exact absurd (reached_scalar htable h) hbelow
  | array items _ =>
    have hnone : firstInside bad path (.array items) = none := by rw [firstInside]
    have hshape : ∀ entries, Toml.array items ≠ .table entries := fun _ => nofun
    refine ⟨fun found h => ?_, fun _ below place hbelow h => ?_⟩
    · rw [hnone] at h
      cases h
    · exact absurd (reached_scalar hshape h) hbelow
  | table entries ih =>
    rw [firstInside, first_entry_find]
    constructor
    · intro found h
      obtain ⟨entry, hentry, hfound⟩ := List.exists_of_findSome?_eq_some h
      split at hfound
      · rename_i hbad
        cases hfound
        exact ⟨[entry.1], entry.2, List.cons_ne_nil _ _, rfl, .member hentry (.here _), hbad⟩
      · obtain ⟨below, place, -, rfl, hreached, hbad⟩ := (ih entry hentry _).1 found hfound
        exact ⟨entry.1 :: below, place, List.cons_ne_nil _ _, by simp, .member hentry hreached, hbad⟩
    · intro h below place hbelow hreached
      rw [List.findSome?_eq_none_iff] at h
      cases hreached with
      | here => exact absurd rfl hbelow
      | @member _ key value path' _ hmem hreached =>
        have hentry := h _ hmem
        split at hentry
        · cases hentry
        · rename_i hbad
          by_cases hpath : path' = []
          · subst hpath
            cases hreached with
            | here => simpa using hbad
          · have hinside := (ih _ hmem _).2 hentry path' place hpath hreached
            rwa [List.append_assoc, List.singleton_append] at hinside

end TomlTree
