import ServiceTemplate.TemplatePaths
import ServiceTemplate.Splitting
import ServiceTemplate.OrderedExtension
import ServiceTemplate.ExceptChain
import Mathlib.Data.List.Dedup
import Mathlib.Data.List.Chain
import Mathlib.Data.List.Lex
import Mathlib.Data.Char

/-! Migrations of a consumer and of the rendered template: the binding check of an accepted
upgrade and the advisory one of its preparation, over the trees as `git ls-tree` lists them. -/
namespace MigrationOrder

open ByteFraming
open TemplatePaths
open OrderedExtension

/-- A refusal is expected; a `ValueError` of the interpreter is not. -/
inductive Failure where
  | refusal (message : String)
  | valueError
  deriving DecidableEq, Repr

/-- The Unicode tables of the interpreter, past ASCII. -/
structure Unicode where
  decimal : Char → Option ℕ
  space : Char → Bool
  casefold : Text → Text

def Unicode.digit (u : Unicode) (c : Char) : Option ℕ :=
  if c.toNat < 128 then if c.isDigit then some (c.toNat - 48) else none else u.decimal c

/-- What `int` strips: U+001C to U+001F stay, although `str.isspace` has them. -/
def Unicode.isSpace (u : Unicode) (c : Char) : Bool :=
  if c.toNat < 128 then (9 ≤ c.toNat && c.toNat ≤ 13) || c.toNat = 32 else u.space c

/-- The interpreter's limit on the digits of a decimal text. -/
def maxStrDigits : ℕ := 4300

def signed : Text → ℤ × Text
  | '-' :: digits => (-1, digits)
  | '+' :: digits => (1, digits)
  | digits => (1, digits)

/-- `int` of a text without underscores; none is a `ValueError`. -/
def int (u : Unicode) (text : Text) : Option ℤ :=
  let (sign, digits) := signed (Splitting.trim u.isSpace text)
  match digits.mapM u.digit with
  | none => none
  | some values =>
    if values = [] ∨ maxStrDigits < values.length then none
    else some (sign * (values.foldl (fun number value => 10 * number + value) 0 : ℕ))

def name (path : Text) : Text :=
  (((pieces path).filter fun piece => piece ≠ [] ∧ piece ≠ ['.']).getLast?).getD []

/-- `int(Path(path).name.split("_", 1)[0])`. -/
def versionOf (u : Unicode) (path : Text) : Option ℤ :=
  int u ((name path).takeWhile fun c => c ≠ '_')

/-- `re.fullmatch(r"migrations/[0-9]+_.+\.sql", path)`. -/
def isMigration (path : Text) : Bool :=
  match "migrations/".toList.isPrefixOf? path with
  | none => false
  | some rest =>
    match rest.dropWhile Char.isDigit with
    | '_' :: body => rest.takeWhile Char.isDigit ≠ [] && ".sql".toList.isSuffixOf body &&
        4 < body.length && '\n' ∉ body
    | _ => false

/-- One line of `git ls-tree -r`, decoded. -/
structure Record where
  mode : String
  kind : String
  object : String
  path : Text
  deriving DecidableEq, Repr

structure Entry where
  path : Text
  mode : String
  object : String
  deriving DecidableEq, Repr

def objectId (value : String) : Bool :=
  (value.length = 40 || value.length = 64) &&
    value.toList.all fun c => c.isDigit || ('a' ≤ c && c ≤ 'f')

/-- No record is a line that could not be split or decoded. -/
def parseTreeRecord : Option Record → Except Failure Record
  | none => .error (.refusal "source tree contains an invalid entry")
  | some record =>
    if record.kind ≠ "blob" ∨ record.mode ∉ ["100644", "100755", "120000"] ∨
        objectId record.object = false then
      .error (.refusal "source tree contains an unsupported entry")
    else match safeRelative record.path false with
      | .error message => .error (.refusal message)
      | .ok _ => .ok record

/-- A repository holds the contents of its objects. -/
def entry (contents : String → Bytes) (raw : Option Record) : Except Failure Entry :=
  match parseTreeRecord raw with
  | .error failure => .error failure
  | .ok record =>
    if record.mode = "120000" ∧ generatedSkillLink record.path (contents record.object) = none then
      .error (.refusal (String.ofList ("unsupported Git link: ".toList ++ record.path)))
    else .ok ⟨record.path, record.mode, record.object⟩

def entries (u : Unicode) (contents : String → Bytes) (tree : List (Option Record)) :
    Except Failure (List Entry) :=
  match tree.mapM (entry contents) with
  | .error failure => .error failure
  | .ok result =>
    if (result.map fun item => u.casefold item.path).Nodup then .ok result
    else .error (.refusal "tree has case-folding path aliases")

def migrations (u : Unicode) (contents : String → Bytes) (tree : List (Option Record)) :
    Except Failure (List Entry) :=
  match entries u contents tree with
  | .error failure => .error failure
  | .ok result => .ok (result.filter fun item => isMigration item.path)

def get (dictionary : List Entry) (path : Text) : Option Entry :=
  dictionary.find? fun item => item.path = path

def versions (u : Unicode) (items : List Entry) : Option (List ℤ) :=
  items.mapM fun item => versionOf u item.path

/-- `max(..., default=-1)`. -/
def maximum (u : Unicode) (items : List Entry) : Option ℤ :=
  (versions u items).map fun values => values.max?.getD (-1)

def colliding : String := "colliding migration versions require forward reconciliation"
def belowMaximum : String :=
  "imported migration is below the consumer maximum; supply a reviewed forward migration"
def changedHistory : String :=
  "consumer migration bytes/modes were changed or removed; preserve applied history"

def checkAdded (u : Unicode) (old : List Entry) (maximum : ℤ) :
    List ℤ → List Entry → Except Failure Unit
  | _, [] => .ok ()
  | seen, item :: items =>
    match versionOf u item.path with
    | none => .error .valueError
    | some version =>
      if version ∈ seen then .error (.refusal colliding)
      else if get old item.path = none ∧ version ≤ maximum then .error (.refusal belowMaximum)
      else checkAdded u old maximum (version :: seen) items

def checkMigrations (u : Unicode) (old new : List Entry) : Except Failure Unit :=
  match maximum u old with
  | none => .error .valueError
  | some maximum =>
    match checkAdded u old maximum [] new with
    | .error failure => .error failure
    | .ok () =>
      if old.any fun item => get new item.path ≠ some item then .error (.refusal changedHistory)
      else .ok ()

def assertAppendOnly (u : Unicode) (contents : String → Bytes) (base resolved : List (Option Record)) :
    Except Failure Unit :=
  match migrations u contents base with
  | .error failure => .error failure
  | .ok old =>
    match migrations u contents resolved with
    | .error failure => .error failure
    | .ok new => checkMigrations u old new

def issueOf (u : Unicode) (current before after : List Entry) (maximum : ℤ) (path : Text) :
    Except Failure (Option Text) :=
  if get before path = get after path then .ok none
  else if (get current path).isSome ∧ get after path ≠ get current path then
    .ok (some ("applied-checksum:".toList ++ path))
  else if (get after path).isSome ∧ get before path = none then
    match versionOf u path with
    | none => .error .valueError
    | some version =>
      if version ≤ maximum then .ok (some ("version-order:".toList ++ path)) else .ok none
  else .ok none

def unionKeys (before after : List Entry) : List Text :=
  ((before ++ after).map Entry.path).dedup.insertionSort fun a b => a ≤ b

def issuesOf (u : Unicode) (current before after : List Entry) : Except Failure (List Text) :=
  match maximum u current with
  | none => .error .valueError
  | some maximum =>
    match (unionKeys before after).mapM (issueOf u current before after maximum) with
    | .error failure => .error failure
    | .ok issues => .ok (issues.filterMap id)

def migrationIssues (u : Unicode) (contents : String → Bytes)
    (consumer old new : List (Option Record)) : Except Failure (List Text) :=
  match migrations u contents consumer with
  | .error failure => .error failure
  | .ok current =>
    match migrations u contents old with
    | .error failure => .error failure
    | .ok before =>
      match migrations u contents new with
      | .error failure => .error failure
      | .ok after => issuesOf u current before after

section

variable {u : Unicode} {old new items : List Entry}

def version (u : Unicode) (item : Entry) : ℤ := (versionOf u item.path).getD 0

def Parsed (u : Unicode) (items : List Entry) : Prop :=
  ∀ item ∈ items, versionOf u item.path = some (version u item)

theorem parsed_of_ne_none (item : Entry) (h : versionOf u item.path ≠ none) :
    versionOf u item.path = some (version u item) := by
  obtain ⟨value, hvalue⟩ := Option.ne_none_iff_exists'.mp h
  rw [version, hvalue]
  rfl

def baseMaximum (u : Unicode) (old : List Entry) : ℤ := (old.map (version u)).max?.getD (-1)

theorem versions_parsed (h : Parsed u items) : versions u items = some (items.map (version u)) := by
  induction items with
  | nil => rfl
  | cons item items ih =>
    obtain ⟨hitem, hitems⟩ := List.forall_mem_cons.mp h
    have htail := ih hitems
    rw [versions] at htail ⊢
    rw [List.mapM_cons, hitem, htail]
    rfl

theorem versions_none {item : Entry} (hmem : item ∈ items) (h : versionOf u item.path = none) :
    versions u items = none := by
  induction items with
  | nil => cases hmem
  | cons first items ih =>
    rw [versions, List.mapM_cons]
    rcases List.mem_cons.mp hmem with rfl | htail
    · rw [h]
      rfl
    · have hrest := ih htail
      rw [versions] at hrest
      rw [hrest]
      cases versionOf u first.path <;> rfl

theorem maximum_parsed (h : Parsed u items) : maximum u items = some (baseMaximum u items) := by
  rw [maximum, versions_parsed h]
  rfl

theorem maximum_none {item : Entry} (hmem : item ∈ items) (h : versionOf u item.path = none) :
    maximum u items = none := by
  rw [maximum, versions_none hmem h]
  rfl

theorem lt_of_base_maximum {value : ℤ} (h : baseMaximum u old < value) :
    ∀ item ∈ old, version u item < value := by
  intro item hitem
  have hmem : version u item ∈ old.map (version u) := List.mem_map_of_mem hitem
  unfold baseMaximum at h
  cases hmax : (old.map (version u)).max? with
  | none =>
    rw [List.max?_eq_none_iff] at hmax
    rw [hmax] at hmem
    cases hmem
  | some top =>
    rw [hmax] at h
    exact lt_of_le_of_lt ((List.max?_eq_some_iff.mp hmax).2 _ hmem) h

/-- What the loop lets through, given the versions it has seen. -/
structure Passes (u : Unicode) (old : List Entry) (seen : List ℤ) (items : List Entry) : Prop where
  parsed : Parsed u items
  distinct : (items.map (version u)).Nodup
  unseen : ∀ item ∈ items, version u item ∉ seen
  above : ∀ item ∈ items, get old item.path = none → baseMaximum u old < version u item

theorem passes_cons {seen : List ℤ} {item : Entry}
    (hitem : versionOf u item.path = some (version u item)) :
    Passes u old seen (item :: items) ↔ version u item ∉ seen ∧
      (get old item.path = none → baseMaximum u old < version u item) ∧
        Passes u old (version u item :: seen) items := by
  constructor
  · intro h
    obtain ⟨hout, hdistinct⟩ := List.nodup_cons.mp h.distinct
    refine ⟨h.unseen item List.mem_cons_self, h.above item List.mem_cons_self,
      fun other hother => h.parsed other (List.mem_cons_of_mem _ hother), hdistinct, ?_,
      fun other hother => h.above other (List.mem_cons_of_mem _ hother)⟩
    intro other hother hmem
    rcases List.mem_cons.mp hmem with hsame | hseen
    · exact hout (hsame ▸ List.mem_map_of_mem hother)
    · exact h.unseen other (List.mem_cons_of_mem _ hother) hseen
  · rintro ⟨hunseen, habove, htail⟩
    refine ⟨List.forall_mem_cons.mpr ⟨hitem, htail.parsed⟩, ?_, ?_,
      List.forall_mem_cons.mpr ⟨habove, htail.above⟩⟩
    · refine List.nodup_cons.mpr ⟨fun hmem => ?_, htail.distinct⟩
      obtain ⟨other, hother, hsame⟩ := List.mem_map.mp hmem
      exact htail.unseen other hother (hsame ▸ List.mem_cons_self)
    · refine List.forall_mem_cons.mpr ⟨hunseen, fun other hother hmem => ?_⟩
      exact htail.unseen other hother (List.mem_cons_of_mem _ hmem)

theorem check_added_ok (seen : List ℤ) (items : List Entry) :
    checkAdded u old (baseMaximum u old) seen items = .ok () ↔ Passes u old seen items := by
  induction items generalizing seen with
  | nil => exact ⟨fun _ => ⟨nofun, List.nodup_nil, nofun, nofun⟩, fun _ => rfl⟩
  | cons item items ih =>
    cases hversion : versionOf u item.path with
    | none =>
      simp only [checkAdded, hversion]
      refine ⟨nofun, fun h => ?_⟩
      have hparsed := h.parsed item List.mem_cons_self
      rw [hversion] at hparsed
      cases hparsed
    | some value =>
      have hitem : versionOf u item.path = some (version u item) :=
        parsed_of_ne_none item (by rw [hversion]; nofun)
      obtain rfl : version u item = value := Option.some.inj (hitem.symm.trans hversion)
      simp only [checkAdded, hversion]
      rw [passes_cons hitem]
      split_ifs with hseen hbelow
      · exact ⟨nofun, fun h => absurd hseen h.1⟩
      · exact ⟨nofun, fun h => absurd (h.2.1 hbelow.1) (not_lt.mpr hbelow.2)⟩
      · rw [ih]
        refine ⟨fun h => ⟨hseen, fun hnone => ?_, h⟩, fun h => h.2.2⟩
        exact not_le.mp fun hle => hbelow ⟨hnone, hle⟩

/-- The loop fails on the first migration without a version, when it gets there. -/
theorem check_added_value_error (seen : List ℤ) (items : List Entry) :
    checkAdded u old (baseMaximum u old) seen items = .error .valueError ↔
      ∃ front item back, items = front ++ item :: back ∧ Passes u old seen front ∧
        versionOf u item.path = none := by
  induction items generalizing seen with
  | nil =>
    refine ⟨nofun, ?_⟩
    rintro ⟨front, item, back, hsplit, -⟩
    cases front <;> cases hsplit
  | cons item items ih =>
    cases hversion : versionOf u item.path with
    | none =>
      simp only [checkAdded, hversion, true_iff]
      exact ⟨[], item, items, rfl, ⟨nofun, List.nodup_nil, nofun, nofun⟩, hversion⟩
    | some value =>
      have hitem : versionOf u item.path = some (version u item) :=
        parsed_of_ne_none item (by rw [hversion]; nofun)
      obtain rfl : version u item = value := Option.some.inj (hitem.symm.trans hversion)
      have hhead : ∀ {front back : List Entry} {bad : Entry}, versionOf u bad.path = none →
          item :: items = front ++ bad :: back → ∃ rest, front = item :: rest ∧
            items = rest ++ bad :: back := by
        intro front back bad hbad hsplit
        cases front with
        | nil =>
          cases hsplit
          rw [hbad] at hversion
          cases hversion
        | cons first rest =>
          cases hsplit
          exact ⟨rest, rfl, rfl⟩
      simp only [checkAdded, hversion]
      split_ifs with hseen hbelow
      · refine ⟨nofun, ?_⟩
        rintro ⟨front, bad, back, hsplit, hpasses, hbad⟩
        obtain ⟨rest, rfl, -⟩ := hhead hbad hsplit
        exact absurd hseen (hpasses.unseen item List.mem_cons_self)
      · refine ⟨nofun, ?_⟩
        rintro ⟨front, bad, back, hsplit, hpasses, hbad⟩
        obtain ⟨rest, rfl, -⟩ := hhead hbad hsplit
        exact absurd (hpasses.above item List.mem_cons_self hbelow.1) (not_lt.mpr hbelow.2)
      · rw [ih]
        constructor
        · rintro ⟨front, bad, back, rfl, hpasses, hbad⟩
          refine ⟨item :: front, bad, back, rfl, (passes_cons hitem).mpr ⟨hseen, ?_, hpasses⟩, hbad⟩
          exact fun hnone => not_le.mp fun hle => hbelow ⟨hnone, hle⟩
        · rintro ⟨front, bad, back, hsplit, hpasses, hbad⟩
          obtain ⟨rest, rfl, hrest⟩ := hhead hbad hsplit
          exact ⟨rest, bad, back, hrest, ((passes_cons hitem).mp hpasses).2.2, hbad⟩

/-- Every base migration is kept as it was, the versions are distinct, and every added one is
above the base. -/
structure AppendOnly (u : Unicode) (old new : List Entry) : Prop where
  kept : ∀ item ∈ old, item ∈ new
  parsed : Parsed u new
  distinct : (new.map (version u)).Nodup
  above : ∀ item ∈ new, item ∉ old → baseMaximum u old < version u item

/-- Every migration whose version is read has one: those of the base, and those of the resolved
tree before a collision or a version below the maximum ends the loop. -/
def Numbered (u : Unicode) (old new : List Entry) : Prop :=
  (∀ item ∈ old, versionOf u item.path ≠ none) ∧
    ∀ front item back, new = front ++ item :: back → Parsed u front →
      (front.map (version u)).Nodup →
      (∀ other ∈ front, get old other.path = none → baseMaximum u old < version u other) →
      versionOf u item.path ≠ none

theorem get_of_mem (hpaths : (items.map Entry.path).Nodup) {item : Entry} (h : item ∈ items) :
    get items item.path = some item := by
  have hsome : (get items item.path).isSome = true :=
    List.find?_isSome.mpr ⟨item, h, decide_eq_true rfl⟩
  obtain ⟨found, hfound⟩ := Option.isSome_iff_exists.mp hsome
  have hpath := List.find?_some hfound
  rw [decide_eq_true_eq] at hpath
  rw [hfound, List.inj_on_of_nodup_map hpaths (List.mem_of_find?_eq_some hfound) h hpath]

theorem mem_of_get {path : Text} {item : Entry} (h : get items path = some item) :
    item ∈ items ∧ item.path = path := by
  have hpath := List.find?_some h
  rw [decide_eq_true_eq] at hpath
  exact ⟨List.mem_of_find?_eq_some h, hpath⟩

theorem append_only_passes (hold : (old.map Entry.path).Nodup) (hnew : (new.map Entry.path).Nodup) :
    AppendOnly u old new ↔ Passes u old [] new ∧ ∀ item ∈ old, get new item.path = some item := by
  constructor
  · intro h
    refine ⟨⟨h.parsed, h.distinct, fun _ _ => List.not_mem_nil, fun item hitem hnone => ?_⟩,
      fun item hitem => get_of_mem hnew (h.kept item hitem)⟩
    refine h.above item hitem fun hmem => ?_
    rw [get_of_mem hold hmem] at hnone
    cases hnone
  · rintro ⟨hpasses, hkept⟩
    refine ⟨fun item hitem => (mem_of_get (hkept item hitem)).1, hpasses.parsed,
      hpasses.distinct, fun item hitem hout => hpasses.above item hitem ?_⟩
    cases hget : get old item.path with
    | none => rfl
    | some other =>
      obtain ⟨hother, hpath⟩ := mem_of_get hget
      have hsame := hkept other hother
      rw [hpath, get_of_mem hnew hitem, Option.some.injEq] at hsame
      exact absurd (hsame ▸ hother) hout

theorem check_migrations_ok (hold : (old.map Entry.path).Nodup) (hnew : (new.map Entry.path).Nodup) :
    checkMigrations u old new = .ok () ↔ AppendOnly u old new := by
  rw [append_only_passes hold hnew]
  by_cases hparsed : Parsed u old
  · rw [checkMigrations, maximum_parsed hparsed]
    simp only
    rw [← check_added_ok]
    cases hcheck : checkAdded u old (baseMaximum u old) [] new with
    | error failure => exact ⟨nofun, fun h => nomatch h.1⟩
    | ok _ =>
      simp only [true_and]
      split_ifs with hchanged
      · refine ⟨nofun, fun hkept => ?_⟩
        obtain ⟨item, hitem, hne⟩ := List.any_eq_true.mp hchanged
        exact absurd (hkept item hitem) (of_decide_eq_true hne)
      · refine ⟨fun _ item hitem => ?_, fun _ => rfl⟩
        by_contra hne
        exact hchanged (List.any_eq_true.mpr ⟨item, hitem, decide_eq_true hne⟩)
  · have hbad : ∃ item ∈ old, versionOf u item.path = none := by
      by_contra hall
      simp only [not_exists, not_and] at hall
      exact hparsed fun item hitem => parsed_of_ne_none item (hall item hitem)
    obtain ⟨item, hitem, hnone⟩ := hbad
    rw [checkMigrations, maximum_none hitem hnone]
    refine ⟨nofun, fun h => ?_⟩
    -- The base migration is among the resolved ones, and those have versions.
    have hversion := h.1.parsed item (mem_of_get (h.2 item hitem)).1
    rw [hnone] at hversion
    cases hversion

theorem check_migrations_value_error :
    checkMigrations u old new ≠ .error .valueError ↔ Numbered u old new := by
  by_cases hparsed : Parsed u old
  · have hbase : ∀ item ∈ old, versionOf u item.path ≠ none := fun item hitem => by
      rw [hparsed item hitem]
      nofun
    rw [checkMigrations, maximum_parsed hparsed]
    simp only
    have hloop : checkAdded u old (baseMaximum u old) [] new ≠ .error .valueError ↔
        Numbered u old new := by
      rw [Ne, check_added_value_error, Numbered]
      constructor
      · intro hno
        refine ⟨hbase, fun front item back hsplit hfront hdistinct habove hnone => hno ?_⟩
        exact ⟨front, item, back, hsplit,
          ⟨hfront, hdistinct, fun _ _ => List.not_mem_nil, habove⟩, hnone⟩
      · rintro ⟨-, hreached⟩ ⟨front, item, back, hsplit, hpasses, hnone⟩
        exact hreached front item back hsplit hpasses.parsed hpasses.distinct hpasses.above hnone
    rw [← hloop]
    cases hcheck : checkAdded u old (baseMaximum u old) [] new with
    | error failure => exact Iff.rfl
    | ok _ =>
      simp only
      split_ifs
      · exact ⟨nofun, nofun⟩
      · exact ⟨nofun, nofun⟩
  · have hbad : ∃ item ∈ old, versionOf u item.path = none := by
      by_contra hall
      simp only [not_exists, not_and] at hall
      exact hparsed fun item hitem => parsed_of_ne_none item (hall item hitem)
    obtain ⟨item, hitem, hnone⟩ := hbad
    rw [checkMigrations, maximum_none hitem hnone]
    exact ⟨fun h => absurd rfl h, fun h => absurd hnone (h.1 item hitem)⟩

variable {contents : String → Bytes} {tree base resolved : List (Option Record)}

theorem migrations_paths (h : migrations u contents tree = .ok items) :
    (items.map Entry.path).Nodup := by
  unfold migrations at h
  cases hentries : entries u contents tree with
  | error failure =>
    rw [hentries] at h
    cases h
  | ok result =>
    rw [hentries] at h
    cases h
    unfold entries at hentries
    split at hentries
    · cases hentries
    · split at hentries
      · next hfolded =>
        cases hentries
        have hfold : (result.map fun item => u.casefold item.path) =
            (result.map Entry.path).map u.casefold := by
          rw [List.map_map]
          rfl
        rw [hfold] at hfolded
        exact (List.Nodup.of_map _ hfolded).sublist (List.filter_sublist.map _)
      · cases hentries

theorem migrations_not_value_error {failure : Failure}
    (h : migrations u contents tree = .error failure) : failure ≠ .valueError := by
  have hentry : ∀ raw failure, entry contents raw = .error failure → failure ≠ .valueError := by
    intro raw failure hraw
    unfold entry at hraw
    split at hraw
    · next hparse =>
      cases hraw
      unfold parseTreeRecord at hparse
      split at hparse
      · cases hparse
        nofun
      · split at hparse
        · cases hparse
          nofun
        · split at hparse
          · cases hparse
            nofun
          · cases hparse
    · split at hraw
      · cases hraw
        nofun
      · cases hraw
  have hall : ∀ (tree : List (Option Record)) failure, tree.mapM (entry contents) = .error failure →
      failure ≠ .valueError := by
    intro tree
    induction tree with
    | nil => exact nofun
    | cons raw tree ih =>
      intro failure hfail
      rw [List.mapM_cons] at hfail
      cases hraw : entry contents raw with
      | error found =>
        rw [hraw] at hfail
        cases hfail
        exact hentry raw _ hraw
      | ok item =>
        rw [hraw] at hfail
        cases htail : tree.mapM (entry contents) with
        | error found =>
          rw [htail] at hfail
          cases hfail
          exact ih _ htail
        | ok items =>
          rw [htail] at hfail
          cases hfail
  unfold migrations at h
  split at h
  · next hentries =>
    cases h
    unfold entries at hentries
    split at hentries
    · next hloop =>
      cases hentries
      exact hall tree _ hloop
    · split at hentries
      · cases hentries
      · cases hentries
        nofun
  · cases h

def migrationList (u : Unicode) (contents : String → Bytes) (tree : List (Option Record)) :
    List Entry :=
  match migrations u contents tree with
  | .ok items => items
  | .error _ => []

theorem migration_list_paths (u : Unicode) (contents : String → Bytes) (tree : List (Option Record)) :
    ((migrationList u contents tree).map Entry.path).Nodup := by
  unfold migrationList
  split
  · next hitems => exact migrations_paths hitems
  · exact List.nodup_nil

theorem assert_append_only_ok : assertAppendOnly u contents base resolved = .ok () ↔
    ∃ old new, migrations u contents base = .ok old ∧ migrations u contents resolved = .ok new ∧
      AppendOnly u old new := by
  unfold assertAppendOnly
  cases hold : migrations u contents base with
  | error failure => exact ⟨nofun, fun ⟨_, _, h, _⟩ => nomatch h⟩
  | ok old =>
    cases hnew : migrations u contents resolved with
    | error failure => exact ⟨nofun, fun ⟨_, _, _, h, _⟩ => nomatch h⟩
    | ok new =>
      simp only
      rw [check_migrations_ok (migrations_paths hold) (migrations_paths hnew)]
      constructor
      · exact fun h => ⟨old, new, rfl, rfl, h⟩
      · rintro ⟨_, _, ⟨⟩, ⟨⟩, h⟩
        exact h

theorem assert_append_only_value_error :
    assertAppendOnly u contents base resolved ≠ .error .valueError ↔
      ∀ old new, migrations u contents base = .ok old →
        migrations u contents resolved = .ok new → Numbered u old new := by
  unfold assertAppendOnly
  cases hold : migrations u contents base with
  | error failure =>
    refine ⟨fun _ => nofun, fun _ hfail => ?_⟩
    exact migrations_not_value_error hold (Except.error.inj hfail)
  | ok old =>
    cases hnew : migrations u contents resolved with
    | error failure =>
      refine ⟨fun _ _ _ _ => nofun, fun _ hfail => ?_⟩
      exact migrations_not_value_error hnew (Except.error.inj hfail)
    | ok new =>
      simp only
      rw [check_migrations_value_error]
      constructor
      · rintro h _ _ ⟨⟩ ⟨⟩
        exact h
      · exact fun h => h old new rfl rfl

theorem AppendOnly.extends (h : AppendOnly u old new) : Extends (version u) old new :=
  ⟨h.kept, h.distinct, fun item hitem hout => lt_of_base_maximum (h.above item hitem hout)⟩

theorem mem_of_except_map {α β ε : Type} {f : α → Except ε β} {xs : List α} {ys : List β}
    (h : xs.mapM f = .ok ys) {x : α} (hx : x ∈ xs) : ∃ y ∈ ys, f x = .ok y := by
  induction xs generalizing ys with
  | nil => cases hx
  | cons first xs ih =>
    rw [List.mapM_cons] at h
    obtain ⟨y, hy, h⟩ := ExceptChain.bind_ok.mp h
    obtain ⟨rest, hrest, h⟩ := ExceptChain.bind_ok.mp h
    cases h
    rcases List.mem_cons.mp hx with rfl | htail
    · exact ⟨y, List.mem_cons_self, hy⟩
    · obtain ⟨z, hz, hfound⟩ := ih hrest htail
      exact ⟨z, List.mem_cons_of_mem _ hz, hfound⟩

theorem mem_union_keys {before after : List Entry} {path : Text} :
    path ∈ unionKeys before after ↔ ∃ item, (item ∈ before ∨ item ∈ after) ∧ item.path = path := by
  rw [unionKeys, (List.perm_insertionSort _ _).mem_iff, List.mem_dedup, List.mem_map]
  simp only [List.mem_append]

theorem issues_none {current before after : List Entry}
    (h : issuesOf u current before after = .ok []) :
    Parsed u current ∧ ∀ item, item ∈ before ∨ item ∈ after →
      issueOf u current before after (baseMaximum u current) item.path = .ok none := by
  unfold issuesOf at h
  by_cases hparsed : Parsed u current
  · refine ⟨hparsed, fun item hitem => ?_⟩
    rw [maximum_parsed hparsed] at h
    simp only at h
    cases hmap : (unionKeys before after).mapM
        (issueOf u current before after (baseMaximum u current)) with
    | error failure =>
      rw [hmap] at h
      cases h
    | ok issues =>
      rw [hmap] at h
      obtain ⟨issue, hissue, hfound⟩ :=
        mem_of_except_map hmap (mem_union_keys.mpr ⟨item, hitem, rfl⟩)
      cases issue with
      | none => exact hfound
      | some text =>
        have hnil : issues.filterMap id = [] := Except.ok.inj h
        exact absurd (List.filterMap_eq_nil_iff.mp hnil _ hissue) nofun
  · have hbad : ∃ item ∈ current, versionOf u item.path = none := by
      by_contra hall
      simp only [not_exists, not_and] at hall
      exact hparsed fun item hitem => parsed_of_ne_none item (hall item hitem)
    obtain ⟨item, hitem, hnone⟩ := hbad
    rw [maximum_none hitem hnone] at h
    cases h

/-- No issue for a migration of both the template's and the consumer's old tree: it is kept. -/
theorem issue_kept {current before after : List Entry} {maximum : ℤ} {item : Entry}
    (hbefore : get before item.path = some item) (hcurrent : get current item.path = some item)
    (h : issueOf u current before after maximum item.path = .ok none) :
    get after item.path = some item := by
  unfold issueOf at h
  rw [hbefore, hcurrent] at h
  by_cases hsame : some item = get after item.path
  · exact hsame.symm
  · rw [if_neg hsame, if_pos ⟨rfl, fun h => hsame h.symm⟩] at h
    cases h

/-- No issue for an added migration: it is above what the consumer has. -/
theorem issue_added {current before after : List Entry} {maximum : ℤ} {item : Entry}
    (hbefore : get before item.path = none) (hafter : get after item.path = some item)
    (h : issueOf u current before after maximum item.path = .ok none) :
    versionOf u item.path = some (version u item) ∧ maximum < version u item := by
  unfold issueOf at h
  rw [hbefore, hafter, if_neg nofun] at h
  split at h
  · cases h
  · rw [if_pos ⟨rfl, rfl⟩] at h
    cases hversion : versionOf u item.path with
    | none =>
      rw [hversion] at h
      cases h
    | some value =>
      have hvalue : version u item = value := by
        rw [version, hversion]
        rfl
      rw [hversion] at h
      simp only at h
      rw [hvalue]
      split_ifs at h with hbelow
      · cases h
      · exact ⟨rfl, not_le.mp hbelow⟩

/-- The advisory check of a preparation speaks for the binding one of the acceptance. -/
theorem issues_accept {current before after : List Entry}
    (hcurrent : (current.map Entry.path).Nodup) (hbefore : (before.map Entry.path).Nodup)
    (hafter : (after.map Entry.path).Nodup) (h : issuesOf u current before after = .ok [])
    (hcarried : ∀ item ∈ before, item ∈ current)
    (hversions : (current.map (version u)).Nodup) (hnew : (after.map (version u)).Nodup)
    (hitems : items.Nodup)
    (hmerged : ∀ item, item ∈ items ↔ item ∈ current ∨ item ∈ after ∧ item ∉ before) :
    AppendOnly u current items := by
  obtain ⟨hparsed, hissues⟩ := issues_none h
  have hkept : ∀ item ∈ before, item ∈ after := by
    intro item hitem
    exact (mem_of_get (issue_kept (get_of_mem hbefore hitem)
      (get_of_mem hcurrent (hcarried item hitem)) (hissues item (.inl hitem)))).1
  have hadded : ∀ item ∈ after, item ∉ before →
      versionOf u item.path = some (version u item) ∧ baseMaximum u current < version u item := by
    intro item hitem hout
    have hnone : get before item.path = none := by
      cases hget : get before item.path with
      | none => rfl
      | some other =>
        obtain ⟨hother, hpath⟩ := mem_of_get hget
        have hsame : other = item :=
          List.inj_on_of_nodup_map hafter (hkept other hother) hitem hpath
        exact absurd (hsame ▸ hother) hout
    exact issue_added hnone (get_of_mem hafter hitem) (hissues item (.inr hitem))
  have hapart : ∀ item ∈ current, ∀ other ∈ after, other ∉ before →
      version u item < version u other := fun item hitem other hother hout =>
    lt_of_base_maximum (hadded other hother hout).2 item hitem
  refine ⟨fun item hitem => (hmerged item).mpr (.inl hitem), ?_, ?_, ?_⟩
  · intro item hitem
    rcases (hmerged item).mp hitem with hmem | ⟨hmem, hout⟩
    · exact hparsed item hmem
    · exact (hadded item hmem hout).1
  · refine List.Nodup.map_on ?_ hitems
    intro first hfirst second hsecond hsame
    rcases (hmerged first).mp hfirst with hf | ⟨hf, hfout⟩
    · rcases (hmerged second).mp hsecond with hs | ⟨hs, hsout⟩
      · exact List.inj_on_of_nodup_map hversions hf hs hsame
      · exact absurd hsame (ne_of_lt (hapart first hf second hs hsout))
    · rcases (hmerged second).mp hsecond with hs | ⟨hs, hsout⟩
      · exact absurd hsame.symm (ne_of_lt (hapart second hs first hf hfout))
      · exact List.inj_on_of_nodup_map hnew hf hs hsame
  · intro item hitem hout
    rcases (hmerged item).mp hitem with hmem | ⟨hmem, houtside⟩
    · exact absurd hmem hout
    · exact (hadded item hmem houtside).2

/-- `assert_append_only` refuses or accepts, and accepts exactly the append-only trees, iff every
version it reads is there; accepted upgrades only extend the version-ordered list; and where the
advisory check names no issue, adding the new migrations is accepted. -/
theorem migrations_append_only (u : Unicode) (contents : String → Bytes) :
    (∀ base resolved,
      ((assertAppendOnly u contents base resolved ≠ .error .valueError ∧
        (assertAppendOnly u contents base resolved = .ok () ↔
          ∃ old new, migrations u contents base = .ok old ∧
            migrations u contents resolved = .ok new ∧ AppendOnly u old new)) ↔
        ∀ old new, migrations u contents base = .ok old →
          migrations u contents resolved = .ok new → Numbered u old new)) ∧
    (∀ trees : List (List (Option Record)),
      trees.IsChain (fun base resolved => assertAppendOnly u contents base resolved = .ok ()) →
      (trees.map (migrationList u contents)).Pairwise fun xs ys =>
        ordered (version u) xs <+: ordered (version u) ys) ∧
    (∀ consumer old new merged current before after items,
      migrations u contents consumer = .ok current → migrations u contents old = .ok before →
      migrations u contents new = .ok after → migrations u contents merged = .ok items →
      migrationIssues u contents consumer old new = .ok [] →
      (∀ item ∈ before, item ∈ current) → (current.map (version u)).Nodup →
      (after.map (version u)).Nodup →
      (∀ item, item ∈ items ↔ item ∈ current ∨ item ∈ after ∧ item ∉ before) →
      assertAppendOnly u contents consumer merged = .ok ()) := by
  refine ⟨fun base resolved => ?_, fun trees hchain => ?_, ?_⟩
  · rw [assert_append_only_value_error]
    exact and_iff_left assert_append_only_ok
  · have hstep : ∀ base resolved, assertAppendOnly u contents base resolved = .ok () →
        Extends (version u) (migrationList u contents base) (migrationList u contents resolved) := by
      intro base resolved haccepted
      obtain ⟨old, new, hold, hnew, happend⟩ := assert_append_only_ok.mp haccepted
      rw [migrationList, migrationList, hold, hnew]
      exact happend.extends
    refine chain_ordered ?_ ?_
    · intro items hitems
      obtain ⟨tree, -, rfl⟩ := List.mem_map.mp hitems
      exact List.Nodup.of_map _ (migration_list_paths u contents tree)
    · rw [List.isChain_map]
      exact hchain.imp hstep
  · intro consumer old new merged current before after items hcurrent hbefore hafter hitems
      hissues hcarried hversions hnew hmerged
    refine assert_append_only_ok.mpr ⟨current, items, hcurrent, hitems, ?_⟩
    rw [migrationIssues, hcurrent, hbefore, hafter] at hissues
    exact issues_accept (migrations_paths hcurrent) (migrations_paths hbefore)
      (migrations_paths hafter) hissues hcarried hversions hnew
      (List.Nodup.of_map _ (migrations_paths hitems)) hmerged

def ascii : Unicode := ⟨fun _ => none, fun _ => false, id⟩

def file (path : String) : Option Record :=
  some ⟨"100644", "blob", "0123456789012345678901234567890123456789", path.toList⟩

/-- A nested migration whose own name starts with no number: the check fails, neither refusing nor
accepting. -/
theorem nested_fails : assertAppendOnly ascii (fun _ => []) [] [file "migrations/1_a/b.sql"] =
    .error .valueError := by
  decide

def fileEntry (path : String) : Entry :=
  ⟨path.toList, "100644", "0123456789012345678901234567890123456789"⟩

/-- The template adds a migration above the consumer's: the upgrade and the advisory check agree. -/
theorem leading_zeros_kept :
    ordered (version ascii) (migrationList ascii (fun _ => []) [file "migrations/010_a.sql"]) <+:
      ordered (version ascii) (migrationList ascii (fun _ => [])
        [file "migrations/010_a.sql", file "migrations/11_b.sql"]) ∧
    assertAppendOnly ascii (fun _ => []) [file "migrations/010_a.sql"]
      [file "migrations/010_a.sql", file "migrations/11_b.sql"] = .ok () := by
  have hadded : assertAppendOnly ascii (fun _ => []) [file "migrations/010_a.sql"]
      [file "migrations/010_a.sql", file "migrations/11_b.sql"] = .ok () :=
    (migrations_append_only ascii fun _ => []).2.2 _ [] [file "migrations/11_b.sql"] _
      [fileEntry "migrations/010_a.sql"] [] [fileEntry "migrations/11_b.sql"]
      [fileEntry "migrations/010_a.sql", fileEntry "migrations/11_b.sql"]
      (by decide) (by decide) (by decide) (by decide) (by decide) (by simp) (by decide) (by decide)
      (by simp)
  have hchain : [[file "migrations/010_a.sql"],
      [file "migrations/010_a.sql", file "migrations/11_b.sql"]].IsChain
      (fun base resolved => assertAppendOnly ascii (fun _ => []) base resolved = .ok ()) :=
    .cons_cons hadded (.singleton _)
  have hpairs := (migrations_append_only ascii fun _ => []).2.1 _ hchain
  exact ⟨(List.pairwise_cons.mp hpairs).1 _ List.mem_cons_self, hadded⟩

end

end MigrationOrder
