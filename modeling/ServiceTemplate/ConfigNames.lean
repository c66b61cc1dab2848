import ServiceTemplate.PairText
import ServiceTemplate.SortedMap
import ServiceTemplate.Splitting
import Mathlib.Data.List.Lex
import Mathlib.Data.Char

/-! Configuration keys and the names of the variables that set them, and the variables of one load
from the secrets directory and the environment. -/
namespace ConfigNames

open PairText
open Splitting

def envPrefix : List Char := "APP".toList
def envSeparator : List Char := "__".toList

def namespacePrefix : List Char := envPrefix ++ envSeparator

def keyChar (c : Char) : Bool :=
  ('a' ≤ c && c ≤ 'z') || ('0' ≤ c && c ≤ '9') || c = '_' || c = '-'

def isEnvAddressable (name : List Char) : Bool :=
  name ≠ [] && name.all keyChar && !decide (envSeparator <:+: name) && !decide (['_'] <:+ name)

def identifierChar (c : Char) : Bool :=
  ('a' ≤ c && c ≤ 'z') || ('A' ≤ c && c ≤ 'Z') || ('0' ≤ c && c ≤ '9') || c = '_' || c = '-'

def isKeyPath (path : List Char) : Bool :=
  (splitPair '_' '_' path).all fun segment => segment ≠ [] && segment.all identifierChar

/-- Every admitted name is ASCII. -/
def toLowercase (name : List Char) : List Char := name.map Char.toLower

def stripPrefix (start text : List Char) : Option (List Char) :=
  if start.isPrefixOf text then some (text.drop start.length) else none

def variablePath (name : List Char) : List Char :=
  replacePair '_' '_' '.' ((stripPrefix (toLowercase namespacePrefix) name).getD name)

/-- A name or a value of the operating system, and its text with what is no Unicode replaced. -/
structure OsString where
  lossy : List Char
  unicode : Bool
  replaced : unicode = false → '\uFFFD' ∈ lossy

def OsString.intoString (s : OsString) : Option (List Char) :=
  if s.unicode then some s.lossy else none

inductive Error where
  | malformedEnvName (name : List Char)
  | nonUnicodeEnvValue (name : List Char)
  | readSecretsDir
  | malformedSecretName (name : List Char)
  | readSecret (name : List Char)
  | ambiguousName (name other : List Char)
  deriving DecidableEq

/-- The lowercased name, then the name as spelled and its value. -/
abbrev Variables := SortedMap (List Char) (List Char × List Char)

def admitVariable (recorded : Variables) (name value : List Char) : Except Error Variables :=
  match recorded.get? (toLowercase name) with
  | some (other, _) => .error (.ambiguousName name other)
  | none => .ok (recorded.insert (toLowercase name) (name, value))

/-- One entry of the environment: an error, no variable, or a variable's name and value. -/
def readVariable (entry : OsString × OsString) : Except Error (Option (List Char × List Char)) :=
  let name := entry.1.lossy
  match stripPrefix namespacePrefix name with
  | none => .ok none
  | some path =>
    if !isKeyPath path then .error (.malformedEnvName name)
    else
      match entry.2.intoString with
      | none => .error (.nonUnicodeEnvValue name)
      | some value => .ok (some (name, value))

/-- One file of the directory; its content is missing when it cannot be read as text. -/
structure SecretFile where
  fileName : OsString
  content : Option (List Char)

def isLineBreak (c : Char) : Bool := c = '\r' || c = '\n'

/-- One entry of the directory; a missing one could not be listed. -/
def readSecret (entry : Option SecretFile) : Except Error (Option (List Char × List Char)) :=
  match entry with
  | none => .error .readSecretsDir
  | some file =>
    let name := file.fileName.lossy
    match stripPrefix namespacePrefix name with
    | none => .ok none
    | some path =>
      if !isKeyPath path then .error (.malformedSecretName name)
      else
        match file.content with
        | none => .error (.readSecret name)
        | some value =>
          if '\x00' ∈ value then .error (.readSecret name)
          else .ok (some (name, trimEnd isLineBreak value))

variable {ε : Type}

def readEntry (read : ε → Except Error (Option (List Char × List Char))) (recorded : Variables)
    (entry : ε) : Except Error Variables :=
  match read entry with
  | .error error => .error error
  | .ok none => .ok recorded
  | .ok (some (name, value)) => admitVariable recorded name value

def readAll (read : ε → Except Error (Option (List Char × List Char))) (entries : List ε) :
    Except Error Variables :=
  entries.foldlM (readEntry read) .empty

def readEnvironment (environment : List (OsString × OsString)) : Except Error Variables :=
  readAll readVariable environment

/-- A directory that cannot be opened has no listing. -/
def readSecretsDir (listing : Option (List (Option SecretFile))) : Except Error Variables :=
  match listing with
  | none => .error .readSecretsDir
  | some entries => readAll readSecret entries

def collectNamespace (secretsDir : Option (Option (List (Option SecretFile))))
    (environment : List (OsString × OsString)) :
    Except Error (SortedMap (List Char) (List Char)) := do
  let fromDirectory ← match secretsDir with
    | some dir => readSecretsDir dir
    | none => .ok .empty
  let fromEnvironment ← readEnvironment environment
  return (fromDirectory.extend fromEnvironment).mapValues Prod.snd

theorem addressable_iff {name : List Char} : isEnvAddressable name = true ↔
    name ≠ [] ∧ (∀ c ∈ name, keyChar c = true) ∧ ¬ ['_', '_'] <:+: name ∧ ¬ ['_'] <:+ name := by
  simp only [isEnvAddressable, Bool.and_eq_true, decide_eq_true_eq, List.all_eq_true,
    Bool.not_eq_true', decide_eq_false_iff_not, and_assoc]
  rfl

theorem separator_behind {name : List Char} :
    ['_', '_'] <:+: name ++ ['_'] ↔ ['_', '_'] <:+: name ∨ ['_'] <:+ name := by
  have hsplit : ['_', '_'] = ['_'] ++ ['_'] := rfl
  rw [List.infix_concat_iff, or_comm, hsplit, List.suffix_concat_iff]
  refine or_congr_right ⟨?_, fun h => .inr ⟨['_'], rfl, h⟩⟩
  rintro (h | ⟨t, ht, h⟩)
  · exact absurd h (List.cons_ne_nil _ _)
  · exact (List.append_left_inj ['_']).mp ht ▸ h

theorem addressable_piece {name : List Char} (h : isEnvAddressable name = true) :
    ¬ ['_', '_'] <:+: name ++ ['_'] := by
  obtain ⟨-, -, hfree, hend⟩ := addressable_iff.mp h
  rw [separator_behind]
  exact not_or.mpr ⟨hfree, hend⟩

theorem char_le_iff (c d : Char) : c ≤ d ↔ c.toNat ≤ d.toNat := Iff.rfl

theorem to_lower_upper {c : Char} (h : 'A' ≤ c ∧ c ≤ 'Z') : c.toLower.toNat = c.toNat + 32 := by
  have hlow : 'A'.val ≤ c.val := h.1
  have hhigh : c.val ≤ 'Z'.val := h.2
  delta Char.toLower
  simp only [ge_iff_le, hlow, hhigh, and_self, dite_true]
  rw [UInt32.le_iff_toNat_le] at hhigh
  change (c.val + 32).toNat = c.val.toNat + 32
  rw [UInt32.toNat_add]
  have hz : 'Z'.val.toNat = 90 := rfl
  have hshift : (32 : UInt32).toNat = 32 := rfl
  omega

theorem to_lower_other {c : Char} (h : ¬ ('A' ≤ c ∧ c ≤ 'Z')) : c.toLower = c := by
  have hval : ¬ (c.val ≥ 'A'.val ∧ c.val ≤ 'Z'.val) := h
  delta Char.toLower
  simp only [hval, dite_false]

theorem key_char_lower {c : Char} : keyChar c.toLower = identifierChar c := by
  rw [Bool.eq_iff_iff]
  simp only [keyChar, identifierChar, Bool.or_eq_true, Bool.and_eq_true, decide_eq_true_eq]
  by_cases h : 'A' ≤ c ∧ c ≤ 'Z'
  · have hlower := to_lower_upper h
    simp only [char_le_iff] at h ⊢
    have ha : 'A'.toNat = 65 := rfl
    have hz : 'Z'.toNat = 90 := rfl
    have hla : 'a'.toNat = 97 := rfl
    have hlz : 'z'.toNat = 122 := rfl
    refine iff_of_true (.inl (.inl (.inl ?_))) (.inl (.inl (.inl (.inr h))))
    omega
  · rw [to_lower_other h]
    tauto

theorem lower_underscore (c : Char) : c.toLower = '_' ↔ c = '_' := by
  by_cases h : 'A' ≤ c ∧ c ≤ 'Z'
  · have hlower := to_lower_upper h
    simp only [char_le_iff] at h
    have ha : 'A'.toNat = 65 := rfl
    have hz : 'Z'.toNat = 90 := rfl
    have hbar : '_'.toNat = 95 := rfl
    refine iff_of_false (fun heq => ?_) (fun heq => ?_)
    · have := congrArg Char.toNat heq
      omega
    · have := congrArg Char.toNat heq
      omega
  · rw [to_lower_other h]

theorem lower_key_text {text : List Char} (h : ∀ c ∈ text, keyChar c = true) :
    toLowercase text = text := by
  refine (List.map_congr_left fun c hc => ?_).trans (List.map_id text)
  rw [to_lower_other]
  · rfl
  · intro hupper
    have hc := h c hc
    simp only [keyChar, Bool.or_eq_true, Bool.and_eq_true, decide_eq_true_eq] at hc
    simp only [char_le_iff] at hupper hc
    have ha : 'A'.toNat = 65 := rfl
    have hz : 'Z'.toNat = 90 := rfl
    have hla : 'a'.toNat = 97 := rfl
    have h9 : '9'.toNat = 57 := rfl
    rcases hc with ((hc | hc) | rfl) | rfl
    · omega
    · omega
    · exact absurd hupper.2 (by decide)
    · exact absurd hupper.1 (by decide)

theorem joined_key_text {keys : List (List Char)} (h : ∀ key ∈ keys, ∀ c ∈ key, keyChar c = true) :
    ∀ c ∈ envSeparator.intercalate keys, keyChar c = true := by
  induction keys with
  | nil => simp [List.intercalate]
  | cons key keys ih =>
    obtain ⟨hkey, hkeys⟩ := List.forall_mem_cons.mp h
    cases keys with
    | nil => simpa [List.intercalate] using hkey
    | cons next keys =>
      have hjoin : envSeparator.intercalate (key :: next :: keys) =
          key ++ envSeparator ++ envSeparator.intercalate (next :: keys) := by
        simp [List.intercalate]
      intro c hc
      rw [hjoin, List.mem_append, List.mem_append] at hc
      rcases hc with (hc | hc) | hc
      · exact hkey c hc
      · exact (by decide : ∀ c ∈ envSeparator, keyChar c = true) c hc
      · exact ih hkeys c hc

/-- The segments of a variable's name after `APP__`, as the loader reads them. -/
theorem split_lower (name : List Char) :
    splitPair '_' '_' (toLowercase name) = (splitPair '_' '_' name).map toLowercase :=
  split_pair_map lower_underscore lower_underscore name

theorem key_path_iff {name : List Char} : isKeyPath name = true ↔
    ∀ segment ∈ splitPair '_' '_' (toLowercase name),
      segment ≠ [] ∧ ∀ c ∈ segment, keyChar c = true := by
  rw [split_lower]
  simp [isKeyPath, toLowercase, key_char_lower]

theorem strip_append (start rest : List Char) : stripPrefix start (start ++ rest) = some rest := by
  rw [stripPrefix, if_pos (List.isPrefixOf_iff_prefix.mpr (List.prefix_append start rest)),
    List.drop_left]

theorem variable_path_segments (name : List Char) :
    variablePath (toLowercase (namespacePrefix ++ name)) =
      ['.'].intercalate (splitPair '_' '_' (toLowercase name)) := by
  have hname : toLowercase (namespacePrefix ++ name) =
      toLowercase namespacePrefix ++ toLowercase name := List.map_append
  rw [variablePath, hname, strip_append, Option.getD_some, replace_pair_join]

theorem segments_of_keys {keys : List (List Char)} {name : List Char} (hne : keys ≠ [])
    (hkeys : ∀ key ∈ keys, isEnvAddressable key = true)
    (hname : toLowercase name = toLowercase (envSeparator.intercalate keys)) :
    splitPair '_' '_' (toLowercase name) = keys := by
  have htext : ∀ key ∈ keys, ∀ c ∈ key, keyChar c = true := fun key hkey =>
    (addressable_iff.mp (hkeys key hkey)).2.1
  rw [hname, lower_key_text (joined_key_text htext)]
  exact split_pair_join hne fun key hkey => addressable_piece (hkeys key hkey)

/-- Only the last segment can be a key that is not addressable: one that ends in `_`. -/
theorem segment_addressable {name : List Char} {init : List (List Char)} {last : List Char}
    (hpath : isKeyPath name = true)
    (hsplit : splitPair '_' '_' (toLowercase name) = init ++ [last]) :
    (∀ segment ∈ init, isEnvAddressable segment = true) ∧ last ≠ [] ∧
      (∀ c ∈ last, keyChar c = true) ∧ ¬ envSeparator <:+: last := by
  obtain ⟨hinit, hlast⟩ := split_pair_pieces hsplit
  rw [key_path_iff, hsplit] at hpath
  have hend := hpath last (by simp)
  refine ⟨?_, hend.1, hend.2, hlast⟩
  intro segment hsegment
  obtain ⟨hne, htext⟩ := hpath segment (List.mem_append_left _ hsegment)
  have hclean := hinit segment hsegment
  rw [separator_behind, not_or] at hclean
  exact addressable_iff.mpr ⟨hne, htext, hclean.1, hclean.2⟩

def keys (entries : List (List Char × List Char)) : List (List Char) :=
  entries.map fun entry => toLowercase entry.1

def found (read : ε → Except Error (Option (List Char × List Char))) (entries : List ε) :
    List (List Char × List Char) :=
  entries.filterMap fun entry => (read entry).toOption.join

def Clean (read : ε → Except Error (Option (List Char × List Char))) (entries : List ε) : Prop :=
  (∀ entry ∈ entries, ∃ result, read entry = .ok result) ∧ (keys (found read entries)).Nodup

def variablesOf (entries : List (List Char × List Char)) : Variables :=
  .ofList (entries.map fun entry => (toLowercase entry.1, entry))

variable {read : ε → Except Error (Option (List Char × List Char))} {entries entries' : List ε}
  {known : List (List Char × List Char)} {name value key : List Char} {m : Variables}

theorem variables_keys (known : List (List Char × List Char)) :
    (known.map fun entry => (toLowercase entry.1, entry)).map Prod.fst = keys known := by
  rw [List.map_map]
  rfl

theorem variables_get (h : (keys known).Nodup) {entry : List Char × List Char} :
    (variablesOf known).get? key = some entry ↔ entry ∈ known ∧ toLowercase entry.1 = key := by
  rw [variablesOf, SortedMap.get_of_list (variables_keys known ▸ h), List.mem_map]
  constructor
  · rintro ⟨other, hmem, heq⟩
    obtain ⟨rfl, rfl⟩ := Prod.mk.inj heq
    exact ⟨hmem, rfl⟩
  · rintro ⟨hmem, rfl⟩
    exact ⟨entry, hmem, rfl⟩

theorem variables_absent (h : (keys known).Nodup) :
    (variablesOf known).get? key = none ↔ key ∉ keys known := by
  rw [Option.eq_none_iff_forall_not_mem, keys, List.mem_map]
  constructor
  · rintro hnone ⟨entry, hmem, hkey⟩
    exact hnone entry ((variables_get h).mpr ⟨hmem, hkey⟩)
  · intro hkey entry hentry
    obtain ⟨hmem, hname⟩ := (variables_get h).mp hentry
    exact hkey ⟨entry, hmem, hname⟩

theorem variables_snoc (known : List (List Char × List Char)) (name value : List Char) :
    variablesOf (known ++ [(name, value)]) =
      (variablesOf known).insert (toLowercase name) (name, value) := by
  simp [variablesOf, SortedMap.ofList]

theorem admit_new (hknown : (keys known).Nodup) (h : toLowercase name ∉ keys known) :
    admitVariable (variablesOf known) name value = .ok (variablesOf (known ++ [(name, value)])) := by
  rw [admitVariable, (variables_absent hknown).mpr h, variables_snoc]

theorem admit_known (value : List Char) (hknown : (keys known).Nodup)
    (h : toLowercase name ∈ keys known) :
    ∃ error, admitVariable (variablesOf known) name value = .error error := by
  have hsome : (variablesOf known).get? (toLowercase name) ≠ none := fun hnone =>
    (variables_absent hknown).mp hnone h
  obtain ⟨entry, hentry⟩ := Option.ne_none_iff_exists'.mp hsome
  exact ⟨.ambiguousName name entry.1, by rw [admitVariable, hentry]⟩

theorem keys_append (known more : List (List Char × List Char)) :
    keys (known ++ more) = keys known ++ keys more := List.map_append

theorem read_all_from (entries : List ε) {known : List (List Char × List Char)}
    (hknown : (keys known).Nodup) :
    entries.foldlM (readEntry read) (variablesOf known) = .ok m ↔
      (∀ entry ∈ entries, ∃ result, read entry = .ok result) ∧
        (keys (known ++ found read entries)).Nodup ∧
        m = variablesOf (known ++ found read entries) := by
  induction entries generalizing known with
  | nil =>
    have hnone : found read ([] : List ε) = [] := rfl
    rw [hnone, List.append_nil]
    refine ⟨fun h => ⟨by simp, hknown, ?_⟩, fun h => ?_⟩
    · exact (Except.ok.inj h).symm
    · rw [h.2.2]
      rfl
  | cons entry entries ih =>
    rw [List.foldlM_cons, List.forall_mem_cons]
    match hread : read entry with
    | .error error =>
      have hstep : readEntry read (variablesOf known) entry = .error error := by
        rw [readEntry, hread]
      rw [hstep]
      refine iff_of_false nofun ?_
      rintro ⟨⟨⟨result, hresult⟩, -⟩, -⟩
      cases hresult
    | .ok none =>
      have hstep : readEntry read (variablesOf known) entry = .ok (variablesOf known) := by
        rw [readEntry, hread]
      have hfound : found read (entry :: entries) = found read entries := by
        simp [found, hread, Except.toOption]
      rw [hstep, hfound]
      exact (ih hknown).trans (and_congr_left' (and_iff_right ⟨_, rfl⟩).symm)
    | .ok (some (name, value)) =>
      have hfound : found read (entry :: entries) = (name, value) :: found read entries := by
        simp [found, hread, Except.toOption]
      have happend : known ++ found read (entry :: entries) =
          (known ++ [(name, value)]) ++ found read entries := by
        rw [hfound, List.append_assoc, List.singleton_append]
      rw [happend]
      by_cases hname : toLowercase name ∈ keys known
      · obtain ⟨error, herror⟩ := admit_known value hknown hname
        have hstep : readEntry read (variablesOf known) entry = .error error := by
          rw [readEntry, hread]
          exact herror
        rw [hstep]
        refine iff_of_false nofun ?_
        rintro ⟨-, hnodup, -⟩
        rw [keys_append, keys_append] at hnodup
        exact List.disjoint_of_nodup_append (hnodup.sublist (List.sublist_append_left _ _)) hname
          (List.mem_singleton.mpr rfl)
      · have hstep : readEntry read (variablesOf known) entry =
            .ok (variablesOf (known ++ [(name, value)])) := by
          rw [readEntry, hread]
          exact admit_new hknown hname
        have hnodup : (keys (known ++ [(name, value)])).Nodup := by
          rw [keys_append]
          exact hknown.append (List.nodup_singleton _) (by simpa [keys] using hname)
        rw [hstep]
        exact (ih hnodup).trans (and_congr_left' (and_iff_right ⟨_, rfl⟩).symm)

theorem read_all_ok : readAll read entries = .ok m ↔
    Clean read entries ∧ m = variablesOf (found read entries) := by
  rw [readAll, Clean, and_assoc]
  have hstart : (keys []).Nodup := List.nodup_nil
  exact read_all_from entries hstart

theorem clean_perm (h : entries.Perm entries') (hclean : Clean read entries) :
    Clean read entries' := by
  have hfound : (found read entries).Perm (found read entries') := h.filterMap _
  exact ⟨fun entry hentry => hclean.1 entry (h.mem_iff.mpr hentry),
    (hfound.map _).nodup_iff.mp hclean.2⟩

theorem variables_perm (h : entries.Perm entries') (hclean : Clean read entries) :
    variablesOf (found read entries) = variablesOf (found read entries') :=
  SortedMap.of_list_perm (variables_keys _ ▸ hclean.2) ((h.filterMap _).map _)

theorem read_all_perm (h : entries.Perm entries') :
    readAll read entries = .ok m ↔ readAll read entries' = .ok m := by
  rw [read_all_ok, read_all_ok]
  constructor
  · rintro ⟨hclean, rfl⟩
    exact ⟨clean_perm h hclean, variables_perm h hclean⟩
  · rintro ⟨hclean, rfl⟩
    exact ⟨clean_perm h.symm hclean, variables_perm h.symm hclean⟩

/-- What a name without the prefix or with a malformed path is not. -/
def acceptedName (s : OsString) : Option (List Char) :=
  match stripPrefix namespacePrefix s.lossy with
  | some path => if isKeyPath path then some s.lossy else none
  | none => none

def variableName (entry : OsString × OsString) : Option (List Char) := acceptedName entry.1

def secretName (entry : Option SecretFile) : Option (List Char) :=
  entry.bind fun file => acceptedName file.fileName

theorem read_variable_name {entry : OsString × OsString} (h : variableName entry = some name) :
    (∃ error, readVariable entry = .error error) ∨
      ∃ value, readVariable entry = .ok (some (name, value)) := by
  rw [variableName, acceptedName] at h
  rw [readVariable]
  cases hstrip : stripPrefix namespacePrefix entry.1.lossy with
  | none => rw [hstrip] at h; cases h
  | some path =>
    rw [hstrip] at h
    by_cases hpath : isKeyPath path = true
    · simp only [hpath, if_true, Option.some.injEq] at h
      subst h
      cases hvalue : entry.2.intoString with
      | none => simp [hpath]
      | some value => simp [hpath]
    · simp [hpath] at h

theorem read_secret_name {entry : Option SecretFile} (h : secretName entry = some name) :
    (∃ error, readSecret entry = .error error) ∨
      ∃ value, readSecret entry = .ok (some (name, value)) := by
  cases entry with
  | none => cases h
  | some file =>
    simp only [secretName, Option.bind_some, acceptedName] at h
    rw [readSecret]
    cases hstrip : stripPrefix namespacePrefix file.fileName.lossy with
    | none => rw [hstrip] at h; cases h
    | some path =>
      rw [hstrip] at h
      by_cases hpath : isKeyPath path = true
      · simp only [hpath, if_true, Option.some.injEq] at h
        subst h
        cases hcontent : file.content with
        | none => simp [hpath]
        | some value =>
          by_cases hnul : '\x00' ∈ value
          · simp [hpath, hnul]
          · simp [hpath, hnul]
      · simp [hpath] at h

/-- Two accepted names that differ in case alone are not read. -/
theorem two_spellings {nameOf : ε → Option (List Char)}
    (hread : ∀ entry name, nameOf entry = some name →
      (∃ error, read entry = .error error) ∨ ∃ value, read entry = .ok (some (name, value)))
    {first second : ε} {other : List Char} (h : [first, second].Sublist entries)
    (hfirst : nameOf first = some name) (hsecond : nameOf second = some other)
    (hsame : toLowercase name = toLowercase other) : ∃ error, readAll read entries = .error error := by
  cases hall : readAll read entries with
  | error error => exact ⟨error, rfl⟩
  | ok m =>
    obtain ⟨⟨hcan, hnodup⟩, -⟩ := read_all_ok.mp hall
    have hok : ∀ entry ∈ [first, second], ∀ name, nameOf entry = some name →
        ∃ value, read entry = .ok (some (name, value)) := by
      intro entry hentry name hname
      obtain ⟨result, hresult⟩ := hcan entry (h.subset hentry)
      rcases hread entry name hname with ⟨error, herror⟩ | hvalue
      · rw [hresult] at herror
        cases herror
      · exact hvalue
    obtain ⟨value, hvalue⟩ := hok first (by simp) name hfirst
    obtain ⟨value', hvalue'⟩ := hok second (by simp) other hsecond
    have hpair : (found read [first, second]) = [(name, value), (other, value')] := by
      simp [found, hvalue, hvalue', Except.toOption]
    have hsub : (keys (found read [first, second])).Sublist (keys (found read entries)) :=
      (h.filterMap _).map _
    have htwice := hnodup.sublist hsub
    rw [hpair] at htwice
    simp [keys, hsame] at htwice

/-- A directory that cannot be opened reads like an entry that cannot be listed. -/
def listed : Option (Option (List (Option SecretFile))) → List (Option SecretFile)
  | none => []
  | some none => [none]
  | some (some entries) => entries

theorem collect_reads (secretsDir : Option (Option (List (Option SecretFile))))
    (environment : List (OsString × OsString)) :
    collectNamespace secretsDir environment = (do
      let fromDirectory ← readAll readSecret (listed secretsDir)
      let fromEnvironment ← readAll readVariable environment
      return (fromDirectory.extend fromEnvironment).mapValues Prod.snd) := by
  rcases secretsDir with _ | _ | entries
  · rfl
  · rfl
  · rfl

def Carries (read : ε → Except Error (Option (List Char × List Char))) (entries : List ε)
    (key value : List Char) : Prop :=
  ∃ entry ∈ entries, ∃ name, read entry = .ok (some (name, value)) ∧ toLowercase name = key

theorem found_get (h : Clean read entries) :
    ((variablesOf (found read entries)).get? key).map Prod.snd = some value ↔
      Carries read entries key value := by
  rw [Option.map_eq_some_iff]
  constructor
  · rintro ⟨⟨name, value⟩, hget, rfl⟩
    obtain ⟨hmem, hkey⟩ := (variables_get h.2).mp hget
    obtain ⟨entry, hentry, hfound⟩ := List.mem_filterMap.mp hmem
    obtain ⟨result, hresult⟩ := h.1 entry hentry
    rw [hresult] at hfound
    have hvalue : result = some (name, value) := by simpa [Except.toOption] using hfound
    exact ⟨entry, hentry, name, hvalue ▸ hresult, hkey⟩
  · rintro ⟨entry, hentry, name, hread, hkey⟩
    have hmem : (name, value) ∈ found read entries :=
      List.mem_filterMap.mpr ⟨entry, hentry, by rw [hread]; rfl⟩
    exact ⟨(name, value), (variables_get h.2).mpr ⟨hmem, hkey⟩, rfl⟩

theorem collect_ok {secretsDir : Option (Option (List (Option SecretFile)))}
    {environment : List (OsString × OsString)} {m : SortedMap (List Char) (List Char)} :
    collectNamespace secretsDir environment = .ok m ↔
      ∃ fromDirectory fromEnvironment, readAll readSecret (listed secretsDir) = .ok fromDirectory ∧
        readAll readVariable environment = .ok fromEnvironment ∧
        m = (fromDirectory.extend fromEnvironment).mapValues Prod.snd := by
  rw [collect_reads]
  cases hdir : readAll readSecret (listed secretsDir) with
  | error error => exact iff_of_false nofun (by simp)
  | ok fromDirectory =>
    cases henv : readAll readVariable environment with
    | error error => exact iff_of_false nofun (by simp)
    | ok fromEnvironment =>
      constructor
      · intro h
        exact ⟨_, _, rfl, rfl, (Except.ok.inj h).symm⟩
      · rintro ⟨_, _, hd, he, rfl⟩
        cases hd
        cases he
        rfl

theorem collect_perm {secretsDir secretsDir' : Option (Option (List (Option SecretFile)))}
    {environment environment' : List (OsString × OsString)}
    {m : SortedMap (List Char) (List Char)}
    (hdir : Option.Rel (Option.Rel List.Perm) secretsDir secretsDir')
    (henv : environment.Perm environment') :
    collectNamespace secretsDir environment = .ok m ↔
      collectNamespace secretsDir' environment' = .ok m := by
  have hlisted : (listed secretsDir).Perm (listed secretsDir') := by
    cases hdir with
    | none => exact .nil
    | some hdir =>
      cases hdir with
      | none => exact .refl _
      | some hdir => exact hdir
  simp only [collect_ok, read_all_perm hlisted, read_all_perm henv]

theorem collect_get {secretsDir : Option (Option (List (Option SecretFile)))}
    {environment : List (OsString × OsString)} {m : SortedMap (List Char) (List Char)}
    (h : collectNamespace secretsDir environment = .ok m) :
    m.get? key = some value ↔ Carries readVariable environment key value ∨
      (∀ other, ¬ Carries readVariable environment key other) ∧
        Carries readSecret (listed secretsDir) key value := by
  obtain ⟨fromDirectory, fromEnvironment, hdir, henv, rfl⟩ := collect_ok.mp h
  obtain ⟨hcleanDir, rfl⟩ := read_all_ok.mp hdir
  obtain ⟨hcleanEnv, rfl⟩ := read_all_ok.mp henv
  rw [SortedMap.get_map_values, SortedMap.get_extend, ← found_get hcleanDir, ← found_get hcleanEnv]
  simp only [← found_get hcleanEnv]
  cases (variablesOf (found readVariable environment)).get? key with
  | none => simp
  | some entry => simp

theorem collect_refuses {secretsDir : Option (Option (List (Option SecretFile)))}
    {environment : List (OsString × OsString)} {error : Error}
    (h : readAll readSecret (listed secretsDir) = .error error ∨
      readAll readVariable environment = .error error) :
    ∃ error, collectNamespace secretsDir environment = .error error := by
  cases hall : collectNamespace secretsDir environment with
  | error error => exact ⟨error, rfl⟩
  | ok m =>
    obtain ⟨_, _, hdir, henv, -⟩ := collect_ok.mp hall
    rcases h with h | h
    · rw [hdir] at h
      cases h
    · rw [henv] at h
      cases h

theorem unaddressable_segment {name : List Char} {key : List Char} (hpath : isKeyPath name = true)
    (hmem : key ∈ splitPair '_' '_' (toLowercase name)) (hkey : isEnvAddressable key = false) :
    ∃ init, splitPair '_' '_' (toLowercase name) = init ++ [key] ∧
      (∀ segment ∈ init, isEnvAddressable segment = true) ∧ key ≠ [] ∧
      (∀ c ∈ key, keyChar c = true) ∧ ¬ envSeparator <:+: key ∧ ['_'] <:+ key := by
  obtain ⟨init, last, hsplit⟩ := (List.eq_nil_or_concat' _).resolve_left
    (split_pair_ne_nil '_' '_' (toLowercase name))
  obtain ⟨hinit, hne, htext, hfree⟩ := segment_addressable hpath hsplit
  rw [hsplit, List.mem_append, List.mem_singleton] at hmem
  rcases hmem with hmem | rfl
  · rw [hinit key hmem] at hkey
    cases hkey
  · refine ⟨init, hsplit, hinit, hne, htext, hfree, ?_⟩
    by_contra hend
    rw [addressable_iff.mpr ⟨hne, htext, hfree, hend⟩] at hkey
    cases hkey

/-- A variable may set a key that no file may hold: one that ends in an underscore. -/
theorem trailing_underscore_set :
    ¬ ∀ name, isKeyPath name = true → ∀ key, isEnvAddressable key = false →
      key ∉ splitPair '_' '_' (toLowercase name) :=
  fun h => absurd (h "A_".toList (by decide) "a_".toList (by decide)) (by decide)

/-- File keys and variable names address the same entries, and a load's variables do not depend
on the order in which its carriers list them. -/
theorem variables_address_keys :
    (∀ keys name, keys ≠ [] → (∀ key ∈ keys, isEnvAddressable key = true) →
      toLowercase name = toLowercase (envSeparator.intercalate keys) →
      isKeyPath name = true ∧ splitPair '_' '_' (toLowercase name) = keys ∧
        variablePath (toLowercase (namespacePrefix ++ name)) = ['.'].intercalate keys) ∧
    (∀ keys keys' name name', keys ≠ [] → keys' ≠ [] →
      (∀ key ∈ keys, isEnvAddressable key = true) →
      (∀ key ∈ keys', isEnvAddressable key = true) →
      toLowercase name = toLowercase (envSeparator.intercalate keys) →
      toLowercase name' = toLowercase (envSeparator.intercalate keys') →
      keys ≠ keys' → toLowercase name ≠ toLowercase name') ∧
    (∀ name, isKeyPath name = true →
      variablePath (toLowercase (namespacePrefix ++ name)) =
        ['.'].intercalate (splitPair '_' '_' (toLowercase name)) ∧
      ∀ key ∈ splitPair '_' '_' (toLowercase name), isEnvAddressable key = false →
        ∃ init, splitPair '_' '_' (toLowercase name) = init ++ [key] ∧
          (∀ segment ∈ init, isEnvAddressable segment = true) ∧ key ≠ [] ∧
          (∀ c ∈ key, keyChar c = true) ∧ ¬ envSeparator <:+: key ∧ ['_'] <:+ key) ∧
    (∀ secretsDir secretsDir' environment environment',
      Option.Rel (Option.Rel List.Perm) secretsDir secretsDir' → environment.Perm environment' →
      ∀ m, collectNamespace secretsDir environment = .ok m ↔
        collectNamespace secretsDir' environment' = .ok m) ∧
    (∀ secretsDir environment m, collectNamespace secretsDir environment = .ok m →
      ∀ key value, m.get? key = some value ↔ Carries readVariable environment key value ∨
        (∀ other, ¬ Carries readVariable environment key other) ∧
          Carries readSecret (listed secretsDir) key value) ∧
    ∀ secretsDir environment name other, toLowercase name = toLowercase other →
      ((∃ first second, [first, second].Sublist environment ∧ variableName first = some name ∧
          variableName second = some other) ∨
        ∃ first second, [first, second].Sublist (listed secretsDir) ∧
          secretName first = some name ∧ secretName second = some other) →
      ∃ error, collectNamespace secretsDir environment = .error error := by
  refine ⟨?_, ?_, ?_, fun _ _ _ _ hdir henv _ => collect_perm hdir henv,
    fun _ _ _ h _ _ => collect_get h, ?_⟩
  · intro keys name hne hkeys hname
    have hsplit := segments_of_keys hne hkeys hname
    refine ⟨key_path_iff.mpr ?_, hsplit, by rw [variable_path_segments, hsplit]⟩
    rw [hsplit]
    intro segment hsegment
    obtain ⟨hsome, htext, -⟩ := addressable_iff.mp (hkeys segment hsegment)
    exact ⟨hsome, htext⟩
  · intro keys keys' name name' hne hne' hkeys hkeys' hname hname' hdiffer hsame
    apply hdiffer
    rw [← segments_of_keys hne hkeys hname, ← segments_of_keys hne' hkeys' hname', hsame]
  · intro name hpath
    exact ⟨variable_path_segments name, fun key hmem hkey => unaddressable_segment hpath hmem hkey⟩
  · intro secretsDir environment name other hsame htwice
    rcases htwice with ⟨first, second, hsub, hfirst, hsecond⟩ | ⟨first, second, hsub, hfirst, hsecond⟩
    · have hread := fun entry name (h : variableName entry = some name) => read_variable_name h
      obtain ⟨error, herror⟩ := two_spellings hread hsub hfirst hsecond hsame
      exact collect_refuses (.inr herror)
    · have hread := fun entry name (h : secretName entry = some name) => read_secret_name h
      obtain ⟨error, herror⟩ := two_spellings hread hsub hfirst hsecond hsame
      exact collect_refuses (.inl herror)

end ConfigNames
