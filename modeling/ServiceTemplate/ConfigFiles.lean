import ServiceTemplate.ConfigNames
import ServiceTemplate.TomlTree

/-! The policy of configuration files: the keys an environment variable can address, and no value
at a key that names a credential. -/
namespace ConfigFiles

open ConfigNames
open Splitting
open TomlTree

def isSegmentEnd (c : Char) : Bool := c = '.' || c = '_' || c = '-'

def secretSegment (segments : List (List Char)) (segment : List Char) (i : Nat) : Bool :=
  let previous := if i = 0 then none else segments[i - 1]?
  if segment = "secret".toList ∨ segment = "secrets".toList ∨ segment = "authorization".toList ∨
      segment = "dsn".toList then true
  else if segment = "password".toList ∨ segment = "credentials".toList then
    decide (segments.drop (i + 1) ≠ ["file".toList])
  else if segment = "token".toList then decide (segments[i + 1]? ≠ some "url".toList)
  else if segment = "key".toList then
    decide (previous = some "api".toList ∨ previous = some "private".toList)
  else if segment = "headers".toList then decide (previous = some "otlp".toList)
  else false

def isSecretLikeKey (key : List Char) : Bool :=
  let lowered := (trim isWhitespace key).map Char.toLower
  if lowered = "authn.token_profile".toList then false
  else
    let segments := words isSegmentEnd lowered
    segments.zipIdx.any fun (segment, i) => secretSegment segments segment i

def hasNonEmptyValue : Toml → Bool
  | .string text => trim isWhitespace text ≠ []
  | .array items => !items.isEmpty
  | .table entries => !entries.isEmpty
  | _ => true

def dotted (path : KeyPath) : List Char := ['.'].intercalate path

/-- A table is never reported itself, the search goes on inside it. -/
def secretAt (path : KeyPath) (value : Toml) : Bool :=
  !value.isTable && isSecretLikeKey (dotted path) && hasNonEmptyValue value

def firstSecretLikeKey (table : Table) : Option (List Char) :=
  (firstEntry secretAt [] table).map dotted

def unaddressableAt (path : KeyPath) (_ : Toml) : Bool :=
  path.getLast?.any fun key => !isEnvAddressable key

def firstUnaddressableKey (table : Table) : Option (List Char) :=
  (firstEntry unaddressableAt [] table).map dotted

inductive Error where
  | unaddressableKey (key : List Char)
  | secretInFile (key : List Char)
  deriving DecidableEq

def scanFile (table : Table) : Except Error Unit :=
  match firstUnaddressableKey table with
  | some key => .error (.unaddressableKey key)
  | none =>
    match firstSecretLikeKey table with
    | some key => .error (.secretInFile key)
    | none => .ok ()

example : ["postgres.dsn", "webhooks.endpoints.partner.previous_secret", "signing.private-key",
    "smtp.password_file_contents", "cache.token_profile", "observability.otel.exporter.otlp_headers"
    ].all (fun key => isSecretLikeKey key.toList) = true := by decide

example : ["authn.token_profile", "authn.token_url", "database.password_file", "keyboard.layout",
    "cache.client_key_path", "service_auth.key_id"
    ].any (fun key => isSecretLikeKey key.toList) = false := by decide

/-- A key of some table that no variable can address. -/
def Unaddressable (table : Table) (path : KeyPath) : Prop :=
  ∃ value key, Occurs (.table table) path value ∧ path.getLast? = some key ∧
    isEnvAddressable key = false

def Exposed (table : Table) (path : KeyPath) : Prop :=
  ∃ value, Occurs (.table table) path value ∧ isSecretLikeKey (dotted path) = true ∧
    hasNonEmptyValue value = true

def Offends (table : Table) (path : KeyPath) : Prop := Unaddressable table path ∨ Exposed table path

def PolicyHolds (table : Table) : Prop :=
  (scanFile table = .ok () ↔ ¬ ∃ path, Offends table path) ∧
  (∀ key, scanFile table = .error (.unaddressableKey key) →
    ∃ path, Unaddressable table path ∧ key = dotted path) ∧
  ∀ key, scanFile table = .error (.secretInFile key) →
    ∃ path, Exposed table path ∧ key = dotted path

/-- An offending place that no array is above, and no table where a credential would be. -/
def OffendsInReach (table : Table) (path : KeyPath) : Prop :=
  (∃ value key, Reached (.table table) path value ∧ path.getLast? = some key ∧
    isEnvAddressable key = false) ∨
  ∃ value, Reached (.table table) path value ∧ value.isTable = false ∧
    isSecretLikeKey (dotted path) = true ∧ hasNonEmptyValue value = true

variable {table : Table} {path : KeyPath} {value : Toml} {key : List Char}
  {bad : KeyPath → Toml → Bool}

theorem search_some {found : KeyPath} (h : firstEntry bad [] table = some found) :
    ∃ place, Reached (.table table) found place ∧ bad found place = true := by
  have hinside : firstInside bad [] (.table table) = some found := by rwa [firstInside]
  obtain ⟨below, place, -, rfl, hreached, hbad⟩ := (first_inside_spec _ _).1 found hinside
  exact ⟨place, hreached, hbad⟩

theorem search_none (h : firstEntry bad [] table = none) (hne : path ≠ [])
    (hreached : Reached (.table table) path value) : bad path value = false := by
  have hinside : firstInside bad [] (.table table) = none := by rwa [firstInside]
  exact (first_inside_spec _ _).2 hinside path value hne hreached

theorem unaddressable_at_iff : unaddressableAt path value = true ↔
    ∃ key, path.getLast? = some key ∧ isEnvAddressable key = false := by
  rw [unaddressableAt, Option.any_eq_true]
  simp

theorem secret_at_iff : secretAt path value = true ↔ value.isTable = false ∧
    isSecretLikeKey (dotted path) = true ∧ hasNonEmptyValue value = true := by
  simp [secretAt, and_assoc]

theorem OffendsInReach.offends (h : OffendsInReach table path) : Offends table path := by
  rcases h with ⟨value, key, hreached, hkey⟩ | ⟨value, hreached, -, hsecret⟩
  · exact .inl ⟨value, key, hreached.occurs, hkey⟩
  · exact .inr ⟨value, hreached.occurs, hsecret⟩

theorem unaddressable_reported (h : scanFile table = .error (.unaddressableKey key)) :
    ∃ path, OffendsInReach table path ∧ Unaddressable table path ∧ key = dotted path := by
  rw [scanFile, firstUnaddressableKey] at h
  cases hfind : firstEntry unaddressableAt [] table with
  | none =>
    rw [hfind] at h
    cases hsecret : firstSecretLikeKey table with
    | none => simp [hsecret] at h
    | some found => simp [hsecret] at h
  | some found =>
    rw [hfind] at h
    obtain ⟨place, hreached, hbad⟩ := search_some hfind
    obtain ⟨last, hlast, hkey⟩ := unaddressable_at_iff.mp hbad
    refine ⟨found, .inl ⟨place, last, hreached, hlast, hkey⟩,
      ⟨place, last, hreached.occurs, hlast, hkey⟩, ?_⟩
    simpa using h.symm

theorem secret_reported (h : scanFile table = .error (.secretInFile key)) :
    ∃ path, OffendsInReach table path ∧ Exposed table path ∧ key = dotted path := by
  rw [scanFile] at h
  cases haddress : firstUnaddressableKey table with
  | some found => simp [haddress] at h
  | none =>
    rw [haddress, firstSecretLikeKey] at h
    cases hfind : firstEntry secretAt [] table with
    | none => simp [hfind] at h
    | some found =>
      rw [hfind] at h
      obtain ⟨place, hreached, hbad⟩ := search_some hfind
      obtain ⟨htable, hsecret⟩ := secret_at_iff.mp hbad
      refine ⟨found, .inr ⟨place, hreached, htable, hsecret⟩, ⟨place, hreached.occurs, hsecret⟩, ?_⟩
      simpa using h.symm

/-- The two scans accept exactly the documents without an offending place in their reach. -/
theorem scan_file_ok : scanFile table = .ok () ↔ ¬ ∃ path, OffendsInReach table path := by
  constructor
  · rintro h ⟨path, hoffends⟩
    have haddress : firstEntry unaddressableAt [] table = none := by
      by_contra hsome
      obtain ⟨found, hfound⟩ := Option.ne_none_iff_exists'.mp hsome
      simp [scanFile, firstUnaddressableKey, hfound] at h
    have hsecret : firstEntry secretAt [] table = none := by
      by_contra hsome
      obtain ⟨found, hfound⟩ := Option.ne_none_iff_exists'.mp hsome
      simp [scanFile, firstUnaddressableKey, firstSecretLikeKey, haddress, hfound] at h
    rcases hoffends with ⟨value, key, hreached, hlast, hkey⟩ | ⟨value, hreached, hvalue, hlike⟩
    · have hne : path ≠ [] := by
        rintro rfl
        cases hlast
      have hclean := search_none haddress hne hreached
      rw [unaddressable_at_iff.mpr ⟨key, hlast, hkey⟩] at hclean
      cases hclean
    · have hne : path ≠ [] := by
        rintro rfl
        exact absurd hlike.1 (by decide)
      have hclean := search_none hsecret hne hreached
      rw [secret_at_iff.mpr ⟨hvalue, hlike⟩] at hclean
      cases hclean
  · intro hnone
    match h : scanFile table with
    | .ok () => rfl
    | .error (.unaddressableKey key) =>
      obtain ⟨path, hoffends, -⟩ := unaddressable_reported h
      exact absurd ⟨path, hoffends⟩ hnone
    | .error (.secretInFile key) =>
      obtain ⟨path, hoffends, -⟩ := secret_reported h
      exact absurd ⟨path, hoffends⟩ hnone

/-- The policy is kept exactly by the documents that are clean or whose faults the scans reach:
not those whose only faults lie inside arrays or are tables where a credential would be. -/
theorem scan_file_policy (table : Table) : PolicyHolds table ↔
    ((∃ path, Offends table path) → ∃ path, OffendsInReach table path) := by
  constructor
  · rintro ⟨haccepts, -⟩ hoffends
    by_contra hnone
    exact haccepts.mp (scan_file_ok.mpr hnone) hoffends
  · intro hreach
    refine ⟨?_, fun key h => ?_, fun key h => ?_⟩
    · rw [scan_file_ok, not_iff_not]
      exact ⟨fun ⟨path, h⟩ => ⟨path, h.offends⟩, hreach⟩
    · obtain ⟨path, -, hpath⟩ := unaddressable_reported h
      exact ⟨path, hpath⟩
    · obtain ⟨path, -, hpath⟩ := secret_reported h
      exact ⟨path, hpath⟩

def partners : Table :=
  [("partners".toList, .array [.table [("secret".toList, .string "x".toList)]])]

theorem secret_in_array_accepted : ¬ PolicyHolds partners := by
  rintro ⟨haccepts, -⟩
  have hok : scanFile partners = .ok () := by decide
  refine haccepts.mp hok ⟨["partners".toList, "secret".toList], .inr ⟨.string "x".toList, ?_, ?_, ?_⟩⟩
  · exact .member List.mem_cons_self (.element List.mem_cons_self
      (.member List.mem_cons_self (.here _)))
  · decide
  · decide

end ConfigFiles
