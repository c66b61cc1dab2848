import ServiceTemplate.JsonPaths
import ServiceTemplate.MessagingWire

/-! The registered routes as one document: payload schemas with their references moved into the
payload itself, and channels that do not remember the order of the routes. -/
namespace MessagingContract

open ByteFraming
open JsonText
open JsonTree
open JsonPaths
open MessagingText (validText validSubject)
open MessagingWire (messageIdName eventTypeName eventSchemaName createdAtName natsMsgIdName)

def string (text : String) : Json := .scalar (.string text.toList)

def number (n : ℕ) : Json := .scalar (.number (Nat.toDigits 10 n) (decimal_number n))

/-- An object; its names are kept sorted. -/
def object (members : List (String × Json)) : Json := .object (SortedMap.ofList members).entries

def componentsPrefix : List Char := "#/components/schemas/".toList
def defsPrefix : List Char := "#/$defs/".toList

def mapKeywords : List String :=
  ["$defs", "definitions", "properties", "patternProperties", "dependentSchemas"]

def listKeywords : List String := ["allOf", "anyOf", "oneOf", "prefixItems"]

def childKeywords : List String :=
  ["items", "contains", "additionalProperties", "unevaluatedProperties", "unevaluatedItems",
    "propertyNames", "contentSchema", "not", "if", "then", "else"]

def relocateRef : Scalar → Scalar
  | .string reference =>
    if componentsPrefix.isPrefixOf reference then
      .string (defsPrefix ++ reference.drop componentsPrefix.length)
    else .string reference
  | x => x

mutual

/-- `relocate_schema_refs`. Only an object is a schema with references of its own. -/
def relocate : Json → Json
  | .object members => .object (relocateMembers members)
  | schema => schema

/-- The members of a schema. Each keyword names one member, and no two of its lists share one. -/
def relocateMembers : List (String × Json) → List (String × Json)
  | [] => []
  | (keyword, value) :: members =>
    (keyword,
      if keyword = "$ref" then
        match value with
        | .scalar x => .scalar (relocateRef x)
        | value => value
      else if keyword ∈ mapKeywords then
        match value with
        | .object children => .object (relocateChildren children)
        | value => value
      else if keyword ∈ listKeywords then
        match value with
        | .array children => .array (relocateItems children)
        | value => value
      else if keyword ∈ childKeywords then relocate value
      else value) :: relocateMembers members

def relocateChildren : List (String × Json) → List (String × Json)
  | [] => []
  | (name, child) :: children => (name, relocate child) :: relocateChildren children

def relocateItems : List Json → List Json
  | [] => []
  | child :: children => relocate child :: relocateItems children

end

/-- A payload type's schema and those it refers to; no value means that one cannot be rendered. -/
structure PayloadType where
  name : String
  dependencies : List (String × Option Json)
  schema : Option Json

def payloadSchema (type : PayloadType) : List (String × Option Json) × String :=
  (type.dependencies ++ [(type.name, type.schema)], type.name)

structure Route where
  eventType : String
  schemaVersion : UInt16
  subject : String
  schema : Option PayloadType

def Route.key (route : Route) : String × UInt16 := (route.eventType, route.schemaVersion)

inductive RegistryError where
  | invalidRoute (reason : String)
  | duplicateRoute (eventType : String) (schemaVersion : UInt16)
  deriving DecidableEq, Repr

/-- The routes of a registry, whose keys differ. -/
def addDeclared (mapped : List Route) (route : Route) : Except RegistryError (List Route) :=
  if validText route.eventType ≠ some true then .error (.invalidRoute "event type is invalid")
  else if !validSubject route.subject then .error (.invalidRoute "subject is invalid")
  else if route.key ∈ mapped.map Route.key then
    .error (.duplicateRoute route.eventType route.schemaVersion)
  else .ok (mapped ++ [route])

def tryNew (declared : List Route) : Except RegistryError (List Route) :=
  declared.foldlM addDeclared []

inductive ContractError where
  | undocumented (eventType : String) (schemaVersion : UInt16)
  | schemaName (name : String)
  | render
  deriving DecidableEq, Repr

abbrev Schemas := SortedMap String Json

def payloadDocument (payload : String) (definitions : Schemas) : Json :=
  object [("$schema", string "https://json-schema.org/draft/2020-12/schema"),
    ("$ref", .scalar (.string (defsPrefix ++ escapeToken payload.toList))),
    ("$defs", .object definitions.entries)]

def message (eventType : String) (schemaVersion : UInt16) (payload : String)
    (definitions : Schemas) : Json :=
  let identity := object [("type", string "string"), ("minLength", number 1), ("maxLength", number 256)]
  object [("name", string eventType),
    ("headers", object [("type", string "object"),
      ("required", .array [string messageIdName, string eventTypeName, string eventSchemaName,
        string createdAtName, string natsMsgIdName]),
      ("properties", object [(messageIdName, identity),
        (eventTypeName, object [("const", string eventType)]),
        (eventSchemaName, object [("const", string (MessagingText.schema schemaVersion))]),
        (createdAtName, object [("type", string "string"), ("format", string "date-time")]),
        (natsMsgIdName, identity)])]),
    ("payload", object [
      ("schemaFormat", string "application/schema+json;version=draft-2020-12"),
      ("schema", payloadDocument payload definitions)])]

/-- All schemas seen so far, and the relocated ones of this payload. -/
def addSchema (seen : Schemas × Schemas) (entry : String × Option Json) :
    Except ContractError (Schemas × Schemas) :=
  match entry.2 with
  | none => .error .render
  | some schema =>
    let earlier := seen.1.get? entry.1
    if earlier ≠ none ∧ earlier ≠ some schema then .error (.schemaName entry.1)
    else .ok (seen.1.insert entry.1 schema, seen.2.insert entry.1 (relocate schema))

structure Rendered where
  channels : SortedMap String Schemas
  schemas : Schemas

def Route.messageKey (route : Route) : String :=
  route.eventType ++ "." ++ MessagingText.schema route.schemaVersion

def addRoute (rendered : Rendered) (route : Route) : Except ContractError Rendered :=
  match route.schema with
  | none => .error (.undocumented route.eventType route.schemaVersion)
  | some type =>
    match (payloadSchema type).1.foldlM addSchema (rendered.schemas, .empty) with
    | .error error => .error error
    | .ok (schemas, definitions) =>
      let messages := (rendered.channels.get? route.subject).getD .empty
      .ok ⟨rendered.channels.insert route.subject (messages.insert route.messageKey
        (message route.eventType route.schemaVersion (payloadSchema type).2 definitions)), schemas⟩

def renderRoutes (routes : List Route) : Except ContractError Rendered :=
  routes.foldlM addRoute ⟨.empty, .empty⟩

def channel (subject : String) (messages : Schemas) : Json :=
  object [("address", string subject), ("messages", .object messages.entries)]

def document (title version : String) (channels : SortedMap String Schemas) : Json :=
  object [("asyncapi", string "3.0.0"),
    ("info", object [("title", string title), ("version", string version)]),
    ("defaultContentType", string "application/json"),
    ("channels", .object (channels.entries.map fun entry => (entry.1, channel entry.1 entry.2)))]

/-- The routes come in the iteration order of the registry's hash map. -/
def asyncapi (title version : String) (routed : List Route) : Except ContractError Json :=
  (renderRoutes routed).map fun rendered => document title version rendered.channels

/-- The `$ref` member of a schema: a path through applicator keywords. -/
def refPosition : List Step → Bool
  | [] => false
  | .index _ :: _ => false
  | .key keyword :: path =>
    if keyword = "$ref" then path = []
    else if keyword ∈ mapKeywords then
      match path with
      | .key _ :: path => refPosition path
      | _ => false
    else if keyword ∈ listKeywords then
      match path with
      | .index _ :: path => refPosition path
      | _ => false
    else if keyword ∈ childKeywords then refPosition path
    else false

def rewrite (path : List Step) (x : Scalar) : Scalar :=
  if refPosition path then relocateRef x else x

theorem rewrite_of_position {path : List Step} {x : Scalar} (h : refPosition path = false) :
    rewrite path x = x := by
  rw [rewrite, h]
  rfl

def Rewrites (v : Json) : Prop := relocate v = mapScalars rewrite v

theorem children_rewrites {children : List (String × Json)} {f : List Step → Scalar → Scalar}
    (hf : ∀ name p x, f (.key name :: p) x = rewrite p x)
    (h : ∀ child ∈ children, Rewrites child.2) :
    relocateChildren children = mapMembers f children := by
  induction children with
  | nil => simp [relocateChildren, mapMembers]
  | cons child children ih =>
    have hchild : Rewrites child.2 := h child List.mem_cons_self
    have hstep : (fun p => f (.key child.1 :: p)) = rewrite :=
      funext fun p => funext fun x => hf child.1 p x
    rw [relocateChildren, mapMembers, hchild, hstep,
      ih fun c hc => h c (List.mem_cons_of_mem _ hc)]

theorem items_rewrites {items : List Json} {f : List Step → Scalar → Scalar} {i : ℕ}
    (hf : ∀ j p x, f (.index j :: p) x = rewrite p x) (h : ∀ item ∈ items, Rewrites item) :
    relocateItems items = mapItems f i items := by
  induction items generalizing i with
  | nil => simp [relocateItems, mapItems]
  | cons item items ih =>
    have hitem : Rewrites item := h item List.mem_cons_self
    have hstep : (fun p => f (.index i :: p)) = rewrite :=
      funext fun p => funext fun x => hf i p x
    rw [relocateItems, mapItems, hitem, hstep, ih fun c hc => h c (List.mem_cons_of_mem _ hc)]

structure Whole (v : Json) : Prop where
  self : Rewrites v
  items : ∀ items, v = .array items → ∀ item ∈ items, Rewrites item
  members : ∀ members, v = .object members → ∀ member ∈ members, Rewrites member.2

def relocateUnder (keyword : String) (value : Json) : Json :=
  if keyword = "$ref" then
    match value with
    | .scalar x => .scalar (relocateRef x)
    | value => value
  else if keyword ∈ mapKeywords then
    match value with
    | .object children => .object (relocateChildren children)
    | value => value
  else if keyword ∈ listKeywords then
    match value with
    | .array children => .array (relocateItems children)
    | value => value
  else if keyword ∈ childKeywords then relocate value
  else value

theorem relocate_members_eq (members : List (String × Json)) :
    relocateMembers members = members.map fun m => (m.1, relocateUnder m.1 m.2) := by
  induction members with
  | nil => rfl
  | cons m members ih =>
    obtain ⟨keyword, value⟩ := m
    have hcons : relocateMembers ((keyword, value) :: members) =
        (keyword, relocateUnder keyword value) :: relocateMembers members := by
      cases value <;> rfl
    rw [hcons, ih]
    rfl

theorem ref_position_ref (path : List Step) :
    refPosition (.key "$ref" :: path) = decide (path = []) := by
  cases path with
  | nil => rfl
  | cons step path => cases step <;> rfl

def belowMap : List Step → Bool
  | .key _ :: path => refPosition path
  | _ => false

def belowList : List Step → Bool
  | .index _ :: path => refPosition path
  | _ => false

theorem ref_position_key {keyword : String} (href : keyword ≠ "$ref") (path : List Step) :
    refPosition (.key keyword :: path) =
      if keyword ∈ mapKeywords then belowMap path
      else if keyword ∈ listKeywords then belowList path
      else if keyword ∈ childKeywords then refPosition path
      else false := by
  cases path with
  | nil => simp [refPosition, href, belowMap, belowList]
  | cons step path => cases step <;> simp [refPosition, href, belowMap, belowList]

theorem under_ref {value : Json} :
    relocateUnder "$ref" value = mapScalars (fun p => rewrite (.key "$ref" :: p)) value := by
  have hbelow : ∀ step p x, rewrite (.key "$ref" :: step :: p) x = x := fun step p x =>
    rewrite_of_position (ref_position_ref _)
  cases value with
  | scalar x =>
    rw [mapScalars, rewrite, ref_position_ref]
    simp [relocateUnder]
  | array items =>
    rw [mapScalars, map_items_id fun j p x => hbelow (.index j) p x]
    rfl
  | object members =>
    rw [mapScalars, map_members_id fun name p x => hbelow (.key name) p x]
    rfl

theorem under_map {keyword : String} (hmap : keyword ∈ mapKeywords) {value : Json} (h : Whole value) :
    relocateUnder keyword value = mapScalars (fun p => rewrite (.key keyword :: p)) value := by
  have href : keyword ≠ "$ref" := by
    rintro rfl
    exact absurd hmap (by decide)
  have hstep : ∀ path, refPosition (.key keyword :: path) = belowMap path := by
    intro path
    rw [ref_position_key href, if_pos hmap]
  have hstay : ∀ path x, belowMap path = false → rewrite (.key keyword :: path) x = x :=
    fun path x hbelow => rewrite_of_position ((hstep path).trans hbelow)
  unfold relocateUnder
  rw [if_neg href, if_pos hmap]
  cases value with
  | scalar x => rw [mapScalars, hstay [] x rfl]
  | array items => rw [mapScalars, map_items_id fun j p x => hstay (.index j :: p) x rfl]
  | object members =>
    have hbelow : ∀ name p x, rewrite (.key keyword :: .key name :: p) x = rewrite p x := by
      intro name p x
      rw [rewrite, rewrite, hstep, belowMap]
    rw [mapScalars, ← children_rewrites hbelow (h.members members rfl)]

theorem under_list {keyword : String} (hlist : keyword ∈ listKeywords) {value : Json}
    (h : Whole value) :
    relocateUnder keyword value = mapScalars (fun p => rewrite (.key keyword :: p)) value := by
  have hothers : ∀ k ∈ listKeywords, k ≠ "$ref" ∧ k ∉ mapKeywords := by decide
  obtain ⟨href, hmap⟩ := hothers keyword hlist
  have hstep : ∀ path, refPosition (.key keyword :: path) = belowList path := by
    intro path
    rw [ref_position_key href, if_neg hmap, if_pos hlist]
  have hstay : ∀ path x, belowList path = false → rewrite (.key keyword :: path) x = x :=
    fun path x hbelow => rewrite_of_position ((hstep path).trans hbelow)
  unfold relocateUnder
  rw [if_neg href, if_neg hmap, if_pos hlist]
  cases value with
  | scalar x => rw [mapScalars, hstay [] x rfl]
  | array items =>
    have hbelow : ∀ j p x, rewrite (.key keyword :: .index j :: p) x = rewrite p x := by
      intro j p x
      rw [rewrite, rewrite, hstep, belowList]
    rw [mapScalars, ← items_rewrites hbelow (h.items items rfl)]
  | object members => rw [mapScalars, map_members_id fun name p x => hstay (.key name :: p) x rfl]

theorem under_child {keyword : String} (hchild : keyword ∈ childKeywords) {value : Json}
    (h : Whole value) :
    relocateUnder keyword value = mapScalars (fun p => rewrite (.key keyword :: p)) value := by
  have hothers : ∀ k ∈ childKeywords, k ≠ "$ref" ∧ k ∉ mapKeywords ∧ k ∉ listKeywords := by decide
  obtain ⟨href, hmap, hlist⟩ := hothers keyword hchild
  have hstep : (fun p => rewrite (.key keyword :: p)) = rewrite := by
    funext p x
    rw [rewrite, ref_position_key href, if_neg hmap, if_neg hlist, if_pos hchild, rewrite]
  unfold relocateUnder
  rw [if_neg href, if_neg hmap, if_neg hlist, if_pos hchild, hstep]
  exact h.self

/-- The value under any keyword is rewritten exactly at the positions of its references. -/
theorem under_rewrites (keyword : String) {value : Json} (h : Whole value) :
    relocateUnder keyword value = mapScalars (fun p => rewrite (.key keyword :: p)) value := by
  by_cases href : keyword = "$ref"
  · rw [href]
    exact under_ref
  · by_cases hmap : keyword ∈ mapKeywords
    · exact under_map hmap h
    · by_cases hlist : keyword ∈ listKeywords
      · exact under_list hlist h
      · by_cases hchild : keyword ∈ childKeywords
        · exact under_child hchild h
        · unfold relocateUnder
          rw [if_neg href, if_neg hmap, if_neg hlist, if_neg hchild]
          refine (map_scalars_id fun p x => rewrite_of_position ?_).symm
          rw [ref_position_key href, if_neg hmap, if_neg hlist, if_neg hchild]

theorem whole (v : Json) : Whole v := by
  induction v using Json.induct with
  | scalar x =>
    refine ⟨?_, by simp, by simp⟩
    rw [Rewrites, mapScalars, rewrite_of_position rfl]
    rfl
  | array items ih =>
    refine ⟨?_, ?_, by simp⟩
    · rw [Rewrites, mapScalars, map_items_id fun j p x => rewrite_of_position rfl]
      rfl
    · rintro _ ⟨⟩ item hitem
      exact (ih item hitem).self
  | object members ih =>
    refine ⟨?_, by simp, ?_⟩
    · rw [Rewrites, relocate, mapScalars, relocate_members_eq, map_members_eq]
      exact congrArg Json.object (List.map_congr_left fun m hm =>
        congrArg (Prod.mk m.1) (under_rewrites m.1 (ih m hm)))
    · rintro _ ⟨⟩ member hmember
      exact (ih member hmember).self

/-- Relocation rewrites the references of schemas, and nothing else. -/
theorem relocate_eq (v : Json) : relocate v = mapScalars rewrite v := (whole v).self

/-- A relocated reference is no longer one of the document's components. -/
theorem relocate_ref_idem (x : Scalar) : relocateRef (relocateRef x) = relocateRef x := by
  have hstring : ∀ reference, relocateRef (.string reference) =
      if componentsPrefix.isPrefixOf reference then
        .string (defsPrefix ++ reference.drop componentsPrefix.length)
      else .string reference := fun _ => rfl
  cases x with
  | string reference =>
    by_cases hlocal : componentsPrefix.isPrefixOf reference = true
    · have hmoved : componentsPrefix.isPrefixOf
          (defsPrefix ++ reference.drop componentsPrefix.length) = false := rfl
      rw [hstring, if_pos hlocal, hstring, hmoved]
      rfl
    · rw [hstring, if_neg hlocal, hstring, if_neg hlocal]
  | null => rfl
  | bool value => rfl
  | number token valid => rfl

theorem relocate_idem (v : Json) : relocate (relocate v) = relocate v := by
  have hsame : (fun p x => rewrite p (rewrite p x)) = rewrite := by
    funext p x
    unfold rewrite
    split
    · exact relocate_ref_idem x
    · rfl
  rw [relocate_eq, relocate_eq, map_scalars_comp, hsame]

/-- A reference of the schema to a component, by the name after the prefix. -/
def Refers (schema : Json) (name : List Char) : Prop :=
  ∃ path, refPosition path = true ∧
    at? schema path = some (.scalar (.string (componentsPrefix ++ name)))

theorem relocate_ref_component (name : List Char) :
    relocateRef (.string (componentsPrefix ++ name)) = .string (defsPrefix ++ name) := by
  have hlocal : componentsPrefix.isPrefixOf (componentsPrefix ++ name) = true := by
    rw [List.isPrefixOf_iff_prefix]
    exact List.prefix_append _ _
  simp only [relocateRef, hlocal, if_true, List.drop_left]

theorem at_relocated {schema : Json} {path : List Step} {name : List Char}
    (href : refPosition path = true)
    (h : at? schema path = some (.scalar (.string (componentsPrefix ++ name)))) :
    at? (relocate schema) path = some (.scalar (.string (defsPrefix ++ name))) := by
  rw [relocate_eq, at_map_scalars, h, Option.map_some, mapScalars, List.append_nil, rewrite,
    href, if_pos rfl, relocate_ref_component]

/-- The reference is a local pointer to the definition under this name. -/
def Resolves (root : Json) (reference : List Char) (name : String) (definition : Json) : Prop :=
  ∃ pointer, reference = '#' :: pointer ∧
    tokens pointer = some ["$defs".toList, name.toList] ∧ pointer? root pointer = some definition

theorem document_defs (payload : String) (definitions : Schemas) :
    tokenChild? (payloadDocument payload definitions) "$defs".toList =
      some (.object definitions.entries) := by
  show SortedMap.get? (SortedMap.ofList _) (String.ofList "$defs".toList) = _
  rw [String.ofList_toList]
  simp [SortedMap.ofList]

theorem resolves_iff {payload name : String} {definitions : Schemas} {text : List Char}
    {definition : Json} :
    Resolves (payloadDocument payload definitions) (defsPrefix ++ text) name definition ↔
      '/' ∉ text ∧ unescapeToken text = name.toList ∧ definitions.get? name = some definition := by
  have hsplit : defsPrefix ++ text = '#' :: '/' :: ("$defs".toList ++ '/' :: text) := rfl
  have hdefs : '/' ∉ "$defs".toList := by decide
  have hplain : unescapeToken "$defs".toList = "$defs".toList := by decide
  have htokens : tokens ('/' :: ("$defs".toList ++ '/' :: text)) =
      (tokens ('/' :: text)).map ("$defs".toList :: ·) := by
    rw [tokens_cons text hdefs, hplain]
  have hresolve : ∀ t, resolveTokens (payloadDocument payload definitions) ["$defs".toList, t] =
      definitions.get? (String.ofList t) := by
    intro t
    rw [resolveTokens, document_defs, Option.bind_some, resolveTokens]
    exact Option.bind_fun_some _
  have hone : tokens ('/' :: ("$defs".toList ++ '/' :: text)) =
      some ["$defs".toList, name.toList] ↔ '/' ∉ text ∧ unescapeToken text = name.toList := by
    rw [htokens, ← tokens_singleton]
    cases tokens ('/' :: text) with
    | none => simp
    | some found => simp
  constructor
  · rintro ⟨pointer, hpointer, hfound, hvalue⟩
    rw [hsplit, List.cons.injEq] at hpointer
    obtain ⟨-, rfl⟩ := hpointer
    obtain ⟨hslash, hname⟩ := hone.mp hfound
    rw [pointer?, hfound, Option.bind_some, hresolve, String.ofList_toList] at hvalue
    exact ⟨hslash, hname, hvalue⟩
  · rintro ⟨hslash, hname, hvalue⟩
    have hfound := hone.mpr ⟨hslash, hname⟩
    refine ⟨_, hsplit, hfound, ?_⟩
    rw [pointer?, hfound, Option.bind_some, hresolve, String.ofList_toList]
    exact hvalue

theorem root_resolves {payload : String} {definitions : Schemas} {definition : Json}
    (h : definitions.get? payload = some definition) :
    Resolves (payloadDocument payload definitions) (defsPrefix ++ escapeToken payload.toList)
      payload definition :=
  resolves_iff.mpr ⟨slash_escape _, unescape_escape _, h⟩

/-- A nested reference is moved as text, so it resolves when its name reads as one plain token. -/
theorem nested_resolves {payload name : String} {definitions : Schemas} {definition : Json} :
    Resolves (payloadDocument payload definitions) (defsPrefix ++ name.toList) name definition ↔
      PlainName name.toList ∧ definitions.get? name = some definition := by
  rw [resolves_iff, unescape_eq_self, PlainName, ← and_assoc]

def Route.rendered (route : Route) : List (String × Option Json) :=
  match route.schema with
  | none => []
  | some type => (payloadSchema type).1

/-- Every schema is rendered, and no name stands for two. -/
def Agree (entries : List (String × Option Json)) : Prop :=
  (∀ e ∈ entries, e.2 ≠ none) ∧ ∀ e ∈ entries, ∀ e' ∈ entries, e.1 = e'.1 → e = e'

theorem Agree.subset {entries entries' : List (String × Option Json)} (h : Agree entries)
    (hsub : ∀ e ∈ entries', e ∈ entries) : Agree entries' :=
  ⟨fun e he => h.1 e (hsub e he), fun e he e' he' => h.2 e (hsub e he) e' (hsub e' he')⟩

def Holds (schemas : Schemas) (entries : List (String × Option Json)) : Prop :=
  ∀ name schema, schemas.get? name = some schema ↔ (name, some schema) ∈ entries

theorem holds_unique {schemas schemas' : Schemas} {entries entries' : List (String × Option Json)}
    (h : Holds schemas entries) (h' : Holds schemas' entries')
    (hsame : ∀ e, e ∈ entries ↔ e ∈ entries') : schemas = schemas' := by
  apply SortedMap.ext_get
  intro name
  apply Option.ext
  intro schema
  rw [h, h', hsame]

theorem agree_snoc {seen : List (String × Option Json)} {e : String × Option Json} :
    Agree (seen ++ [e]) ↔
      Agree seen ∧ e.2 ≠ none ∧ ∀ e' ∈ seen, e'.1 = e.1 → e' = e := by
  have hlast : e ∈ seen ++ [e] := List.mem_append_right _ (List.mem_singleton.mpr rfl)
  constructor
  · intro h
    refine ⟨h.subset fun e' he' => List.mem_append_left _ he', h.1 e hlast, ?_⟩
    intro e' he' hname
    exact h.2 e' (List.mem_append_left _ he') e hlast hname
  · rintro ⟨hseen, hrendered, hsame⟩
    constructor
    · intro e' he'
      rcases List.mem_append.mp he' with he' | he'
      · exact hseen.1 e' he'
      · rwa [List.mem_singleton.mp he']
    · intro e₁ h₁ e₂ h₂ hname
      rcases List.mem_append.mp h₁ with h₁ | h₁
      · rcases List.mem_append.mp h₂ with h₂ | h₂
        · exact hseen.2 e₁ h₁ e₂ h₂ hname
        · rw [List.mem_singleton.mp h₂] at hname ⊢
          exact hsame e₁ h₁ hname
      · rw [List.mem_singleton.mp h₁] at hname ⊢
        rcases List.mem_append.mp h₂ with h₂ | h₂
        · exact (hsame e₂ h₂ hname.symm).symm
        · exact (List.mem_singleton.mp h₂).symm

theorem holds_insert {seen : List (String × Option Json)} {schemas : Schemas} {name : String}
    {schema : Json} (hholds : Holds schemas seen) (hagree : Agree (seen ++ [(name, some schema)])) :
    Holds (schemas.insert name schema) (seen ++ [(name, some schema)]) := by
  obtain ⟨-, -, hsame⟩ := agree_snoc.mp hagree
  intro other found
  rw [SortedMap.get_insert, List.mem_append, List.mem_singleton]
  by_cases hname : other = name
  · subst hname
    rw [if_pos rfl]
    constructor
    · rintro ⟨⟩
      exact .inr rfl
    · rintro (hin | heq)
      · cases hsame _ hin rfl
        rfl
      · cases heq
        rfl
  · rw [if_neg hname, hholds]
    constructor
    · exact .inl
    · rintro (hin | heq)
      · exact hin
      · cases heq
        exact absurd rfl hname

theorem add_schema_ok {seen : List (String × Option Json)} {schemas definitions : Schemas}
    (hholds : Holds schemas seen) (hagree : Agree seen) {e : String × Option Json}
    {added : Schemas × Schemas} :
    addSchema (schemas, definitions) e = .ok added ↔ Agree (seen ++ [e]) ∧
      ∃ schema, e.2 = some schema ∧
        added = (schemas.insert e.1 schema, definitions.insert e.1 (relocate schema)) := by
  obtain ⟨name, rendered⟩ := e
  rw [agree_snoc]
  cases rendered with
  | none => simp [addSchema]
  | some schema =>
    have hsame : (schemas.get? name ≠ none ∧ schemas.get? name ≠ some schema) ↔
        ¬ ∀ e' ∈ seen, e'.1 = name → e' = (name, some schema) := by
      constructor
      · rintro ⟨hsome, hdiffers⟩ hall
        obtain ⟨earlier, hearlier⟩ := Option.ne_none_iff_exists'.mp hsome
        cases hall _ ((hholds name earlier).mp hearlier) rfl
        exact hdiffers hearlier
      · intro hnot
        push Not at hnot
        obtain ⟨⟨name', rendered⟩, hin, rfl, hne⟩ := hnot
        obtain ⟨earlier, rfl⟩ := Option.ne_none_iff_exists'.mp (hagree.1 _ hin)
        rw [(hholds name' earlier).mpr hin]
        exact ⟨Option.some_ne_none _, fun heq => hne (congrArg (Prod.mk name') heq)⟩
    simp only [addSchema, hsame]
    split
    · rename_i hdiffers
      constructor
      · intro h
        cases h
      · rintro ⟨⟨-, -, hall⟩, -⟩
        exact absurd hall hdiffers
    · rename_i hagrees
      rw [Except.ok.injEq]
      constructor
      · rintro rfl
        exact ⟨⟨hagree, Option.some_ne_none _, not_not.mp hagrees⟩, schema, rfl, rfl⟩
      · rintro ⟨-, _, ⟨⟩, rfl⟩
        rfl

/-- The state after a payload's own schemas: those seen, and its own ones relocated. -/
def Tracks (state : Schemas × Schemas) (seen own : List (String × Option Json)) : Prop :=
  Holds state.1 seen ∧ ∃ schemas : Schemas, state.2 = schemas.mapValues relocate ∧ Holds schemas own

theorem map_values_insert (schemas : Schemas) (name : String) (schema : Json) :
    (schemas.insert name schema).mapValues relocate =
      (schemas.mapValues relocate).insert name (relocate schema) := by
  apply SortedMap.ext_get
  intro other
  rw [SortedMap.get_map_values, SortedMap.get_insert, SortedMap.get_insert,
    SortedMap.get_map_values]
  split
  · rfl
  · rfl

theorem Tracks.add {seen own : List (String × Option Json)} {state : Schemas × Schemas}
    (htracks : Tracks state (seen ++ own) own) (hagree : Agree (seen ++ own))
    (e : String × Option Json) :
    (Agree (seen ++ (own ++ [e])) → ∃ added, addSchema state e = .ok added) ∧
    ∀ added, addSchema state e = .ok added →
      Agree (seen ++ (own ++ [e])) ∧ Tracks added (seen ++ (own ++ [e])) (own ++ [e]) := by
  obtain ⟨all, definitions⟩ := state
  obtain ⟨hholds, schemas, hrelocated, hown⟩ := htracks
  rw [← List.append_assoc]
  constructor
  · intro hnext
    obtain ⟨schema, hschema⟩ := Option.ne_none_iff_exists'.mp (agree_snoc.mp hnext).2.1
    exact ⟨_, (add_schema_ok hholds hagree).mpr ⟨hnext, schema, hschema, rfl⟩⟩
  · intro added hadded
    obtain ⟨hnext, schema, hschema, rfl⟩ := (add_schema_ok hholds hagree).mp hadded
    obtain ⟨name, rendered⟩ := e
    cases hschema
    have hownAgree : Agree (own ++ [(name, some schema)]) := hnext.subset fun e' he' => by
      rw [List.append_assoc]
      exact List.mem_append_right _ he'
    refine ⟨hnext, holds_insert hholds hnext, schemas.insert name schema, ?_,
      holds_insert hown hownAgree⟩
    rw [map_values_insert, ← hrelocated]

theorem Tracks.run {seen own : List (String × Option Json)} {state : Schemas × Schemas}
    (htracks : Tracks state (seen ++ own) own) (hagree : Agree (seen ++ own))
    (entries : List (String × Option Json)) :
    (Agree (seen ++ (own ++ entries)) →
      ∃ added, entries.foldlM addSchema state = .ok added) ∧
    ∀ added, entries.foldlM addSchema state = .ok added →
      Agree (seen ++ (own ++ entries)) ∧
        Tracks added (seen ++ (own ++ entries)) (own ++ entries) := by
  induction entries generalizing own state with
  | nil =>
    rw [List.append_nil]
    refine ⟨fun _ => ⟨state, rfl⟩, ?_⟩
    rintro _ ⟨⟩
    exact ⟨hagree, htracks⟩
  | cons e entries ih =>
    obtain ⟨hcan, hadds⟩ := htracks.add hagree e
    have hsplit : own ++ e :: entries = own ++ [e] ++ entries := by simp
    rw [hsplit, List.foldlM_cons]
    constructor
    · intro hall
      have hnext : Agree (seen ++ (own ++ [e])) := hall.subset fun e' he' => by
        rw [← List.append_assoc]
        exact List.mem_append_left _ he'
      obtain ⟨added, hadded⟩ := hcan hnext
      rw [hadded]
      exact (ih (hadds added hadded).2 hnext).1 hall
    · intro last hlast
      cases hadded : addSchema state e with
      | error error =>
        rw [hadded] at hlast
        cases hlast
      | ok added =>
        rw [hadded] at hlast
        obtain ⟨hnext, htracks'⟩ := hadds added hadded
        exact (ih htracks' hnext).2 last hlast

def entriesOf (routes : List Route) : List (String × Option Json) := routes.flatMap Route.rendered

def IsMessage (route : Route) (rendered : Json) : Prop :=
  ∃ type schemas, route.schema = some type ∧ Holds schemas (payloadSchema type).1 ∧
    rendered = message route.eventType route.schemaVersion type.name (schemas.mapValues relocate)

/-- What is rendered stands for exactly these routes. -/
structure Covers (rendered : Rendered) (routes : List Route) : Prop where
  documented : ∀ route ∈ routes, ∃ found, IsMessage route found
  agree : Agree (entriesOf routes)
  schemas : Holds rendered.schemas (entriesOf routes)
  messages : ∀ subject key found,
    (rendered.channels.get? subject).bind (·.get? key) = some found ↔
      ∃ route ∈ routes, route.subject = subject ∧ route.messageKey = key ∧ IsMessage route found
  subjects : ∀ subject, rendered.channels.get? subject ≠ none ↔
    ∃ route ∈ routes, route.subject = subject

theorem message_unique {route : Route} {found found' : Json} (h : IsMessage route found)
    (h' : IsMessage route found') : found = found' := by
  obtain ⟨type, schemas, htype, hholds, rfl⟩ := h
  obtain ⟨type', schemas', htype', hholds', rfl⟩ := h'
  cases htype.symm.trans htype'
  rw [holds_unique hholds hholds' fun _ => Iff.rfl]

theorem digits_no_dot (n : ℕ) : '.' ∉ 'v' :: Nat.toDigits 10 n := by
  intro h
  rcases List.mem_cons.mp h with h | h
  · exact absurd h (by decide)
  · exact absurd (List.all_eq_true.mp (to_digits_all n) '.' h) (by decide)

theorem message_documented {route : Route} (h : ∃ found, IsMessage route found) :
    route.schema ≠ none := by
  obtain ⟨found, type, -, htype, -⟩ := h
  rw [htype]
  exact Option.some_ne_none _

/-- A version's digits hold no dot, so the key splits at its last one. -/
theorem message_key_inj {a b : Route} (h : a.messageKey = b.messageKey) : a.key = b.key := by
  have hkey : ∀ route : Route, route.messageKey.toList.reverse =
      ('v' :: Nat.toDigits 10 route.schemaVersion.toNat).reverse ++
        '.' :: route.eventType.toList.reverse := by
    intro route
    simp [Route.messageKey, MessagingText.schema, Nat.repr]
  have hsplit := congrArg (fun key => Splitting.splitOnce '.' key.toList.reverse) h
  simp only [hkey, Splitting.split_once_append (mt List.mem_reverse.mp (digits_no_dot _)),
    Option.some.injEq, Prod.mk.injEq, List.reverse_inj, String.toList_inj] at hsplit
  obtain ⟨hversion, htype⟩ := hsplit
  have hdigits : Nat.toDigits 10 a.schemaVersion.toNat ++ ['.'] =
      Nat.toDigits 10 b.schemaVersion.toNat ++ ['.'] := by
    rw [(List.cons.inj hversion).2]
  have hnat := (decimal_apart (by decide) hdigits).1
  rw [Route.key, Route.key, htype, UInt16.toNat_inj.mp hnat]

theorem entries_snoc (routes : List Route) (route : Route) :
    entriesOf (routes ++ [route]) = entriesOf routes ++ route.rendered := by
  simp [entriesOf]

theorem mem_snoc_routes {routes : List Route} {route : Route} {P : Route → Prop} :
    (∃ r ∈ routes ++ [route], P r) ↔ (∃ r ∈ routes, P r) ∨ P route := by
  simp only [List.mem_append, List.mem_singleton]
  constructor
  · rintro ⟨r, hr | rfl, h⟩
    · exact .inl ⟨r, hr, h⟩
    · exact .inr h
  · rintro (⟨r, hr, h⟩ | h)
    · exact ⟨r, .inl hr, h⟩
    · exact ⟨route, .inr rfl, h⟩

theorem channel_insert (channels : SortedMap String Schemas) (subject key : String) (added : Json)
    (subject' key' : String) :
    ((channels.insert subject (((channels.get? subject).getD .empty).insert key added)).get?
        subject').bind (·.get? key') =
      if subject' = subject ∧ key' = key then some added
      else (channels.get? subject').bind (·.get? key') := by
  rw [SortedMap.get_insert]
  by_cases hsubject : subject' = subject
  · subst hsubject
    rw [if_pos rfl, Option.bind_some, SortedMap.get_insert]
    by_cases hkey : key' = key
    · rw [if_pos hkey, if_pos ⟨rfl, hkey⟩]
    · rw [if_neg hkey, if_neg fun h => hkey h.2]
      cases channels.get? subject' with
      | none => rfl
      | some messages => rfl
  · rw [if_neg hsubject, if_neg fun h => hsubject h.1]

theorem add_route_ok {rendered : Rendered} {routes : List Route} (hcovers : Covers rendered routes)
    {route : Route} (hfresh : route.key ∉ routes.map Route.key) :
    ((route.schema ≠ none ∧ Agree (entriesOf (routes ++ [route]))) →
      ∃ added, addRoute rendered route = .ok added) ∧
    ∀ added, addRoute rendered route = .ok added → Covers added (routes ++ [route]) := by
  cases htype : route.schema with
  | none =>
    refine ⟨fun h => absurd rfl h.1, ?_⟩
    intro added h
    simp only [addRoute, htype] at h
    cases h
  | some type =>
    have hentries : entriesOf (routes ++ [route]) = entriesOf routes ++ (payloadSchema type).1 := by
      rw [entries_snoc, Route.rendered, htype]
    have hempty : Holds SortedMap.empty [] := fun name schema => by simp
    have htracks : Tracks (rendered.schemas, .empty) (entriesOf routes ++ []) [] := by
      rw [List.append_nil]
      exact ⟨hcovers.schemas, .empty, rfl, hempty⟩
    obtain ⟨hcan, hruns⟩ := htracks.run (by rw [List.append_nil]; exact hcovers.agree)
      (payloadSchema type).1
    rw [List.nil_append, ← hentries] at hcan hruns
    rw [addRoute, htype]
    constructor
    · rintro ⟨-, hagree⟩
      obtain ⟨state, hstate⟩ := hcan hagree
      simp only [hstate]
      exact ⟨_, rfl⟩
    · intro added hadded
      cases hstate : (payloadSchema type).1.foldlM addSchema (rendered.schemas, .empty) with
      | error error =>
        simp only [hstate] at hadded
        cases hadded
      | ok state =>
        simp only [hstate] at hadded
        cases hadded
        obtain ⟨hagree, hschemas, schemas, hrelocated, hown⟩ := hruns state hstate
        have hmessage : IsMessage route (message route.eventType route.schemaVersion
            (payloadSchema type).2 state.2) :=
          ⟨type, schemas, htype, hown, by rw [hrelocated]; rfl⟩
        refine ⟨?_, hagree, hschemas, ?_, ?_⟩
        · intro r hr
          rcases List.mem_append.mp hr with hr | hr
          · exact hcovers.documented r hr
          · rw [List.mem_singleton.mp hr]
            exact ⟨_, hmessage⟩
        · intro subject key found
          rw [channel_insert, mem_snoc_routes, ← hcovers.messages]
          by_cases hplace : subject = route.subject ∧ key = route.messageKey
          · obtain ⟨rfl, rfl⟩ := hplace
            rw [if_pos ⟨rfl, rfl⟩, Option.some.injEq]
            constructor
            · rintro rfl
              exact .inr ⟨rfl, rfl, hmessage⟩
            · rintro (hearlier | ⟨-, -, hfound⟩)
              · -- another route with this message would have this route's key
                obtain ⟨r, hr, -, hkey, -⟩ := (hcovers.messages _ _ _).mp hearlier
                exact absurd (List.mem_map.mpr ⟨r, hr, message_key_inj hkey⟩) hfresh
              · exact message_unique hmessage hfound
          · rw [if_neg hplace]
            constructor
            · exact .inl
            · rintro (hearlier | ⟨hsubject, hkey, -⟩)
              · exact hearlier
              · exact absurd ⟨hsubject.symm, hkey.symm⟩ hplace
        · intro subject
          rw [SortedMap.get_insert, mem_snoc_routes, ← hcovers.subjects]
          split
          · rename_i heq
            simp [heq]
          · rename_i hne
            simp [Ne.symm hne]

theorem covers_empty : Covers ⟨.empty, .empty⟩ [] where
  documented := by simp
  agree := ⟨by simp [entriesOf], by simp [entriesOf]⟩
  schemas := by simp [Holds, entriesOf]
  messages := by simp
  subjects := by simp

theorem add_routes_ok {rendered : Rendered} {before : List Route} (hcovers : Covers rendered before)
    (routes : List Route) (hdistinct : ((before ++ routes).map Route.key).Nodup) :
    ((∀ route ∈ routes, route.schema ≠ none) ∧ Agree (entriesOf (before ++ routes)) →
      ∃ added, routes.foldlM addRoute rendered = .ok added) ∧
    ∀ added, routes.foldlM addRoute rendered = .ok added → Covers added (before ++ routes) := by
  induction routes generalizing before rendered with
  | nil =>
    rw [List.append_nil]
    refine ⟨fun _ => ⟨rendered, rfl⟩, ?_⟩
    rintro _ ⟨⟩
    exact hcovers
  | cons route routes ih =>
    have hsplit : before ++ route :: routes = before ++ [route] ++ routes := by simp
    rw [hsplit] at hdistinct
    have hfresh : route.key ∉ before.map Route.key := by
      rw [List.map_append, List.map_append] at hdistinct
      intro hmem
      exact (List.nodup_append.mp (List.nodup_append.mp hdistinct).1).2.2 _ hmem _
        (List.mem_singleton.mpr rfl) rfl
    obtain ⟨hcan, hadds⟩ := add_route_ok hcovers hfresh
    rw [hsplit, List.foldlM_cons]
    constructor
    · rintro ⟨hdocumented, hagree⟩
      have hnext : Agree (entriesOf (before ++ [route])) := hagree.subset fun e he => by
        rw [entriesOf, List.flatMap_append]
        exact List.mem_append_left _ he
      obtain ⟨added, hadded⟩ := hcan ⟨hdocumented route List.mem_cons_self, hnext⟩
      rw [hadded]
      exact (ih (hadds added hadded) hdistinct).1
        ⟨fun r hr => hdocumented r (List.mem_cons_of_mem _ hr), hagree⟩
    · intro last hlast
      cases hadded : addRoute rendered route with
      | error error =>
        rw [hadded] at hlast
        cases hlast
      | ok added =>
        rw [hadded] at hlast
        exact (ih (hadds added hadded) hdistinct).2 last hlast

theorem render_ok {routes : List Route} (hdistinct : (routes.map Route.key).Nodup) :
    ((∀ route ∈ routes, route.schema ≠ none) ∧ Agree (entriesOf routes) →
      ∃ rendered, renderRoutes routes = .ok rendered) ∧
    ∀ rendered, renderRoutes routes = .ok rendered → Covers rendered routes :=
  add_routes_ok covers_empty routes hdistinct

/-- The channels are determined by the routes they stand for. -/
theorem channels_unique {a b : Rendered} {routes routes' : List Route} (ha : Covers a routes)
    (hb : Covers b routes') (hsame : ∀ route, route ∈ routes ↔ route ∈ routes') :
    a.channels = b.channels := by
  apply SortedMap.ext_get
  intro subject
  have hsubjects : a.channels.get? subject ≠ none ↔ b.channels.get? subject ≠ none := by
    rw [ha.subjects, hb.subjects]
    exact exists_congr fun route => and_congr_left' (hsame route)
  have hmessages : ∀ key, (a.channels.get? subject).bind (·.get? key) =
      (b.channels.get? subject).bind (·.get? key) := by
    intro key
    apply Option.ext
    intro found
    rw [ha.messages, hb.messages]
    exact exists_congr fun route => and_congr_left' (hsame route)
  cases hfirst : a.channels.get? subject with
  | none =>
    rw [hfirst] at hsubjects
    exact (not_not.mp (mt hsubjects.mpr (not_not_intro rfl))).symm
  | some messages =>
    rw [hfirst] at hsubjects hmessages
    obtain ⟨messages', hsecond⟩ :=
      Option.ne_none_iff_exists'.mp (hsubjects.mp (Option.some_ne_none _))
    rw [hsecond] at hmessages ⊢
    exact congrArg some (SortedMap.ext_get hmessages)

/-- A document of the routes in one order is their document in every order. -/
theorem asyncapi_perm {title version : String} {routes routes' : List Route}
    (hperm : routes.Perm routes') (hdistinct : (routes.map Route.key).Nodup) {d : Json}
    (h : asyncapi title version routes = .ok d) : asyncapi title version routes' = .ok d := by
  cases hrendered : renderRoutes routes with
  | error error =>
    rw [asyncapi, hrendered] at h
    cases h
  | ok rendered =>
    have hdistinct' : (routes'.map Route.key).Nodup := (hperm.map Route.key).nodup_iff.mp hdistinct
    have hcovers := (render_ok hdistinct).2 rendered hrendered
    have hagree : Agree (entriesOf routes') := hcovers.agree.subset fun e he =>
      (hperm.flatMap_right Route.rendered).mem_iff.mpr he
    obtain ⟨rendered', hrendered'⟩ := (render_ok hdistinct').1
      ⟨fun route hroute => message_documented (hcovers.documented route (hperm.mem_iff.mpr hroute)),
        hagree⟩
    have hcovers' := (render_ok hdistinct').2 rendered' hrendered'
    have hchannels := channels_unique hcovers hcovers' fun route => hperm.mem_iff
    rw [asyncapi, hrendered] at h
    rw [asyncapi, hrendered', ← h, Except.map, Except.map, hchannels]

structure Admissible (route : Route) : Prop where
  eventType : validText route.eventType = some true
  subject : validSubject route.subject = true

theorem add_declared_ok {mapped next : List Route} {route : Route} :
    addDeclared mapped route = .ok next ↔
      Admissible route ∧ route.key ∉ mapped.map Route.key ∧ next = mapped ++ [route] := by
  unfold addDeclared
  by_cases htext : validText route.eventType = some true
  · by_cases hsubject : validSubject route.subject = true
    · by_cases hkey : route.key ∈ mapped.map Route.key
      · simp [htext, hsubject, hkey]
      · rw [if_neg (not_not_intro htext), if_neg (by simp [hsubject]), if_neg hkey,
          Except.ok.injEq]
        exact ⟨fun h => ⟨⟨htext, hsubject⟩, hkey, h.symm⟩, fun h => h.2.2.symm⟩
    · rw [if_neg (not_not_intro htext), if_pos (by simp [hsubject])]
      exact ⟨nofun, fun h => absurd h.1.subject hsubject⟩
  · rw [if_pos htext]
    exact ⟨nofun, fun h => absurd h.1.eventType htext⟩

theorem add_all_declared_ok {mapped declared routes : List Route}
    (hmapped : (mapped.map Route.key).Nodup) :
    declared.foldlM addDeclared mapped = .ok routes ↔
      (∀ route ∈ declared, Admissible route) ∧ ((mapped ++ declared).map Route.key).Nodup ∧
        routes = mapped ++ declared := by
  induction declared generalizing mapped with
  | nil =>
    rw [List.append_nil, List.foldlM_nil]
    constructor
    · rintro ⟨⟩
      exact ⟨by simp, hmapped, rfl⟩
    · rintro ⟨-, -, rfl⟩
      rfl
  | cons route declared ih =>
    have hsplit : mapped ++ route :: declared = mapped ++ [route] ++ declared := by simp
    rw [hsplit, List.foldlM_cons, List.forall_mem_cons]
    constructor
    · intro h
      cases hnext : addDeclared mapped route with
      | error error =>
        rw [hnext] at h
        cases h
      | ok next =>
        obtain ⟨hroute, hkey, rfl⟩ := add_declared_ok.mp hnext
        rw [hnext] at h
        have hnodup : ((mapped ++ [route]).map Route.key).Nodup := by
          rw [List.map_append, List.map_singleton]
          exact List.nodup_append.mpr ⟨hmapped, by simp, fun k hk l hl => by
            rw [List.mem_singleton.mp hl]
            rintro rfl
            exact hkey hk⟩
        obtain ⟨hrest, hdistinct, heq⟩ := (ih hnodup).mp h
        exact ⟨⟨hroute, hrest⟩, hdistinct, heq⟩
    · rintro ⟨⟨hroute, hrest⟩, hdistinct, heq⟩
      have hnodup : ((mapped ++ [route]).map Route.key).Nodup := by
        rw [List.map_append] at hdistinct
        exact (List.nodup_append.mp hdistinct).1
      have hkey : route.key ∉ mapped.map Route.key := by
        rw [List.map_append] at hnodup
        exact fun hmem => (List.nodup_append.mp hnodup).2.2 _ hmem _ (List.mem_singleton.mpr rfl) rfl
      rw [add_declared_ok.mpr ⟨hroute, hkey, rfl⟩]
      exact (ih hnodup).mpr ⟨hrest, hdistinct, heq⟩

theorem try_new_ok {declared routes : List Route} :
    tryNew declared = .ok routes ↔ (∀ route ∈ declared, Admissible route) ∧
      (declared.map Route.key).Nodup ∧ routes = declared := by
  rw [tryNew, add_all_declared_ok (by simp), List.nil_append]

theorem object_get (members : List (String × Json)) (name : String) :
    child? (object members) (.key name) = (SortedMap.ofList members).get? name := rfl

theorem message_at (eventType : String) (schemaVersion : UInt16) (payload : String)
    (definitions : Schemas) :
    at? (message eventType schemaVersion payload definitions) [.key "payload", .key "schema"] =
      some (payloadDocument payload definitions) := by
  simp [message, at?, object_get, SortedMap.ofList]

theorem document_at (title version : String) (channels : SortedMap String Schemas)
    (subject key : String) :
    at? (document title version channels)
        [.key "channels", .key subject, .key "messages", .key key] =
      (channels.get? subject).bind (·.get? key) := by
  have hchannels : child? (document title version channels) (.key "channels") =
      some (.object (channels.entries.map fun entry => (entry.1, channel entry.1 entry.2))) := by
    rw [document, object_get]
    simp [SortedMap.ofList]
  have hsubject : child? (.object (channels.entries.map fun entry =>
      (entry.1, channel entry.1 entry.2))) (.key subject) =
      (channels.get? subject).map (channel subject) := SortedMap.lookup_map channel channels.entries
  rw [at?, hchannels, Option.bind_some, at?, hsubject]
  cases channels.get? subject with
  | none => rfl
  | some messages =>
    have hmessages : child? (channel subject messages) (.key "messages") =
        some (.object messages.entries) := by
      rw [channel, object_get]
      simp [SortedMap.ofList]
    rw [Option.map_some, Option.bind_some, at?, hmessages, Option.bind_some, Option.bind_some, at?]
    exact Option.bind_fun_some _

theorem payload_at {title version : String} {rendered : Rendered} {routes : List Route}
    (hcovers : Covers rendered routes) {route : Route} (hroute : route ∈ routes) :
    ∃ type schemas, route.schema = some type ∧ Holds schemas (payloadSchema type).1 ∧
      at? (document title version rendered.channels) [.key "channels", .key route.subject,
        .key "messages", .key route.messageKey, .key "payload", .key "schema"] =
        some (payloadDocument type.name (schemas.mapValues relocate)) := by
  obtain ⟨found, hmessage⟩ := hcovers.documented route hroute
  have hfound := (hcovers.messages route.subject route.messageKey found).mpr
    ⟨route, hroute, rfl, rfl, hmessage⟩
  obtain ⟨type, schemas, htype, hholds, rfl⟩ := hmessage
  have hpath : [Step.key "channels", .key route.subject, .key "messages", .key route.messageKey,
      .key "payload", .key "schema"] =
      [Step.key "channels", .key route.subject, .key "messages", .key route.messageKey] ++
        [.key "payload", .key "schema"] := rfl
  refine ⟨type, schemas, htype, hholds, ?_⟩
  rw [hpath, at_append, document_at, hfound, Option.bind_some, message_at]

theorem definition_at {payload holder : String} {schemas : Schemas} {schema found : Json}
    {path : List Step} (hholder : schemas.get? holder = some schema)
    (h : at? (relocate schema) path = some found) :
    at? (payloadDocument payload (schemas.mapValues relocate))
      (.key "$defs" :: .key holder :: path) = some found := by
  have hdefs : child? (payloadDocument payload (schemas.mapValues relocate)) (.key "$defs") =
      some (.object (schemas.mapValues relocate).entries) := by
    rw [payloadDocument, object_get]
    simp [SortedMap.ofList]
  have hdefinition : child? (.object (schemas.mapValues relocate).entries) (.key holder) =
      some (relocate schema) := by
    have hget := SortedMap.get_map_values relocate schemas (k := holder)
    rwa [hholder, Option.map_some] at hget
  rw [at?, hdefs, Option.bind_some, at?, hdefinition, Option.bind_some, h]

def NestedResolve (payload : String) (schemas : Schemas) : Prop :=
  ∀ holder schema name, schemas.get? holder = some schema → Refers schema (String.toList name) →
    ∃ definition, schemas.get? name = some definition ∧
      Resolves (payloadDocument payload (schemas.mapValues relocate)) (defsPrefix ++ name.toList)
        name (relocate definition)

/-- Every name referred to is defined and reads as one plain token. -/
def PlainReferences (schemas : Schemas) : Prop :=
  ∀ holder schema name, schemas.get? holder = some schema → Refers schema (String.toList name) →
    PlainName name.toList ∧ schemas.get? name ≠ none

theorem nested_resolve_iff (payload : String) (schemas : Schemas) :
    NestedResolve payload schemas ↔ PlainReferences schemas := by
  constructor
  · intro h holder schema name hholder hrefers
    obtain ⟨definition, hdefinition, hresolves⟩ := h holder schema name hholder hrefers
    exact ⟨(nested_resolves.mp hresolves).1, by simp [hdefinition]⟩
  · intro h holder schema name hholder hrefers
    obtain ⟨hplain, hsome⟩ := h holder schema name hholder hrefers
    obtain ⟨definition, hdefinition⟩ := Option.ne_none_iff_exists'.mp hsome
    exact ⟨definition, hdefinition, nested_resolves.mpr
      ⟨hplain, by rw [SortedMap.get_map_values, hdefinition, Option.map_some]⟩⟩

/-- Relocation rewrites exactly the component references of schemas and is idempotent. A document
is the same for every order of declaration and iteration; each route's payload stands in it with
its own schemas relocated; the payload's own reference always resolves; and the references nested
in its schemas resolve exactly when every name they use is defined and plain. -/
theorem contract_references (schema : Json) :
    relocate schema = mapScalars rewrite schema ∧
    relocate (relocate schema) = relocate schema ∧
    ∀ title version declared routes routed d, tryNew declared = .ok routes → routed.Perm routes →
      asyncapi title version routed = .ok d →
      (∀ declared' routes' routed', declared'.Perm declared → tryNew declared' = .ok routes' →
        routed'.Perm routes' → asyncapi title version routed' = .ok d) ∧
      ∀ route ∈ routed, ∃ type schemas, route.schema = some type ∧
        Holds schemas (payloadSchema type).1 ∧
        at? d [.key "channels", .key route.subject, .key "messages", .key route.messageKey,
          .key "payload", .key "schema"] =
          some (payloadDocument type.name (schemas.mapValues relocate)) ∧
        (∃ definition, type.schema = some definition ∧
          Resolves (payloadDocument type.name (schemas.mapValues relocate))
            (defsPrefix ++ escapeToken type.name.toList) type.name (relocate definition)) ∧
        (∀ holder schema path name, schemas.get? holder = some schema →
          refPosition path = true →
          at? schema path = some (.scalar (.string (componentsPrefix ++ name))) →
          at? (payloadDocument type.name (schemas.mapValues relocate))
            (.key "$defs" :: .key holder :: path) =
              some (.scalar (.string (defsPrefix ++ name)))) ∧
        (NestedResolve type.name schemas ↔ PlainReferences schemas) := by
  refine ⟨relocate_eq schema, relocate_idem schema, ?_⟩
  intro title version declared routes routed d hdeclared hrouted hd
  obtain ⟨hadmissible, hdistinct, rfl⟩ := try_new_ok.mp hdeclared
  have hdistinct' : (routed.map Route.key).Nodup :=
    (hrouted.map Route.key).nodup_iff.mpr hdistinct
  constructor
  · intro declared' routes' routed' hperm hdeclared' hrouted'
    obtain ⟨-, -, rfl⟩ := try_new_ok.mp hdeclared'
    exact asyncapi_perm (hrouted.trans (hperm.symm.trans hrouted'.symm)) hdistinct' hd
  · intro route hroute
    cases hrendered : renderRoutes routed with
    | error error =>
      rw [asyncapi, hrendered] at hd
      cases hd
    | ok rendered =>
      rw [asyncapi, hrendered] at hd
      cases hd
      have hcovers := (render_ok hdistinct').2 rendered hrendered
      obtain ⟨type, schemas, htype, hholds, hat⟩ := payload_at hcovers hroute
      refine ⟨type, schemas, htype, hholds, hat, ?_, ?_, nested_resolve_iff type.name schemas⟩
      · have hmem : (type.name, type.schema) ∈ (payloadSchema type).1 :=
          List.mem_append_right _ (List.mem_singleton.mpr rfl)
        have hentry : (type.name, type.schema) ∈ entriesOf routed :=
          List.mem_flatMap.mpr ⟨route, hroute, by rwa [Route.rendered, htype]⟩
        have hrendered' : type.schema ≠ none := hcovers.agree.1 _ hentry
        obtain ⟨definition, hdefinition⟩ := Option.ne_none_iff_exists'.mp hrendered'
        rw [hdefinition] at hmem
        refine ⟨definition, hdefinition, root_resolves ?_⟩
        rw [SortedMap.get_map_values, (hholds _ _).mpr hmem, Option.map_some]
      · intro holder schema path name hholder href hschema
        exact definition_at hholder (at_relocated href hschema)

/-- An order whose line schema is named with a slash. -/
def slashedType : PayloadType where
  name := "Order"
  dependencies := [("a/b", some (object [("type", string "string")]))]
  schema := some (object [("properties", object [("line",
    object [("$ref", string "#/components/schemas/a/b")])])])

def slashedRoute : Route := ⟨"order.created", 1, "orders", some slashedType⟩

def slashedSchemas : Schemas :=
  SortedMap.ofList [("a/b", object [("type", string "string")]),
    ("Order", object [("properties", object [("line",
      object [("$ref", string "#/components/schemas/a/b")])])])]

/-- The nested reference to the slashed name resolves nowhere, although the name is defined. -/
theorem slashed_name_dangles :
    ∃ d, tryNew [slashedRoute] = .ok [slashedRoute] ∧
      asyncapi "orders" "1" [slashedRoute] = .ok d ∧
      at? d [.key "channels", .key "orders", .key "messages", .key "order.created.v1",
        .key "payload", .key "schema"] =
          some (payloadDocument "Order" (slashedSchemas.mapValues relocate)) ∧
      slashedSchemas.get? "a/b" = some (object [("type", string "string")]) ∧
      at? (payloadDocument "Order" (slashedSchemas.mapValues relocate))
        [.key "$defs", .key "Order", .key "properties", .key "line", .key "$ref"] =
          some (string "#/$defs/a/b") ∧
      pointer? (payloadDocument "Order" (slashedSchemas.mapValues relocate)) "/$defs/a/b".toList =
        none := by
  have htext : validText "order.created" = some true := by decide
  have hsubject : validSubject "orders" = true := by decide
  have hroute : ∀ route ∈ [slashedRoute], Admissible route := by
    intro route hmem
    rw [List.mem_singleton.mp hmem]
    exact ⟨htext, hsubject⟩
  refine ⟨_, try_new_ok.mpr ⟨hroute, by simp, rfl⟩, rfl, ?_, ?_, ?_, ?_⟩
  · decide
  · decide
  · decide
  · decide

end MessagingContract
