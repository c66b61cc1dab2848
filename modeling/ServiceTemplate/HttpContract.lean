import ServiceTemplate.BearerClaims
import ServiceTemplate.BinarySearch
import ServiceTemplate.OperationStop

/-! The security policy compiled from an OpenAPI document, and the layer that enforces it around
every endpoint of a finalized router. The verifier stands outside: what it accepts was built from a
scope claim, normalized. -/
namespace HttpContract

open ByteFraming
open Utf8Text
open OperationStop
open ExceptChain
open BearerClaims
open BinarySearch

inductive FinalizeError where
  | nonPublicOperation
  | invalidPolicy
  deriving DecidableEq, Repr

abbrev SecurityRequirement := List (String × List String)

structure Operation where
  security : Option (List SecurityRequirement)
  deriving DecidableEq

structure PathItem where
  get : Option Operation
  put : Option Operation
  post : Option Operation
  delete : Option Operation
  options : Option Operation
  head : Option Operation
  patch : Option Operation
  trace : Option Operation
  deriving DecidableEq

inductive SecurityScheme where
  | http (scheme : String)
  | apiKey
  | oauth2
  | openIdConnect
  | mutualTls
  deriving DecidableEq

/-- `paths` is an ordered map. -/
structure OpenApi where
  paths : List (String × PathItem)
  ordered : (paths.map Prod.fst).Pairwise (· < ·)
  security : Option (List SecurityRequirement)
  bearerAuth : Option SecurityScheme

inductive Access where
  | anyone
  | guarded (alternatives : List (List String))
  deriving DecidableEq

abbrev Methods := String → Option Access

abbrev Policy := String → Option Methods

/-- A loop that compiles the entries and inserts them in their order. -/
def collect {κ β γ : Type} [DecidableEq κ] (compile : β → Except FinalizeError γ)
    (entries : List (κ × β)) : Except FinalizeError (κ → Option γ) :=
  entries.foldlM (fun table entry => do
    let compiled ← compile entry.2
    return Function.update table entry.1 (some compiled)) fun _ => none

def alternative (requirement : SecurityRequirement) : Except FinalizeError (List String) :=
  if requirement.length ≠ 1 then .error .invalidPolicy
  else okOr (requirement.lookup "bearerAuth") .invalidPolicy

def access (document : OpenApi) (operation : Operation) : Except FinalizeError Access :=
  match (operation.security.or document.security).filter (· ≠ []) with
  | none => .ok .anyone
  | some requirements => do
    ensure (document.bearerAuth = some (.http "bearer")) .invalidPolicy
    let alternatives ← requirements.mapM alternative
    return .guarded alternatives

def PathItem.operations (item : PathItem) : List (String × Option Operation) :=
  [("GET", item.get), ("PUT", item.put), ("POST", item.post), ("DELETE", item.delete),
    ("OPTIONS", item.options), ("HEAD", item.head), ("PATCH", item.patch), ("TRACE", item.trace)]

def PathItem.declared (item : PathItem) : List (String × Operation) :=
  item.operations.filterMap fun entry => entry.2.map fun operation => (entry.1, operation)

def contractKey (path : String) : String := if path = "" then "/" else path

def compile (document : OpenApi) : Except FinalizeError Policy :=
  collect (fun item : PathItem => collect (access document) item.declared)
    (document.paths.map fun entry => (contractKey entry.1, entry.2))

def Policy.access (policy : Policy) (path method : String) : Option Access :=
  (policy path).bind fun methods =>
    (methods method).or (if method = "HEAD" then methods "GET" else none)

structure MatchedPath where
  text : List Char
  rooted : text.head? = some '/'
  deriving DecidableEq

structure Extensions where
  matchedPath : Option MatchedPath
  nestedPath : Option (List Char)
  principal : Option Principal
  verifiedPrincipal : Option Principal
  requestContext : Option OperationContext
  deriving DecidableEq

structure Request where
  method : String
  headers : List (String × Bytes)
  extensions : Extensions
  deriving DecidableEq

def stripNest (nested text : List Char) : Option (List Char) :=
  if nested.isPrefixOf text then some (text.drop nested.length) else none

def contractPath (extensions : Extensions) : Option String :=
  extensions.matchedPath.map fun matched =>
    match extensions.nestedPath.bind fun nested => stripNest nested matched.text with
    | none => String.ofList matched.text
    | some [] => "/"
    | some inner => String.ofList inner

inductive Code where
  | authenticationRequired
  | authenticationMalformed
  | authenticationInvalid
  | authenticationUnavailable
  | forbidden
  | gatewayTimeout
  | internalServerError
  deriving DecidableEq, Repr

structure Response where
  code : Code
  detail : String
  challenge : Option String
  deriving DecidableEq

def wiringFailure : Response :=
  ⟨.internalServerError, "request failed", none⟩

def insufficientScopeResponse : Response :=
  ⟨.forbidden, "the verified principal lacks the required scope",
    some "Bearer error=\"insufficient_scope\""⟩

def failureResponse : Failure → Response
  | .missing => ⟨.authenticationRequired, "bearer authentication is required", some "Bearer"⟩
  | .malformed => ⟨.authenticationMalformed, "bearer authentication is malformed",
      some "Bearer error=\"invalid_request\""⟩
  | .invalid => ⟨.authenticationInvalid, "bearer authentication is invalid",
      some "Bearer error=\"invalid_token\""⟩
  | .unavailable => ⟨.authenticationUnavailable, "bearer authentication is unavailable", none⟩

def timeout : Response :=
  ⟨.gatewayTimeout, "request budget expired before a response could be committed", none⟩

def stoppedResponse : Stopped → Response
  | .deadline => timeout
  | .cancelled => failureResponse .unavailable

/-- A verified principal with the scope claim its scopes were taken from. -/
structure Accepted where
  principal : Principal
  claim : Option Values
  refusal : Failure
  normalized : normalizeScopes claim refusal = .ok principal.scopes

/-- What introspection verifies and delivers comes from a scope claim, normalized. -/
theorem introspection_accepted {decoder : Decoder} {bytes : Bytes} {policy : ClaimPolicy}
    {now later : ℕ} {accessToken : String} {value : VerifiedIntrospection} {principal : Principal}
    (h : validateIntrospectionClaims decoder bytes policy now accessToken = .ok value)
    (hdeliver : value.deliver later = .ok principal) :
    ∃ accepted : Accepted, accepted.principal = principal ∧ ∃ text claims,
      fromUtf8 bytes = some text ∧ decoder.claims (trimMatches text) = some claims ∧
      accepted.claim = claims.scope.or claims.scp := by
  obtain ⟨text, htext, -, ⟨claims, hclaims, hscopes⟩, -⟩ := validate_introspection_ok h
  obtain ⟨rfl, -⟩ := deliver_ok.mp hdeliver
  exact ⟨⟨value.principal, claims.scope.or claims.scp, .unavailable, hscopes⟩, rfl, text, claims,
    htext, hclaims, rfl⟩

abbrev Verifier := List Bytes → OperationContext → Except Failure Accepted

/-- What happens to the context while the layer verifies, decides and rewrites the request. -/
structure Stops where
  verifying : OperationContext
  granting : OperationContext
  inserting : OperationContext

inductive Served where
  | ran (request : Request)
  | answered (response : Response)
  deriving DecidableEq

def authorization (request : Request) : List Bytes :=
  (request.headers.filter fun header => header.1 = "authorization").map Prod.snd

def grantsAny (alternatives : List (List String)) (principal : Principal) : Bool :=
  alternatives.any fun scopes =>
    scopes.all fun scope => (binarySearch principal.scopes scope).isOk

def Request.identify (request : Request) (principal : Principal) : Request :=
  { request with
    headers := request.headers.filter fun header => header.1 ≠ "authorization"
    extensions := { request.extensions with principal := some principal } }

def unlessStopped (context : OperationContext) (next : Served) : Served :=
  match context.stopped with
  | some stopped => .answered (stoppedResponse stopped)
  | none => next

def authenticateProtected (verifier : Verifier) (alternatives : List (List String))
    (request : Request) (stops : Stops) : Served :=
  match request.extensions.requestContext with
  | none => .answered wiringFailure
  | some context =>
    let result := verifier (authorization request) context
    let verified := context.join stops.verifying
    let decided := verified.join stops.granting
    unlessStopped verified <|
      match result with
      | .error failure => .answered (failureResponse failure)
      | .ok accepted =>
        let granted := grantsAny alternatives accepted.principal
        unlessStopped decided <|
          if !granted then .answered insufficientScopeResponse
          else unlessStopped (decided.join stops.inserting) (.ran (request.identify accepted.principal))

def Request.anonymous (request : Request) : Request :=
  { request with
    extensions := { request.extensions with principal := none, verifiedPrincipal := none } }

def authenticate (verifier : Verifier) (policy : Policy) (request : Request) (stops : Stops) :
    Served :=
  let request := request.anonymous
  match contractPath request.extensions with
  | none => .answered wiringFailure
  | some path =>
    match policy.access path request.method with
    | some .anyone => .ran request
    | none => .answered wiringFailure
    | some (.guarded alternatives) => authenticateProtected verifier alternatives request stops

/-- The layer around every endpoint of the router. -/
def finalize (document : OpenApi) (verifier : Verifier) :
    Except FinalizeError (Request → Stops → Served) := do
  let policy ← compile document
  return authenticate verifier policy

def PathItem.operation (item : PathItem) (method : String) : Option Operation :=
  item.declared.lookup method

/-- The item of a contract path. The empty path of the document stands for the root, unless the
root has an item of its own. -/
def OpenApi.item (document : OpenApi) (path : String) : Option PathItem :=
  if path = "" then none
  else if path = "/" then (document.paths.lookup "/").or (document.paths.lookup "")
  else document.paths.lookup path

/-- `HEAD` falls back to `GET` where it is not declared itself. -/
def OpenApi.declares (document : OpenApi) (path method : String) : Option Operation :=
  (document.item path).bind fun item =>
    (item.operation method).or (if method = "HEAD" then item.operation "GET" else none)

def OpenApi.effective (document : OpenApi) (operation : Operation) : List SecurityRequirement :=
  (operation.security.or document.security).getD []

def Grants (requirements : List SecurityRequirement) (claim : Option Values) : Prop :=
  ∃ scopes, [("bearerAuth", scopes)] ∈ requirements ∧ ∀ scope ∈ scopes, scope ∈ scopeValues claim

section Collect

variable {κ β γ : Type} [DecidableEq κ] {f : β → Except FinalizeError γ}

theorem collect_ok {entries : List (κ × β)} {table : κ → Option γ} (k : κ)
    (h : collect f entries = .ok table) :
    (entries.reverse.lookup k = none ∧ table k = none) ∨
      ∃ v c, entries.reverse.lookup k = some v ∧ f v = .ok c ∧ table k = some c := by
  induction entries using List.reverseRecOn generalizing table with
  | nil =>
    cases h
    exact .inl ⟨rfl, rfl⟩
  | append_singleton entries entry ih =>
    rw [collect, List.foldlM_append] at h
    rcases bind_ok.mp h with ⟨before, hbefore, hlast⟩
    rcases bind_ok.mp hlast with ⟨after, hafter, hsame⟩
    rcases bind_ok.mp hafter with ⟨compiled, hcompiled, hinsert⟩
    cases hsame
    cases hinsert
    rw [List.reverse_append, List.reverse_singleton, List.singleton_append, List.lookup_cons]
    by_cases hk : k = entry.1
    · right
      refine ⟨entry.2, compiled, ?_, hcompiled, ?_⟩
      · simp [hk]
      · simp [hk]
    · have hne : (k == entry.1) = false := by simpa using hk
      rw [hne]
      simpa [hk] using ih hbefore

end Collect

theorem lookup_of_absent {β : Type} {entries : List (String × β)} {k : String}
    (h : k ∉ entries.map Prod.fst) : entries.lookup k = none := by
  rw [List.lookup_eq_none_iff]
  intro entry hmem
  rw [bne_iff_ne]
  rintro rfl
  exact h (List.mem_map_of_mem hmem)

theorem empty_le (text : String) : "" ≤ text := by
  rw [String.le_iff_toList_le]
  exact not_lt.mp (List.not_lt_nil _)

/-- The ordered map puts the empty path first, so the root replaces it. -/
theorem lookup_contract_key {paths : List (String × PathItem)}
    (h : (paths.map Prod.fst).Pairwise (· < ·)) {path : String} (hpath : path ≠ "") :
    (paths.map fun entry => (contractKey entry.1, entry.2)).reverse.lookup path =
      if path = "/" then (paths.lookup "/").or (paths.lookup "") else paths.lookup path := by
  induction paths with
  | nil => simp
  | cons entry paths ih =>
    rcases entry with ⟨name, item⟩
    rw [List.map_cons, List.pairwise_cons] at h
    have hlater : ∀ k, k ≤ name → paths.lookup k = none := by
      intro k hk
      apply lookup_of_absent
      intro hmem
      exact absurd (h.1 k hmem) (not_lt.mpr hk)
    have hempty : paths.lookup "" = none := hlater "" (empty_le name)
    rw [List.map_cons, List.reverse_cons, List.lookup_append, ih h.2]
    simp only [List.lookup_cons, List.lookup_nil, hempty]
    by_cases hroot : path = "/"
    · subst hroot
      simp only [if_true, Option.or_none]
      by_cases hname : name = "/"
      · have hnone : paths.lookup "/" = none := hlater "/" (le_of_eq hname.symm)
        simp [hname, hnone, contractKey]
      by_cases hblank : name = ""
      · simp [hblank, contractKey]
      · have hkey : contractKey name = name := if_neg hblank
        have hne : ("/" == name) = false := beq_eq_false_iff_ne.mpr (Ne.symm hname)
        have hneblank : ("" == name) = false := beq_eq_false_iff_ne.mpr (Ne.symm hblank)
        simp [hkey, hne, hneblank]
    · simp only [if_neg hroot]
      by_cases hname : path = name
      · have hkey : contractKey name = name := if_neg (hname ▸ hpath)
        have hnone : paths.lookup path = none := hlater path (le_of_eq hname)
        rw [hnone, hkey]
        simp [hname]
      · have hne : (path == name) = false := beq_eq_false_iff_ne.mpr hname
        have hkey : (path == contractKey name) = false := by
          rw [contractKey]
          split
          · exact beq_eq_false_iff_ne.mpr hroot
          · exact hne
        simp [hne, hkey]

theorem lookup_reverse {β : Type} {entries : List (String × β)}
    (h : (entries.map Prod.fst).Nodup) (k : String) :
    entries.reverse.lookup k = entries.lookup k := by
  induction entries with
  | nil => rfl
  | cons entry entries ih =>
    rcases entry with ⟨name, value⟩
    rw [List.map_cons, List.nodup_cons] at h
    rw [List.reverse_cons, List.lookup_append, ih h.2]
    simp only [List.lookup_cons, List.lookup_nil]
    by_cases hk : k = name
    · subst hk
      rw [lookup_of_absent h.1]
      rfl
    · have hne : (k == name) = false := beq_eq_false_iff_ne.mpr hk
      simp [hne]

theorem declared_nodup (item : PathItem) : (item.declared.map Prod.fst).Nodup := by
  have hnames : (item.declared.map Prod.fst).Sublist (item.operations.map Prod.fst) := by
    rw [PathItem.declared]
    induction item.operations with
    | nil => exact List.Sublist.refl _
    | cons entry entries ih =>
      rcases entry with ⟨name, operation⟩
      cases operation with
      | none => exact ih.cons name
      | some operation => exact ih.cons_cons name
  have hall : (item.operations.map Prod.fst).Nodup := by
    simp [PathItem.operations]
  exact hall.sublist hnames

/-- The table has an entry for what the document declares, and nothing else. -/
theorem compile_access {document : OpenApi} {policy : Policy} (h : compile document = .ok policy)
    {path : String} (hpath : path ≠ "") (method : String) :
    (document.declares path method = none ∧ policy.access path method = none) ∨
      ∃ operation allowed, document.declares path method = some operation ∧
        access document operation = .ok allowed ∧ policy.access path method = some allowed := by
  have hitem := collect_ok path h
  rw [lookup_contract_key document.ordered hpath] at hitem
  have hsame : document.item path = if path = "/" then
      (document.paths.lookup "/").or (document.paths.lookup "") else document.paths.lookup path :=
    if_neg hpath
  rw [← hsame] at hitem
  simp only [OpenApi.declares, Policy.access]
  rcases hitem with ⟨hnone, htable⟩ | ⟨item, methods, hsome, hmethods, htable⟩
  · left
    rw [hnone, htable]
    exact ⟨rfl, rfl⟩
  rw [hsome, htable]
  simp only [Option.bind_some]
  have hmethod : ∀ name, (item.operation name = none ∧ methods name = none) ∨
      ∃ operation allowed, item.operation name = some operation ∧
        access document operation = .ok allowed ∧ methods name = some allowed := by
    intro name
    have hcollected := collect_ok name hmethods
    rw [lookup_reverse (declared_nodup item)] at hcollected
    exact hcollected
  rcases hmethod method with ⟨hundeclared, hmissing⟩ | ⟨operation, allowed, hdeclared, hok, hfound⟩
  · rw [hundeclared, hmissing]
    by_cases hhead : method = "HEAD"
    · simpa [hhead] using hmethod "GET"
    · simp [hhead]
  · rw [hdeclared, hfound]
    exact .inr ⟨operation, allowed, rfl, hok, rfl⟩

theorem alternative_ok {requirement : SecurityRequirement} {scopes : List String} :
    alternative requirement = .ok scopes ↔ requirement = [("bearerAuth", scopes)] := by
  rw [alternative]
  rcases requirement with _ | ⟨⟨name, values⟩, _ | ⟨second, rest⟩⟩
  · simp
  · simp only [List.length_singleton, ne_eq, not_true_eq_false, if_false, ok_or_ok,
      List.lookup_cons, List.lookup_nil]
    by_cases hname : "bearerAuth" = name
    · subst hname
      simp
    · have hne : ("bearerAuth" == name) = false := beq_eq_false_iff_ne.mpr hname
      simp [hne, Ne.symm hname]
  · simp

theorem alternatives_ok {requirements : List SecurityRequirement} {alternatives : List (List String)}
    (h : requirements.mapM alternative = .ok alternatives) (scopes : List String) :
    scopes ∈ alternatives ↔ [("bearerAuth", scopes)] ∈ requirements := by
  induction requirements generalizing alternatives with
  | nil =>
    cases h
    simp
  | cons requirement requirements ih =>
    rw [List.mapM_cons] at h
    rcases bind_ok.mp h with ⟨first, hfirst, h⟩
    rcases bind_ok.mp h with ⟨others, hothers, h⟩
    cases h
    rw [alternative_ok.mp hfirst, List.mem_cons, List.mem_cons, ih hothers]
    simp

/-- Absent or empty security lets anyone in; the rest becomes alternatives. -/
theorem access_ok {document : OpenApi} {operation : Operation} {allowed : Access}
    (h : access document operation = .ok allowed) :
    (document.effective operation = [] ∧ allowed = .anyone) ∨
      document.effective operation ≠ [] ∧ ∃ alternatives, allowed = .guarded alternatives ∧
        ∀ scopes, scopes ∈ alternatives ↔
          [("bearerAuth", scopes)] ∈ document.effective operation := by
  simp only [access] at h
  rw [OpenApi.effective]
  cases hsecurity : operation.security.or document.security with
  | none =>
    rw [hsecurity] at h
    cases h
    exact .inl ⟨rfl, rfl⟩
  | some requirements =>
    rw [hsecurity] at h
    by_cases hempty : requirements = []
    · subst hempty
      cases h
      exact .inl ⟨rfl, rfl⟩
    · have hfilter : Option.filter (fun list => decide (list ≠ [])) (some requirements) =
          some requirements := by simp [hempty]
      rw [hfilter] at h
      rcases bind_ok.mp h with ⟨_, -, h⟩
      rcases bind_ok.mp h with ⟨alternatives, halternatives, h⟩
      cases h
      exact .inr ⟨hempty, alternatives, rfl, alternatives_ok halternatives⟩

theorem grants_any_iff {alternatives : List (List String)} {requirements : List SecurityRequirement}
    (h : ∀ scopes, scopes ∈ alternatives ↔ [("bearerAuth", scopes)] ∈ requirements)
    (accepted : Accepted) :
    grantsAny alternatives accepted.principal = true ↔ Grants requirements accepted.claim := by
  rcases normalize_scopes_ok accepted.normalized with ⟨hsorted, hmem⟩
  have hfound : ∀ scope, (binarySearch accepted.principal.scopes scope).isOk = true ↔
      scope ∈ scopeValues accepted.claim := by
    intro scope
    rw [← hmem, ← binary_search_ok hsorted scope]
    cases binarySearch accepted.principal.scopes scope <;> simp [Except.isOk, Except.toBool]
  simp only [grantsAny, Grants, List.any_eq_true, List.all_eq_true, hfound, h]

theorem unless_stopped_ran {context : OperationContext} {next : Served} {request : Request} :
    unlessStopped context next = .ran request ↔ context.stopped = none ∧ next = .ran request := by
  cases h : context.stopped <;> simp [unlessStopped, h]

theorem contract_path_ne_empty {extensions : Extensions} {path : String}
    (h : contractPath extensions = some path) : path ≠ "" := by
  rcases Option.map_eq_some_iff.mp h with ⟨matched, -, rfl⟩
  have hrooted : matched.text ≠ [] := by
    intro hempty
    have hhead := matched.rooted
    rw [hempty] at hhead
    cases hhead
  split
  · simpa using hrooted
  · decide
  · next inner hinner _ =>
    intro hempty
    exact hinner (by simpa using hempty)

def Stops.after (stops : Stops) (context : OperationContext) : OperationContext :=
  ((context.join stops.verifying).join stops.granting).join stops.inserting

theorem authenticate_protected_ran {verifier : Verifier} {alternatives : List (List String)}
    {request seen : Request} {stops : Stops} :
    authenticateProtected verifier alternatives request stops = .ran seen ↔
      ∃ context accepted, request.extensions.requestContext = some context ∧
        verifier (authorization request) context = .ok accepted ∧
        grantsAny alternatives accepted.principal = true ∧
        (stops.after context).stopped = none ∧ seen = request.identify accepted.principal := by
  rw [authenticateProtected]
  cases hcontext : request.extensions.requestContext with
  | none => simp
  | some context =>
    simp only [unless_stopped_ran]
    cases hresult : verifier (authorization request) context with
    | error failure => simp [hresult]
    | ok accepted =>
      simp only [unless_stopped_ran]
      constructor
      · rintro ⟨-, -, hran⟩
        split at hran
        · cases hran
        next hgranted =>
        rcases unless_stopped_ran.mp hran with ⟨hlive, hseen⟩
        refine ⟨context, accepted, rfl, hresult, by simpa using hgranted, hlive, ?_⟩
        exact (Served.ran.inj hseen).symm
      · rintro ⟨_, _, ⟨⟩, haccepted, hgranted, hlive, rfl⟩
        rw [hresult] at haccepted
        cases haccepted
        have hdecided := OperationContext.stopped_join hlive
        have hverified := OperationContext.stopped_join hdecided
        refine ⟨hverified, hdecided, ?_⟩
        simp only [hgranted, Bool.not_true, Bool.false_eq_true, if_false]
        exact unless_stopped_ran.mpr ⟨hlive, rfl⟩

/-- The verifier accepted the caller, some alternative is covered and the context is live. -/
def Admitted (requirements : List SecurityRequirement) (verifier : Verifier) (request : Request)
    (stops : Stops) (accepted : Accepted) : Prop :=
  ∃ context, request.extensions.requestContext = some context ∧
    verifier (authorization request) context = .ok accepted ∧
    Grants requirements accepted.claim ∧ (stops.after context).stopped = none

inductive Gets (requirements : List SecurityRequirement) (verifier : Verifier) (request : Request)
    (stops : Stops) (seen : Request) : Prop
  | anyone (h : requirements = []) (hseen : seen = request.anonymous)
  | admitted (h : requirements ≠ []) (accepted : Accepted)
      (hadmitted : Admitted requirements verifier request stops accepted)
      (hseen : seen = request.anonymous.identify accepted.principal)

theorem layer_ran {document : OpenApi} {verifier : Verifier} {policy : Policy}
    (h : compile document = .ok policy) (request : Request) (stops : Stops) (seen : Request) :
    authenticate verifier policy request stops = .ran seen ↔
      ∃ path operation, contractPath request.extensions = some path ∧
        document.declares path request.method = some operation ∧
        Gets (document.effective operation) verifier request stops seen := by
  have hsame : contractPath request.anonymous.extensions = contractPath request.extensions := rfl
  simp only [authenticate, hsame]
  cases hpath : contractPath request.extensions with
  | none => simp
  | some path =>
    simp only [Option.some.injEq, exists_and_left, exists_eq_left']
    rcases compile_access h (contract_path_ne_empty hpath) request.method with
      ⟨hundeclared, hmissing⟩ | ⟨operation, allowed, hdeclared, hok, hfound⟩
    · have hmethod : Policy.access policy path request.anonymous.method = none := hmissing
      simp [hmethod, hundeclared]
    have hmethod : Policy.access policy path request.anonymous.method = some allowed := hfound
    simp only [hmethod, hdeclared, Option.some.injEq, exists_eq_left']
    rcases access_ok hok with ⟨hempty, rfl⟩ | ⟨hne, alternatives, rfl, halternatives⟩
    · constructor
      · intro hran
        exact .anyone hempty (Served.ran.inj hran).symm
      · rintro (⟨-, rfl⟩ | ⟨hne, -, -, -⟩)
        · rfl
        · exact absurd hempty hne
    · simp only [authenticate_protected_ran, grants_any_iff halternatives]
      constructor
      · rintro ⟨context, accepted, hcontext, hverified, hgrants, hlive, rfl⟩
        exact .admitted hne accepted ⟨context, hcontext, hverified, hgrants, hlive⟩ rfl
      · rintro (⟨hempty, -⟩ | ⟨-, accepted, ⟨context, hcontext, hverified, hgrants, hlive⟩, rfl⟩)
        · exact absurd hempty hne
        · exact ⟨context, accepted, hcontext, hverified, hgrants, hlive, rfl⟩

theorem identify_unauthorized (request : Request) (principal : Principal) :
    authorization (request.identify principal) = [] := by
  simp [authorization, Request.identify]

/-- The handler runs exactly for declared operations and granted callers, with the verified
principal and without the credentials. -/
theorem handler_runs_iff_granted {document : OpenApi} {verifier : Verifier}
    {layer : Request → Stops → Served} (h : finalize document verifier = .ok layer)
    (request : Request) (stops : Stops) :
    ((∃ seen, layer request stops = .ran seen) ↔
      ∃ path operation, contractPath request.extensions = some path ∧
        document.declares path request.method = some operation ∧
        (document.effective operation = [] ∨
          ∃ accepted, Admitted (document.effective operation) verifier request stops accepted)) ∧
    ∀ seen, layer request stops = .ran seen →
      seen.extensions.verifiedPrincipal = none ∧ seen.method = request.method ∧
      ∃ path operation, contractPath request.extensions = some path ∧
        document.declares path request.method = some operation ∧
        (document.effective operation = [] → seen.extensions.principal = none ∧
          seen.headers = request.headers) ∧
        (document.effective operation ≠ [] →
          ∃ accepted, Admitted (document.effective operation) verifier request stops accepted ∧
            seen.extensions.principal = some accepted.principal ∧ authorization seen = [] ∧
            seen.headers = request.headers.filter fun header => header.1 ≠ "authorization") := by
  rcases bind_ok.mp h with ⟨policy, hpolicy, hlayer⟩
  cases hlayer
  constructor
  · simp only [layer_ran hpolicy]
    constructor
    · rintro ⟨seen, path, operation, hpath, hdeclares, hgets⟩
      refine ⟨path, operation, hpath, hdeclares, ?_⟩
      cases hgets with
      | anyone hempty _ => exact .inl hempty
      | admitted _ accepted hadmitted _ => exact .inr ⟨accepted, hadmitted⟩
    · rintro ⟨path, operation, hpath, hdeclares, hallowed⟩
      by_cases hempty : document.effective operation = []
      · exact ⟨_, path, operation, hpath, hdeclares, .anyone hempty rfl⟩
      · rcases hallowed.resolve_left hempty with ⟨accepted, hadmitted⟩
        exact ⟨_, path, operation, hpath, hdeclares, .admitted hempty accepted hadmitted rfl⟩
  · intro seen hran
    rcases (layer_ran hpolicy request stops seen).mp hran with
      ⟨path, operation, hpath, hdeclares, hgets⟩
    cases hgets with
    | anyone hempty hseen =>
      subst hseen
      exact ⟨rfl, rfl, path, operation, hpath, hdeclares, fun _ => ⟨rfl, rfl⟩,
        fun hne => absurd hempty hne⟩
    | admitted hne accepted hadmitted hseen =>
      subst hseen
      exact ⟨rfl, rfl, path, operation, hpath, hdeclares, fun hempty => absurd hempty hne,
        fun _ => ⟨accepted, hadmitted, rfl, identify_unauthorized _ _, rfl⟩⟩

def ordersDocument : OpenApi where
  paths := [("/orders", ⟨some ⟨none⟩, none, none, none, none, none, none, none⟩)]
  ordered := by simp
  security := some [[("bearerAuth", ["orders:write", "orders:read"])]]
  bearerAuth := some (.http "bearer")

def ordersPrincipal : Principal :=
  ⟨"issuer", some "caller", none, ["orders:read", "orders:write"], "claims", "token", none, 60⟩

def ordersAccepted : Accepted where
  principal := ordersPrincipal
  claim := some (.many ["orders:write", "orders:read", "orders:write"])
  refusal := .invalid
  normalized := by decide

def ordersVerifier : Verifier := fun values _ =>
  if values = [[66]] then .ok ordersAccepted else .error .missing

def ordersRequest : Request where
  method := "HEAD"
  headers := [("authorization", [66]), ("accept", [42])]
  extensions := ⟨some ⟨"/api/orders".toList, by decide⟩, some "/api".toList, none,
    some ordersPrincipal, some ⟨false, false⟩⟩

theorem orders_handler_runs : ∃ layer seen, finalize ordersDocument ordersVerifier = .ok layer ∧
    layer ordersRequest ⟨⟨false, false⟩, ⟨false, false⟩, ⟨false, false⟩⟩ = .ran seen ∧
    seen.extensions.verifiedPrincipal = none := by
  have hcompiled : (finalize ordersDocument ordersVerifier).isOk = true := by decide
  cases hlayer : finalize ordersDocument ordersVerifier with
  | error error =>
    rw [hlayer] at hcompiled
    cases hcompiled
  | ok layer =>
    have hruns := handler_runs_iff_granted hlayer ordersRequest
      ⟨⟨false, false⟩, ⟨false, false⟩, ⟨false, false⟩⟩
    rcases hruns.1.mpr ⟨"/orders", ⟨none⟩, by decide, by decide,
      .inr ⟨ordersAccepted, ⟨false, false⟩, rfl, rfl, ⟨["orders:write", "orders:read"],
        List.mem_singleton.mpr rfl, by decide⟩, rfl⟩⟩ with ⟨seen, hseen⟩
    exact ⟨layer, seen, rfl, hseen, (hruns.2 seen hseen).1⟩

end HttpContract
