import ServiceTemplate.GrpcRegistry
import ServiceTemplate.HttpContract

/-! The layers around the registered services: the opening's deadline, its permit, one of two
authenticators, caller admission, the business permit, and the handlers last. -/
namespace GrpcAdmission

open BearerClaims (Failure Principal)
open BinarySearch
open ByteFraming (Bytes)
open GrpcRegistry
open HttpContract (Accepted)
open OperationStop
open ServiceTokens (CallerName)
open TransitionSystem

structure Request where
  path : String
  headers : List (String × Bytes)
  context : Option OperationContext
  principal : Option Principal
  caller : Option CallerName
  deriving DecidableEq

/-- What the evidence of one call verifies to at an instant, as a service token or as a bearer
token. -/
abbrev CallerVerifier := ℕ → List Bytes → Except Failure CallerName

abbrev BearerVerifier := ℕ → List Bytes → OperationContext → Except Failure Accepted

inductive Code where
  | internalServerError
  | gatewayTimeout
  | serviceUnavailable
  | forbidden
  | unauthorized
  | authenticationRequired
  | authenticationMalformed
  | authenticationInvalid
  | authenticationUnavailable
  deriving DecidableEq, Repr

inductive GrpcCode where
  | permissionDenied
  | resourceExhausted
  deriving DecidableEq, Repr

/-- A failure as its own status or as another one, or a cancellation. -/
inductive Status where
  | failure (code : Code)
  | failureAs (code : Code) (status : GrpcCode) (detail : String)
  | cancelled (message : String)
  deriving DecidableEq, Repr

def openingStatus (context : OperationContext) : Status :=
  match context.stopped with
  | some .cancelled => .cancelled "request cancelled"
  | _ => .failure .gatewayTimeout

def atCapacity : Status :=
  .failureAs .serviceUnavailable .resourceExhausted "server is at capacity"

def notAdmitted : Status :=
  .failureAs .forbidden .permissionDenied "the verified caller is not admitted to this method"

def insufficientScope : Status :=
  .failureAs .forbidden .permissionDenied "the verified principal lacks the required scope"

def verificationStatus : Failure → Status
  | .missing | .malformed | .invalid => .failure .unauthorized
  | .unavailable => .failure .serviceUnavailable

def authenticationStatus : Failure → Status
  | .missing => .failure .authenticationRequired
  | .malformed => .failure .authenticationMalformed
  | .invalid => .failure .authenticationInvalid
  | .unavailable => .failure .authenticationUnavailable

inductive Response where
  | refused (status : Status)
  | unimplemented
  | health
  | handled (request : Request)
  deriving DecidableEq

/-- What one call meets on its way in: when its evidence is verified, whether it gets the permits,
and what happens to its context until each look at it. -/
structure Circumstances where
  now : ℕ
  opening : OperationContext
  openingPermit : Bool
  verifying : OperationContext
  granting : OperationContext
  admitting : OperationContext
  businessPermit : Bool

structure Router where
  verifier : Option CallerVerifier
  rules : SortedMap String (List CallerName)
  scopes : SortedMap String (List String)
  bearer : Option BearerVerifier
  bounded : Bool
  routes : List String

/-- A refusal, or a panic on two routes for the same paths. -/
inductive Fault where
  | error (error : Error)
  | overlappingRoutes
  deriving DecidableEq, Repr

/-- Service tokens replace the bearer verifier. -/
def chosenBearer (verifies : Bool) (bearer : Option BearerVerifier) :
    Except Error (Option BearerVerifier) :=
  if verifies then .ok none
  else
    match bearer with
    | some bearer => .ok (some bearer)
    | none => .error .unauthenticatedBusinessCalls

def router (contracts : Contracts) (services : Services CallerVerifier)
    (bearer : Option BearerVerifier) (bounded : Bool) : Except Fault Router :=
  match services.attached contracts with
  | (_, .error e) => .error (.error e)
  | (services, .ok ()) =>
    match services.callerAdmission with
    | .error e => .error (.error e)
    | .ok (verifier, rules) =>
      match chosenBearer verifier.isSome bearer with
      | .error e => .error (.error e)
      | .ok bearer =>
        if healthService ∈ services.routes then .error .overlappingRoutes
        else .ok ⟨verifier, rules, services.scopes, bearer, bounded, services.routes⟩

def under (service path : String) : Bool :=
  ('/' :: service.toList ++ ['/']).isPrefixOf path.toList

def Router.handlers (r : Router) (request : Request) : Response :=
  if r.routes.any fun service => under service request.path then .handled request
  else .unimplemented

/-- The layer is there only where a bound is set. -/
def withPermit (bounded permit : Bool) (next : Response) : Response :=
  if bounded && !permit then .refused atCapacity else next

def authorization (request : Request) : List Bytes :=
  (request.headers.filter fun header => header.1 = "authorization").map Prod.snd

def Request.withoutAuthorization (request : Request) : Request :=
  { request with headers := request.headers.filter fun header => header.1 ≠ "authorization" }

def Router.shed (r : Router) (circumstances : Circumstances) (request : Request) : Response :=
  withPermit r.bounded circumstances.businessPermit (r.handlers request)

def Router.admit (r : Router) (circumstances : Circumstances) (request : Request) : Response :=
  match r.verifier with
  | none => r.shed circumstances request.withoutAuthorization
  | some verifier =>
    match request.context with
    | none => .refused (.failure .internalServerError)
    | some context =>
      match verifier circumstances.now (authorization request) with
      | .error failure => .refused (verificationStatus failure)
      | .ok caller =>
        let admitted := match r.rules.get? request.path with
          | none => false
          | some callers => decide (caller ∈ callers)
        let context := context.join circumstances.admitting
        if !admitted then .refused notAdmitted
        else if context.stopped.isSome then .refused (openingStatus context)
        else r.shed circumstances { request with caller := some caller }.withoutAuthorization

def granted (scopes : SortedMap String (List String)) (path : String) (principal : Principal) :
    Bool :=
  match scopes.get? path with
  | none => true
  | some required => required.all fun scope => (binarySearch principal.scopes scope).isOk

def Router.authenticate (r : Router) (circumstances : Circumstances) (request : Request) :
    Response :=
  match r.bearer with
  | none => r.admit circumstances request
  | some bearer =>
    match request.context with
    | none => .refused (.failure .internalServerError)
    | some context =>
      let result := bearer circumstances.now (authorization request) context
      let verified := context.join circumstances.verifying
      let decided := verified.join circumstances.granting
      if verified.stopped.isSome then .refused (openingStatus verified)
      else
        match result with
        | .error failure => .refused (authenticationStatus failure)
        | .ok accepted =>
          if !granted r.scopes request.path accepted.principal then .refused insufficientScope
          else if decided.stopped.isSome then .refused (openingStatus decided)
          else
            r.admit circumstances
              { request with principal := some accepted.principal }.withoutAuthorization

/-- The health service is beside the business layers. -/
def Router.serve (r : Router) (circumstances : Circumstances) (request : Request) : Response :=
  if under healthService request.path then .health
  else if circumstances.opening.stopped.isSome then .refused (openingStatus circumstances.opening)
  else
    withPermit r.bounded circumstances.openingPermit
      (r.authenticate circumstances { request with context := some circumstances.opening })

/-- Service tokens decide where they are verified, and bearer tokens elsewhere. -/
inductive Admitted (services : Services CallerVerifier) (bearer : Option BearerVerifier)
    (circumstances : Circumstances) (request : Request) : Prop
  | caller {verifier : CallerVerifier} {caller : CallerName} {rule : List CallerName}
      (hverifier : services.callerVerifier = some verifier)
      (hcaller : verifier circumstances.now (authorization request) = .ok caller)
      (hrule : services.callers.get? request.path = some rule) (hlisted : caller ∈ rule)
  | principal {verifier : BearerVerifier} {accepted : Accepted}
      (hverifier : services.callerVerifier = none) (hbearer : bearer = some verifier)
      (haccepted : verifier circumstances.now (authorization request) circumstances.opening =
        .ok accepted)
      (hscopes : ∀ required, services.scopes.get? request.path = some required →
        ∀ scope ∈ required, scope ∈ accepted.principal.scopes)

section

variable {r : Router} {circumstances : Circumstances} {request seen : Request}

theorem handlers_handled (h : r.handlers request = .handled seen) : seen = request := by
  unfold Router.handlers at h
  split at h
  · exact (Response.handled.inj h).symm
  · cases h

theorem with_permit_handled {bounded permit : Bool} {next : Response}
    (h : withPermit bounded permit next = .handled seen) : next = .handled seen := by
  unfold withPermit at h
  split at h
  · cases h
  · exact h

theorem shed_handled (h : r.shed circumstances request = .handled seen) : seen = request :=
  handlers_handled (with_permit_handled h)

theorem without_authorization (request : Request) :
    authorization request.withoutAuthorization = [] := by
  simp [authorization, Request.withoutAuthorization]

/-- Either authenticator may have removed the header before; it is removed here again. -/
theorem admit_handled (h : r.admit circumstances request = .handled seen) :
    authorization seen = [] ∧ (r.verifier = none ∨ ∃ verifier caller rule,
      r.verifier = some verifier ∧
      verifier circumstances.now (authorization request) = .ok caller ∧
      r.rules.get? request.path = some rule ∧ caller ∈ rule) := by
  unfold Router.admit at h
  split at h
  · next hverifier =>
    have hseen := shed_handled h
    exact ⟨hseen ▸ without_authorization _, .inl hverifier⟩
  · next verifier hverifier =>
    split at h
    · cases h
    · split at h
      · cases h
      · next caller hcaller =>
        dsimp only at h
        cases hrule : r.rules.get? request.path with
        | none =>
          rw [hrule] at h
          cases h
        | some rule =>
          rw [hrule] at h
          by_cases hlisted : caller ∈ rule
          · simp only [hlisted, decide_true, Bool.not_true, Bool.false_eq_true, if_false] at h
            split at h
            · cases h
            · have hseen := shed_handled h
              exact ⟨hseen ▸ without_authorization _,
                .inr ⟨verifier, caller, rule, hverifier, hcaller, rfl, hlisted⟩⟩
          · simp only [hlisted, decide_false, Bool.not_false, if_true] at h
            cases h

theorem granted_holds {scopes : SortedMap String (List String)} {path : String}
    {accepted : Accepted} (h : granted scopes path accepted.principal = true) :
    ∀ required, scopes.get? path = some required →
      ∀ scope ∈ required, scope ∈ accepted.principal.scopes := by
  intro required hrequired scope hscope
  unfold granted at h
  rw [hrequired] at h
  have hfound := List.all_eq_true.mp h scope hscope
  obtain ⟨hsorted, -⟩ := BearerClaims.normalize_scopes_ok accepted.normalized
  refine (binary_search_ok hsorted scope).mp ?_
  cases hsearch : binarySearch accepted.principal.scopes scope with
  | error place =>
    rw [hsearch] at hfound
    cases hfound
  | ok place => exact ⟨place, rfl⟩

theorem authenticate_handled (h : r.authenticate circumstances request = .handled seen) :
    authorization seen = [] ∧
      (r.bearer = none ∧ r.admit circumstances request = .handled seen ∨
      ∃ verifier context accepted, r.bearer = some verifier ∧ request.context = some context ∧
        verifier circumstances.now (authorization request) context = .ok accepted ∧
        granted r.scopes request.path accepted.principal = true) := by
  unfold Router.authenticate at h
  split at h
  · next hbearer => exact ⟨(admit_handled h).1, .inl ⟨hbearer, h⟩⟩
  · next verifier hbearer =>
    split at h
    · cases h
    · next context hcontext =>
      dsimp only at h
      split at h
      · cases h
      · split at h
        · cases h
        · next accepted haccepted =>
          by_cases hgranted : granted r.scopes request.path accepted.principal = true
          · simp only [hgranted, Bool.not_true, Bool.false_eq_true, if_false] at h
            split at h
            · cases h
            · exact ⟨(admit_handled h).1,
                .inr ⟨verifier, context, accepted, hbearer, hcontext, haccepted, hgranted⟩⟩
          · simp only [hgranted, Bool.not_false, if_true] at h
            cases h

theorem serve_handled (h : r.serve circumstances request = .handled seen) :
    r.authenticate circumstances { request with context := some circumstances.opening } =
      .handled seen := by
  unfold Router.serve at h
  split at h
  · cases h
  · split at h
    · cases h
    · exact with_permit_handled h

end

section

variable {contracts : Contracts} {s : Services CallerVerifier}

theorem router_ok {bearer : Option BearerVerifier} {bounded : Bool} {r : Router}
    (h : router contracts s bearer bounded = .ok r) :
    ∃ t, s.attached contracts = (t, .ok ()) ∧
      t.callerAdmission = .ok (r.verifier, r.rules) ∧ r.scopes = t.scopes ∧
      chosenBearer r.verifier.isSome bearer = .ok r.bearer := by
  unfold router at h
  split at h
  · cases h
  · next t hattached =>
    split at h
    · cases h
    · next verifier rules hadmission =>
      split at h
      · cases h
      · next chosen hchosen =>
        split at h
        · cases h
        · cases h
          exact ⟨t, hattached, hadmission, rfl, hchosen⟩

theorem router_kept {bearer : Option BearerVerifier} {bounded : Bool} {r : Router}
    (h : router contracts s bearer bounded = .ok r) :
    r.verifier = s.callerVerifier ∧ r.rules = s.callers ∧ r.scopes = s.scopes := by
  obtain ⟨t, hattached, hadmission, hscopes, -⟩ := router_ok h
  obtain ⟨hkept, -⟩ := attached_ok hattached
  obtain ⟨htable, -⟩ := caller_admission_ok hadmission
  rw [Prod.mk.injEq] at htable
  exact ⟨htable.1.trans hkept.callerVerifier, htable.2.trans hkept.callers,
    hscopes.trans hkept.scopes⟩

theorem chosen_bearer_cases {verifies : Bool} {bearer chosen : Option BearerVerifier}
    (h : chosenBearer verifies bearer = .ok chosen) :
    verifies = true ∧ chosen = none ∨
      verifies = false ∧ chosen = bearer ∧ ∃ verifier, bearer = some verifier := by
  unfold chosenBearer at h
  cases verifies with
  | true =>
    cases h
    exact .inl ⟨rfl, rfl⟩
  | false =>
    rw [if_neg Bool.false_ne_true] at h
    split at h
    · next verifier =>
      cases h
      exact .inr ⟨rfl, rfl, verifier, rfl⟩
    · cases h

theorem handled_admitted {bearer : Option BearerVerifier} {bounded : Bool} {r : Router}
    (hrouter : router contracts s bearer bounded = .ok r) {circumstances : Circumstances}
    {request seen : Request} (h : r.serve circumstances request = .handled seen) :
    Admitted s bearer circumstances request ∧ authorization seen = [] := by
  obtain ⟨hverifier, hrules, hscopes⟩ := router_kept hrouter
  obtain ⟨t, -, -, -, hchosen⟩ := router_ok hrouter
  obtain ⟨hseen, hpath⟩ := authenticate_handled (serve_handled h)
  refine ⟨?_, hseen⟩
  rcases hpath with ⟨hnone, hadmit⟩ | ⟨verifier, context, accepted, hbearer, hcontext, haccepted, hgranted⟩
  · obtain ⟨-, hadmitted⟩ := admit_handled hadmit
    rcases hadmitted with hoff | ⟨verifier, caller, rule, hon, hcaller, hrule, hlisted⟩
    · -- Without either authenticator nothing was built.
      rcases chosen_bearer_cases hchosen with ⟨hverifies, -⟩ | ⟨-, hsame, verifier, hbearer⟩
      · rw [hoff] at hverifies
        cases hverifies
      · rw [hsame, hbearer] at hnone
        cases hnone
    · rw [hrules] at hrule
      exact .caller (hverifier.symm.trans hon) hcaller hrule hlisted
  · rcases chosen_bearer_cases hchosen with ⟨-, hreplaced⟩ | ⟨hoff, hsame, -⟩
    · rw [hreplaced] at hbearer
      cases hbearer
    · rw [hverifier, Option.isSome_eq_false_iff, Option.isNone_iff_eq_none] at hoff
      cases hcontext
      rw [hscopes] at hgranted
      exact .principal hoff (hsame.symm.trans hbearer) haccepted (granted_holds hgranted)

/-- A path of an added service that some description in force listed. -/
def WasMethod (contracts : Contracts) (s : Services CallerVerifier) (path : String) : Prop :=
  ∃ service method, path = methodPath service method ∧
    (s.names.get? service).isSome = true ∧ Once contracts s fun earlier =>
      earlier.Lists service method

theorem once_method {path : String}
    (h : Once contracts s fun earlier => earlier.isMethod path = true) :
    WasMethod contracts s path := by
  obtain ⟨earlier, hreachable, hexecution, hmethod⟩ := h
  obtain ⟨service, method, hpath, hlists⟩ := is_method_lists hmethod
  exact ⟨service, method, hpath, (execution_grown hexecution).names service hlists.1,
    earlier, hreachable, hexecution, hlists⟩

theorem get_single {W : Type} {m n : SortedMap String W} {path : String} {v : W}
    (hkept : ∀ w, m.get? path = some w → n.get? path = some w) (h : (path, v) ∈ m.entries) (w : W) :
    (path, w) ∈ n.entries ↔ w = v := by
  have hlater := hkept v (SortedMap.get_some.mpr h)
  rw [← SortedMap.get_some, hlater, Option.some.injEq]
  exact eq_comm

structure FailClosed (contracts : Contracts) (s : Services CallerVerifier) : Prop where
  unchanged : ∀ call e, (s.call contracts call).2 = .error e → (s.call contracts call).1 = s
  scopes_declared : ∀ path scopes, s.scopes.get? path = some scopes → WasMethod contracts s path
  callers_declared : ∀ path names, s.callers.get? path = some names →
    WasMethod contracts s path ∨ s.reflection = true ∧ path ∈ reflectionMethods
  /-- A second declaration is refused, and the first one stands. -/
  scopes_single : ∀ path scopes, (path, scopes) ∈ s.scopes.entries →
    (∀ again, ∃ e, s.call contracts (.requireScopes path again) = (s, .error e)) ∧
    ∀ t, (system contracts).Execution s t → ∀ others, (path, others) ∈ t.scopes.entries ↔ others = scopes
  callers_single : ∀ path names, (path, names) ∈ s.callers.entries →
    (∀ again, ∃ e, s.call contracts (.allowCallers path again) = (s, .error e)) ∧
    ∀ t, (system contracts).Execution s t → ∀ others, (path, others) ∈ t.callers.entries ↔ others = names
  /-- `t` is the registry that the build looks at: all descriptions read, reflection attached. -/
  complete : ∀ bearer bounded r, router contracts s bearer bounded = .ok r →
    (s.callerVerifier.isSome = true ∨ s.callers.entries ≠ []) →
    ∃ t, s.attached contracts = (t, .ok ()) ∧
      (∀ name, (s.names.get? name).isSome = true → (t.names.get? name).isSome = true) ∧
      (s.reflection = true → (t.names.get? reflectionService).isSome = true ∧
        (t.names.get? reflectionServiceAlpha).isSome = true) ∧
      ∀ service method, t.Lists service method →
        (s.callers.get? (methodPath service method)).isSome = true
  admitted : ∀ bearer bounded r, router contracts s bearer bounded = .ok r →
    ∀ circumstances request seen, r.serve circumstances request = .handled seen →
      Admitted s bearer circumstances request ∧ authorization seen = []

end

theorem admission_fails_closed {contracts : Contracts} {s : Services CallerVerifier}
    (h : (system contracts).Reachable s) : FailClosed contracts s where
  unchanged call e herror := by
    have hcases : (∃ failure, s.call contracts call = (s, .error failure)) ∨
        ∃ t, s.call contracts call = (t, .ok ()) ∧ Effect contracts s call t := call_cases s call
    rcases hcases with ⟨failure, hfailed⟩ | ⟨t, hok, -⟩
    · rw [hfailed]
    · rw [hok] at herror
      cases herror
  scopes_declared path scopes hpath := once_method ((reachable_declared h).scopes path scopes hpath)
  callers_declared path names hpath := by
    obtain ⟨earlier, hreachable, hexecution, hkind⟩ := (reachable_declared h).callers path names hpath
    rcases hkind with hmethod | ⟨hreflection, hlisted⟩
    · exact .inl (once_method ⟨earlier, hreachable, hexecution, hmethod⟩)
    · exact .inr ⟨(execution_grown hexecution).reflection hreflection, hlisted⟩
  scopes_single path _ hentry := ⟨require_again (SortedMap.get_some.mpr hentry),
    fun _ hexecution => get_single ((execution_grown hexecution).scopes path) hentry⟩
  callers_single path _ hentry := ⟨allow_again (SortedMap.get_some.mpr hentry),
    fun _ hexecution => get_single ((execution_grown hexecution).callers path) hentry⟩
  complete bearer bounded r hrouter hrules := by
    obtain ⟨t, hattached, hadmission, -, -⟩ := router_ok hrouter
    obtain ⟨hkept, hreflection⟩ := attached_ok hattached
    obtain ⟨-, hcomplete⟩ := caller_admission_ok hadmission
    rw [hkept.callerVerifier, hkept.callers] at hcomplete
    exact ⟨t, hattached, hkept.names, hreflection, hcomplete hrules⟩
  admitted _ _ _ hrouter _ _ _ hserve := handled_admitted hrouter hserve

/-- A service `S` in the encoding of descriptor sets, with the method `A`. -/
def firstSet : Bytes := [10, 10, 50, 8, 10, 1, 83, 18, 3, 10, 1, 65]

def secondSet : Bytes := [10, 10, 50, 8, 10, 1, 83, 18, 3, 10, 1, 66]

def smallContracts : Contracts where
  decode encoded :=
    if encoded = firstSet then some [⟨"", [⟨"S", ["A"]⟩]⟩]
    else if encoded = secondSet then some [⟨"", [⟨"S", ["B"]⟩]⟩]
    else if encoded = [] then some []
    else none
  reflectionV1 := []
  reflectionV1Alpha := []
  health := []
  buildV1 _ := true
  buildV1Alpha _ := true

def after (calls : List (Call CallerVerifier)) : Services CallerVerifier :=
  calls.foldl (fun s call => (s.call smallContracts call).1) .new

theorem after_reachable (calls : List (Call CallerVerifier)) :
    (system smallContracts).Reachable (after calls) := ⟨calls, run_calls _ calls⟩

def orders : CallerName := ⟨"orders", by decide⟩

def bearerEvidence : Bytes := [66, 101, 97, 114, 101, 114, 32, 116]

def ordersVerifier : CallerVerifier := fun _ evidence =>
  if evidence = [bearerEvidence] then .ok orders else .error .missing

def ruled : Services CallerVerifier :=
  after [.describe firstSet, .add "S", .allowCallers "/S/A" ["orders"],
    .authenticateCallers ordersVerifier]

def calm : OperationContext := ⟨false, false⟩

def calmCall : Circumstances := ⟨0, calm, true, calm, calm, calm, true⟩

def ordersCall : Request := ⟨"/S/A", [("authorization", bearerEvidence)], none, none, none⟩

theorem orders_reach_handler : ∃ r seen, router smallContracts ruled none false = .ok r ∧
    r.serve calmCall ordersCall = .handled seen ∧
    Admitted ruled none calmCall ordersCall ∧ authorization seen = [] := by
  have hserved : (router smallContracts ruled none false).toOption.map (fun r =>
      r.serve calmCall ordersCall) =
        some (.handled ⟨"/S/A", [], some calm, none, some orders⟩) := by
    decide
  obtain ⟨r, hr, hhandled⟩ := Option.map_eq_some_iff.mp hserved
  cases hrouter : router smallContracts ruled none false with
  | error fault =>
    rw [hrouter] at hr
    cases hr
  | ok built =>
    rw [hrouter] at hr
    cases hr
    have hclosed := admission_fails_closed (after_reachable [.describe firstSet, .add "S",
      .allowCallers "/S/A" ["orders"], .authenticateCallers ordersVerifier])
    exact ⟨_, _, rfl, hhandled, hclosed.admitted _ _ _ hrouter _ _ _ hhandled⟩

def replaced : Services CallerVerifier :=
  after [.describe firstSet, .add "S", .requireScopes "/S/A" ["echo.read"], .describe secondSet]

theorem requirement_outlives_method :
    ¬ ∀ s : Services CallerVerifier, (system smallContracts).Reachable s → ∀ path scopes,
      s.scopes.get? path = some scopes →
        ∃ service method, path = methodPath service method ∧ s.Lists service method := by
  intro h
  have hscopes : replaced.scopes.get? "/S/A" = some ["echo.read"] := by decide
  obtain ⟨service, method, hpath, hname, hmethod⟩ :=
    h replaced (after_reachable _) "/S/A" ["echo.read"] hscopes
  have hnames : replaced.names.entries = [("S", ())] := by decide
  have hservice : service = "S" := by
    obtain ⟨present, hpresent⟩ := Option.isSome_iff_exists.mp hname
    have hentry := SortedMap.get_some.mp hpresent
    rw [hnames, List.mem_singleton, Prod.mk.injEq] at hentry
    exact hentry.1
  have hmethods : replaced.methodsOf "S" = ["B"] := by decide
  rw [hservice, hmethods, List.mem_singleton] at hmethod
  rw [hservice, hmethod] at hpath
  revert hpath
  decide

end GrpcAdmission
