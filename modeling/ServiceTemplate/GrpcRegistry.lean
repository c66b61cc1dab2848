import Mathlib.Data.String.Basic
import ServiceTemplate.ServiceTokens
import ServiceTemplate.SortedMap
import ServiceTemplate.TransitionSystem

/-! The registry of gRPC services: which contracts are described, which services are added, and the
scope requirements and caller rules declared for their methods, through any order of calls. -/
namespace GrpcRegistry

open ByteFraming (Bytes)
open ServiceTokens (CallerName)
open Splitting (splitOnce)
open TransitionSystem

structure ServiceDescriptor where
  name : String
  methods : List String
  deriving DecidableEq, Repr

structure FileDescriptor where
  package : String
  services : List ServiceDescriptor
  deriving DecidableEq, Repr

/-- The protobuf decoder, the descriptor sets of reflection and health, and whether the reflection
servers build over the given sets. -/
structure Contracts where
  decode : Bytes → Option (List FileDescriptor)
  reflectionV1 : Bytes
  reflectionV1Alpha : Bytes
  health : Bytes
  buildV1 : List Bytes → Bool
  buildV1Alpha : List Bytes → Bool

inductive Error where
  | invalidFileDescriptorSet
  | undescribedService (name : String)
  | duplicateService (name : String)
  | unregisteredMethodPath
  | duplicateScopeRequirement
  | unregisteredCallerRule
  | duplicateCallerRule
  | invalidCallerRule
  | missingCallerRule (path : String)
  | unauthenticatedBusinessCalls
  deriving DecidableEq, Repr

/-- Full service names keep their methods; rules are keyed by request path. `V` is the verifier of
service tokens. -/
structure Services (V : Type) where
  routes : List String
  names : SortedMap String Unit
  described : SortedMap String (List String)
  descriptorSets : List Bytes
  reflection : Bool
  scopes : SortedMap String (List String)
  callers : SortedMap String (List CallerName)
  callerVerifier : Option V

def reflectionService : String := "grpc.reflection.v1.ServerReflection"

def reflectionServiceAlpha : String := "grpc.reflection.v1alpha.ServerReflection"

def healthService : String := "grpc.health.v1.Health"

def reflectionMethods : List String :=
  ["/grpc.reflection.v1.ServerReflection/ServerReflectionInfo",
    "/grpc.reflection.v1alpha.ServerReflection/ServerReflectionInfo"]

def methodPath (service method : String) : String := "/" ++ service ++ "/" ++ method

def FileDescriptor.fullName (file : FileDescriptor) (service : ServiceDescriptor) : String :=
  if file.package = "" then service.name else file.package ++ "." ++ service.name

/-- What a set says, one entry for each service in order. -/
def serviceMethods (files : List FileDescriptor) : List (String × List String) :=
  files.flatMap fun file => file.services.map fun service => (file.fullName service, service.methods)

def parseCallers (names : List CallerName) : List String → Except Error (List CallerName)
  | [] => .ok names
  | caller :: rest =>
    match CallerName.parse caller with
    | none => .error .invalidCallerRule
    | some name =>
      if name ∈ names then .error .invalidCallerRule else parseCallers (names ++ [name]) rest

namespace Services

variable {V : Type} (contracts : Contracts)

def new : Services V := ⟨[], .empty, .empty, [], false, .empty, .empty, none⟩

/-- A service described again has the later set's methods. -/
def learn (s : Services V) (encoded : Bytes) : Services V × Except Error Unit :=
  match contracts.decode encoded with
  | none => (s, .error .invalidFileDescriptorSet)
  | some files =>
    ({ s with described := (serviceMethods files).foldl (fun m e => m.insert e.1 e.2) s.described },
      .ok ())

def describe (s : Services V) (encoded : Bytes) : Services V × Except Error Unit :=
  match s.learn contracts encoded with
  | (s, .error e) => (s, .error e)
  | (s, .ok ()) => ({ s with descriptorSets := s.descriptorSets ++ [encoded] }, .ok ())

def add (s : Services V) (name : String) : Services V × Except Error Unit :=
  if s.described.get? name = none then (s, .error (.undescribedService name))
  else
    let present := (s.names.get? name).isSome
    let s := { s with names := s.names.insert name () }
    if present then (s, .error (.duplicateService name))
    else ({ s with routes := s.routes ++ [name] }, .ok ())

def addReflection (s : Services V) : Services V × Except Error Unit :=
  let added := s.reflection
  let s := { s with reflection := true }
  if added then (s, .error (.duplicateService reflectionService)) else (s, .ok ())

/-- The path is `/service/method` of a described method of an added service. -/
def isMethod (s : Services V) (path : String) : Bool :=
  match path.toList with
  | '/' :: rest =>
    match splitOnce '/' rest with
    | none => false
    | some (service, method) =>
      (s.names.get? (String.ofList service)).isSome &&
        match s.described.get? (String.ofList service) with
        | none => false
        | some methods => methods.any fun known => known = String.ofList method
  | _ => false

def requireScopes (s : Services V) (path : String) (scopes : List String) :
    Services V × Except Error Unit :=
  if !s.isMethod path then (s, .error .unregisteredMethodPath)
  else if (s.scopes.get? path).isSome then (s, .error .duplicateScopeRequirement)
  else ({ s with scopes := s.scopes.insert path scopes }, .ok ())

def allowCallers (s : Services V) (path : String) (callers : List String) :
    Services V × Except Error Unit :=
  let reflection := s.reflection && reflectionMethods.contains path
  if !(s.isMethod path || reflection) then (s, .error .unregisteredCallerRule)
  else if (s.callers.get? path).isSome then (s, .error .duplicateCallerRule)
  else
    match parseCallers [] callers with
    | .error e => (s, .error e)
    | .ok names => ({ s with callers := s.callers.insert path names }, .ok ())

def authenticateCallers (s : Services V) (verifier : V) : Services V × Except Error Unit :=
  ({ s with callerVerifier := some verifier }, .ok ())

def attachReflection (s : Services V) : Services V × Except Error Unit :=
  match s.learn contracts contracts.reflectionV1 with
  | (s, .error e) => (s, .error e)
  | (s, .ok ()) =>
    match s.learn contracts contracts.reflectionV1Alpha with
    | (s, .error e) => (s, .error e)
    | (s, .ok ()) =>
      if !contracts.buildV1 s.descriptorSets then (s, .error .invalidFileDescriptorSet)
      else if !contracts.buildV1Alpha s.descriptorSets then (s, .error .invalidFileDescriptorSet)
      else
        match s.add reflectionService with
        | (s, .error e) => (s, .error e)
        | (s, .ok ()) => s.add reflectionServiceAlpha

def methodsOf (s : Services V) (service : String) : List String :=
  (s.described.get? service).getD []

def paths (s : Services V) : List String :=
  s.names.entries.flatMap fun entry => (s.methodsOf entry.1).map (methodPath entry.1)

def callerAdmission (s : Services V) :
    Except Error (Option V × SortedMap String (List CallerName)) :=
  if s.callerVerifier.isSome || !s.callers.entries.isEmpty then
    match s.paths.find? fun path => (s.callers.get? path).isNone with
    | some path => .error (.missingCallerRule path)
    | none => .ok (s.callerVerifier, s.callers)
  else .ok (s.callerVerifier, s.callers)

end Services

inductive Call (V : Type) where
  | describe (encoded : Bytes)
  | add (name : String)
  | addReflection
  | requireScopes (path : String) (scopes : List String)
  | allowCallers (path : String) (callers : List String)
  | authenticateCallers (verifier : V)

variable {V : Type} (contracts : Contracts)

def Services.call (s : Services V) : Call V → Services V × Except Error Unit
  | .describe encoded => s.describe contracts encoded
  | .add name => s.add name
  | .addReflection => s.addReflection
  | .requireScopes path scopes => s.requireScopes path scopes
  | .allowCallers path callers => s.allowCallers path callers
  | .authenticateCallers verifier => s.authenticateCallers verifier

/-- Calls in any order; a failed one is a step too. -/
def system : System (Services V) (Call V) := ⟨.new, fun s call => some (s.call contracts call).1⟩

inductive Effect (s : Services V) : Call V → Services V → Prop
  | described {encoded : Bytes} {files : List FileDescriptor}
      (hdecode : contracts.decode encoded = some files) :
      Effect s (.describe encoded)
        { s with
          described := (serviceMethods files).foldl (fun m e => m.insert e.1 e.2) s.described
          descriptorSets := s.descriptorSets ++ [encoded] }
  | added {name : String} (hdescribed : s.described.get? name ≠ none)
      (hnew : s.names.get? name = none) :
      Effect s (.add name) { s with names := s.names.insert name (), routes := s.routes ++ [name] }
  | reflected (hnew : s.reflection = false) : Effect s .addReflection { s with reflection := true }
  | required {path : String} (scopes : List String) (hmethod : s.isMethod path = true)
      (hnew : s.scopes.get? path = none) :
      Effect s (.requireScopes path scopes) { s with scopes := s.scopes.insert path scopes }
  | allowed {path : String} {callers : List String} {names : List CallerName}
      (hpath : s.isMethod path = true ∨ s.reflection = true ∧ path ∈ reflectionMethods)
      (hnew : s.callers.get? path = none) (hparse : parseCallers [] callers = .ok names) :
      Effect s (.allowCallers path callers) { s with callers := s.callers.insert path names }
  | authenticated (verifier : V) :
      Effect s (.authenticateCallers verifier) { s with callerVerifier := some verifier }

section

variable {contracts} (s : Services V)

theorem add_cases (name : String) :
    (∃ e, s.add name = (s, .error e)) ∨
      s.described.get? name ≠ none ∧ s.names.get? name = none ∧
        s.add name =
          ({ s with names := s.names.insert name (), routes := s.routes ++ [name] }, .ok ()) := by
  unfold Services.add
  by_cases hdescribed : s.described.get? name = none
  · rw [if_pos hdescribed]
    exact .inl ⟨_, rfl⟩
  · rw [if_neg hdescribed]
    cases hname : s.names.get? name with
    | none => exact .inr ⟨hdescribed, rfl, rfl⟩
    | some present =>
      -- The set is written before the answer is known, with what it holds already.
      rw [SortedMap.insert_present hname]
      exact .inl ⟨_, rfl⟩

theorem call_cases (call : Call V) :
    (∃ e, s.call contracts call = (s, .error e)) ∨
      ∃ t, s.call contracts call = (t, .ok ()) ∧ Effect contracts s call t := by
  cases call with
  | describe encoded =>
    simp only [Services.call, Services.describe, Services.learn]
    cases hdecode : contracts.decode encoded with
    | none => exact .inl ⟨_, rfl⟩
    | some files => exact .inr ⟨_, rfl, .described hdecode⟩
  | add name =>
    rcases add_cases s name with herror | ⟨hdescribed, hnew, hadd⟩
    · exact .inl herror
    · exact .inr ⟨_, hadd, .added hdescribed hnew⟩
  | addReflection =>
    simp only [Services.call, Services.addReflection]
    cases hadded : s.reflection with
    | false => exact .inr ⟨_, rfl, .reflected hadded⟩
    | true =>
      refine .inl ⟨.duplicateService reflectionService, ?_⟩
      rw [if_pos rfl, ← hadded]
  | requireScopes path scopes =>
    simp only [Services.call, Services.requireScopes]
    by_cases hmethod : s.isMethod path = true
    · by_cases hpresent : (s.scopes.get? path).isSome = true
      · refine .inl ⟨.duplicateScopeRequirement, ?_⟩
        simp only [hmethod, hpresent, Bool.not_true, Bool.false_eq_true, if_false, if_true]
      · have hnew : s.scopes.get? path = none := by simpa using hpresent
        refine .inr ⟨_, ?_, .required scopes hmethod hnew⟩
        simp only [hmethod, hpresent, Bool.not_true, Bool.false_eq_true, if_false]
    · exact .inl ⟨.unregisteredMethodPath, by simp [hmethod]⟩
  | allowCallers path callers =>
    simp only [Services.call, Services.allowCallers]
    by_cases hpath : (s.isMethod path || s.reflection && reflectionMethods.contains path) = true
    · have hlisted : s.isMethod path = true ∨ s.reflection = true ∧ path ∈ reflectionMethods := by
        simpa using hpath
      by_cases hpresent : (s.callers.get? path).isSome = true
      · refine .inl ⟨.duplicateCallerRule, ?_⟩
        simp only [hpath, hpresent, Bool.not_true, Bool.false_eq_true, if_false, if_true]
      · have hnew : s.callers.get? path = none := by simpa using hpresent
        simp only [hpath, hpresent, Bool.not_true, Bool.false_eq_true, if_false]
        cases hparse : parseCallers [] callers with
        | error e => exact .inl ⟨e, rfl⟩
        | ok names => exact .inr ⟨_, rfl, .allowed hlisted hnew hparse⟩
    · rw [Bool.not_eq_true] at hpath
      refine .inl ⟨.unregisteredCallerRule, ?_⟩
      simp only [hpath, Bool.not_false, if_true]
  | authenticateCallers verifier => exact .inr ⟨_, rfl, .authenticated verifier⟩

end

def Services.Lists (s : Services V) (service method : String) : Prop :=
  (s.names.get? service).isSome = true ∧ method ∈ s.methodsOf service

theorem is_method_lists {s : Services V} {path : String} (h : s.isMethod path = true) :
    ∃ service method, path = methodPath service method ∧ s.Lists service method := by
  unfold Services.isMethod at h
  split at h
  · next rest hpath =>
    split at h
    · cases h
    · next service method hsplit =>
      rw [Bool.and_eq_true] at h
      obtain ⟨hname, hmethods⟩ := h
      refine ⟨String.ofList service, String.ofList method, ?_, hname, ?_⟩
      · apply String.toList_injective
        rw [hpath, (Splitting.split_once_iff.mp hsplit).1]
        simp [methodPath]
      · unfold Services.methodsOf
        cases hdescribed : s.described.get? (String.ofList service) with
        | none =>
          rw [hdescribed] at hmethods
          cases hmethods
        | some methods =>
          rw [hdescribed] at hmethods
          simpa using hmethods
  · cases h

structure Grown (s t : Services V) : Prop where
  names : ∀ name, (s.names.get? name).isSome = true → (t.names.get? name).isSome = true
  scopes : ∀ path scopes, s.scopes.get? path = some scopes → t.scopes.get? path = some scopes
  callers : ∀ path names, s.callers.get? path = some names → t.callers.get? path = some names
  reflection : s.reflection = true → t.reflection = true

theorem Grown.refl (s : Services V) : Grown s s :=
  ⟨fun _ h => h, fun _ _ h => h, fun _ _ h => h, fun h => h⟩

theorem Grown.trans {s t u : Services V} (h : Grown s t) (k : Grown t u) : Grown s u :=
  ⟨fun name hname => k.names name (h.names name hname),
    fun path _ hpath => k.scopes path _ (h.scopes path _ hpath),
    fun path _ hpath => k.callers path _ (h.callers path _ hpath),
    fun hreflection => k.reflection (h.reflection hreflection)⟩

theorem get_insert_new {W : Type} {m : SortedMap String W} {key other : String} {value v : W}
    (hnew : m.get? key = none) (h : m.get? other = some v) :
    (m.insert key value).get? other = some v := by
  by_cases hother : other = key
  · rw [hother, hnew] at h
    cases h
  · rw [SortedMap.get_insert_ne m hother, h]

section

variable {contracts} {s t : Services V}

theorem Effect.grown {call : Call V} (h : Effect contracts s call t) : Grown s t := by
  cases h with
  | added hdescribed hnew =>
    refine ⟨fun name hname => ?_, fun _ _ h => h, fun _ _ h => h, fun h => h⟩
    obtain ⟨present, hpresent⟩ := Option.isSome_iff_exists.mp hname
    rw [get_insert_new hnew hpresent]
    rfl
  | required scopes hmethod hnew =>
    exact ⟨fun _ h => h, fun _ _ h => get_insert_new hnew h, fun _ _ h => h, fun h => h⟩
  | allowed hpath hnew hparse =>
    exact ⟨fun _ h => h, fun _ _ h => h, fun _ _ h => get_insert_new hnew h, fun h => h⟩
  | reflected => exact ⟨fun _ h => h, fun _ _ h => h, fun _ _ h => h, fun _ => rfl⟩
  | described | authenticated =>
    exact ⟨fun _ h => h, fun _ _ h => h, fun _ _ h => h, fun h => h⟩

theorem step_cases {call : Call V} (h : (system contracts).step s call = some t) :
    t = s ∨ Effect contracts s call t := by
  have ht : (s.call contracts call).1 = t := Option.some.inj h
  rcases call_cases s call with ⟨e, herror⟩ | ⟨u, hok, heffect⟩
  · rw [herror] at ht
    exact .inl ht.symm
  · rw [hok] at ht
    cases ht
    exact .inr heffect

theorem run_calls (s : Services V) (calls : List (Call V)) :
    (system contracts).run s calls =
      some (calls.foldl (fun s call => (s.call contracts call).1) s) := by
  induction calls generalizing s with
  | nil => rfl
  | cons call rest ih => exact ih (s.call contracts call).1

theorem execution_grown (h : (system contracts).Execution s t) : Grown s t := by
  refine System.Execution.preserves (P := fun u => Grown s u) ?_ h (Grown.refl s)
  intro u call v hu hstep
  rcases step_cases hstep with rfl | heffect
  · exact hu
  · exact hu.trans heffect.grown

theorem require_again {path : String} {scopes : List String}
    (h : s.scopes.get? path = some scopes) (again : List String) :
    ∃ e, s.call contracts (.requireScopes path again) = (s, .error e) := by
  rcases call_cases s (.requireScopes path again) with herror | ⟨t, -, heffect⟩
  · exact herror
  · cases heffect with
    | required _ _ hnew =>
      rw [h] at hnew
      cases hnew

theorem allow_again {path : String} {names : List CallerName}
    (h : s.callers.get? path = some names) (again : List String) :
    ∃ e, s.call contracts (.allowCallers path again) = (s, .error e) := by
  rcases call_cases s (.allowCallers path again) with herror | ⟨t, -, heffect⟩
  · exact herror
  · cases heffect with
    | allowed _ hnew _ =>
      rw [h] at hnew
      cases hnew

/-- A state on the way to this one had the property, so it held when the path was declared. -/
def Once (contracts : Contracts) (s : Services V) (P : Services V → Prop) : Prop :=
  ∃ earlier, (system contracts).Reachable earlier ∧ (system contracts).Execution earlier s ∧ P earlier

theorem Once.tail {P : Services V → Prop} {call : Call V} (h : Once contracts s P)
    (hstep : (system contracts).step s call = some t) : Once contracts t P := by
  obtain ⟨earlier, hreachable, hexecution, hP⟩ := h
  exact ⟨earlier, hreachable, hexecution.tail hstep, hP⟩

/-- Each entry was declared while its path was of the kind the declaration asks for. -/
structure Declared (contracts : Contracts) (s : Services V) : Prop where
  scopes : ∀ path scopes, s.scopes.get? path = some scopes →
    Once contracts s fun earlier => earlier.isMethod path = true
  callers : ∀ path names, s.callers.get? path = some names →
    Once contracts s fun earlier => earlier.isMethod path = true ∨
      earlier.reflection = true ∧ path ∈ reflectionMethods

theorem reachable_declared (h : (system contracts).Reachable s) : Declared contracts s := by
  have hinitial : Declared contracts (system (V := V) contracts).initial := ⟨nofun, nofun⟩
  refine h.induction (P := Declared contracts) hinitial ?_
  intro u call v hu hdeclared hstep
  have hscopes := fun path scopes h => (hdeclared.scopes path scopes h).tail hstep
  have hcallers := fun path names h => (hdeclared.callers path names h).tail hstep
  rcases step_cases hstep with rfl | heffect
  · exact hdeclared
  · cases heffect with
    | @required declared _ hmethod hnew =>
      refine ⟨fun path scopes hpath => ?_, hcallers⟩
      by_cases hsame : path = declared
      · exact ⟨u, hu, .single hstep, hsame ▸ hmethod⟩
      · rw [SortedMap.get_insert_ne _ hsame] at hpath
        exact hscopes path scopes hpath
    | @allowed declared _ _ hkind hnew hparse =>
      refine ⟨hscopes, fun path names hpath => ?_⟩
      by_cases hsame : path = declared
      · exact ⟨u, hu, .single hstep, hsame ▸ hkind⟩
      · rw [SortedMap.get_insert_ne _ hsame] at hpath
        exact hcallers path names hpath
    | described | added | reflected | authenticated => exact ⟨hscopes, hcallers⟩

end

/-- The registry with the reflection servers that were asked for and the contract of health. -/
def Services.attached (s : Services V) : Services V × Except Error Unit :=
  match (if s.reflection then s.attachReflection contracts else (s, .ok ())) with
  | (s, .error e) => (s, .error e)
  | (s, .ok ()) => s.learn contracts contracts.health

/-- The tables are as they were declared, and nothing that was added is lost. -/
structure Kept (s t : Services V) : Prop where
  scopes : t.scopes = s.scopes
  callers : t.callers = s.callers
  callerVerifier : t.callerVerifier = s.callerVerifier
  names : ∀ name, (s.names.get? name).isSome = true → (t.names.get? name).isSome = true

section

variable {contracts} {s t : Services V}

theorem Kept.trans {u : Services V} (h : Kept s t) (k : Kept t u) : Kept s u :=
  ⟨k.scopes.trans h.scopes, k.callers.trans h.callers, k.callerVerifier.trans h.callerVerifier,
    fun name hname => k.names name (h.names name hname)⟩

theorem learn_ok {encoded : Bytes} (h : s.learn contracts encoded = (t, .ok ())) : Kept s t := by
  unfold Services.learn at h
  split at h
  · cases h
  · cases h
    exact ⟨rfl, rfl, rfl, fun _ h => h⟩

theorem add_ok {name : String} (h : s.add name = (t, .ok ())) :
    Kept s t ∧ (t.names.get? name).isSome = true := by
  rcases add_cases s name with ⟨e, herror⟩ | ⟨hdescribed, hnew, hadd⟩
  · rw [herror] at h
    cases h
  · rw [hadd] at h
    cases h
    refine ⟨⟨rfl, rfl, rfl, fun other hother => ?_⟩, ?_⟩
    · obtain ⟨present, hpresent⟩ := Option.isSome_iff_exists.mp hother
      rw [get_insert_new hnew hpresent]
      rfl
    · rw [SortedMap.get_insert_self]
      rfl

theorem attach_reflection_ok (h : s.attachReflection contracts = (t, .ok ())) :
    Kept s t ∧ (t.names.get? reflectionService).isSome = true ∧
      (t.names.get? reflectionServiceAlpha).isSome = true := by
  unfold Services.attachReflection at h
  split at h
  · cases h
  · next first hfirst =>
    split at h
    · cases h
    · next second hsecond =>
      split at h
      · cases h
      · split at h
        · cases h
        · split at h
          · cases h
          · next third hthird =>
            have hlearned := (learn_ok hfirst).trans (learn_ok hsecond)
            obtain ⟨hkept, hservice⟩ := add_ok hthird
            obtain ⟨hlast, halpha⟩ := add_ok h
            exact ⟨(hlearned.trans hkept).trans hlast, hlast.names _ hservice, halpha⟩

theorem attached_ok (h : s.attached contracts = (t, .ok ())) :
    Kept s t ∧ (s.reflection = true → (t.names.get? reflectionService).isSome = true ∧
      (t.names.get? reflectionServiceAlpha).isSome = true) := by
  unfold Services.attached at h
  split at h
  · cases h
  · next u hattached =>
    have hhealth := learn_ok h
    by_cases hreflection : s.reflection = true
    · rw [if_pos hreflection] at hattached
      obtain ⟨hkept, hservice, halpha⟩ := attach_reflection_ok hattached
      exact ⟨hkept.trans hhealth, fun _ => ⟨hhealth.names _ hservice, hhealth.names _ halpha⟩⟩
    · rw [if_neg hreflection] at hattached
      cases hattached
      exact ⟨hhealth, fun h => absurd h hreflection⟩

theorem lists_path {service method : String} (h : s.Lists service method) :
    methodPath service method ∈ s.paths := by
  obtain ⟨hname, hmethod⟩ := h
  obtain ⟨present, hpresent⟩ := Option.isSome_iff_exists.mp hname
  exact List.mem_flatMap.mpr ⟨(service, present), SortedMap.get_some.mp hpresent,
    List.mem_map.mpr ⟨method, hmethod, rfl⟩⟩

theorem caller_admission_ok {admission : Option V × SortedMap String (List CallerName)}
    (h : s.callerAdmission = .ok admission) :
    admission = (s.callerVerifier, s.callers) ∧
      ((s.callerVerifier.isSome = true ∨ s.callers.entries ≠ []) →
        ∀ service method, s.Lists service method →
          (s.callers.get? (methodPath service method)).isSome = true) := by
  unfold Services.callerAdmission at h
  split at h
  · split at h
    · cases h
    · next hnone =>
      cases h
      refine ⟨rfl, fun _ service method hlists => ?_⟩
      have hrule := List.find?_eq_none.mp hnone _ (lists_path hlists)
      rw [Option.isSome_iff_ne_none]
      simpa using hrule
  · next hneither =>
    cases h
    refine ⟨rfl, fun hsome => absurd ?_ hneither⟩
    rcases hsome with hverifier | hrules
    · rw [hverifier, Bool.true_or]
    · simp [hrules]

end

end GrpcRegistry
