import ServiceTemplate.JsonTree
import ServiceTemplate.Splitting
import ServiceTemplate.SortedMap
import ServiceTemplate.PairText
import Mathlib.Data.String.Basic

/-! Places in a JSON value: paths of member names and array positions, maps over the scalars that
know their place, and JSON Pointers. -/
namespace JsonPaths

open JsonText
open JsonTree
open PairText

inductive Step where
  | key (name : String)
  | index (i : ℕ)
  deriving DecidableEq, Repr

def child? : Json → Step → Option Json
  | .object members, .key name => SortedMap.lookup name members
  | .array items, .index i => items[i]?
  | _, _ => none

def at? (v : Json) : List Step → Option Json
  | [] => some v
  | step :: path => (child? v step).bind (at? · path)

theorem at_append (v : Json) (p q : List Step) : at? v (p ++ q) = (at? v p).bind (at? · q) := by
  induction p generalizing v with
  | nil => rfl
  | cons step p ih =>
    simp only [List.cons_append, at?]
    cases child? v step with
    | none => rfl
    | some w => exact ih w

mutual

/-- Rewrites each scalar with a function of its path; nothing else changes. -/
def mapScalars (f : List Step → Scalar → Scalar) : Json → Json
  | .scalar x => .scalar (f [] x)
  | .array items => .array (mapItems f 0 items)
  | .object members => .object (mapMembers f members)

def mapItems (f : List Step → Scalar → Scalar) : ℕ → List Json → List Json
  | _, [] => []
  | i, item :: items => mapScalars (fun p => f (.index i :: p)) item :: mapItems f (i + 1) items

def mapMembers (f : List Step → Scalar → Scalar) : List (String × Json) → List (String × Json)
  | [] => []
  | (name, value) :: members =>
    (name, mapScalars (fun p => f (.key name :: p)) value) :: mapMembers f members

end

variable {f g : List Step → Scalar → Scalar}

theorem map_members_eq (f : List Step → Scalar → Scalar) (members : List (String × Json)) :
    mapMembers f members =
      members.map fun m => (m.1, mapScalars (fun p => f (.key m.1 :: p)) m.2) := by
  induction members with
  | nil => simp [mapMembers]
  | cons member members ih => simp [mapMembers, ih]

theorem map_items_get (f : List Step → Scalar → Scalar) (items : List Json) (i j : ℕ) :
    (mapItems f i items)[j]? = items[j]?.map (mapScalars fun p => f (.index (i + j) :: p)) := by
  induction items generalizing i j with
  | nil => simp [mapItems]
  | cons item items ih =>
    cases j with
    | zero => simp [mapItems]
    | succ j =>
      have hindex : i + 1 + j = i + (j + 1) := by omega
      simp only [mapItems, List.getElem?_cons_succ, ih, hindex]

theorem map_scalars_id {v : Json} (h : ∀ p x, f p x = x) : mapScalars f v = v := by
  induction v using Json.induct generalizing f with
  | scalar x => rw [mapScalars, h]
  | array items ih =>
    rw [mapScalars]
    congr 1
    apply List.ext_getElem?
    intro j
    rw [map_items_get]
    cases hitem : items[j]? with
    | none => rfl
    | some item => exact congrArg some (ih item (List.mem_of_getElem? hitem) fun p x => h _ x)
  | object members ih =>
    rw [mapScalars, map_members_eq]
    congr 1
    refine (List.map_congr_left fun m hm => ?_).trans (List.map_id _)
    rw [ih m hm fun p x => h _ x]
    rfl

theorem map_items_id {items : List Json} {i : ℕ} (h : ∀ j p x, f (.index j :: p) x = x) :
    mapItems f i items = items := by
  apply List.ext_getElem?
  intro j
  rw [map_items_get]
  cases items[j]? with
  | none => rfl
  | some item => exact congrArg some (map_scalars_id (h (i + j)))

theorem map_members_id {members : List (String × Json)} (h : ∀ name p x, f (.key name :: p) x = x) :
    mapMembers f members = members := by
  rw [map_members_eq]
  refine (List.map_congr_left fun m _ => ?_).trans (List.map_id _)
  rw [map_scalars_id (h m.1)]
  rfl

theorem map_scalars_comp (v : Json) :
    mapScalars f (mapScalars g v) = mapScalars (fun p x => f p (g p x)) v := by
  induction v using Json.induct generalizing f g with
  | scalar x => simp only [mapScalars]
  | array items ih =>
    simp only [mapScalars, Json.array.injEq]
    apply List.ext_getElem?
    intro j
    simp only [map_items_get, Option.map_map]
    cases hitem : items[j]? with
    | none => rfl
    | some item => exact congrArg some (ih item (List.mem_of_getElem? hitem))
  | object members ih =>
    simp only [mapScalars, map_members_eq, List.map_map, Json.object.injEq]
    exact List.map_congr_left fun m hm => congrArg (Prod.mk m.1) (ih m hm)

theorem child_map_scalars (v : Json) (step : Step) :
    child? (mapScalars f v) step = (child? v step).map (mapScalars fun p => f (step :: p)) := by
  cases v with
  | scalar x => cases step <;> simp [mapScalars, child?]
  | array items =>
    cases step with
    | key name => simp [mapScalars, child?]
    | index i => simp only [mapScalars, child?, map_items_get, Nat.zero_add]
  | object members =>
    cases step with
    | key name =>
      simp only [mapScalars, child?, map_members_eq]
      exact SortedMap.lookup_map (fun key => mapScalars fun p => f (.key key :: p)) members
    | index i => simp [mapScalars, child?]

/-- Every place of the value is a place of the result, with the scalars below it rewritten. -/
theorem at_map_scalars (v : Json) (p : List Step) :
    at? (mapScalars f v) p = (at? v p).map (mapScalars fun q => f (p ++ q)) := by
  induction p generalizing v f with
  | nil => rfl
  | cons step p ih =>
    simp only [at?, child_map_scalars]
    cases child? v step with
    | none => rfl
    | some w => exact ih w

def escapeToken (name : List Char) : List Char :=
  replaceOne '/' ['~', '1'] (replaceOne '~' ['~', '0'] name)

def unescapeToken (token : List Char) : List Char :=
  replacePair '~' '0' '~' (replacePair '~' '1' '/' token)

/-- The reference tokens of a pointer, which is empty or starts with a slash. -/
def tokens : List Char → Option (List (List Char))
  | [] => some []
  | '/' :: rest => some ((rest.splitOnP (· = '/')).map unescapeToken)
  | _ => none

/-- An array position without a sign and without leading zeros. -/
def parseIndex (token : List Char) : Option ℕ :=
  if token ≠ [] ∧ token.all Char.isDigit ∧ (token.head? = some '0' → token.length = 1) then
    let i := Nat.ofDigitChars 10 token 0
    if i < 2 ^ 64 then some i else none
  else none

def tokenChild? : Json → List Char → Option Json
  | .object members, token => SortedMap.lookup (String.ofList token) members
  | .array items, token => (parseIndex token).bind (items[·]?)
  | _, _ => none

def resolveTokens (v : Json) : List (List Char) → Option Json
  | [] => some v
  | token :: rest => (tokenChild? v token).bind (resolveTokens · rest)

def pointer? (v : Json) (text : List Char) : Option Json := (tokens text).bind (resolveTokens v)

/-- Nothing in the name reads as an escape or a separator. -/
def PlainName (name : List Char) : Prop :=
  '/' ∉ name ∧ ¬ ['~', '0'] <:+: name ∧ ¬ ['~', '1'] <:+: name

instance (name : List Char) : Decidable (PlainName name) := inferInstanceAs (Decidable (_ ∧ _ ∧ _))

theorem unescape_eq_self {token : List Char} :
    unescapeToken token = token ↔ ¬ ['~', '0'] <:+: token ∧ ¬ ['~', '1'] <:+: token := by
  constructor
  · intro h
    have hslash : replacePair '~' '1' '/' token = token := by
      by_contra hne
      have hshort := replace_pair_length '~' '0' '~' (replacePair '~' '1' '/' token)
      have hless := replace_pair_shrinks hne
      have hlength := congrArg List.length h
      rw [unescapeToken] at hlength
      omega
    rw [unescapeToken, hslash] at h
    exact ⟨replace_pair_eq_self.mp h, replace_pair_eq_self.mp hslash⟩
  · rintro ⟨hzero, hone⟩
    rw [unescapeToken, replace_pair_eq_self.mpr hone, replace_pair_eq_self.mpr hzero]

theorem escape_cons (c : Char) (name : List Char) :
    escapeToken (c :: name) =
      (if c = '~' then ['~', '0'] else if c = '/' then ['~', '1'] else [c]) ++ escapeToken name := by
  by_cases htilde : c = '~'
  · subst htilde
    simp [escapeToken, replaceOne]
  · by_cases hslash : c = '/'
    · subst hslash
      simp [escapeToken, replaceOne]
    · simp [escapeToken, replaceOne, htilde, hslash]

theorem unescape_escape (name : List Char) : unescapeToken (escapeToken name) = name := by
  induction name with
  | nil => rfl
  | cons c name ih =>
    simp only [unescapeToken] at ih ⊢
    rw [escape_cons]
    by_cases htilde : c = '~'
    · subst htilde
      rw [if_pos rfl, List.cons_append, List.singleton_append,
        replace_pair_skip (by decide) (by decide), replacePair, if_pos ⟨rfl, rfl⟩, ih]
    · by_cases hslash : c = '/'
      · subst hslash
        rw [if_neg htilde, if_pos rfl, List.cons_append, List.singleton_append, replacePair,
          if_pos ⟨rfl, rfl⟩, replace_pair_cons (by decide), ih]
      · rw [if_neg htilde, if_neg hslash, List.singleton_append, replace_pair_cons htilde,
          replace_pair_cons htilde, ih]

theorem slash_escape (name : List Char) : '/' ∉ escapeToken name := by
  induction name with
  | nil => simp [escapeToken, replaceOne]
  | cons c name ih =>
    rw [escape_cons, List.mem_append, not_or]
    refine ⟨?_, ih⟩
    split
    · decide
    · split
      · decide
      · rename_i hne
        simpa using Ne.symm hne

theorem tokens_cons {token : List Char} (rest : List Char) (h : '/' ∉ token) :
    tokens ('/' :: (token ++ '/' :: rest)) =
      (tokens ('/' :: rest)).map (unescapeToken token :: ·) := by
  have hplain : ∀ c ∈ token, decide (c = '/') = false := by
    intro c hc
    exact decide_eq_false fun heq => h (heq ▸ hc)
  simp only [tokens, List.splitOnP_append_cons_of_forall_mem hplain '/' (by simp),
    List.map_cons, Option.map_some]

theorem tokens_singleton {name t : List Char} :
    tokens ('/' :: name) = some [t] ↔ '/' ∉ name ∧ unescapeToken name = t := by
  by_cases hslash : '/' ∈ name
  · obtain ⟨before, after, rfl⟩ := List.append_of_mem hslash
    have hbefore := List.length_pos_iff.mpr (List.splitOnP_ne_nil (· = '/') before)
    have hafter := List.length_pos_iff.mpr (List.splitOnP_ne_nil (· = '/') after)
    refine ⟨fun h => ?_, fun h => absurd hslash h.1⟩
    have hsplit : (before ++ '/' :: after).splitOnP (· = '/') =
        before.splitOnP (· = '/') ++ after.splitOnP (· = '/') :=
      List.splitOnP_append_cons before after (decide_eq_true rfl)
    have hlength := congrArg (Option.map List.length) h
    simp only [tokens, hsplit, Option.map_some, List.length_map, List.length_append,
      List.length_cons, List.length_nil, Option.some.injEq] at hlength
    omega
  · have hplain : ∀ c ∈ name, decide (c = '/') = false := by
      intro c hc
      exact decide_eq_false fun heq => hslash (heq ▸ hc)
    simp [tokens, List.splitOnP_eq_singleton hplain, hslash]

end JsonPaths
