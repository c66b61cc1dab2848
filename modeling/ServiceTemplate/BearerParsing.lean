import ServiceTemplate.ServiceTokenSource
import ServiceTemplate.BearerClaims
import Mathlib.Data.List.DropRight

/-! The two parsers of a bearer credential, one for each listener, and the grammar they share:
the scheme without regard to case, one or more spaces and a `b64token`. -/
namespace BearerParsing

open ByteFraming
open Utf8Text
open ServiceTokens (Reason)
open ServiceTokenSource (bearer asciiAlnum tchar b64token toAsciiLowerByte)
open BearerClaims (Failure)

def isTchar (byte : UInt8) : Bool := tchar byte

def paddingOf (token : Bytes) : ℕ := (token.reverse.takeWhile (· = 61)).length

/-- The class check is a fold without an early exit. -/
def validToken (token : Bytes) : Bool :=
  let value := token.take (token.length - paddingOf token)
  value ≠ [] && value.foldl (fun valid byte => valid && (asciiAlnum byte || byte = 45 ||
    byte = 46 || byte = 95 || byte = 126 || byte = 43 || byte = 47)) true

def parseBearer (headers : List Bytes) : Except Failure String :=
  match headers with
  | [] => .error .missing
  | _ :: _ :: _ => .error .malformed
  | [header] =>
    let separator := header.findIdx (· = 32)
    let scheme := header.take separator
    if scheme = [] || !scheme.all isTchar then .error .malformed
    else if scheme.map toAsciiLowerByte ≠ (asBytes "Bearer").map toAsciiLowerByte then
      .error .missing
    else
      let rest := header.drop separator
      let start := rest.findIdx (· ≠ 32)
      let credentials := rest.drop start
      if !validToken credentials then .error .malformed
      else
        match fromUtf8 credentials with
        | some text => .ok text
        | none => .error .malformed

/-- One or more characters of the alphabet, then any number of `=`. -/
def B64Token (token : Bytes) : Prop :=
  ∃ body pad, token = body ++ List.replicate pad 61 ∧ body ≠ [] ∧ body.all b64token = true

def Credential (value token : Bytes) : Prop :=
  ∃ scheme spaces, value = scheme ++ List.replicate (spaces + 1) 32 ++ token ∧
    scheme.map toAsciiLowerByte = asBytes "bearer" ∧ B64Token token

theorem take_find_space (value : Bytes) :
    value.take (value.findIdx (· = 32)) = value.takeWhile (· ≠ 32) := by
  rw [List.takeWhile_eq_take_findIdx_not]
  congr 2
  funext byte
  simp

theorem drop_find_space (value : Bytes) :
    value.drop (value.findIdx (· = 32)) = value.dropWhile (· ≠ 32) := by
  rw [List.dropWhile_eq_drop_findIdx_not]
  congr 2
  funext byte
  simp

theorem drop_find_word (rest : Bytes) :
    rest.drop (rest.findIdx (· ≠ 32)) = rest.dropWhile (· = 32) := by
  rw [List.dropWhile_eq_drop_findIdx_not]
  congr 2
  funext byte
  simp

def bodyOf (token : Bytes) : Bytes := token.rdropWhile (· = 61)

theorem body_append_padding (token : Bytes) :
    token = bodyOf token ++ List.replicate (paddingOf token) 61 := by
  have hpad : token.rtakeWhile (· = 61) = List.replicate (paddingOf token) 61 := by
    rw [List.eq_replicate_iff]
    constructor
    · simp [paddingOf, List.rtakeWhile]
    · intro byte hbyte
      simpa using List.mem_rtakeWhile_imp hbyte
  rw [← hpad, bodyOf, List.rdropWhile_append_rtakeWhile]

theorem padding_length (token : Bytes) :
    (bodyOf token).length + paddingOf token = token.length := by
  have h := congrArg List.length (body_append_padding token)
  rw [List.length_append, List.length_replicate] at h
  exact h.symm

theorem take_body (token : Bytes) :
    token.take (token.length - paddingOf token) = bodyOf token := by
  have hlength := padding_length token
  have hprefix : bodyOf token <+: token := List.rdropWhile_prefix _ _
  rw [show token.length - paddingOf token = (bodyOf token).length by omega]
  exact (List.prefix_iff_eq_take.mp hprefix).symm

theorem pad_outside : b64token 61 = false := by decide

theorem body_of_append {body : Bytes} (h : body.all b64token = true) (pad : ℕ) :
    bodyOf (body ++ List.replicate pad 61) = body := by
  induction pad with
  | zero =>
    rw [List.replicate_zero, List.append_nil, bodyOf, List.rdropWhile_eq_self_iff]
    intro hne hlast
    have hbyte := List.all_eq_true.mp h _ (List.getLast_mem hne)
    rw [of_decide_eq_true hlast, pad_outside] at hbyte
    cases hbyte
  | succ pad ih =>
    rw [List.replicate_succ', ← List.append_assoc, bodyOf, List.rdropWhile_concat_pos _ _ _ (by rfl)]
    exact ih

theorem b64_token_iff {token : Bytes} :
    B64Token token ↔ bodyOf token ≠ [] ∧ (bodyOf token).all b64token = true := by
  constructor
  · rintro ⟨body, pad, rfl, hne, hbody⟩
    rw [body_of_append hbody]
    exact ⟨hne, hbody⟩
  · rintro ⟨hne, hbody⟩
    exact ⟨bodyOf token, paddingOf token, body_append_padding token, hne, hbody⟩

instance (token : Bytes) : Decidable (B64Token token) := decidable_of_iff' _ b64_token_iff

theorem b64token_eq (byte : UInt8) : (asciiAlnum byte || byte = 45 || byte = 46 || byte = 95 ||
    byte = 126 || byte = 43 || byte = 47) = b64token byte := by
  have hbytes : asBytes "-._~+/" = [45, 46, 95, 126, 43, 47] := by decide
  simp [b64token, hbytes, Bool.or_assoc]

theorem fold_and (f : UInt8 → Bool) (start : Bool) (bytes : Bytes) :
    bytes.foldl (fun valid byte => valid && f byte) start = (start && bytes.all f) := by
  induction bytes generalizing start with
  | nil => simp
  | cons byte bytes ih => rw [List.foldl_cons, ih, List.all_cons, Bool.and_assoc]

theorem valid_token_iff {token : Bytes} : validToken token = true ↔ B64Token token := by
  simp only [validToken, take_body, b64token_eq, b64_token_iff]
  rw [fold_and]
  simp

theorem token_refused_iff {token : Bytes} :
    (token.length = paddingOf token || !(token.take (token.length - paddingOf token)).all b64token)
      = true ↔ ¬ B64Token token := by
  have hlength := padding_length token
  have hempty : token.length = paddingOf token ↔ bodyOf token = [] := by
    rw [← List.length_eq_zero_iff]
    omega
  rw [take_body, b64_token_iff]
  simp only [Bool.or_eq_true, decide_eq_true_eq, hempty, Bool.not_eq_true', ne_eq, not_and,
    Bool.not_eq_true]
  tauto

/-- What both parsers make of one value. -/
def judge (value : Bytes) : Except Failure Bytes :=
  let scheme := value.takeWhile (· ≠ 32)
  let token := (value.dropWhile (· ≠ 32)).dropWhile (· = 32)
  if scheme = [] || !scheme.all tchar then .error .malformed
  else if scheme.map toAsciiLowerByte ≠ asBytes "bearer" then .error .missing
  else if B64Token token then .ok token
  else .error .malformed

def judgeAll : List Bytes → Except Failure Bytes
  | [] => .error .missing
  | [value] => judge value
  | _ => .error .malformed

def reasonOf : Failure → Reason
  | .missing => .missing
  | _ => .malformed

theorem bearer_eq (values : List Bytes) :
    bearer values = match judgeAll values with
      | .ok token => .ok token
      | .error failure => .error (reasonOf failure) := by
  match values with
  | [] => rfl
  | _ :: _ :: _ => rfl
  | [value] =>
    simp only [bearer, judgeAll, judge]
    split
    · rfl
    · split
      · rfl
      · by_cases htoken : B64Token ((value.dropWhile (· ≠ 32)).dropWhile (· = 32))
        · have haccepted := mt token_refused_iff.mp (not_not.mpr htoken)
          rw [paddingOf] at haccepted
          rw [if_neg haccepted, if_pos htoken]
        · have hrefused := token_refused_iff.mpr htoken
          rw [paddingOf] at hrefused
          rw [if_pos hrefused, if_neg htoken]
          rfl

theorem from_utf8_ascii {bytes : Bytes} (h : ∀ byte ∈ bytes, byte.toNat < 128) :
    ∃ text, fromUtf8 bytes = some text ∧ asBytes text = bytes := by
  have hall : ∀ n < 128, (Char.ofNat n).toNat = n := by decide
  let text := String.ofList (bytes.map fun byte => Char.ofNat byte.toNat)
  have hascii : ∀ c ∈ text.toList, c.toNat < 128 := by
    intro c hc
    rw [String.toList_ofList] at hc
    obtain ⟨byte, hbyte, rfl⟩ := List.mem_map.mp hc
    rw [hall _ (h byte hbyte)]
    exact h byte hbyte
  have htext : asBytes text = bytes := by
    rw [as_bytes_ascii hascii, String.toList_ofList, List.map_map]
    refine (List.map_congr_left ?_).trans (List.map_id bytes)
    intro byte hbyte
    simp [hall _ (h byte hbyte)]
  exact ⟨text, htext ▸ from_utf8_as_bytes text, htext⟩

theorem token_ascii {token : Bytes} (h : B64Token token) : ∀ byte ∈ token, byte.toNat < 128 := by
  have hall : ∀ n < 256, b64token (UInt8.ofNat n) = true → n < 128 := by decide +kernel
  obtain ⟨body, pad, rfl, -, hbody⟩ := h
  intro byte hbyte
  rcases List.mem_append.mp hbyte with hbyte | hbyte
  · have hclass := List.all_eq_true.mp hbody byte hbyte
    rw [← UInt8.ofNat_toNat (x := byte)] at hclass
    exact hall byte.toNat byte.toNat_lt hclass
  · rw [(List.mem_replicate.mp hbyte).2]
    decide

/-- The second parser makes the same judgement; its text holds the token's bytes. -/
theorem parse_bearer_eq (values : List Bytes) :
    (parseBearer values).map asBytes = judgeAll values := by
  have hscheme : (asBytes "Bearer").map toAsciiLowerByte = asBytes "bearer" := by decide
  have htchar : isTchar = tchar := rfl
  match values with
  | [] => rfl
  | _ :: _ :: _ => rfl
  | [value] =>
    simp only [parseBearer, judgeAll, judge, take_find_space, drop_find_space, drop_find_word,
      hscheme, htchar]
    split
    · rfl
    · split
      · rfl
      · by_cases htoken : B64Token ((value.dropWhile (· ≠ 32)).dropWhile (· = 32))
        · obtain ⟨text, hdecoded, htext⟩ := from_utf8_ascii (token_ascii htoken)
          rw [valid_token_iff.mpr htoken, if_pos htoken, hdecoded]
          exact congrArg Except.ok htext
        · rw [Bool.eq_false_iff.mpr (mt valid_token_iff.mp htoken), if_neg htoken]
          rfl

theorem scheme_plain {scheme : Bytes} (h : scheme.map toAsciiLowerByte = asBytes "bearer") :
    scheme ≠ [] ∧ scheme.all tchar = true ∧ ∀ byte ∈ scheme, byte ≠ 32 := by
  have hbearer : asBytes "bearer" = [98, 101, 97, 114, 101, 114] := by decide
  have hall : ∀ n < 256, toAsciiLowerByte (UInt8.ofNat n) ∈ [98, 101, 97, 114, 101, 114] →
      tchar (UInt8.ofNat n) = true ∧ UInt8.ofNat n ≠ 32 := by
    decide +kernel
  rw [hbearer] at h
  have hbyte : ∀ byte ∈ scheme, tchar byte = true ∧ byte ≠ 32 := by
    intro byte hbyte
    have hmem : toAsciiLowerByte byte ∈ [98, 101, 97, 114, 101, 114] := by
      rw [← h]
      exact List.mem_map_of_mem hbyte
    rw [← UInt8.ofNat_toNat (x := byte)] at hmem ⊢
    exact hall byte.toNat byte.toNat_lt hmem
  refine ⟨?_, List.all_eq_true.mpr fun byte hmem => (hbyte byte hmem).1,
    fun byte hmem => (hbyte byte hmem).2⟩
  rintro rfl
  cases h

theorem token_head {token : Bytes} (h : B64Token token) : ∀ byte ∈ token.head?, byte ≠ 32 := by
  have hspace : b64token 32 = false := by decide
  obtain ⟨body, pad, rfl, hne, hbody⟩ := h
  obtain ⟨first, body, rfl⟩ := List.exists_cons_of_ne_nil hne
  rintro byte hhead rfl
  simp only [List.cons_append, List.head?_cons, Option.mem_def, Option.some.injEq] at hhead
  subst hhead
  rw [List.all_cons, hspace] at hbody
  cases hbody

theorem drop_spaces {token : Bytes} (h : B64Token token) (n : ℕ) :
    (List.replicate n 32 ++ token).dropWhile (· = 32) = token := by
  induction n with
  | zero =>
    cases token with
    | nil => rfl
    | cons byte token =>
      have hbyte : byte ≠ 32 := token_head h byte rfl
      simp [hbyte]
  | succ n ih => simpa [List.replicate_succ] using ih

theorem credential_parts {scheme token : Bytes} (spaces : ℕ)
    (hscheme : scheme.map toAsciiLowerByte = asBytes "bearer") (htoken : B64Token token) :
    (scheme ++ List.replicate (spaces + 1) 32 ++ token).takeWhile (· ≠ 32) = scheme ∧
      ((scheme ++ List.replicate (spaces + 1) 32 ++ token).dropWhile (· ≠ 32)).dropWhile (· = 32) =
        token := by
  obtain ⟨-, -, hplain⟩ := scheme_plain hscheme
  have hwords : ∀ byte ∈ scheme, decide (byte ≠ 32) = true := fun byte hbyte =>
    decide_eq_true (hplain byte hbyte)
  rw [List.append_assoc, List.takeWhile_append_of_pos hwords, List.dropWhile_append_of_pos hwords]
  constructor
  · simp [List.replicate_succ]
  · have hspaces := drop_spaces htoken (spaces + 1)
    simpa [List.replicate_succ] using hspaces

theorem judge_credential {value token : Bytes} (h : Credential value token) :
    judge value = .ok token := by
  obtain ⟨scheme, spaces, rfl, hscheme, htoken⟩ := h
  obtain ⟨htake, hdrop⟩ := credential_parts spaces hscheme htoken
  obtain ⟨hne, htchar, -⟩ := scheme_plain hscheme
  simp only [judge, htake, hdrop, htchar]
  simp [hne, hscheme, htoken]

/-- A separator is at least one space: the scheme ends at the first one. -/
theorem spaces_of_rest {rest : Bytes} (h : ∀ byte ∈ rest.head?, byte = 32)
    (htoken : B64Token (rest.dropWhile (· = 32))) :
    ∃ spaces, rest = List.replicate (spaces + 1) 32 ++ rest.dropWhile (· = 32) := by
  have hspaces : rest.takeWhile (· = 32) = List.replicate (rest.takeWhile (· = 32)).length 32 := by
    rw [List.eq_replicate_iff]
    refine ⟨rfl, ?_⟩
    intro byte hbyte
    simpa using List.mem_takeWhile_imp hbyte
  cases rest with
  | nil =>
    obtain ⟨body, pad, hempty, hne, -⟩ := htoken
    exact absurd (List.append_eq_nil_iff.mp hempty.symm).1 hne
  | cons first rest =>
    have hfirst : first = 32 := h first rfl
    subst hfirst
    refine ⟨(rest.takeWhile (· = 32)).length, ?_⟩
    conv_lhs => rw [← List.takeWhile_append_dropWhile (p := (· = 32)) (l := 32 :: rest)]
    rw [hspaces]
    simp

theorem credential_of_judge {value token : Bytes} (h : judge value = .ok token) :
    Credential value token := by
  simp only [judge] at h
  split at h
  · cases h
  · split at h
    · cases h
    · rename_i hscheme
      split at h
      · rename_i htoken
        cases h
        have hhead : ∀ byte ∈ (value.dropWhile (· ≠ 32)).head?, byte = 32 := by
          intro byte hbyte
          have hstop := List.head?_dropWhile_not (fun byte => decide (byte ≠ 32)) value
          rw [hbyte] at hstop
          simpa using hstop
        obtain ⟨spaces, hrest⟩ := spaces_of_rest hhead htoken
        refine ⟨value.takeWhile (· ≠ 32), spaces, ?_, not_not.mp hscheme, htoken⟩
        rw [List.append_assoc, ← hrest, List.takeWhile_append_dropWhile]
      · cases h

theorem judge_ok_iff {value token : Bytes} : judge value = .ok token ↔ Credential value token :=
  ⟨credential_of_judge, judge_credential⟩

theorem judge_all_ok_iff {values : List Bytes} {token : Bytes} :
    judgeAll values = .ok token ↔ ∃ value, values = [value] ∧ Credential value token := by
  match values with
  | [] => simp [judgeAll]
  | _ :: _ :: _ => simp [judgeAll]
  | [value] => simp [judgeAll, judge_ok_iff]

/-- Both listeners accept the same credentials and refuse with the same class. -/
inductive Agree : Except Reason Bytes → Except Failure String → Prop
  | accepted (text : String) : Agree (.ok (asBytes text)) (.ok text)
  | missing : Agree (.error .missing) (.error .missing)
  | malformed : Agree (.error .malformed) (.error .malformed)

theorem judge_refusal {values : List Bytes} {failure : Failure}
    (h : judgeAll values = .error failure) : failure = .missing ∨ failure = .malformed := by
  match values with
  | [] =>
    cases h
    exact .inl rfl
  | _ :: _ :: _ =>
    cases h
    exact .inr rfl
  | [value] =>
    simp only [judgeAll, judge] at h
    repeat' split at h
    all_goals cases h
    · exact .inr rfl
    · exact .inl rfl
    · exact .inr rfl

theorem bearers_agree (values : List Bytes) : Agree (bearer values) (parseBearer values) := by
  have hparsed := parse_bearer_eq values
  rw [bearer_eq]
  cases hjudged : judgeAll values with
  | ok token =>
    rw [hjudged] at hparsed
    cases htext : parseBearer values with
    | ok text =>
      rw [htext] at hparsed
      cases hparsed
      exact .accepted text
    | error failure =>
      rw [htext] at hparsed
      cases hparsed
  | error failure =>
    rw [hjudged] at hparsed
    cases htext : parseBearer values with
    | ok text =>
      rw [htext] at hparsed
      cases hparsed
    | error other =>
      rw [htext] at hparsed
      cases hparsed
      rcases judge_refusal hjudged with rfl | rfl
      · exact .missing
      · exact .malformed

/-- The two bearer parsers agree and accept exactly the grammar. -/
theorem bearers_parse_grammar (values : List Bytes) :
    Agree (bearer values) (parseBearer values) ∧
      ∀ token, bearer values = .ok token ↔ ∃ value, values = [value] ∧ Credential value token := by
  refine ⟨bearers_agree values, fun token => ?_⟩
  rw [bearer_eq, ← judge_all_ok_iff]
  cases judgeAll values with
  | ok judged => simp
  | error failure => simp

end BearerParsing
