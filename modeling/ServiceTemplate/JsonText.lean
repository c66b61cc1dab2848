import ServiceTemplate.ByteFraming
import ServiceTemplate.Splitting
import Mathlib.Tactic.IntervalCases

/-! String values in compact JSON text. A quoted string ends at its own closing quote, so
values that follow each other in one text can be told apart. -/
namespace JsonText

open ByteFraming

def hexDigit (n : ℕ) : Char := "0123456789abcdef".toList.getD n '0'

/-- Quotes, backslashes and the characters below 0x20 are escaped. -/
def escapeChar (c : Char) : List Char :=
  if c = '"' then ['\\', '"']
  else if c = '\\' then ['\\', '\\']
  else if c.toNat = 8 then ['\\', 'b']
  else if c.toNat = 9 then ['\\', 't']
  else if c.toNat = 10 then ['\\', 'n']
  else if c.toNat = 12 then ['\\', 'f']
  else if c.toNat = 13 then ['\\', 'r']
  else if c.toNat < 32 then ['\\', 'u', '0', '0', hexDigit (c.toNat / 16), hexDigit (c.toNat % 16)]
  else [c]

def quote (text : List Char) : List Char := '"' :: (text.flatMap escapeChar ++ ['"'])

def hexValue (c : Char) : ℕ := "0123456789abcdef".toList.findIdx (· = c)

/-- Reads the first character of an escaped text back. -/
def unescape : List Char → Option (Char × List Char)
  | '\\' :: 'u' :: _ :: _ :: high :: low :: rest =>
    some (Char.ofNat (16 * hexValue high + hexValue low), rest)
  | '\\' :: 'b' :: rest => some (Char.ofNat 8, rest)
  | '\\' :: 't' :: rest => some (Char.ofNat 9, rest)
  | '\\' :: 'n' :: rest => some (Char.ofNat 10, rest)
  | '\\' :: 'f' :: rest => some (Char.ofNat 12, rest)
  | '\\' :: 'r' :: rest => some (Char.ofNat 13, rest)
  | '\\' :: c :: rest => some (c, rest)
  | '"' :: _ => none
  | c :: rest => some (c, rest)
  | [] => none

theorem hex_digit_mem (n : ℕ) : hexDigit n ∈ "0123456789abcdef".toList := by
  rw [hexDigit, List.getD_eq_getElem?_getD]
  cases h : "0123456789abcdef".toList[n]? with
  | none => decide
  | some c => exact List.mem_of_getElem? h

theorem escape_char_ne_nil (c : Char) : escapeChar c ≠ [] := by
  unfold escapeChar
  repeat' split
  all_goals simp

theorem escape_char_plain {c : Char} (hcontrol : ¬ c.toNat < 32) (hquote : c ≠ '"')
    (hback : c ≠ '\\') : escapeChar c = [c] := by
  simp only [escapeChar, hquote, hback, if_false]
  rw [if_neg (by omega), if_neg (by omega), if_neg (by omega), if_neg (by omega),
    if_neg (by omega), if_neg hcontrol]

theorem unescape_control {n : ℕ} (h : n < 32) (rest : List Char) :
    unescape (escapeChar (Char.ofNat n) ++ rest) = some (Char.ofNat n, rest) := by
  interval_cases n <;> rfl

theorem unescape_escape (c : Char) (rest : List Char) :
    unescape (escapeChar c ++ rest) = some (c, rest) := by
  by_cases hcontrol : c.toNat < 32
  · have h := unescape_control hcontrol rest
    rwa [Char.ofNat_toNat] at h
  · by_cases hquote : c = '"'
    · subst hquote
      rfl
    · by_cases hback : c = '\\'
      · subst hback
        rfl
      · rw [escape_char_plain hcontrol hquote hback, List.singleton_append]
        simp [unescape, hback]

theorem quote_self_delimiting : SelfDelimiting fun text => some (quote text) := by
  rintro a b u v x y ⟨⟩ ⟨⟩ h
  simp only [quote, List.cons_append, List.append_assoc, List.cons.injEq, true_and,
    List.nil_append] at h
  exact codes_apart unescape_escape (fun _ => rfl) h

theorem quote_apart {a b r r' : List Char} (h : quote a ++ r = quote b ++ r') : a = b ∧ r = r' :=
  quote_self_delimiting (rfl : some (quote a) = some (quote a)) (rfl : some (quote b) = _) h

theorem to_digits_head {n : ℕ} (h : 0 < n) : (Nat.toDigits 10 n).head? ≠ some '0' := by
  induction n using Nat.strong_induction_on with
  | _ n ih =>
    rcases Nat.lt_or_ge n 10 with hlt | hge
    · rw [Nat.toDigits_of_lt_base hlt]
      interval_cases n <;> decide
    · rw [Nat.toDigits_of_base_le (by decide) hge, List.head?_append_of_ne_nil _ Nat.toDigits_ne_nil]
      exact ih (n / 10) (by omega) (by omega)

theorem to_digits_all (n : ℕ) : (Nat.toDigits 10 n).all Char.isDigit = true := by
  rw [List.all_eq_true]
  intro c hc
  exact Nat.isDigit_of_mem_toDigits (by decide) (by decide) hc

/-- A number ends at the first character that is no digit. -/
theorem decimal_apart {m n : ℕ} {stop : Char} (hstop : stop.isDigit = false) {r r' : List Char}
    (h : Nat.toDigits 10 m ++ stop :: r = Nat.toDigits 10 n ++ stop :: r') : m = n ∧ r = r' := by
  have hfree : ∀ k, stop ∉ Nat.toDigits 10 k := by
    intro k hmem
    have hdigit := List.all_eq_true.mp (to_digits_all k) stop hmem
    rw [hstop] at hdigit
    cases hdigit
  have hsplit := congrArg (Splitting.splitOnce stop) h
  rw [Splitting.split_once_append (hfree m), Splitting.split_once_append (hfree n),
    Option.some.injEq, Prod.mk.injEq] at hsplit
  obtain ⟨hdigits, hrest⟩ := hsplit
  have hvalue := congrArg (fun digits => Nat.ofDigitChars 10 digits 0) hdigits
  simp only [Nat.ofDigitChars_toDigits (show 1 < 10 by decide) (show 10 ≤ 10 by decide)] at hvalue
  exact ⟨hvalue, hrest⟩

def isExponent : List Char → Bool
  | [] => true
  | mark :: rest =>
    let digits := match rest with
      | '+' :: digits => digits
      | '-' :: digits => digits
      | digits => digits
    (mark = 'e' || mark = 'E') && digits ≠ [] && digits.all Char.isDigit

def isFraction : List Char → Bool
  | '.' :: rest => rest.takeWhile Char.isDigit ≠ [] && isExponent (rest.dropWhile Char.isDigit)
  | rest => isExponent rest

/-- An integer without leading zeros, with a fraction and an exponent or without. -/
def isUnsigned (text : List Char) : Bool :=
  let integer := text.takeWhile Char.isDigit
  integer ≠ [] && (integer = ['0'] || integer.head? ≠ some '0') &&
    isFraction (text.dropWhile Char.isDigit)

def isNumber : List Char → Bool
  | '-' :: rest => isUnsigned rest
  | text => isUnsigned text

theorem decimal_unsigned (n : ℕ) : isUnsigned (Nat.toDigits 10 n) = true := by
  have hall := to_digits_all n
  have htake : (Nat.toDigits 10 n).takeWhile Char.isDigit = Nat.toDigits 10 n := by
    simpa [List.takeWhile_eq_self_iff] using hall
  have hdrop : (Nat.toDigits 10 n).dropWhile Char.isDigit = [] := by
    simpa [List.dropWhile_eq_nil_iff] using hall
  simp only [isUnsigned, htake, hdrop]
  rcases Nat.eq_zero_or_pos n with rfl | hpos
  · decide
  · simp [Nat.toDigits_ne_nil, to_digits_head hpos, isFraction, isExponent]

theorem decimal_number (n : ℕ) : isNumber (Nat.toDigits 10 n) = true := by
  have hunsigned := decimal_unsigned n
  have hminus : ∀ rest, Nat.toDigits 10 n ≠ '-' :: rest := by
    intro rest heq
    have hall := to_digits_all n
    rw [heq] at hall
    simp at hall
  unfold isNumber
  split
  · rename_i rest heq
    exact absurd heq (hminus rest)
  · exact hunsigned

def decimal (n : ℤ) : List Char :=
  if n < 0 then '-' :: Nat.toDigits 10 n.natAbs else Nat.toDigits 10 n.natAbs

theorem decimal_is_number (n : ℤ) : isNumber (decimal n) = true := by
  unfold decimal
  split_ifs
  · exact decimal_unsigned n.natAbs
  · exact decimal_number n.natAbs

inductive Scalar where
  | null
  | bool (value : Bool)
  | number (token : List Char) (valid : isNumber token = true)
  | string (text : List Char)
  deriving DecidableEq

def Scalar.render : Scalar → List Char
  | .null => "null".toList
  | .bool true => "true".toList
  | .bool false => "false".toList
  | .number token _ => token
  | .string text => quote text

def renderMember (member : String × Scalar) : List Char :=
  quote member.1.toList ++ ':' :: member.2.render

def renderObject (members : List (String × Scalar)) : List Char :=
  '\x7b' :: ([','].intercalate (members.map renderMember) ++ ['\x7d'])

end JsonText
