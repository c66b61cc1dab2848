import ServiceTemplate.ByteFraming

/-! Standard padded base64. The decoder accepts canonical padding only: the pad is where it
must be and the unused bits are zero. -/
namespace Base64

open ByteFraming

def alphabet : List Char :=
  "ABCDEFGHIJKLMNOPQRSTUVWXYZabcdefghijklmnopqrstuvwxyz0123456789+/".toList

def digit (n : ℕ) : Char := alphabet.getD n 'A'

def value (c : Char) : Option ℕ := alphabet.findIdx? (· = c)

theorem value_digit {n : ℕ} (h : n < 64) : value (digit n) = some n := by
  have hall : ∀ m < 64, value (digit m) = some m := by decide
  exact hall n h

theorem digit_ne_pad {n : ℕ} (h : n < 64) : digit n ≠ '=' := by
  have hall : ∀ m < 64, digit m ≠ '=' := by decide +kernel
  exact hall n h

def encode : Bytes → List Char
  | a :: b :: c :: rest =>
    let n := a.toNat * 65536 + b.toNat * 256 + c.toNat
    digit (n / 262144) :: digit (n / 4096 % 64) :: digit (n / 64 % 64) :: digit (n % 64) ::
      encode rest
  | [a, b] =>
    let n := a.toNat * 65536 + b.toNat * 256
    [digit (n / 262144), digit (n / 4096 % 64), digit (n / 64 % 64), '=']
  | [a] =>
    let n := a.toNat * 65536
    [digit (n / 262144), digit (n / 4096 % 64), '=', '=']
  | [] => []

/-- The last group when it is padded: one or two bytes with zero bits below them. -/
def decodePadded (w x : ℕ) (third : Option ℕ) : Option Bytes :=
  match third with
  | none =>
    let n := w * 64 + x
    if n % 16 = 0 then some [UInt8.ofNat (n / 16)] else none
  | some y =>
    let n := w * 4096 + x * 64 + y
    if n % 4 = 0 then some [UInt8.ofNat (n / 1024), UInt8.ofNat (n / 4 % 256)] else none

def decode : List Char → Option Bytes
  | [] => some []
  | [w, x, '=', '='] => do decodePadded (← value w) (← value x) none
  | [w, x, y, '='] => do decodePadded (← value w) (← value x) (some (← value y))
  | w :: x :: y :: z :: rest => do
    let n := (← value w) * 262144 + (← value x) * 4096 + (← value y) * 64 + (← value z)
    let bytes ← decode rest
    pure (UInt8.ofNat (n / 65536) :: UInt8.ofNat (n / 256 % 256) :: UInt8.ofNat (n % 256) :: bytes)
  | _ => none

theorem decode_group {w x y z : Char} {a b c d : ℕ} (hz : z ≠ '=') (hw : value w = some a)
    (hx : value x = some b) (hy : value y = some c) (hd : value z = some d) (rest : List Char) :
    decode (w :: x :: y :: z :: rest) = (decode rest).map fun bytes =>
      UInt8.ofNat ((a * 262144 + b * 4096 + c * 64 + d) / 65536) ::
        UInt8.ofNat ((a * 262144 + b * 4096 + c * 64 + d) / 256 % 256) ::
        UInt8.ofNat ((a * 262144 + b * 4096 + c * 64 + d) % 256) :: bytes := by
  rw [decode]
  · simp only [hw, hx, hy, hd, Option.bind_eq_bind, Option.bind_some]
    cases decode rest <;> rfl
  · rintro rfl rfl -
    exact hz rfl
  · rintro rfl -
    exact hz rfl

theorem decode_three {w x y : Char} {a b c : ℕ} (hy : y ≠ '=') (ha : value w = some a)
    (hb : value x = some b) (hc : value y = some c) :
    decode [w, x, y, '='] = decodePadded a b (some c) := by
  rw [decode]
  · simp only [ha, hb, hc, Option.bind_eq_bind, Option.bind_some]
  · exact hy

theorem decode_two {w x : Char} {a b : ℕ} (ha : value w = some a) (hb : value x = some b) :
    decode [w, x, '=', '='] = decodePadded a b none := by
  simp only [decode, ha, hb, Option.bind_eq_bind, Option.bind_some]

theorem byte_of_nat {n : ℕ} {a : UInt8} (h : n = a.toNat) : UInt8.ofNat n = a := by
  rw [h, UInt8.ofNat_toNat]

theorem four_digits (n : ℕ) :
    n / 262144 * 262144 + n / 4096 % 64 * 4096 + n / 64 % 64 * 64 + n % 64 = n := by
  have hhigh : n / 4096 = n / 262144 * 64 + n / 4096 % 64 := by omega
  have hmiddle : n / 64 = n / 4096 * 64 + n / 64 % 64 := by omega
  omega

theorem three_digits (n : ℕ) :
    n / 262144 * 4096 + n / 4096 % 64 * 64 + n / 64 % 64 = n / 64 := by
  have hhigh : n / 4096 = n / 262144 * 64 + n / 4096 % 64 := by omega
  omega

theorem two_digits (n : ℕ) : n / 262144 * 64 + n / 4096 % 64 = n / 4096 := by
  omega

theorem decode_encode (bytes : Bytes) : decode (encode bytes) = some bytes := by
  induction bytes using encode.induct with
  | case1 a b c rest ih =>
    have ha := a.toNat_lt
    have hb := b.toNat_lt
    have hc := c.toNat_lt
    have hn : a.toNat * 65536 + b.toNat * 256 + c.toNat < 16777216 := by omega
    rw [encode, decode_group (digit_ne_pad (by omega)) (value_digit (by omega))
      (value_digit (by omega)) (value_digit (by omega)) (value_digit (by omega)), ih,
      Option.map_some, four_digits, byte_of_nat (a := a) (by omega),
      byte_of_nat (a := b) (by omega), byte_of_nat (a := c) (by omega)]
  | case2 a b =>
    have ha := a.toNat_lt
    have hb := b.toNat_lt
    have hn : a.toNat * 65536 + b.toNat * 256 < 16777216 := by omega
    have hlow : (a.toNat * 65536 + b.toNat * 256) / 64 % 4 = 0 := by omega
    rw [encode, decode_three (digit_ne_pad (by omega)) (value_digit (by omega))
      (value_digit (by omega)) (value_digit (by omega)), decodePadded, three_digits, if_pos hlow,
      byte_of_nat (a := a) (by omega), byte_of_nat (a := b) (by omega)]
  | case3 a =>
    have ha := a.toNat_lt
    have hlow : a.toNat * 65536 / 4096 % 16 = 0 := by omega
    rw [encode, decode_two (value_digit (by omega)) (value_digit (by omega)), decodePadded,
      two_digits, if_pos hlow, byte_of_nat (a := a) (by omega)]
  | case4 => rfl

theorem encode_length (bytes : Bytes) : (encode bytes).length = 4 * ((bytes.length + 2) / 3) := by
  induction bytes using encode.induct with
  | case1 a b c rest ih =>
    simp only [encode, List.length_cons, ih]
    omega
  | case2 | case3 | case4 => simp [encode]

theorem digit_mem (n : ℕ) : digit n ∈ alphabet := by
  rw [digit, List.getD_eq_getElem?_getD]
  cases h : alphabet[n]? with
  | none => decide
  | some c => exact List.mem_of_getElem? h

theorem encode_mem {bytes : Bytes} {c : Char} (h : c ∈ encode bytes) : c ∈ '=' :: alphabet := by
  have hdigit : ∀ n, digit n ∈ '=' :: alphabet := fun n => List.mem_cons_of_mem _ (digit_mem n)
  have hpad : '=' ∈ '=' :: alphabet := List.mem_cons_self
  induction bytes using encode.induct with
  | case1 a b c' rest ih =>
    simp only [encode, List.mem_cons] at h
    rcases h with rfl | rfl | rfl | rfl | h
    · exact hdigit _
    · exact hdigit _
    · exact hdigit _
    · exact hdigit _
    · exact ih h
  | case2 a b =>
    simp only [encode, List.mem_cons, List.not_mem_nil, or_false] at h
    rcases h with rfl | rfl | rfl | rfl
    · exact hdigit _
    · exact hdigit _
    · exact hdigit _
    · exact hpad
  | case3 a =>
    simp only [encode, List.mem_cons, List.not_mem_nil, or_false] at h
    rcases h with rfl | rfl | rfl | rfl
    · exact hdigit _
    · exact hdigit _
    · exact hpad
    · exact hpad
  | case4 => simp [encode] at h

def urlChar (c : Char) : Char := if c = '+' then '-' else if c = '/' then '_' else c

def standardChar (c : Char) : Char := if c = '-' then '+' else if c = '_' then '/' else c

def encodeUrl (bytes : Bytes) : List Char := ((encode bytes).filter (· ≠ '=')).map urlChar

def pad : List Char → List Char
  | w :: x :: y :: z :: rest => w :: x :: y :: z :: pad rest
  | [w, x, y] => [w, x, y, '=']
  | [w, x] => [w, x, '=', '=']
  | text => text

def decodeUrl (text : List Char) : Option Bytes := decode (pad (text.map standardChar))

theorem pad_encode (bytes : Bytes) : pad ((encode bytes).filter (· ≠ '=')) = encode bytes := by
  have hdigit : ∀ n, digit n ≠ '=' := by
    intro n heq
    have hmem := digit_mem n
    rw [heq] at hmem
    exact absurd hmem (by decide)
  induction bytes using encode.induct with
  | case1 a b c rest ih =>
    simp only [encode, List.filter_cons, hdigit, ne_eq, not_false_eq_true, decide_true, if_true, pad]
    rw [ih]
  | case2 a b => simp [encode, hdigit, pad]
  | case3 a => simp [encode, hdigit, pad]
  | case4 => rfl

theorem decode_encode_url (bytes : Bytes) : decodeUrl (encodeUrl bytes) = some bytes := by
  have hback : ∀ c ∈ '=' :: alphabet, standardChar (urlChar c) = c := by decide
  have hmap : (encodeUrl bytes).map standardChar = (encode bytes).filter (· ≠ '=') := by
    rw [encodeUrl, List.map_map]
    conv_rhs => rw [← List.map_id ((encode bytes).filter (· ≠ '='))]
    apply List.map_congr_left
    intro c hc
    exact hback c (encode_mem (List.mem_of_mem_filter hc))
  rw [decodeUrl, hmap, pad_encode, decode_encode]

theorem encode_url_mem {bytes : Bytes} {c : Char} (h : c ∈ encodeUrl bytes) :
    c ∈ alphabet.map urlChar := by
  obtain ⟨d, hd, rfl⟩ := List.mem_map.mp h
  obtain ⟨hmem, hpad⟩ := List.mem_filter.mp hd
  have hne : d ≠ '=' := of_decide_eq_true hpad
  exact List.mem_map_of_mem ((List.mem_cons.mp (encode_mem hmem)).resolve_left hne)

end Base64
