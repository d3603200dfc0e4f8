import SessionWarden.Bytes
/-!
# Hexadecimal text

A byte is written as two lower-case digits; digits of either case are read.
-/

namespace SessionWarden.Hex

def digit (n : Nat) : Char :=
  if n < 10 then Char.ofNat (48 + n) else Char.ofNat (87 + n)

def digitValue? (c : Char) : Option Nat :=
  if '0' ≤ c ∧ c ≤ '9' then some (c.toNat - 48)
  else if 'a' ≤ c ∧ c ≤ 'f' then some (c.toNat - 87)
  else if 'A' ≤ c ∧ c ≤ 'F' then some (c.toNat - 55)
  else none

def byteDigits (b : UInt8) : List Char := [digit (b.toNat / 16), digit (b.toNat % 16)]

def encodeChars (b : Bytes) : List Char := b.flatMap byteDigits

/-- The text of a byte string, two digits to a byte. -/
def encode (b : Bytes) : String := String.ofList (encodeChars b)

/-- Reads pairs of digits; an odd count or any other character is refused. -/
def decodeChars : List Char → Option Bytes
  | [] => some []
  | [_] => none
  | hi :: lo :: rest => do
    let h ← digitValue? hi
    let l ← digitValue? lo
    let bytes ← decodeChars rest
    return UInt8.ofNat (16 * h + l) :: bytes

def decode (s : String) : Option Bytes := decodeChars s.toList

theorem length_encodeChars (b : Bytes) : (encodeChars b).length = 2 * b.length := by
  induction b with
  | nil => rfl
  | cons x xs ih =>
    simp only [encodeChars, List.flatMap_cons, List.length_append, List.length_cons] at ih ⊢
    simp only [byteDigits, List.length_cons, List.length_nil, ih]
    omega

theorem digitValue?_digit : ∀ n : Fin 16, digitValue? (digit n.val) = some n.val := by decide

theorem decodeChars_byteDigits (x : UInt8) (rest : List Char) :
    decodeChars (byteDigits x ++ rest) = (decodeChars rest).map (x :: ·) := by
  have hlt : x.toNat < 256 := x.toNat_lt
  have h1 := digitValue?_digit ⟨x.toNat / 16, by omega⟩
  have h2 := digitValue?_digit ⟨x.toNat % 16, by omega⟩
  have hval : UInt8.ofNat (16 * (x.toNat / 16) + x.toNat % 16) = x := by
    rw [Nat.div_add_mod]
    exact UInt8.ofNat_toNat
  simp only [byteDigits, List.cons_append, List.nil_append, decodeChars, h1, h2, bind, Option.bind,
    pure, hval]
  cases decodeChars rest <;> rfl

theorem decode_encode (b : Bytes) : decode (encode b) = some b := by
  simp only [decode, encode, String.toList_ofList]
  induction b with
  | nil => rfl
  | cons x xs ih =>
    show decodeChars (byteDigits x ++ encodeChars xs) = some (x :: xs)
    rw [decodeChars_byteDigits, ih]
    rfl

end SessionWarden.Hex
