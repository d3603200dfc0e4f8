import SessionWarden.Bytes
/-!
# Base 64 text

Three bytes are written as four characters of six bits each. An alphabet and the rule on padding make
a variant; every variant refuses text that is not what its own writer would have produced.
-/

namespace SessionWarden.Base64

/-- Which two characters stand for 62 and 63, and whether the last group is filled up with `=`. -/
structure Variant where
  char62 : Char
  char63 : Char
  padded : Bool
deriving DecidableEq, Repr

/-- The alphabet with `+` and `/`, filled up. -/
def standard : Variant := ⟨'+', '/', true⟩

def standardBare : Variant := ⟨'+', '/', false⟩

/-- The alphabet that is safe in a URL, not filled up. -/
def urlBare : Variant := ⟨'-', '_', false⟩

/-! ### Six-bit groups -/

def Variant.char (v : Variant) (n : Nat) : Char :=
  if n < 26 then Char.ofNat (65 + n)
  else if n < 52 then Char.ofNat (71 + n)
  else if n < 62 then Char.ofNat (n - 4)
  else if n = 62 then v.char62
  else v.char63

def Variant.value? (v : Variant) (c : Char) : Option Nat :=
  if 'A' ≤ c ∧ c ≤ 'Z' then some (c.toNat - 65)
  else if 'a' ≤ c ∧ c ≤ 'z' then some (c.toNat - 71)
  else if '0' ≤ c ∧ c ≤ '9' then some (c.toNat + 4)
  else if c = v.char62 then some 62
  else if c = v.char63 then some 63
  else none

/-! ### Writing -/

def Variant.fill (v : Variant) (n : Nat) : List Char :=
  if v.padded then List.replicate n '=' else []

def Variant.encodeChars (v : Variant) : Bytes → List Char
  | a :: b :: c :: rest =>
    let n := (a.toNat * 256 + b.toNat) * 256 + c.toNat
    v.char (n / 262144) :: v.char (n / 4096 % 64) :: v.char (n / 64 % 64) :: v.char (n % 64) ::
      v.encodeChars rest
  | [a, b] =>
    let n := (a.toNat * 256 + b.toNat) * 4
    v.char (n / 4096) :: v.char (n / 64 % 64) :: v.char (n % 64) :: v.fill 1
  | [a] =>
    let n := a.toNat * 16
    v.char (n / 64) :: v.char (n % 64) :: v.fill 2
  | [] => []

def Variant.encode (v : Variant) (b : Bytes) : String := String.ofList (v.encodeChars b)

/-! ### Reading -/

/-- Takes the fill off a text: a filled-up text has a multiple of four characters and one or two `=`
at most, both at its end. -/
def Variant.unfill? (v : Variant) (cs : List Char) : Option (List Char) :=
  if v.padded then
    if cs.length % 4 ≠ 0 then none
    else match cs.reverse with
      | '=' :: '=' :: rest => some rest.reverse
      | '=' :: rest => some rest.reverse
      | _ => some cs
  else some cs

/-- Reads six-bit values, four to three bytes; the unused bits of a shorter last group are zero. -/
def ofSixes : List Nat → Option Bytes
  | a :: b :: c :: d :: rest => do
    let n := ((a * 64 + b) * 64 + c) * 64 + d
    let bytes ← ofSixes rest
    return UInt8.ofNat (n / 65536) :: UInt8.ofNat (n / 256) :: UInt8.ofNat n :: bytes
  | [a, b, c] =>
    let n := (a * 64 + b) * 64 + c
    if n % 4 = 0 then some [UInt8.ofNat (n / 1024), UInt8.ofNat (n / 4)] else none
  | [a, b] =>
    let n := a * 64 + b
    if n % 16 = 0 then some [UInt8.ofNat (n / 16)] else none
  | [_] => none
  | [] => some []

/-- The bytes of a text, refusing characters outside the alphabet, a wrong fill and unused bits that
are not zero. -/
def Variant.decodeChars (v : Variant) (cs : List Char) : Option Bytes := do
  let bare ← v.unfill? cs
  ofSixes (← bare.mapM v.value?)

def Variant.decode (v : Variant) (s : String) : Option Bytes := v.decodeChars s.toList

end SessionWarden.Base64
