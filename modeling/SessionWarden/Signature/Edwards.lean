import SessionWarden.Digest.Hmac
/-!
# Ed25519 signatures

The twisted Edwards curve `y² - x² = 1 + d x² y²` over the field of `2²⁵⁵ - 19` elements, with the signature
scheme of RFC 8032 on it. Points are added in extended coordinates.
-/

namespace SessionWarden.Edwards

def prime : Nat := 0x7fffffffffffffffffffffffffffffffffffffffffffffffffffffffffffffed

def order : Nat := 0x1000000000000000000000000000000014def9dea2f79cd65812631a5cf5d3ed

def coefficient : Nat := 0x52036cee2b6ffe738cc740797779e89800700a4d4141d8ab75eb4dca135978a3

def rootOfMinusOne : Nat := 0x2b8324804fc1df0b2b4d00993dfbd7a72f431806ad2fe478c4ee1b274a0ea0b0

/-- A point in extended coordinates: `x = X / Z`, `y = Y / Z`, `T = X Y / Z`. -/
structure Point where
  x : Nat
  y : Nat
  z : Nat
  t : Nat

def Point.ofCoordinates (x y : Nat) : Point := ⟨x, y, 1, x * y % prime⟩

def Point.zero : Point := ⟨0, 1, 1, 0⟩

def generator : Point := .ofCoordinates
  0x216936d3cd6e53fec0a4e231fdd6dc5c692cc7609525a7b2c9562d608f25d51a
  0x6666666666666666666666666666666666666666666666666666666666666658

/-- The sum of two points; the formula holds for all of them. -/
def Point.add (q r : Point) : Point :=
  let a := Modular.sub prime q.y q.x * Modular.sub prime r.y r.x % prime
  let b := (q.y + q.x) * (r.y + r.x) % prime
  let c := 2 * (q.t * coefficient % prime) * r.t % prime
  let d := 2 * q.z * r.z % prime
  let e := Modular.sub prime b a
  let f := Modular.sub prime d c
  let g := (d + c) % prime
  let h := (b + a) % prime
  ⟨e * f % prime, g * h % prime, f * g % prime, e * h % prime⟩

def Point.negate (q : Point) : Point :=
  ⟨Modular.sub prime 0 q.x, q.y, q.z, Modular.sub prime 0 q.t⟩

def Point.multiple (k : Nat) (q : Point) : Point :=
  (Modular.bits k).foldl (fun acc bit =>
    let twice := acc.add acc
    if bit then twice.add q else twice) .zero

/-- The 32 bytes of a point: its second coordinate, with the parity of the first in the top bit. -/
def Point.encode (q : Point) : Bytes :=
  let zi := Modular.inv prime q.z
  let x := q.x * zi % prime
  let y := q.y * zi % prime
  Bytes.ofNatLE 32 (y + x % 2 * Nat.pow 2 255)

/-- The first coordinate for a second one and a parity, if there is one. -/
def recoverX? (y parity : Nat) : Option Nat :=
  let y2 := y * y % prime
  let u := Modular.sub prime y2 1
  let v := (coefficient * y2 + 1) % prime
  let v3 := v * v % prime * v % prime
  let v7 := v3 * v3 % prime * v % prime
  let guess := u * v3 % prime * Modular.pow prime (u * v7 % prime) ((prime - 5) / 8) % prime
  let check := v * (guess * guess % prime) % prime
  let root :=
    if check = u then some guess
    else if check = Modular.sub prime 0 u then some (guess * rootOfMinusOne % prime)
    else none
  root.map fun x => if x % 2 = parity then x else (prime - x) % prime

/-- The point of 32 bytes; the second coordinate is taken modulo the size of the field. -/
def Point.decode? (b : Bytes) : Option Point :=
  if b.length ≠ 32 then none
  else
    let n := Bytes.toNatLE b
    let y := n % Nat.pow 2 255 % prime
    (recoverX? y (n / Nat.pow 2 255)).map fun x => .ofCoordinates x y

/-! ### Signatures -/

def digest (message : Bytes) : Nat := Bytes.toNatLE (Digest.sha512.hash message)

def secretScalar (seed : Bytes) : Nat :=
  let low := Bytes.toNatLE ((Digest.sha512.hash seed).take 32)
  Nat.pow 2 254 + low % Nat.pow 2 254 / 8 * 8

def publicKey (seed : Bytes) : Bytes := (Point.multiple (secretScalar seed) generator).encode

def sign (seed message : Bytes) : Bytes :=
  let a := secretScalar seed
  let r := digest ((Digest.sha512.hash seed).drop 32 ++ message) % order
  let point := (Point.multiple r generator).encode
  let k := digest (point ++ publicKey seed ++ message) % order
  point ++ Bytes.ofNatLE 32 ((r + k * a) % order)

/-- Whether a signature belongs to a message: the point it names must be the one computed from the rest. -/
def verify (key message signature : Bytes) : Bool :=
  let s := Bytes.toNatLE (signature.drop 32)
  if signature.length = 64 ∧ s < order then
    match Point.decode? key with
    | some a =>
      let k := digest (signature.take 32 ++ key ++ message) % order
      ((Point.multiple s generator).add (Point.multiple k a.negate)).encode == signature.take 32
    | none => false
  else false

end SessionWarden.Edwards
