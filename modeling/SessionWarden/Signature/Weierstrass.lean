import SessionWarden.Digest.Hmac
/-!
# Elliptic curves and ECDSA

The two curves in use, `y² = x³ - 3x + b` over a prime field, with the signature scheme on them. Points are
added in Jacobian coordinates and read and written in the SEC 1 forms.
-/

namespace SessionWarden.Weierstrass

open Digest (HashSize)

structure Curve where
  bits : Nat
  prime : Nat
  b : Nat
  order : Nat
  generatorX : Nat
  generatorY : Nat
deriving DecidableEq

def p256 : Curve where
  bits := 256
  prime := 0xffffffff00000001000000000000000000000000ffffffffffffffffffffffff
  b := 0x5ac635d8aa3a93e7b3ebbd55769886bc651d06b0cc53b0f63bce3c3e27d2604b
  order := 0xffffffff00000000ffffffffffffffffbce6faada7179e84f3b9cac2fc632551
  generatorX := 0x6b17d1f2e12c4247f8bce6e563a440f277037d812deb33a0f4a13945d898c296
  generatorY := 0x4fe342e2fe1a7f9b8ee7eb4a7c0f9e162bce33576b315ececbb6406837bf51f5

def p384 : Curve where
  bits := 384
  prime := 0xfffffffffffffffffffffffffffffffffffffffffffffffffffffffffffffffeffffffff0000000000000000ffffffff
  b := 0xb3312fa7e23ee7e4988e056be3f82d19181d9c6efe8141120314088f5013875ac656398d8a2ed19d2a85c8edd3ec2aef
  order := 0xffffffffffffffffffffffffffffffffffffffffffffffffc7634d81f4372ddf581a0db248b0a77aecec196accc52973
  generatorX := 0xaa87ca22be8b05378eb1c71ef320ad746e1d3b628ba79b9859f741e082542a385502f25dbf55296c3a545e3872760ab7
  generatorY := 0x3617de4a96262c6f5d9e98bf9292dc29f8f41dbd289a147ce9da3113b5f0b8c00a60b1ce1d7e819d7a431d7c90ea0e5f

def Curve.byteLength (c : Curve) : Nat := c.bits / 8

structure Point where
  x : Nat
  y : Nat
deriving DecidableEq, Repr

def Curve.contains (c : Curve) (q : Point) : Bool :=
  Nat.blt q.x c.prime && Nat.blt q.y c.prime &&
    q.y * q.y % c.prime == Modular.sub c.prime (q.x * q.x * q.x + c.b) (3 * q.x)

def Curve.generator (c : Curve) : Point := ⟨c.generatorX, c.generatorY⟩

/-! ### Addition -/

/-- A point in Jacobian coordinates; the point at infinity has the third coordinate zero. -/
structure Jacobian where
  x : Nat
  y : Nat
  z : Nat

def Jacobian.infinity : Jacobian := ⟨1, 1, 0⟩

def Point.toJacobian (q : Point) : Jacobian := ⟨q.x, q.y, 1⟩

def Curve.double (c : Curve) (q : Jacobian) : Jacobian :=
  let p := c.prime
  let delta := q.z * q.z % p
  let gamma := q.y * q.y % p
  let beta := q.x * gamma % p
  let alpha := 3 * (Modular.sub p q.x delta * (q.x + delta)) % p
  let x := Modular.sub p (alpha * alpha) (8 * beta)
  let z := Modular.sub p ((q.y + q.z) * (q.y + q.z)) (gamma + delta)
  let y := Modular.sub p (alpha * Modular.sub p (4 * beta) x) (8 * (gamma * gamma % p))
  ⟨x, y, z⟩

def Curve.add (c : Curve) (q r : Jacobian) : Jacobian :=
  let p := c.prime
  if q.z = 0 then r
  else if r.z = 0 then q
  else
    let qz2 := q.z * q.z % p
    let rz2 := r.z * r.z % p
    let u1 := q.x * rz2 % p
    let u2 := r.x * qz2 % p
    let s1 := q.y * rz2 % p * r.z % p
    let s2 := r.y * qz2 % p * q.z % p
    if u1 = u2 then
      if s1 = s2 then c.double q else .infinity
    else
      let h := Modular.sub p u2 u1
      let w := Modular.sub p s2 s1
      let h2 := h * h % p
      let h3 := h2 * h % p
      let v := u1 * h2 % p
      let x := Modular.sub p (w * w) (h3 + 2 * v)
      let y := Modular.sub p (w * Modular.sub p v x) (s1 * h3)
      ⟨x, y, q.z * r.z % p * h % p⟩

def Curve.multiple (c : Curve) (k : Nat) (q : Jacobian) : Jacobian :=
  (Modular.bits k).foldl (fun acc bit =>
    let twice := c.double acc
    if bit then c.add twice q else twice) .infinity

def Curve.toPoint? (c : Curve) (q : Jacobian) : Option Point :=
  if q.z % c.prime = 0 then none
  else
    let zi := Modular.inv c.prime q.z
    let zi2 := zi * zi % c.prime
    some ⟨q.x * zi2 % c.prime, q.y * zi2 % c.prime * zi % c.prime⟩

def Curve.publicPoint? (c : Curve) (d : Nat) : Option Point :=
  c.toPoint? (c.multiple d c.generator.toJacobian)

/-! ### Written points -/

/-- The point with a first coordinate and the parity of its second. -/
def Curve.lift? (c : Curve) (x : Nat) (odd : Bool) : Option Point :=
  let y := Modular.pow c.prime (Modular.sub c.prime (x * x * x + c.b) (3 * x)) ((c.prime + 1) / 4)
  let point : Point := ⟨x, if (y % 2 == 1) = odd then y else (c.prime - y) % c.prime⟩
  if c.contains point then some point else none

def Curve.readPlain? (c : Curve) : Bytes → Option Point
  | 0x04 :: rest =>
    let point : Point := ⟨Bytes.toNatBE (rest.take c.byteLength), Bytes.toNatBE (rest.drop c.byteLength)⟩
    if rest.length = 2 * c.byteLength ∧ c.contains point then some point else none
  | _ => none

/-- Reads a point in any form: with both coordinates, with the first and a parity, or with the first
alone, which stands for the smaller second coordinate. -/
def Curve.read? (c : Curve) : Bytes → Option Point
  | 0x04 :: rest => c.readPlain? (0x04 :: rest)
  | tag :: rest =>
    if rest.length ≠ c.byteLength then none
    else
      let x := Bytes.toNatBE rest
      if tag = 0x02 then c.lift? x false
      else if tag = 0x03 then c.lift? x true
      else if tag = 0x05 then
        (c.lift? x false).map fun q => ⟨q.x, min q.y (c.prime - q.y)⟩
      else none
  | [] => none

/-! ### Signatures -/

/-- The digest of a message as a number below the order of the curve. -/
def Curve.digest (c : Curve) (size : HashSize) (message : Bytes) : Nat :=
  Bytes.toNatBE ((size.toHash.hash message).take c.byteLength) % c.order

/-- A signature made with the given secret multiplier, if it is usable. -/
def Curve.signWith? (c : Curve) (d e k : Nat) : Option Bytes := do
  let q ← c.publicPoint? k
  let r := q.x % c.order
  let s := Modular.inv c.order k * ((e + r * d) % c.order) % c.order
  if r = 0 ∨ s = 0 then none
  else some (Bytes.ofNatBE c.byteLength r ++ Bytes.ofNatBE c.byteLength s)

/-- The signature of a message: the two numbers side by side. The secret multiplier is derived from the
key and the message; an unusable one gives way to the next. -/
def Curve.sign (c : Curve) (size : HashSize) (d : Nat) (message : Bytes) : Bytes :=
  let e := c.digest size message
  let attempt := fun (i : Nat) =>
    let secret := size.toHash.derive (Bytes.ofNatBE c.byteLength d)
      (Bytes.ofNatBE c.byteLength e ++ Bytes.ofNatBE 4 i) (c.byteLength + 8)
    c.signWith? d e (Bytes.toNatBE secret % (c.order - 1) + 1)
  ((List.range 8).findSome? attempt).getD []

def Curve.verify (c : Curve) (size : HashSize) (q : Point) (message signature : Bytes) : Bool :=
  let r := Bytes.toNatBE (signature.take c.byteLength)
  let s := Bytes.toNatBE (signature.drop c.byteLength)
  if signature.length = 2 * c.byteLength ∧ 0 < r ∧ r < c.order ∧ 0 < s ∧ s < c.order then
    let w := Modular.inv c.order s
    let u1 := c.digest size message * w % c.order
    let u2 := r * w % c.order
    let sum := c.add (c.multiple u1 c.generator.toJacobian) (c.multiple u2 q.toJacobian)
    match c.toPoint? sum with
    | some point => point.x % c.order == r
    | none => false
  else false

end SessionWarden.Weierstrass
