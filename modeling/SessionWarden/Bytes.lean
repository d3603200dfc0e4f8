/-!
# Byte strings and numbers

Messages, keys, digests and request bodies are byte strings, kept as lists so that a statement about
them is a statement about lists. The layer holds the two readings of a byte string as a number, its
reading as text in UTF-8, and the cutting of a byte string into groups. Signatures calculate with the
numbers, modulo another one.
-/

namespace SessionWarden

abbrev Bytes := List UInt8

namespace Bytes

/-! ### Text -/

def ofString (s : String) : Bytes := s.toUTF8.data.toList

/-- The text whose UTF-8 bytes are given, if they are well formed. -/
def toString? (b : Bytes) : Option String := String.fromUTF8? ⟨b.toArray⟩

theorem ofString_injective {s t : String} (h : ofString s = ofString t) : s = t := by
  have hd : s.toUTF8.data = t.toUTF8.data := Array.toList_inj.mp h
  have hb : s.toUTF8 = t.toUTF8 := by
    cases hs : s.toUTF8
    cases ht : t.toUTF8
    simp_all
  exact String.toByteArray_inj.mp hb

/-! ### Numbers -/

/-- The last `n` base-256 digits of a number, least significant first. -/
def ofNatLE : Nat → Nat → Bytes
  | 0, _ => []
  | n + 1, x => UInt8.ofNat x :: ofNatLE n (x / 256)

/-- The value of a byte string read with its least significant byte first. -/
def toNatLE : Bytes → Nat
  | [] => 0
  | b :: rest => b.toNat + 256 * toNatLE rest

/-- The last `n` base-256 digits of a number, most significant first. -/
def ofNatBE (n x : Nat) : Bytes := (ofNatLE n x).reverse

/-- The value of a byte string read with its most significant byte first. -/
def toNatBE (b : Bytes) : Nat := b.foldl (fun acc x => acc * 256 + x.toNat) 0

theorem length_ofNatLE (n x : Nat) : (ofNatLE n x).length = n := by
  induction n generalizing x with
  | zero => rfl
  | succ n ih => simp [ofNatLE, ih]

theorem length_ofNatBE (n x : Nat) : (ofNatBE n x).length = n := by
  simp [ofNatBE, length_ofNatLE]

/-! ### Groups -/

/-- Cuts a list into groups of `n` members; the last group may be shorter (`fuel` bounds the groups). -/
def groupsOf {α : Type} (n : Nat) : Nat → List α → List (List α)
  | _, [] => []
  | 0, _ => []
  | fuel + 1, xs => xs.take n :: groupsOf n fuel (xs.drop n)

/-- Cuts a list into groups of `n` members; the last group may be shorter. -/
def groups {α : Type} (n : Nat) (xs : List α) : List (List α) := groupsOf n xs.length xs

/-- Bytewise exclusive or of two strings, as long as the shorter one. -/
def xor (a b : Bytes) : Bytes := List.zipWith (· ^^^ ·) a b

end Bytes

/-! ### Arithmetic modulo a number -/

namespace Modular

def pow (m base exponent : Nat) : Nat :=
  if _h : exponent = 0 then 1 % m
  else
    let half := pow m (base * base % m) (exponent / 2)
    if exponent % 2 = 1 then half * base % m else half
termination_by exponent
decreasing_by omega

def sub (m a b : Nat) : Nat := (a + (m - b % m)) % m

/-- The inverse of a residue modulo a prime: by Fermat, the power that is two below the prime. -/
def inv (p a : Nat) : Nat := pow p (a % p) (p - 2)

def bits (n : Nat) : List Bool :=
  if _h : n = 0 then [] else bits (n / 2) ++ [n % 2 == 1]
termination_by n
decreasing_by omega

def bitLength (n : Nat) : Nat := if n = 0 then 0 else n.log2 + 1

end Modular

end SessionWarden
