/-!
# Numbers of double precision

A finite number is a mantissa of at most 53 bits times a power of two. Decimals are rounded to the nearest
number, to the even one of two, and numbers are written with the fewest digits that read back.
-/

namespace SessionWarden

inductive Double where
  | finite (negative : Bool) (mantissa : Nat) (power : Int)
  | infinite (negative : Bool)
  | nan
deriving DecidableEq, Repr

namespace Double

def leastPower : Int := -1074

/-- The quotient of two numbers, rounded to the nearest integer and to the even one of two. -/
def divideToEven (n d : Nat) : Nat :=
  let q := n / d
  let r := 2 * (n % d)
  if r < d then q else if d < r then q + 1 else q + q % 2

/-- The number nearest to a whole number, the range aside. -/
def nearest (n : Nat) : Nat :=
  let unit := Nat.pow 2 (n.log2 - 52)
  divideToEven n unit * unit

/-- A mantissa of 54 bits at most, brought to 53; too large a power is infinite. -/
def ofMantissa (negative : Bool) (m : Nat) (power : Int) : Double :=
  let (m, power) := if m = Nat.pow 2 53 then (Nat.pow 2 52, power + 1) else (m, power)
  if 971 < power then infinite negative else finite negative m power

def ofFraction (negative : Bool) (n d : Nat) : Double :=
  let scaled (power : Int) : Nat × Nat :=
    (n * Nat.pow 2 (-power).toNat, d * Nat.pow 2 power.toNat)
  let power := max ((n.log2 : Int) - d.log2 - 53) leastPower
  let (a, b) := scaled power
  if a / b < Nat.pow 2 53 then ofMantissa negative (divideToEven a b) power
  else
    let (a, b) := scaled (power + 1)
    ofMantissa negative (divideToEven a b) (power + 1)

/-- The number nearest to some digits times a power of ten. -/
def ofDecimal (negative : Bool) (digits : Nat) (power : Int) : Double :=
  let magnitude := ((toString digits).length : Int) + power
  if digits = 0 ∨ magnitude < -400 then finite negative 0 0
  else if 400 < magnitude then infinite negative
  else ofFraction negative (digits * Nat.pow 10 power.toNat) (Nat.pow 10 (-power).toNat)

/-! ### Shortest digits -/

def quarters (count : Nat) (power : Int) : Nat × Nat :=
  (count * Nat.pow 2 (power - 2).toNat, Nat.pow 2 (2 - power).toNat)

/-- Whether a fraction is below a multiple of a power of ten. -/
def isBelow (x : Nat × Nat) (digits : Nat) (power : Int) : Bool :=
  Nat.blt (x.1 * Nat.pow 10 (-power).toNat) (x.2 * digits * Nat.pow 10 power.toNat)

def isEqual (x : Nat × Nat) (digits : Nat) (power : Int) : Bool :=
  x.1 * Nat.pow 10 (-power).toNat == x.2 * digits * Nat.pow 10 power.toNat

/-- The power of ten of the first digit of a positive fraction. -/
def leadingPower (x : Nat × Nat) : Int :=
  let candidates := (List.range 660).map fun (i : Nat) => (i : Int) - 340
  (candidates.find? fun p => isBelow x 1 (p + 1)).getD 0

/-- Digits and a power of ten: the shortest that read back as the number, and of those the nearest. -/
def shortest (m : Nat) (power : Int) : Nat × Int :=
  let value := quarters (4 * m) power
  let low := quarters (4 * m - if m = Nat.pow 2 52 ∧ leastPower < power then 1 else 2) power
  let high := quarters (4 * m + 2) power
  let inside (digits : Nat) (p : Int) : Bool :=
    (isBelow low digits p || (m % 2 == 0 && isEqual low digits p)) &&
      (!isBelow high digits p && (m % 2 == 0 || !isEqual high digits p))
  let lead := leadingPower value
  let attempt (count : Nat) : Option (Nat × Int) :=
    let p := lead + 1 - count
    let below := value.1 * Nat.pow 10 (-p).toNat / (value.2 * Nat.pow 10 p.toNat)
    match inside below p, inside (below + 1) p with
    | true, true =>
      -- twice the value against the sum of both candidates
      if isBelow (2 * value.1, value.2) (2 * below + 1) p then some (below, p) else some (below + 1, p)
    | true, false => some (below, p)
    | false, true => some (below + 1, p)
    | false, false => none
  (((List.range 17).map (· + 1)).findSome? attempt).getD (m, 0)

def positional (digits : Nat) (power : Int) : String :=
  let ds := (toString digits).toList
  if 0 ≤ power then String.ofList (ds ++ List.replicate power.toNat '0')
  else
    let places := power.natAbs
    let padded := List.replicate (places + 1 - ds.length) '0' ++ ds
    let whole := padded.take (padded.length - places)
    let fraction := ((padded.drop (padded.length - places)).reverse.dropWhile (· == '0')).reverse
    String.ofList (if fraction = [] then whole else whole ++ '.' :: fraction)

/-- The text of a number: the fewest digits that read back, without an exponent. -/
def toText : Double → String
  | nan => "NaN"
  | infinite negative => if negative then "-inf" else "inf"
  | finite negative m power =>
    let sign := if negative then "-" else ""
    if m = 0 then sign ++ "0"
    else
      let (digits, p) := shortest m power
      sign ++ positional digits p

/-! ### Integers -/

/-- The integer nearest to a number, a half away from zero, within bounds; no number is zero. -/
def toIntWithin (least most : Int) : Double → Int
  | nan => 0
  | infinite negative => if negative then least else most
  | finite negative m power =>
    let n := m * Nat.pow 2 power.toNat
    let d := Nat.pow 2 (-power).toNat
    let rounded : Int := ((2 * n + d) / (2 * d) : Nat)
    max least (min most (if negative then -rounded else rounded))

/-! ### Order and reading -/

/-- A whole number that orders the numbers; no number counts as zero. -/
def order : Double → Int
  | nan => 0
  | infinite negative => if negative then -(Nat.pow 2 2200 : Int) else (Nat.pow 2 2200 : Int)
  | finite negative m power =>
    let n : Int := (m * Nat.pow 2 (power - leastPower).toNat : Nat)
    if negative then -n else n

def word? (text : String) : Option Double :=
  let (negative, rest) := match text.toList with
    | '-' :: rest => (true, rest)
    | '+' :: rest => (false, rest)
    | rest => (false, rest)
  let word := String.ofList (rest.map Char.toLower)
  if word = "inf" ∨ word = "infinity" then some (infinite negative)
  else if word = "nan" then some nan
  else none

/-- Reads a decimal number: digits with a point somewhere, and perhaps an exponent. -/
def ofText? (text : String) : Option Double :=
  match word? text with
  | some x => some x
  | none =>
    let sign (cs : List Char) : Bool × List Char := match cs with
      | '-' :: rest => (true, rest)
      | '+' :: rest => (false, rest)
      | rest => (false, rest)
    let valueOf (ds : List Char) : Nat := ds.foldl (fun acc c => acc * 10 + (c.toNat - 48)) 0
    let (negative, rest) := sign text.toList
    let whole := rest.takeWhile Char.isDigit
    let rest := rest.dropWhile Char.isDigit
    let (places, rest) := match rest with
      | '.' :: rest => (rest.takeWhile Char.isDigit, rest.dropWhile Char.isDigit)
      | rest => ([], rest)
    if whole = [] ∧ places = [] then none
    else
      let digits := valueOf (whole ++ places)
      let shift : Int := places.length
      match rest with
      | [] => some (ofDecimal negative digits (-shift))
      | c :: rest =>
        let (below, ds) := sign rest
        if (c = 'e' ∨ c = 'E') ∧ ds ≠ [] ∧ ds.all Char.isDigit then
          let n : Int := valueOf ds
          some (ofDecimal negative digits ((if below then -n else n) - shift))
        else none

end Double

end SessionWarden
