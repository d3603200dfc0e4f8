/-!
# Socket addresses

An address is four numbers, or up to eight groups in brackets, and after it a colon and a number. Only whether a
text is an address is decided here.
-/

namespace SessionWarden

namespace SocketAddress

def digitValue? (base : Nat) (c : Char) : Option Nat :=
  let value := if c.isDigit then some (c.toNat - 48)
    else if 'a' ≤ c ∧ c ≤ 'f' then some (c.toNat - 87)
    else if 'A' ≤ c ∧ c ≤ 'F' then some (c.toNat - 55)
    else none
  value.filter fun n => n < base

/-- Passes over a number: at most so many digits, at most so great, and perhaps without a zero before other
digits. -/
def skipNumber? (base : Nat) (digits : Option Nat) (most : Nat) (zeros : Bool) (cs : List Char) :
    Option (List Char) :=
  let run := cs.takeWhile fun c => (digitValue? base c).isSome
  let value := run.foldl (fun acc c => acc * base + (digitValue? base c).getD 0) 0
  let isFitting := run ≠ [] ∧ (digits.all fun n => run.length ≤ n) ∧ value ≤ most
  if isFitting ∧ (zeros ∨ run.head? ≠ some '0' ∨ run.length = 1) then some (cs.drop run.length) else none

def skipChar? (c : Char) : List Char → Option (List Char)
  | d :: rest => if c = d then some rest else none
  | [] => none

def skipOctet? (cs : List Char) : Option (List Char) := skipNumber? 10 (some 3) 255 false cs

def skipQuad? (cs : List Char) : Option (List Char) := do
  let rest ← skipChar? '.' (← skipOctet? cs)
  let rest ← skipChar? '.' (← skipOctet? rest)
  let rest ← skipChar? '.' (← skipOctet? rest)
  skipOctet? rest

/-- Passes over groups with colons between them, of which there are at most `room` more; the last two may be
written as four numbers. Says how many groups there were, whether they ended in four numbers, and what is
left. -/
def skipGroups : Nat → Nat → List Char → Nat × Bool × List Char
  | 0, count, cs => (count, false, cs)
  | room + 1, count, cs =>
    let start := if count = 0 then some cs else skipChar? ':' cs
    match (if 0 < room then start.bind skipQuad? else none) with
    | some rest => (count + 2, true, rest)
    | none =>
      match start.bind (skipNumber? 16 (some 4) 65535 true) with
      | some rest => skipGroups room (count + 1) rest
      | none => (count, false, cs)

/-- Passes over eight groups; two colons stand for those that are left out, at least one. -/
def skipEight? (cs : List Char) : Option (List Char) :=
  match skipGroups 8 0 cs with
  | (8, _, rest) => some rest
  | (_, true, _) => none
  | (count, false, rest) => do
    let rest ← skipChar? ':' (← skipChar? ':' rest)
    return (skipGroups (7 - count) 0 rest).2.2

/-- Passes over a percent sign and the number of a scope, if they are there. -/
def skipScope (cs : List Char) : List Char :=
  ((skipChar? '%' cs).bind (skipNumber? 10 none 4294967295 true)).getD cs

/-- Whether a colon and the number of a service are all that is left. -/
def isService (cs : List Char) : Bool :=
  ((skipChar? ':' cs).bind (skipNumber? 10 none 65535 true)) == some []

/-- Whether a text is an address of four numbers with the number of a service. -/
def isShort (cs : List Char) : Bool := (skipQuad? cs).any isService

/-- Whether a text is an address of groups in brackets with the number of a service. -/
def isLong (cs : List Char) : Bool :=
  ((skipChar? '[' cs).bind skipEight?).any fun rest => (skipChar? ']' (skipScope rest)).any isService

def isValid (text : String) : Bool := isShort text.toList || isLong text.toList

end SocketAddress

end SessionWarden
