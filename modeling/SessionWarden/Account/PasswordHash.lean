import SessionWarden.Base64
/-!
# Written password hashes

The string form of a password hash: after a `$` each, the algorithm, perhaps its version, perhaps parameters,
perhaps the salt and perhaps the hash itself. A string of another form is refused with the first fault in it.
-/

namespace SessionWarden

inductive ValueFault where
  | character (c : Char)
  | format
  | malformed
  | tooLong
  | tooShort
deriving DecidableEq, Repr

def ValueFault.message : ValueFault → String
  | .character c => "contains invalid character: '" ++ c.toString ++ "'"
  | .format => "value format is invalid"
  | .malformed => "value malformed"
  | .tooLong => "value to long"
  | .tooShort => "value to short"

inductive HashFault where
  | algorithm
  | encoding
  | encodedLength
  | outputTooShort
  | parameterName
  | parameterValue (fault : ValueFault)
  | tooManyParameters
  | missingField
  | trailingField
  | salt (fault : ValueFault)
  | version
deriving DecidableEq, Repr

def leastHashLength : Nat := 10

def HashFault.message : HashFault → String
  | .algorithm => "unsupported algorithm"
  | .encoding => "invalid Base64 encoding"
  | .encodedLength => "invalid Base64 length"
  | .outputTooShort => "output size too short, expected at least " ++ toString leastHashLength ++ " bytes"
  | .parameterName => "invalid parameter name"
  | .parameterValue fault => "invalid parameter value: " ++ fault.message
  | .tooManyParameters => "maximum number of parameters reached"
  | .missingField => "password hash string missing field"
  | .trailingField => "password hash string contains trailing characters"
  | .salt fault => "salt invalid: " ++ fault.message
  | .version => "invalid algorithm version"

structure PasswordHash where
  algorithm : String
  version : Option Nat
  parameters : List (String × String)
  salt : Option String
  hash : Option Bytes
deriving DecidableEq, Repr

namespace PasswordHash

/-! ### Names and values -/

/-- Reads a name: one to 32 lower-case letters, digits and hyphens. -/
def readName (cs : List Char) : Except HashFault String :=
  let isNameChar (c : Char) : Bool := c.isLower || c.isDigit || c == '-'
  if 1 ≤ cs.length ∧ cs.length ≤ 32 ∧ cs.all isNameChar then .ok (String.ofList cs)
  else .error .parameterName

def isValueChar (c : Char) : Bool := c.isAlphanum || "/+.-".toList.contains c

def readValue (cs : List Char) : Except ValueFault String :=
  if 64 < (String.ofList cs).utf8ByteSize then .error .tooLong
  else
    match cs.find? fun c => !isValueChar c with
    | some c => .error (.character c)
    | none => .ok (String.ofList cs)

def readDecimal (value : String) : Except HashFault Nat :=
  let cs := value.toList
  if cs = [] then .error (.parameterValue .malformed)
  else
    match cs.find? fun c => !c.isDigit with
    | some c => .error (.parameterValue (.character c))
    | none =>
      let n := cs.foldl (fun acc c => acc * 10 + (c.toNat - 48)) 0
      if (cs.head? = some '0' ∧ 1 < cs.length) ∨ 4294967296 ≤ n then .error (.parameterValue .format)
      else .ok n

def readEncoded (most : Nat) (cs : List Char) : Except HashFault Bytes :=
  if most < (String.ofList cs).utf8ByteSize * 3 / 4 then .error .encodedLength
  else
    match Base64.standardBare.decodeChars cs with
    | some b => .ok b
    | none => .error .encoding

/-! ### Fields -/

def readParameter (cs : List Char) : Except HashFault (String × String) := do
  match cs.splitOn '=' with
  | name :: rest =>
    let name ← readName name
    match rest with
    | [] => throw (.parameterValue .malformed)
    | value :: more =>
      let value ← (readValue value).mapError .parameterValue
      if more ≠ [] then throw (.parameterValue .malformed)
      return (name, value)
  | [] => throw .parameterName

def readParameters (cs : List Char) : Except HashFault (List (String × String)) :=
  if 127 < (String.ofList cs).utf8ByteSize then .error .tooManyParameters
  else (cs.splitOn ',').mapM readParameter

/-- Reads a salt: 4 to 64 bytes, still encoded. -/
def readSalt (cs : List Char) : Except HashFault String :=
  let size := (String.ofList cs).utf8ByteSize
  if size < 4 then .error (.salt .tooShort)
  else if 64 < size then .error (.salt .tooLong)
  else (readValue cs).mapError .salt

def readHash (cs : List Char) : Except HashFault Bytes := do
  let b ← readEncoded 64 cs
  if b.length < leastHashLength then throw .outputTooShort
  return b

def takeVersion (fields : List (List Char)) : Except HashFault (Option Nat × List (List Char)) :=
  match fields with
  | ('v' :: '=' :: digits) :: rest =>
    if digits.contains ',' then .ok (none, fields)
    else do
      let value ← (readValue digits).mapError .parameterValue
      return (some (← readDecimal value), rest)
  | _ => .ok (none, fields)

def takeParameters (fields : List (List Char)) :
    Except HashFault (List (String × String) × List (List Char)) :=
  match fields with
  | field :: rest =>
    if field.contains '=' then do return (← readParameters field, rest)
    else .ok ([], fields)
  | [] => .ok ([], [])

def parse (text : String) : Except HashFault PasswordHash := do
  match text.toList.splitOn '$' with
  | [] :: algorithm :: fields =>
    let algorithm ← readName algorithm
    let (version, fields) ← takeVersion fields
    let (parameters, fields) ← takeParameters fields
    match fields with
    | [] => return ⟨algorithm, version, parameters, none, none⟩
    | [salt] => return ⟨algorithm, version, parameters, some (← readSalt salt), none⟩
    | salt :: hash :: rest =>
      let salt ← readSalt salt
      let hash ← readHash hash
      if rest ≠ [] then throw .trailingField
      return ⟨algorithm, version, parameters, some salt, some hash⟩
  | _ => throw .missingField

def toText (h : PasswordHash) : String :=
  let parameters := ",".intercalate (h.parameters.map fun (name, value) => name ++ "=" ++ value)
  let fields := [h.algorithm] ++ (h.version.map fun v => "v=" ++ toString v).toList ++
    (if h.parameters = [] then [] else [parameters]) ++ h.salt.toList ++
    (h.hash.map Base64.standardBare.encode).toList
  String.join (fields.map fun f => "$" ++ f)

end PasswordHash

end SessionWarden
