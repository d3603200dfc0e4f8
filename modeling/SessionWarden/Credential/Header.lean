import SessionWarden.Credential.Algorithm
import SessionWarden.Json
/-!
# Credential headers

A header names the algorithm of a credential's signature. Its other fields are never used, but a header in
which one of them has the wrong form is refused.
-/

namespace SessionWarden.Header

def ofAlgorithm (a : Algorithm) : Json := .record [("typ", .string "JWT"), ("alg", .string a.name)]

/-! ### Forms of fields -/

def isOptionally (form : Json → Bool) : Option Json → Bool
  | none => true
  | some .null => true
  | some j => form j

def isText (j : Json) : Bool := j.text?.isSome

def isTexts (j : Json) : Bool := j.texts?.isSome

def isNull : Json → Bool
  | .null => true
  | _ => false

def isNothing : Json → Bool
  | .null => true
  | .object [] => true
  | _ => false

/-- The name of a case that carries nothing: a string, or the only key of an object over what counts as nothing. -/
def caseName? (nothing : Json → Bool) : Json → Option String
  | .string s => some s
  | .object [(some s, j)] => if nothing j then some s else none
  | _ => none

def isCase (nothing : Json → Bool) (names : List String) (j : Json) : Bool :=
  (caseName? nothing j).any fun s => names.contains s

/-! ### Embedded keys -/

def keyAlgorithms : List String :=
  ["HS256", "HS384", "HS512", "ES256", "ES384", "RS256", "RS384", "RS512", "PS256", "PS384", "PS512",
    "EdDSA", "RSA1_5", "RSA-OAEP", "RSA-OAEP-256"]

def keyCurves : List String := ["P-256", "P-384", "P-521", "Ed25519"]

/-- The fields that every kind of embedded key may have, each with its form. They are taken out of the members of the
key, where an empty object too counts as nothing. -/
def commonKeyFields : List (String × (Json → Bool)) :=
  [("use", isText), ("key_ops", isTexts), ("alg", isCase isNothing keyAlgorithms), ("kid", isText), ("x5u", isText),
    ("x5c", isTexts), ("x5t", isText), ("x5t#S256", isText)]

/-- The kinds of embedded keys: for each, the fields that it must have, each with its form. They are looked at in
place, where only null counts as nothing. -/
def keyKinds : List (List (String × (Json → Bool))) :=
  [[("kty", isCase isNull ["EC"]), ("crv", isCase isNull keyCurves), ("x", isText), ("y", isText)],
    [("kty", isCase isNull ["RSA"]), ("n", isText), ("e", isText)],
    [("kty", isCase isNull ["oct"]), ("k", isText)],
    [("kty", isCase isNull ["OKP"]), ("crv", isCase isNull keyCurves), ("x", isText)]]

def greatestKeyDepth : Nat := 126

def isKey : Json → Bool
  | .object members =>
    Json.membersReadable members && (Json.object members).depth ≤ greatestKeyDepth &&
      (commonKeyFields.all fun (name, form) =>
        match Json.member? name members with
        | some value => isOptionally form value
        | none => false) &&
      keyKinds.any fun kind => kind.all fun (name, form) =>
        match Json.member? name members with
        | some (some value) => form value
        | _ => false
  | _ => false

/-! ### Reading -/

/-- The fields of a header in their order, and the forms of all but the second, which is the algorithm. -/
def fieldNames : List String :=
  ["typ", "alg", "cty", "jku", "jwk", "kid", "x5u", "x5c", "x5t", "x5t#S256"]

def algorithm? (j : Json) : Option Algorithm := do
  match ← j.fields? fieldNames fieldNames.length with
  | [typ, some alg, cty, jku, jwk, kid, x5u, x5c, x5t, x5tS256] =>
    let wellFormed := [typ, cty, jku, kid, x5u, x5t, x5tS256].all (isOptionally isText) &&
      isOptionally isTexts x5c && isOptionally isKey jwk
    if wellFormed then Algorithm.named? (← caseName? isNull alg) else none
  | _ => none

end SessionWarden.Header
