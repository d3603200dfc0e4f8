import SessionWarden.Credential.Claims
import SessionWarden.Credential.Header
/-!
# Claims and headers as they are written

What an issuer writes is read as it was meant: the claims in full, the registered claims among them, and the
algorithm of the header.
-/

namespace SessionWarden

/-! ### Members -/

namespace Json

theorem fields?_record (names : List String) (least : Nat) (members : List (String × Json)) :
    (record members).fields? names least =
      names.mapM fun name => member? name (members.map fun (key, value) => (some key, value)) := by
  have hall : ((members.map fun (key, value) => (some key, value)).all fun m => m.1.isSome) = true := by
    rw [List.all_map, List.all_eq_true]
    intro m hm
    rfl
  rw [record, fields?, if_pos hall]

def Fits (n : Int) : Prop := -9223372036854775808 ≤ n ∧ n ≤ 9223372036854775807

theorem int64?_int {n : Int} (h : Fits n) : (int n).int64? = some n := by
  obtain ⟨hlow, hhigh⟩ := h
  simp only [int, int64?, JsonNumber.toInt?_ofInt, Option.filter, hlow, hhigh, decide_true, Bool.and_self, if_true]

theorem eq_of_int64?_int {n m : Int} (h : (int n).int64? = some m) : m = n := by
  simp only [int, int64?, JsonNumber.toInt?_ofInt, Option.filter] at h
  split at h
  · exact (Option.some.inj h).symm
  · cases h

theorem texts?_strings (l : List String) : (array (l.map string)).texts? = some l := by
  show (l.map string).mapM text? = some l
  induction l with
  | nil => rfl
  | cons s l ih =>
    rw [List.map_cons, List.mapM_cons, ih]
    rfl

end Json

/-! ### Claims -/

namespace Claims

theorem fields?_toJson (c : Claims) :
    c.toJson.fields? ["iss", "sub", "exp", "iat", "fingerprint", "roles"] 5 =
      some [some (.string c.issuer), some (.string c.subject), some (.int c.expiry), some (.int c.issuedAt),
        some (.string c.fingerprint), some (.array (c.roles.map .string))] := by
  rw [toJson, Json.fields?_record]
  rfl

theorem registered_fields?_toJson (c : Claims) :
    c.toJson.fields? ["exp", "nbf", "sub", "iss", "aud"] 5 =
      some [some (.int c.expiry), none, some (.string c.subject), some (.string c.issuer), none] := by
  rw [toJson, Json.fields?_record]
  rfl

theorem ofJson?_toJson (c : Claims) : ofJson? c.toJson =
    (Json.int c.expiry).int64?.bind fun expiry => (Json.int c.issuedAt).int64?.bind fun issuedAt =>
      some ⟨c.issuer, c.subject, expiry, issuedAt, c.fingerprint, c.roles⟩ := by
  simp only [ofJson?, fields?_toJson, Option.bind_eq_bind, Option.bind_some, Json.texts?_strings, Json.text?]
  rfl

theorem ofJson?_toJson_of_fits {c : Claims} (hexpiry : Json.Fits c.expiry) (hissued : Json.Fits c.issuedAt) :
    ofJson? c.toJson = some c := by
  rw [ofJson?_toJson, Json.int64?_int hexpiry, Json.int64?_int hissued]
  rfl

theorem eq_of_ofJson?_toJson {c d : Claims} (h : ofJson? c.toJson = some d) : d = c := by
  rw [ofJson?_toJson] at h
  obtain ⟨expiry, hexpiry, h⟩ := Option.bind_eq_some_iff.mp h
  obtain ⟨issuedAt, hissued, h⟩ := Option.bind_eq_some_iff.mp h
  obtain rfl := Json.eq_of_int64?_int hexpiry
  obtain rfl := Json.eq_of_int64?_int hissued
  exact (Option.some.inj h).symm

end Claims

theorem RegisteredClaims.ofJson?_toJson {c : Claims} (h : Json.Fits c.expiry) :
    ofJson? c.toJson = some ⟨(some c.expiry).filter (0 ≤ ·), some c.subject, some c.issuer⟩ := by
  simp only [ofJson?, c.registered_fields?_toJson, Option.bind_eq_bind, Option.bind_some, Option.all_none,
    Json.int64?_int h, Json.text?]
  rfl

/-! ### Headers -/

namespace Header

theorem fields?_ofAlgorithm (a : Algorithm) :
    (ofAlgorithm a).fields? fieldNames fieldNames.length =
      some [some (.string "JWT"), some (.string a.name), none, none, none, none, none, none, none, none] := by
  rw [ofAlgorithm, Json.fields?_record]
  rfl

theorem algorithm?_ofAlgorithm (a : Algorithm) : algorithm? (ofAlgorithm a) = some a := by
  have hname : caseName? isNull (.string a.name) = some a.name := rfl
  simp only [algorithm?, fields?_ofAlgorithm, Option.bind_eq_bind, Option.bind_some, hname, Algorithm.named?_name]
  rfl

end Header

end SessionWarden
