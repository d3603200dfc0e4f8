import SessionWarden.Proofs.Credential.Inspection
import SessionWarden.Proofs.Credential.SecondReading
/-!
# Acceptance

What an inspector makes of any text at all, said without its steps. A text is accepted for some claims exactly if it
is three parts that hold together and a second reading of its payload finds nothing in its way. Every other text is
refused with one and the same answer, and the first check that it fails is the reason in the log.
-/

namespace SessionWarden

/-! ### Parts -/

theorem dot_not_mem_of_decodePart? {cs : List Char} {j : Json} (h : decodePart? cs = some j) : '.' ∉ cs := by
  obtain ⟨b, hb, -⟩ := Option.bind_eq_some_iff.mp h
  rw [Base64.urlBare_decodeChars_eq_some_iff.mp hb]
  exact Base64.dot_not_mem_encodeChars b

namespace CredentialParts

variable {p q : CredentialParts} {x : String}

/-- Whether a text is these three parts with dots between them and no other dots. -/
structure Makes (p : CredentialParts) (x : String) : Prop where
  text : x.toList = (p.header ++ '.' :: p.payload) ++ '.' :: p.signature
  header : '.' ∉ p.header
  payload : '.' ∉ p.payload
  signature : '.' ∉ p.signature

theorem makes_iff : p.Makes x ↔ split? x.toList = some p ∧ '.' ∉ p.header := by
  rw [split?_eq_some_iff]
  constructor
  · rintro ⟨htext, hheader, hpayload, hsignature⟩
    exact ⟨⟨htext, hpayload, hsignature⟩, hheader⟩
  · rintro ⟨⟨htext, hpayload, hsignature⟩, hheader⟩
    exact ⟨htext, hheader, hpayload, hsignature⟩

theorem Makes.unique (h : p.Makes x) (h' : q.Makes x) : q = p :=
  Option.some.inj ((makes_iff.mp h').1.symm.trans (makes_iff.mp h).1)

def algorithm? (p : CredentialParts) : Option Algorithm := (decodePart? p.header).bind Header.algorithm?

def claims? (p : CredentialParts) : Option Claims := (decodePart? p.payload).bind Claims.ofJson?

theorem makes_of_algorithm? {a : Algorithm} (hsplit : split? x.toList = some p) (h : p.algorithm? = some a) :
    p.Makes x := by
  obtain ⟨j, hj, -⟩ := Option.bind_eq_some_iff.mp h
  exact makes_iff.mpr ⟨hsplit, dot_not_mem_of_decodePart? hj⟩

end CredentialParts

/-! ### Signatures -/

/-- Whether a verifier compares signatures as they are written. -/
def Verifier.IsKeyed (v : Verifier) : Prop := ∃ size secret, v = .hmac size secret

namespace Inspector

variable {i : Inspector} {now : Instant} {x : String} {p : CredentialParts} {c : Claims} {j : Json}
  {members : List (Option String × Json)}

/-- Whether the signature part is a good signature of the two parts before it. -/
def Signed (i : Inspector) (p : CredentialParts) : Prop :=
  ∃ signature, Base64.urlBare.decodeChars p.signature = some signature ∧
    i.verifier.verify p.message signature = true

theorem checkSignature_of_isKeyed (hkeyed : i.verifier.IsKeyed) (p : CredentialParts) :
    i.Signed p ∧ i.checkSignature p = .ok () ∨ ¬ i.Signed p ∧ i.checkSignature p = .error .signature := by
  obtain ⟨size, secret, hverifier⟩ := hkeyed
  have hcheck : i.checkSignature p =
      if Base64.urlBare.encodeChars (size.toHash.hmac secret p.message) = p.signature then .ok ()
      else .error .signature := by
    rw [checkSignature, hverifier]
  have hverify : ∀ b, i.verifier.verify p.message b = true ↔ size.toHash.hmac secret p.message = b := by
    intro b
    rw [hverifier]
    exact beq_iff_eq
  by_cases hsame : Base64.urlBare.encodeChars (size.toHash.hmac secret p.message) = p.signature
  · refine Or.inl ⟨⟨_, ?_, (hverify _).mpr rfl⟩, hcheck.trans (if_pos hsame)⟩
    exact Base64.urlBare_decodeChars_eq_some_iff.mpr hsame.symm
  · refine Or.inr ⟨?_, hcheck.trans (if_neg hsame)⟩
    rintro ⟨b, hb, hgood⟩
    rw [← (hverify b).mp hgood] at hb
    exact hsame (Base64.urlBare_decodeChars_eq_some_iff.mp hb).symm

theorem checkSignature_of_not_isKeyed (hkeyed : ¬ i.verifier.IsKeyed) (p : CredentialParts) :
    i.Signed p ∧ i.checkSignature p = .ok () ∨
      ¬ i.Signed p ∧ Base64.urlBare.decodeChars p.signature = none ∧ i.checkSignature p = .error .malformed ∨
      ¬ i.Signed p ∧ Base64.urlBare.decodeChars p.signature ≠ none ∧ i.checkSignature p = .error .signature := by
  have hcheck : i.checkSignature p =
      (Base64.urlBare.decodeChars p.signature).elim (.error .malformed) fun b =>
        if i.verifier.verify p.message b then .ok () else .error .signature := by
    rw [checkSignature]
    split
    · rename_i size secret hverifier
      exact absurd ⟨size, secret, hverifier⟩ hkeyed
    · cases Base64.urlBare.decodeChars p.signature with
      | none => rfl
      | some b => rfl
  cases hdecode : Base64.urlBare.decodeChars p.signature with
  | none =>
    rw [hdecode] at hcheck
    refine Or.inr (Or.inl ⟨?_, rfl, hcheck⟩)
    rintro ⟨b, hb, -⟩
    rw [hdecode] at hb
    cases hb
  | some b =>
    rw [hdecode] at hcheck
    by_cases hgood : i.verifier.verify p.message b = true
    · exact Or.inl ⟨⟨b, hdecode, hgood⟩, hcheck.trans (if_pos hgood)⟩
    · refine Or.inr (Or.inr ⟨?_, Option.some_ne_none b, hcheck.trans (if_neg hgood)⟩)
      rintro ⟨b', hb', hgood'⟩
      obtain rfl : b = b' := Option.some.inj (hdecode.symm.trans hb')
      exact hgood hgood'

/-- The check of a signature decides whether it is good. What is no base 64 cannot be told from a wrong keyed
digest, but from any other wrong signature. -/
theorem checkSignature_spec (i : Inspector) (p : CredentialParts) :
    i.Signed p ∧ i.checkSignature p = .ok () ∨
      ¬ i.Signed p ∧ ¬ i.verifier.IsKeyed ∧ Base64.urlBare.decodeChars p.signature = none ∧
        i.checkSignature p = .error .malformed ∨
      ¬ i.Signed p ∧ (i.verifier.IsKeyed ∨ Base64.urlBare.decodeChars p.signature ≠ none) ∧
        i.checkSignature p = .error .signature := by
  by_cases hkeyed : i.verifier.IsKeyed
  · rcases checkSignature_of_isKeyed hkeyed p with hgood | ⟨hnot, hcheck⟩
    · exact Or.inl hgood
    · exact Or.inr (Or.inr ⟨hnot, Or.inl hkeyed, hcheck⟩)
  · rcases checkSignature_of_not_isKeyed hkeyed p with hgood | ⟨hnot, hdecode, hcheck⟩ | ⟨hnot, hread, hcheck⟩
    · exact Or.inl hgood
    · exact Or.inr (Or.inl ⟨hnot, hkeyed, hdecode, hcheck⟩)
    · exact Or.inr (Or.inr ⟨hnot, Or.inr hread, hcheck⟩)

theorem checkSignature_eq_ok_iff {b : Bytes} (hwritten : p.signature = Base64.urlBare.encodeChars b) :
    i.checkSignature p = .ok () ↔ i.verifier.verify p.message b = true := by
  have hsigned : i.Signed p ↔ i.verifier.verify p.message b = true := by
    simp only [Signed, hwritten, Base64.urlBare_decodeChars_encodeChars, Option.some.injEq, exists_eq_left']
  rcases checkSignature_spec i p with ⟨hgood, hcheck⟩ | ⟨hnot, -, -, hcheck⟩ | ⟨hnot, -, hcheck⟩
  · exact ⟨fun _ => hsigned.mp hgood, fun _ => hcheck⟩
  · rw [hcheck, ← hsigned]
    exact ⟨fun h => (nomatch h), fun h => absurd h hnot⟩
  · rw [hcheck, ← hsigned]
    exact ⟨fun h => (nomatch h), fun h => absurd h hnot⟩

/-- The signature of a credential for some claims is good if the key accepts it for what was signed. -/
theorem checkSignature_written_iff {a : Algorithm} {claims : Claims} {b : Bytes} :
    i.checkSignature ⟨Issuer.partChars (Header.ofAlgorithm a), Issuer.partChars claims.toJson,
      Base64.urlBare.encodeChars b⟩ = .ok () ↔
        i.verifier.verify (Bytes.ofString (Issuer.message a claims)) b = true := by
  rw [Issuer.message_eq]
  exact checkSignature_eq_ok_iff rfl

end Inspector

namespace Inspector

variable {i : Inspector} {now : Instant} {x : String} {p : CredentialParts} {c : Claims} {j : Json}
  {members : List (Option String × Json)}

/-! ### What is accepted -/

/-- Whether the parts of a credential speak for some claims under the rules of an inspector. -/
structure Admits (i : Inspector) (now : Instant) (p : CredentialParts) (c : Claims) : Prop where
  algorithm : p.algorithm? = some i.algorithm
  signed : i.Signed p
  claims : p.claims? = some c
  nonneg : 0 ≤ c.expiry
  live : now.second ≤ c.expiry
  issuer : c.issuer = i.issuer

/-- Whether a text is accepted: its parts speak for the claims, and the claims are an object whose second reading
succeeds. -/
def Accepts (i : Inspector) (now : Instant) (x : String) (c : Claims) : Prop :=
  ∃ p members, p.Makes x ∧ i.Admits now p c ∧ decodePart? p.payload = some (.object members) ∧
    RegisteredClaims.PassedOver members

/-! ### What is refused -/

inductive Check where
  | parts
  | header
  | algorithm
  | signature
  | claims
  | validity
deriving DecidableEq

def Check.before : Check → List Check
  | .parts => []
  | .header => [.parts]
  | .algorithm => [.parts, .header]
  | .signature => [.parts, .header, .algorithm]
  | .claims => [.parts, .header, .algorithm, .signature]
  | .validity => [.parts, .header, .algorithm, .signature, .claims]

/-- Whether a check succeeds, whatever the others do. -/
def Holds (i : Inspector) (now : Instant) (x : String) : Check → Prop
  | .parts => ∃ p : CredentialParts, p.Makes x
  | .header => ∃ (p : CredentialParts) (a : Algorithm), p.Makes x ∧ p.algorithm? = some a
  | .algorithm => ∃ p : CredentialParts, p.Makes x ∧ p.algorithm? = some i.algorithm
  | .signature => ∃ p : CredentialParts, p.Makes x ∧ i.Signed p
  | .claims => ∃ (p : CredentialParts) (c : Claims), p.Makes x ∧ p.claims? = some c
  | .validity => ∃ (p : CredentialParts) (c : Claims) (members : List (Option String × Json)), p.Makes x ∧
      decodePart? p.payload = some (.object members) ∧
      Claims.ofJson? (.object members) = some c ∧ RegisteredClaims.PassedOver members ∧ 0 ≤ c.expiry ∧
      now.second ≤ c.expiry ∧ c.issuer = i.issuer

/-- Why claims read from a value are not valid. Claims that are written as an array have no expiry in the place where
the second reading looks for it, and with roles they are too many for it. -/
inductive Invalid (i : Inspector) (now : Instant) (c : Claims) : Json → Rejection → Prop
  | inTheWay {members : List (Option String × Json)} (h : ¬ RegisteredClaims.PassedOver members) :
      Invalid i now c (.object members) .malformed
  | negative {members : List (Option String × Json)} (h : RegisteredClaims.PassedOver members)
      (hexpiry : c.expiry < 0) : Invalid i now c (.object members) .missingClaim
  | expired {members : List (Option String × Json)} (h : RegisteredClaims.PassedOver members) (hexpiry : 0 ≤ c.expiry)
      (hlate : c.expiry < now.second) : Invalid i now c (.object members) .expired
  | issuer {members : List (Option String × Json)} (h : RegisteredClaims.PassedOver members) (hexpiry : 0 ≤ c.expiry)
      (hlive : now.second ≤ c.expiry) (hissuer : c.issuer ≠ i.issuer) : Invalid i now c (.object members) .issuer
  | bare {items : List Json} (h : items.length = 5) : Invalid i now c (.array items) .missingClaim
  | titled {items : List Json} (h : items.length = 6) : Invalid i now c (.array items) .malformed

inductive Reason (i : Inspector) (now : Instant) (x : String) : Check → Rejection → Prop
  | parts : Reason i now x .parts .malformed
  | header : Reason i now x .header .malformed
  | algorithm : Reason i now x .algorithm .algorithm
  | unreadable {p : CredentialParts} (h : p.Makes x) (hkeyed : ¬ i.verifier.IsKeyed)
      (hdecode : Base64.urlBare.decodeChars p.signature = none) : Reason i now x .signature .malformed
  | signature {p : CredentialParts} (h : p.Makes x)
      (hread : i.verifier.IsKeyed ∨ Base64.urlBare.decodeChars p.signature ≠ none) :
      Reason i now x .signature .signature
  | claims : Reason i now x .claims .malformed
  | validity {p : CredentialParts} {j : Json} {c : Claims} {reason : Rejection} (h : p.Makes x)
      (hpayload : decodePart? p.payload = some j)
      (hclaims : Claims.ofJson? j = some c) (hinvalid : Invalid i now c j reason) : Reason i now x .validity reason

/-- Whether the first check that fails has a reason. -/
def Faults (i : Inspector) (now : Instant) (x : String) (reason : Rejection) : Prop :=
  ∃ check, ¬ i.Holds now x check ∧ (∀ earlier ∈ check.before, i.Holds now x earlier) ∧ i.Reason now x check reason

theorem Check.before_or (a b : Check) : a = b ∨ a ∈ b.before ∨ b ∈ a.before := by
  cases a <;> cases b <;> decide

theorem Invalid.unique {r r' : Rejection} (h : i.Invalid now c j r) (h' : i.Invalid now c j r') : r = r' := by
  cases h <;> cases h' <;> first | rfl | contradiction | omega

theorem Reason.unique {check : Check} {r r' : Rejection} (h : i.Reason now x check r) (h' : i.Reason now x check r') :
    r = r' := by
  cases h with
  | parts => cases h'; rfl
  | header => cases h'; rfl
  | algorithm => cases h'; rfl
  | claims => cases h'; rfl
  | unreadable hmakes hkeyed hdecode =>
    cases h' with
    | unreadable => rfl
    | signature hmakes' hread =>
      obtain rfl := hmakes.unique hmakes'
      exact absurd hread (not_or.mpr ⟨hkeyed, not_not.mpr hdecode⟩)
  | signature hmakes hread =>
    cases h' with
    | signature => rfl
    | unreadable hmakes' hkeyed hdecode =>
      obtain rfl := hmakes.unique hmakes'
      exact absurd hread (not_or.mpr ⟨hkeyed, not_not.mpr hdecode⟩)
  | validity hmakes hpayload hclaims hinvalid =>
    cases h' with
    | validity hmakes' hpayload' hclaims' hinvalid' =>
      obtain rfl := hmakes.unique hmakes'
      obtain rfl := Option.some.inj (hpayload.symm.trans hpayload')
      obtain rfl := Option.some.inj (hclaims.symm.trans hclaims')
      exact hinvalid.unique hinvalid'

theorem Faults.unique {r r' : Rejection} (h : i.Faults now x r) (h' : i.Faults now x r') : r = r' := by
  obtain ⟨a, hfails, hbefore, hreason⟩ := h
  obtain ⟨b, hfails', hbefore', hreason'⟩ := h'
  rcases Check.before_or a b with rfl | hab | hba
  · exact hreason.unique hreason'
  · exact absurd (hbefore' a hab) hfails
  · exact absurd (hbefore b hba) hfails'

theorem Accepts.holds (h : i.Accepts now x c) (check : Check) : i.Holds now x check := by
  obtain ⟨p, members, hmakes, hadmits, hpayload, hpassed⟩ := h
  have hclaims : Claims.ofJson? (.object members) = some c := by
    have hread := hadmits.claims
    rw [CredentialParts.claims?, hpayload] at hread
    exact hread
  cases check with
  | parts => exact ⟨p, hmakes⟩
  | header => exact ⟨p, i.algorithm, hmakes, hadmits.algorithm⟩
  | algorithm => exact ⟨p, hmakes, hadmits.algorithm⟩
  | signature => exact ⟨p, hmakes, hadmits.signed⟩
  | claims => exact ⟨p, c, hmakes, hadmits.claims⟩
  | validity =>
    exact ⟨p, c, members, hmakes, hpayload, hclaims, hpassed, hadmits.nonneg, hadmits.live, hadmits.issuer⟩

/-! ### The checks in their order -/

def readPayload (i : Inspector) (now : Instant) (p : CredentialParts) : Except Rejection Claims := do
  let payload ← require .malformed (decodePart? p.payload)
  let claims ← require .malformed (Claims.ofJson? payload)
  let registered ← require .malformed (RegisteredClaims.ofJson? payload)
  i.judge now registered
  return claims

theorem inspect_of_split? (h : CredentialParts.split? x.toList = some p) : i.inspect now x = (do
    let a ← require .malformed p.algorithm?
    require .algorithm (if a = i.algorithm then some () else none)
    i.checkSignature p
    i.readPayload now p) := by
  rw [inspect, h]
  rfl

theorem readPayload_of_claims (hpayload : decodePart? p.payload = some j) (hclaims : Claims.ofJson? j = some c) :
    i.readPayload now p = (do
      let registered ← require .malformed (RegisteredClaims.ofJson? j)
      i.judge now registered
      return c) := by
  rw [readPayload, hpayload]
  show (require .malformed (Claims.ofJson? j) >>= _) = _
  rw [hclaims]
  rfl

/-- Claims in an object are judged by their times and their issuer unless something is in the way. -/
theorem readPayload_of_object (hpayload : decodePart? p.payload = some (.object members))
    (hclaims : Claims.ofJson? (.object members) = some c) :
    (RegisteredClaims.PassedOver members ∧ 0 ≤ c.expiry ∧ now.second ≤ c.expiry ∧ c.issuer = i.issuer ∧
        i.readPayload now p = .ok c) ∨
      ∃ reason, i.Invalid now c (.object members) reason ∧ i.readPayload now p = .error reason := by
  rw [readPayload_of_claims hpayload hclaims]
  rcases RegisteredClaims.ofJson?_object hclaims with ⟨hpassed, hread⟩ | ⟨hnot, hread⟩
  case inr =>
    rw [hread]
    exact Or.inr ⟨.malformed, .inTheWay hnot, rfl⟩
  rw [hread]
  by_cases hneg : c.expiry < 0
  case pos =>
    have hfilter : (some c.expiry).filter (0 ≤ ·) = none := by
      rw [Option.filter_some, if_neg]
      exact fun hpos => absurd hneg (not_lt.mpr (of_decide_eq_true hpos))
    rw [hfilter]
    exact Or.inr ⟨.missingClaim, .negative hpassed hneg, rfl⟩
  have hpos : 0 ≤ c.expiry := not_lt.mp hneg
  have hfilter : (some c.expiry).filter (0 ≤ ·) = some c.expiry :=
    Option.filter_eq_some_iff.mpr ⟨rfl, decide_eq_true hpos⟩
  rw [hfilter]
  have hjudge : i.judge now ⟨some c.expiry, some c.subject, some c.issuer⟩ =
      if c.expiry < now.second then .error .expired else if c.issuer = i.issuer then .ok () else .error .issuer := rfl
  show (_ ∧ _ ∧ _ ∧ _ ∧ (i.judge now _ >>= fun _ => pure c) = _) ∨
    ∃ reason, _ ∧ (i.judge now _ >>= fun _ => pure c) = _
  rw [hjudge]
  by_cases hlate : c.expiry < now.second
  case pos =>
    rw [if_pos hlate]
    exact Or.inr ⟨.expired, .expired hpassed hpos hlate, rfl⟩
  have hlive : now.second ≤ c.expiry := not_lt.mp hlate
  rw [if_neg hlate]
  by_cases hissuer : c.issuer = i.issuer
  · rw [if_pos hissuer]
    exact Or.inl ⟨hpassed, hpos, hlive, hissuer, rfl⟩
  · rw [if_neg hissuer]
    exact Or.inr ⟨.issuer, .issuer hpassed hpos hlive hissuer, rfl⟩

theorem readPayload_of_array {items : List Json} (hpayload : decodePart? p.payload = some (.array items))
    (hclaims : Claims.ofJson? (.array items) = some c) :
    ∃ reason, i.Invalid now c (.array items) reason ∧ i.readPayload now p = .error reason := by
  rw [readPayload_of_claims hpayload hclaims]
  rcases RegisteredClaims.ofJson?_array hclaims with ⟨hfive, r, hread, hexpiry⟩ | ⟨hsix, hread⟩
  · have hjudge : i.judge now r = .error .missingClaim := by rw [judge, hexpiry]
    refine ⟨.missingClaim, .bare hfive, ?_⟩
    rw [hread]
    show (i.judge now r >>= fun _ => pure c) = _
    rw [hjudge]
    rfl
  · rw [hread]
    exact ⟨.malformed, .titled hsix, rfl⟩

/-! ### The checks in their order -/

section Order

variable (hmakes : p.Makes x)

include hmakes

theorem not_holds_header (h : p.algorithm? = none) : ¬ i.Holds now x .header := by
  rintro ⟨q, a, hq, ha⟩
  obtain rfl := hmakes.unique hq
  cases h.symm.trans ha

theorem not_holds_algorithm (h : p.algorithm? ≠ some i.algorithm) : ¬ i.Holds now x .algorithm := by
  rintro ⟨q, hq, ha⟩
  obtain rfl := hmakes.unique hq
  exact h ha

theorem not_holds_signature (h : ¬ i.Signed p) : ¬ i.Holds now x .signature := by
  rintro ⟨q, hq, hsigned⟩
  obtain rfl := hmakes.unique hq
  exact h hsigned

theorem not_holds_claims (h : p.claims? = none) : ¬ i.Holds now x .claims := by
  rintro ⟨q, c, hq, hc⟩
  obtain rfl := hmakes.unique hq
  cases h.symm.trans hc

theorem not_holds_validity {reason : Rejection} (hpayload : decodePart? p.payload = some j)
    (hclaims : Claims.ofJson? j = some c) (h : i.Invalid now c j reason) : ¬ i.Holds now x .validity := by
  rintro ⟨q, d, members, hq, hmembers, hd, hpassed, hpos, hlive, hissuer⟩
  obtain rfl := hmakes.unique hq
  obtain rfl := Option.some.inj (hpayload.symm.trans hmembers)
  obtain rfl := Option.some.inj (hclaims.symm.trans hd)
  cases h with
  | inTheWay hnot => exact hnot hpassed
  | negative _ hneg => exact absurd hneg (not_lt.mpr hpos)
  | expired _ _ hlate => exact absurd hlate (not_lt.mpr hlive)
  | issuer _ _ _ hother => exact hother hissuer

end Order

theorem readPayload_spec (hmakes : p.Makes x) (halgorithm : p.algorithm? = some i.algorithm) (hsigned : i.Signed p) :
    (∃ c, i.readPayload now p = .ok c ∧ i.Accepts now x c) ∨
      ∃ reason, i.readPayload now p = .error reason ∧ i.Faults now x reason := by
  have hfour : ∀ earlier ∈ Check.before .claims, i.Holds now x earlier :=
    List.forall_mem_cons.mpr ⟨⟨p, hmakes⟩, List.forall_mem_cons.mpr ⟨⟨p, _, hmakes, halgorithm⟩,
      List.forall_mem_cons.mpr ⟨⟨p, hmakes, halgorithm⟩, List.forall_mem_singleton.mpr ⟨p, hmakes, hsigned⟩⟩⟩⟩
  cases hclaims : p.claims? with
  | none =>
    refine Or.inr ⟨.malformed, ?_, .claims, not_holds_claims hmakes hclaims, hfour, .claims⟩
    rw [readPayload]
    cases hpayload : decodePart? p.payload with
    | none => rfl
    | some j =>
      rw [CredentialParts.claims?, hpayload] at hclaims
      show (require .malformed (Claims.ofJson? j) >>= _) = _
      rw [show Claims.ofJson? j = none from hclaims]
      rfl
  | some c =>
  have hfive : ∀ earlier ∈ Check.before .validity, i.Holds now x earlier := by
    have hfifth : i.Holds now x .claims := ⟨p, c, hmakes, hclaims⟩
    intro earlier hmem
    rcases List.mem_append.mp (show earlier ∈ Check.before .claims ++ [.claims] from hmem) with hmem | hmem
    · exact hfour earlier hmem
    · rwa [List.mem_singleton.mp hmem]
  obtain ⟨j, hpayload, hj⟩ := Option.bind_eq_some_iff.mp hclaims
  have hrefused : ∀ reason, i.Invalid now c j reason → i.Faults now x reason := fun reason hinvalid =>
    ⟨.validity, not_holds_validity hmakes hpayload hj hinvalid, hfive, .validity hmakes hpayload hj hinvalid⟩
  rcases Claims.form_of_ofJson? hj with ⟨members, rfl⟩ | ⟨items, rfl, -⟩
  · rcases readPayload_of_object hpayload hj with ⟨hpassed, hpos, hlive, hissuer, hread⟩ | ⟨reason, hinvalid, hread⟩
    · exact Or.inl ⟨c, hread, p, members, hmakes, ⟨halgorithm, hsigned, hclaims, hpos, hlive, hissuer⟩, hpayload,
        hpassed⟩
    · exact Or.inr ⟨reason, hread, hrefused reason hinvalid⟩
  · have hread : ∃ reason, i.Invalid now c (.array items) reason ∧ i.readPayload now p = .error reason :=
      readPayload_of_array hpayload hj
    obtain ⟨reason, hinvalid, hread⟩ := hread
    exact Or.inr ⟨reason, hread, hrefused reason hinvalid⟩

theorem inspect_of_not_holds_parts (hparts : ¬ i.Holds now x .parts) : i.inspect now x = .error .malformed := by
  cases hsplit : CredentialParts.split? x.toList with
  | none =>
    rw [inspect, hsplit]
    rfl
  | some p =>
    have hnone : p.algorithm? = none := by
      cases ha : p.algorithm? with
      | none => rfl
      | some a => exact absurd ⟨p, CredentialParts.makes_of_algorithm? hsplit ha⟩ hparts
    rw [inspect_of_split? hsplit, hnone]
    rfl

theorem inspect_spec (i : Inspector) (now : Instant) (x : String) :
    (∃ c, i.inspect now x = .ok c ∧ i.Accepts now x c) ∨
      ∃ reason, i.inspect now x = .error reason ∧ i.Faults now x reason := by
  by_cases hparts : i.Holds now x .parts
  case neg =>
    have hread := inspect_of_not_holds_parts hparts
    exact Or.inr ⟨.malformed, hread, .parts, hparts, fun _ h => (by cases h), .parts⟩
  obtain ⟨p, hmakes⟩ := id hparts
  rw [inspect_of_split? (CredentialParts.makes_iff.mp hmakes).1]
  cases ha : p.algorithm? with
  | none =>
    exact Or.inr ⟨.malformed, rfl, .header, not_holds_header hmakes ha, List.forall_mem_singleton.mpr hparts, .header⟩
  | some a =>
  have hheader : i.Holds now x .header := ⟨p, a, hmakes, ha⟩
  have htwo : ∀ earlier ∈ Check.before .algorithm, i.Holds now x earlier :=
    List.forall_mem_cons.mpr ⟨hparts, List.forall_mem_singleton.mpr hheader⟩
  show (∃ c, (require .algorithm (if a = i.algorithm then some () else none) >>= _) = .ok c ∧ _) ∨
    ∃ reason, (require .algorithm (if a = i.algorithm then some () else none) >>= _) = .error reason ∧ _
  by_cases hsame : a = i.algorithm
  case neg =>
    have hother : p.algorithm? ≠ some i.algorithm := fun h => hsame (Option.some.inj (ha.symm.trans h))
    rw [if_neg hsame]
    exact Or.inr ⟨.algorithm, rfl, .algorithm, not_holds_algorithm hmakes hother, htwo, .algorithm⟩
  subst hsame
  have hthree : ∀ earlier ∈ Check.before .signature, i.Holds now x earlier :=
    List.forall_mem_cons.mpr ⟨hparts, List.forall_mem_cons.mpr ⟨hheader, List.forall_mem_singleton.mpr ⟨p, hmakes, ha⟩⟩⟩
  rw [if_pos rfl]
  show (∃ c, (i.checkSignature p >>= _) = .ok c ∧ _) ∨ ∃ reason, (i.checkSignature p >>= _) = .error reason ∧ _
  rcases i.checkSignature_spec p with ⟨hsigned, hcheck⟩ | ⟨hnot, hkeyed, hdecode, hcheck⟩ | ⟨hnot, hread, hcheck⟩
  · rw [hcheck]
    exact readPayload_spec hmakes ha hsigned
  · rw [hcheck]
    exact Or.inr ⟨.malformed, rfl, .signature, not_holds_signature hmakes hnot, hthree,
      .unreadable hmakes hkeyed hdecode⟩
  · rw [hcheck]
    exact Or.inr ⟨.signature, rfl, .signature, not_holds_signature hmakes hnot, hthree, .signature hmakes hread⟩

theorem Accepts.inspect (h : i.Accepts now x c) : i.inspect now x = .ok c := by
  rcases i.inspect_spec now x with ⟨d, hd, haccepts⟩ | ⟨reason, -, check, hfails, -⟩
  · obtain ⟨p, members, hmakes, hadmits, -⟩ := h
    obtain ⟨q, members', hmakes', hadmits', -⟩ := haccepts
    obtain rfl := hmakes.unique hmakes'
    obtain rfl := Option.some.inj (hadmits.claims.symm.trans hadmits'.claims)
    exact hd
  · exact absurd (h.holds check) hfails

theorem Faults.inspect {reason : Rejection} (h : i.Faults now x reason) : i.inspect now x = .error reason := by
  rcases i.inspect_spec now x with ⟨c, -, haccepts⟩ | ⟨other, hother, hfaults⟩
  · obtain ⟨check, hfails, -⟩ := h
    exact absurd (haccepts.holds check) hfails
  · rw [hother, hfaults.unique h]

end Inspector

end SessionWarden
