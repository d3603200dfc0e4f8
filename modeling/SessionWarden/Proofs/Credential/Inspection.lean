import SessionWarden.Proofs.Credential.Claims
import SessionWarden.Proofs.Credential.Parts
import SessionWarden.Proofs.Uuid
import SessionWarden.Session.Engine
import SessionWarden.Session.World
/-!
# What an inspector accepts

An inspection succeeds if every one of its checks does. On a credential whose header and payload an issuer wrote,
all that is left to decide is the signature, the validity and the name of the issuer.
-/

namespace SessionWarden

theorem Except.bind_eq_ok_iff {ε α β : Type} {x : Except ε α} {f : α → Except ε β} {b : β} :
    (x >>= f) = .ok b ↔ ∃ a, x = .ok a ∧ f a = .ok b := by
  cases x with
  | error err =>
    constructor
    · intro h
      cases h
    · rintro ⟨a, h, -⟩
      cases h
  | ok a =>
    constructor
    · intro h
      exact ⟨a, rfl, h⟩
    · rintro ⟨a', h, hf⟩
      cases h
      exact hf

namespace Inspector

variable {i : Inspector} {now : Instant} {x : String} {p : CredentialParts}

/-! ### Inspection -/

theorem require_eq_ok_iff {α : Type} {reason : Rejection} {o : Option α} {a : α} :
    require reason o = .ok a ↔ o = some a := by
  cases o with
  | none => exact ⟨fun h => (by cases h), fun h => (by cases h)⟩
  | some b => exact ⟨fun h => congrArg some (Except.ok.inj h), fun h => congrArg Except.ok (Option.some.inj h)⟩

theorem judge_eq_ok_iff {r : RegisteredClaims} : i.judge now r = .ok () ↔
    ∃ expiry subject, r.expiry = some expiry ∧ r.subject = some subject ∧ r.issuer = some i.issuer ∧
      now.second ≤ expiry := by
  obtain ⟨expiry, subject, issuer⟩ := r
  cases expiry with
  | none => simp [judge]
  | some expiry =>
    cases subject with
    | none => simp [judge]
    | some subject =>
      cases issuer with
      | none => simp [judge]
      | some issuer =>
        by_cases hlate : expiry < now.second
        · simp [judge, hlate]
        · by_cases hissuer : issuer = i.issuer
          · simp [judge, hlate, hissuer, not_lt.mp hlate]
          · simp [judge, hlate, hissuer]

theorem inspect_eq_ok_iff {c : Claims} : i.inspect now x = .ok c ↔
    ∃ p j r, CredentialParts.split? x.toList = some p ∧
      (decodePart? p.header).bind Header.algorithm? = some i.algorithm ∧ i.checkSignature p = .ok () ∧
      decodePart? p.payload = some j ∧ Claims.ofJson? j = some c ∧ RegisteredClaims.ofJson? j = some r ∧
      i.judge now r = .ok () := by
  unfold inspect
  simp only [Except.bind_eq_ok_iff, require_eq_ok_iff]
  constructor
  · rintro ⟨p, hsplit, a, halgorithm, u, hsame, v, hsignature, h⟩
    obtain ⟨j, hpayload, d, hclaims, r, hregistered, u', hjudge, hd⟩ := h
    cases hd
    by_cases ha : a = i.algorithm
    · exact ⟨p, j, r, hsplit, ha ▸ halgorithm, hsignature, hpayload, hclaims, hregistered, hjudge⟩
    · rw [if_neg ha] at hsame
      cases hsame
  · rintro ⟨p, j, r, hsplit, halgorithm, hsignature, hpayload, hclaims, hregistered, hjudge⟩
    exact ⟨p, hsplit, i.algorithm, halgorithm, (), if_pos rfl, (), hsignature, j, hpayload, c, hclaims, r,
      hregistered, (), hjudge, rfl⟩

/-- Whether a credential has the header and the payload that an issuer writes for some claims. -/
structure Carries (i : Inspector) (x : String) (claims : Claims) (p : CredentialParts) : Prop where
  split : CredentialParts.split? x.toList = some p
  header : p.header = Issuer.partChars (Header.ofAlgorithm i.algorithm)
  payload : p.payload = Issuer.partChars claims.toJson

theorem inspect_of_carries {claims c : Claims} (h : i.Carries x claims p) (hexpiry : Json.Fits claims.expiry)
    (hissued : Json.Fits claims.issuedAt) : i.inspect now x = .ok c ↔
      c = claims ∧ i.checkSignature p = .ok () ∧ 0 ≤ claims.expiry ∧ now.second ≤ claims.expiry ∧
        claims.issuer = i.issuer := by
  obtain ⟨hsplit, hheader, hpayload⟩ := h
  have hregistered := RegisteredClaims.ofJson?_toJson hexpiry
  have hclaims := Claims.ofJson?_toJson_of_fits hexpiry hissued
  rw [inspect_eq_ok_iff]
  constructor
  · rintro ⟨q, j, r, hq, -, hsignature, hj, hc, hr, hjudge⟩
    obtain rfl : p = q := Option.some.inj (hsplit.symm.trans hq)
    rw [hpayload, Issuer.decodePart?_partChars] at hj
    obtain rfl := Option.some.inj hj
    obtain rfl := Option.some.inj (hregistered.symm.trans hr)
    obtain ⟨expiry, subject, hvalid, -, hissuer, hnow⟩ := judge_eq_ok_iff.mp hjudge
    have hvalid : (some claims.expiry).filter (0 ≤ ·) = some expiry := hvalid
    obtain ⟨hsome, hnonneg⟩ := Option.filter_eq_some_iff.mp hvalid
    obtain rfl := Option.some.inj hsome
    exact ⟨Claims.eq_of_ofJson?_toJson hc, hsignature, of_decide_eq_true hnonneg, hnow, Option.some.inj hissuer⟩
  · rintro ⟨rfl, hsignature, hnonneg, hnow, hissuer⟩
    have hvalid : (some c.expiry).filter (0 ≤ ·) = some c.expiry :=
      Option.filter_eq_some_iff.mpr ⟨rfl, decide_eq_true hnonneg⟩
    refine ⟨p, c.toJson, _, hsplit, ?_, hsignature, ?_, hclaims, hregistered, judge_eq_ok_iff.mpr ?_⟩
    · rw [hheader, Issuer.decodePart?_partChars, Option.bind_some, Header.algorithm?_ofAlgorithm]
    · rw [hpayload, Issuer.decodePart?_partChars]
    · exact ⟨c.expiry, c.subject, hvalid, rfl, congrArg some hissuer, hnow⟩

/-! ### Verification -/

theorem runAction_parse_of_ok {w : World} {c : Claims} (h : i.inspect w.clock x = .ok c) :
    w.runAction (i.parse x) = (.ok c, w) := by
  rw [parse, World.runAction_bind_of_ok (x := w.clock) rfl, h]
  rfl

theorem runAction_parse_of_error {w : World} {reason : Rejection} (h : i.inspect w.clock x = .error reason) :
    w.runAction (i.parse x) =
      (.error .credentialInvalid, { w with journal := w.journal ++ [.credentialRejected reason.word] }) := by
  rw [parse, World.runAction_bind_of_ok (x := w.clock) rfl, h]
  rfl

theorem principal_eq_ok_iff {w : World} {signal : Bytes} {c : Claims} {user : UserId} {roles : List String} :
    (w.runAction (principal signal c)).1 = .ok ⟨user, roles⟩ ↔ Uuid.parse c.subject = .ok user.uuid ∧
      checkFingerprintHex user signal c.fingerprint = .ok () ∧ c.roles = roles := by
  rw [principal]
  cases hparse : Uuid.parse c.subject with
  | error fault =>
    constructor
    · intro h
      cases h
    · rintro ⟨huser, -⟩
      cases huser
  | ok uuid =>
    dsimp only
    cases hcheck : checkFingerprintHex ⟨uuid⟩ signal c.fingerprint with
    | error err =>
      constructor
      · intro h
        cases h
      · rintro ⟨huser, hsignal, -⟩
        obtain rfl : uuid = user.uuid := Except.ok.inj huser
        rw [hcheck] at hsignal
        cases hsignal
    | ok u =>
      constructor
      · intro h
        have h : (Except.ok ⟨⟨uuid⟩, c.roles⟩ : Except AuthError Principal) = .ok ⟨user, roles⟩ := h
        cases h
        exact ⟨rfl, hcheck, rfl⟩
      · rintro ⟨huser, -, rfl⟩
        obtain rfl : uuid = user.uuid := Except.ok.inj huser
        rfl

theorem verify_eq_ok_iff {w : World} {signal : Bytes} {user : UserId} {roles : List String} :
    (w.runAction (i.verify x signal)).1 = .ok ⟨user, roles⟩ ↔
      ∃ c, i.inspect w.clock x = .ok c ∧ Uuid.parse c.subject = .ok user.uuid ∧
        checkFingerprintHex user signal c.fingerprint = .ok () ∧ c.roles = roles := by
  rw [verify]
  cases hinspect : i.inspect w.clock x with
  | error reason =>
    rw [World.runAction_bind_of_error (runAction_parse_of_error hinspect)]
    constructor
    · intro h
      cases h
    · rintro ⟨c, hc, -⟩
      cases hc
  | ok c =>
    rw [World.runAction_bind_of_ok (runAction_parse_of_ok hinspect), principal_eq_ok_iff]
    constructor
    · rintro hjudged
      exact ⟨c, rfl, hjudged⟩
    · rintro ⟨d, hd, hjudged⟩
      obtain rfl := Except.ok.inj hd
      exact hjudged

/-- A verification reads the clock once, and judges whom a credential speaks for if it is accepted. -/
theorem verify_eq_inspect (i : Inspector) (x : String) (signal : Bytes) :
    i.verify x signal = Action.now >>= fun now =>
      match i.inspect now x with
      | .error reason => do
        Action.note (.credentialRejected reason.word)
        throw .credentialInvalid
      | .ok claims => principal signal claims := by
  have hstep : ∀ now : Instant,
      (match i.inspect now x with
        | .error reason => do
          Action.note (.credentialRejected reason.word)
          throw .credentialInvalid
        | .ok claims => return claims : Action Claims) >>= principal signal =
      match i.inspect now x with
        | .error reason => do
          Action.note (.credentialRejected reason.word)
          throw .credentialInvalid
        | .ok claims => principal signal claims := by
    intro now
    cases i.inspect now x with
    | error reason => rfl
    | ok claims => rfl
  exact congrArg (Script.ask .now) (funext hstep)

theorem verify_of_carries {w : World} {signal : Bytes} {user : UserId} {roles : List String} {claims : Claims}
    (h : i.Carries x claims p) (hexpiry : Json.Fits claims.expiry) (hissued : Json.Fits claims.issuedAt) :
    (w.runAction (i.verify x signal)).1 = .ok ⟨user, roles⟩ ↔
      i.checkSignature p = .ok () ∧ 0 ≤ claims.expiry ∧ w.clock.second ≤ claims.expiry ∧
        claims.issuer = i.issuer ∧ Uuid.parse claims.subject = .ok user.uuid ∧
        checkFingerprintHex user signal claims.fingerprint = .ok () ∧ claims.roles = roles := by
  rw [verify_eq_ok_iff]
  constructor
  · rintro ⟨c, hc, huser, hsignal, hroles⟩
    obtain ⟨rfl, hsignature, hnonneg, hnow, hissuer⟩ := (inspect_of_carries h hexpiry hissued).mp hc
    exact ⟨hsignature, hnonneg, hnow, hissuer, huser, hsignal, hroles⟩
  · rintro ⟨hsignature, hnonneg, hnow, hissuer, huser, hsignal, hroles⟩
    exact ⟨claims, (inspect_of_carries h hexpiry hissued).mpr ⟨rfl, hsignature, hnonneg, hnow, hissuer⟩, huser,
      hsignal, hroles⟩

end Inspector

end SessionWarden
