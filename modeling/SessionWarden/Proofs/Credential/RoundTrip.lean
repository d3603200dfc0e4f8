import SessionWarden.Proofs.Credential.Parsing
import SessionWarden.Proofs.Session.Verification
/-!
# Credentials there and back

What an issuer builds is what an inspector with the matching key parses: the same claims, whatever the texts in them,
up to the last second of their age. A credential is not built only where its expiry is no date, and it is not accepted
only once its expiry is over; neither needs any other reason.
-/

namespace SessionWarden

namespace Issuer

/-- Whether a text is a credential of an issuer for some claims, under a signature that a key accepts. Signatures of one
message may differ. -/
def Writes (i : Issuer) (verifier : Verifier) (claims : Claims) (x : String) : Prop :=
  ∃ b, verifier.verify (Bytes.ofString (message i.algorithm claims)) b = true ∧
    x = join (message i.algorithm claims) (Base64.urlBare.encode b)

/-- Whether a key accepts all that an issuer signs. -/
def Trusts (verifier : Verifier) (i : Issuer) : Prop :=
  ∀ message, verifier.verify message (i.signer.sign message) = true

variable {i : Issuer} {verifier : Verifier}

theorem writes_credential (h : Trusts verifier i) (claims : Claims) : i.Writes verifier claims (i.credential claims) :=
  ⟨i.signer.sign (Bytes.ofString (message i.algorithm claims)), h _, rfl⟩

def claimed (i : Issuer) (now : Instant) (subject : String) (age : Int) (fingerprint : String) (roles : List String) :
    Claims := ⟨i.name, subject, (now.after age).second, now.second, fingerprint, roles⟩

theorem build_eq (i : Issuer) (now : Instant) (subject : String) (age : Int) (fingerprint : String)
    (roles : List String) : i.build now subject age fingerprint roles =
      if (now.after age).Representable then .ok (i.credential (i.claimed now subject age fingerprint roles))
      else .error .expiryOverflow := by
  by_cases hexpiry : (now.after age).Representable
  · have hclaims : claims i.name now subject age fingerprint roles =
        .ok (i.claimed now subject age fingerprint roles) := claims_eq_ok_iff.mpr ⟨hexpiry, rfl⟩
    rw [if_pos hexpiry, build, hclaims]
    rfl
  · have hadd : now.add? age = none := if_neg hexpiry
    rw [if_neg hexpiry, build_eq_error_iff.mpr ⟨hadd, rfl⟩]

end Issuer

namespace Inspector

variable {i : Issuer} {v : Inspector} {claims c : Claims} {x : String}

/-- A written credential is accepted for what it claims and until its expiry, and for nothing else. -/
theorem inspect_written_iff (hissuer : v.issuer = claims.issuer) (halgorithm : v.algorithm = i.algorithm)
    (hexpiry : Json.Fits claims.expiry) (hissued : Json.Fits claims.issuedAt) (hx : i.Writes v.verifier claims x)
    (time : Instant) : v.inspect time x = .ok c ↔
      c = claims ∧ 0 ≤ claims.expiry ∧ time.second ≤ claims.expiry := by
  obtain ⟨b, hgood, rfl⟩ := hx
  rw [← halgorithm] at hgood ⊢
  rw [inspect_join_iff hexpiry hissued, checkSignature_written_iff]
  constructor
  · rintro ⟨rfl, -, hnonneg, hlast, -⟩
    exact ⟨rfl, hnonneg, hlast⟩
  · rintro ⟨rfl, hnonneg, hlast⟩
    exact ⟨rfl, hgood, hnonneg, hlast, hissuer.symm⟩

theorem runAction_parse_written (hissuer : v.issuer = claims.issuer) (halgorithm : v.algorithm = i.algorithm)
    (hexpiry : Json.Fits claims.expiry) (hissued : Json.Fits claims.issuedAt) (hx : i.Writes v.verifier claims x)
    {w : World} (hclock : 0 ≤ w.clock.nanos) : (w.runAction (v.parse x)).1 =
      if w.clock.second ≤ claims.expiry then .ok claims else .error .credentialInvalid := by
  have haccepted := fun c => inspect_written_iff (c := c) hissuer halgorithm hexpiry hissued hx w.clock
  have hsecond : 0 ≤ w.clock.second := Int.ediv_nonneg hclock (by decide)
  by_cases hlast : w.clock.second ≤ claims.expiry
  · rw [if_pos hlast, runAction_parse_of_ok ((haccepted claims).mpr ⟨rfl, le_trans hsecond hlast, hlast⟩)]
  · rw [if_neg hlast]
    cases hinspect : v.inspect w.clock x with
    | ok c => exact absurd ((haccepted c).mp hinspect).2.2 hlast
    | error reason => rw [runAction_parse_of_error hinspect]

end Inspector

/-- A credential comes back as it was built. Building fails exactly where the expiry is no date. What was built is
parsed, at every time from the epoch on, to the same claims, unless the last second of its age is over; so is every
other credential for these claims whose signature the key accepts. -/
theorem credential_round_trip (i : Issuer) (v : Inspector) (hissuer : v.issuer = i.name)
    (halgorithm : v.algorithm = i.algorithm) (hkeys : Issuer.Trusts v.verifier i) (now : Instant)
    (hnow : now.Representable) (subject : String) (age : Int) (fingerprint : String) (roles : List String) :
    (∀ fault, i.build now subject age fingerprint roles = .error fault ↔
      fault = .expiryOverflow ∧ ¬ (now.after age).Representable) ∧
    ((now.after age).Representable → ∃ x, i.build now subject age fingerprint roles = .ok x) ∧
    ∀ x, i.build now subject age fingerprint roles = .ok x →
      i.Writes v.verifier (i.claimed now subject age fingerprint roles) x ∧
      ∀ (y : String) (w : World), i.Writes v.verifier (i.claimed now subject age fingerprint roles) y →
        0 ≤ w.clock.nanos → (w.runAction (v.parse y)).1 =
          if w.clock.second ≤ (now.after age).second then
            .ok ⟨i.name, subject, (now.after age).second, now.second, fingerprint, roles⟩
          else .error .credentialInvalid := by
  rw [Issuer.build_eq]
  by_cases hexpiry : (now.after age).Representable
  · simp only [if_pos hexpiry]
    refine ⟨by simp [hexpiry], fun _ => ⟨_, rfl⟩, ?_⟩
    intro x hx
    obtain rfl := Except.ok.inj hx
    refine ⟨Issuer.writes_credential hkeys _, fun y w hy hclock => ?_⟩
    exact Inspector.runAction_parse_written hissuer halgorithm (Instant.fits_of_representable hexpiry)
      (Instant.fits_of_representable hnow) hy hclock
  · simp only [if_neg hexpiry]
    refine ⟨?_, fun h => absurd h hexpiry, ?_⟩
    · intro fault
      simp [hexpiry, eq_comm]
    · intro x hx
      cases hx

/-- A credential of the small issuer for a quarter of an hour, with quotes and empty texts in it, comes back in the last
second of its age and not in the next. -/
theorem credential_round_trip_of_sample : Inspector.sample.issuer = Engine.sample.issuer.name ∧
    Inspector.sample.algorithm = Engine.sample.issuer.algorithm ∧
    Issuer.Trusts Inspector.sample.verifier Engine.sample.issuer ∧ (⟨1500000000⟩ : Instant).Representable ∧
    ∃ x, Engine.sample.issuer.build ⟨1500000000⟩ "\"\\\n" 900000000000 "" ["", "\u0000é"] = .ok x ∧
      ((World.empty ⟨901999999999⟩ fun _ => default).runAction (Inspector.sample.parse x)).1 =
        .ok ⟨"warden", "\"\\\n", 901, 1, "", ["", "\u0000é"]⟩ ∧
      ((World.empty ⟨902000000000⟩ fun _ => default).runAction (Inspector.sample.parse x)).1 =
        .error .credentialInvalid := by
  have hkeys : Issuer.Trusts Inspector.sample.verifier Engine.sample.issuer := fun message => beq_self_eq_true _
  have hnow : (⟨1500000000⟩ : Instant).Representable := by decide
  obtain ⟨-, hbuilds, hback⟩ := credential_round_trip Engine.sample.issuer Inspector.sample rfl rfl hkeys ⟨1500000000⟩
    hnow "\"\\\n" 900000000000 "" ["", "\u0000é"]
  obtain ⟨x, hx⟩ := hbuilds (by decide)
  obtain ⟨hwritten, hparsed⟩ := hback x hx
  exact ⟨rfl, rfl, hkeys, hnow, x, hx, hparsed x (World.empty ⟨901999999999⟩ fun _ => default) hwritten (by decide),
    hparsed x (World.empty ⟨902000000000⟩ fun _ => default) hwritten (by decide)⟩

end SessionWarden
