import SessionWarden.Proofs.Credential.Inspection
import SessionWarden.Proofs.Session.Issue
/-!
# Verified credentials

A credential is accepted exactly if it repeats, under a good signature, what the credential of a returned pair
says, is not past its validity and comes from the client of that session. Nothing that happens to the record of the
session afterwards matters, and what an issuer signs for itself when it is set up is never accepted.
-/

namespace SessionWarden

/-! ### Places of issue and of inspection -/

theorem Except.mapError_eq_ok_iff {ε ε' α : Type} {x : Except ε α} {f : ε → ε'} {a : α} :
    x.mapError f = .ok a ↔ x = .ok a := by
  cases x <;> simp [Except.mapError]

theorem Issuer.trial_eq_ok_iff {name : String} {a : Algorithm} {k : SigningKey} {now : Instant} {i : Issuer} :
    trial name a k now = .ok i ↔ ∃ signer, Signer.ofKey a k = .ok signer ∧ (now.add? Instant.perSecond).isSome ∧
      i = ⟨name, a, signer⟩ := by
  cases hclock : now.add? Instant.perSecond with
  | none => simp [trial, claims, hclock, bind, Except.bind]
  | some expiry =>
    cases hsigner : Signer.ofKey a k with
    | error fault => simp [trial, claims, hclock, hsigner, bind, Except.bind]
    | ok signer =>
      simp [trial, build, claims, hclock, hsigner, bind, Except.bind, Except.map, pure, Except.pure, eq_comm]

/-- An issuer is set up exactly if its key can sign, at a time from which a second can be counted. -/
theorem Issuer.tryNew_eq_ok_iff {name algorithm : String} {key : Bytes} {now : Instant} {i : Issuer} :
    tryNew name algorithm key now = .ok i ↔ ∃ a k signer, Algorithm.ofName algorithm = .ok a ∧
      a.signingKey key = .ok k ∧ Signer.ofKey a k = .ok signer ∧ (now.add? Instant.perSecond).isSome ∧
        i = ⟨name, a, signer⟩ := by
  simp only [tryNew, Except.bind_eq_ok_iff, Except.mapError_eq_ok_iff, trial_eq_ok_iff]
  constructor
  · rintro ⟨a, ha, k, hk, signer, hsigner, hclock, rfl⟩
    exact ⟨a, k, signer, ha, hk, hsigner, hclock, rfl⟩
  · rintro ⟨a, k, signer, ha, hk, hsigner, hclock, rfl⟩
    exact ⟨a, ha, k, hk, signer, hsigner, hclock, rfl⟩

theorem Issuer.of_tryNew {name algorithm : String} {key : Bytes} {now : Instant} {i : Issuer}
    (h : tryNew name algorithm key now = .ok i) : i.name = name ∧ Algorithm.ofName algorithm = .ok i.algorithm := by
  obtain ⟨a, k, signer, ha, -, -, -, rfl⟩ := tryNew_eq_ok_iff.mp h
  exact ⟨rfl, ha⟩

theorem Inspector.tryNew_eq_ok_iff {name algorithm : String} {key : Bytes} {i : Inspector} :
    tryNew name algorithm key = .ok i ↔ ∃ a k, Algorithm.ofName algorithm = .ok a ∧ a.verifyingKey key = .ok k ∧
      i = ⟨name, a, Verifier.ofKey a k⟩ := by
  simp only [tryNew, Except.bind_eq_ok_iff, pure, Except.pure, Except.ok.injEq, eq_comm (a := i)]
  constructor
  · rintro ⟨a, ha, k, hk, rfl⟩
    exact ⟨a, k, ha, hk, rfl⟩
  · rintro ⟨a, k, ha, hk, rfl⟩
    exact ⟨a, ha, k, hk, rfl⟩

theorem Inspector.of_tryNew {name algorithm : String} {key : Bytes} {i : Inspector}
    (h : tryNew name algorithm key = .ok i) : i.issuer = name ∧ Algorithm.ofName algorithm = .ok i.algorithm := by
  obtain ⟨a, k, ha, -, rfl⟩ := tryNew_eq_ok_iff.mp h
  exact ⟨rfl, ha⟩

/-! ### Times -/

theorem Instant.fits_of_representable {t : Instant} (h : t.Representable) : Json.Fits t.second := by
  obtain ⟨hlow, hhigh⟩ := h
  simp only [earliest, latest, ofParts, perSecond] at hlow hhigh
  constructor <;> simp only [second, perSecond] <;> omega

theorem Issuer.claims_eq_ok_iff {issuer subject fingerprint : String} {now : Instant} {age : Int}
    {roles : List String} {c : Claims} : claims issuer now subject age fingerprint roles = .ok c ↔
      (now.after age).Representable ∧
        c = ⟨issuer, subject, (now.after age).second, now.second, fingerprint, roles⟩ := by
  by_cases h : (now.after age).Representable
  · have hadd : now.add? age = some (now.after age) := if_pos h
    simp only [claims, hadd, Except.ok.injEq, h, true_and, eq_comm]
  · have hadd : now.add? age = none := if_neg h
    simp only [claims, hadd, reduceCtorEq, h, false_and]

/-! ### Credentials of one content -/

/-- Whether a text is what an issuer signs for itself when it is set up. -/
def Issuer.IsTrial (i : Issuer) (now : Instant) (text : String) : Prop :=
  ∃ c, claims i.name now trialSubject Instant.perSecond "" [] = .ok c ∧ text = message i.algorithm c

/-- Whether a credential has the header and the payload of another under a good signature. -/
def Inspector.Vouches (i : Inspector) (x access : String) : Prop :=
  ∃ p q, CredentialParts.split? x.toList = some p ∧ CredentialParts.split? access.toList = some q ∧
    p.header = q.header ∧ p.payload = q.payload ∧ i.checkSignature p = .ok ()

theorem Inspector.exists_keyed_signature (issuer : String) (size : Digest.HashSize) (secret : Bytes)
    (header payload : List Char) : ∃ digest, checkSignature ⟨issuer, .hmac size, .hmac size secret⟩
      ⟨header, payload, Base64.urlBare.encodeChars digest⟩ = .ok () :=
  ⟨size.toHash.hmac secret (CredentialParts.message ⟨header, payload, []⟩), if_pos rfl⟩

section Inspector

variable {i : Inspector} {x : String} {p : CredentialParts} {claims : Claims}

theorem Inspector.carries_of_text (hsplit : CredentialParts.split? x.toList = some p)
    (htext : p.text = Issuer.message i.algorithm claims) : i.Carries x claims p := by
  have hdots := CredentialParts.split?_eq_some_iff.mp hsplit
  rw [Issuer.message_eq] at htext
  obtain ⟨hheader, hpayload⟩ :=
    CredentialParts.parts_of_text hdots.2.1 (Issuer.dot_not_mem_partChars claims.toJson) htext
  exact ⟨hsplit, hheader, hpayload⟩

theorem Inspector.vouches_iff {b : Bytes} :
    i.Vouches x (Issuer.join (Issuer.message i.algorithm claims) (Base64.urlBare.encode b)) ↔
      ∃ p, i.Carries x claims p ∧ i.checkSignature p = .ok () := by
  constructor
  · rintro ⟨p, q, hsplit, hq, hheader, hpayload, hsignature⟩
    rw [Issuer.split?_join] at hq
    obtain rfl := Option.some.inj hq
    exact ⟨p, ⟨hsplit, hheader, hpayload⟩, hsignature⟩
  · rintro ⟨p, ⟨hsplit, hheader, hpayload⟩, hsignature⟩
    exact ⟨p, _, hsplit, Issuer.split?_join _ _ _, hheader, hpayload, hsignature⟩

theorem Inspector.of_inspect_join {a : Algorithm} {b : Bytes} {now : Instant} {c : Claims}
    (h : i.inspect now (Issuer.join (Issuer.message a claims) (Base64.urlBare.encode b)) = .ok c) :
    c = claims ∧ i.checkSignature ⟨Issuer.partChars (Header.ofAlgorithm a), Issuer.partChars claims.toJson,
      Base64.urlBare.encodeChars b⟩ = .ok () := by
  obtain ⟨q, value, registered, hsplit, -, hsignature, hpayload, hread, -, -⟩ := Inspector.inspect_eq_ok_iff.mp h
  rw [Issuer.split?_join] at hsplit
  obtain rfl := Option.some.inj hsplit
  rw [Issuer.decodePart?_partChars] at hpayload
  obtain rfl := Option.some.inj hpayload
  exact ⟨Claims.eq_of_ofJson?_toJson hread, hsignature⟩

theorem Inspector.inspect_join_iff {b : Bytes} {now : Instant} {c : Claims} (hexpiry : Json.Fits claims.expiry)
    (hissued : Json.Fits claims.issuedAt) :
    i.inspect now (Issuer.join (Issuer.message i.algorithm claims) (Base64.urlBare.encode b)) = .ok c ↔
      c = claims ∧ i.checkSignature ⟨Issuer.partChars (Header.ofAlgorithm i.algorithm), Issuer.partChars claims.toJson,
        Base64.urlBare.encodeChars b⟩ = .ok () ∧ 0 ≤ claims.expiry ∧ now.second ≤ claims.expiry ∧
          claims.issuer = i.issuer :=
  Inspector.inspect_of_carries ⟨Issuer.split?_join _ _ _, rfl, rfl⟩ hexpiry hissued

/-- What an engine claims of a session is accepted up to the last second of its age, if its signature is good and it is
inspected for the name and the algorithm of the issuer. -/
theorem Engine.inspect_join_eq_ok {e : Engine} {time now : Instant} {record : Record} {roles : List Role} {b : Bytes}
    (h : e.claimsAt time record roles = .ok claims) (hissuer : i.issuer = e.issuer.name)
    (halgorithm : i.algorithm = e.issuer.algorithm) (htime : Json.Fits time.second)
    (hgood : i.checkSignature ⟨Issuer.partChars (Header.ofAlgorithm e.issuer.algorithm),
      Issuer.partChars claims.toJson, Base64.urlBare.encodeChars b⟩ = .ok ())
    (hnow : 0 ≤ now.nanos) (hlast : now.second ≤ (time.after e.params.accessAge).second) :
    i.inspect now (Issuer.join (Issuer.message e.issuer.algorithm claims) (Base64.urlBare.encode b)) = .ok claims := by
  obtain ⟨hexpiry, rfl⟩ := Issuer.claims_eq_ok_iff.mp h
  have hsecond : 0 ≤ now.second := Int.ediv_nonneg hnow (by decide)
  rw [← halgorithm] at hgood ⊢
  rw [Inspector.inspect_join_iff (Instant.fits_of_representable hexpiry) htime]
  exact ⟨rfl, hgood, le_trans hsecond hlast, hlast, hissuer.symm⟩

theorem Inspector.verify_of_trial {j : Issuer} {t : Instant} {w : World} {signal : Bytes}
    (halgorithm : j.algorithm = i.algorithm) (hsplit : CredentialParts.split? x.toList = some p)
    (htrial : j.IsTrial t p.text) (principal : Principal) :
    (w.runAction (i.verify x signal)).1 ≠ .ok principal := by
  intro h
  obtain ⟨user, roles⟩ := principal
  obtain ⟨claims, hclaims, htext⟩ := htrial
  obtain ⟨c, hinspect, huser, -, -⟩ := Inspector.verify_eq_ok_iff.mp h
  obtain ⟨q, value, r, hq, -, -, hvalue, hc, -, -⟩ := Inspector.inspect_eq_ok_iff.mp hinspect
  obtain rfl : p = q := Option.some.inj (hsplit.symm.trans hq)
  obtain ⟨-, -, hpayload⟩ := Inspector.carries_of_text hsplit (halgorithm ▸ htext)
  rw [hpayload, Issuer.decodePart?_partChars] at hvalue
  obtain rfl := Option.some.inj hvalue
  obtain rfl := Claims.eq_of_ofJson?_toJson hc
  obtain ⟨-, rfl⟩ := Issuer.claims_eq_ok_iff.mp hclaims
  -- the payload is readable, so it is the subject that gives the credential away
  have hrefused : (Uuid.parse Issuer.trialSubject).isOk = false := by decide +kernel
  have huser : Uuid.parse Issuer.trialSubject = .ok user.uuid := huser
  rw [huser] at hrefused
  cases hrefused

theorem Engine.Grants.verify_iff {e : Engine} {past : List Event} {pair : TokenPair} {time : Instant}
    {roles : List Role} {signature : Bytes} {w : World} {signal : Bytes} {user : UserId} {titles : List String}
    (h : e.Grants past pair time roles claims signature) (hissuer : i.issuer = e.issuer.name)
    (hcarries : i.Carries x claims p) (htime : time.Representable) (hnow : 0 ≤ w.clock.nanos) :
    (w.runAction (i.verify x signal)).1 = .ok ⟨user, titles⟩ ↔
      i.checkSignature p = .ok () ∧ pair.refresh.user = user ∧
        w.clock.second ≤ (time.after e.params.accessAge).second ∧
        fingerprint user signal = pair.refresh.fingerprint ∧ titles = roles.map Role.title := by
  obtain ⟨hexpiry, rfl⟩ := Issuer.claims_eq_ok_iff.mp h.claimed
  rw [Inspector.verify_of_carries hcarries (Instant.fits_of_representable hexpiry)
    (Instant.fits_of_representable htime)]
  simp only [checkFingerprintHex_encode, checkFingerprint_ok_iff, Uuid.parse_toText, hissuer, true_and]
  -- the expiry is not before the time of the verdict, hence not negative
  have hsecond : 0 ≤ w.clock.second := Int.ediv_nonneg hnow (by decide)
  constructor
  · rintro ⟨hsignature, -, hvalid, huser, hsignal, rfl⟩
    have huser : pair.refresh.user.uuid = user.uuid := Except.ok.inj huser
    exact ⟨hsignature, congrArg UserId.mk huser, hvalid, hsignal, rfl⟩
  · rintro ⟨hsignature, rfl, hvalid, hsignal, rfl⟩
    exact ⟨hsignature, le_trans hsecond hvalid, hvalid, rfl, hsignal, rfl⟩

end Inspector

/-! ### Credentials of returned pairs -/

namespace Traffic

/-- Once the calls have returned, a credential is accepted exactly if it vouches for the credential of a returned
pair, in the second of its expiry or before, for the client of that session, and with the titles that the user had
when it was issued; the table plays no part in it. Nothing is accepted that repeats what the issuer signed when it
was set up. -/
theorem Attainable.verified_iff_returned {name algorithm : String} {key key' : Bytes} {start : Instant} {e : Engine}
    {i : Inspector} {s : Traffic} {x : String} (w : World) (signal : Bytes)
    (hissuer : Issuer.tryNew name algorithm key start = .ok e.issuer)
    (hinspector : Inspector.tryNew name algorithm key' = .ok i)
    (h : Attainable e s) (hdone : ∀ c ∈ s.calls, ∃ r, c.script = .done r)
    (htimes : ∀ t ∈ s.times, t.Representable) (hnow : 0 ≤ w.clock.nanos)
    (hgenuine : ∀ p, CredentialParts.split? x.toList = some p → i.checkSignature p = .ok () →
      e.issuer.IsTrial start p.text ∨ p.text ∈ s.signed) :
    (∀ user titles, (w.runAction (i.verify x signal)).1 = .ok ⟨user, titles⟩ ↔
      ∃ k c pair time roles, s.calls[k]? = some ⟨c, .done (.ok (.pair pair))⟩ ∧
        ((s.eventsOf k).filterMap Event.time?).getLast? = some time ∧
        (s.eventsOf k).filterMap Event.roles? = [(user, roles)] ∧
        i.Vouches x pair.access ∧ pair.refresh.user = user ∧
        w.clock.second ≤ (time.after e.params.accessAge).second ∧
        fingerprint user signal = pair.refresh.fingerprint ∧ titles = roles.map Role.title) ∧
      ∀ p, CredentialParts.split? x.toList = some p → e.issuer.IsTrial start p.text →
        ∀ principal, (w.runAction (i.verify x signal)).1 ≠ .ok principal := by
  obtain ⟨hname, ha⟩ := Issuer.of_tryNew hissuer
  obtain ⟨hname', ha'⟩ := Inspector.of_tryNew hinspector
  have hsame : i.issuer = e.issuer.name := hname'.trans hname.symm
  have halgorithm : e.issuer.algorithm = i.algorithm := Except.ok.inj (ha.symm.trans ha')
  refine ⟨fun user titles => ⟨fun hverify => ?_, ?_⟩, fun p hsplit htrial =>
    Inspector.verify_of_trial halgorithm hsplit htrial⟩
  -- what is accepted was signed, and not at the start: so a call signed it, and returned it
  · obtain ⟨c, hinspect, -⟩ := Inspector.verify_eq_ok_iff.mp hverify
    obtain ⟨p, -, -, hsplit, -, hsignature, -⟩ := Inspector.inspect_eq_ok_iff.mp hinspect
    rcases hgenuine p hsplit hsignature with htrial | hsigned
    · exact absurd hverify (Inspector.verify_of_trial halgorithm hsplit htrial _)
    · obtain ⟨k, c, pair, time, roles, claims, b, hk, hgrants, htext⟩ := h.granted_of_signed hdone hsigned
      have hcarries : i.Carries x claims p := Inspector.carries_of_text hsplit (halgorithm ▸ htext)
      have htime := htimes _ (mem_times_of_eventsOf (List.mem_of_getLast? hgrants.read))
      obtain ⟨-, rfl, hvalid, hsignal, htitles⟩ := (hgrants.verify_iff hsame hcarries htime hnow).mp hverify
      refine ⟨k, c, pair, time, roles, hk, hgrants.read, hgrants.looked, ?_, rfl, hvalid, hsignal, htitles⟩
      rw [hgrants.access, halgorithm]
      exact Inspector.vouches_iff.mpr ⟨p, hcarries, hsignature⟩
  -- the events of the call that returned the pair settle what its credential says
  · rintro ⟨k, c, pair, time, roles, hk, hread, hlooked, hvouches, huser, hvalid, hsignal, htitles⟩
    obtain ⟨time', roles', claims, b, hgrants⟩ := h.settles hk
    obtain rfl : time = time' := Option.some.inj (hread.symm.trans hgrants.read)
    obtain rfl : roles = roles' := by
      have hlist := hlooked.symm.trans hgrants.looked
      injection hlist with hhead
      injection hhead
    rw [hgrants.access, halgorithm] at hvouches
    obtain ⟨p, hcarries, hsignature⟩ := Inspector.vouches_iff.mp hvouches
    have htime := htimes _ (mem_times_of_eventsOf (List.mem_of_getLast? hgrants.read))
    exact (hgrants.verify_iff hsame hcarries htime hnow).mpr ⟨hsignature, huser, hvalid, hsignal, htitles⟩

theorem exists_granted_sample : ∃ (s : Traffic) (pair : TokenPair) (claims : Claims) (signature : Bytes),
    Reachable Engine.sample s ∧ pair.refresh = Record.sample ∧
      s.calls = [⟨.create default [] true, .done (.ok (.pair pair))⟩] ∧ (∀ t ∈ s.times, t = ⟨0⟩) ∧
      Engine.sample.Grants (s.eventsOf 0) pair ⟨0⟩ [] claims signature := by
  obtain ⟨s, access, hs, -, hcalls, hfits⟩ := exists_sample
  have hk : s.calls[0]? = some ⟨.create default [] true, .done (.ok (.pair ⟨access, Record.sample⟩))⟩ := by
    rw [hcalls]
    rfl
  obtain ⟨time, roles, claims, b, hgrants⟩ := Attainable.settles (Path.moves hs) hk
  have hzero : ∀ t ∈ s.times, t = ⟨0⟩ := by
    intro t ht
    obtain ⟨y, hy, hread⟩ := List.mem_filterMap.mp ht
    have hfit := hfits y hy
    rw [Event.eq_of_time?_eq_some hread] at hfit
    exact hfit
  obtain rfl : time = ⟨0⟩ := hzero _ (mem_times_of_eventsOf (List.mem_of_getLast? hgrants.read))
  obtain rfl : roles = [] := by
    have hmem : (default, roles) ∈ (s.eventsOf 0).filterMap Event.roles? := by
      rw [hgrants.looked]
      exact List.mem_singleton.mpr rfl
    obtain ⟨ev, hev, hlooked⟩ := List.mem_filterMap.mp hmem
    have hfit := hfits _ (mem_eventsOf.mp hev)
    rw [Event.eq_of_roles?_eq_some hlooked] at hfit
    exact hfit
  exact ⟨s, _, claims, b, hs, rfl, hcalls, hzero, hgrants⟩

theorem verified_of_sample : ∃ (s : Traffic) (i : Inspector) (x : String),
    Issuer.tryNew "warden" "HS256" [] ⟨0⟩ = .ok Engine.sample.issuer ∧
      Inspector.tryNew "warden" "HS256" [] = .ok i ∧ Reachable Engine.sample s ∧
      (∀ c ∈ s.calls, ∃ r, c.script = .done r) ∧ (∀ t ∈ s.times, t.Representable) ∧
      (∀ p, CredentialParts.split? x.toList = some p → i.checkSignature p = .ok () →
        Engine.sample.issuer.IsTrial ⟨0⟩ p.text ∨ p.text ∈ s.signed) ∧
      ((World.empty ⟨0⟩ fun _ => default).runAction (i.verify x [])).1 = .ok ⟨default, []⟩ := by
  obtain ⟨s, pair, claims, b, hs, hrecord, hcalls, hzero, hgrants⟩ := exists_granted_sample
  have halgorithm : Algorithm.ofName "HS256" = .ok (.hmac .bits256) := by decide +kernel
  have hissuer : Issuer.tryNew "warden" "HS256" [] ⟨0⟩ = .ok Engine.sample.issuer := by
    rw [Issuer.tryNew, halgorithm]
    rfl
  have hinspector : Inspector.tryNew "warden" "HS256" [] = .ok ⟨"warden", .hmac .bits256, .hmac .bits256 []⟩ := by
    rw [Inspector.tryNew, halgorithm]
    rfl
  have hdone : ∀ c ∈ s.calls, ∃ r, c.script = .done r := by
    intro c hc
    rw [hcalls, List.mem_singleton] at hc
    exact ⟨_, congrArg Call.script hc⟩
  have htimes : ∀ t ∈ s.times, t.Representable := by
    intro t ht
    rw [hzero t ht]
    decide
  obtain ⟨digest, hsignature⟩ := Inspector.exists_keyed_signature "warden" .bits256 []
    (Issuer.partChars (Header.ofAlgorithm (.hmac .bits256))) (Issuer.partChars claims.toJson)
  have hsplit := Issuer.split?_join (.hmac .bits256) claims digest
  have hgenuine : ∀ p, CredentialParts.split? (Issuer.join (Issuer.message (.hmac .bits256) claims)
      (Base64.urlBare.encode digest)).toList = some p →
      Inspector.checkSignature ⟨"warden", .hmac .bits256, .hmac .bits256 []⟩ p = .ok () →
      Engine.sample.issuer.IsTrial ⟨0⟩ p.text ∨ p.text ∈ s.signed := by
    intro p hp _
    obtain rfl := Option.some.inj (hsplit.symm.trans hp)
    have hsigned := mem_signed_of_eventsOf hgrants.signed
    rw [Issuer.message_eq] at hsigned
    exact Or.inr hsigned
  have hverdict := (Attainable.verified_iff_returned (World.empty ⟨0⟩ fun _ => default) [] hissuer hinspector
    (Path.moves hs) hdone htimes (Int.le_refl 0) hgenuine).1 default []
  have hvouches : Inspector.Vouches ⟨"warden", .hmac .bits256, .hmac .bits256 []⟩
      (Issuer.join (Issuer.message (.hmac .bits256) claims) (Base64.urlBare.encode digest)) pair.access := by
    rw [hgrants.access]
    exact Inspector.vouches_iff.mpr ⟨_, ⟨hsplit, rfl, rfl⟩, hsignature⟩
  have hlooked := hgrants.looked
  rw [hrecord] at hlooked
  refine ⟨s, _, _, hissuer, hinspector, hs, hdone, htimes, hgenuine, hverdict.mpr ?_⟩
  refine ⟨0, .create default [] true, pair, ⟨0⟩, [], ?_, hgrants.read, hlooked, hvouches, ?_, by decide, ?_, rfl⟩
  · rw [hcalls]
    rfl
  · rw [hrecord]
    rfl
  · rw [hrecord]
    rfl

end Traffic

end SessionWarden
