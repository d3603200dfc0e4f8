import SessionWarden.Proofs.Credential.Acceptance
import SessionWarden.Proofs.Http.Answers
import SessionWarden.Proofs.Http.Binding
import SessionWarden.Proofs.Session.Verification
/-!
# Credentials that are recognised

A login hands out an access credential. If the key that verifies accepts the signature under it, the credential tells
up to the last second of its age who has logged in and with which roles, to whoever presents it from the same client.
-/

namespace SessionWarden

/-! ### A credential in a header -/

def Printed (c : Char) : Prop := 32 ≤ c.toNat ∧ c.toNat < 127

instance (c : Char) : Decidable (Printed c) := inferInstanceAs (Decidable (_ ∧ _))

theorem Request.valueText?_ofString {s : String} (h : ∀ c ∈ s.toList, Printed c) :
    valueText? (Bytes.ofString s) = some s := by
  have hbytes := Bytes.ofString_ofList fun c hc => (h c hc).2.trans (by decide : 127 < 128)
  rw [String.ofList_toList] at hbytes
  have htext : (Bytes.ofString s).all isTextByte = true := by
    rw [hbytes]
    refine List.all_eq_true.mpr fun b hb => ?_
    obtain ⟨c, hc, rfl⟩ := List.mem_map.mp hb
    obtain ⟨hlow, hhigh⟩ := h c hc
    have hval : c.val.toUInt8.toNat = c.toNat := by
      rw [UInt32.toNat_toUInt8]
      exact Nat.mod_eq_of_lt (by show c.toNat < 256; omega)
    simp only [isTextByte, Bool.or_eq_true, Bool.and_eq_true, decide_eq_true_eq, beq_iff_eq]
    refine Or.inr ⟨UInt8.le_iff_toNat_le.mpr ?_, UInt8.lt_iff_toNat_lt.mpr ?_⟩
    · rw [hval]
      exact hlow
    · rw [hval]
      exact hhigh
  rw [valueText?, if_pos htext, Bytes.toString?_ofString]

theorem Base64.printed_encodeChars (b : Bytes) : ∀ c ∈ urlBare.encodeChars b, Printed c :=
  forall_mem_encodeChars rfl (P := Printed) (by decide) b

theorem Issuer.printed_join (a : Algorithm) (claims : Claims) (b : Bytes) :
    ∀ c ∈ (join (message a claims) (Base64.urlBare.encode b)).toList, Printed c := by
  intro c hc
  have hdot : Printed '.' := by decide
  simp only [join, message, encodePart, Base64.Variant.encode, String.toList_append, String.toList_ofList,
    List.mem_append] at hc
  rcases hc with ((((hc | hc) | hc) | hc) | hc)
  · exact Base64.printed_encodeChars _ c hc
  · exact List.mem_singleton.mp hc ▸ hdot
  · exact Base64.printed_encodeChars _ c hc
  · exact List.mem_singleton.mp hc ▸ hdot
  · exact Base64.printed_encodeChars _ c hc

theorem Request.optional?_bearer {r : Request} {access : String}
    (hheader : r.header? "authorization" = some (Bytes.ofString ("Bearer " ++ access)))
    (haccess : ∀ c ∈ access.toList, Printed c) : r.optional? "authorization" = some (some ("Bearer " ++ access)) := by
  have hprinted : ∀ c ∈ ("Bearer " ++ access).toList, Printed c := by
    intro c hc
    rw [String.toList_append] at hc
    rcases List.mem_append.mp hc with hscheme | hc
    · have hall : ("Bearer ".toList.all fun c => decide (Printed c)) = true := by decide
      exact of_decide_eq_true (List.all_eq_true.mp hall c hscheme)
    · exact haccess c hc
  simp only [optional?, hheader, valueText?_ofString hprinted, Option.map_some]

/-! ### What a login grants -/

theorem Script.Obeys.of_runs {α : Type} {allowed : List Event → Query → Prop} {fits : List Event → α → Prop}
    {x : Script α} {past events : List Event} {t after : Table} {a : α} (h : x.Obeys allowed fits past)
    (hruns : x.Runs t events a after) : fits (past ++ events) a := by
  induction x generalizing past t events with
  | done b =>
    obtain ⟨rfl, rfl, rfl⟩ := hruns
    rw [List.append_nil]
    exact h
  | ask q next ih =>
    obtain ⟨reply, mid, rest, rfl, hanswer, hrest⟩ := hruns
    have hfits := ih reply (h.2 reply ⟨t, mid, hanswer⟩) hrest
    rwa [List.append_assoc] at hfits

/-- Whether a request has logged in to an account, from a client with some headers and with a new session. -/
structure Request.LogsIn (r : Request) (events : List Event) (h : ClientHeaders) (account : Account) (x : Record) :
    Prop where
  headers : r.clientHeaders? = some h
  password : ∃ login, LoginRequest.ofRequest r = .ok login ∧ ⟨.account login.name, some account⟩ ∈ events ∧
    Password.verify login.password account.passwordHash = .ok true
  user : x.user = account.user
  bound : x.fingerprint = fingerprint account.user h.signal

section Login

variable {s : Service} {r : Request} {t after : Table} {events : List Event} {response : Response}

theorem Engine.Grants.exists_signer {e : Engine} {p : TokenPair} {time : Instant} {roles : List Role} {claims : Claims}
    {b : Bytes} (h : e.Grants events p time roles claims b) :
    ∃ signer, ⟨.sign signer (Issuer.message e.issuer.algorithm claims), Base64.urlBare.encode b⟩ ∈ events := by
  obtain ⟨ev, hev, hsome⟩ := List.mem_filterMap.mp (h.signed ▸ List.mem_singleton_self _)
  obtain ⟨signer, rfl⟩ := Event.eq_of_signed?_eq_some hsome
  exact ⟨signer, hev⟩

theorem Engine.Grants.cons_account {e : Engine} {p : TokenPair} {time : Instant} {roles : List Role} {claims : Claims}
    {b : Bytes} {name : String} {found : Option Account} (h : e.Grants events p time roles claims b) :
    e.Grants (⟨.enter .getByName, .ok ()⟩ :: ⟨.account name, found⟩ :: events) p time roles claims b where
  looked := h.looked
  read := h.read
  claimed := h.claimed
  signed := h.signed
  access := h.access

/-- An opening that succeeds has granted the credential of its pair, for the session that it has made. -/
theorem granted_of_create {e : Engine} {user : UserId} {signal : Bytes} {persistent : Bool} {p : TokenPair}
    (h : (e.create user signal persistent).Runs t events (.ok p) after) :
    p.refresh.user = user ∧ p.refresh.fingerprint = fingerprint user signal ∧
      ∃ time roles claims b, e.Grants events p time roles claims b := by
  have hserve : (e.serve (.create user signal persistent)).Runs t events (.ok (.pair p)) after :=
    Action.runs_map.mpr ⟨.ok p, h, rfl⟩
  have hsettles : e.Settles ([] ++ events) (.ok (.pair p)) := (settles_serve e _).of_runs hserve
  have hmade : p.refresh.user = user ∧ p.refresh.fingerprint = fingerprint user signal := by
    cases runs_open h with
    | opened evict make issue new mid access hroom hmake hissue =>
      have hnew : e.Makes make user signal persistent new := hmake.makes fun _ hev => hev
      exact ⟨hnew.user_eq, hnew.fingerprint_eq⟩
  exact ⟨hmade.1, hmade.2, hsettles⟩

/-- A login that succeeds has found the password right, and has granted a credential to its user. -/
theorem granted_of_login (hcheck : Endpoint.login.check r = .ok ()) (hruns : (s.respond r).Runs t events response after)
    (hstatus : response.status = 200) : ∃ h account p time roles claims b, response = s.answerPair p ∧
      r.LogsIn events h account p.refresh ∧ s.engine.Grants events p time roles claims b := by
  have hprepares := s.prepares_work r .login
  cases hwork : s.work r .login with
  | error refusal =>
    rw [Service.respond_of_refusal hcheck hwork] at hruns
    obtain ⟨-, rfl, -⟩ := hruns
    exact absurd hstatus refusal.verdict.status_ne
  | ok a =>
    rw [Service.respond_of_work hcheck hwork] at hruns
    obtain ⟨first, rest, result, mid, hfirst, hsettle, rfl⟩ := Script.runs_bind.mp hruns
    cases result with
    | error err =>
      obtain ⟨rfl, -⟩ := runs_settle_error hsettle
      exact absurd hstatus (ErrorCode.ofError err).status_ne
    | ok done =>
      obtain ⟨rfl, rfl, rfl⟩ := hsettle
      rw [List.append_nil]
      rw [hwork] at hprepares
      cases hprepares with
      | tokenless e he hid => cases he
      | login login signal hlogin hsignal =>
        obtain ⟨h, hheaders, rfl⟩ := Option.map_eq_some_iff.mp hsignal
        obtain ⟨p, hopen, rfl⟩ := runs_answered hfirst
        rcases Action.runs_bind.mp hopen with ⟨look, open_, user, mid, hverify, hcreate, rfl⟩ | ⟨err, -, hr⟩
        · obtain ⟨account, rfl, rfl, hpassword⟩ := runs_loginVerify hverify
          obtain ⟨huser, hbound, time, roles, claims, b, hgrants⟩ := granted_of_create hcreate
          exact ⟨h, account, p, time, roles, claims, b, rfl,
            ⟨hheaders, ⟨login, hlogin, List.mem_cons_of_mem _ List.mem_cons_self, hpassword⟩, huser, hbound⟩,
            hgrants.cons_account⟩
        · cases hr

end Login

/-! ### A credential that is accepted -/

section Accepted

variable {i : Inspector} {e : Engine} {events : List Event} {p : TokenPair} {time now : Instant} {roles : List Role}
  {claims : Claims} {b : Bytes}

/-- What was granted is accepted up to the last second of its age, if its signature is. -/
theorem Engine.Grants.inspect_eq_ok (h : e.Grants events p time roles claims b) (hissuer : i.issuer = e.issuer.name)
    (halgorithm : i.algorithm = e.issuer.algorithm) (htime : Json.Fits time.second)
    (hgood : i.verifier.verify (Bytes.ofString (Issuer.message e.issuer.algorithm claims)) b = true)
    (hnow : 0 ≤ now.nanos) (hlast : now.second ≤ (time.after e.params.accessAge).second) :
    i.inspect now p.access = .ok claims := by
  rw [h.access]
  exact Engine.inspect_join_eq_ok h.claimed hissuer halgorithm htime (Inspector.checkSignature_written_iff.mpr hgood)
    hnow hlast

theorem Engine.Grants.inspect_ne_ok (h : e.Grants events p time roles claims b)
    (hbad : i.verifier.verify (Bytes.ofString (Issuer.message e.issuer.algorithm claims)) b = false) (now : Instant)
    (c : Claims) : i.inspect now p.access ≠ .ok c := by
  intro hinspect
  rw [h.access] at hinspect
  have hgood := Inspector.checkSignature_written_iff.mp (Inspector.of_inspect_join hinspect).2
  exact absurd (hbad.symm.trans hgood) Bool.false_ne_true

/-- A credential that is accepted tells whom it is for, to the client that it is bound to. -/
theorem Inspector.runs_verify_of_inspect {t after : Table} {access : String} {signal : Bytes} {user : UserId}
    {result : Except AuthError Principal} (haccepted : ∀ now, ⟨.now, now⟩ ∈ events → i.inspect now access = .ok claims)
    (hsubject : claims.subject = user.uuid.toText)
    (hfingerprint : claims.fingerprint = Hex.encode (fingerprint user signal)) :
    (i.verify access signal).Runs t events result after ↔
      ∃ now, events = [⟨.now, now⟩] ∧ result = .ok ⟨user, claims.roles⟩ ∧ after = t := by
  have hcheck : checkFingerprintHex user signal claims.fingerprint = .ok () := by
    rw [hfingerprint, checkFingerprintHex_encode]
    exact checkFingerprint_ok_iff.mpr rfl
  rw [verify_eq_inspect]
  constructor
  · intro h
    obtain ⟨now, rest, rfl, hrest⟩ := runs_timed h
    simp only [haccepted now List.mem_cons_self, principal, hsubject, Uuid.parse_toText, hcheck] at hrest
    obtain ⟨rfl, rfl, rfl⟩ := hrest
    exact ⟨now, rfl, rfl, rfl⟩
  · rintro ⟨now, rfl, rfl, rfl⟩
    refine Action.runs_asked.mpr ⟨now, after, [], rfl, rfl, ?_⟩
    simp only [haccepted now (List.mem_singleton_self _), principal, hsubject, Uuid.parse_toText, hcheck]
    exact ⟨rfl, rfl, rfl⟩

theorem Inspector.runs_verify_of_not_inspect {t after : Table} {access : String} {signal : Bytes}
    {result : Except AuthError Principal} (hrefused : ∀ now c, i.inspect now access ≠ .ok c)
    (h : (i.verify access signal).Runs t events result after) : result = .error .credentialInvalid ∧ after = t := by
  rw [verify_eq_inspect] at h
  obtain ⟨now, rest, rfl, hrest⟩ := runs_timed h
  cases hinspect : i.inspect now access with
  | ok c => exact absurd hinspect (hrefused now c)
  | error reason =>
    simp only [hinspect] at hrest
    obtain ⟨-, rfl, rfl⟩ := runs_refused hrest
    exact ⟨rfl, rfl⟩

end Accepted

/-- Whether whoever presents a credential from a client with some headers is told whose it is, up to the last second
of its age, with the table as it was. -/
structure Service.Recognises (s : Service) (access : String) (h : ClientHeaders) (principal : Principal)
    (last : Int) : Prop where
  answers : ∀ (r : Request) (t : Table) (now : Instant), Endpoint.session.check r = .ok () →
    r.clientHeaders? = some h → r.header? "authorization" = some (Bytes.ofString ("Bearer " ++ access)) →
      0 ≤ now.nanos → now.second ≤ last → (s.respond r).Runs t [⟨.now, now⟩] (answerPrincipal principal) t
  only : ∀ (r : Request) (t after : Table) (events : List Event) (response : Response),
    Endpoint.session.check r = .ok () → r.clientHeaders? = some h →
      r.header? "authorization" = some (Bytes.ofString ("Bearer " ++ access)) →
      (∀ now, ⟨.now, now⟩ ∈ events → 0 ≤ now.nanos ∧ now.second ≤ last) → (s.respond r).Runs t events response after →
        response = answerPrincipal principal ∧ after = t

theorem Engine.Grants.recognised {s : Service} {h : ClientHeaders} {p : TokenPair} {events : List Event}
    {time : Instant} {roles : List Role} {claims : Claims} {b : Bytes}
    (hgrants : s.engine.Grants events p time roles claims b) (hissuer : s.inspector.issuer = s.engine.issuer.name)
    (halgorithm : s.inspector.algorithm = s.engine.issuer.algorithm) (htime : Json.Fits time.second)
    (hgood : s.inspector.verifier.verify (Bytes.ofString (Issuer.message s.engine.issuer.algorithm claims)) b = true)
    (hbound : p.refresh.fingerprint = fingerprint p.refresh.user h.signal) :
    s.Recognises p.access h ⟨p.refresh.user, roles.map Role.title⟩ (time.after s.engine.params.accessAge).second := by
  obtain ⟨-, hclaims⟩ := Issuer.claims_eq_ok_iff.mp hgrants.claimed
  have hsubject : claims.subject = p.refresh.user.uuid.toText := by rw [hclaims]
  have hdigest : claims.fingerprint = Hex.encode (fingerprint p.refresh.user h.signal) := by rw [hclaims, hbound]
  have hroles : claims.roles = roles.map Role.title := by rw [hclaims]
  have hinspect : ∀ now : Instant, 0 ≤ now.nanos ∧ now.second ≤ (time.after s.engine.params.accessAge).second →
      s.inspector.inspect now p.access = .ok claims := fun now hnow =>
    hgrants.inspect_eq_ok hissuer halgorithm htime hgood hnow.1 hnow.2
  have hprinted : ∀ c ∈ p.access.toList, Printed c := hgrants.access ▸ Issuer.printed_join _ _ _
  constructor
  · intro r t now hcheck hheaders hbearer hepoch hlast
    rw [respond_of_credential hcheck (Request.optional?_bearer hbearer hprinted) (Request.signal?_of_headers hheaders)]
    have hnow : ∀ now', ⟨.now, now'⟩ ∈ [(⟨.now, now⟩ : Event)] → s.inspector.inspect now' p.access = .ok claims := by
      intro now' hmem
      cases List.mem_singleton.mp hmem
      exact hinspect now ⟨hepoch, hlast⟩
    have hverify : (s.inspector.verify p.access h.signal).Runs t [⟨.now, now⟩]
        (.ok ⟨p.refresh.user, claims.roles⟩) t :=
      (Inspector.runs_verify_of_inspect hnow hsubject hdigest).mpr ⟨now, rfl, rfl, rfl⟩
    rw [hroles] at hverify
    exact Script.runs_bind.mpr ⟨_, [], _, t, hverify, ⟨rfl, rfl, rfl⟩, rfl⟩
  · intro r t after events response hcheck hheaders hbearer hclock hruns
    rw [respond_of_credential hcheck (Request.optional?_bearer hbearer hprinted)
      (Request.signal?_of_headers hheaders)] at hruns
    obtain ⟨first, last, result, mid, hverify, hanswer, rfl⟩ := Script.runs_bind.mp hruns
    have hnow : ∀ now, ⟨.now, now⟩ ∈ first → s.inspector.inspect now p.access = .ok claims := fun now hmem =>
      hinspect now (hclock now (List.mem_append_left _ hmem))
    obtain ⟨now, rfl, rfl, rfl⟩ := (Inspector.runs_verify_of_inspect hnow hsubject hdigest).mp hverify
    obtain ⟨-, rfl, rfl⟩ := hanswer
    rw [hroles]
    exact ⟨rfl, rfl⟩

/-- What was granted is of no use, if the key that verifies does not accept its signature. -/
theorem Engine.Grants.runs_respond_of_unverified {s : Service} {p : TokenPair} {events : List Event} {time : Instant}
    {roles : List Role} {claims : Claims} {b : Bytes} (hgrants : s.engine.Grants events p time roles claims b)
    (hbad : s.inspector.verifier.verify (Bytes.ofString (Issuer.message s.engine.issuer.algorithm claims)) b = false)
    {r : Request} {h : ClientHeaders} {t after : Table} {more : List Event} {response : Response}
    (hcheck : Endpoint.session.check r = .ok ()) (hheaders : r.clientHeaders? = some h)
    (hbearer : r.header? "authorization" = some (Bytes.ofString ("Bearer " ++ p.access)))
    (hruns : (s.respond r).Runs t more response after) : response = .failure .credentialInvalid none ∧ after = t := by
  have hprinted : ∀ c ∈ p.access.toList, Printed c := hgrants.access ▸ Issuer.printed_join _ _ _
  rw [respond_of_credential hcheck (Request.optional?_bearer hbearer hprinted)
    (Request.signal?_of_headers hheaders)] at hruns
  obtain ⟨first, last, result, mid, hverify, hanswer, rfl⟩ := Script.runs_bind.mp hruns
  obtain ⟨rfl, rfl⟩ := Inspector.runs_verify_of_not_inspect (fun now c => hgrants.inspect_ne_ok hbad now c) hverify
  exact (ends_answerError .credentialInvalid none).of_runs_outside hanswer

end SessionWarden
