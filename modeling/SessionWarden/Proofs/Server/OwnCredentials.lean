import SessionWarden.Proofs.Http.Recognition
import SessionWarden.Server
/-!
# Credentials of a server that has started

A server starts exactly if its settings can be used: the key that signs is tried, the key that verifies is read. Whether
the two belong together is not looked at. Where they do, the server recognises every credential that it hands out, for
as long as it is said to last; where they do not, the server starts all the same and recognises none.
-/

namespace SessionWarden

/-! ### Starting -/

theorem withKeyFile_eq_ok_iff {α : Type} {content : Except FileError Bytes} {use : Bytes → Except CredentialError α}
    {a : α} : withKeyFile content use = .ok a ↔ ∃ key, content = .ok key ∧ use key = .ok a := by
  cases content <;> simp [withKeyFile]

namespace Server

/-- Whether settings and the contents of key files can be used, and what they come to. A store in memory needs
nothing else, a database must be reached. -/
structure Usable (connect : Backend.Connect) (now : Instant) (s : Settings)
    (privateKey publicKey : Except FileError Bytes) (backend : Backend) (params : TokenParams) (a : Algorithm)
    (signer : Signer) (verifier : Verifier) : Prop where
  store : Backend.ofName s.store.backend = .ok backend
  reached : backend = .database → connect s.store.source = .ok ()
  ages : TokenParams.tryNew now s.token.accessAgeMinutes s.token.refreshAgeDays s.token.refreshCap = .ok params
  algorithm : Algorithm.ofName s.credential.algorithm = .ok a
  signing : ∃ text key, privateKey = .ok text ∧ a.signingKey text = .ok key ∧ Signer.ofKey a key = .ok signer
  verifying : ∃ text key, publicKey = .ok text ∧ a.verifyingKey text = .ok key ∧ verifier = Verifier.ofKey a key
  /-- The credential with which the signing key is tried is good for a second. -/
  clock : (now.add? Instant.perSecond).isSome

def assemble (s : Settings) (backend : Backend) (params : TokenParams) (a : Algorithm) (signer : Signer)
    (verifier : Verifier) : Server :=
  ⟨⟨⟨⟨s.credential.issuer, a, signer⟩, params⟩, ⟨s.credential.issuer, a, verifier⟩, s.http.cookiePath⟩, backend⟩

variable {connect : Backend.Connect} {now : Instant} {s : Settings} {privateKey publicKey : Except FileError Bytes}
  {server : Server}

theorem ofKeys_eq_ok_iff_usable : (ofKeys connect now s privateKey publicKey).2 = .ok server ↔
    ∃ backend params a signer verifier, Usable connect now s privateKey publicKey backend params a signer verifier ∧
      server = assemble s backend params a signer verifier := by
  simp only [ofKeys_eq_ok_iff, prepare, Except.bind_eq_ok_iff, Except.mapError_eq_ok_iff, withKeyFile_eq_ok_iff,
    Issuer.tryNew_eq_ok_iff, Inspector.tryNew_eq_ok_iff]
  constructor
  · rintro ⟨_, backend, ⟨params, hages, _, ⟨text, htext, a, k, signer, ha, hk, hsigner, hclock, rfl⟩, _,
      ⟨text', htext', a', k', ha', hk', rfl⟩, hservice⟩, hstore, hreached, rfl⟩
    obtain rfl := Except.ok.inj (ha.symm.trans ha')
    obtain rfl := Except.ok.inj hservice
    exact ⟨backend, params, a, signer, _, ⟨hstore, hreached, hages, ha, ⟨text, k, htext, hk, hsigner⟩,
      ⟨text', k', htext', hk', rfl⟩, hclock⟩, rfl⟩
  · rintro ⟨backend, params, a, signer, _, ⟨hstore, hreached, hages, ha, ⟨text, k, htext, hk, hsigner⟩,
      ⟨text', k', htext', hk', rfl⟩, hclock⟩, rfl⟩
    exact ⟨_, backend, ⟨params, hages, _, ⟨text, htext, a, k, signer, ha, hk, hsigner, hclock, rfl⟩, _,
      ⟨text', htext', a, k', ha, hk', rfl⟩, rfl⟩, hstore, hreached, rfl⟩

end Server

/-! ### Ages -/

theorem TokenParams.accessAge_of_tryNew {now : Instant} {accessMinutes refreshDays : Int} {cap : Nat}
    {params : TokenParams} (h : tryNew now accessMinutes refreshDays cap = .ok params) :
    0 < params.accessAge ∧ params.accessAge ≤ longestSpan * 1000000 := by
  obtain ⟨⟨hminutes, -⟩, ⟨hspan, -⟩, -⟩ := tryNew_eq_ok_iff.mp h
  obtain ⟨⟨-, hlongest⟩, hage⟩ := span?_eq_some_iff.mp hspan
  omega

/-- A time from which an age leads to a time that can be represented is told in the claims of a credential. -/
theorem Instant.fits_of_expiry {t : Instant} {age : Int} (hexpiry : (t.after age).Representable) (hpositive : 0 < age)
    (hspan : age ≤ TokenParams.longestSpan * 1000000) : Json.Fits t.second := by
  obtain ⟨hlow, hhigh⟩ := hexpiry
  simp only [earliest, latest, ofParts, perSecond, after, TokenParams.longestSpan] at hlow hhigh hspan
  constructor <;> simp only [second, perSecond] <;> omega

/-! ### Recognition -/

/-- Whether a key accepts all that was signed in the course of some events. -/
def Verifier.Confirms (v : Verifier) (events : List Event) : Prop :=
  ∀ signer text b, ⟨.sign signer text, Base64.urlBare.encode b⟩ ∈ events → v.verify (Bytes.ofString text) b = true

theorem Verifier.confirms_of_secret {size : Digest.HashSize} {secret : Bytes} {events : List Event}
    (h : ∀ signer text signature, ⟨.sign signer text, signature⟩ ∈ events →
      signature = (Signer.hmac size secret).signText (Bytes.ofString text)) : (hmac size secret).Confirms events := by
  intro signer text b hsigned
  obtain rfl : b = (Signer.hmac size secret).sign (Bytes.ofString text) :=
    Base64.urlBare_encode_injective (h signer text _ hsigned)
  exact beq_self_eq_true _

namespace Server

theorem confirms_of_same_secret {connect : Backend.Connect} {now : Instant} {s : Settings} {text : Bytes}
    {server : Server} {size : Digest.HashSize} {events : List Event}
    (halgorithm : Algorithm.ofName s.credential.algorithm = .ok (.hmac size))
    (hstart : (ofKeys connect now s (.ok text) (.ok text)).2 = .ok server)
    (hsigned : ∀ signer text signature, ⟨.sign signer text, signature⟩ ∈ events →
      signature = server.service.engine.issuer.signer.signText (Bytes.ofString text)) :
    server.service.inspector.verifier.Confirms events := by
  obtain ⟨backend, params, a, signer, verifier, husable, rfl⟩ := ofKeys_eq_ok_iff_usable.mp hstart
  obtain rfl := Except.ok.inj (halgorithm.symm.trans husable.algorithm)
  obtain ⟨privateText, privateSecret, hprivate, hread, hsigner⟩ := husable.signing
  obtain ⟨publicText, publicSecret, hpublic, hread', rfl⟩ := husable.verifying
  obtain rfl := Except.ok.inj hprivate
  obtain rfl := Except.ok.inj hpublic
  obtain rfl := Except.ok.inj hread
  obtain rfl := Except.ok.inj hread'
  obtain rfl := Except.ok.inj hsigner
  exact Verifier.confirms_of_secret hsigned

/-- A server starts exactly if its settings can be used. Once it has started, whoever logs in is recognised by the
credential that is handed out, up to the last second of its age and with the roles of the login, if the key that
verifies accepts what was signed. -/
theorem own_credentials_recognised (connect : Backend.Connect) (now : Instant) (s : Settings)
    (privateKey publicKey : Except FileError Bytes) (server : Server) :
    ((ofKeys connect now s privateKey publicKey).2 = .ok server ↔
      ∃ backend params a signer verifier, Usable connect now s privateKey publicKey backend params a signer verifier ∧
        server = assemble s backend params a signer verifier) ∧
    ((ofKeys connect now s privateKey publicKey).2 = .ok server →
      ∀ (r : Request) (t after : Table) (events : List Event) (response : Response),
        Endpoint.login.check r = .ok () → (server.service.respond r).Runs t events response after →
        response.status = 200 → server.service.inspector.verifier.Confirms events →
        ∃ h account p issued roles, response = server.service.answerPair p ∧ r.LogsIn events h account p.refresh ∧
          events.filterMap Event.roles? = [(account.user, roles)] ∧
          (events.filterMap Event.time?).getLast? = some issued ∧
          server.service.Recognises p.access h ⟨account.user, roles.map Role.title⟩
            (issued.after server.service.engine.params.accessAge).second) := by
  refine ⟨ofKeys_eq_ok_iff_usable, fun hstart r t after events response hcheck hruns hstatus hconfirms => ?_⟩
  obtain ⟨backend, params, a, signer, verifier, husable, rfl⟩ := ofKeys_eq_ok_iff_usable.mp hstart
  obtain ⟨hpositive, hspan⟩ := TokenParams.accessAge_of_tryNew husable.ages
  obtain ⟨h, account, p, issued, roles, claims, b, hresponse, hlogs, hgrants⟩ := granted_of_login hcheck hruns hstatus
  obtain ⟨hexpiry, -⟩ := Issuer.claims_eq_ok_iff.mp hgrants.claimed
  obtain ⟨who, hsigned⟩ := hgrants.exists_signer
  have hbound : p.refresh.fingerprint = fingerprint p.refresh.user h.signal := by rw [hlogs.bound, hlogs.user]
  have hrecognised := hgrants.recognised rfl rfl (Instant.fits_of_expiry hexpiry hpositive hspan)
    (hconfirms who _ b hsigned) hbound
  rw [hlogs.user] at hrecognised
  exact ⟨h, account, p, issued, roles, hresponse, hlogs, hlogs.user ▸ hgrants.looked, hgrants.read, hrecognised⟩

/-! ### Small servers -/

/-- Settings of a server in memory whose credentials carry a digest and last a quarter of an hour. -/
def sampleSettings : Settings :=
  ⟨⟨"127.0.0.1:8443", "cert", "key", "/"⟩, ⟨"info"⟩, ⟨"fake", ""⟩, ⟨"warden", "HS256", "private", "public"⟩, ⟨15, 1, 2⟩⟩

theorem ofName_sample : Algorithm.ofName sampleSettings.credential.algorithm = .ok (.hmac .bits256) := by
  decide +kernel

def sample (secret : Bytes) : Server :=
  ⟨⟨Engine.sample, ⟨"warden", .hmac .bits256, .hmac .bits256 secret⟩, "/"⟩, .memory⟩

theorem ofKeys_sample (secret : Bytes) :
    (ofKeys Backend.noDriver ⟨0⟩ sampleSettings (.ok []) (.ok secret)).2 = .ok (sample secret) := by
  have hmemory : Backend.ofName sampleSettings.store.backend = .ok .memory := rfl
  refine ofKeys_eq_ok_iff_usable.mpr ⟨.memory, ⟨900000000000, 86400000000000, 2⟩, .hmac .bits256, .hmac .bits256 [],
    .hmac .bits256 secret, ⟨hmemory, (fun h => nomatch h), by decide +kernel, ofName_sample, ?_, ?_, by decide⟩, rfl⟩
  · exact ⟨[], .secret [], rfl, rfl, rfl⟩
  · exact ⟨secret, .secret secret, rfl, rfl, rfl⟩

/-- Circumstances at the epoch in which whatever is signed bears the digest under the empty secret. -/
def sampleReplies : FaultFree :=
  { FaultFree.sample with sign := fun text => (Signer.hmac .bits256 []).sign (Bytes.ofString text) }

theorem signature_of_fits {signer : Signer} {text signature : String}
    (h : Event.Fits sampleReplies ⟨.sign signer text, signature⟩) :
    signature = (Signer.hmac .bits256 []).signText (Bytes.ofString text) := by
  have hsign : signature = Base64.urlBare.encode (sampleReplies.sign text) := h
  rw [hsign, Signer.signText, sampleReplies]

theorem exists_sample_login (secret : Bytes) : ∃ events t p,
    ((sample secret).service.respond (Request.sampleLogin [])).Runs .empty events
      ((sample secret).service.answerPair p) t ∧
      ∀ ev ∈ events, ev.Fits sampleReplies ∧ ev.Knows Directory.sample := by
  have hsignal : (Request.sampleLogin []).signal? = some (ClientHeaders.mk none none none none).signal := by
    decide +kernel
  have hlogin : LoginRequest.ofRequest (Request.sampleLogin []) = .ok ⟨"demo", "secret", true⟩ := by decide +kernel
  have haccess : ((⟨0⟩ : Instant).add? 900000000000).isSome := by decide
  have hrefresh : ((⟨0⟩ : Instant).add? 86400000000000).isSome := by decide
  obtain ⟨events, t, p, -, hruns, -, -, hevents⟩ := exists_admission (s := (sample secret).service)
    (o := sampleReplies) Table.empty (Endpoint.check_sampleLogin []) hlogin hsignal Directory.find?_sample
    Password.verify_sample haccess hrefresh
  exact ⟨events, t, p, hruns, hevents⟩

theorem eq_of_sample_login {events : List Event} {h : ClientHeaders} {account : Account} {x : Record} {user : UserId}
    {issued : Instant} {roles : List Role} (hevents : ∀ ev ∈ events, ev.Fits sampleReplies ∧ ev.Knows Directory.sample)
    (hlogs : (Request.sampleLogin []).LogsIn events h account x)
    (hlooked : events.filterMap Event.roles? = [(user, roles)])
    (hread : (events.filterMap Event.time?).getLast? = some issued) :
    h = ⟨none, none, none, none⟩ ∧ account = Account.sample ∧ issued = ⟨0⟩ ∧ roles = [] := by
  have hheaders : (Request.sampleLogin []).clientHeaders? = some ⟨none, none, none, none⟩ := by decide +kernel
  have hdemo : LoginRequest.ofRequest (Request.sampleLogin []) = .ok ⟨"demo", "secret", true⟩ := by decide +kernel
  obtain ⟨login, hlogin, hfound, -⟩ := hlogs.password
  obtain rfl := Except.ok.inj (hdemo.symm.trans hlogin)
  have haccount : some account = some Account.sample := (hevents _ hfound).2.trans Directory.find?_sample
  obtain ⟨looked, hlook, hroles⟩ := List.mem_filterMap.mp (hlooked ▸ List.mem_singleton_self (user, roles))
  obtain rfl := Event.eq_of_roles?_eq_some hroles
  obtain ⟨clock, hclock, htime⟩ := List.mem_filterMap.mp (List.mem_of_getLast? hread)
  obtain rfl := Event.eq_of_time?_eq_some htime
  exact ⟨Option.some.inj (hlogs.headers.symm.trans hheaders), Option.some.inj haccount, (hevents _ hclock).1,
    (hevents _ hlook).1⟩

def sampleSession (access : String) : Request :=
  ⟨"GET", "/session", [("authorization", Bytes.ofString ("Bearer " ++ access))], []⟩

section Session

variable (access : String)

theorem check_sampleSession : Endpoint.session.check (sampleSession access) = .ok () := by
  have hpath : Request.segmentsOf ("/session".toList.takeWhile fun c => c != '?' && c != '#') = ["session"] := by
    decide +kernel
  exact Endpoint.check_eq_ok_iff.mpr ⟨rfl, hpath⟩

theorem headerValues_sampleSession (name : String) : (sampleSession access).headerValues name =
    if "authorization" = name then [Bytes.ofString ("Bearer " ++ access)] else [] := by
  have hname : "authorization".toList.map Char.toLower = "authorization".toList := by decide
  simp only [sampleSession, Request.headerValues, hname, List.filter_cons, beq_iff_eq, String.toList_inj,
    List.filter_nil]
  split
  · rfl
  · rfl

theorem header?_sampleSession :
    (sampleSession access).header? "authorization" = some (Bytes.ofString ("Bearer " ++ access)) := by
  rw [Request.header?, headerValues_sampleSession, if_pos rfl, List.head?_cons]

theorem clientHeaders?_sampleSession :
    (sampleSession access).clientHeaders? = some ⟨none, none, none, none⟩ := by
  simp [Request.clientHeaders?, Request.optional?, Request.header?, headerValues_sampleSession]

end Session

theorem own_credentials_of_sample : ∃ (events : List Event) (t : Table) (p : TokenPair),
    (ofKeys Backend.noDriver ⟨0⟩ sampleSettings (.ok []) (.ok [])).2 = .ok (sample []) ∧
      ((sample []).service.respond (Request.sampleLogin [])).Runs .empty events ((sample []).service.answerPair p) t ∧
      (sample []).service.inspector.verifier.Confirms events ∧
      ((sample []).service.respond (sampleSession p.access)).Runs t [⟨.now, ⟨900999999999⟩⟩]
        (Service.answerPrincipal ⟨default, []⟩) t := by
  obtain ⟨events, t, p, hruns, hevents⟩ := exists_sample_login []
  have hconfirms : (sample []).service.inspector.verifier.Confirms events :=
    confirms_of_same_secret ofName_sample (ofKeys_sample []) fun signer text signature hmem =>
      signature_of_fits (hevents _ hmem).1
  obtain ⟨h, account, q, issued, roles, hresponse, hlogs, hlooked, hread, hrecognised⟩ :=
    (own_credentials_recognised Backend.noDriver ⟨0⟩ sampleSettings (.ok []) (.ok []) (sample [])).2 (ofKeys_sample [])
      _ _ _ _ _ (Endpoint.check_sampleLogin []) hruns rfl hconfirms
  obtain ⟨rfl, rfl, rfl, rfl⟩ := eq_of_sample_login hevents hlogs hlooked hread
  rw [hresponse] at hruns
  exact ⟨events, t, q, ofKeys_sample [], hruns, hconfirms, hrecognised.answers _ t ⟨900999999999⟩
    (check_sampleSession _) (clientHeaders?_sampleSession _) (header?_sampleSession _) (by decide) (by decide)⟩

/-- A server that verifies with another secret than it signs with starts, and does not recognise its own user. -/
theorem own_credential_refused : ∃ (events more : List Event) (t : Table) (p : TokenPair),
    (ofKeys Backend.noDriver ⟨0⟩ sampleSettings (.ok []) (.ok [1])).2 = .ok (sample [1]) ∧
      ((sample [1]).service.respond (Request.sampleLogin [])).Runs .empty events
        ((sample [1]).service.answerPair p) t ∧
      (∀ signer text signature, ⟨.sign signer text, signature⟩ ∈ events →
        signature = (sample [1]).service.engine.issuer.signer.signText (Bytes.ofString text)) ∧
      (sampleSession p.access).clientHeaders? = (Request.sampleLogin []).clientHeaders? ∧
      ((sample [1]).service.respond (sampleSession p.access)).Runs t more (.failure .credentialInvalid none) t ∧
      ∀ time, ⟨.now, time⟩ ∈ events ++ more → time = ⟨0⟩ := by
  obtain ⟨events, t, p, hruns, hevents⟩ := exists_sample_login [1]
  obtain ⟨h, account, q, issued, roles, claims, b, hresponse, hlogs, hgrants⟩ :=
    granted_of_login (Endpoint.check_sampleLogin []) hruns rfl
  obtain ⟨rfl, rfl, rfl, rfl⟩ := eq_of_sample_login hevents hlogs hgrants.looked hgrants.read
  rw [hresponse] at hruns
  have hsigned : ∀ signer text signature, ⟨.sign signer text, signature⟩ ∈ events →
      signature = (Signer.hmac .bits256 []).signText (Bytes.ofString text) :=
    fun signer text signature hmem => signature_of_fits (hevents _ hmem).1
  obtain ⟨who, hmessage⟩ := hgrants.exists_signer
  have hb := Base64.urlBare_encode_injective (hsigned _ _ _ hmessage)
  obtain ⟨-, hclaims⟩ := Issuer.claims_eq_ok_iff.mp hgrants.claimed
  rw [hlogs.bound, hlogs.user] at hclaims
  have hbad : (Verifier.hmac .bits256 [1]).verify (Bytes.ofString (Issuer.message (.hmac .bits256) claims)) b =
      false := by
    rw [hb, hclaims]
    decide +kernel
  obtain ⟨more, response, after, hmore, hfits⟩ :=
    ((sample [1]).service.respond (sampleSession q.access)).exists_fitting_run sampleReplies t
  obtain ⟨rfl, rfl⟩ := hgrants.runs_respond_of_unverified hbad (check_sampleSession _)
    (clientHeaders?_sampleSession _) (header?_sampleSession _) hmore
  refine ⟨events, more, after, q, ofKeys_sample [1], hruns, hsigned, ?_, hmore, fun time hmem => ?_⟩
  · rw [clientHeaders?_sampleSession, hlogs.headers]
  · rcases List.mem_append.mp hmem with hlogin | hsession
    · exact (hevents _ hlogin).1
    · exact hfits _ hsession

end Server

end SessionWarden
