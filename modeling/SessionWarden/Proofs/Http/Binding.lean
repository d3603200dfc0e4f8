import SessionWarden.Proofs.Http.Admission
import SessionWarden.Proofs.Session.Verification
/-!
# Tokens and the headers of a client

The signal of a client is its headers with colons between them, so that what two clients must differ in is what stands
between colons: headers that only move a colon from one to the next are the same to the service. Whoever tells another
signal than the client that logged in is turned away with its tokens wherever they are presented.
-/

namespace SessionWarden

/-! ### Lists cut at a separator -/

section Cutting

variable {α : Type} [BEq α]

theorem length_splitOn (c : α) (l : List α) : (l.splitOn c).length = l.count c + 1 := by
  induction l with
  | nil => rfl
  | cons x rest ih =>
    have hsplit : (x :: rest).splitOn c = if x == c then [] :: rest.splitOn c
      else (rest.splitOn c).modifyHead (List.cons x) := List.splitOnP_cons_eq_if_modifyHead x rest
    rw [hsplit, List.count_cons]
    split
    · rw [List.length_cons, ih]
    · rw [List.length_modifyHead, ih]

variable [LawfulBEq α]

theorem splitOn_intercalate_eq (c : α) {l : List (List α)} (hne : l ≠ []) :
    ([c].intercalate l).splitOn c = l.flatMap (List.splitOn c) := by
  induction l with
  | nil => exact absurd rfl hne
  | cons x rest ih =>
    cases rest with
    | nil => simp
    | cons y rest =>
      have hrest := ih (List.cons_ne_nil y rest)
      have hcut := List.splitOnP_append_cons (p := (· == c)) x ([c].intercalate (y :: rest)) (beq_self_eq_true c)
      rw [List.intercalate_cons_cons, List.append_assoc, List.singleton_append, List.flatMap_cons, ← hrest]
      exact hcut

theorem splitOn_injective (c : α) {l l' : List α} (h : l.splitOn c = l'.splitOn c) : l = l' := by
  have hjoin := congrArg [c].intercalate h
  rwa [List.intercalate_splitOn, List.intercalate_splitOn] at hjoin

end Cutting

/-! ### What a signal tells -/

namespace ClientHeaders

variable {h h' : ClientHeaders}

def values (h : ClientHeaders) : List String := [h.brands, h.userAgent, h.language, h.upgrade].map fun x => x.getD ""

def pieces (h : ClientHeaders) : List (List Char) := h.values.flatMap fun x => x.toList.splitOn ':'

/-- How many colons stand in each of the first three headers. -/
def colons (h : ClientHeaders) : List Nat := (h.values.take 3).map fun x => x.toList.count ':'

theorem splitOn_signalText (h : ClientHeaders) : h.signalText.toList.splitOn ':' = h.pieces := by
  have htext : h.signalText.toList = [':'].intercalate (h.values.map String.toList) := String.toList_intercalate
  rw [htext, splitOn_intercalate_eq ':' (by simp [values]), List.flatMap_map, pieces]

theorem signal_eq_iff : h.signal = h'.signal ↔ h.pieces = h'.pieces := by
  constructor
  · intro hsame
    have htext : h.signalText = h'.signalText := Bytes.ofString_injective hsame
    rw [← splitOn_signalText, ← splitOn_signalText, htext]
  · intro hsame
    rw [← splitOn_signalText, ← splitOn_signalText] at hsame
    have htext : h.signalText = h'.signalText := String.toList_injective (splitOn_injective ':' hsame)
    rw [signal, signal, htext]

theorem pieces_eq_iff (hcolons : h.colons = h'.colons) : h.pieces = h'.pieces ↔ h.values = h'.values := by
  refine ⟨fun hsame => ?_, fun hsame => by rw [pieces, pieces, hsame]⟩
  simp only [colons, values, List.map_cons, List.map_nil, List.take_succ_cons, List.take_zero, List.cons.injEq,
    and_true] at hcolons
  simp only [pieces, values, List.map_cons, List.map_nil, List.flatMap_cons, List.flatMap_nil, List.append_nil] at hsame
  obtain ⟨hbrands, hagent, hlanguage⟩ := hcolons
  obtain ⟨hfirst, hsame⟩ := List.append_inj hsame (by rw [length_splitOn, length_splitOn, hbrands])
  obtain ⟨hsecond, hsame⟩ := List.append_inj hsame (by rw [length_splitOn, length_splitOn, hagent])
  obtain ⟨hthird, hfourth⟩ := List.append_inj hsame (by rw [length_splitOn, length_splitOn, hlanguage])
  have hvalue : ∀ {x y : String}, x.toList.splitOn ':' = y.toList.splitOn ':' → x = y := fun hxy =>
    String.toList_injective (splitOn_injective ':' hxy)
  simp only [values, List.map_cons, List.map_nil, hvalue hfirst, hvalue hsecond, hvalue hthird, hvalue hfourth]

end ClientHeaders

def Digest.Collide (a b : Bytes) : Prop := a ≠ b ∧ sha256.hash a = sha256.hash b

theorem fingerprint_ne {user : UserId} {signal signal' : Bytes} (hne : signal ≠ signal')
    (hclean : ¬ Digest.Collide (signal ++ user.uuid.bytes) (signal' ++ user.uuid.bytes)) :
    fingerprint user signal ≠ fingerprint user signal' := by
  intro hsame
  refine hclean ⟨fun hmessage => hne ?_, hsame⟩
  exact List.append_cancel_right hmessage

/-! ### What a login leaves with the client -/

section Login

variable {e : Engine} {x : Record} {issue : List Event} {access : String} {i : Inspector}

theorem Issued.exists_claims (h : Issued e x issue (.ok access)) : ∃ time roles claims b, ⟨.now, time⟩ ∈ issue ∧
    e.claimsAt time x roles = .ok claims ∧
      access = Issuer.join (Issuer.message e.issuer.algorithm claims) (Base64.urlBare.encode b) := by
  generalize hresult : Except.ok access = result at h
  cases h with
  | issued roles time claims signature hclaims hsignature =>
    obtain ⟨b, rfl⟩ := hsignature
    exact ⟨time, roles, claims, b, by simp, hclaims, Except.ok.inj hresult⟩
  | rolesFailed text => cases hresult
  | buildFailed roles text => cases hresult
  | unbuildable roles time fault hfault => cases hresult

/-- An issued credential says whom it is for and which client it is bound to, whenever it is accepted. -/
theorem Issued.inspect_eq_ok (h : Issued e x issue (.ok access)) {now : Instant} {c : Claims}
    (hinspect : i.inspect now access = .ok c) :
    c.subject = x.user.uuid.toText ∧ c.fingerprint = Hex.encode x.fingerprint := by
  obtain ⟨time, roles, claims, b, -, hclaims, rfl⟩ := h.exists_claims
  obtain ⟨rfl, -⟩ := Inspector.of_inspect_join hinspect
  obtain ⟨-, rfl⟩ := Issuer.claims_eq_ok_iff.mp hclaims
  exact ⟨rfl, rfl⟩

/-- An issued credential is accepted up to the last second of its age, if its signature is good and it is inspected
for the name and the algorithm of its issuer. -/
theorem Issued.exists_inspect (h : Issued e x issue (.ok access)) : ∃ issued, ⟨.now, issued⟩ ∈ issue ∧
    (issued.Representable → i.issuer = e.issuer.name → i.algorithm = e.issuer.algorithm →
      (∀ p, CredentialParts.split? access.toList = some p → i.checkSignature p = .ok ()) →
      ∀ now : Instant, 0 ≤ now.nanos → now.second ≤ (issued.after e.params.accessAge).second →
        ∃ c, i.inspect now access = .ok c) := by
  obtain ⟨time, roles, claims, b, htime, hclaims, rfl⟩ := h.exists_claims
  exact ⟨time, htime, fun hissued hissuer halgorithm hgood now hnow hlate => ⟨claims, Engine.inspect_join_eq_ok hclaims
    hissuer halgorithm (Instant.fits_of_representable hissued) (hgood _ (Issuer.split?_join _ _ _)) hnow hlate⟩⟩

variable {s : Service} {r : Request} {h : ClientHeaders} {t after : Table} {events : List Event} {response : Response}

/-- A login that succeeds leaves a record that is bound to its client, and a credential that says so. -/
theorem opened_of_login (hcheck : Endpoint.login.check r = .ok ()) (hheaders : r.clientHeaders? = some h)
    (hruns : (s.respond r).Runs t events response after) (hstatus : response.status = 200) :
    ∃ p issue, response = s.answerPair p ∧ after.get p.refresh.id = some p.refresh ∧
      p.refresh.fingerprint = fingerprint p.refresh.user h.signal ∧ Issued s.engine p.refresh issue (.ok p.access) ∧
      ∀ ev ∈ issue, ev ∈ events := by
  have hsignal' := Request.signal?_of_headers hheaders
  rcases runs_respond hruns with ⟨-, hconsult⟩ | ⟨first, rest, last, c, result, rfl, hasked, hserve, rfl⟩
  · cases ((ends_consultFrom s r [] _).of_runs hconsult).1 with
    | failed code cookie => exact absurd hstatus code.status_ne
    | principal p hsession => exact absurd (Endpoint.eq_of_check hcheck hsession) (by decide)
  · cases hasked with
    | refresh id signal hother => exact absurd (Endpoint.eq_of_check hcheck hother) (by decide)
    | revoke id signal hother => exact absurd (Endpoint.eq_of_check hcheck hother) (by decide)
    | revokeAll id signal hother => exact absurd (Endpoint.eq_of_check hcheck hother) (by decide)
    | login login signal account _ hlogin hsignal hpassword =>
      obtain rfl := Option.some.inj (hsignal'.symm.trans hsignal)
      obtain ⟨opened, hopen, rfl⟩ := Action.runs_map.mp hserve
      cases runs_open hopen with
      | crowded evict err mid hroom => exact absurd hstatus (ErrorCode.ofError err).status_ne
      | unmade evict make err mid hroom hmake => exact absurd hstatus (ErrorCode.ofError err).status_ne
      | unstored evict make new mid text hroom hmake =>
        exact absurd hstatus (ErrorCode.ofError (.store text)).status_ne
      | unissued evict make issue new mid err hroom hmake hissue =>
        exact absurd hstatus (ErrorCode.ofError err).status_ne
      | opened evict make issue new mid access hroom hmake hissue =>
        have hnew : s.engine.Makes make account.user h.signal login.persistent new := hmake.makes fun _ hev => hev
        refine ⟨⟨access, new⟩, issue, rfl, Table.get_eq_some_iff.mpr ⟨Table.mem_insert.mpr (Or.inl rfl), rfl⟩, ?_,
          hissue, fun ev hev => by simp [hev]⟩
        rw [hnew.fingerprint_eq, hnew.user_eq]

end Login

/-! ### Other clients are turned away -/

section Foreign

variable {s : Service} {r : Request} {t after : Table} {events : List Event} {response : Response}

theorem runs_foreign {α : Type} {f : Record → Action α} {id : TokenId} {signal : Bytes} {x : Record}
    {result : Except AuthError α} (h : Action.Runs (Engine.findBound id signal >>= f) t events result after)
    (hget : t.get id = some x) (hforeign : fingerprint x.user signal ≠ x.fingerprint)
    (hfault : ∀ text, ⟨.enter .getById, .error text⟩ ∉ events) : result = .error .fingerprintIncorrect ∧ after = t := by
  have hbound : ∀ {y}, t.get id = some y → fingerprint y.user signal ≠ y.fingerprint := by
    intro y hy
    obtain rfl := Option.some.inj (hget.symm.trans hy)
    exact hforeign
  rcases Action.runs_bind.mp h with ⟨look, rest, y, mid, hfind, -, rfl⟩ | ⟨err, hfind, rfl⟩
  · obtain ⟨hfound, -, hsignal⟩ := (runs_findBound hfind).2.eq_some
    exact absurd hsignal (hbound hfound)
  · obtain ⟨rfl, hlook⟩ := runs_findBound hfind
    cases hlook with
    | lost _ _ hlost =>
      cases hlost with
      | failed text => exact absurd (List.mem_singleton_self _) (hfault text)
      | absent hnone =>
        rw [hget] at hnone
        cases hnone
    | foreign y hy hother => exact ⟨rfl, rfl⟩
    | expired y time hy hsignal hexp => exact absurd hsignal (hbound hy)

theorem runs_verify_foreign {i : Inspector} {access : String} {signal digest : Bytes} {user : UserId}
    {result : Except AuthError Principal} (h : (i.verify access signal).Runs t events result after)
    (haccepted : ∀ now, ⟨.now, now⟩ ∈ events → ∃ c, i.inspect now access = .ok c ∧ c.subject = user.uuid.toText ∧
      c.fingerprint = Hex.encode digest)
    (hforeign : fingerprint user signal ≠ digest) : result = .error .fingerprintIncorrect ∧ after = t := by
  rw [Inspector.verify_eq_inspect] at h
  obtain ⟨now, rest, rfl, hrest⟩ := runs_timed h
  obtain ⟨c, hinspect, hsubject, hdigest⟩ := haccepted now List.mem_cons_self
  have hcheck : checkFingerprintHex user signal c.fingerprint = .error .fingerprintIncorrect := by
    rw [hdigest, checkFingerprintHex_encode, checkFingerprint, if_neg hforeign]
  simp only [hinspect, Inspector.principal, hsubject, Uuid.parse_toText, hcheck] at hrest
  obtain ⟨-, rfl, rfl⟩ := runs_refused hrest
  exact ⟨rfl, rfl⟩

theorem bearerCredential?_append (access : String) : bearerCredential? ("Bearer " ++ access) = some access := by
  have hscheme : ("Bearer ".toList).isPrefixOf ("Bearer ".toList ++ access.toList) = true :=
    List.isPrefixOf_iff_prefix.mpr (List.prefix_append _ _)
  rw [bearerCredential?, String.toList_append, if_pos hscheme, List.drop_left, String.ofList_toList]

theorem respond_of_credential {access : String} {signal : Bytes} (hcheck : Endpoint.session.check r = .ok ())
    (hbearer : r.optional? "authorization" = some (some ("Bearer " ++ access))) (hsignal : r.signal? = some signal) :
    s.respond r = (s.inspector.verify access signal).run.bind fun
      | .ok p => .done (Service.answerPrincipal p)
      | .error err => Service.answerError err none := by
  obtain ⟨front, back, hconsult⟩ := consult_of_check (s := s) hcheck
  have hhandle : s.handleSession r = Service.answering (s.inspector.verify access signal) Service.answerPrincipal
      fun err => Service.answerError err none := by
    rw [Service.handleSession, hbearer, hsignal]
    dsimp only
    rw [Option.bind_some, bearerCredential?_append]
  rw [Service.respond_eq, hconsult, Service.approach, hhandle, Script.bind_assoc, Script.bind_assoc]
  show (Script.bind _ _).bind _ = _
  rw [Script.bind_assoc]
  refine congrArg (Script.bind _) (funext fun result => ?_)
  cases result with
  | ok p => rfl
  | error err =>
    show (Script.bind _ _).bind _ = _
    rw [Script.bind_assoc]
    exact Script.bind_pure _

end Foreign

namespace Service

/-- Whether a client with some headers is turned away, with nothing changed, wherever it presents the tokens of a pair:
the refresh token while its record is there and the look-up does not fail, the access token while it is accepted but
for its client. -/
structure TurnsAway (s : Service) (p : TokenPair) (h : ClientHeaders) : Prop where
  token : ∀ e ∈ [Endpoint.refresh, .revoke, .revokeAll], ∀ (r : Request) (t after : Table) (events : List Event)
    (response : Response), e.check r = .ok () → r.clientHeaders? = some h → r.refreshToken? = some p.refresh.id →
      t.get p.refresh.id = some p.refresh → (∀ text, ⟨.enter .getById, .error text⟩ ∉ events) →
      (s.respond r).Runs t events response after →
        response = .failure .fingerprintIncorrect (some (clearRefreshCookie s.cookiePath)) ∧ after = t
  access : ∀ (r : Request) (t after : Table) (events : List Event) (response : Response),
    Endpoint.session.check r = .ok () → r.clientHeaders? = some h →
      r.optional? "authorization" = some (some ("Bearer " ++ p.access)) →
      (∀ now, ⟨.now, now⟩ ∈ events → ∃ c, s.inspector.inspect now p.access = .ok c) →
      (s.respond r).Runs t events response after → response = .failure .fingerprintIncorrect none ∧ after = t

variable {s : Service} {p : TokenPair} {h h' : ClientHeaders}

/-- An operation on a token that is presented by another client is told to be refused for that. -/
theorem runs_respond_foreign {r : Request} {t after : Table} {events : List Event} {response : Response} {e : Endpoint}
    {call : TokenId → Bytes → Command} {id : TokenId} {signal : Bytes} {x : Record} {α : Type} {f : Record → Action α}
    {g : α → Outcome} (hcheck : e.check r = .ok ()) (hcall : s.approach r e = s.approachToken r call)
    (hid : r.refreshToken? = some id) (hsignal : r.signal? = some signal)
    (hserve : s.engine.serve (call id signal) = (Engine.findBound id signal >>= f) >>= fun x => pure (g x))
    (htold : s.told (call id signal) (.error .fingerprintIncorrect) =
      .failure .fingerprintIncorrect (some (clearRefreshCookie s.cookiePath)))
    (hget : t.get id = some x) (hforeign : fingerprint x.user signal ≠ x.fingerprint)
    (hfault : ∀ text, ⟨.enter .getById, .error text⟩ ∉ events) (hruns : (s.respond r).Runs t events response after) :
    response = .failure .fingerprintIncorrect (some (clearRefreshCookie s.cookiePath)) ∧ after = t := by
  rw [respond_of_token hcheck hcall hid hsignal] at hruns
  obtain ⟨first, last, result, mid, hfirst, hreply, rfl⟩ := Script.runs_bind.mp hruns
  have hlook : Action.Runs (Engine.findBound id signal >>= f >>= fun x => pure (g x)) t first result mid :=
    hserve ▸ hfirst
  obtain ⟨found, hfind, rfl⟩ := Action.runs_map.mp hlook
  obtain ⟨rfl, rfl⟩ := runs_foreign hfind hget hforeign fun text hmem => hfault text (List.mem_append_left _ hmem)
  obtain ⟨rfl, rfl⟩ := (ends_reply s (call id signal) (.error .fingerprintIncorrect)).of_runs_outside hreply
  exact ⟨htold, rfl⟩

theorem turnsAway_of_foreign {issue : List Event} (hissue : Issued s.engine p.refresh issue (.ok p.access))
    (hforeign : fingerprint p.refresh.user h'.signal ≠ p.refresh.fingerprint) : s.TurnsAway p h' where
  token e he r t after events response hcheck hheaders hid hget hfault hruns := by
    have hsignal := Request.signal?_of_headers hheaders
    simp only [List.mem_cons, List.not_mem_nil, or_false] at he
    rcases he with rfl | rfl | rfl
    · exact runs_respond_foreign hcheck rfl hid hsignal (g := .pair) rfl rfl hget hforeign hfault hruns
    · exact runs_respond_foreign hcheck rfl hid hsignal rfl rfl hget hforeign hfault hruns
    · exact runs_respond_foreign hcheck rfl hid hsignal rfl rfl hget hforeign hfault hruns
  access r t after events response hcheck hheaders hbearer haccepted hruns := by
    have hsignal := Request.signal?_of_headers hheaders
    rw [respond_of_credential hcheck hbearer hsignal] at hruns
    obtain ⟨first, last, result, mid, hverify, hanswer, rfl⟩ := Script.runs_bind.mp hruns
    have hclaims : ∀ now, ⟨.now, now⟩ ∈ first → ∃ c, s.inspector.inspect now p.access = .ok c ∧
        c.subject = p.refresh.user.uuid.toText ∧ c.fingerprint = Hex.encode p.refresh.fingerprint := by
      intro now hnow
      obtain ⟨c, hc⟩ := haccepted now (List.mem_append_left _ hnow)
      exact ⟨c, hc, hissue.inspect_eq_ok hc⟩
    obtain ⟨rfl, rfl⟩ := runs_verify_foreign hverify hclaims hforeign
    exact (ends_answerError .fingerprintIncorrect none).of_runs_outside hanswer

/-- Two clients tell the same signal exactly if the same stands between the colons of their headers, which says that
the headers are the same where they have their colons alike. The tokens of a login are bound to the signal: a client
that tells another one is turned away with them. -/
theorem bound_to_headers (s : Service) :
    (∀ h h' : ClientHeaders, (h.signal = h'.signal ↔ h.pieces = h'.pieces) ∧
      (h.colons = h'.colons → (h.pieces = h'.pieces ↔ h.values = h'.values))) ∧
    ∀ (r : Request) (h : ClientHeaders) (t after : Table) (events : List Event) (response : Response),
      Endpoint.login.check r = .ok () → r.clientHeaders? = some h → (s.respond r).Runs t events response after →
      response.status = 200 → ∃ p issued, response = s.answerPair p ∧ after.get p.refresh.id = some p.refresh ∧
        ⟨.now, issued⟩ ∈ events ∧
        (issued.Representable → s.inspector.issuer = s.engine.issuer.name →
          s.inspector.algorithm = s.engine.issuer.algorithm →
          (∀ q, CredentialParts.split? p.access.toList = some q → s.inspector.checkSignature q = .ok ()) →
          ∀ now : Instant, 0 ≤ now.nanos → now.second ≤ (issued.after s.engine.params.accessAge).second →
            ∃ c, s.inspector.inspect now p.access = .ok c) ∧
        ∀ h' : ClientHeaders, h.pieces ≠ h'.pieces →
          ¬ Digest.Collide (h'.signal ++ p.refresh.user.uuid.bytes) (h.signal ++ p.refresh.user.uuid.bytes) →
            s.TurnsAway p h' := by
  refine ⟨fun h h' => ⟨ClientHeaders.signal_eq_iff, ClientHeaders.pieces_eq_iff⟩, ?_⟩
  intro r h t after events response hcheck hheaders hruns hstatus
  obtain ⟨p, issue, rfl, hget, hbound, hissue, hevents⟩ := opened_of_login hcheck hheaders hruns hstatus
  obtain ⟨issued, hread, haccepted⟩ := hissue.exists_inspect (i := s.inspector)
  refine ⟨p, issued, rfl, hget, hevents _ hread, haccepted, fun h' hpieces hclean => ?_⟩
  have hsignal : h'.signal ≠ h.signal := fun hsame => hpieces (ClientHeaders.signal_eq_iff.mp hsame.symm)
  refine turnsAway_of_foreign hissue ?_
  rw [hbound]
  exact fingerprint_ne hsignal hclean

theorem bound_to_headers_of_sample : ∃ (p : TokenPair) (r : Request) (t : Table) (events : List Event),
    t.get p.refresh.id = some p.refresh ∧ sample.TurnsAway p ⟨none, some "b", none, none⟩ ∧
      r.refreshToken? = some p.refresh.id ∧
      (sample.respond r).Runs t events
        (.failure .fingerprintIncorrect (some (clearRefreshCookie sample.cookiePath))) t := by
  have hheaders : (Request.sampleLogin [("user-agent", Bytes.ofString "a")]).clientHeaders? =
      some ⟨none, some "a", none, none⟩ := by decide +kernel
  obtain ⟨events, t, q, hq, hruns, -, hall, -⟩ := exists_sample_admission (by decide +kernel) hheaders
  obtain ⟨p, issued, -, hget, -, -, hbound⟩ := (bound_to_headers sample).2 _ _ _ _ _ _
    (Endpoint.check_sampleLogin _) hheaders hruns rfl
  have hrecord : p.refresh = q.refresh := hall _ (Table.get_eq_some_iff.mp hget).1
  have hturned : sample.TurnsAway p ⟨none, some "b", none, none⟩ := by
    refine hbound _ (by decide +kernel) ?_
    rw [hrecord, hq]
    exact fun hcollide => absurd hcollide.2 (by decide +kernel)
  have hid : (Request.sampleRefresh [("user-agent", Bytes.ofString "b")]).refreshToken? = some p.refresh.id := by
    rw [hrecord, hq]
    decide +kernel
  obtain ⟨events', response, after, hruns', hfits⟩ :=
    (sample.respond (Request.sampleRefresh [("user-agent", Bytes.ofString "b")])).exists_fitting_run FaultFree.sample t
  have hfault : ∀ text, ⟨.enter .getById, .error text⟩ ∉ events' := fun text hmem => nomatch hfits _ hmem
  have hother : (Request.sampleRefresh [("user-agent", Bytes.ofString "b")]).clientHeaders? =
      some ⟨none, some "b", none, none⟩ := by decide +kernel
  have hrefused := hturned.token .refresh List.mem_cons_self _ t after events' response
    (Endpoint.check_sampleRefresh _) hother hid hget hfault
  obtain ⟨hresponse, hafter⟩ := hrefused hruns'
  rw [hresponse, hafter] at hruns'
  exact ⟨p, Request.sampleRefresh [("user-agent", Bytes.ofString "b")], t, events', hget, hturned, hid, hruns'⟩

/-- Clients whose headers differ may tell the same, and then one renews the session of the other. -/
theorem renewed_for_other_headers :
    ∃ (h h' : ClientHeaders) (r r' : Request) (p p' : TokenPair) (t after : Table) (events events' : List Event),
      h.values ≠ h'.values ∧ h.signal = h'.signal ∧
      Endpoint.login.check r = .ok () ∧ r.clientHeaders? = some h ∧
      (sample.respond r).Runs .empty events (sample.answerPair p) t ∧ t.get p.refresh.id = some p.refresh ∧
      Endpoint.refresh.check r' = .ok () ∧ r'.clientHeaders? = some h' ∧ r'.refreshToken? = some p.refresh.id ∧
      (sample.respond r').Runs t events' (sample.answerPair p') after := by
  have hheaders : (Request.sampleLogin [("sec-ch-ua", Bytes.ofString "a:b"),
      ("user-agent", Bytes.ofString "c")]).clientHeaders? = some ⟨some "a:b", some "c", none, none⟩ := by decide +kernel
  have hheaders' : (Request.sampleRefresh [("sec-ch-ua", Bytes.ofString "a"),
      ("user-agent", Bytes.ofString "b:c")]).clientHeaders? = some ⟨some "a", some "b:c", none, none⟩ := by
    decide +kernel
  have hsame : (⟨some "a:b", some "c", none, none⟩ : ClientHeaders).signal =
      (⟨some "a", some "b:c", none, none⟩ : ClientHeaders).signal := by decide +kernel
  obtain ⟨events, t, p, hp, hruns, hget, -, -⟩ := exists_sample_admission (by decide +kernel) hheaders
  have hid : (Request.sampleRefresh [("sec-ch-ua", Bytes.ofString "a"),
      ("user-agent", Bytes.ofString "b:c")]).refreshToken? = some FaultFree.sample.id := by decide +kernel
  have hsignal := (Request.signal?_of_headers hheaders').trans (congrArg some hsame.symm)
  obtain ⟨events', after, p', hruns', -, -⟩ := exists_sample_renewal hp hget hid hsignal
  have hid' : (Request.sampleRefresh [("sec-ch-ua", Bytes.ofString "a"),
      ("user-agent", Bytes.ofString "b:c")]).refreshToken? = some p.refresh.id := by
    rw [hid, hp]
    rfl
  exact ⟨_, _, Request.sampleLogin [("sec-ch-ua", Bytes.ofString "a:b"), ("user-agent", Bytes.ofString "c")],
    Request.sampleRefresh [("sec-ch-ua", Bytes.ofString "a"), ("user-agent", Bytes.ofString "b:c")], p, p', t, after,
    events, events', by decide, hsame, Endpoint.check_sampleLogin _, hheaders, hruns,
    hget, Endpoint.check_sampleRefresh _, hheaders', hid', hruns'⟩

end Service

end SessionWarden
