import SessionWarden.Proofs.Account.Password
import SessionWarden.Proofs.Http.Asking
import SessionWarden.Proofs.Http.Routing
import SessionWarden.Proofs.Session.Faultless
/-!
# Who is let in

Where nothing fails, a login that gives the name of an account and its password is answered with the tokens of a new
session, whatever is in the table, and a refresh token that has not expired is renewed for the client that it is bound
to.
-/

namespace SessionWarden

open SessionWarden.Action (runs_asked runs_map)

/-- Whether a question about an account was answered by a directory. -/
def Event.Knows (d : Directory) : Event → Prop
  | ⟨.account name, found⟩ => found = d.find? name
  | _ => True

theorem exists_informed_answer (o : FaultFree) (d : Directory) (t : Table) (q : Query) :
    ∃ reply after, t.Answers q reply after ∧ Event.Fits o ⟨q, reply⟩ ∧ Event.Knows d ⟨q, reply⟩ := by
  cases q with
  | account name => exact ⟨d.find? name, t, rfl, trivial, rfl⟩
  | now => exact ⟨o.time, t, rfl, rfl, trivial⟩
  | mint => exact ⟨o.id, t, rfl, rfl, trivial⟩
  | note n => exact ⟨(), t, rfl, trivial, trivial⟩
  | enter m => exact ⟨.ok (), t, rfl, rfl, trivial⟩
  | rotationTime id asked => exact ⟨asked, t, rfl, rfl, trivial⟩
  | table c => exact ⟨(c.perform t).1, (c.perform t).2, ⟨c.alike_refl _, rfl⟩, trivial, trivial⟩
  | roles user => exact ⟨o.roles user, t, rfl, rfl, trivial⟩
  | sign signer text => exact ⟨Base64.urlBare.encode (o.sign text), t, ⟨⟨_, rfl⟩, rfl⟩, rfl, trivial⟩

/-- The tokens of a session that begins or goes on in some circumstances. -/
def Engine.pairOn (e : Engine) (o : FaultFree) (user : UserId) (signal : Bytes) (persistent : Bool) : TokenPair :=
  let entry := e.entryOn o user signal persistent
  ⟨e.accessOn o user entry, entry.record user⟩

theorem Request.signal?_of_headers {r : Request} {h : ClientHeaders} (hheaders : r.clientHeaders? = some h) :
    r.signal? = some h.signal := by
  rw [signal?, hheaders, Option.map_some]

variable {s : Service} {r : Request} {t after : Table} {login : LoginRequest} {signal : Bytes} {account : Account}

theorem runs_conclude {c : Command} {events : List Event} {p : TokenPair}
    (h : (s.engine.serve c).Runs t events (.ok (.pair p)) after) :
    ((s.engine.serve c).run.bind (s.reply c)).Runs t events (s.answerPair p) after := by
  have hreply : s.reply c (.ok (.pair p)) = .done (s.answerPair p) := by cases c <;> rfl
  refine Script.runs_bind.mpr ⟨events, [], _, after, h, ?_, (List.append_nil events).symm⟩
  rw [hreply]
  exact ⟨rfl, rfl, rfl⟩

theorem runs_respond_login {rest : List Event} {p : TokenPair} (hcheck : Endpoint.login.check r = .ok ())
    (hlogin : LoginRequest.ofRequest r = .ok login) (hsignal : r.signal? = some signal)
    (hpassword : Password.verify login.password account.passwordHash = .ok true)
    (hserve : (s.engine.serve (.create account.user signal login.persistent)).Runs t rest (.ok (.pair p)) after) :
    (s.respond r).Runs t (⟨.enter .getByName, .ok ()⟩ :: ⟨.account login.name, some account⟩ :: rest)
      (s.answerPair p) after := by
  have hverify : (Login.verify login.name login.password).Runs t
      [⟨.enter .getByName, .ok ()⟩, ⟨.account login.name, some account⟩] (.ok account.user) t := by
    refine runs_asked.mpr ⟨.ok (), t, _, rfl, rfl, runs_asked.mpr ⟨some account, t, [], rfl, rfl, ?_⟩⟩
    simp only [hpassword]
    exact ⟨rfl, rfl, rfl⟩
  have happroach : (s.approach r .login).Runs t
      [⟨.enter .getByName, .ok ()⟩, ⟨.account login.name, some account⟩]
      (.ok (.inr (.create account.user signal login.persistent))) t := by
    rw [Service.approach, hlogin, hsignal]
    exact Script.runs_bind.mpr ⟨_, [], _, t, hverify, ⟨rfl, rfl, rfl⟩, rfl⟩
  obtain ⟨front, back, hconsult⟩ := consult_of_check (s := s) hcheck
  rw [Service.respond_eq, hconsult, Script.bind_assoc]
  exact Script.runs_bind.mpr ⟨_, rest, _, t, happroach, runs_conclude hserve, rfl⟩

/-- A login with a name and a password of the directory opens a session, if nothing fails. -/
theorem exists_admission {o : FaultFree} {d : Directory} (t : Table) (hcheck : Endpoint.login.check r = .ok ())
    (hlogin : LoginRequest.ofRequest r = .ok login) (hsignal : r.signal? = some signal)
    (hfound : d.find? login.name = some account)
    (hpassword : Password.verify login.password account.passwordHash = .ok true)
    (haccess : (o.time.add? s.engine.params.accessAge).isSome)
    (hrefresh : (o.time.add? s.engine.params.refreshAge).isSome) :
    ∃ events after p, p = s.engine.pairOn o account.user signal login.persistent ∧
      (s.respond r).Runs t events (s.answerPair p) after ∧ after.get p.refresh.id = some p.refresh ∧
      (∀ x ∈ after.records, x = p.refresh ∨ x ∈ t.records) ∧ ∀ ev ∈ events, ev.Fits o ∧ ev.Knows d := by
  obtain ⟨rest, result, after, hserve, hrest⟩ := Script.exists_run (P := fun ev => ev.Fits o ∧ ev.Knows d)
    (exists_informed_answer o d) (s.engine.serve (.create account.user signal login.persistent)).run t
  obtain ⟨opened, hopen, rfl⟩ := runs_map.mp hserve
  obtain ⟨found, -, -, rfl, rfl⟩ := (runs_open hopen).of_fits (fun ev hev => (hrest ev hev).1) haccess hrefresh
  refine ⟨_, _, _, rfl, runs_respond_login hcheck hlogin hsignal hpassword hserve, ?_, ?_, ?_⟩
  · exact Table.get_eq_some_iff.mpr ⟨Table.mem_insert.mpr (Or.inl rfl), rfl⟩
  · intro x hx
    rcases Table.mem_insert.mp hx with hnew | ⟨hold, -⟩
    · exact Or.inl hnew
    · rw [Table.records_removeAll] at hold
      exact Or.inr (List.mem_filter.mp hold).1
  · exact List.forall_mem_cons.mpr ⟨⟨rfl, trivial⟩, List.forall_mem_cons.mpr ⟨⟨trivial, hfound.symm⟩, hrest⟩⟩

/-- A refresh token of the table is renewed for its client before it has expired, if nothing fails. -/
theorem exists_renewal {o : FaultFree} {d : Directory} {id : TokenId} {old : Record}
    (hcheck : Endpoint.refresh.check r = .ok ()) (hid : r.refreshToken? = some id) (hsignal : r.signal? = some signal)
    (hget : t.get id = some old) (hbound : fingerprint old.user signal = old.fingerprint)
    (hlive : ¬ old.expires < o.time) (haccess : (o.time.add? s.engine.params.accessAge).isSome)
    (hrefresh : (o.time.add? s.engine.params.refreshAge).isSome) :
    ∃ events after p, p = s.engine.pairOn o old.user signal old.persistent ∧
      (s.respond r).Runs t events (s.answerPair p) after ∧ after.get p.refresh.id = some p.refresh ∧
      ∀ ev ∈ events, ev.Fits o ∧ ev.Knows d := by
  obtain ⟨events, result, after, hserve, hevents⟩ := Script.exists_run (P := fun ev => ev.Fits o ∧ ev.Knows d)
    (exists_informed_answer o d) (s.engine.serve (.refresh id signal)).run t
  have hclaim : t.claim o.time id signal = .ok old := by
    simp only [Table.claim, hget, hbound, ne_eq, not_true_eq_false, ite_false, hlive]
  obtain ⟨renewed, hrenew, rfl⟩ := runs_map.mp hserve
  rcases (runs_refresh hrenew).of_fits (fun ev hev => (hevents ev hev).1) haccess hrefresh with
    ⟨err, herr, -, -⟩ | ⟨x, hx, -, rfl, rfl⟩
  · rw [hclaim] at herr
    cases herr
  · obtain rfl : old = x := Except.ok.inj (hclaim.symm.trans hx)
    rw [respond_of_token hcheck rfl hid hsignal]
    exact ⟨events, _, _, rfl, runs_conclude hserve,
      Table.get_eq_some_iff.mpr ⟨Table.mem_insert.mpr (Or.inl rfl), rfl⟩, hevents⟩

/-! ### A small directory -/

/-- An account of the small service; the salt of its password is eight zeros. -/
def Account.sample : Account := ⟨default, "demo", (Password.hash (List.replicate 8 0) "secret").toText⟩

def Directory.sample : Directory := Directory.empty.add Account.sample

theorem Directory.find?_sample : Directory.sample.find? "demo" = some Account.sample := rfl

theorem Password.verify_sample : Password.verify "secret" Account.sample.passwordHash = .ok true :=
  verify_hash (by decide) (by decide)

def Request.sampleLogin (headers : List (String × Bytes)) : Request :=
  ⟨"POST", "/token", headers, Bytes.ofString "\x7b\"name\":\"demo\",\"password\":\"secret\",\"persistent\":true\x7d"⟩

def Request.sampleRefresh (headers : List (String × Bytes)) : Request :=
  ⟨"POST", "/token/refresh",
    ("cookie", Bytes.ofString "refresh_token=00000000-0000-0000-0000-000000000000") :: headers, []⟩

theorem Endpoint.check_sampleLogin (headers : List (String × Bytes)) :
    Endpoint.login.check (Request.sampleLogin headers) = .ok () := by
  have hpath : Request.segmentsOf ("/token".toList.takeWhile fun c => c != '?' && c != '#') = ["token"] := by
    decide +kernel
  exact check_eq_ok_iff.mpr ⟨rfl, hpath⟩

theorem Endpoint.check_sampleRefresh (headers : List (String × Bytes)) :
    Endpoint.refresh.check (Request.sampleRefresh headers) = .ok () := by
  have hpath : Request.segmentsOf ("/token/refresh".toList.takeWhile fun c => c != '?' && c != '#') =
      ["token", "refresh"] := by decide +kernel
  exact check_eq_ok_iff.mpr ⟨rfl, hpath⟩

theorem Service.exists_sample_admission {headers : List (String × Bytes)} {h : ClientHeaders}
    (hlogin : LoginRequest.ofRequest (Request.sampleLogin headers) = .ok ⟨"demo", "secret", true⟩)
    (hheaders : (Request.sampleLogin headers).clientHeaders? = some h) :
    ∃ events t p, p = Engine.sample.pairOn FaultFree.sample default h.signal true ∧
      (sample.respond (Request.sampleLogin headers)).Runs .empty events (sample.answerPair p) t ∧
      t.get p.refresh.id = some p.refresh ∧ (∀ x ∈ t.records, x = p.refresh) ∧
      ∀ ev ∈ events, ev.Fits FaultFree.sample ∧ ev.Knows Directory.sample := by
  have hcheck := Endpoint.check_sampleLogin headers
  have hsignal := Request.signal?_of_headers hheaders
  obtain ⟨events, t, p, hp, hruns, hget, hall, hevents⟩ := exists_admission (s := sample) (o := FaultFree.sample)
    Table.empty hcheck hlogin hsignal Directory.find?_sample Password.verify_sample rfl rfl
  refine ⟨events, t, p, hp, hruns, hget, fun x hx => ?_, hevents⟩
  rcases hall x hx with hnew | hold
  · exact hnew
  · cases hold

/-- The session of the small directory is renewed at the epoch for whoever tells what its client has told. -/
theorem Service.exists_sample_renewal {headers : List (String × Bytes)} {p : TokenPair}
    (hp : p = Engine.sample.pairOn FaultFree.sample default signal true) (hget : t.get p.refresh.id = some p.refresh)
    (hid : (Request.sampleRefresh headers).refreshToken? = some FaultFree.sample.id)
    (hsignal : (Request.sampleRefresh headers).signal? = some signal) :
    ∃ events after p', (sample.respond (Request.sampleRefresh headers)).Runs t events (sample.answerPair p') after ∧
      after.get p'.refresh.id = some p'.refresh ∧
        ∀ ev ∈ events, ev.Fits FaultFree.sample ∧ ev.Knows Directory.sample := by
  subst hp
  have hlive : ¬ (Engine.sample.pairOn FaultFree.sample default signal true).refresh.expires < FaultFree.sample.time :=
    (by decide +kernel : ¬ (FaultFree.sample.time.after Engine.sample.params.refreshAge) < FaultFree.sample.time)
  obtain ⟨events, after, p', -, hruns, hget', hevents⟩ := exists_renewal (s := sample) (o := FaultFree.sample)
    (Endpoint.check_sampleRefresh headers) hid hsignal hget rfl hlive rfl rfl
  exact ⟨events, after, p', hruns, hget', hevents⟩

end SessionWarden
