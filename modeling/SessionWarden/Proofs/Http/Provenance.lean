import SessionWarden.Proofs.Http.Admission
import SessionWarden.Proofs.Session.FreshIdentifiers
/-!
# Where sessions come from

Requests are handled one after the other, whatever they ask for and whatever goes wrong with them. Every record that
is ever in the table goes back to a login that gave the right password, through renewals by the client that logged in,
and bears the user, the persistence and the fingerprint of that login.
-/

namespace SessionWarden

/-! ### Requests one after the other -/

/-- A request that was handled: the table and the accounts that it met, and what was asked and answered meanwhile. -/
structure Exchange where
  request : Request
  before : Table
  directory : Directory
  events : List Event

/-- Requests that were handled one after the other from an empty table, with the table that they leave. -/
inductive Conversation (s : Service) : List Exchange → Table → Prop
  | nil : Conversation s [] .empty
  | snoc (xs : List Exchange) (x : Exchange) (response : Response) (after : Table) (h : Conversation s xs x.before)
    (hruns : (s.respond x.request).Runs x.before x.events response after)
    (hknows : ∀ ev ∈ x.events, ev.Knows x.directory) : Conversation s (xs ++ [x]) after

/-! ### Descent -/

/-- What a login settles for its session and for all that come after it. -/
structure Origin where
  user : UserId
  signal : Bytes
  persistent : Bool

/-- Whether a record bears what a login has settled. -/
structure Origin.Marks (o : Origin) (x : Record) : Prop where
  user : x.user = o.user
  persistent : x.persistent = o.persistent
  fingerprint : x.fingerprint = Digest.sha256.hash (o.signal ++ o.user.uuid.bytes)

/-- Whether a record goes back to a login among some exchanges. It was stored by the login, to which the directory had
an account of that name and password, or by a renewal in place of a record that goes back to the login, which was
presented by a client with the same fingerprint and had not expired. -/
inductive Stems (o : Origin) : List Exchange → Record → Prop
  | later (xs : List Exchange) (x : Exchange) (record : Record) (h : Stems o xs record) : Stems o (xs ++ [x]) record
  | login (xs : List Exchange) (x : Exchange) (login : LoginRequest) (account : Account) (record : Record)
    (hcheck : Endpoint.login.check x.request = .ok ()) (hlogin : LoginRequest.ofRequest x.request = .ok login)
    (hsignal : x.request.signal? = some o.signal) (hfound : x.directory.find? login.name = some account)
    (hpassword : Password.verify login.password account.passwordHash = .ok true) (huser : account.user = o.user)
    (hpersistent : login.persistent = o.persistent) (hstored : ⟨.table (.insert record), ()⟩ ∈ x.events)
    (hmarks : o.Marks record) : Stems o (xs ++ [x]) record
  | refresh (xs : List Exchange) (x : Exchange) (old record : Record) (signal : Bytes) (time : Instant)
    (hold : Stems o xs old) (hcheck : Endpoint.refresh.check x.request = .ok ())
    (hid : x.request.refreshToken? = some old.id) (hget : x.before.get old.id = some old)
    (hsignal : x.request.signal? = some signal)
    (hsame : Digest.sha256.hash (signal ++ o.user.uuid.bytes) = Digest.sha256.hash (o.signal ++ o.user.uuid.bytes))
    (htaken : ⟨.table (.removeLive old.id time), true⟩ ∈ x.events) (hlive : ¬ old.expires < time)
    (hstored : ⟨.table (.insert record), ()⟩ ∈ x.events) (hmarks : o.Marks record) : Stems o (xs ++ [x]) record

theorem Stems.marks {o : Origin} {xs : List Exchange} {record : Record} (h : Stems o xs record) : o.Marks record := by
  induction h with
  | later xs x record h ih => exact ih
  | login xs x login account record hcheck hlogin hsignal hfound hpassword huser hpersistent hstored hmarks =>
    exact hmarks
  | refresh xs x old record signal time hold hcheck hid hget hsignal hsame htaken hlive hstored hmarks ih =>
    exact hmarks

/-! ### What one request stores -/

/-- A record in the midst of a call was there before, or it was made by an opening or by a renewal. -/
theorem Stage.mem_cases {e : Engine} {t mid : Table} {events : List Event} {c : Command} (h : Stage e t events c mid)
    {x : Record} (hx : x ∈ mid.records) : x ∈ t.records ∨
      (∃ user signal persistent, c = .create user signal persistent ∧ e.Makes events user signal persistent x) ∨
      ∃ id signal old, c = .refresh id signal ∧ t.get id = some old ∧ fingerprint old.user signal = old.fingerprint ∧
        e.Makes events old.user signal old.persistent x ∧
        ∃ time, ⟨.table (.removeLive id time), true⟩ ∈ events ∧ ¬ old.expires < time := by
  have hkept : ∀ ids, x ∈ (t.removeAll ids).records → x ∈ t.records := by
    intro ids hmem
    rw [Table.records_removeAll] at hmem
    exact (List.mem_filter.mp hmem).1
  cases h with
  | same c => exact Or.inl hx
  | evicting user signal persistent found n hfound => exact Or.inl (hkept _ hx)
  | opened user signal persistent found new hfound hnew =>
    rcases Table.mem_insert.mp hx with rfl | ⟨hold, -⟩
    · exact Or.inr (Or.inl ⟨user, signal, persistent, rfl, hnew⟩)
    · exact Or.inl (hkept _ hold)
  | taken id signal old hget => exact Or.inl (Table.mem_remove.mp hx).1
  | renewed id signal old new hget hsignal hnew hlive =>
    rcases Table.mem_insert.mp hx with rfl | ⟨hold, -⟩
    · exact Or.inr (Or.inr ⟨id, signal, old, rfl, hget, hsignal, hnew, hlive⟩)
    · exact Or.inl (Table.mem_remove.mp hold).1
  | closed id signal y hget => exact Or.inl (Table.mem_remove.mp hx).1
  | closedAll id signal y hget => exact Or.inl (List.mem_filter.mp hx).1

variable {s : Service} {xs : List Exchange} {t mid : Table}

/-- If all records before a request go back to logins, so do all that are there in its midst. -/
theorem stems_of_passes {x : Exchange} (hbefore : ∀ record ∈ x.before.records, ∃ o, Stems o xs record)
    (hpass : (s.respond x.request).Passes x.before x.events mid) (hknows : ∀ ev ∈ x.events, ev.Knows x.directory) :
    ∀ record ∈ mid.records, ∃ o, Stems o (xs ++ [x]) record := by
  intro record hrecord
  by_cases hold : record ∈ x.before.records
  · obtain ⟨o, ho⟩ := hbefore record hold
    exact ⟨o, .later xs x record ho⟩
  · have hstored : ⟨.table (.insert record), ()⟩ ∈ x.events := by
      obtain ⟨script, hreaches⟩ := hpass
      rcases hreaches.mem_before hrecord with hthere | hmem
      · exact absurd hthere hold
      · obtain ⟨ev, hev, hinsert⟩ := List.mem_filterMap.mp hmem
        rwa [Event.stored?_eq_some.mp hinsert] at hev
    rcases passes_respond hpass with rfl | ⟨first, rest, last, c, hevents, hasked, hserve⟩
    · exact absurd hrecord hold
    · rcases (stage_of_passes hserve).mem_cases hrecord with hthere | ⟨user, signal, persistent, rfl, hnew⟩ |
        ⟨id, signal, old, rfl, hget, hbound, hnew, time, htaken, hlive⟩
      · exact absurd hthere hold
      · -- an opening is asked for by a login only
        cases hasked with
        | login login _ account hcheck hlogin hsignal hpassword =>
          have hfound := hknows ⟨.account login.name, some account⟩ (by simp [hevents])
          exact ⟨⟨account.user, signal, login.persistent⟩, .login xs x login account record hcheck hlogin hsignal
            hfound.symm hpassword rfl rfl hstored ⟨hnew.user_eq, hnew.persistent_eq, hnew.fingerprint_eq⟩⟩
      · cases hasked with
        | refresh _ _ hcheck hid hsignal =>
          obtain ⟨hmem, rfl⟩ := Table.get_eq_some_iff.mp hget
          obtain ⟨o, ho⟩ := hbefore old hmem
          obtain ⟨huser, hpersistent, hfingerprint⟩ := ho.marks
          have hsame : fingerprint o.user signal = Digest.sha256.hash (o.signal ++ o.user.uuid.bytes) := by
            rw [← huser, hbound, hfingerprint, huser]
          refine ⟨o, .refresh xs x old record signal time ho hcheck hid hget hsignal hsame ?_ hlive hstored ?_⟩
          · simp [hevents, htaken]
          · refine ⟨hnew.user_eq.trans huser, hnew.persistent_eq.trans hpersistent, ?_⟩
            rw [hnew.fingerprint_eq, huser, hsame]

/-! ### What all requests store -/

theorem Conversation.stems_table (h : Conversation s xs t) : ∀ record ∈ t.records, ∃ o, Stems o xs record := by
  induction h with
  | nil =>
    intro record hrecord
    cases hrecord
  | snoc xs x response after h hruns hknows ih => exact stems_of_passes ih ⟨_, hruns.reaches⟩ hknows

/-- After any requests and in the midst of the next one, every record goes back to a login and bears its user, its
persistence and its fingerprint. -/
theorem Conversation.stems (h : Conversation s xs t) :
    (∀ record ∈ t.records, ∃ o, Stems o xs record ∧ o.Marks record) ∧
      ∀ (x : Exchange) (mid : Table), x.before = t → (∀ ev ∈ x.events, ev.Knows x.directory) →
        (s.respond x.request).Passes t x.events mid →
          ∀ record ∈ mid.records, ∃ o, Stems o (xs ++ [x]) record ∧ o.Marks record := by
  constructor
  · intro record hrecord
    obtain ⟨o, ho⟩ := h.stems_table record hrecord
    exact ⟨o, ho, ho.marks⟩
  · rintro x mid rfl hknows hpass record hrecord
    obtain ⟨o, ho⟩ := stems_of_passes h.stems_table hpass hknows record hrecord
    exact ⟨o, ho, ho.marks⟩

theorem Conversation.stems_of_sample : ∃ (xs : List Exchange) (t : Table) (record : Record) (o : Origin),
    Conversation Service.sample xs t ∧ xs.length = 2 ∧ record ∈ t.records ∧ Stems o xs record ∧ o.Marks record := by
  have hheaders : (Request.sampleLogin []).clientHeaders? = some ⟨none, none, none, none⟩ := by decide +kernel
  have hsignal : (Request.sampleRefresh []).signal? = some (⟨none, none, none, none⟩ : ClientHeaders).signal := by
    decide +kernel
  obtain ⟨events, t, p, hp, hruns, hget, -, hevents⟩ := Service.exists_sample_admission (by decide +kernel) hheaders
  have hid : (Request.sampleRefresh []).refreshToken? = some FaultFree.sample.id := by decide +kernel
  obtain ⟨events', after, p', hruns', hget', hevents'⟩ := Service.exists_sample_renewal hp hget hid hsignal
  have hfirst : Conversation Service.sample [⟨Request.sampleLogin [], .empty, Directory.sample, events⟩] t :=
    .snoc [] _ _ t .nil hruns fun ev hev => (hevents ev hev).2
  have hboth : Conversation Service.sample ([⟨Request.sampleLogin [], .empty, Directory.sample, events⟩] ++
      [⟨Request.sampleRefresh [], t, Directory.sample, events'⟩]) after :=
    .snoc _ _ _ after hfirst hruns' fun ev hev => (hevents' ev hev).2
  have hmem := (Table.get_eq_some_iff.mp hget').1
  obtain ⟨o, hstems, hmarks⟩ := (Conversation.stems hboth).1 _ hmem
  exact ⟨_, after, p'.refresh, o, hboth, rfl, hmem, hstems, hmarks⟩

end SessionWarden
