import SessionWarden.Proofs.Session.Runs
/-!
# Runs of the parts of the engine

For each part of an operation, its runs by the way they end: with which events, which result and which table.
An operation is then read off the runs of its parts.
-/

namespace SessionWarden

open SessionWarden.Action (Runs runs_bind runs_map runs_asked runs_query runs_entered runs_orThrow)

variable {t after : Table} {events : List Event}

/-! ### Single questions -/

theorem runs_note {n : Note} {r : Except AuthError Unit} (h : (Action.note n).Runs t events r after) :
    events = [⟨.note n, ()⟩] ∧ r = .ok () ∧ after = t := by
  obtain ⟨_, rfl, rfl, rfl⟩ := runs_query.mp h
  exact ⟨rfl, rfl, rfl⟩

theorem runs_noted {α : Type} {n : Note} {a : Action α} {r : Except AuthError α}
    (h : Runs (do Action.note n; a) t events r after) :
    ∃ rest, events = ⟨.note n, ()⟩ :: rest ∧ a.Runs t rest r after := by
  obtain ⟨_, _, rest, rfl, rfl, ha⟩ := runs_asked.mp h
  exact ⟨rest, rfl, ha⟩

theorem runs_refused {α : Type} {n : Note} {err : AuthError} {r : Except AuthError α}
    (h : Runs (do Action.note n; throw err) t events r after) :
    events = [⟨.note n, ()⟩] ∧ r = .error err ∧ after = t := by
  obtain ⟨rest, rfl, rfl, rfl, rfl⟩ := runs_noted h
  exact ⟨rfl, rfl, rfl⟩

theorem runs_timed {α : Type} {f : Instant → Action α} {r : Except AuthError α}
    (h : Runs (Action.now >>= f) t events r after) :
    ∃ time rest, events = ⟨.now, time⟩ :: rest ∧ (f time).Runs t rest r after := by
  obtain ⟨time, _, rest, rfl, rfl, ha⟩ := runs_asked.mp h
  exact ⟨time, rest, rfl, ha⟩

/-! ### Calls on the repository -/

theorem runs_getById {id : TokenId} {r : Except AuthError (Option Record)}
    (h : (Repository.getById id).Runs t events r after) : after = t ∧
      ((events = [⟨.enter .getById, .ok ()⟩, ⟨.table (.get id), t.get id⟩] ∧ r = .ok (t.get id)) ∨
        ∃ text, events = [⟨.enter .getById, .error text⟩] ∧ r = .error (.store text)) := by
  rcases runs_entered.mp h with ⟨rest, rfl, hq⟩ | ⟨text, rfl, rfl, rfl⟩
  · obtain ⟨reply, rfl, rfl, rfl, rfl⟩ := runs_query.mp hq
    exact ⟨rfl, Or.inl ⟨rfl, rfl⟩⟩
  · exact ⟨rfl, Or.inr ⟨text, rfl, rfl⟩⟩

theorem runs_getByUser {user : UserId} {r : Except AuthError (List Record)}
    (h : (Repository.getByUser user).Runs t events r after) : after = t ∧
      ((∃ found, found.Perm (t.ownedBy user) ∧
          events = [⟨.enter .getByUser, .ok ()⟩, ⟨.table (.ownedBy user), found⟩] ∧
          r = .ok (Repository.byExpiry found)) ∨
        ∃ text, events = [⟨.enter .getByUser, .error text⟩] ∧ r = .error (.store text)) := by
  rcases runs_entered.mp h with ⟨rest, rfl, hq⟩ | ⟨text, rfl, rfl, rfl⟩
  · obtain ⟨s, hs, rfl⟩ := runs_map.mp hq
    obtain ⟨found, rfl, rfl, hfound, rfl⟩ := runs_query.mp hs
    exact ⟨rfl, Or.inl ⟨found, hfound, rfl, rfl⟩⟩
  · exact ⟨rfl, Or.inr ⟨text, rfl, rfl⟩⟩

theorem runs_create {x : Record} {r : Except AuthError Record}
    (h : (Repository.create x).Runs t events r after) :
    (events = [⟨.enter .create, .ok ()⟩, ⟨.table (.insert x), ()⟩] ∧ r = .ok x ∧ after = t.insert x) ∨
      ∃ text, events = [⟨.enter .create, .error text⟩] ∧ r = .error (.store text) ∧ after = t := by
  rcases runs_entered.mp h with ⟨rest, rfl, hq⟩ | hfail
  · obtain ⟨s, hs, rfl⟩ := runs_map.mp hq
    obtain ⟨_, rfl, rfl, -, rfl⟩ := runs_query.mp hs
    exact Or.inl ⟨rfl, rfl, rfl⟩
  · exact Or.inr hfail

theorem runs_deleteById {id : TokenId} {r : Except AuthError Unit}
    (h : (Repository.deleteById id).Runs t events r after) :
    (events = [⟨.enter .deleteById, .ok ()⟩, ⟨.table (.remove id), ()⟩] ∧ r = .ok () ∧
        after = t.remove id) ∨
      ∃ text, events = [⟨.enter .deleteById, .error text⟩] ∧ r = .error (.store text) ∧ after = t := by
  rcases runs_entered.mp h with ⟨rest, rfl, hq⟩ | hfail
  · obtain ⟨_, rfl, rfl, -, rfl⟩ := runs_query.mp hq
    exact Or.inl ⟨rfl, rfl, rfl⟩
  · exact Or.inr hfail

theorem runs_deleteByUser {user : UserId} {r : Except AuthError Unit}
    (h : (Repository.deleteByUser user).Runs t events r after) :
    (events = [⟨.enter .deleteByUser, .ok ()⟩, ⟨.table (.removeOwnedBy user), ()⟩] ∧ r = .ok () ∧
        after = t.removeOwnedBy user) ∨
      ∃ text, events = [⟨.enter .deleteByUser, .error text⟩] ∧ r = .error (.store text) ∧ after = t := by
  rcases runs_entered.mp h with ⟨rest, rfl, hq⟩ | hfail
  · obtain ⟨_, rfl, rfl, -, rfl⟩ := runs_query.mp hq
    exact Or.inl ⟨rfl, rfl, rfl⟩
  · exact Or.inr hfail

theorem runs_roles {user : UserId} {r : Except AuthError (List Role)}
    (h : (Repository.roles user).Runs t events r after) : after = t ∧
      ((∃ roles, events = [⟨.enter .roles, .ok ()⟩, ⟨.roles user, roles⟩] ∧ r = .ok roles) ∨
        ∃ text, events = [⟨.enter .roles, .error text⟩] ∧ r = .error (.store text)) := by
  rcases runs_entered.mp h with ⟨rest, rfl, hq⟩ | ⟨text, rfl, rfl, rfl⟩
  · obtain ⟨roles, rfl, rfl, rfl⟩ := runs_query.mp hq
    exact ⟨rfl, Or.inl ⟨roles, rfl, rfl⟩⟩
  · exact ⟨rfl, Or.inr ⟨text, rfl, rfl⟩⟩

/-- How a rotation ends: before it begins, without effect, or with the new record in the place of the old. -/
inductive Rotated (t : Table) (id : TokenId) (asked : Instant) (new : Record) :
    List Event → Except AuthError (Option Record) → Table → Prop
  | failed (text : String) :
    Rotated t id asked new [⟨.enter .rotate, .error text⟩] (.error (.store text)) t
  | refused (time : Instant) (h : ∀ x, t.get id = some x → x.expires < time) :
    Rotated t id asked new
      [⟨.enter .rotate, .ok ()⟩, ⟨.rotationTime id asked, time⟩, ⟨.table (.removeLive id time), false⟩]
      (.ok none) t
  | replaced (time : Instant) (x : Record) (h : t.get id = some x) (hlive : ¬ x.expires < time) :
    Rotated t id asked new
      [⟨.enter .rotate, .ok ()⟩, ⟨.rotationTime id asked, time⟩, ⟨.table (.removeLive id time), true⟩,
        ⟨.table (.insert new), ()⟩]
      (.ok (some new)) ((t.remove id).insert new)

theorem runs_rotate {id : TokenId} {asked : Instant} {new : Record} {r : Except AuthError (Option Record)}
    (h : (Repository.rotate id asked new).Runs t events r after) : Rotated t id asked new events r after := by
  rcases runs_entered.mp h with ⟨rest, rfl, hbody⟩ | ⟨text, rfl, rfl, rfl⟩
  · obtain ⟨time, mid, rest, rfl, hmid, hcall⟩ := runs_asked.mp hbody
    obtain rfl : t = mid := hmid.symm
    obtain ⟨removed, mid, last, rfl, ⟨hremoved, rfl⟩, hlast⟩ := runs_asked.mp hcall
    have hreply : removed = ((TableCall.removeLive id time).perform t).1 := hremoved
    rcases removeLive_cases t id time with ⟨hexp, hperf⟩ | ⟨x, hx, hlive, hperf⟩
    · rw [hperf] at hreply hlast
      subst hreply
      obtain ⟨rfl, rfl, rfl⟩ := hlast
      exact .refused time hexp
    · rw [hperf] at hreply hlast
      subst hreply
      obtain ⟨s, hs, rfl⟩ := runs_map.mp hlast
      obtain ⟨_, rfl, rfl, -, rfl⟩ := runs_query.mp hs
      exact .replaced time x hx hlive
  · exact .failed text

/-! ### Looking a session up -/

/-- How the look-up of an identifier ends. -/
inductive Sought (t : Table) (id : TokenId) : List Event → Except AuthError Record → Prop
  | failed (text : String) : Sought t id [⟨.enter .getById, .error text⟩] (.error (.store text))
  | absent (h : t.get id = none) :
    Sought t id
      [⟨.enter .getById, .ok ()⟩, ⟨.table (.get id), none⟩, ⟨.note (.tokenNotFound id), ()⟩]
      (.error .tokenIncorrect)
  | found (x : Record) (h : t.get id = some x) :
    Sought t id [⟨.enter .getById, .ok ()⟩, ⟨.table (.get id), some x⟩] (.ok x)

theorem runs_find {id : TokenId} {r : Except AuthError Record}
    (h : (Engine.find id).Runs t events r after) : after = t ∧ Sought t id events r := by
  rcases runs_bind.mp h with ⟨first, rest, found, mid, hget, hrest, rfl⟩ | ⟨err, hget, rfl⟩
  · obtain ⟨rfl, ⟨rfl, hr⟩ | ⟨text, -, hr⟩⟩ := runs_getById hget
    · injection hr with hr
      subst hr
      cases hg : mid.get id with
      | none =>
        rw [hg] at hrest
        obtain ⟨rfl, rfl, rfl⟩ := runs_refused hrest
        exact ⟨rfl, .absent hg⟩
      | some x =>
        rw [hg] at hrest
        obtain ⟨rfl, rfl, rfl⟩ := hrest
        exact ⟨rfl, .found x hg⟩
    · cases hr
  · obtain ⟨rfl, ⟨-, hr⟩ | ⟨text, rfl, hr⟩⟩ := runs_getById hget
    · cases hr
    · injection hr with hr
      subst hr
      exact ⟨rfl, .failed text⟩

/-- How the look-up for a client ends: the binding is judged before the expiry. -/
inductive SoughtBound (t : Table) (id : TokenId) (signal : Bytes) :
    List Event → Except AuthError Record → Prop
  | lost (events : List Event) (err : AuthError) (h : Sought t id events (.error err)) :
    SoughtBound t id signal events (.error err)
  | foreign (x : Record) (h : t.get id = some x) (hsignal : fingerprint x.user signal ≠ x.fingerprint) :
    SoughtBound t id signal
      [⟨.enter .getById, .ok ()⟩, ⟨.table (.get id), some x⟩,
        ⟨.note (.tokenFingerprintMismatch id x.user), ()⟩]
      (.error .fingerprintIncorrect)
  | expired (x : Record) (time : Instant) (h : t.get id = some x)
    (hsignal : fingerprint x.user signal = x.fingerprint) (hexp : x.expires < time) :
    SoughtBound t id signal
      [⟨.enter .getById, .ok ()⟩, ⟨.table (.get id), some x⟩, ⟨.now, time⟩, ⟨.note (.tokenExpired id), ()⟩]
      (.error .tokenExpired)
  | bound (x : Record) (time : Instant) (h : t.get id = some x)
    (hsignal : fingerprint x.user signal = x.fingerprint) (hlive : ¬ x.expires < time) :
    SoughtBound t id signal
      [⟨.enter .getById, .ok ()⟩, ⟨.table (.get id), some x⟩, ⟨.now, time⟩] (.ok x)

theorem runs_findBound {id : TokenId} {signal : Bytes} {r : Except AuthError Record}
    (h : (Engine.findBound id signal).Runs t events r after) :
    after = t ∧ SoughtBound t id signal events r := by
  rcases runs_bind.mp h with ⟨first, rest, x, mid, hfind, hrest, rfl⟩ | ⟨err, hfind, rfl⟩
  · obtain ⟨hmid, hfound⟩ := runs_find hfind
    obtain rfl : t = mid := hmid.symm
    cases hfound with
    | found _ hx =>
      by_cases hsignal : fingerprint x.user signal = x.fingerprint
      · have hcheck : checkFingerprint x.user signal x.fingerprint = .ok () :=
          checkFingerprint_ok_iff.mpr hsignal
        simp only [hcheck] at hrest
        obtain ⟨time, last, rfl, hlast⟩ := runs_timed hrest
        by_cases hexp : x.expires < time
        · simp only [Record.isExpiredAt, hexp, decide_true, ite_true] at hlast
          obtain ⟨rfl, rfl, rfl⟩ := runs_refused hlast
          exact ⟨rfl, .expired x time hx hsignal hexp⟩
        · simp only [Record.isExpiredAt, hexp, decide_false, Bool.false_eq_true, ite_false] at hlast
          obtain ⟨rfl, rfl, rfl⟩ := hlast
          exact ⟨rfl, .bound x time hx hsignal hexp⟩
      · have hcheck : checkFingerprint x.user signal x.fingerprint = .error .fingerprintIncorrect := by
          simp only [checkFingerprint, hsignal, ite_false]
        simp only [hcheck] at hrest
        obtain ⟨rfl, rfl, rfl⟩ := runs_refused hrest
        exact ⟨rfl, .foreign x hx hsignal⟩
  · obtain ⟨rfl, hlost⟩ := runs_find hfind
    exact ⟨rfl, .lost events err hlost⟩

/-! ### New records and credentials -/

/-- How the making of a record ends. -/
inductive Made (e : Engine) (user : UserId) (signal : Bytes) (persistent : Bool) :
    List Event → Except AuthError Record → Prop
  | overflow (time : Instant) (h : time.add? e.params.refreshAge = none) :
    Made e user signal persistent [⟨.now, time⟩] (.error (.internal "refresh token expiry overflowed"))
  | made (time : Instant) (id : TokenId) (x : Record)
    (h : e.recordAt? time id user signal persistent = some x) :
    Made e user signal persistent [⟨.now, time⟩, ⟨.mint, id⟩] (.ok x)

theorem runs_newRecord {e : Engine} {user : UserId} {signal : Bytes} {persistent : Bool}
    {r : Except AuthError Record} (h : (e.newRecord user signal persistent).Runs t events r after) :
    after = t ∧ Made e user signal persistent events r := by
  obtain ⟨time, rest, rfl, hrest⟩ := runs_timed h
  rcases runs_bind.mp hrest with ⟨first, last, expires, mid, hexp, hlast, rfl⟩ | ⟨err, hexp, rfl⟩
  · obtain ⟨rfl, rfl, ⟨_, hadd, hr⟩ | ⟨-, hr⟩⟩ := runs_orThrow.mp hexp
    · cases hr
      obtain ⟨s, hs, rfl⟩ := runs_map.mp hlast
      obtain ⟨id, rfl, rfl, rfl⟩ := runs_query.mp hs
      exact ⟨rfl, .made time id _ (by simp only [Engine.recordAt?, hadd, Option.map_some])⟩
    · cases hr
  · obtain ⟨rfl, rfl, ⟨_, -, hr⟩ | ⟨hadd, hr⟩⟩ := runs_orThrow.mp hexp
    · cases hr
    · injection hr with hr
      subst hr
      exact ⟨rfl, .overflow time hadd⟩

/-- How the issue of a credential for a record ends. -/
inductive Issued (e : Engine) (x : Record) : List Event → Except AuthError String → Prop
  | rolesFailed (text : String) :
    Issued e x [⟨.enter .roles, .error text⟩] (.error (.store text))
  | buildFailed (roles : List Role) (text : String) :
    Issued e x [⟨.enter .roles, .ok ()⟩, ⟨.roles x.user, roles⟩, ⟨.enter .build, .error text⟩]
      (.error (.ofCredential (.signing text)))
  | unbuildable (roles : List Role) (time : Instant) (fault : SigningFault)
    (h : e.claimsAt time x roles = .error fault) :
    Issued e x [⟨.enter .roles, .ok ()⟩, ⟨.roles x.user, roles⟩, ⟨.enter .build, .ok ()⟩, ⟨.now, time⟩]
      (.error (.ofCredential (.signing fault.message)))
  | issued (roles : List Role) (time : Instant) (claims : Claims) (signature : String)
    (h : e.claimsAt time x roles = .ok claims) (hsig : ∃ b, signature = Base64.urlBare.encode b) :
    Issued e x
      [⟨.enter .roles, .ok ()⟩, ⟨.roles x.user, roles⟩, ⟨.enter .build, .ok ()⟩, ⟨.now, time⟩,
        ⟨.sign e.issuer.signer (Issuer.message e.issuer.algorithm claims), signature⟩]
      (.ok (Issuer.join (Issuer.message e.issuer.algorithm claims) signature))

theorem runs_issueAccess {e : Engine} {x : Record} {r : Except AuthError String}
    (h : (e.issueAccess x).Runs t events r after) : after = t ∧ Issued e x events r := by
  rcases runs_bind.mp h with ⟨first, rest, roles, mid, hroles, hrest, rfl⟩ | ⟨err, hroles, rfl⟩
  · obtain ⟨rfl, ⟨_, rfl, hr⟩ | ⟨text, -, hr⟩⟩ := runs_roles hroles
    · cases hr
      rcases runs_entered.mp hrest with ⟨last, rfl, hlast⟩ | ⟨text, rfl, rfl, rfl⟩
      · obtain ⟨time, tail, rfl, htail⟩ := runs_timed hlast
        have htail : (e.signed (e.claimsAt time x roles)).Runs _ tail r after := htail
        cases hc : e.claimsAt time x roles with
        | error fault =>
          rw [hc] at htail
          obtain ⟨rfl, rfl, rfl⟩ := htail
          exact ⟨rfl, .unbuildable roles time fault hc⟩
        | ok claims =>
          rw [hc] at htail
          obtain ⟨s, hs, rfl⟩ := runs_map.mp htail
          obtain ⟨signature, rfl, rfl, hsig, rfl⟩ := runs_query.mp hs
          exact ⟨rfl, .issued roles time claims signature hc hsig⟩
      · exact ⟨rfl, .buildFailed roles text⟩
    · cases hr
  · obtain ⟨rfl, ⟨_, -, hr⟩ | ⟨text, rfl, hr⟩⟩ := runs_roles hroles
    · cases hr
    · injection hr with hr
      subst hr
      exact ⟨rfl, .rolesFailed text⟩

end SessionWarden
