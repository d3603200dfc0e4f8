import SessionWarden.Proofs.Session.Command
/-!
# Conduct of scripts

A script that shares the table with others keeps to rules whatever it is answered: which question it may ask
after which of its own events, and with which events it may end with which result. The rules of a compound
action follow from those of its parts. Questions that neither draw, store, rotate, look up roles nor sign are
plain; the parts of the engine that ask nothing else are covered once for all rules.
-/

namespace SessionWarden

/-- Whether some table gives this reply. -/
def Query.Possible (q : Query) (reply : q.Reply) : Prop := ∃ t after, Table.Answers t q reply after

/-- Whether a script keeps to the rules after some events of its own. -/
def Script.Obeys {α : Type} (allowed : List Event → Query → Prop) (fits : List Event → α → Prop) :
    Script α → List Event → Prop
  | .done a, past => fits past a
  | .ask q next, past =>
    allowed past q ∧ ∀ reply, q.Possible reply → (next reply).Obeys allowed fits (past ++ [⟨q, reply⟩])

namespace Script

variable {α β : Type} {allowed : List Event → Query → Prop}

theorem obeys_bind {s : Script α} {f : α → Script β} {fits : List Event → β → Prop} {past : List Event}
    (h : s.Obeys allowed (fun past a => (f a).Obeys allowed fits past) past) :
    (s.bind f).Obeys allowed fits past := by
  induction s generalizing past with
  | done a => exact h
  | ask q next ih =>
    obtain ⟨hq, hnext⟩ := h
    exact ⟨hq, fun reply hreply => ih reply (hnext reply hreply)⟩

theorem obeys_mono {s : Script α} {fits fits' : List Event → α → Prop} {past : List Event}
    (h : s.Obeys allowed fits past) (himp : ∀ past a, fits past a → fits' past a) :
    s.Obeys allowed fits' past := by
  induction s generalizing past with
  | done a => exact himp past a h
  | ask q next ih =>
    obtain ⟨hq, hnext⟩ := h
    exact ⟨hq, fun reply hreply => ih reply (hnext reply hreply)⟩

theorem obeys_of_forall {fits : List Event → α → Prop} (s : Script α) {past : List Event}
    (hq : ∀ past q, allowed past q) (ha : ∀ past a, fits past a) : s.Obeys allowed fits past := by
  induction s generalizing past with
  | done a => exact ha past a
  | ask q next ih => exact ⟨hq past q, fun reply _ => ih reply⟩

end Script

namespace Action

variable {α β : Type} {allowed : List Event → Query → Prop} {past : List Event}

def Obeys (a : Action α) (allowed : List Event → Query → Prop)
    (fits : List Event → Except AuthError α → Prop) (past : List Event) : Prop :=
  Script.Obeys allowed fits a.run past

theorem obeys_bind {x : Action α} {f : α → Action β} {fits : List Event → Except AuthError β → Prop}
    (h : x.Obeys allowed (fun past r =>
      match r with
      | .ok a => (f a).Obeys allowed fits past
      | .error err => fits past (.error err)) past) :
    (x >>= f).Obeys allowed fits past := by
  have hbind : (x >>= f).run = Script.bind x.run (ExceptT.bindCont f) := rfl
  unfold Obeys
  rw [hbind]
  refine Script.obeys_bind (Script.obeys_mono h ?_)
  intro past r hr
  cases r with
  | ok a => exact hr
  | error err => exact hr

theorem obeys_enter {m : Method} {failure : String → AuthError}
    {fits : List Event → Except AuthError Unit → Prop} (hq : allowed past (.enter m))
    (hok : fits (past ++ [⟨.enter m, .ok ()⟩]) (.ok ()))
    (hfail : ∀ text, fits (past ++ [⟨.enter m, .error text⟩]) (.error (failure text))) :
    (enter m failure).Obeys allowed fits past := by
  refine ⟨hq, ?_⟩
  intro reply hreply
  cases reply with
  | ok u => exact hok
  | error text => exact hfail text

theorem obeys_entered {m : Method} {failure : String → AuthError} {a : Action β}
    {fits : List Event → Except AuthError β → Prop} (hq : allowed past (.enter m))
    (hok : a.Obeys allowed fits (past ++ [⟨.enter m, .ok ()⟩]))
    (hfail : ∀ text, fits (past ++ [⟨.enter m, .error text⟩]) (.error (failure text))) :
    Obeys (do enter m failure; a) allowed fits past :=
  obeys_bind (obeys_enter hq hok hfail)

end Action

/-! ### Plain questions -/

/-- Whether a question neither draws, stores, rotates, looks up roles nor signs. -/
def Query.Plain : Query → Prop
  | .mint => False
  | .table (.insert _) => False
  | .table (.removeLive _ _) => False
  | .rotationTime _ _ => False
  | .roles _ => False
  | .sign _ _ => False
  | .enter .roles => False
  | .enter .build => False
  | _ => True

theorem Event.idle_of_plain {ev : Event} (h : ev.query.Plain) : ev.Idle := by
  obtain ⟨q, reply⟩ := ev
  cases q with
  | table c =>
    cases c with
    | insert r => exact h.elim
    | removeLive id now => exact h.elim
    | get id => exact ⟨rfl, rfl, rfl, rfl⟩
    | remove id => exact ⟨rfl, rfl, rfl, rfl⟩
    | ownedBy user => exact ⟨rfl, rfl, rfl, rfl⟩
    | removeOwnedBy user => exact ⟨rfl, rfl, rfl, rfl⟩
  | mint => exact h.elim
  | sign signer text => exact h.elim
  | now => exact ⟨rfl, rfl, rfl, rfl⟩
  | note n => exact ⟨rfl, rfl, rfl, rfl⟩
  | enter m => exact ⟨rfl, rfl, rfl, rfl⟩
  | rotationTime id asked => exact ⟨rfl, rfl, rfl, rfl⟩
  | roles user => exact ⟨rfl, rfl, rfl, rfl⟩
  | account name => exact ⟨rfl, rfl, rfl, rfl⟩

/-- Whether a script asks plain questions only, and ends with a result that satisfies a condition. -/
def Script.Plainly {α : Type} (post : α → Prop) : Script α → Prop
  | .done a => post a
  | .ask q next => q.Plain ∧ ∀ reply, q.Possible reply → (next reply).Plainly post

def Action.Plainly {α : Type} (a : Action α) (post : Except AuthError α → Prop) : Prop :=
  Script.Plainly post a.run

namespace Action

variable {α β : Type}

theorem plainly_bind {x : Action α} {f : α → Action β} {post : Except AuthError β → Prop}
    (h : x.Plainly fun r =>
      match r with
      | .ok a => (f a).Plainly post
      | .error err => post (.error err)) : (x >>= f).Plainly post := by
  have key : ∀ s : Script (Except AuthError α), s.Plainly (fun r =>
      match r with
      | .ok a => (f a).Plainly post
      | .error err => post (.error err)) → (s.bind (ExceptT.bindCont f)).Plainly post := by
    intro s
    induction s with
    | done r =>
      intro hr
      cases r with
      | ok a => exact hr
      | error err => exact hr
    | ask q next ih =>
      rintro ⟨hq, hnext⟩
      exact ⟨hq, fun reply hreply => ih reply (hnext reply hreply)⟩
  exact key x.run h

theorem plainly_mono {a : Action α} {post post' : Except AuthError α → Prop} (h : a.Plainly post)
    (himp : ∀ r, post r → post' r) : a.Plainly post' := by
  have key : ∀ s : Script (Except AuthError α), s.Plainly post → s.Plainly post' := by
    intro s
    induction s with
    | done r => exact himp r
    | ask q next ih =>
      rintro ⟨hq, hnext⟩
      exact ⟨hq, fun reply hreply => ih reply (hnext reply hreply)⟩
  exact key a.run h

theorem plainly_entered {m : Method} {failure : String → AuthError} {a : Action α}
    {post : Except AuthError α → Prop} (hq : (Query.enter m).Plain) (hok : a.Plainly post)
    (hfail : ∀ text, post (.error (failure text))) : (do enter m failure; a).Plainly post := by
  refine plainly_bind ⟨hq, ?_⟩
  intro reply hreply
  cases reply with
  | ok u => exact hok
  | error text => exact hfail text

theorem Plainly.obeys {a : Action α} {post : Except AuthError α → Prop} (h : a.Plainly post)
    {allowed : List Event → Query → Prop} {fits : List Event → Except AuthError α → Prop}
    {past : List Event} (hplain : ∀ past q, q.Plain → allowed past q)
    (hfits : ∀ more r, (∀ ev ∈ more, ev.query.Plain) → post r → fits (past ++ more) r) :
    a.Obeys allowed fits past := by
  have key : ∀ (s : Script (Except AuthError α)) (past : List Event), s.Plainly post →
      (∀ more r, (∀ ev ∈ more, ev.query.Plain) → post r → fits (past ++ more) r) →
      s.Obeys allowed fits past := by
    intro s
    induction s with
    | done r =>
      intro past hr hfits
      have hnil := hfits [] r (by simp) hr
      rw [List.append_nil] at hnil
      exact hnil
    | ask q next ih =>
      rintro past ⟨hq, hnext⟩ hfits
      refine ⟨hplain past q hq, fun reply hreply => ih reply _ (hnext reply hreply) ?_⟩
      intro more r hmore hr
      rw [List.append_assoc]
      refine hfits _ r ?_ hr
      intro ev hev
      rcases List.mem_cons.mp hev with rfl | hev
      · exact hq
      · exact hmore ev hev
  exact key a.run past h hfits

end Action

/-! ### Plain parts of the engine -/

section PlainParts

open SessionWarden.Action (plainly_bind plainly_entered plainly_mono)

theorem Query.Possible.id_eq {id : TokenId} {x : Record}
    (h : (Query.table (.get id)).Possible (some x)) : x.id = id := by
  obtain ⟨t, after, hget, -⟩ := h
  have hget : some x = t.get id := hget
  exact (Table.get_eq_some_iff.mp hget.symm).2

theorem plainly_deletions (l : List Record) :
    Action.Plainly (l.forM fun x => Repository.deleteById x.id) fun _ => True := by
  induction l with
  | nil => trivial
  | cons x xs ih =>
    refine plainly_bind (plainly_entered trivial ⟨trivial, ?_⟩ ?_)
    · intro reply hreply
      exact ih
    · intro text
      trivial

theorem plainly_evictForCapacity (e : Engine) (user : UserId) :
    (e.evictForCapacity user).Plainly fun _ => True := by
  refine plainly_bind (plainly_entered trivial ⟨trivial, ?_⟩ ?_)
  · intro found hfound
    show Action.Plainly (if (Repository.byExpiry found).length < e.params.refreshCap then pure ()
      else _) _
    split
    · trivial
    · refine plainly_bind (plainly_mono (plainly_deletions _) ?_)
      intro r hr
      cases r with
      | ok u => exact ⟨trivial, fun _ _ => trivial⟩
      | error err => trivial
  · intro text
    trivial

theorem plainly_find (id : TokenId) :
    (Engine.find id).Plainly fun r => ∀ x, r = .ok x → x.id = id := by
  refine plainly_bind (plainly_entered trivial ⟨trivial, ?_⟩ ?_)
  · intro found hfound
    cases found with
    | none => exact ⟨trivial, fun _ _ x hx => by cases hx⟩
    | some x =>
      intro y hy
      injection hy with hy
      exact hy ▸ hfound.id_eq
  · intro text x hx
    cases hx

theorem plainly_findBound (id : TokenId) (signal : Bytes) :
    (Engine.findBound id signal).Plainly fun r =>
      ∀ x, r = .ok x → x.id = id ∧ fingerprint x.user signal = x.fingerprint := by
  refine plainly_bind (plainly_mono (plainly_find id) ?_)
  intro r hr
  cases r with
  | ok x =>
    show Action.Plainly _ _
    by_cases hsignal : fingerprint x.user signal = x.fingerprint
    · have hcheck : checkFingerprint x.user signal x.fingerprint = .ok () :=
        checkFingerprint_ok_iff.mpr hsignal
      simp only [hcheck]
      refine ⟨trivial, fun time _ => ?_⟩
      show Action.Plainly (if x.isExpiredAt time then _ else pure x) _
      split
      · exact ⟨trivial, fun _ _ y hy => by cases hy⟩
      · intro y hy
        injection hy with hy
        exact hy ▸ ⟨hr x rfl, hsignal⟩
    · have hcheck : checkFingerprint x.user signal x.fingerprint = .error .fingerprintIncorrect := by
        simp only [checkFingerprint, hsignal, ite_false]
      simp only [hcheck]
      exact ⟨trivial, fun _ _ y hy => by cases hy⟩
  | error err =>
    intro x hx
    cases hx

theorem plainly_serve_get (e : Engine) (id : TokenId) :
    (e.serve (.get id)).Plainly fun r => ∀ p, r ≠ .ok (.pair p) := by
  refine plainly_bind (plainly_bind (plainly_mono (plainly_find id) ?_))
  intro r hr
  cases r with
  | error err => exact fun p h => by cases h
  | ok x =>
    refine ⟨trivial, fun time _ => ?_⟩
    show Action.Plainly (if x.isExpiredAt time then throw .tokenExpired else pure x) _
    split
    · exact fun p h => by cases h
    · exact fun p h => by cases h

theorem plainly_serve_delete (e : Engine) (id : TokenId) (signal : Bytes) :
    (e.serve (.delete id signal)).Plainly fun r => ∀ p, r ≠ .ok (.pair p) := by
  refine plainly_bind (plainly_bind (plainly_mono (plainly_findBound id signal) ?_))
  intro r hr
  cases r with
  | error err => exact fun p h => by cases h
  | ok x =>
    refine plainly_bind (plainly_entered trivial ⟨trivial, fun _ _ => ⟨trivial, fun _ _ => ?_⟩⟩ ?_)
    · exact fun p h => by cases h
    · exact fun text p h => by cases h

theorem plainly_serve_deleteAll (e : Engine) (id : TokenId) (signal : Bytes) :
    (e.serve (.deleteAll id signal)).Plainly fun r => ∀ p, r ≠ .ok (.pair p) := by
  refine plainly_bind (plainly_bind (plainly_mono (plainly_findBound id signal) ?_))
  intro r hr
  cases r with
  | error err => exact fun p h => by cases h
  | ok x =>
    refine plainly_bind (plainly_entered trivial ⟨trivial, fun _ _ => ⟨trivial, fun _ _ => ?_⟩⟩ ?_)
    · exact fun p h => by cases h
    · exact fun text p h => by cases h

end PlainParts

/-! ### Parts that are not plain -/

section Parts

open SessionWarden.Action (obeys_bind obeys_entered)

variable {allowed : List Event → Query → Prop} {past : List Event}

theorem obeys_newRecord {e : Engine} {user : UserId} {signal : Bytes} {persistent : Bool}
    {fits : List Event → Except AuthError Record → Prop} (hnow : allowed past .now)
    (hmint : ∀ time, allowed (past ++ [⟨.now, time⟩]) .mint)
    (hover : ∀ time err, fits (past ++ [⟨.now, time⟩]) (.error err))
    (hmade : ∀ time id x, e.recordAt? time id user signal persistent = some x →
      fits (past ++ [⟨.now, time⟩] ++ [⟨.mint, id⟩]) (.ok x)) :
    (e.newRecord user signal persistent).Obeys allowed fits past := by
  refine ⟨hnow, fun time _ => ?_⟩
  cases hadd : time.add? e.params.refreshAge with
  | none =>
    show Action.Obeys (do let expires ← Action.orThrow _ (time.add? e.params.refreshAge); _) _ _ _
    rw [hadd]
    exact hover time _
  | some expires =>
    show Action.Obeys (do let expires ← Action.orThrow _ (time.add? e.params.refreshAge); _) _ _ _
    rw [hadd]
    refine ⟨hmint time, fun id _ => hmade time id _ ?_⟩
    simp only [Engine.recordAt?, hadd, Option.map_some]

theorem obeys_find {id : TokenId} {fits : List Event → Except AuthError Record → Prop}
    (hplain : ∀ past q, q.Plain → allowed past q) (hfail : ∀ more err, fits (past ++ more) (.error err))
    (hfound : ∀ x, x.id = id → fits (past ++ [⟨.enter .getById, .ok ()⟩, ⟨.table (.get id), some x⟩]) (.ok x)) :
    (Engine.find id).Obeys allowed fits past := by
  refine obeys_bind (obeys_entered (hplain _ _ trivial) ⟨hplain _ _ trivial, fun found hpossible => ?_⟩ ?_)
  · rw [List.append_assoc]
    cases found with
    | none =>
      refine ⟨hplain _ _ trivial, fun _ _ => ?_⟩
      rw [List.append_assoc]
      exact hfail _ _
    | some x => exact hfound x hpossible.id_eq
  · exact fun text => hfail _ _

theorem obeys_findBound {id : TokenId} {signal : Bytes} {fits : List Event → Except AuthError Record → Prop}
    (hplain : ∀ past q, q.Plain → allowed past q) (hfail : ∀ more err, fits (past ++ more) (.error err))
    (hbound : ∀ x time, x.id = id →
      fits (past ++ [⟨.enter .getById, .ok ()⟩, ⟨.table (.get id), some x⟩, ⟨.now, time⟩]) (.ok x)) :
    (Engine.findBound id signal).Obeys allowed fits past := by
  refine obeys_bind (obeys_find hplain (fun more err => hfail more err) fun x hid => ?_)
  show Action.Obeys _ _ _ _
  by_cases hsignal : fingerprint x.user signal = x.fingerprint
  · have hcheck : checkFingerprint x.user signal x.fingerprint = .ok () :=
      checkFingerprint_ok_iff.mpr hsignal
    simp only [hcheck]
    refine ⟨hplain _ _ trivial, fun time _ => ?_⟩
    rw [List.append_assoc]
    show Action.Obeys (if x.isExpiredAt time then _ else pure x) _ _ _
    split
    · refine ⟨hplain _ _ trivial, fun _ _ => ?_⟩
      rw [List.append_assoc]
      exact hfail _ _
    · exact hbound x time hid
  · have hcheck : checkFingerprint x.user signal x.fingerprint = .error .fingerprintIncorrect := by
      simp only [checkFingerprint, hsignal, ite_false]
    simp only [hcheck]
    refine ⟨hplain _ _ trivial, fun _ _ => ?_⟩
    rw [List.append_assoc]
    exact hfail _ _

theorem obeys_create {x : Record} {fits : List Event → Except AuthError Record → Prop}
    (henter : allowed past (.enter .create))
    (hinsert : allowed (past ++ [⟨.enter .create, .ok ()⟩]) (.table (.insert x)))
    (hfail : ∀ text err, fits (past ++ [⟨.enter .create, .error text⟩]) (.error err))
    (hstored : fits (past ++ [⟨.enter .create, .ok ()⟩] ++ [⟨.table (.insert x), ()⟩]) (.ok x)) :
    (Repository.create x).Obeys allowed fits past :=
  obeys_entered henter ⟨hinsert, fun _ _ => hstored⟩ fun text => hfail text _

theorem obeys_rotate {id : TokenId} {asked : Instant} {new : Record}
    {fits : List Event → Except AuthError (Option Record) → Prop} (henter : allowed past (.enter .rotate))
    (htime : allowed (past ++ [⟨.enter .rotate, .ok ()⟩]) (.rotationTime id asked))
    (hremove : ∀ time, allowed (past ++ [⟨.enter .rotate, .ok ()⟩] ++ [⟨.rotationTime id asked, time⟩])
      (.table (.removeLive id time)))
    (hinsert : ∀ time, allowed (past ++ [⟨.enter .rotate, .ok ()⟩] ++ [⟨.rotationTime id asked, time⟩] ++
      [⟨.table (.removeLive id time), true⟩]) (.table (.insert new)))
    (hfail : ∀ text err, fits (past ++ [⟨.enter .rotate, .error text⟩]) (.error err))
    (hrefused : ∀ time, fits (past ++ [⟨.enter .rotate, .ok ()⟩] ++ [⟨.rotationTime id asked, time⟩] ++
      [⟨.table (.removeLive id time), false⟩]) (.ok none))
    (hreplaced : ∀ time, fits (past ++ [⟨.enter .rotate, .ok ()⟩] ++ [⟨.rotationTime id asked, time⟩] ++
      [⟨.table (.removeLive id time), true⟩] ++ [⟨.table (.insert new), ()⟩]) (.ok (some new))) :
    (Repository.rotate id asked new).Obeys allowed fits past := by
  refine obeys_entered henter ⟨htime, fun time _ => ⟨hremove time, ?_⟩⟩ fun text => hfail text _
  intro removed hremoved
  cases removed with
  | false => exact hrefused time
  | true => exact ⟨hinsert time, fun _ _ => hreplaced time⟩

theorem obeys_issueAccess {e : Engine} {x : Record} {fits : List Event → Except AuthError String → Prop}
    (hallowed : ∀ past q, (q = .enter .roles ∨ q = .roles x.user ∨ q = .enter .build ∨ q = .now ∨
      ∃ text, q = .sign e.issuer.signer text) → allowed past q)
    (hfail : ∀ more err, (∀ ev ∈ more, ev.Idle) → fits (past ++ more) (.error err))
    (hissued : ∀ roles time claims signature, e.claimsAt time x roles = .ok claims →
      (∃ b, signature = Base64.urlBare.encode b) →
      fits (past ++ [⟨.enter .roles, .ok ()⟩, ⟨.roles x.user, roles⟩, ⟨.enter .build, .ok ()⟩, ⟨.now, time⟩,
          ⟨.sign e.issuer.signer (Issuer.message e.issuer.algorithm claims), signature⟩])
        (.ok (Issuer.join (Issuer.message e.issuer.algorithm claims) signature))) :
    (e.issueAccess x).Obeys allowed fits past := by
  refine obeys_bind (obeys_entered (hallowed _ _ (by simp)) ⟨hallowed _ _ (by simp), ?_⟩ ?_)
  · intro roles hroles
    refine obeys_entered (hallowed _ _ (by simp)) ⟨hallowed _ _ (by simp), ?_⟩ ?_
    · intro time htime
      have hclaims : (e.signed (e.claimsAt time x roles)).Obeys allowed fits
          (past ++ [⟨.enter .roles, .ok ()⟩, ⟨.roles x.user, roles⟩, ⟨.enter .build, .ok ()⟩,
            ⟨.now, time⟩]) := by
        cases hc : e.claimsAt time x roles with
        | error fault => exact hfail _ _ (by simp)
        | ok claims =>
          refine ⟨hallowed _ _ (by simp), ?_⟩
          rintro signature ⟨t, after, hsig, -⟩
          have hok := hissued roles time claims signature hc hsig
          show fits (_ ++ _ ++ _) _
          rwa [List.append_assoc]
      simp only [List.append_assoc, List.cons_append, List.nil_append]
      exact hclaims
    · intro text
      simp only [List.append_assoc, List.cons_append, List.nil_append]
      exact hfail _ _ (by simp)
  · intro text
    exact hfail _ _ (by simp)

end Parts

end SessionWarden
