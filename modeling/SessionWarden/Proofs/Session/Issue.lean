import SessionWarden.Proofs.Session.Traffic
/-!
# The credential of a call

A call signs at most one text, and if it does, it returns the credential: the roles of the user of the new record
are looked up, then the clock is read, and what is signed says both. A call that returns anything else has signed
nothing.
-/

namespace SessionWarden

/-! ### What a call has signed -/

/-- How the credential of a pair came about in the events of a call. -/
structure Engine.Grants (e : Engine) (past : List Event) (p : TokenPair) (time : Instant) (roles : List Role)
    (claims : Claims) (signature : Bytes) : Prop where
  looked : past.filterMap Event.roles? = [(p.refresh.user, roles)]
  read : (past.filterMap Event.time?).getLast? = some time
  claimed : e.claimsAt time p.refresh roles = .ok claims
  signed : past.filterMap Event.signed? =
    [(Issuer.message e.issuer.algorithm claims, Base64.urlBare.encode signature)]
  access : p.access = Issuer.join (Issuer.message e.issuer.algorithm claims) (Base64.urlBare.encode signature)

/-- How the events of a call agree with its result. -/
def Engine.Settles (e : Engine) (past : List Event) : Except AuthError Outcome → Prop
  | .ok (.pair p) => ∃ time roles claims signature, e.Grants past p time roles claims signature
  | .ok (.record _) => past.filterMap Event.signed? = []
  | .ok .done => past.filterMap Event.signed? = []
  | .error _ => past.filterMap Event.signed? = []

/-- Whether no role was looked up and nothing was signed. -/
def Quiet (past : List Event) : Prop := past.filterMap Event.roles? = [] ∧ past.filterMap Event.signed? = []

theorem quiet_append {past more : List Event} (h : Quiet past) (hmore : Quiet more) : Quiet (past ++ more) := by
  simp only [Quiet, List.filterMap_append, h.1, h.2, hmore.1, hmore.2, List.append_nil, and_self]

theorem Event.roles?_of_plain {ev : Event} (h : ev.query.Plain) : ev.roles? = none := by
  obtain ⟨q, reply⟩ := ev
  cases q with
  | roles user => exact h.elim
  | now => rfl
  | mint => rfl
  | note n => rfl
  | enter m => rfl
  | rotationTime id asked => rfl
  | table c => rfl
  | account name => rfl
  | sign signer text => rfl

theorem quiet_of_plain {past : List Event} (h : ∀ ev ∈ past, ev.query.Plain) : Quiet past :=
  ⟨List.filterMap_eq_nil_iff.mpr fun ev hev => Event.roles?_of_plain (h ev hev),
    List.filterMap_eq_nil_iff.mpr fun ev hev => (Event.idle_of_plain (h ev hev)).2.2.2⟩

/-! ### Operations -/

section Operations

open SessionWarden.Action (obeys_bind)

variable {e : Engine} {past : List Event}

def anything : List Event → Query → Prop := fun _ _ => True

theorem settles_of_plainly {a : Action Outcome} (h : a.Plainly fun r => ∀ p, r ≠ .ok (.pair p)) :
    a.Obeys anything e.Settles [] := by
  refine h.obeys (fun _ _ _ => trivial) ?_
  intro more r hmore hr
  have hsigned := (quiet_of_plain hmore).2
  cases r with
  | error err => exact hsigned
  | ok o =>
    cases o with
    | pair p => exact absurd rfl (hr p)
    | record x => exact hsigned
    | done => exact hsigned

/-- The issue of a credential after a quiet past, a line in the log and the return of the pair. -/
theorem settles_issue {x : Record} (h : Quiet past) (n : Note) :
    Action.Obeys (do
      let access ← e.issueAccess x
      Action.note n
      return (⟨access, x⟩ : TokenPair)) anything (fun past r => e.Settles past (r.map Outcome.pair)) past := by
  refine obeys_bind (obeys_issueAccess (fun _ _ _ => trivial) ?_ ?_)
  · intro more err hmore
    have hsigned := (filterMap_idle hmore).2.2.2
    show (past ++ more).filterMap Event.signed? = []
    rw [List.filterMap_append, h.2, hsigned, List.append_nil]
  · rintro roles time claims signature hclaims ⟨b, rfl⟩
    refine ⟨trivial, fun _ _ => ?_⟩
    refine Exists.intro time ⟨roles, claims, b, ?_⟩
    constructor
    · simp only [List.filterMap_append, h.1]
      rfl
    · simp only [List.filterMap_append]
      show (past.filterMap Event.time? ++ [time] ++ []).getLast? = some time
      rw [List.append_nil, List.getLast?_concat]
    · exact hclaims
    · simp only [List.filterMap_append, h.2]
      rfl
    · rfl

theorem settles_pair {a : Action TokenPair} (h : a.Obeys anything (fun past r => e.Settles past (r.map .pair)) []) :
    Action.Obeys (do return Outcome.pair (← a)) anything e.Settles [] := by
  refine obeys_bind (Script.obeys_mono h ?_)
  intro past r hr
  cases r with
  | ok p => exact hr
  | error err => exact hr

theorem settles_serve_create (e : Engine) (user : UserId) (signal : Bytes) (persistent : Bool) :
    (e.serve (.create user signal persistent)).Obeys anything e.Settles [] := by
  refine settles_pair (obeys_bind ((plainly_evictForCapacity e user).obeys (fun _ _ _ => trivial) ?_))
  intro more r hmore hr
  have hquiet := quiet_of_plain hmore
  cases r with
  | error err => exact hquiet.2
  | ok u =>
    refine obeys_bind (obeys_newRecord trivial (fun _ => trivial) ?_ ?_)
    · intro time err
      exact (quiet_append hquiet ⟨rfl, rfl⟩).2
    · intro time id x hx
      refine obeys_bind (obeys_create trivial trivial ?_ ?_)
      · intro text err
        exact (quiet_append (quiet_append (quiet_append hquiet ⟨rfl, rfl⟩) ⟨rfl, rfl⟩) ⟨rfl, rfl⟩).2
      · refine settles_issue (quiet_append (quiet_append (quiet_append (quiet_append hquiet ?_) ?_) ?_) ?_) _ <;>
          exact ⟨rfl, rfl⟩

theorem settles_serve_refresh (e : Engine) (id : TokenId) (signal : Bytes) :
    (e.serve (.refresh id signal)).Obeys anything e.Settles [] := by
  refine settles_pair (obeys_bind ((plainly_findBound id signal).obeys (fun _ _ _ => trivial) ?_))
  intro more r hmore hr
  have hquiet := quiet_of_plain hmore
  cases r with
  | error err => exact hquiet.2
  | ok old =>
    refine obeys_bind (obeys_newRecord trivial (fun _ => trivial) ?_ ?_)
    · intro time err
      exact (quiet_append hquiet ⟨rfl, rfl⟩).2
    · intro time fresh x hx
      refine ⟨trivial, fun asked _ => ?_⟩
      have hmade : Quiet ([] ++ more ++ [⟨.now, time⟩] ++ [⟨.mint, fresh⟩] ++ [⟨.now, asked⟩]) :=
        quiet_append (quiet_append (quiet_append hquiet ⟨rfl, rfl⟩) ⟨rfl, rfl⟩) ⟨rfl, rfl⟩
      refine obeys_bind (obeys_rotate trivial trivial (fun _ => trivial) (fun _ => trivial) ?_ ?_ ?_)
      · intro text err
        exact (quiet_append hmade ⟨rfl, rfl⟩).2
      · intro late
        have hrefused : Quiet ([] ++ more ++ [⟨.now, time⟩] ++ [⟨.mint, fresh⟩] ++ [⟨.now, asked⟩] ++
            [⟨.enter .rotate, .ok ()⟩] ++ [⟨.rotationTime old.id asked, late⟩] ++
            [⟨.table (.removeLive old.id late), false⟩]) :=
          quiet_append (quiet_append (quiet_append hmade ⟨rfl, rfl⟩) ⟨rfl, rfl⟩) ⟨rfl, rfl⟩
        refine ⟨trivial, fun time _ => ?_⟩
        show Action.Obeys (if old.isExpiredAt time then _ else _) _ _ _
        split
        · exact ⟨trivial, fun _ _ => (quiet_append (quiet_append hrefused ⟨rfl, rfl⟩) ⟨rfl, rfl⟩).2⟩
        · exact ⟨trivial, fun _ _ => (quiet_append (quiet_append hrefused ⟨rfl, rfl⟩) ⟨rfl, rfl⟩).2⟩
      · intro late
        refine settles_issue ?_ _
        refine quiet_append (quiet_append (quiet_append (quiet_append hmade ?_) ?_) ?_) ?_ <;> exact ⟨rfl, rfl⟩

theorem settles_serve (e : Engine) (c : Command) : (e.serve c).Obeys anything e.Settles [] := by
  cases c with
  | create user signal persistent => exact settles_serve_create e user signal persistent
  | refresh id signal => exact settles_serve_refresh e id signal
  | get id => exact settles_of_plainly (plainly_serve_get e id)
  | delete id signal => exact settles_of_plainly (plainly_serve_delete e id signal)
  | deleteAll id signal => exact settles_of_plainly (plainly_serve_deleteAll e id signal)

end Operations

/-! ### Calls in flight -/

namespace Traffic

variable {e : Engine} {s : Traffic}

def signed (s : Traffic) : List String := s.history.filterMap fun x => x.2.signed?.map Prod.fst

def times (s : Traffic) : List Instant := s.history.filterMap fun x => x.2.time?

theorem Attainable.settles (h : Attainable e s) {k : Nat} {c : Command} {r : Except AuthError Outcome}
    (hk : s.calls[k]? = some ⟨c, .done r⟩) : e.Settles (s.eventsOf k) r :=
  (@Attainable.kept_obeys e (fun _ => anything) (fun _ => e.Settles) (settles_serve e) s h k _ hk).2

theorem mem_times_of_eventsOf {k : Nat} {time : Instant} (h : time ∈ (s.eventsOf k).filterMap Event.time?) :
    time ∈ s.times := by
  obtain ⟨ev, hev, htime⟩ := List.mem_filterMap.mp h
  exact List.mem_filterMap.mpr ⟨(k, ev), mem_eventsOf.mp hev, htime⟩

theorem mem_signed_of_eventsOf {k : Nat} {text signature : String}
    (h : (s.eventsOf k).filterMap Event.signed? = [(text, signature)]) : text ∈ s.signed := by
  have hmem : (text, signature) ∈ (s.eventsOf k).filterMap Event.signed? := h ▸ List.mem_singleton.mpr rfl
  obtain ⟨ev, hev, hsigned⟩ := List.mem_filterMap.mp hmem
  exact List.mem_filterMap.mpr ⟨(k, ev), mem_eventsOf.mp hev, by rw [hsigned]; rfl⟩

/-- Once all calls have returned, every text that was signed is in the credential of a pair that was returned. -/
theorem Attainable.granted_of_signed (h : Attainable e s) (hdone : ∀ c ∈ s.calls, ∃ r, c.script = .done r)
    {text : String} (htext : text ∈ s.signed) : ∃ k c p time roles claims signature,
      s.calls[k]? = some ⟨c, .done (.ok (.pair p))⟩ ∧
        e.Grants (s.eventsOf k) p time roles claims signature ∧ text = Issuer.message e.issuer.algorithm claims := by
  obtain ⟨⟨k, ev⟩, hev, hsigned⟩ := List.mem_filterMap.mp htext
  obtain ⟨⟨t, signature⟩, hpair, rfl⟩ := Option.map_eq_some_iff.mp hsigned
  have hmem : (t, signature) ∈ (s.eventsOf k).filterMap Event.signed? :=
    List.mem_filterMap.mpr ⟨ev, mem_eventsOf.mpr hev, hpair⟩
  obtain ⟨⟨c, script⟩, hk⟩ := h.call_of_mem hev
  obtain ⟨r, hr⟩ := hdone _ (List.mem_of_getElem? hk)
  obtain rfl : script = .done r := hr
  have hsettles := h.settles hk
  -- a call that returned anything but a pair would have signed nothing
  have hnone : (s.eventsOf k).filterMap Event.signed? = [] → False := by
    intro hnil
    rw [hnil] at hmem
    cases hmem
  cases r with
  | error err => exact (hnone hsettles).elim
  | ok o =>
    cases o with
    | record x => exact (hnone hsettles).elim
    | done => exact (hnone hsettles).elim
    | pair p =>
      obtain ⟨time, roles, claims, b, hgrants⟩ := hsettles
      refine ⟨k, c, p, time, roles, claims, b, hk, hgrants, ?_⟩
      rw [hgrants.signed, List.mem_singleton] at hmem
      exact congrArg Prod.fst hmem

end Traffic

end SessionWarden
