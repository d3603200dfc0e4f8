import SessionWarden.Proofs.Session.Runs
/-!
# The ledger

A ledger says what the engine does without saying how: for each user it keeps a list of sessions in the order of
their issue. An opening drops the front of a full list and appends, a renewal moves a session to the back, and a
closing takes out one or all. What a call hands back follows from what the call meets.
-/

namespace SessionWarden

/-! ### Entries -/

/-- What a ledger keeps of a session. -/
structure Entry where
  id : TokenId
  digest : Bytes
  persistent : Bool
  expiry : Instant
deriving DecidableEq

def Record.entry (r : Record) : Entry := ⟨r.id, r.fingerprint, r.persistent, r.expires⟩

def Entry.record (x : Entry) (user : UserId) : Record := ⟨x.id, x.expiry, x.digest, x.persistent, user⟩

@[simp] theorem Entry.entry_record (x : Entry) (user : UserId) : (x.record user).entry = x := rfl

@[simp] theorem Entry.user_record (x : Entry) (user : UserId) : (x.record user).user = user := rfl

/-! ### Calls without faults -/

/-- What a call meets when nothing fails and the clock stands still: the time, the identifier that is drawn if one is,
the roles of users, and the signature of a text. -/
structure FaultFree where
  time : Instant
  id : TokenId
  roles : UserId → List Role
  sign : String → Bytes

def Instant.after (t : Instant) (span : Int) : Instant := ⟨t.nanos + span⟩

theorem Instant.add?_eq_some {t : Instant} {span : Int} (h : (t.add? span).isSome) :
    t.add? span = some (t.after span) := by
  simp only [Instant.add?] at h ⊢
  split
  · rfl
  · rename_i hn
    simp [hn] at h

/-- Whether a question was answered so; a scan lists what is there in any order. -/
def Event.Fits (o : FaultFree) : Event → Prop
  | ⟨.now, time⟩ => time = o.time
  | ⟨.mint, id⟩ => id = o.id
  | ⟨.enter _, reply⟩ => reply = .ok ()
  | ⟨.rotationTime _ asked, time⟩ => time = asked
  | ⟨.roles user, roles⟩ => roles = o.roles user
  | ⟨.sign _ text, signature⟩ => signature = Base64.urlBare.encode (o.sign text)
  | ⟨.note _, _⟩ => True
  | ⟨.table _, _⟩ => True
  | ⟨.account _, _⟩ => True

def FaultFree.Met (o : FaultFree) (events : List Event) : Prop := ∀ ev ∈ events, ev.Fits o

namespace Engine

/-- The entry of a session that begins or goes on. -/
def entryOn (e : Engine) (o : FaultFree) (user : UserId) (signal : Bytes) (persistent : Bool) : Entry :=
  ⟨o.id, fingerprint user signal, persistent, o.time.after e.params.refreshAge⟩

def claimsOn (e : Engine) (o : FaultFree) (user : UserId) (x : Entry) : Claims :=
  ⟨e.issuer.name, user.uuid.toText, (o.time.after e.params.accessAge).second, o.time.second,
    Hex.encode x.digest, (o.roles user).map Role.title⟩

def accessOn (e : Engine) (o : FaultFree) (user : UserId) (x : Entry) : String :=
  let message := Issuer.message e.issuer.algorithm (e.claimsOn o user x)
  Issuer.join message (Base64.urlBare.encode (o.sign message))

end Engine

/-! ### Ledgers -/

/-- The sessions of each user in the order of their issue, and the users who ever had one. -/
structure Ledger where
  users : List UserId
  list : UserId → List Entry

namespace Ledger

def empty : Ledger := ⟨[], fun _ => []⟩

/-- Writes the list of a user anew. -/
def put (L : Ledger) (user : UserId) (entries : List Entry) : Ledger :=
  ⟨user :: L.users, fun v => if v = user then entries else L.list v⟩

def find? (L : Ledger) (id : TokenId) : Option (UserId × Entry) :=
  L.users.findSome? fun user => ((L.list user).find? fun x => x.id == id).map fun x => (user, x)

/-- The owner and the entry of an identifier for the client that the session is bound to. -/
def claim (L : Ledger) (time : Instant) (id : TokenId) (signal : Bytes) : Except AuthError (UserId × Entry) :=
  match L.find? id with
  | none => .error .tokenIncorrect
  | some (user, x) =>
    if fingerprint user signal ≠ x.digest then .error .fingerprintIncorrect
    else if x.expiry < time then .error .tokenExpired
    else .ok (user, x)

def serve (e : Engine) (o : FaultFree) (L : Ledger) : Command → Except AuthError Outcome × Ledger
  | .create user signal persistent =>
    let kept := if (L.list user).length < e.params.refreshCap then L.list user else (L.list user).tail
    let new := e.entryOn o user signal persistent
    (.ok (.pair ⟨e.accessOn o user new, new.record user⟩), L.put user (kept ++ [new]))
  | .refresh id signal =>
    match L.claim o.time id signal with
    | .error err => (.error err, L)
    | .ok (user, old) =>
      let new := e.entryOn o user signal old.persistent
      (.ok (.pair ⟨e.accessOn o user new, new.record user⟩),
        L.put user ((L.list user).filter (fun x => x.id != id) ++ [new]))
  | .get id =>
    match L.find? id with
    | none => (.error .tokenIncorrect, L)
    | some (user, x) =>
      if x.expiry < o.time then (.error .tokenExpired, L) else (.ok (.record (x.record user)), L)
  | .delete id signal =>
    match L.claim o.time id signal with
    | .error err => (.error err, L)
    | .ok (user, _) => (.ok .done, L.put user ((L.list user).filter fun x => x.id != id))
  | .deleteAll id signal =>
    match L.claim o.time id signal with
    | .error err => (.error err, L)
    | .ok (user, _) => (.ok .done, L.put user [])

/-- What the calls of a plan return, and the ledger after them. -/
def run (e : Engine) (plan : List (Command × FaultFree)) : List (Except AuthError Outcome) × Ledger :=
  plan.foldl (fun done x => (done.1 ++ [(done.2.serve e x.2 x.1).1], (done.2.serve e x.2 x.1).2)) ([], empty)

theorem run_concat (e : Engine) (plan : List (Command × FaultFree)) (c : Command) (o : FaultFree) :
    run e (plan ++ [(c, o)]) =
      ((run e plan).1 ++ [((run e plan).2.serve e o c).1], ((run e plan).2.serve e o c).2) := by
  simp only [run, List.foldl_append, List.foldl_cons, List.foldl_nil]

end Ledger

/-! ### Plans -/

/-- Whether each call of a plan is later than those before it, and both ages can be added to its time. -/
structure Steady (e : Engine) (plan : List (Command × FaultFree)) : Prop where
  later : plan.Pairwise fun x y => x.2.time < y.2.time
  access : ∀ x ∈ plan, (x.2.time.add? e.params.accessAge).isSome
  refresh : ∀ x ∈ plan, (x.2.time.add? e.params.refreshAge).isSome

theorem exists_fitting_answer (o : FaultFree) (t : Table) (q : Query) :
    ∃ reply after, t.Answers q reply after ∧ Event.Fits o ⟨q, reply⟩ := by
  cases q with
  | now => exact ⟨o.time, t, rfl, rfl⟩
  | mint => exact ⟨o.id, t, rfl, rfl⟩
  | note n => exact ⟨(), t, rfl, trivial⟩
  | enter m => exact ⟨.ok (), t, rfl, rfl⟩
  | rotationTime id asked => exact ⟨asked, t, rfl, rfl⟩
  | table c => exact ⟨(c.perform t).1, (c.perform t).2, ⟨c.alike_refl _, rfl⟩, trivial⟩
  | roles user => exact ⟨o.roles user, t, rfl, rfl⟩
  | account name => exact ⟨none, t, rfl, trivial⟩
  | sign signer text => exact ⟨Base64.urlBare.encode (o.sign text), t, ⟨⟨_, rfl⟩, rfl⟩, rfl⟩

theorem Script.exists_fitting_run {α : Type} (s : Script α) (o : FaultFree) (t : Table) :
    ∃ events a after, s.Runs t events a after ∧ ∀ ev ∈ events, ev.Fits o :=
  s.exists_run (exists_fitting_answer o) t

/-! ### A small engine -/

/-- An engine with sessions of a day, credentials of a quarter of an hour and two sessions a user. -/
def Engine.sample : Engine :=
  ⟨⟨"warden", .hmac .bits256, .hmac .bits256 []⟩, ⟨900000000000, 86400000000000, 2⟩⟩

def Record.sample : Record := ⟨default, ⟨86400000000000⟩, SessionWarden.fingerprint default [], true, default⟩

def FaultFree.sample : FaultFree := ⟨⟨0⟩, default, fun _ => [], fun _ => []⟩

def FaultFree.atSecond (n : Nat) : FaultFree :=
  { FaultFree.sample with time := ⟨n * 1000000000⟩, id := ⟨.ofNat n⟩ }

open SessionWarden.Action (runs_bind runs_map runs_entered runs_query) in
theorem Engine.sample_runs : ∃ events access,
    (Engine.sample.serve (.create default [] true)).Runs .empty events (.ok (.pair ⟨access, Record.sample⟩))
      (Table.empty.insert Record.sample) ∧ events.filterMap Event.drawn? = [default] ∧
      ∀ ev ∈ events, ev.Fits FaultFree.sample := by
  have hget : (Repository.getByUser default).Runs .empty
      [⟨.enter .getByUser, .ok ()⟩, ⟨.table (.ownedBy default), ([] : List Record)⟩] (.ok []) .empty := by
    refine runs_entered.mpr (Or.inl ⟨_, rfl, runs_map.mpr ⟨.ok [], ?_, ?_⟩⟩)
    · exact runs_query.mpr ⟨[], rfl, rfl, List.Perm.refl _, rfl⟩
    · simp only [Except.map, Repository.byExpiry, List.mergeSort_nil]
  have hroom : (Engine.sample.evictForCapacity default).Runs .empty
      [⟨.enter .getByUser, .ok ()⟩, ⟨.table (.ownedBy default), ([] : List Record)⟩] (.ok ()) .empty :=
    runs_bind.mpr (Or.inl ⟨_, [], [], _, hget, ⟨rfl, rfl, rfl⟩, rfl⟩)
  obtain ⟨rest, access, hopen, hdrawn, hfits⟩ : ∃ rest access, Action.Runs (do
      let r ← Repository.create (← Engine.sample.newRecord default [] true)
      let access ← Engine.sample.issueAccess r
      Action.note (.sessionCreated default r.id true)
      return (⟨access, r⟩ : TokenPair)) .empty rest (.ok ⟨access, Record.sample⟩)
        (Table.empty.insert Record.sample) ∧ rest.filterMap Event.drawn? = [default] ∧
        ∀ ev ∈ rest, ev.Fits FaultFree.sample :=
    ⟨_, _, ⟨⟨0⟩, _, _, rfl, rfl, default, _, _, rfl, rfl, .ok (), _, _, rfl, rfl, (), _, _, rfl, ⟨rfl, rfl⟩,
      .ok (), _, _, rfl, rfl, ([] : List Role), _, _, rfl, rfl, .ok (), _, _, rfl, rfl, ⟨0⟩, _, _, rfl, rfl,
      Base64.urlBare.encode [], _, _, rfl, ⟨⟨[], rfl⟩, rfl⟩, (), _, _, rfl, rfl, rfl, rfl, rfl⟩, rfl,
      by simp [Event.Fits, FaultFree.sample]⟩
  refine ⟨_, access, runs_map.mpr ⟨_, runs_bind.mpr (Or.inl ⟨_, rest, (), _, hroom, hopen, rfl⟩), rfl⟩, ?_, ?_⟩
  · rw [List.filterMap_append, hdrawn]
    rfl
  · intro ev hev
    rcases List.mem_append.mp hev with hscan | hrest
    · simp only [List.mem_cons, List.not_mem_nil, or_false] at hscan
      rcases hscan with rfl | rfl
      · rfl
      · trivial
    · exact hfits ev hrest

end SessionWarden
