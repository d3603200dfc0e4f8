import SessionWarden.Proofs.Session.Operations
/-!
# The texts of failures

Two runs of a script may be told of the same failures in different words. The script then asks the same questions in
both, but for the words of its notes, leaves the same table and ends with the same result, or with two errors that no
client is blamed for.
-/

namespace SessionWarden

/-! ### Replies that differ in words -/

/-- Whether two replies to a question differ in nothing but the text of a failure. -/
def Query.Alike : (q : Query) → q.Reply → q.Reply → Prop
  | .enter _, a, b => a.toOption = b.toOption
  | .now, a, b => a = b
  | .mint, a, b => a = b
  | .note _, a, b => a = b
  | .rotationTime _ _, a, b => a = b
  | .table _, a, b => a = b
  | .roles _, a, b => a = b
  | .account _, a, b => a = b
  | .sign _ _, a, b => a = b

/-- Whether two runs were told the same, but for the texts of failures: a question that both asked at one place got
the same answer. -/
def AlikeEvents (events events' : List Event) : Prop :=
  ∀ (n : Nat) (q : Query) (a b : q.Reply), events[n]? = some ⟨q, a⟩ → events'[n]? = some ⟨q, b⟩ → q.Alike a b

theorem alikeEvents_cons {ev ev' : Event} {events events' : List Event} :
    AlikeEvents (ev :: events) (ev' :: events') ↔
      (∀ (q : Query) (a b : q.Reply), ev = ⟨q, a⟩ → ev' = ⟨q, b⟩ → q.Alike a b) ∧ AlikeEvents events events' := by
  constructor
  · intro h
    exact ⟨fun q a b ha hb => h 0 q a b (congrArg some ha) (congrArg some hb),
      fun n q a b ha hb => h (n + 1) q a b ha hb⟩
  · rintro ⟨hhead, htail⟩ n q a b ha hb
    cases n with
    | zero => exact hhead q a b (Option.some.inj ha) (Option.some.inj hb)
    | succ n => exact htail n q a b ha hb

theorem alikeEvents_nil : AlikeEvents [] [] := fun _ _ _ _ ha => nomatch ha

/-! ### Scripts that go together -/

namespace Script

variable {α β α' β' : Type} {R : α → β → Prop} {R' : α' → β' → Prop}

/-- Whether two scripts that are told the same, but for the texts of failures, ask the same, but for the words of their
notes, and end with related results. -/
inductive Twins (R : α → β → Prop) : Script α → Script β → Prop
  | done (a : α) (b : β) (h : R a b) : Twins R (.done a) (.done b)
  | ask (q : Query) (next : q.Reply → Script α) (next' : q.Reply → Script β)
    (h : ∀ x y, q.Alike x y → Twins R (next x) (next' y)) : Twins R (.ask q next) (.ask q next')
  | note (n n' : Note) (next : Unit → Script α) (next' : Unit → Script β) (h : Twins R (next ()) (next' ())) :
    Twins R (.ask (.note n) next) (.ask (.note n') next')

theorem Twins.bind {s : Script α} {s' : Script β} {f : α → Script α'} {f' : β → Script β'} (h : s.Twins R s')
    (hf : ∀ a b, R a b → (f a).Twins R' (f' b)) : (s.bind f).Twins R' (s'.bind f') := by
  induction h with
  | done a b h => exact hf a b h
  | ask q next next' h ih => exact .ask q _ _ fun x y hxy => ih x y hxy
  | note n n' next next' h ih => exact .note n n' _ _ ih

theorem Twins.of_runs {s : Script α} {s' : Script β} {t after after' : Table} {events events' : List Event} {a : α}
    {b : β} (h : s.Twins R s') (hruns : s.Runs t events a after) (hruns' : s'.Runs t events' b after')
    (halike : AlikeEvents events events') : R a b ∧ after = after' := by
  induction h generalizing t events events' with
  | done c d h =>
    obtain ⟨-, rfl, rfl⟩ := hruns
    obtain ⟨-, rfl, rfl⟩ := hruns'
    exact ⟨h, rfl⟩
  | ask q next next' h ih =>
    obtain ⟨x, mid, rest, rfl, hanswer, hrest⟩ := hruns
    obtain ⟨y, mid', rest', rfl, hanswer', hrest'⟩ := hruns'
    obtain rfl := hanswer.unique hanswer'
    obtain ⟨hhead, htail⟩ := alikeEvents_cons.mp halike
    exact ih x y (hhead q x y rfl rfl) hrest hrest' htail
  | note n n' next next' h ih =>
    obtain ⟨_, mid, rest, rfl, rfl, hrest⟩ := hruns
    obtain ⟨_, mid', rest', rfl, rfl, hrest'⟩ := hruns'
    exact ih hrest hrest' (alikeEvents_cons.mp halike).2

end Script

/-! ### Errors and their texts -/

/-- Whether two errors differ in nothing but a text that no client is told. -/
def AuthError.Alike (err err' : AuthError) : Prop := err = err' ∨ (err.isExternal = false ∧ err'.isExternal = false)

/-- Whether two results are the same, but for the texts of errors. -/
def AlikeResults {α : Type} : Except AuthError α → Except AuthError α → Prop
  | .ok a, .ok b => a = b
  | .error err, .error err' => err.Alike err'
  | _, _ => False

namespace Action

variable {α β : Type}

/-- Whether an action keeps the texts of failures to itself: told of the same failures in other words, it does the
same. -/
def Discreet (a : Action α) : Prop := Script.Twins AlikeResults a.run a.run

theorem discreet_bind {x : Action α} {f : α → Action β} (hx : x.Discreet) (hf : ∀ a, (f a).Discreet) :
    (x >>= f).Discreet := by
  refine Script.Twins.bind hx fun r r' halike => ?_
  cases r with
  | ok a =>
    cases r' with
    | ok b =>
      obtain rfl : a = b := halike
      exact hf a
    | error err => exact halike.elim
  | error err =>
    cases r' with
    | ok b => exact halike.elim
    | error err' => exact .done _ _ halike

theorem discreet_pure (a : α) : (pure a : Action α).Discreet := .done _ _ rfl

theorem discreet_throw (err : AuthError) : (throw err : Action α).Discreet := .done _ _ (Or.inl rfl)

theorem discreet_query {q : Query} (hq : ∀ x y, q.Alike x y → x = y) : (query q).Discreet :=
  .ask q _ _ fun x y hxy => .done _ _ (hq x y hxy)

theorem discreet_now : now.Discreet := discreet_query fun _ _ h => h

theorem discreet_note (n : Note) : (note n).Discreet := discreet_query fun _ _ h => h

theorem discreet_table (c : TableCall) : (table c).Discreet := discreet_query fun _ _ h => h

theorem discreet_enter {m : Method} {failure : String → AuthError} (hfail : ∀ text, (failure text).isExternal = false) :
    (enter m failure).Discreet := by
  refine .ask (.enter m) _ _ fun x y hxy => ?_
  cases x with
  | ok u =>
    cases y with
    | ok v => exact .done _ _ rfl
    | error text => cases hxy
  | error text =>
    cases y with
    | ok v => cases hxy
    | error text' => exact .done _ _ (Or.inr ⟨hfail text, hfail text'⟩)

theorem discreet_orThrow (err : AuthError) (o : Option α) : (orThrow err o).Discreet := by
  cases o with
  | none => exact discreet_throw err
  | some a => exact discreet_pure a

theorem discreet_ite {p : Prop} [Decidable p] {x y : Action α} (hx : x.Discreet) (hy : y.Discreet) :
    (if p then x else y).Discreet := by
  split
  · exact hx
  · exact hy

end Action

/-! ### The engine is discreet -/

section Engine

open SessionWarden.Action

theorem discreet_called {α : Type} (m : Method) {a : Action α} (ha : a.Discreet) :
    Discreet (do enter m .store; a) :=
  discreet_bind (discreet_enter fun _ => rfl) fun _ => ha

theorem discreet_refused {α : Type} (n : Note) (err : AuthError) :
    Discreet (do note n; throw err : Action α) :=
  discreet_bind (discreet_note n) fun _ => discreet_throw err

theorem discreet_find (id : TokenId) : (Engine.find id).Discreet := by
  refine discreet_bind (discreet_called .getById (discreet_table _)) fun found => ?_
  cases found with
  | none => exact discreet_refused _ _
  | some x => exact discreet_pure x

theorem discreet_findBound (id : TokenId) (signal : Bytes) : (Engine.findBound id signal).Discreet := by
  refine discreet_bind (discreet_find id) fun x => ?_
  cases checkFingerprint x.user signal x.fingerprint with
  | error err => exact discreet_refused _ _
  | ok u => exact discreet_bind discreet_now fun time => discreet_ite (discreet_refused _ _) (discreet_pure x)

theorem discreet_newRecord (e : Engine) (user : UserId) (signal : Bytes) (persistent : Bool) :
    (e.newRecord user signal persistent).Discreet :=
  discreet_bind discreet_now fun _ => discreet_bind (discreet_orThrow _ _) fun _ =>
    discreet_bind (discreet_query fun _ _ h => h) fun _ => discreet_pure _

theorem discreet_issueAccess (e : Engine) (x : Record) : (e.issueAccess x).Discreet := by
  refine discreet_bind (discreet_called .roles (discreet_query fun _ _ h => h)) fun roles => ?_
  refine discreet_bind (discreet_enter fun _ => rfl) fun _ => discreet_bind discreet_now fun time => ?_
  show Discreet (e.signed (e.claimsAt time x roles))
  cases e.claimsAt time x roles with
  | error fault => exact discreet_throw _
  | ok claims => exact discreet_bind (discreet_query fun _ _ h => h) fun _ => discreet_pure _

theorem discreet_deletions (l : List Record) : Discreet (l.forM fun x => Repository.deleteById x.id) := by
  induction l with
  | nil => exact discreet_pure _
  | cons x xs ih => exact discreet_bind (discreet_called .deleteById (discreet_table _)) fun _ => ih

theorem discreet_evictForCapacity (e : Engine) (user : UserId) : (e.evictForCapacity user).Discreet := by
  have hscan : (Repository.getByUser user).Discreet :=
    discreet_called .getByUser (discreet_bind (discreet_table _) fun found => discreet_pure _)
  refine discreet_bind hscan fun found => discreet_ite (discreet_pure _) ?_
  exact discreet_bind (discreet_deletions _) fun _ => discreet_note _

theorem discreet_create (e : Engine) (user : UserId) (signal : Bytes) (persistent : Bool) :
    (e.create user signal persistent).Discreet := by
  refine discreet_bind (discreet_evictForCapacity e user) fun _ =>
    discreet_bind (discreet_newRecord e user signal persistent) fun new => ?_
  have hstore : (Repository.create new).Discreet :=
    discreet_called .create (discreet_bind (discreet_table _) fun _ => discreet_pure _)
  exact discreet_bind hstore fun x => discreet_bind (discreet_issueAccess e x) fun _ =>
    discreet_bind (discreet_note _) fun _ => discreet_pure _

theorem discreet_rotate (id : TokenId) (asked : Instant) (new : Record) :
    (Repository.rotate id asked new).Discreet := by
  refine discreet_called .rotate (discreet_bind (discreet_query fun _ _ h => h) fun time =>
    discreet_bind (discreet_table _) fun removed => discreet_ite ?_ (discreet_pure _))
  exact discreet_bind (discreet_table _) fun _ => discreet_pure _

theorem discreet_refresh (e : Engine) (id : TokenId) (signal : Bytes) : (e.refresh id signal).Discreet := by
  refine discreet_bind (discreet_findBound id signal) fun old =>
    discreet_bind (discreet_newRecord e old.user signal old.persistent) fun new =>
      discreet_bind discreet_now fun asked => discreet_bind (discreet_rotate old.id asked new) fun found => ?_
  cases found with
  | none =>
    exact discreet_bind discreet_now fun time => discreet_ite (discreet_refused _ _) (discreet_refused _ _)
  | some x =>
    exact discreet_bind (discreet_issueAccess e x) fun _ => discreet_bind (discreet_note _) fun _ => discreet_pure _

theorem discreet_delete (id : TokenId) (signal : Bytes) : (Engine.delete id signal).Discreet :=
  discreet_bind (discreet_findBound id signal) fun _ =>
    discreet_bind (discreet_called .deleteById (discreet_table _)) fun _ => discreet_note _

theorem discreet_deleteAll (id : TokenId) (signal : Bytes) : (Engine.deleteAll id signal).Discreet :=
  discreet_bind (discreet_findBound id signal) fun _ =>
    discreet_bind (discreet_called .deleteByUser (discreet_table _)) fun _ => discreet_note _

/-! ### So are the verifiers of names and of credentials -/

theorem discreet_loginVerify (name password : String) : (Login.verify name password).Discreet := by
  have hlook : (Repository.getByName name).Discreet := discreet_called .getByName (discreet_query fun _ _ h => h)
  refine discreet_bind hlook fun found => ?_
  cases found with
  | none => exact discreet_throw _
  | some account =>
    dsimp only
    rcases Password.verify password account.passwordHash with err | verdict
    · exact discreet_throw _
    · cases verdict with
      | true => exact discreet_pure _
      | false => exact discreet_refused _ _

theorem discreet_parse (i : Inspector) (credential : String) : (i.parse credential).Discreet := by
  refine discreet_bind discreet_now fun time => ?_
  cases i.inspect time credential with
  | error reason => exact discreet_refused _ _
  | ok claims => exact discreet_pure _

theorem discreet_principal (signal : Bytes) (claims : Claims) : (Inspector.principal signal claims).Discreet := by
  rw [Inspector.principal]
  cases Uuid.parse claims.subject with
  | error fault => exact discreet_refused _ _
  | ok uuid =>
    dsimp only
    cases checkFingerprintHex ⟨uuid⟩ signal claims.fingerprint with
    | error err => exact discreet_refused _ _
    | ok u => exact discreet_pure _

theorem discreet_verify (i : Inspector) (credential : String) (signal : Bytes) :
    (i.verify credential signal).Discreet :=
  discreet_bind (discreet_parse i credential) fun claims => discreet_principal signal claims

end Engine

end SessionWarden
