import SessionWarden.Session.Engine
import SessionWarden.Session.World
/-!
# Calls of the engine and the answers of the world

A call of the engine is one of five commands. A question of its script may be answered in more than one way:
the clock, the drawn identifiers, the parts that fail, the roles and the signatures are anyone's, and a scan of
the records of a user lists them in any order. Only the table remembers.
-/

namespace SessionWarden

/-! ### Commands -/

/-- A call of the session engine. -/
inductive Command where
  | create (user : UserId) (signal : Bytes) (persistent : Bool)
  | refresh (id : TokenId) (signal : Bytes)
  | get (id : TokenId)
  | delete (id : TokenId) (signal : Bytes)
  | deleteAll (id : TokenId) (signal : Bytes)

/-- What a call hands back when it succeeds. -/
inductive Outcome where
  | pair (p : TokenPair)
  | record (r : Record)
  | done
deriving DecidableEq

def Engine.serve (e : Engine) : Command → Action Outcome
  | .create user signal persistent => do return .pair (← e.create user signal persistent)
  | .refresh id signal => do return .pair (← e.refresh id signal)
  | .get id => do return .record (← Engine.get id)
  | .delete id signal => do
    Engine.delete id signal
    return .done
  | .deleteAll id signal => do
    Engine.deleteAll id signal
    return .done

/-! ### What a call makes -/

/-- The record of a session that begins at a time, if its expiry can be represented. -/
def Engine.recordAt? (e : Engine) (time : Instant) (id : TokenId) (user : UserId) (signal : Bytes)
    (persistent : Bool) : Option Record :=
  (time.add? e.params.refreshAge).map fun expires => ⟨id, expires, fingerprint user signal, persistent, user⟩

/-- The claims of the credential for a record that is issued at a time, if their expiry can be represented. -/
def Engine.claimsAt (e : Engine) (time : Instant) (x : Record) (roles : List Role) :
    Except SigningFault Claims :=
  Issuer.claims e.issuer.name time x.user.uuid.toText e.params.accessAge (Hex.encode x.fingerprint)
    (roles.map Role.title)

/-! ### Answers -/

/-- A question with its answer. -/
structure Event where
  query : Query
  reply : query.Reply

/-- Whether two replies to a call say the same: the order of a scan says nothing. -/
def TableCall.Alike : (c : TableCall) → c.Reply → c.Reply → Prop
  | .ownedBy _, a, b => a.Perm b
  | .get _, a, b => a = b
  | .insert _, a, b => a = b
  | .remove _, a, b => a = b
  | .removeLive _ _, a, b => a = b
  | .removeOwnedBy _, a, b => a = b

/-- Whether a question may get a reply from a world with this table, and leave the table that is given last.
A signature is some text in base 64. -/
def Table.Answers (t : Table) : (q : Query) → q.Reply → Table → Prop
  | .table c, reply, after => c.Alike reply (c.perform t).1 ∧ after = (c.perform t).2
  | .sign _ _, text, after => (∃ b, text = Base64.urlBare.encode b) ∧ after = t
  | .now, _, after => after = t
  | .mint, _, after => after = t
  | .note _, _, after => after = t
  | .enter _, _, after => after = t
  | .rotationTime _ _, _, after => after = t
  | .roles _, _, after => after = t
  | .account _, _, after => after = t

theorem TableCall.alike_refl (c : TableCall) (reply : c.Reply) : c.Alike reply reply := by
  cases c with
  | ownedBy user => exact List.Perm.refl _
  | get id => rfl
  | insert r => rfl
  | remove id => rfl
  | removeLive id now => rfl
  | removeOwnedBy user => rfl

theorem removeLive_cases (t : Table) (id : TokenId) (time : Instant) :
    ((∀ x, t.get id = some x → x.expires < time) ∧
        (TableCall.removeLive id time).perform t = (false, t)) ∨
      ∃ x, t.get id = some x ∧ ¬ x.expires < time ∧
        (TableCall.removeLive id time).perform t = (true, t.remove id) := by
  simp only [TableCall.perform, Table.removeIf]
  cases hg : t.get id with
  | none =>
    refine Or.inl ⟨?_, rfl⟩
    intro x hx
    cases hx
  | some x =>
    by_cases hx : x.expires < time
    · refine Or.inl ⟨?_, by simp [Record.isExpiredAt, hx]⟩
      rintro y hy
      injection hy with hy
      exact hy ▸ hx
    · exact Or.inr ⟨x, rfl, hx, by simp [Record.isExpiredAt, hx]⟩

theorem World.answer_answers (w : World) (hw : w.faults.steal = false) (q : Query) :
    w.table.Answers q (w.answer q).1 (w.answer q).2.table := by
  cases q with
  | table c => exact ⟨c.alike_refl _, rfl⟩
  | sign signer text => exact ⟨⟨_, rfl⟩, rfl⟩
  | rotationTime id asked =>
    show (w.beforeRotation id asked).2.table = w.table
    simp only [beforeRotation, hw, Bool.false_eq_true, ite_false]
    cases w.faults.delay with
    | none => rfl
    | some span => rfl
  | now => rfl
  | mint => rfl
  | note n => rfl
  | enter m => rfl
  | roles user => rfl
  | account name => rfl

/-! ### What an event tells -/

namespace Event

def drawn? : Event → Option TokenId
  | ⟨.mint, id⟩ => some id
  | _ => none

def stored? : Event → Option Record
  | ⟨.table (.insert r), _⟩ => some r
  | _ => none

def consumed? : Event → Option TokenId
  | ⟨.table (.removeLive id _), true⟩ => some id
  | _ => none

def time? : Event → Option Instant
  | ⟨.now, t⟩ => some t
  | _ => none

def roles? : Event → Option (UserId × List Role)
  | ⟨.roles user, roles⟩ => some (user, roles)
  | _ => none

def signed? : Event → Option (String × String)
  | ⟨.sign _ text, signature⟩ => some (text, signature)
  | _ => none

theorem trace_cases (ev : Event) :
    (∃ id, ev = ⟨.mint, id⟩) ∨ (∃ r, ev = ⟨.table (.insert r), ()⟩) ∨
      (∃ id time removed, ev = ⟨.table (.removeLive id time), removed⟩) ∨
      (ev.drawn? = none ∧ ev.stored? = none ∧ ev.consumed? = none) := by
  obtain ⟨q, reply⟩ := ev
  cases q with
  | mint => exact Or.inl ⟨reply, rfl⟩
  | table call =>
    cases call with
    | insert r => exact Or.inr (Or.inl ⟨r, rfl⟩)
    | removeLive id time => exact Or.inr (Or.inr (Or.inl ⟨id, time, reply, rfl⟩))
    | get id => exact Or.inr (Or.inr (Or.inr ⟨rfl, rfl, rfl⟩))
    | remove id => exact Or.inr (Or.inr (Or.inr ⟨rfl, rfl, rfl⟩))
    | ownedBy user => exact Or.inr (Or.inr (Or.inr ⟨rfl, rfl, rfl⟩))
    | removeOwnedBy user => exact Or.inr (Or.inr (Or.inr ⟨rfl, rfl, rfl⟩))
  | now => exact Or.inr (Or.inr (Or.inr ⟨rfl, rfl, rfl⟩))
  | note n => exact Or.inr (Or.inr (Or.inr ⟨rfl, rfl, rfl⟩))
  | enter m => exact Or.inr (Or.inr (Or.inr ⟨rfl, rfl, rfl⟩))
  | rotationTime id asked => exact Or.inr (Or.inr (Or.inr ⟨rfl, rfl, rfl⟩))
  | roles user => exact Or.inr (Or.inr (Or.inr ⟨rfl, rfl, rfl⟩))
  | account name => exact Or.inr (Or.inr (Or.inr ⟨rfl, rfl, rfl⟩))
  | sign signer text => exact Or.inr (Or.inr (Or.inr ⟨rfl, rfl, rfl⟩))

theorem drawn?_eq_some {ev : Event} {id : TokenId} : ev.drawn? = some id ↔ ev = ⟨.mint, id⟩ := by
  constructor
  · intro h
    rcases ev.trace_cases with ⟨id', rfl⟩ | ⟨r, rfl⟩ | ⟨id', time, removed, rfl⟩ | ⟨hnone, -⟩
    · rw [Option.some.inj h]
    · cases h
    · cases h
    · rw [hnone] at h
      cases h
  · rintro rfl
    rfl

theorem stored?_eq_some {ev : Event} {x : Record} : ev.stored? = some x ↔ ev = ⟨.table (.insert x), ()⟩ := by
  constructor
  · intro h
    rcases ev.trace_cases with ⟨id', rfl⟩ | ⟨r, rfl⟩ | ⟨id', time, removed, rfl⟩ | ⟨-, hnone, -⟩
    · cases h
    · rw [Option.some.inj h]
    · cases h
    · rw [hnone] at h
      cases h
  · rintro rfl
    rfl

theorem consumed?_eq_some {ev : Event} {id : TokenId} :
    ev.consumed? = some id ↔ ∃ time, ev = ⟨.table (.removeLive id time), true⟩ := by
  constructor
  · intro h
    rcases ev.trace_cases with ⟨id', rfl⟩ | ⟨r, rfl⟩ | ⟨id', time, removed, rfl⟩ | ⟨-, -, hnone⟩
    · cases h
    · cases h
    · cases removed with
      | true => exact ⟨time, by rw [Option.some.inj h]⟩
      | false => cases h
    · rw [hnone] at h
      cases h
  · rintro ⟨time, rfl⟩
    rfl

theorem eq_of_time?_eq_some {ev : Event} {t : Instant} (h : ev.time? = some t) : ev = ⟨.now, t⟩ := by
  unfold time? at h
  split at h
  · rw [Option.some.inj h]
  · cases h

theorem eq_of_roles?_eq_some {ev : Event} {user : UserId} {roles : List Role} (h : ev.roles? = some (user, roles)) :
    ev = ⟨.roles user, roles⟩ := by
  unfold roles? at h
  split at h
  · cases h
    rfl
  · cases h

theorem eq_of_signed?_eq_some {ev : Event} {text signature : String} (h : ev.signed? = some (text, signature)) :
    ∃ signer, ev = ⟨.sign signer text, signature⟩ := by
  unfold signed? at h
  split at h
  · rename_i signer _ _
    cases h
    exact ⟨signer, rfl⟩
  · cases h

/-- Whether an event neither draws, stores, consumes nor signs. -/
def Idle (ev : Event) : Prop :=
  ev.drawn? = none ∧ ev.stored? = none ∧ ev.consumed? = none ∧ ev.signed? = none

@[simp] theorem idle_enter (m : Method) (reply : Except String Unit) : Idle ⟨.enter m, reply⟩ :=
  ⟨rfl, rfl, rfl, rfl⟩

@[simp] theorem idle_now (time : Instant) : Idle ⟨.now, time⟩ := ⟨rfl, rfl, rfl, rfl⟩

@[simp] theorem idle_roles (user : UserId) (roles : List Role) : Idle ⟨.roles user, roles⟩ :=
  ⟨rfl, rfl, rfl, rfl⟩

end Event

theorem filterMap_idle {more : List Event} (h : ∀ ev ∈ more, ev.Idle) :
    more.filterMap Event.drawn? = [] ∧ more.filterMap Event.stored? = [] ∧
      more.filterMap Event.consumed? = [] ∧ more.filterMap Event.signed? = [] := by
  simp only [List.filterMap_eq_nil_iff]
  exact ⟨fun ev hev => (h ev hev).1, fun ev hev => (h ev hev).2.1, fun ev hev => (h ev hev).2.2.1,
    fun ev hev => (h ev hev).2.2.2⟩

end SessionWarden
