import SessionWarden.Key.Signer
import SessionWarden.Log.Note
import SessionWarden.Session.Table
/-!
# Scripts

An operation of the service is a script: it asks questions of the world around it, one at a time, and ends
with a result. Reading the clock, drawing an identifier, one call on the table, one signature and one line in
the log are each one question, so that whatever others do between two questions can be said.
-/

namespace SessionWarden

/-- A part of the world that may fail before it does anything. -/
inductive Method where
  | create
  | getById
  | getByUser
  | deleteById
  | deleteByUser
  | rotate
  /-- The look-up of an account (`UserRepo::get_by_name`). -/
  | getByName
  | roles
  /-- The making of a credential. -/
  | build
deriving DecidableEq, Repr

/-- One indivisible call on the table of records. -/
inductive TableCall where
  | get (id : TokenId)
  | insert (r : Record)
  | remove (id : TokenId)
  /-- Removes a record unless it has expired (`remove_if`). -/
  | removeLive (id : TokenId) (now : Instant)
  | ownedBy (user : UserId)
  | removeOwnedBy (user : UserId)

@[reducible] def TableCall.Reply : TableCall → Type
  | .get _ => Option Record
  | .insert _ => Unit
  | .remove _ => Unit
  | .removeLive _ _ => Bool
  | .ownedBy _ => List Record
  | .removeOwnedBy _ => Unit

def TableCall.perform (t : Table) : (c : TableCall) → c.Reply × Table
  | .get id => (t.get id, t)
  | .insert r => ((), t.insert r)
  | .remove id => ((), t.remove id)
  | .removeLive id now => t.removeIf id fun r => !r.isExpiredAt now
  | .ownedBy user => (t.ownedBy user, t)
  | .removeOwnedBy user => ((), t.removeOwnedBy user)

/-- A question of a script, answered in one step. -/
inductive Query where
  | now
  | mint
  | note (n : Note)
  /-- Whether a part of the world fails, and with what text. -/
  | enter (m : Method)
  /-- At what time a rotation that was asked for at a time takes place. -/
  | rotationTime (id : TokenId) (asked : Instant)
  /-- A call on the table. -/
  | table (c : TableCall)
  /-- The roles of a user in the order of their assignment. -/
  | roles (user : UserId)
  | account (name : String)
  /-- A signature of a text, in the form it has in a credential. -/
  | sign (signer : Signer) (text : String)

@[reducible] def Query.Reply : Query → Type
  | .now => Instant
  | .mint => TokenId
  | .note _ => Unit
  | .enter _ => Except String Unit
  | .rotationTime _ _ => Instant
  | .table c => c.Reply
  | .roles _ => List Role
  | .account _ => Option Account
  | .sign _ _ => String

inductive Script (α : Type) where
  | done (a : α)
  | ask (q : Query) (next : q.Reply → Script α)

namespace Script

variable {α β γ : Type}

def bind : Script α → (α → Script β) → Script β
  | done a, f => f a
  | ask q next, f => ask q fun r => (next r).bind f

instance : Monad Script where
  pure := done
  bind := bind

def query (q : Query) : Script q.Reply := ask q done

@[simp] theorem bind_done (a : α) (f : α → Script β) : (done a).bind f = f a := rfl

@[simp] theorem bind_ask (q : Query) (next : q.Reply → Script α) (f : α → Script β) :
    (ask q next).bind f = ask q fun r => (next r).bind f := rfl

theorem bind_pure (s : Script α) : s.bind done = s := by
  induction s with
  | done a => rfl
  | ask q next ih =>
    rw [bind_ask]
    congr 1
    funext r
    exact ih r

theorem bind_assoc (s : Script α) (f : α → Script β) (g : β → Script γ) :
    (s.bind f).bind g = s.bind fun a => (f a).bind g := by
  induction s with
  | done a => rfl
  | ask q next ih =>
    simp only [bind_ask]
    congr 1
    funext r
    exact ih r

end Script

/-- A script that may end with an error of the service. -/
abbrev Action (α : Type) := ExceptT AuthError Script α

namespace Action

def query (q : Query) : Action q.Reply := ExceptT.lift (Script.query q)

def now : Action Instant := query .now

def note (n : Note) : Action Unit := query (.note n)

def table (c : TableCall) : Action c.Reply := query (.table c)

def enter (m : Method) (failure : String → AuthError) : Action Unit := do
  match ← query (.enter m) with
  | .ok () => pure ()
  | .error text => throw (failure text)

def orThrow {α : Type} (e : AuthError) : Option α → Action α
  | some a => pure a
  | none => throw e

end Action

end SessionWarden
