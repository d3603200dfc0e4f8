import SessionWarden.Session.Script
/-!
# The world of scripts

A world holds a clock, the table of records, roles, accounts and the log, and answers the questions of a
script one after the other. What may go wrong while a script runs is part of the world: parts of it that
fail, and what happens to a rotation before it takes place.
-/

namespace SessionWarden

/-- What goes wrong in a world. -/
structure Faults where
  /-- The parts that fail, with the text of their failure. -/
  failing : List (Method × String)
  /-- Whether the record to be rotated is removed before. -/
  steal : Bool
  /-- By how many nanoseconds a rotation is late, if it is. -/
  delay : Option Int
deriving DecidableEq, Repr

def Faults.none : Faults := ⟨[], false, .none⟩

def Faults.failure? (f : Faults) (m : Method) : Option String := (f.failing.find? fun x => x.1 == m).map Prod.snd

/-- What a script asks its questions of. -/
structure World where
  clock : Instant
  table : Table
  /-- Users and their roles, in the order of assignment. -/
  roles : List (UserId × Role)
  directory : Directory
  source : Nat → TokenId
  drawn : Nat
  journal : List Note
  faults : Faults

namespace World

def empty (clock : Instant) (source : Nat → TokenId) : World :=
  ⟨clock, .empty, [], .empty, source, 0, [], .none⟩

def assign (w : World) (user : UserId) (role : Role) : World := { w with roles := w.roles ++ [(user, role)] }

def rolesOf (w : World) (user : UserId) : List Role :=
  (w.roles.filter fun x => x.1 == user).map Prod.snd

/-- The world just before a rotation, and the time of the rotation. -/
def beforeRotation (w : World) (id : TokenId) (asked : Instant) : Instant × World :=
  let w := if w.faults.steal then { w with table := w.table.remove id } else w
  match w.faults.delay with
  | none => (asked, w)
  | some span =>
    let late : Instant := ⟨w.clock.nanos + span⟩
    (late, { w with clock := late })

/-- The answer to a question and the world after it. -/
def answer (w : World) : (q : Query) → q.Reply × World
  | .now => (w.clock, w)
  | .mint => (w.source w.drawn, { w with drawn := w.drawn + 1 })
  | .note n => ((), { w with journal := w.journal ++ [n] })
  | .enter m =>
    (match w.faults.failure? m with
      | some text => .error text
      | none => .ok (), w)
  | .rotationTime id asked => w.beforeRotation id asked
  | .table c =>
    let (reply, table) := c.perform w.table
    (reply, { w with table })
  | .roles user => (w.rolesOf user, w)
  | .account name => (w.directory.find? name, w)
  | .sign signer text => (signer.signText (Bytes.ofString text), w)

def run {α : Type} (w : World) : Script α → α × World
  | .done a => (a, w)
  | .ask q next =>
    let (reply, after) := w.answer q
    run after (next reply)

def runAction {α : Type} (w : World) (a : Action α) : Except AuthError α × World := w.run a.run

@[simp] theorem run_done {α : Type} (w : World) (a : α) : w.run (.done a) = (a, w) := rfl

@[simp] theorem run_ask {α : Type} (w : World) (q : Query) (next : q.Reply → Script α) :
    w.run (.ask q next) = (w.answer q).2.run (next (w.answer q).1) := rfl

theorem run_bind {α β : Type} (w : World) (s : Script α) (f : α → Script β) :
    w.run (s.bind f) = (w.run s).2.run (f (w.run s).1) := by
  induction s generalizing w with
  | done a => rfl
  | ask q next ih =>
    rw [Script.bind_ask, run_ask, run_ask]
    exact ih _ _

variable {α β : Type} {w after : World} {a : Action α} {f : α → Action β}

theorem runAction_bind_of_ok {x : α} (h : w.runAction a = (.ok x, after)) :
    w.runAction (a >>= f) = after.runAction (f x) := by
  rw [runAction] at h
  show w.run (a.run.bind _) = _
  rw [run_bind, h]
  rfl

theorem runAction_bind_of_error {e : AuthError} (h : w.runAction a = (.error e, after)) :
    w.runAction (a >>= f) = (.error e, after) := by
  rw [runAction] at h
  show w.run (a.run.bind _) = _
  rw [run_bind, h]
  rfl

end World

end SessionWarden
