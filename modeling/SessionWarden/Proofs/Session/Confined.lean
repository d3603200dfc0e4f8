import SessionWarden.Proofs.Session.Conduct
import SessionWarden.Proofs.Session.Stages
import SessionWarden.Proofs.Session.FixedReplies
/-!
# Calls that see one user only

A script is confined to a user if each call that it makes on the table reads and changes that user's records only, and
if it looks at a scan in the order of expiry only. With fixed replies such a script does the same on any two tables that
agree on the records of the user. Every call of the engine is confined to the user for whom it acts.
-/

namespace SessionWarden

variable {user : UserId} {t t' : Table}

/-! ### The records of one user -/

namespace Table

/-- The part of a table that belongs to a user. -/
def only (t : Table) (user : UserId) : Table := t.keep fun x => x.user == user

theorem only_eq_iff : t.only user = t'.only user ↔ t.ownedBy user = t'.ownedBy user :=
  ⟨fun h => congrArg records h, fun h => Table.ext h⟩

/-- Whether a record under an identifier can only be a user's. -/
def Reserves (t : Table) (user : UserId) (id : TokenId) : Prop := ∀ x ∈ t.records, x.id = id → x.user = user

theorem Reserves.user_eq {id : TokenId} {x : Record} (h : t.Reserves user id) (hget : t.get id = some x) :
    x.user = user := by
  obtain ⟨hmem, hid⟩ := get_eq_some_iff.mp hget
  exact h x hmem hid

theorem get_only {id : TokenId} (h : t.Reserves user id) : (t.only user).get id = t.get id := by
  cases hget : t.get id with
  | none =>
    rw [get_eq_none_iff] at hget ⊢
    exact fun x hx => hget x (List.mem_filter.mp hx).1
  | some x =>
    obtain ⟨hmem, hid⟩ := get_eq_some_iff.mp hget
    exact get_eq_some_iff.mpr ⟨mem_ownedBy.mpr ⟨hmem, h x hmem hid⟩, hid⟩

end Table

/-- Whether a call on a table reads and changes the records of a user only. Removals are such for every user: they
take from each what they take. -/
def TableCall.Confined (user : UserId) (t : Table) : TableCall → Prop
  | .get id => t.Reserves user id
  | .insert r => r.user = user
  | .remove _ => True
  | .removeLive id _ => t.Reserves user id
  | .ownedBy owner => owner = user
  | .removeOwnedBy _ => True

/-- A call that is confined to a user does to the user's part of a table what it does to the table. -/
theorem TableCall.Confined.perform_only {c : TableCall} (h : c.Confined user t) :
    c.perform (t.only user) = ((c.perform t).1, (c.perform t).2.only user) := by
  cases c with
  | get id => exact Prod.ext (Table.get_only h) rfl
  | insert r =>
    have huser : r.user = user := h
    refine Prod.ext rfl (Table.ext ?_)
    simp only [perform, Table.only, Table.records_insert, Table.records_keep, List.filter_append, List.filter_filter,
      Bool.and_comm, List.filter_cons, huser, beq_self_eq_true, ite_true, List.filter_nil]
  | remove id =>
    refine Prod.ext rfl (Table.ext ?_)
    simp only [perform, Table.only, Table.records_remove, Table.records_keep, List.filter_filter, Bool.and_comm]
  | removeLive id time =>
    have hget := Table.get_only h
    have hremove : (t.only user).remove id = (t.remove id).only user := by
      refine Table.ext ?_
      simp only [Table.only, Table.records_remove, Table.records_keep, List.filter_filter, Bool.and_comm]
    simp only [perform, Table.removeIf, hget, hremove]
    split
    · rfl
    · rfl
  | ownedBy owner =>
    obtain rfl : owner = user := h
    refine Prod.ext ?_ rfl
    simp only [perform, Table.ownedBy, Table.only, Table.records_keep, List.filter_filter, Bool.and_self]
  | removeOwnedBy owner =>
    refine Prod.ext rfl (Table.ext ?_)
    simp only [perform, Table.only, Table.records_removeOwnedBy, Table.records_keep, List.filter_filter, Bool.and_comm]

/-- Whether a question asks for the records of a user only. -/
def Query.Confined (user : UserId) (t : Table) : Query → Prop
  | .table c => c.Confined user t
  | _ => True

/-! ### Two runs with the same replies -/

/-- Whether two replies come to the same for a script that looks at a scan in the order of expiry. -/
def Query.Same : (q : Query) → q.Reply → q.Reply → Prop
  | .table (.ownedBy _), found, found' => Repository.byExpiry found = Repository.byExpiry found'
  | _, reply, reply' => reply = reply'

def Query.OffTable : Query → Prop
  | .table _ => False
  | _ => True

namespace Query.OffTable

variable {q : Query} (hq : q.OffTable)
include hq

theorem same_iff {reply reply' : q.Reply} : q.Same reply reply' ↔ reply = reply' := by
  cases q with
  | table c => exact hq.elim
  | _ => exact Iff.rfl

theorem confined : q.Confined user t := by
  cases q with
  | table c => exact hq.elim
  | _ => trivial

theorem still : q.Still := by
  cases q with
  | table c => exact hq.elim
  | _ => trivial

theorem eq_of_within {rule : TieRule} {o : FixedReplies} {n : Nat} {reply reply' : q.Reply}
    (h : Event.Within rule o n ⟨q, reply⟩) (h' : Event.Within rule o n ⟨q, reply'⟩) : reply = reply' := by
  cases q with
  | table c => exact hq.elim
  | note line => rfl
  | _ => exact h.trans h'.symm

end Query.OffTable

section Two

variable {rule : TieRule} {o : FixedReplies} {n : Nat}

/-- A question that is confined to a user is answered alike on tables that agree on the user, and leaves such. -/
theorem Query.Confined.same {q : Query} {reply reply' : q.Reply} {mid mid' : Table} (hq : q.Confined user t)
    (hq' : q.Confined user t') (hagree : t.only user = t'.only user) (hanswer : t.Answers q reply mid)
    (hanswer' : t'.Answers q reply' mid') (hwithin : Event.Within rule o n ⟨q, reply⟩)
    (hwithin' : Event.Within rule o n ⟨q, reply'⟩) : q.Same reply reply' ∧ mid.only user = mid'.only user := by
  by_cases hoff : q.OffTable
  · obtain rfl := hanswer.eq_of_still hoff.still
    obtain rfl := hanswer'.eq_of_still hoff.still
    exact ⟨hoff.same_iff.mpr (hoff.eq_of_within hwithin hwithin'), hagree⟩
  · cases q with
    | table c =>
      obtain ⟨hreply, rfl⟩ := hanswer
      obtain ⟨hreply', rfl⟩ := hanswer'
      have hperform : ((c.perform t).1, (c.perform t).2.only user) =
          ((c.perform t').1, (c.perform t').2.only user) := by
        rw [← TableCall.Confined.perform_only hq, ← TableCall.Confined.perform_only hq', hagree]
      obtain ⟨hsaid, hleft⟩ := Prod.mk.inj hperform
      refine ⟨?_, hleft⟩
      cases c with
      | ownedBy owner =>
        have hfound : List.Perm reply (t.ownedBy owner) := hreply
        have hfound' : List.Perm reply' (t'.ownedBy owner) := hreply'
        have hsame : t.ownedBy owner = t'.ownedBy owner := hsaid
        exact TieRule.byExpiry_eq hwithin hwithin' (hfound.trans (hsame ▸ hfound'.symm))
      | get id => exact Eq.trans hreply (Eq.trans hsaid (Eq.symm hreply'))
      | insert r => rfl
      | remove id => rfl
      | removeLive id time => exact Eq.trans hreply (Eq.trans hsaid (Eq.symm hreply'))
      | removeOwnedBy owner => rfl
    | _ => exact absurd trivial hoff

/-- Whether a script on a table asks for the records of a user only, and looks at a scan in the order of expiry. -/
def Script.Confined {α : Type} (user : UserId) : Script α → Table → Prop
  | .done _, _ => True
  | .ask q next, t => q.Confined user t ∧ (∀ reply reply', q.Same reply reply' → next reply = next reply') ∧
    ∀ reply after, t.Answers q reply after → (next reply).Confined user after

/-- With the same replies a script that is confined to a user returns the same on tables that agree on the user, and
leaves tables that agree on the user. -/
theorem Script.Confined.eq_of_runs {α : Type} {s : Script α} (hs : s.Confined user t) (hs' : s.Confined user t')
    (hagree : t.only user = t'.only user) {events events' : List Event} {a a' : α} {after after' : Table}
    (hrun : s.Runs t events a after) (hrun' : s.Runs t' events' a' after') (hfix : o.MetFrom rule n events)
    (hfix' : o.MetFrom rule n events') : a = a' ∧ after.only user = after'.only user := by
  induction s generalizing t t' n events events' with
  | done b =>
    obtain ⟨rfl, rfl, rfl⟩ := hrun
    obtain ⟨rfl, rfl, rfl⟩ := hrun'
    exact ⟨rfl, hagree⟩
  | ask q next ih =>
    obtain ⟨reply, mid, rest, rfl, hanswer, hrest⟩ := hrun
    obtain ⟨reply', mid', rest', rfl, hanswer', hrest'⟩ := hrun'
    obtain ⟨hq, hnext, hleft⟩ := hs
    obtain ⟨hq', -, hleft'⟩ := hs'
    obtain ⟨hsame, hmid⟩ := hq.same hq' hagree hanswer hanswer' hfix.1 hfix'.1
    have hscript := hnext reply reply' hsame
    have hconfined' := hleft' reply' mid' hanswer'
    rw [← hscript] at hrest' hconfined'
    exact ih reply (hleft reply mid hanswer) hconfined' hmid hrest hrest' hfix.2 hfix'.2

end Two

/-! ### Parts of operations -/

namespace Action

variable {α β : Type}

def Confined (user : UserId) (a : Action α) (t : Table) : Prop := Script.Confined user a.run t

theorem confined_bind {x : Action α} {f : α → Action β} (hx : x.Confined user t)
    (hf : ∀ events a mid, x.Runs t events (.ok a) mid → (f a).Confined user mid) : (x >>= f).Confined user t := by
  have key : ∀ (s : Script (Except AuthError α)) (t : Table), s.Confined user t →
      (∀ events a mid, s.Runs t events (.ok a) mid → (f a).Confined user mid) →
      (s.bind (ExceptT.bindCont f)).Confined user t := by
    intro s
    induction s with
    | done r =>
      intro t _ hf
      cases r with
      | ok a => exact hf [] a t ⟨rfl, rfl, rfl⟩
      | error err => trivial
    | ask q next ih =>
      rintro t ⟨hq, hnext, hleft⟩ hf
      refine ⟨hq, fun reply reply' hsame => ?_, fun reply after hanswer => ?_⟩
      · show (next reply).bind _ = (next reply').bind _
        rw [hnext reply reply' hsame]
      · exact ih reply after (hleft reply after hanswer) fun events a mid hrun =>
          hf (⟨q, reply⟩ :: events) a mid ⟨reply, after, events, rfl, hanswer, hrun⟩
  exact key x.run t hx hf

end Action

/-! ### Parts that do not ask for the table -/

theorem Script.Obeys.confined {α : Type} {s : Script α} {fits : List Event → α → Prop} {past : List Event}
    (h : s.Obeys (fun _ q => q.OffTable) fits past) : s.Confined user t := by
  induction s generalizing past with
  | done a => trivial
  | ask q next ih =>
    obtain ⟨hq, hnext⟩ := h
    refine ⟨hq.confined, fun reply reply' hsame => ?_, fun reply after hanswer => ?_⟩
    · rw [hq.same_iff.mp hsame]
    · obtain rfl := hanswer.eq_of_still hq.still
      exact ih reply (hnext reply ⟨_, _, hanswer⟩)

section Parts

open SessionWarden.Action (Confined confined_bind)

variable {α : Type} {e : Engine}

theorem confined_asked {q : Query} {f : q.Reply → Action α} (hq : q.OffTable)
    (hf : ∀ reply, (f reply).Confined user t) : Confined user (Action.query q >>= f) t := by
  refine ⟨hq.confined, fun reply reply' hsame => ?_, fun reply after hanswer => ?_⟩
  · rw [hq.same_iff.mp hsame]
  · obtain rfl := hanswer.eq_of_still hq.still
    exact hf reply

theorem confined_of_obeys {a : Action α} (h : a.Obeys (fun _ q => q.OffTable) (fun _ _ => True) []) :
    a.Confined user t := Script.Obeys.confined h

theorem confined_enter (m : Method) (failure : String → AuthError) : Confined user (Action.enter m failure) t :=
  confined_of_obeys (Action.obeys_enter trivial trivial fun _ => trivial)

theorem confined_entered {m : Method} {failure : String → AuthError} {a : Action α} (ha : a.Confined user t) :
    Confined user (do Action.enter m failure; a) t := by
  refine confined_bind (confined_enter m failure) fun events u mid hrun => ?_
  obtain ⟨rfl, -⟩ := Action.runs_enter.mp hrun
  exact ha

theorem confined_newRecord (owner : UserId) (signal : Bytes) (persistent : Bool) :
    Confined user (e.newRecord owner signal persistent) t :=
  confined_of_obeys (obeys_newRecord trivial (fun _ => trivial) (fun _ _ => trivial) fun _ _ _ _ => trivial)

theorem confined_issueAccess (x : Record) : Confined user (e.issueAccess x) t := by
  refine confined_of_obeys (obeys_issueAccess ?_ (fun _ _ _ => trivial) fun _ _ _ _ _ _ => trivial)
  rintro past q (rfl | rfl | rfl | rfl | ⟨text, rfl⟩)
  · trivial
  · trivial
  · trivial
  · trivial
  · trivial

theorem confined_granted (x : Record) (n : Note) (g : String → α) : Confined user (do
    let access ← e.issueAccess x
    Action.note n
    return g access) t :=
  confined_bind (confined_issueAccess x) fun _ _ _ _ => confined_asked trivial fun _ => trivial

/-! ### Parts that ask for the table -/

theorem confined_table {c : TableCall} (hc : c.Confined user t)
    (heq : ∀ reply reply', (Query.table c).Same reply reply' → reply = reply') :
    Confined user (Action.table c) t := by
  refine ⟨hc, fun reply reply' hsame => ?_, fun _ _ _ => trivial⟩
  rw [heq reply reply' hsame]

theorem confined_getByUser : Confined user (Repository.getByUser user) t := by
  refine confined_entered ⟨rfl, fun found found' hsame => ?_, fun _ _ _ => trivial⟩
  have hsame : Repository.byExpiry found = Repository.byExpiry found' := hsame
  show Script.done (Except.ok (Repository.byExpiry found)) = Script.done (Except.ok (Repository.byExpiry found'))
  rw [hsame]

theorem confined_deleteById (id : TokenId) : Confined user (Repository.deleteById id) t :=
  confined_entered (confined_table trivial fun _ _ h => h)

theorem confined_deletions (l : List Record) :
    Confined user (l.forM fun x => Repository.deleteById x.id) t := by
  induction l generalizing t with
  | nil => trivial
  | cons x xs ih => exact confined_bind (confined_deleteById x.id) fun _ _ _ _ => ih

theorem confined_evictForCapacity : Confined user (e.evictForCapacity user) t := by
  refine confined_bind confined_getByUser fun events sorted mid hrun => ?_
  split
  · trivial
  · exact confined_bind (confined_deletions _) fun _ _ _ _ => confined_asked trivial fun _ => trivial

theorem confined_store {x : Record} (hx : x.user = user) : Confined user (Repository.create x) t :=
  confined_entered (confined_bind (confined_table hx fun _ _ h => h) fun _ _ _ _ => trivial)

theorem confined_rotate {id : TokenId} {asked : Instant} {new : Record} (hid : t.Reserves user id)
    (hnew : new.user = user) : Confined user (Repository.rotate id asked new) t := by
  refine confined_entered (confined_asked trivial fun time => ?_)
  refine confined_bind (confined_table hid fun _ _ h => h) fun events removed mid hrun => ?_
  cases removed with
  | true => exact confined_bind (confined_table hnew fun _ _ h => h) fun _ _ _ _ => trivial
  | false => trivial

theorem confined_find {id : TokenId} (hid : t.Reserves user id) : Confined user (Engine.find id) t := by
  refine confined_bind (confined_entered (confined_table hid fun _ _ h => h)) fun events found mid hrun => ?_
  cases found with
  | none => exact confined_asked trivial fun _ => trivial
  | some x => trivial

theorem confined_findBound {id : TokenId} {signal : Bytes} (hid : t.Reserves user id) :
    Confined user (Engine.findBound id signal) t := by
  refine confined_bind (confined_find hid) fun events x mid hrun => ?_
  cases checkFingerprint x.user signal x.fingerprint with
  | error err => exact confined_asked trivial fun _ => trivial
  | ok u =>
    refine confined_asked trivial fun time => ?_
    show Action.Confined user (if x.isExpiredAt time then _ else pure x) mid
    split
    · exact confined_asked trivial fun _ => trivial
    · trivial

theorem confined_lost (old : Record) (n n' : Note) : Confined user (do
    if old.isExpiredAt (← Action.now) then
      Action.note n
      throw .tokenExpired
    else
      Action.note n'
      throw .tokenIncorrect : Action α) t := by
  refine confined_asked trivial fun time => ?_
  show Action.Confined user (if old.isExpiredAt time then _ else _) t
  split
  · exact confined_asked trivial fun _ => trivial
  · exact confined_asked trivial fun _ => trivial

/-! ### Operations -/

theorem confined_create (signal : Bytes) (persistent : Bool) :
    Confined user (e.create user signal persistent) t := by
  refine confined_bind confined_evictForCapacity fun _ _ room _ => ?_
  refine confined_bind (confined_newRecord user signal persistent) fun events new mid hmake => ?_
  have hnew : new.user = user := ((runs_newRecord hmake).2.makes fun _ h => h).user_eq
  exact confined_bind (confined_store hnew) fun _ x _ _ => confined_granted x _ _

theorem confined_refresh {id : TokenId} {signal : Bytes} (hid : t.Reserves user id) :
    Confined user (e.refresh id signal) t := by
  refine confined_bind (confined_findBound hid) fun look old mid hfind => ?_
  obtain ⟨rfl, hlook⟩ := runs_findBound hfind
  obtain ⟨hget, rfl, -⟩ := hlook.eq_some
  refine confined_bind (confined_newRecord old.user signal old.persistent) fun make new mid' hmake => ?_
  obtain ⟨rfl, hmade⟩ := runs_newRecord hmake
  have hnew : new.user = user := (hmade.makes fun _ h => h).user_eq.trans (hid.user_eq hget)
  refine confined_asked trivial fun asked => ?_
  refine confined_bind (confined_rotate hid hnew) fun turn found mid hrotate => ?_
  cases found with
  | none => exact confined_lost old _ _
  | some x => exact confined_granted x _ _

theorem confined_get {id : TokenId} (hid : t.Reserves user id) : Confined user (Engine.get id) t := by
  refine confined_bind (confined_find hid) fun events x mid hrun => confined_asked trivial fun time => ?_
  show Action.Confined user (if x.isExpiredAt time then throw .tokenExpired else pure x) mid
  split
  · trivial
  · trivial

theorem confined_delete {id : TokenId} {signal : Bytes} (hid : t.Reserves user id) :
    Confined user (Engine.delete id signal) t :=
  confined_bind (confined_findBound hid) fun _ x _ _ =>
    confined_bind (confined_deleteById x.id) fun _ _ _ _ => confined_asked trivial fun _ => trivial

theorem confined_deleteAll {id : TokenId} {signal : Bytes} (hid : t.Reserves user id) :
    Confined user (Engine.deleteAll id signal) t :=
  confined_bind (confined_findBound hid) fun _ _ _ _ =>
    confined_bind (confined_entered (confined_table trivial fun _ _ h => h)) fun _ _ _ _ =>
      confined_asked trivial fun _ => trivial

end Parts

/-- Whether a call on a table can only act for a user: it opens a session for the user, or what it presents is the
user's or nobody's. -/
def Command.Confined (user : UserId) (t : Table) : Command → Prop
  | .create owner _ _ => owner = user
  | .refresh id _ => t.Reserves user id
  | .get id => t.Reserves user id
  | .delete id _ => t.Reserves user id
  | .deleteAll id _ => t.Reserves user id

theorem Command.Confined.serve {c : Command} (h : c.Confined user t) (e : Engine) : (e.serve c).Confined user t := by
  cases c with
  | create owner signal persistent =>
    obtain rfl : owner = user := h
    exact Action.confined_bind (confined_create signal persistent) fun _ _ _ _ => trivial
  | refresh id signal => exact Action.confined_bind (confined_refresh h) fun _ _ _ _ => trivial
  | get id => exact Action.confined_bind (confined_get h) fun _ _ _ _ => trivial
  | delete id signal => exact Action.confined_bind (confined_delete h) fun _ _ _ _ => trivial
  | deleteAll id signal => exact Action.confined_bind (confined_deleteAll h) fun _ _ _ _ => trivial

end SessionWarden
