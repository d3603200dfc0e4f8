import Mathlib.Data.List.Induction
import Mathlib.Data.List.Basic
import Mathlib.Data.List.Nodup
import Mathlib.Data.Set.Basic
import SessionWarden.Proofs.Session.Owned
import SessionWarden.Proofs.Session.Verdicts
/-!
# The contract of the repository

The contract is about a set of records, whatever table keeps them: for each call it says what may be returned and which
records there are afterwards. The repository keeps to it along every sequence of calls, also where an identifier is
stored twice, where records expire at one time, and where a record is renewed under an identifier that is taken.
-/

namespace SessionWarden

/-! ### Calls and deeds -/

inductive RepositoryCall where
  | create (x : Record)
  | getById (id : TokenId)
  | getByUser (user : UserId)
  | deleteById (id : TokenId)
  | deleteByUser (user : UserId)
  | rotate (id : TokenId) (now : Instant) (new : Record)

namespace RepositoryCall

@[reducible] def Reply : RepositoryCall → Type
  | create _ => Record
  | getById _ => Option Record
  | getByUser _ => List Record
  | deleteById _ => Unit
  | deleteByUser _ => Unit
  | rotate _ _ _ => Option Record

def action : (c : RepositoryCall) → Action c.Reply
  | create x => Repository.create x
  | getById id => Repository.getById id
  | getByUser user => Repository.getByUser user
  | deleteById id => Repository.deleteById id
  | deleteByUser user => Repository.deleteByUser user
  | rotate id now new => Repository.rotate id now new

end RepositoryCall

/-- A call that was made, with what it returned. -/
structure Deed where
  call : RepositoryCall
  reply : call.Reply

namespace Deed

def stored? : Deed → Option Record
  | ⟨.create x, _⟩ => some x
  | ⟨.rotate _ _ new, some _⟩ => some new
  | _ => none

def Removes (x : Record) : Deed → Prop
  | ⟨.deleteById id, _⟩ => x.id = id
  | ⟨.deleteByUser user, _⟩ => x.user = user
  | ⟨.rotate id _ _, some _⟩ => x.id = id
  | _ => False

/-- Whether a deed leaves a record where it is: it neither takes it out nor stores another under its identifier. -/
def Spares (d : Deed) (x : Record) : Prop := ¬ d.Removes x ∧ ∀ y, d.stored? = some y → y.id ≠ x.id

/-- Whether a deed only looks: a reading, or a rotation that is refused. -/
def Looks : Deed → Prop
  | ⟨.getById _, _⟩ => True
  | ⟨.getByUser _, _⟩ => True
  | ⟨.rotate _ _ _, none⟩ => True
  | _ => False

end Deed

/-- Calls that are made one after the other from an empty table while nothing fails. -/
inductive Usage : List Deed → Table → Prop
  | nil : Usage [] .empty
  | snoc (deeds : List Deed) (o : FaultFree) (c : RepositoryCall) (reply : c.Reply) (events : List Event)
    (t after : Table) (h : Usage deeds t) (hrun : c.action.Runs t events (.ok reply) after)
    (hfits : ∀ ev ∈ events, ev.Fits o) : Usage (deeds ++ [⟨c, reply⟩]) after

/-- Whether a record was stored by one of some deeds and has been left where it is since. -/
def Standing (deeds : List Deed) (x : Record) : Prop :=
  ∃ before d later, deeds = before ++ d :: later ∧ d.stored? = some x ∧ ∀ d' ∈ later, d'.Spares x

theorem not_standing_nil (x : Record) : ¬ Standing [] x := by
  rintro ⟨before, d, later, heq, -⟩
  exact absurd heq.symm (by simp)

theorem standing_concat {deeds : List Deed} {d : Deed} {x : Record} :
    Standing (deeds ++ [d]) x ↔ d.stored? = some x ∨ (Standing deeds x ∧ d.Spares x) := by
  constructor
  · rintro ⟨before, d', later, heq, hstored, hspared⟩
    -- the deed that stored the record is the last one, or stands before it
    rcases List.eq_nil_or_concat' later with rfl | ⟨middle, last, rfl⟩
    · obtain ⟨-, hd⟩ := List.append_inj' heq rfl
      obtain rfl : d = d' := List.head_eq_of_cons_eq hd
      exact Or.inl hstored
    · rw [← List.cons_append, ← List.append_assoc] at heq
      obtain ⟨hdeeds, hlast⟩ := List.append_inj' heq rfl
      obtain rfl : d = last := List.head_eq_of_cons_eq hlast
      refine Or.inr ⟨⟨before, d', middle, hdeeds, hstored, fun d hd => ?_⟩, ?_⟩
      · exact hspared d (List.mem_append_left _ hd)
      · exact hspared d (List.mem_append_right _ List.mem_cons_self)
  · rintro (hstored | ⟨⟨before, d', later, rfl, hstored, hspared⟩, hlast⟩)
    · exact ⟨deeds, d, [], rfl, hstored, fun d' hd' => absurd hd' List.not_mem_nil⟩
    · refine ⟨before, d', later ++ [d], by simp, hstored, fun d'' hd'' => ?_⟩
      rcases List.mem_append.mp hd'' with hlater | hnew
      · exact hspared d'' hlater
      · obtain rfl := List.mem_singleton.mp hnew
        exact hlast

/-! ### Sets of records -/

namespace Records

def put (s : Set Record) (x : Record) : Set Record := {y | y = x ∨ (y ∈ s ∧ y.id ≠ x.id)}

def without (s : Set Record) (id : TokenId) : Set Record := {y | y ∈ s ∧ y.id ≠ id}

/-- Whether there is a record of an identifier that has not expired. -/
def Live (s : Set Record) (id : TokenId) (now : Instant) : Prop := ∃ x ∈ s, x.id = id ∧ now ≤ x.expires

def Distinct (s : Set Record) : Prop := ∀ x ∈ s, ∀ y ∈ s, x.id = y.id → x = y

theorem Distinct.subset {s s' : Set Record} (h : Distinct s) (hsub : s' ⊆ s) : Distinct s' :=
  fun x hx y hy => h x (hsub hx) y (hsub hy)

theorem Distinct.put {s : Set Record} (h : Distinct s) (x : Record) : Distinct (put s x) := by
  rintro y (rfl | ⟨hy, hyx⟩) z (rfl | ⟨hz, hzx⟩) heq
  · rfl
  · exact absurd heq.symm hzx
  · exact absurd heq hyx
  · exact h y hy z hz heq

end Records

open Records

/-- What the contract asks of a deed: from which records to which it leads, and what it returns on the way. -/
inductive Contract (s : Set Record) : Deed → Set Record → Prop
  | create (x : Record) : Contract s ⟨.create x, x⟩ (put s x)
  | getById (id : TokenId) (found : Option Record) (h : ∀ x, found = some x ↔ x ∈ s ∧ x.id = id) :
    Contract s ⟨.getById id, found⟩ s
  | getByUser (user : UserId) (found : List Record) (hnodup : found.Nodup)
    (h : ∀ x, x ∈ found ↔ x ∈ s ∧ x.user = user) (hsorted : found.Pairwise fun x y => x.expires ≤ y.expires) :
    Contract s ⟨.getByUser user, found⟩ s
  | deleteById (id : TokenId) : Contract s ⟨.deleteById id, ()⟩ (without s id)
  | deleteByUser (user : UserId) : Contract s ⟨.deleteByUser user, ()⟩ {y | y ∈ s ∧ y.user ≠ user}
  | rotated (id : TokenId) (now : Instant) (new : Record) (h : Live s id now) :
    Contract s ⟨.rotate id now new, some new⟩ (put (without s id) new)
  | refused (id : TokenId) (now : Instant) (new : Record) (h : ¬ Live s id now) :
    Contract s ⟨.rotate id now new, none⟩ s

/-- Deeds one after the other that keep to the contract, and the records that there are after them. -/
inductive Contracts : List Deed → Set Record → Prop
  | nil : Contracts [] ∅
  | snoc (deeds : List Deed) (d : Deed) (s s' : Set Record) (h : Contracts deeds s) (hstep : Contract s d s') :
    Contracts (deeds ++ [d]) s'

theorem Contract.distinct {s s' : Set Record} {d : Deed} (h : Contract s d s') (hs : Distinct s) : Distinct s' := by
  cases h with
  | create x => exact hs.put x
  | getById id found h => exact hs
  | getByUser user found hnodup h hsorted => exact hs
  | deleteById id => exact hs.subset fun _ hx => hx.1
  | deleteByUser user => exact hs.subset fun _ hx => hx.1
  | rotated id now new h =>
    have hleft : Distinct (without s id) := hs.subset fun _ hx => hx.1
    exact hleft.put new
  | refused id now new h => exact hs

/-- After a deed there is what it has stored, and of what there was before what it spares. -/
theorem Contract.mem_iff {s s' : Set Record} {d : Deed} (h : Contract s d s') (x : Record) :
    x ∈ s' ↔ d.stored? = some x ∨ (x ∈ s ∧ d.Spares x) := by
  cases h with
  | create y => simp [put, Deed.stored?, Deed.Spares, Deed.Removes, eq_comm]
  | getById id found h => simp [Deed.stored?, Deed.Spares, Deed.Removes]
  | getByUser user found hnodup h hsorted => simp [Deed.stored?, Deed.Spares, Deed.Removes]
  | deleteById id => simp [without, Deed.stored?, Deed.Spares, Deed.Removes]
  | deleteByUser user => simp [Deed.stored?, Deed.Spares, Deed.Removes]
  | rotated id now new h => simp [put, without, Deed.stored?, Deed.Spares, Deed.Removes, eq_comm, and_assoc]
  | refused id now new h => simp [Deed.stored?, Deed.Spares, Deed.Removes]

theorem Contract.of_getById {s s' : Set Record} {id : TokenId} {found : Option Record}
    (h : Contract s ⟨.getById id, found⟩ s') (x : Record) : found = some x ↔ x ∈ s ∧ x.id = id := by
  cases h with
  | getById _ _ h => exact h x

theorem Contract.of_getByUser {s s' : Set Record} {user : UserId} {found : List Record}
    (h : Contract s ⟨.getByUser user, found⟩ s') : found.Nodup ∧ (∀ x, x ∈ found ↔ x ∈ s ∧ x.user = user) ∧
      found.Pairwise fun x y => x.expires ≤ y.expires := by
  cases h with
  | getByUser _ _ hnodup h hsorted => exact ⟨hnodup, h, hsorted⟩

theorem Contract.of_rotate {s s' : Set Record} {id : TokenId} {now : Instant} {new : Record} {reply : Option Record}
    (h : Contract s ⟨.rotate id now new, reply⟩ s') :
    (Live s id now ∧ reply = some new ∧ s' = put (without s id) new) ∨ (¬ Live s id now ∧ reply = none) := by
  cases h with
  | rotated _ _ _ h => exact Or.inl ⟨h, rfl, rfl⟩
  | refused _ _ _ h => exact Or.inr ⟨h, rfl⟩

theorem Contracts.distinct {deeds : List Deed} {s : Set Record} (h : Contracts deeds s) : Distinct s := by
  induction h with
  | nil => exact fun x hx => absurd hx (Set.notMem_empty x)
  | snoc deeds d s s' h hstep ih => exact hstep.distinct ih

theorem Contracts.mem_iff {deeds : List Deed} {s : Set Record} (h : Contracts deeds s) (x : Record) :
    x ∈ s ↔ Standing deeds x := by
  induction h with
  | nil => exact iff_of_false (Set.notMem_empty x) (not_standing_nil x)
  | snoc deeds d s s' h hstep ih => rw [hstep.mem_iff, standing_concat, ih]

/-! ### The repository keeps the contract -/

def Table.contents (t : Table) : Set Record := {x | x ∈ t.records}

namespace Table

theorem contents_insert (t : Table) (x : Record) : (t.insert x).contents = put t.contents x :=
  Set.ext fun _ => mem_insert

theorem contents_remove (t : Table) (id : TokenId) : (t.remove id).contents = without t.contents id :=
  Set.ext fun _ => mem_remove

theorem contents_removeOwnedBy (t : Table) (user : UserId) :
    (t.removeOwnedBy user).contents = {y | y ∈ t.contents ∧ y.user ≠ user} := by
  ext x
  simp [contents]

theorem live_contents_iff {t : Table} {id : TokenId} {now : Instant} :
    Live t.contents id now ↔ ∃ x, t.get id = some x ∧ ¬ x.expires < now := by
  constructor
  · rintro ⟨x, hx, hid, hlive⟩
    exact ⟨x, get_eq_some_iff.mpr ⟨hx, hid⟩, Int.not_lt.mpr hlive⟩
  · rintro ⟨x, hget, hlive⟩
    obtain ⟨hx, hid⟩ := get_eq_some_iff.mp hget
    exact ⟨x, hx, hid, Int.not_lt.mp hlive⟩

end Table

/-- A call that nothing disturbs returns what the contract allows, and does to the records what it asks; a call that
only looks leaves the table itself as it was. -/
theorem RepositoryCall.keeps {c : RepositoryCall} {o : FaultFree} {t after : Table} {events : List Event}
    {r : Except AuthError c.Reply} (hrun : c.action.Runs t events r after) (hfits : ∀ ev ∈ events, ev.Fits o) :
    ∃ reply, r = .ok reply ∧ Contract t.contents ⟨c, reply⟩ after.contents ∧
      (Deed.Looks ⟨c, reply⟩ → after = t) := by
  -- no part that is entered fails, so each call ends as if it could not fail
  have hentered : ∀ {m : Method} {text : String}, ⟨.enter m, .error text⟩ ∉ events := fun hev => by
    have hok : Except.error _ = Except.ok () := hfits _ hev
    cases hok
  cases c with
  | create x =>
    obtain ⟨-, rfl, rfl⟩ | ⟨text, rfl, -⟩ := runs_create hrun
    · refine ⟨x, rfl, ?_, False.elim⟩
      rw [Table.contents_insert]
      exact .create x
    · exact absurd List.mem_cons_self hentered
  | getById id =>
    obtain ⟨rfl, ⟨-, rfl⟩ | ⟨text, rfl, -⟩⟩ := runs_getById hrun
    · exact ⟨after.get id, rfl, .getById id _ fun x => Table.get_eq_some_iff, fun _ => rfl⟩
    · exact absurd List.mem_cons_self hentered
  | getByUser user =>
    obtain ⟨rfl, ⟨found, hfound, -, rfl⟩ | ⟨text, rfl, -⟩⟩ := runs_getByUser hrun
    · have hperm : (Repository.byExpiry found).Perm (after.ownedBy user) := (List.mergeSort_perm found _).trans hfound
      have hnodup : (after.ownedBy user).Nodup := List.Nodup.of_map _ (Table.nodup_ownedBy user)
      have hmem : ∀ x, x ∈ Repository.byExpiry found ↔ x ∈ after.contents ∧ x.user = user := by
        intro x
        rw [hperm.mem_iff, Table.mem_ownedBy]
        rfl
      exact ⟨_, rfl, .getByUser user _ (hperm.nodup_iff.mpr hnodup) hmem (pairwise_byExpiry found), fun _ => rfl⟩
    · exact absurd List.mem_cons_self hentered
  | deleteById id =>
    obtain ⟨-, rfl, rfl⟩ | ⟨text, rfl, -⟩ := runs_deleteById hrun
    · refine ⟨(), rfl, ?_, False.elim⟩
      rw [Table.contents_remove]
      exact .deleteById id
    · exact absurd List.mem_cons_self hentered
  | deleteByUser user =>
    obtain ⟨-, rfl, rfl⟩ | ⟨text, rfl, -⟩ := runs_deleteByUser hrun
    · refine ⟨(), rfl, ?_, False.elim⟩
      rw [Table.contents_removeOwnedBy]
      exact .deleteByUser user
    · exact absurd List.mem_cons_self hentered
  | rotate id now new =>
    cases runs_rotate hrun with
    | failed text => exact absurd List.mem_cons_self hentered
    | refused time hexp =>
      -- the clock stands still between the asking and the rotation
      obtain rfl : time = now := hfits ⟨.rotationTime id now, time⟩ (by simp)
      refine ⟨none, rfl, .refused id time new ?_, fun _ => rfl⟩
      rw [Table.live_contents_iff]
      rintro ⟨x, hget, hlive⟩
      exact hlive (hexp x hget)
    | replaced time x hget hlive =>
      obtain rfl : time = now := hfits ⟨.rotationTime id now, time⟩ (by simp)
      refine ⟨some new, rfl, ?_, False.elim⟩
      rw [Table.contents_insert, Table.contents_remove]
      exact .rotated id time new (Table.live_contents_iff.mpr ⟨x, hget, hlive⟩)

theorem Usage.contracts {deeds : List Deed} {t : Table} (h : Usage deeds t) : Contracts deeds t.contents := by
  induction h with
  | nil =>
    have hempty : Table.empty.contents = ∅ := Set.ext fun x => by simp [Table.contents]
    rw [hempty]
    exact .nil
  | snoc deeds o c reply events t after h hrun hfits ih =>
    obtain ⟨reply', hreply, hstep, -⟩ := RepositoryCall.keeps hrun hfits
    obtain rfl := Except.ok.inj hreply
    exact .snoc deeds _ _ _ ih hstep

theorem exists_usage (calls : List RepositoryCall) : ∃ deeds t, Usage deeds t ∧ deeds.map Deed.call = calls := by
  induction calls using List.reverseRecOn with
  | nil => exact ⟨[], .empty, .nil, rfl⟩
  | append_singleton calls c ih =>
    obtain ⟨deeds, t, h, hcalls⟩ := ih
    obtain ⟨events, r, after, hrun, hfits⟩ := Script.exists_fitting_run c.action.run .sample t
    obtain ⟨reply, rfl, -⟩ := RepositoryCall.keeps hrun hfits
    exact ⟨_, after, .snoc deeds .sample c reply events t after h hrun hfits, by simp [hcalls]⟩

/-! ### The contract in full -/

/-- How a repository stands to the deeds that led to it. -/
structure Faithful (deeds : List Deed) (t : Table) : Prop where
  /-- The deeds have kept to the contract, and lead to the same records there. -/
  contracts : Contracts deeds t.contents
  /-- A record is found under its own identifier and under no other. -/
  get_iff : ∀ id x, t.get id = some x ↔ x ∈ t.contents ∧ x.id = id
  distinct : Distinct t.contents
  mem_iff : ∀ x, x ∈ t.contents ↔ Standing deeds x
  /-- Whatever is called next keeps to the contract too. -/
  goes_on : ∀ (o : FaultFree) (c : RepositoryCall), c.action.Surely o t fun _ r after => ∃ reply, r = .ok reply ∧
    Contract t.contents ⟨c, reply⟩ after.contents ∧ Usage (deeds ++ [⟨c, reply⟩]) after
  getById : ∀ (o : FaultFree) (id : TokenId), (Repository.getById id).Surely o t fun _ r after => after = t ∧
    ∃ found, r = .ok found ∧ ∀ x, found = some x ↔ Standing deeds x ∧ x.id = id
  getByUser : ∀ (o : FaultFree) (user : UserId), (Repository.getByUser user).Surely o t fun _ r after => after = t ∧
    ∃ found, r = .ok found ∧ found.Nodup ∧ (∀ x, x ∈ found ↔ Standing deeds x ∧ x.user = user) ∧
      found.Pairwise fun x y => x.expires ≤ y.expires
  rotate : ∀ (o : FaultFree) (id : TokenId) (now : Instant) (new : Record),
    (Repository.rotate id now new).Surely o t fun _ r after =>
      (Live t.contents id now ∧ r = .ok (some new) ∧ after.contents = put (without t.contents id) new) ∨
        (¬ Live t.contents id now ∧ r = .ok none ∧ after = t)

theorem Usage.faithful {deeds : List Deed} {t : Table} (h : Usage deeds t) : Faithful deeds t where
  contracts := h.contracts
  get_iff _ _ := Table.get_eq_some_iff
  distinct := h.contracts.distinct
  mem_iff := h.contracts.mem_iff
  goes_on o c := Action.surely fun events r after hrun hfits => by
    obtain ⟨reply, rfl, hstep, -⟩ := RepositoryCall.keeps hrun hfits
    exact ⟨reply, rfl, hstep, .snoc deeds o c reply events t after h hrun hfits⟩
  getById o id := Action.surely fun events r after hrun hfits => by
    obtain ⟨found, rfl, hstep, hlooks⟩ := RepositoryCall.keeps (c := .getById id) hrun hfits
    refine ⟨hlooks trivial, found, rfl, fun x => ?_⟩
    rw [hstep.of_getById, h.contracts.mem_iff]
  getByUser o user := Action.surely fun events r after hrun hfits => by
    obtain ⟨found, rfl, hstep, hlooks⟩ := RepositoryCall.keeps (c := .getByUser user) hrun hfits
    obtain ⟨hnodup, hmem, hsorted⟩ := hstep.of_getByUser
    refine ⟨hlooks trivial, found, rfl, hnodup, fun x => ?_, hsorted⟩
    rw [hmem, h.contracts.mem_iff]
  rotate o id now new := Action.surely fun events r after hrun hfits => by
    obtain ⟨reply, rfl, hstep, hlooks⟩ := RepositoryCall.keeps (c := .rotate id now new) hrun hfits
    obtain ⟨hlive, rfl, hafter⟩ | ⟨hdead, rfl⟩ := hstep.of_rotate
    · exact Or.inl ⟨hlive, rfl, hafter⟩
    · exact Or.inr ⟨hdead, rfl, hlooks trivial⟩

/-- Whatever sequence of calls is made on the repository, and whatever records are stored by them, it keeps to the
contract: in what it returns, and in the records that it holds. -/
theorem repository_contract :
    (∀ calls : List RepositoryCall, ∃ deeds t, Usage deeds t ∧ deeds.map Deed.call = calls) ∧
      ∀ deeds t, Usage deeds t → Faithful deeds t :=
  ⟨exists_usage, fun _ _ h => h.faithful⟩

theorem repository_contract_of_sample : ∃ deeds t, Usage deeds t ∧ Faithful deeds t ∧
    deeds.map Deed.call = [.create .sample, .rotate default ⟨0⟩ { Record.sample with expires := ⟨5⟩ }] ∧
    ∀ x, x ∈ t.contents ↔ x = { Record.sample with expires := ⟨5⟩ } := by
  obtain ⟨-, hfaithful⟩ := repository_contract
  obtain ⟨⟨events, r, t, hrun, hfits⟩, hcreates⟩ :=
    (hfaithful [] .empty .nil).goes_on .sample (.create .sample)
  obtain ⟨stored, -, hcreate, hused⟩ := hcreates events r t hrun hfits
  obtain ⟨⟨events', r', after, hrun', hfits'⟩, hrotates⟩ :=
    (hfaithful _ t hused).goes_on .sample (.rotate default ⟨0⟩ { Record.sample with expires := ⟨5⟩ })
  obtain ⟨reply, -, hrotate, hused'⟩ := hrotates events' r' after hrun' hfits'
  have hmem : ∀ x, x ∈ t.contents ↔ x = Record.sample := by
    intro x
    rw [hcreate.mem_iff]
    simp [Deed.stored?, Table.contents, eq_comm]
  have hlive : Live t.contents default ⟨0⟩ := ⟨Record.sample, (hmem _).mpr rfl, rfl, by decide⟩
  obtain ⟨-, rfl, hafter⟩ | ⟨hdead, -⟩ := hrotate.of_rotate
  · refine ⟨_, after, hused', hfaithful _ _ hused', rfl, fun x => ?_⟩
    rw [hafter]
    constructor
    · rintro (rfl | ⟨⟨hx, hid⟩, -⟩)
      · rfl
      · rw [(hmem x).mp hx] at hid
        exact absurd rfl hid
    · rintro rfl
      exact Or.inl rfl
  · exact absurd hlive hdead

end SessionWarden
