import Mathlib.Data.List.Perm.Lattice
import SessionWarden.Proofs.Session.Faultless
import SessionWarden.Proofs.Session.FreshIdentifiers
/-!
# Who gives way to a new session

An opening that succeeds has removed as many records of its user as are too many when the new one is counted, and they
are the ones that expire first. It does so on whatever table it finds: a user who had more records than fit has as many
as fit afterwards, and no session that can still be used is given up unless so many others can.
-/

namespace SessionWarden

variable {e : Engine} {t mid after : Table} {events : List Event} {user : UserId}

/-! ### What is removed and what stays -/

namespace Table

def lost (t after : Table) (user : UserId) : List Record :=
  (t.ownedBy user).filter fun x => decide (x ∉ after.records)

def kept (t after : Table) (user : UserId) : List Record :=
  (t.ownedBy user).filter fun x => decide (x ∈ after.records)

theorem kept_append_lost_perm (t after : Table) (user : UserId) :
    (t.kept after user ++ t.lost after user).Perm (t.ownedBy user) := by
  have hlost : t.lost after user = (t.ownedBy user).filter fun x => !decide (x ∈ after.records) := by
    simp only [lost, decide_not]
  rw [hlost]
  exact List.filter_append_perm _ _

/-- What stays when some records are removed and one is stored under an identifier that is not there. -/
theorem mem_insert_removeAll {ids : List TokenId} {new x : Record} (hfresh : ∀ x ∈ t.records, x.id ≠ new.id)
    (hx : x ∈ t.records) : x ∈ ((t.removeAll ids).insert new).records ↔ x.id ∉ ids := by
  have hne : x ≠ new := fun h => hfresh x hx (congrArg Record.id h)
  rw [mem_insert, records_removeAll, List.mem_filter, decide_eq_true_eq]
  exact ⟨fun h => (h.resolve_left hne).1.2, fun h => Or.inr ⟨⟨hx, h⟩, hfresh x hx⟩⟩

theorem fresh_removeAll {id : TokenId} (hfresh : ∀ x ∈ t.records, x.id ≠ id) (ids : List TokenId) :
    ∀ x ∈ (t.removeAll ids).records, x.id ≠ id := fun x hx => hfresh x ((records_removeAll_sublist ids).subset hx)

end Table

theorem Engine.evicted_eq_take (e : Engine) (found : List Record) :
    e.evicted found = (Repository.byExpiry found).take (found.length + 1 - e.params.refreshCap) := by
  rw [evicted]
  split
  · rw [show found.length + 1 - e.params.refreshCap = 0 by omega, List.take_zero]
  · rfl

section Opening

variable {found : List Record} {new : Record} (hfound : found.Perm (t.ownedBy user))
  (hfresh : ∀ x ∈ t.records, x.id ≠ new.id)
  (hafter : after = (t.removeAll ((e.evicted found).map Record.id)).insert new)

include hfresh hafter

theorem ownedBy_opened (huser : new.user = user) : after.ownedBy user = t.kept after user ++ [new] := by
  subst hafter
  rw [Table.ownedBy_insert (Table.fresh_removeAll hfresh _), if_pos huser.symm, Table.ownedBy_removeAll]
  refine congrArg (· ++ [new]) (List.filter_congr fun x hx => decide_eq_decide.mpr ?_)
  exact (Table.mem_insert_removeAll hfresh (Table.mem_ownedBy.mp hx).1).symm

include hfound

/-- The records that an opening removes are the first of those that it lists, and those that stay are the rest. -/
theorem lost_and_kept_perm {surplus : Nat} (hsurplus : surplus = (t.ownedBy user).length + 1 - e.params.refreshCap) :
    (t.lost after user).Perm ((Repository.byExpiry found).take surplus) ∧
      (t.kept after user).Perm ((Repository.byExpiry found).drop surplus) := by
  have hperm : (Repository.byExpiry found).Perm (t.ownedBy user) := (List.mergeSort_perm found _).trans hfound
  have hnodup : ((Repository.byExpiry found).map Record.id).Nodup :=
    (hperm.map Record.id).nodup_iff.mpr (Table.nodup_ownedBy user)
  have hevicted : e.evicted found = (Repository.byExpiry found).take surplus := by
    rw [Engine.evicted_eq_take, hfound.length_eq, hsurplus]
  have hkept : (t.kept after user).Perm ((Repository.byExpiry found).drop surplus) := by
    have hfilter : t.kept after user =
        (t.ownedBy user).filter fun x => decide (x.id ∉ ((Repository.byExpiry found).take surplus).map Record.id) := by
      refine List.filter_congr fun x hx => decide_eq_decide.mpr ?_
      rw [← hevicted, hafter]
      exact Table.mem_insert_removeAll hfresh (Table.mem_ownedBy.mp hx).1
    rw [hfilter, ← Table.filter_not_mem_take hnodup surplus]
    exact hperm.symm.filter _
  refine ⟨?_, hkept⟩
  -- both lists make up the records of the user together with what stays
  have hall : (t.kept after user ++ t.lost after user).Perm
      ((Repository.byExpiry found).take surplus ++ (Repository.byExpiry found).drop surplus) := by
    rw [List.take_append_drop]
    exact (t.kept_append_lost_perm after user).trans hperm.symm
  exact (List.perm_append_left_iff _).mp (hall.trans (List.perm_append_comm.trans (hkept.symm.append_right _)))

theorem ownedBy_opened_of_ne (huser : new.user = user) {v : UserId} (hne : v ≠ user) :
    after.ownedBy v = t.ownedBy v := by
  subst hafter
  rw [Table.ownedBy_insert (Table.fresh_removeAll hfresh _), if_neg (huser ▸ hne)]
  exact Table.ownedBy_removeAll_of_ne hne fun x hx => hfound.mem_iff.mp (Engine.mem_of_mem_evicted hx)

end Opening

/-! ### What is said of it -/

theorem not_mem_deletions {l : List Record} {r : Except AuthError Unit}
    (h : Action.Runs (l.forM fun x => Repository.deleteById x.id) t events r after) (n : Note) :
    (⟨.note n, ()⟩ : Event) ∉ events := by
  induction l generalizing t events with
  | nil =>
    obtain ⟨rfl, -, -⟩ := h
    exact List.not_mem_nil
  | cons x xs ih =>
    have hcons : Action.Runs (do Repository.deleteById x.id; xs.forM fun x => Repository.deleteById x.id)
        t events r after := h
    rcases Action.runs_bind.mp hcons with ⟨first, rest, u, mid, hx, hxs, rfl⟩ | ⟨err, hx, rfl⟩
    · rcases runs_deleteById hx with ⟨rfl, -, -⟩ | ⟨text, -, hr, -⟩
      · simpa using ih hxs
      · cases hr
    · rcases runs_deleteById hx with ⟨-, hr, -⟩ | ⟨text, rfl, -, -⟩
      · cases hr
      · simp

/-- Room is said to have been made only where there was none, and for as many as were too many. -/
theorem Evicting.surplus_of_note {r : Except AuthError Unit} (h : Evicting e user t events r after) {v : UserId}
    {k : Nat} (hnote : (⟨.note (.capacityReached v k), ()⟩ : Event) ∈ events) :
    v = user ∧ e.params.refreshCap ≤ (t.ownedBy user).length ∧
      k = Engine.excess e.params.refreshCap (t.ownedBy user).length := by
  cases h with
  | unlisted text => simp at hnote
  | roomy found hfound hroom => simp at hnote
  | stopped found deletions err mid hfound hfull hdeletions =>
    exact absurd (by simpa using hnote) (not_mem_deletions hdeletions (.capacityReached v k))
  | done found deletions mid hfound hfull hdeletions =>
    obtain ⟨rfl, rfl⟩ : v = user ∧ k = Engine.excess e.params.refreshCap found.length := by
      simpa [not_mem_deletions hdeletions] using hnote
    rw [hfound.length_eq] at hfull ⊢
    exact ⟨rfl, hfull, rfl⟩

/-- An opening that succeeds has made room and stored its record, and says nothing else about room. -/
theorem runs_create_granted {signal : Bytes} {persistent : Bool} {p : TokenPair}
    (h : (e.create user signal persistent).Runs t events (.ok p) after) :
    ∃ evict rest mid, events = evict ++ rest ∧ (e.evictForCapacity user).Runs t evict (.ok ()) mid ∧
      (∀ v k, (⟨.note (.capacityReached v k), ()⟩ : Event) ∉ rest) ∧ p.refresh.user = user ∧
      after = mid.insert p.refresh := by
  obtain ⟨err, -, hr⟩ | ⟨evict, rest, mid, hevents, hevict, hrest⟩ := runs_create_parts h
  · cases hr
  · cases hrest with
    | granted make issue new access hmade hissued =>
      refine ⟨evict, _, mid, hevents, hevict, fun v k hk => ?_, (hmade.makes fun _ h => h).user_eq, rfl⟩
      cases hmade
      cases hissued
      simp at hk

/-! ### Openings that succeed -/

/-- How records of a user give way to a new one: as many as are too many, those that expire first; the rest stays, and
so do the records of all other users. -/
structure GivesWay (e : Engine) (user : UserId) (t : Table) (events : List Event) (new : Record) (after : Table) :
    Prop where
  length_lost : (t.lost after user).length = (t.ownedBy user).length + 1 - e.params.refreshCap
  surplus : ∀ v k, (⟨.note (.capacityReached v k), ()⟩ : Event) ∈ events → v = user ∧
    k = (t.lost after user).length ∧ k ≤ (t.ownedBy user).length ∧
    k + e.params.refreshCap = (t.ownedBy user).length + 1
  expires_le : ∀ x ∈ t.lost after user, ∀ y ∈ t.kept after user, x.expires ≤ y.expires
  owned : after.ownedBy user = t.kept after user ++ [new]
  length_owned : (after.ownedBy user).length = min ((t.ownedBy user).length + 1) e.params.refreshCap
  others : ∀ v, v ≠ user → after.ownedBy v = t.ownedBy v
  live : ∀ now, ∀ x ∈ t.lost after user, ¬ x.expires < now →
    e.params.refreshCap ≤ (t.ownedBy user).countP fun y => !y.isExpiredAt now

/-- Where those that went expire no later than those that stayed, all that stayed can still be used if one that went
could. -/
theorem countP_live_ge {now : Instant} (hle : ∀ x ∈ t.lost after user, ∀ y ∈ t.kept after user, x.expires ≤ y.expires)
    {x : Record} (hx : x ∈ t.lost after user) (hlive : ¬ x.expires < now) :
    (t.kept after user).length + 1 ≤ (t.ownedBy user).countP fun y => !y.isExpiredAt now := by
  have hkept : (t.kept after user).countP (fun y => !y.isExpiredAt now) = (t.kept after user).length := by
    rw [List.countP_eq_length]
    intro y hy
    have hxy : x.expires.nanos ≤ y.expires.nanos := hle x hx y hy
    have hxnow : ¬ x.expires.nanos < now.nanos := hlive
    have hynow : ¬ y.expires < now := show ¬ y.expires.nanos < now.nanos by omega
    simp [Record.isExpiredAt, hynow]
  have hlost : 0 < (t.lost after user).countP fun y => !y.isExpiredAt now :=
    List.countP_pos_iff.mpr ⟨x, hx, by simp [Record.isExpiredAt, hlive]⟩
  rw [← (t.kept_append_lost_perm after user).countP_eq, List.countP_append, hkept]
  omega

/-- An opening that succeeds under an identifier of its own makes room on whatever table it finds. -/
theorem gives_way {signal : Bytes} {persistent : Bool} {p : TokenPair} (hcap : 0 < e.params.refreshCap)
    (h : (e.create user signal persistent).Runs t events (.ok p) after)
    (hfresh : ∀ x ∈ t.records, x.id ≠ p.refresh.id) : GivesWay e user t events p.refresh after := by
  obtain ⟨evict, rest, mid, rfl, hevict, hquiet, huser, hafter⟩ := runs_create_granted h
  obtain ⟨found, hfound, rfl⟩ : ∃ found, found.Perm (t.ownedBy user) ∧
      mid = t.removeAll ((e.evicted found).map Record.id) := by
    cases runs_evictForCapacity hevict with
    | room found hfound => exact ⟨found, hfound, rfl⟩
  obtain ⟨hlost, hkept⟩ := lost_and_kept_perm hfound hfresh hafter rfl
  have hlength : (Repository.byExpiry found).length = (t.ownedBy user).length := by
    rw [Repository.length_byExpiry, hfound.length_eq]
  have hlengthLost := hlost.length_eq
  have hlengthKept := hkept.length_eq
  rw [List.length_take, hlength] at hlengthLost
  rw [List.length_drop, hlength] at hlengthKept
  have howned := ownedBy_opened hfresh hafter huser
  have hle : ∀ x ∈ t.lost after user, ∀ y ∈ t.kept after user, x.expires ≤ y.expires := by
    intro x hx y hy
    have hsorted := pairwise_byExpiry found
    rw [← List.take_append_drop ((t.ownedBy user).length + 1 - e.params.refreshCap) (Repository.byExpiry found),
      List.pairwise_append] at hsorted
    exact hsorted.2.2 x (hlost.mem_iff.mp hx) y (hkept.mem_iff.mp hy)
  constructor
  case length_lost => omega
  case surplus =>
    intro v k hk
    have hk' := (List.mem_append.mp hk).resolve_right (hquiet v k)
    obtain ⟨rfl, hfull, rfl⟩ := (runs_evicting hevict).surplus_of_note hk'
    refine ⟨rfl, ?_⟩
    simp only [Engine.excess]
    omega
  case expires_le => exact hle
  case owned => exact howned
  case length_owned =>
    rw [howned, List.length_append, List.length_singleton]
    omega
  case others => exact fun v hne => ownedBy_opened_of_ne hfound hfresh hafter huser hne
  case live =>
    intro now x hx hlive
    have hcount := countP_live_ge hle hx hlive
    have hpos := List.length_pos_of_mem hx
    omega

def Table.crowded : Table :=
  ((Table.empty.insert { Record.sample with id := ⟨.ofNat 1⟩, expires := ⟨0⟩ }).insert
    { Record.sample with id := ⟨.ofNat 2⟩, expires := ⟨7⟩ }).insert
    { Record.sample with id := ⟨.ofNat 3⟩, expires := ⟨0⟩ }

theorem Table.crowded_fresh : ∀ x ∈ crowded.records, x.id ≠ default := by
  intro x hx hid
  have hids : crowded.records.map Record.id = [⟨.ofNat 1⟩, ⟨.ofNat 2⟩, ⟨.ofNat 3⟩] := by rfl
  have hmem : (default : TokenId) ∈ crowded.records.map Record.id := hid ▸ List.mem_map_of_mem hx
  rw [hids] at hmem
  exact absurd hmem (by decide)

theorem gives_way_of_sample : ∃ events p after, 0 < Engine.sample.params.refreshCap ∧
    (Engine.sample.create default [] true).Runs .crowded events (.ok p) after ∧
    (∀ x ∈ Table.crowded.records, x.id ≠ p.refresh.id) ∧
    GivesWay Engine.sample default .crowded events p.refresh after ∧
    (Table.crowded.lost after default).length = 2 ∧ (after.ownedBy default).length = 2 := by
  obtain ⟨events, r, after, hruns, hfits⟩ :=
    Script.exists_fitting_run (Engine.sample.create default [] true).run FaultFree.sample .crowded
  obtain ⟨-, -, -, rfl, -⟩ := (runs_open hruns).of_fits hfits (by decide) (by decide)
  have hthree : (Table.crowded.ownedBy default).length = 3 := by rfl
  have hgives := gives_way (e := Engine.sample) (t := .crowded) (by decide) hruns Table.crowded_fresh
  refine ⟨events, _, after, by decide, hruns, Table.crowded_fresh, hgives, ?_, ?_⟩
  · rw [hgives.length_lost, hthree]
    rfl
  · rw [hgives.length_owned, hthree]
    rfl

end SessionWarden
