import SessionWarden.Proofs.Session.Faultless
import SessionWarden.Proofs.Session.FreshIdentifiers
import SessionWarden.Proofs.Session.Owned
/-!
# The engine follows the ledger

Calls that run one after the other without faults, each later than the last, return what the ledger says and leave
the table that the ledger lists. Eviction picks by expiry from an unordered scan; it drops the front of the list
because the records of a user expire in the order of their issue, which every operation preserves.
-/

namespace SessionWarden

variable {e : Engine} {t t' : Table} {L L' : Ledger} {times : List Instant} {drawn : List TokenId}

/-! ### The invariant -/

/-- The table lists for each user what the ledger does, in the order of issue, which is the order of expiry: the
expiry of a record follows from the time of a past call. No user has more sessions than fit, and identifiers were
drawn before. -/
structure Follows (e : Engine) (times : List Instant) (drawn : List TokenId) (t : Table) (L : Ledger) : Prop where
  list_eq : ∀ user, (t.ownedBy user).map Record.entry = L.list user
  sorted : ∀ user, (t.ownedBy user).Pairwise fun x y => x.expires < y.expires
  issued : ∀ x ∈ t.records, ∃ time ∈ times, x.expires = time.after e.params.refreshAge
  listed : ∀ x ∈ t.records, x.user ∈ L.users
  capped : ∀ user, (t.ownedBy user).length ≤ e.params.refreshCap
  minted : ∀ x ∈ t.records, x.id ∈ drawn

theorem follows_empty (e : Engine) : Follows e [] [] .empty .empty where
  list_eq := fun _ => rfl
  sorted := fun _ => List.Pairwise.nil
  issued := by
    intro x hx
    cases hx
  listed := by
    intro x hx
    cases hx
  capped := fun _ => Nat.zero_le _
  minted := by
    intro x hx
    cases hx

namespace Follows

theorem mono (h : Follows e times drawn t L) {times' : List Instant} {drawn' : List TokenId}
    (htimes : ∀ time ∈ times, time ∈ times') (hdrawn : ∀ id ∈ drawn, id ∈ drawn') :
    Follows e times' drawn' t L where
  list_eq := h.list_eq
  sorted := h.sorted
  issued := by
    intro x hx
    obtain ⟨time, htime, hexp⟩ := h.issued x hx
    exact ⟨time, htimes time htime, hexp⟩
  listed := h.listed
  capped := h.capped
  minted := fun x hx => hdrawn x.id (h.minted x hx)

theorem of_sublist (h : Follows e times drawn t L)
    (hsub : ∀ user, (t'.ownedBy user).Sublist (t.ownedBy user))
    (hlist : ∀ user, (t'.ownedBy user).map Record.entry = L'.list user) (husers : ∀ u ∈ L.users, u ∈ L'.users) :
    Follows e times drawn t' L' := by
  have hmem : ∀ x ∈ t'.records, x ∈ t.records := by
    intro x hx
    have hown : x ∈ t'.ownedBy x.user := Table.mem_ownedBy.mpr ⟨hx, rfl⟩
    exact (Table.mem_ownedBy.mp ((hsub x.user).subset hown)).1
  exact ⟨hlist, fun user => (h.sorted user).sublist (hsub user), fun x hx => h.issued x (hmem x hx),
    fun x hx => husers _ (h.listed x (hmem x hx)), fun user => Nat.le_trans (hsub user).length_le (h.capped user),
    fun x hx => h.minted x (hmem x hx)⟩

/-- A new record that is issued later than all others goes to the back of its user's list. -/
theorem insert (h : Follows e times drawn t L) {o : FaultFree} {user : UserId} (signal : Bytes) (persistent : Bool)
    (hroom : (t.ownedBy user).length < e.params.refreshCap) (hfresh : o.id ∉ drawn)
    (hlater : ∀ time ∈ times, time < o.time) :
    Follows e (times ++ [o.time]) (drawn ++ [o.id])
      (t.insert ((e.entryOn o user signal persistent).record user))
      (L.put user (L.list user ++ [e.entryOn o user signal persistent])) := by
  have hids : ∀ x ∈ t.records, x.id ≠ ((e.entryOn o user signal persistent).record user).id := by
    intro x hx hid
    have hdrawn : x.id = o.id := hid
    exact hfresh (hdrawn ▸ h.minted x hx)
  have hmem : ∀ x ∈ (t.insert ((e.entryOn o user signal persistent).record user)).records,
      x = (e.entryOn o user signal persistent).record user ∨ x ∈ t.records := by
    intro x hx
    rcases Table.mem_insert.mp hx with rfl | ⟨hold, -⟩
    · exact Or.inl rfl
    · exact Or.inr hold
  constructor
  · intro v
    rw [Table.ownedBy_insert hids, ← h.list_eq user]
    by_cases hv : v = user
    · subst hv
      simp [Ledger.put]
    · simp [Ledger.put, hv, h.list_eq v]
  -- later issue means later expiry, since every expiry is a past time and one fixed age
  · intro v
    rw [Table.ownedBy_insert hids]
    split
    · rw [List.pairwise_append]
      refine ⟨h.sorted v, List.pairwise_singleton _ _, ?_⟩
      intro x hx y hy
      rw [List.mem_singleton.mp hy]
      obtain ⟨time, htime, hexp⟩ := h.issued x (Table.mem_ownedBy.mp hx).1
      have hlt : time.nanos < o.time.nanos := hlater time htime
      show x.expires.nanos < o.time.nanos + e.params.refreshAge
      rw [hexp]
      show time.nanos + e.params.refreshAge < o.time.nanos + e.params.refreshAge
      omega
    · exact h.sorted v
  · intro x hx
    rcases hmem x hx with rfl | hold
    · exact ⟨o.time, List.mem_append_right _ (List.mem_singleton_self _), rfl⟩
    · obtain ⟨time, htime, hexp⟩ := h.issued x hold
      exact ⟨time, List.mem_append_left _ htime, hexp⟩
  · intro x hx
    rcases hmem x hx with rfl | hold
    · exact List.mem_cons_self
    · exact List.mem_cons_of_mem _ (h.listed x hold)
  · intro v
    rw [Table.ownedBy_insert hids]
    split
    · rename_i hv
      obtain rfl : v = user := hv
      rw [List.length_append, List.length_singleton]
      exact hroom
    · exact h.capped v
  · intro x hx
    rcases hmem x hx with rfl | hold
    · exact List.mem_append_right _ (List.mem_singleton_self _)
    · exact List.mem_append_left _ (h.minted x hold)

theorem of_put_put {user : UserId} {kept entries : List Entry}
    (h : Follows e times drawn t ((L.put user kept).put user entries)) :
    Follows e times drawn t (L.put user entries) := by
  refine h.of_sublist (fun _ => List.Sublist.refl _) ?_ fun u hu => ?_
  · intro v
    rw [h.list_eq v]
    by_cases hv : v = user
    · simp only [Ledger.put, hv, ite_true]
    · simp only [Ledger.put, hv, ite_false]
  · rcases List.mem_cons.mp hu with rfl | hu
    · exact List.mem_cons_self
    · exact hu

/-! ### Looking up -/

theorem find?_eq (h : Follows e times drawn t L) (id : TokenId) :
    L.find? id = (t.get id).map fun x => (x.user, x.entry) := by
  have hown : ∀ user x, x ∈ L.list user → ∃ y ∈ t.records, y.user = user ∧ y.entry = x := by
    intro user x hx
    rw [← h.list_eq user] at hx
    obtain ⟨y, hy, rfl⟩ := List.mem_map.mp hx
    obtain ⟨hmem, huser⟩ := Table.mem_ownedBy.mp hy
    exact ⟨y, hmem, huser, rfl⟩
  have hfound : ∀ user x, L.find? id = some (user, x) → ∃ y, t.get id = some y ∧ y.user = user ∧ y.entry = x := by
    intro user x hx
    obtain ⟨v, -, hv⟩ := List.exists_of_findSome?_eq_some hx
    obtain ⟨z, hz, hpair⟩ := Option.map_eq_some_iff.mp hv
    obtain ⟨rfl, rfl⟩ := Prod.mk.inj hpair
    obtain ⟨y, hy, huser, hentry⟩ := hown v z (List.mem_of_find?_eq_some hz)
    have hid := List.find?_some hz
    rw [beq_iff_eq] at hid
    exact ⟨y, Table.get_eq_some_iff.mpr ⟨hy, (congrArg Entry.id hentry).trans hid⟩, huser, hentry⟩
  cases hget : t.get id with
  | none =>
    cases hL : L.find? id with
    | none => rfl
    | some p =>
      obtain ⟨y, hy, -⟩ := hfound p.1 p.2 hL
      rw [hget] at hy
      cases hy
  | some y =>
    obtain ⟨hmem, hid⟩ := Table.get_eq_some_iff.mp hget
    cases hL : L.find? id with
    | some p =>
      obtain ⟨y', hy', huser, hentry⟩ := hfound p.1 p.2 hL
      rw [hget] at hy'
      obtain rfl := Option.some.inj hy'
      rw [Option.map_some, huser, hentry]
    | none =>
      -- the entry of a record in the table is on its user's list, and the user is known
      have hnone := List.findSome?_eq_none_iff.mp hL y.user (h.listed y hmem)
      rw [Option.map_eq_none_iff, List.find?_eq_none] at hnone
      have hentry : y.entry ∈ L.list y.user := by
        rw [← h.list_eq y.user]
        exact List.mem_map_of_mem (Table.mem_ownedBy.mpr ⟨hmem, rfl⟩)
      exact absurd (beq_iff_eq.mpr hid) (hnone y.entry hentry)

theorem claim_eq (h : Follows e times drawn t L) (time : Instant) (id : TokenId) (signal : Bytes) :
    L.claim time id signal = (t.claim time id signal).map fun x => (x.user, x.entry) := by
  simp only [Ledger.claim, Table.claim, h.find?_eq id]
  cases t.get id with
  | none => rfl
  | some x =>
    simp only [Option.map_some]
    show (if fingerprint x.user signal ≠ x.fingerprint then _ else if x.expires < time then _ else _) = _
    split
    · rfl
    · split
      · rfl
      · rfl

/-! ### Operations -/

/-- Those that give way to a new session are none, or the front of a full list. -/
theorem evicted_eq (h : Follows e times drawn t L) {user : UserId} {found : List Record}
    (hfound : found.Perm (t.ownedBy user)) :
    e.evicted found =
      (t.ownedBy user).take (if (t.ownedBy user).length < e.params.refreshCap then 0 else 1) := by
  have hcapped := h.capped user
  simp only [Engine.evicted, hfound.length_eq, byExpiry_eq (h.sorted user) hfound]
  split
  · rfl
  · have hexcess : Engine.excess e.params.refreshCap (t.ownedBy user).length = 1 := by
      simp only [Engine.excess]
      omega
    rw [hexcess]

theorem create (h : Follows e times drawn t L) {o : FaultFree} {user : UserId} {signal : Bytes}
    {persistent : Bool} {found : List Record} (hcap : 0 < e.params.refreshCap)
    (hfound : found.Perm (t.ownedBy user)) (hfresh : o.id ∉ drawn) (hlater : ∀ time ∈ times, time < o.time) :
    Follows e (times ++ [o.time]) (drawn ++ [o.id])
      ((t.removeAll ((e.evicted found).map Record.id)).insert
        ((e.entryOn o user signal persistent).record user))
      (L.serve e o (.create user signal persistent)).2 := by
  -- a full list loses its front, so that there is room in any case
  have hevicted := h.evicted_eq hfound
  have hown : (t.removeAll ((e.evicted found).map Record.id)).ownedBy user =
      if (t.ownedBy user).length < e.params.refreshCap then t.ownedBy user else (t.ownedBy user).tail := by
    rw [hevicted, Table.ownedBy_removeAll_take]
    split
    · rfl
    · exact List.drop_one
  have hother : ∀ v, v ≠ user →
      (t.removeAll ((e.evicted found).map Record.id)).ownedBy v = t.ownedBy v := by
    intro v hv
    refine Table.ownedBy_removeAll_of_ne hv ?_
    intro x hx
    rw [hevicted] at hx
    exact List.mem_of_mem_take hx
  have hkept : (if (L.list user).length < e.params.refreshCap then L.list user else (L.list user).tail) =
      ((t.removeAll ((e.evicted found).map Record.id)).ownedBy user).map Record.entry := by
    rw [hown, ← h.list_eq user, List.length_map]
    split
    · rfl
    · exact List.map_tail.symm
  have hleft : Follows e times drawn (t.removeAll ((e.evicted found).map Record.id))
      (L.put user (if (L.list user).length < e.params.refreshCap then L.list user else (L.list user).tail)) := by
    refine h.of_sublist ?_ ?_ fun u hu => List.mem_cons_of_mem _ hu
    · intro v
      rw [Table.ownedBy_removeAll]
      exact List.filter_sublist
    · intro v
      by_cases hv : v = user
      · subst hv
        simp only [Ledger.put, ite_true, hkept]
      · simp only [Ledger.put, hv, ite_false, hother v hv, h.list_eq v]
  have hroom : ((t.removeAll ((e.evicted found).map Record.id)).ownedBy user).length < e.params.refreshCap := by
    have hcapped := h.capped user
    rw [hown]
    split
    · assumption
    · rw [List.length_tail]
      omega
  have hnew := (hleft.insert signal persistent hroom hfresh hlater).of_put_put
  simp only [Ledger.put, ite_true] at hnew
  exact hnew

theorem remove (h : Follows e times drawn t L) {id : TokenId} {x : Record} (hget : t.get id = some x) :
    Follows e times drawn (t.remove id) (L.put x.user ((L.list x.user).filter fun y => y.id != id)) := by
  refine h.of_sublist ?_ ?_ fun u hu => List.mem_cons_of_mem _ hu
  · intro v
    rw [Table.ownedBy_remove]
    exact List.filter_sublist
  · intro v
    rw [Table.ownedBy_remove_of_get hget]
    by_cases hv : v = x.user
    · subst hv
      simp only [Ledger.put, ite_true, ← h.list_eq x.user, List.filter_map]
      rfl
    · simp only [Ledger.put, hv, ite_false, h.list_eq v]

theorem removeOwnedBy (h : Follows e times drawn t L) (user : UserId) :
    Follows e times drawn (t.removeOwnedBy user) (L.put user []) := by
  refine h.of_sublist ?_ ?_ fun u hu => List.mem_cons_of_mem _ hu
  · intro v
    rw [Table.ownedBy_removeOwnedBy]
    split
    · exact List.nil_sublist _
    · exact List.Sublist.refl _
  · intro v
    rw [Table.ownedBy_removeOwnedBy]
    by_cases hv : v = user
    · simp only [Ledger.put, hv, ite_true, List.map_nil]
    · simp only [Ledger.put, hv, ite_false, h.list_eq v]

theorem renew (h : Follows e times drawn t L) {o : FaultFree} {id : TokenId} {signal : Bytes} {old : Record}
    (hget : t.get id = some old) (hfresh : o.id ∉ drawn) (hlater : ∀ time ∈ times, time < o.time) :
    Follows e (times ++ [o.time]) (drawn ++ [o.id])
      ((t.remove id).insert ((e.entryOn o old.user signal old.persistent).record old.user))
      (L.put old.user ((L.list old.user).filter (fun x => x.id != id) ++
        [e.entryOn o old.user signal old.persistent])) := by
  have hleft := h.remove hget
  have hroom : ((t.remove id).ownedBy old.user).length < e.params.refreshCap := by
    obtain ⟨hmem, hid⟩ := Table.get_eq_some_iff.mp hget
    rw [Table.ownedBy_remove]
    refine Nat.lt_of_lt_of_le ?_ (h.capped old.user)
    rw [List.length_filter_lt_length_iff_exists]
    exact ⟨old, Table.mem_ownedBy.mpr ⟨hmem, rfl⟩, by simp [hid]⟩
  have hnew := (hleft.insert signal old.persistent hroom hfresh hlater).of_put_put
  simp only [Ledger.put, ite_true] at hnew
  exact hnew

theorem drawn_mem {o : FaultFree} {events : List Event} (hmint : ⟨.mint, o.id⟩ ∈ events) :
    o.id ∈ events.filterMap Event.drawn? := List.mem_filterMap.mpr ⟨_, hmint, rfl⟩

theorem mono_drawn {o : FaultFree} {events : List Event} (hmint : ⟨.mint, o.id⟩ ∈ events)
    (h : Follows e (times ++ [o.time]) (drawn ++ [o.id]) t L) :
    Follows e (times ++ [o.time]) (drawn ++ events.filterMap Event.drawn?) t L := by
  refine h.mono (fun _ htime => htime) ?_
  intro id hid
  rcases List.mem_append.mp hid with hold | hnew
  · exact List.mem_append_left _ hold
  · rw [List.mem_singleton.mp hnew]
    exact List.mem_append_right _ (drawn_mem hmint)

theorem serve (h : Follows e times drawn t L) {o : FaultFree} {c : Command} {events : List Event}
    {r : Except AuthError Outcome} {after : Table} (hcap : 0 < e.params.refreshCap)
    (hrun : (e.serve c).Runs t events r after) (hfits : ∀ ev ∈ events, ev.Fits o)
    (haccess : (o.time.add? e.params.accessAge).isSome) (hrefresh : (o.time.add? e.params.refreshAge).isSome)
    (hlater : ∀ time ∈ times, time < o.time) (hfresh : ∀ id ∈ events.filterMap Event.drawn?, id ∉ drawn) :
    r = (L.serve e o c).1 ∧
      Follows e (times ++ [o.time]) (drawn ++ events.filterMap Event.drawn?) after (L.serve e o c).2 := by
  have hgrow : ∀ {t : Table} {L : Ledger}, Follows e times drawn t L →
      Follows e (times ++ [o.time]) (drawn ++ events.filterMap Event.drawn?) t L := fun h =>
    h.mono (fun _ => List.mem_append_left _) fun _ => List.mem_append_left _
  cases c with
  | create user signal persistent =>
    obtain ⟨s, hs, rfl⟩ := Action.runs_map.mp hrun
    obtain ⟨found, hfound, hmint, rfl, rfl⟩ := (runs_open hs).of_fits hfits haccess hrefresh
    exact ⟨rfl, mono_drawn hmint (h.create hcap hfound (hfresh _ (drawn_mem hmint)) hlater)⟩
  | refresh id signal =>
    obtain ⟨s, hs, rfl⟩ := Action.runs_map.mp hrun
    rcases (runs_refresh hs).of_fits hfits haccess hrefresh with
      ⟨err, hclaim, rfl, rfl⟩ | ⟨old, hclaim, hmint, rfl, rfl⟩
    · have hserve : L.serve e o (.refresh id signal) = (.error err, L) := by
        simp only [Ledger.serve, h.claim_eq, hclaim, Except.map]
      rw [hserve]
      exact ⟨rfl, hgrow h⟩
    · have hserve : L.serve e o (.refresh id signal) =
          (.ok (.pair ⟨e.accessOn o old.user (e.entryOn o old.user signal old.persistent),
              (e.entryOn o old.user signal old.persistent).record old.user⟩),
            L.put old.user ((L.list old.user).filter (fun x => x.id != id) ++
              [e.entryOn o old.user signal old.persistent])) := by
        simp only [Ledger.serve, h.claim_eq, hclaim, Except.map]
        rfl
      rw [hserve]
      exact ⟨rfl, mono_drawn hmint (h.renew (Table.claim_eq_ok hclaim).1 (hfresh _ (drawn_mem hmint)) hlater)⟩
  | get id =>
    obtain ⟨s, hs, rfl⟩ := Action.runs_map.mp hrun
    obtain ⟨rfl, hread⟩ := runs_get hs
    rcases hread.of_fits hfits with ⟨hget, rfl⟩ | ⟨x, hget, rfl⟩
    · have hserve : L.serve e o (.get id) = (.error .tokenIncorrect, L) := by
        simp only [Ledger.serve, h.find?_eq, hget, Option.map_none]
      rw [hserve]
      exact ⟨rfl, hgrow h⟩
    · have hserve : L.serve e o (.get id) =
          ((if x.expires < o.time then .error .tokenExpired else .ok x : Except AuthError Record).map .record,
            L) := by
        simp only [Ledger.serve, h.find?_eq, hget, Option.map_some]
        show (if x.expires < o.time then _ else _) = _
        split
        · rfl
        · rfl
      rw [hserve]
      exact ⟨rfl, hgrow h⟩
  | delete id signal =>
    obtain ⟨s, hs, rfl⟩ := (Action.runs_map (g := fun _ => Outcome.done)).mp hrun
    rcases (runs_delete hs).of_fits hfits with ⟨err, hclaim, rfl, rfl⟩ | ⟨x, hclaim, rfl, rfl⟩
    · have hserve : L.serve e o (.delete id signal) = (.error err, L) := by
        simp only [Ledger.serve, h.claim_eq, hclaim, Except.map]
      rw [hserve]
      exact ⟨rfl, hgrow h⟩
    · have hserve : L.serve e o (.delete id signal) =
          (.ok .done, L.put x.user ((L.list x.user).filter fun y => y.id != id)) := by
        simp only [Ledger.serve, h.claim_eq, hclaim, Except.map]
      rw [hserve]
      exact ⟨rfl, hgrow (h.remove (Table.claim_eq_ok hclaim).1)⟩
  | deleteAll id signal =>
    obtain ⟨s, hs, rfl⟩ := (Action.runs_map (g := fun _ => Outcome.done)).mp hrun
    rcases (runs_deleteAll hs).of_fits hfits with ⟨err, hclaim, rfl, rfl⟩ | ⟨x, hclaim, rfl, rfl⟩
    · have hserve : L.serve e o (.deleteAll id signal) = (.error err, L) := by
        simp only [Ledger.serve, h.claim_eq, hclaim, Except.map]
      rw [hserve]
      exact ⟨rfl, hgrow h⟩
    · have hserve : L.serve e o (.deleteAll id signal) = (.ok .done, L.put x.user []) := by
        simp only [Ledger.serve, h.claim_eq, hclaim, Except.map]
      rw [hserve]
      exact ⟨rfl, hgrow (h.removeOwnedBy x.user)⟩

end Follows

/-! ### Runs -/

theorem Steady.front {plan : List (Command × FaultFree)} {x : Command × FaultFree} (h : Steady e (plan ++ [x])) :
    Steady e plan ∧ ∀ y ∈ plan, y.2.time < x.2.time := by
  obtain ⟨hfront, -, hlast⟩ := List.pairwise_append.mp h.later
  refine ⟨⟨hfront, fun y hy => h.access y (List.mem_append_left _ hy),
    fun y hy => h.refresh y (List.mem_append_left _ hy)⟩, ?_⟩
  intro y hy
  exact hlast y hy x (List.mem_singleton_self x)

theorem SerialRun.follows {run : List (ServedCall FaultFree)} (hcap : 0 < e.params.refreshCap)
    (h : SerialRun e FaultFree.Met run) (hsteady : Steady e (run.map ServedCall.plan))
    (hfresh : (ServedCall.drawn run).Nodup) :
    run.map (·.result) = (Ledger.run e (run.map ServedCall.plan)).1 ∧
      Follows e (run.map fun x => x.given.time) (ServedCall.drawn run) (ServedCall.table run)
        (Ledger.run e (run.map ServedCall.plan)).2 := by
  induction h with
  | nil => exact ⟨rfl, follows_empty e⟩
  | snoc run x h hrun hmet ih =>
    simp only [List.map_append, List.map_singleton] at hsteady ⊢
    obtain ⟨hfront, hlater⟩ := hsteady.front
    rw [ServedCall.drawn_append, ServedCall.drawn_singleton, List.nodup_append] at hfresh
    obtain ⟨hold, -, hdisjoint⟩ := hfresh
    obtain ⟨hresults, hfollows⟩ := ih hfront hold
    have hmem : x.plan ∈ run.map ServedCall.plan ++ [x.plan] := List.mem_append_right _ (List.mem_singleton_self _)
    have hlater : ∀ time ∈ run.map (fun x => x.given.time), time < x.given.time := by
      intro time htime
      obtain ⟨y, hy, rfl⟩ := List.mem_map.mp htime
      exact hlater y.plan (List.mem_map_of_mem hy)
    obtain ⟨hresult, hnext⟩ := hfollows.serve hcap hrun hmet (hsteady.access _ hmem) (hsteady.refresh _ hmem) hlater
      fun id hid hdrawn => hdisjoint id hdrawn id hid rfl
    rw [ServedCall.plan, Ledger.run_concat, ServedCall.drawn_append, ServedCall.drawn_singleton,
      ServedCall.table_concat, hresults, hresult]
    exact ⟨rfl, hnext⟩

theorem FaultFree.exists_serve_met (e : Engine) (c : Command) (o : FaultFree) (t : Table) :
    ∃ events r after, (e.serve c).Runs t events r after ∧ o.Met events := (e.serve c).run.exists_fitting_run o t

/-- Calls one after the other refine the ledger: a plan always runs to its end, and whenever the identifiers that
it draws are fresh its calls return what the ledger's do, and a scan of a user's records in the order of expiry
gives the ledger's list. -/
theorem serial_refines {plan : List (Command × FaultFree)} (hcap : 0 < e.params.refreshCap)
    (hsteady : Steady e plan) :
    (∃ run, SerialRun e FaultFree.Met run ∧ run.map ServedCall.plan = plan) ∧
    ∀ run, SerialRun e FaultFree.Met run → run.map ServedCall.plan = plan → (ServedCall.drawn run).Nodup →
      run.map (·.result) = (Ledger.run e plan).1 ∧
      ∀ user found, found.Perm ((ServedCall.table run).ownedBy user) →
        (Repository.byExpiry found).map Record.entry = (Ledger.run e plan).2.list user := by
  refine ⟨SerialRun.exists_of_plan (FaultFree.exists_serve_met e) plan, ?_⟩
  rintro run h rfl hfresh
  obtain ⟨hresults, hfollows⟩ := h.follows hcap hsteady hfresh
  refine ⟨hresults, fun user found hfound => ?_⟩
  rw [byExpiry_eq (hfollows.sorted user) hfound]
  exact hfollows.list_eq user

def Engine.roomy : Engine := { Engine.sample with params := { Engine.sample.params with refreshCap := 3 } }

/-- Four logins of one user, a renewal of the session in the middle of those that are left and a logout from the first
of them; then the session that gave way, the one that was renewed and its successor are asked for. -/
def Ledger.samplePlan : List (Command × FaultFree) :=
  [(.create default [] true, .atSecond 0), (.create default [] true, .atSecond 1),
    (.create default [] false, .atSecond 2), (.create default [] true, .atSecond 3),
    (.refresh ⟨.ofNat 2⟩ [], .atSecond 4), (.delete ⟨.ofNat 1⟩ [], .atSecond 5),
    (.get ⟨.ofNat 0⟩, .atSecond 6), (.get ⟨.ofNat 2⟩, .atSecond 7), (.get ⟨.ofNat 4⟩, .atSecond 8)]

/-- The fourth login drops the first session, the renewal moves the middle one of three to the back, and the logout
leaves two. -/
theorem serial_refines_sample : Steady Engine.roomy Ledger.samplePlan ∧
    ∃ run, SerialRun Engine.roomy FaultFree.Met run ∧ run.map ServedCall.plan = Ledger.samplePlan ∧
      (ServedCall.drawn run).Nodup ∧ run.map (·.result) = (Ledger.run Engine.roomy Ledger.samplePlan).1 ∧
      run.map (·.result.toBool) = [true, true, true, true, true, true, false, false, true] ∧
      (Repository.byExpiry ((ServedCall.table run).ownedBy default)).map Record.id = [⟨.ofNat 3⟩, ⟨.ofNat 4⟩] := by
  have hsteady : Steady Engine.roomy Ledger.samplePlan := ⟨by decide, by decide, by decide⟩
  obtain ⟨⟨run, hrun, hplan⟩, hrefines⟩ := serial_refines (by decide) hsteady
  have hfresh : (ServedCall.drawn run).Nodup := by
    have hids : run.map (fun x => x.given.id) = Ledger.samplePlan.map fun p => p.2.id := by
      rw [← hplan, List.map_map]
      rfl
    have hdrawn : (ServedCall.drawn run).Sublist (run.map fun x => x.given.id) :=
      hrun.drawn_sublist fun _ _ _ hmet hmint => hmet _ hmint
    rw [hids] at hdrawn
    exact hdrawn.nodup (by decide)
  obtain ⟨hresults, hlist⟩ := hrefines run hrun hplan hfresh
  refine ⟨hsteady, run, hrun, hplan, hfresh, hresults, ?_, ?_⟩
  · have htold : (Ledger.run Engine.roomy Ledger.samplePlan).1.map Except.toBool =
        [true, true, true, true, true, true, false, false, true] := by decide +kernel
    rw [← htold, ← hresults, List.map_map]
    rfl
  · have hleft : ((Ledger.run Engine.roomy Ledger.samplePlan).2.list default).map Entry.id =
        [⟨.ofNat 3⟩, ⟨.ofNat 4⟩] := by decide +kernel
    rw [← hleft, ← hlist default _ (List.Perm.refl _), List.map_map]
    rfl

end SessionWarden
