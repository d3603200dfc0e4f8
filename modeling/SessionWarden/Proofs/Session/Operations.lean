import SessionWarden.Proofs.Session.Steps
/-!
# Runs of the operations

The runs of each of the five operations by the way they end. The table changes in four places only: evictions
and the new record of an opening, the two calls of a rotation, and the removals of a closing.
-/

namespace SessionWarden

open SessionWarden.Action (Runs runs_bind runs_map runs_asked runs_query)

variable {t after : Table} {events : List Event}

/-! ### Evictions -/

def Table.removeAll (t : Table) (ids : List TokenId) : Table := ids.foldl Table.remove t

theorem Table.records_removeAll (t : Table) (ids : List TokenId) :
    (t.removeAll ids).records = t.records.filter fun x => decide (x.id ∉ ids) := by
  induction ids generalizing t with
  | nil => exact (List.filter_eq_self.mpr fun x hx => by simp).symm
  | cons id ids ih =>
    have hstep : t.removeAll (id :: ids) = (t.remove id).removeAll ids := rfl
    rw [hstep, ih, records_remove, List.filter_filter]
    apply List.filter_congr
    intro x hx
    by_cases h : x.id = id <;> simp [h]

theorem runs_deletions {l : List Record} {r : Except AuthError Unit}
    (h : Runs (l.forM fun x => Repository.deleteById x.id) t events r after) :
    ∃ n, after = t.removeAll ((l.take n).map Record.id) ∧
      ((r = .ok () ∧ l.take n = l) ∨
        ∃ text, ⟨.enter .deleteById, .error text⟩ ∈ events ∧ r = .error (.store text)) := by
  induction l generalizing t events with
  | nil =>
    obtain ⟨rfl, rfl, rfl⟩ := h
    exact ⟨0, rfl, Or.inl ⟨rfl, rfl⟩⟩
  | cons x xs ih =>
    have hcons : Runs (do Repository.deleteById x.id; xs.forM fun x => Repository.deleteById x.id)
        t events r after := h
    rcases runs_bind.mp hcons with ⟨first, rest, u, mid, hx, hxs, rfl⟩ | ⟨err, hx, rfl⟩
    · rcases runs_deleteById hx with ⟨rfl, -, rfl⟩ | ⟨text, -, hr, -⟩
      · obtain ⟨n, rfl, hend⟩ := ih hxs
        refine ⟨n + 1, rfl, ?_⟩
        rcases hend with ⟨rfl, hall⟩ | ⟨text, hmem, rfl⟩
        · exact Or.inl ⟨rfl, by rw [List.take_succ_cons, hall]⟩
        · exact Or.inr ⟨text, List.mem_append_right _ hmem, rfl⟩
      · cases hr
    · rcases runs_deleteById hx with ⟨-, hr, -⟩ | ⟨text, rfl, hr, rfl⟩
      · cases hr
      · injection hr with hr
        subst hr
        exact ⟨0, rfl, Or.inr ⟨text, List.mem_singleton.mpr rfl, rfl⟩⟩

/-- The records that give way to a new one when a scan lists the given ones: those that expire first. -/
def Engine.evicted (e : Engine) (found : List Record) : List Record :=
  if found.length < e.params.refreshCap then []
  else (Repository.byExpiry found).take (Engine.excess e.params.refreshCap found.length)

/-- How making room for a session of a user goes: the records of the user are listed, and where there is no room those
that are too many are deleted one by one. -/
inductive Evicting (e : Engine) (user : UserId) (t : Table) : List Event → Except AuthError Unit → Table → Prop
  | unlisted (text : String) : Evicting e user t [⟨.enter .getByUser, .error text⟩] (.error (.store text)) t
  | roomy (found : List Record) (hfound : found.Perm (t.ownedBy user)) (hroom : found.length < e.params.refreshCap) :
    Evicting e user t [⟨.enter .getByUser, .ok ()⟩, ⟨.table (.ownedBy user), found⟩] (.ok ()) t
  | stopped (found : List Record) (deletions : List Event) (err : AuthError) (mid : Table)
    (hfound : found.Perm (t.ownedBy user)) (hfull : e.params.refreshCap ≤ found.length)
    (hdeletions : Runs ((e.evicted found).forM fun x => Repository.deleteById x.id) t deletions (.error err) mid) :
    Evicting e user t (⟨.enter .getByUser, .ok ()⟩ :: ⟨.table (.ownedBy user), found⟩ :: deletions) (.error err) mid
  | done (found : List Record) (deletions : List Event) (mid : Table)
    (hfound : found.Perm (t.ownedBy user)) (hfull : e.params.refreshCap ≤ found.length)
    (hdeletions : Runs ((e.evicted found).forM fun x => Repository.deleteById x.id) t deletions (.ok ()) mid) :
    Evicting e user t (⟨.enter .getByUser, .ok ()⟩ :: ⟨.table (.ownedBy user), found⟩ :: (deletions ++
      [⟨.note (.capacityReached user (Engine.excess e.params.refreshCap found.length)), ()⟩])) (.ok ()) mid

theorem runs_evicting {e : Engine} {user : UserId} {r : Except AuthError Unit}
    (h : (e.evictForCapacity user).Runs t events r after) :
    Evicting e user t events r after := by
  rcases runs_bind.mp h with ⟨scan, rest, sorted, mid, hscan, hrest, rfl⟩ | ⟨err, hscan, rfl⟩
  · obtain ⟨rfl, ⟨found, hfound, rfl, hr⟩ | ⟨text, -, hr⟩⟩ := runs_getByUser hscan
    · cases hr
      rw [Repository.length_byExpiry] at hrest
      by_cases hroom : found.length < e.params.refreshCap
      · rw [if_pos hroom] at hrest
        obtain ⟨rfl, rfl, rfl⟩ := hrest
        exact .roomy found hfound hroom
      · have hevicted : e.evicted found =
            (Repository.byExpiry found).take (Engine.excess e.params.refreshCap found.length) := if_neg hroom
        rw [if_neg hroom] at hrest
        rcases runs_bind.mp hrest with ⟨deletions, last, u, mid', hdel, hlast, rfl⟩ | ⟨err, hdel, rfl⟩
        · obtain ⟨_, rfl, rfl, rfl⟩ := runs_query.mp hlast
          exact .done found deletions _ hfound (Nat.le_of_not_lt hroom) (by rw [hevicted]; exact hdel)
        · exact .stopped found rest err after hfound (Nat.le_of_not_lt hroom) (by rw [hevicted]; exact hdel)
    · cases hr
  · obtain ⟨rfl, ⟨found, -, -, hr⟩ | ⟨text, rfl, hr⟩⟩ := runs_getByUser hscan
    · cases hr
    · cases hr
      exact .unlisted text

/-- How making room for a session of a user ends. -/
inductive MadeRoom (e : Engine) (user : UserId) (t : Table) :
    List Event → Except AuthError Unit → Table → Prop
  | failed (text : String) : MadeRoom e user t [⟨.enter .getByUser, .error text⟩] (.error (.store text)) t
  | stopped (found : List Record) (h : found.Perm (t.ownedBy user)) (n : Nat) (text : String)
    (events : List Event) (hmem : ⟨.enter .deleteById, .error text⟩ ∈ events) :
    MadeRoom e user t events (.error (.store text)) (t.removeAll (((e.evicted found).take n).map Record.id))
  | room (found : List Record) (h : found.Perm (t.ownedBy user)) (events : List Event) :
    MadeRoom e user t events (.ok ()) (t.removeAll ((e.evicted found).map Record.id))

theorem runs_evictForCapacity {e : Engine} {user : UserId} {r : Except AuthError Unit}
    (h : (e.evictForCapacity user).Runs t events r after) : MadeRoom e user t events r after := by
  cases runs_evicting h with
  | unlisted text => exact .failed text
  | roomy found hfound hroom =>
    have hnone : e.evicted found = [] := if_pos hroom
    have hlisted : MadeRoom e user t [⟨.enter .getByUser, .ok ()⟩, ⟨.table (.ownedBy user), found⟩] (.ok ())
        (t.removeAll ((e.evicted found).map Record.id)) := .room found hfound _
    rwa [hnone] at hlisted
  | stopped found deletions err mid hfound hfull hdeletions =>
    obtain ⟨n, rfl, ⟨hr, -⟩ | ⟨text, hmem, hr⟩⟩ := runs_deletions hdeletions
    · cases hr
    · cases hr
      exact .stopped found hfound n text _ (by simp [hmem])
  | done found deletions mid hfound hfull hdeletions =>
    obtain ⟨n, rfl, ⟨-, hall⟩ | ⟨text, -, hr⟩⟩ := runs_deletions hdeletions
    · rw [hall]
      exact .room found hfound _
    · cases hr

/-! ### Opening and renewing -/

/-- How an opening concludes once room was made. -/
inductive Concludes (e : Engine) (user : UserId) (signal : Bytes) (persistent : Bool) (t : Table) :
    List Event → Except AuthError TokenPair → Table → Prop
  | unmade (make : List Event) (err : AuthError) (hmake : Made e user signal persistent make (.error err)) :
    Concludes e user signal persistent t make (.error err) t
  | unstored (make : List Event) (new : Record) (text : String)
    (hmake : Made e user signal persistent make (.ok new)) :
    Concludes e user signal persistent t (make ++ [⟨.enter .create, .error text⟩]) (.error (.store text)) t
  | unissued (make issue : List Event) (new : Record) (err : AuthError)
    (hmake : Made e user signal persistent make (.ok new)) (hissue : Issued e new issue (.error err)) :
    Concludes e user signal persistent t
      (make ++ (⟨.enter .create, .ok ()⟩ :: ⟨.table (.insert new), ()⟩ :: issue)) (.error err) (t.insert new)
  | granted (make issue : List Event) (new : Record) (access : String)
    (hmake : Made e user signal persistent make (.ok new)) (hissue : Issued e new issue (.ok access)) :
    Concludes e user signal persistent t
      (make ++ (⟨.enter .create, .ok ()⟩ :: ⟨.table (.insert new), ()⟩ ::
        (issue ++ [⟨.note (.sessionCreated user new.id persistent), ()⟩]))) (.ok ⟨access, new⟩) (t.insert new)

theorem runs_create_parts {e : Engine} {user : UserId} {signal : Bytes} {persistent : Bool}
    {r : Except AuthError TokenPair} (h : (e.create user signal persistent).Runs t events r after) :
    (∃ err, (e.evictForCapacity user).Runs t events (.error err) after ∧ r = .error err) ∨
      ∃ evict rest mid, events = evict ++ rest ∧ (e.evictForCapacity user).Runs t evict (.ok ()) mid ∧
        Concludes e user signal persistent mid rest r after := by
  rcases runs_bind.mp h with ⟨evict, rest, u, mid, hevict, hbody, rfl⟩ | ⟨err, hevict, rfl⟩
  · refine Or.inr ⟨evict, rest, mid, rfl, hevict, ?_⟩
    rcases runs_bind.mp hbody with ⟨make, rest, new, mid', hnew, hstore, rfl⟩ | ⟨err, hnew, rfl⟩
    · obtain ⟨rfl, hmade⟩ := runs_newRecord hnew
      rcases runs_bind.mp hstore with ⟨store, rest, stored, full, hput, hgrant, rfl⟩ | ⟨err, hput, rfl⟩
      · rcases runs_create hput with ⟨rfl, hr, rfl⟩ | ⟨text, -, hr, -⟩
        · cases hr
          rcases runs_bind.mp hgrant with ⟨issue, rest, access, last, hissue, hend, rfl⟩ | ⟨err, hissue, rfl⟩
          · obtain ⟨rfl, hissued⟩ := runs_issueAccess hissue
            obtain ⟨rest, rfl, rfl, rfl, rfl⟩ := runs_noted hend
            exact .granted make issue new access hmade hissued
          · obtain ⟨rfl, hissued⟩ := runs_issueAccess hissue
            exact .unissued make rest new err hmade hissued
        · cases hr
      · rcases runs_create hput with ⟨-, hr, -⟩ | ⟨text, rfl, hr, rfl⟩
        · cases hr
        · cases hr
          exact .unstored make new text hmade
    · obtain ⟨rfl, hmade⟩ := runs_newRecord hnew
      exact .unmade rest err hmade
  · exact Or.inl ⟨err, hevict, rfl⟩

/-- How the opening of a session ends, part by part. -/
inductive Opened (e : Engine) (user : UserId) (signal : Bytes) (persistent : Bool) (t : Table) :
    List Event → Except AuthError TokenPair → Table → Prop
  | crowded (evict : List Event) (err : AuthError) (mid : Table)
    (hroom : MadeRoom e user t evict (.error err) mid) :
    Opened e user signal persistent t evict (.error err) mid
  | unmade (evict make : List Event) (err : AuthError) (mid : Table)
    (hroom : MadeRoom e user t evict (.ok ()) mid)
    (hmake : Made e user signal persistent make (.error err)) :
    Opened e user signal persistent t (evict ++ make) (.error err) mid
  | unstored (evict make : List Event) (new : Record) (mid : Table) (text : String)
    (hroom : MadeRoom e user t evict (.ok ()) mid)
    (hmake : Made e user signal persistent make (.ok new)) :
    Opened e user signal persistent t (evict ++ (make ++ [⟨.enter .create, .error text⟩]))
      (.error (.store text)) mid
  | unissued (evict make issue : List Event) (new : Record) (mid : Table) (err : AuthError)
    (hroom : MadeRoom e user t evict (.ok ()) mid)
    (hmake : Made e user signal persistent make (.ok new)) (hissue : Issued e new issue (.error err)) :
    Opened e user signal persistent t
      (evict ++ (make ++ (⟨.enter .create, .ok ()⟩ :: ⟨.table (.insert new), ()⟩ :: issue)))
      (.error err) (mid.insert new)
  | opened (evict make issue : List Event) (new : Record) (mid : Table) (access : String)
    (hroom : MadeRoom e user t evict (.ok ()) mid)
    (hmake : Made e user signal persistent make (.ok new)) (hissue : Issued e new issue (.ok access)) :
    Opened e user signal persistent t
      (evict ++ (make ++ (⟨.enter .create, .ok ()⟩ :: ⟨.table (.insert new), ()⟩ ::
        (issue ++ [⟨.note (.sessionCreated user new.id persistent), ()⟩]))))
      (.ok ⟨access, new⟩) (mid.insert new)

theorem runs_open {e : Engine} {user : UserId} {signal : Bytes} {persistent : Bool}
    {r : Except AuthError TokenPair} (h : (e.create user signal persistent).Runs t events r after) :
    Opened e user signal persistent t events r after := by
  obtain ⟨err, hevict, rfl⟩ | ⟨evict, rest, mid, rfl, hevict, hrest⟩ := runs_create_parts h
  · exact .crowded events err after (runs_evictForCapacity hevict)
  · have hroom := runs_evictForCapacity hevict
    cases hrest with
    | unmade make err hmake => exact .unmade evict rest err _ hroom hmake
    | unstored make new text hmake => exact .unstored evict make new _ text hroom hmake
    | unissued make issue new err hmake hissue => exact .unissued evict make issue new mid err hroom hmake hissue
    | granted make issue new access hmake hissue => exact .opened evict make issue new mid access hroom hmake hissue

/-- How the renewal of a session ends, part by part. -/
inductive Renewed (e : Engine) (id : TokenId) (signal : Bytes) (t : Table) :
    List Event → Except AuthError TokenPair → Table → Prop
  | lost (look : List Event) (err : AuthError) (hlook : SoughtBound t id signal look (.error err)) :
    Renewed e id signal t look (.error err) t
  | unmade (look make : List Event) (old : Record) (err : AuthError)
    (hlook : SoughtBound t id signal look (.ok old))
    (hmake : Made e old.user signal old.persistent make (.error err)) :
    Renewed e id signal t (look ++ make) (.error err) t
  | unrotated (look make turn : List Event) (old new : Record) (asked : Instant) (err : AuthError)
    (hlook : SoughtBound t id signal look (.ok old))
    (hmake : Made e old.user signal old.persistent make (.ok new))
    (hturn : Rotated t id asked new turn (.error err) t) :
    Renewed e id signal t (look ++ (make ++ (⟨.now, asked⟩ :: turn))) (.error err) t
  | expired (look make turn : List Event) (old new : Record) (asked time : Instant)
    (hlook : SoughtBound t id signal look (.ok old))
    (hmake : Made e old.user signal old.persistent make (.ok new))
    (hturn : Rotated t id asked new turn (.ok none) t) (hexp : old.expires < time) :
    Renewed e id signal t
      (look ++ (make ++ (⟨.now, asked⟩ ::
        (turn ++ [⟨.now, time⟩, ⟨.note (.tokenExpiredDuringRotation id), ()⟩]))))
      (.error .tokenExpired) t
  | consumed (look make turn : List Event) (old new : Record) (asked time : Instant)
    (hlook : SoughtBound t id signal look (.ok old))
    (hmake : Made e old.user signal old.persistent make (.ok new))
    (hturn : Rotated t id asked new turn (.ok none) t) (hlive : ¬ old.expires < time) :
    Renewed e id signal t
      (look ++ (make ++ (⟨.now, asked⟩ ::
        (turn ++ [⟨.now, time⟩, ⟨.note (.tokenConsumedConcurrently id), ()⟩]))))
      (.error .tokenIncorrect) t
  | unissued (look make turn issue : List Event) (old new : Record) (asked : Instant) (err : AuthError)
    (after : Table) (hlook : SoughtBound t id signal look (.ok old))
    (hmake : Made e old.user signal old.persistent make (.ok new))
    (hturn : Rotated t id asked new turn (.ok (some new)) after)
    (hissue : Issued e new issue (.error err)) :
    Renewed e id signal t (look ++ (make ++ (⟨.now, asked⟩ :: (turn ++ issue)))) (.error err) after
  | renewed (look make turn issue : List Event) (old new : Record) (asked : Instant) (access : String)
    (after : Table) (hlook : SoughtBound t id signal look (.ok old))
    (hmake : Made e old.user signal old.persistent make (.ok new))
    (hturn : Rotated t id asked new turn (.ok (some new)) after)
    (hissue : Issued e new issue (.ok access)) :
    Renewed e id signal t
      (look ++ (make ++ (⟨.now, asked⟩ ::
        (turn ++ (issue ++ [⟨.note (.tokenRotated old.user id new.id), ()⟩])))))
      (.ok ⟨access, new⟩) after

/-- What a look-up for a client found is the record of the identifier, and the client is the bound one. -/
theorem SoughtBound.eq_some {id : TokenId} {signal : Bytes} {x : Record}
    (h : SoughtBound t id signal events (.ok x)) :
    t.get id = some x ∧ x.id = id ∧ fingerprint x.user signal = x.fingerprint := by
  cases h with
  | bound _ time hget hsignal hlive => exact ⟨hget, (Table.get_eq_some_iff.mp hget).2, hsignal⟩

theorem runs_afterRotation {e : Engine} {old new : Record} {id : TokenId} {signal : Bytes} {asked : Instant}
    {look make turn rest : List Event} {found : Option Record} {mid : Table}
    {r : Except AuthError TokenPair}
    (hlook : SoughtBound t id signal look (.ok old))
    (hmake : Made e old.user signal old.persistent make (.ok new))
    (hturn : Rotated t id asked new turn (.ok found) mid)
    (h : Runs (match found with
      | none => do
        if old.isExpiredAt (← Action.now) then
          Action.note (.tokenExpiredDuringRotation id)
          throw .tokenExpired
        else
          Action.note (.tokenConsumedConcurrently id)
          throw .tokenIncorrect
      | some x => do
        let access ← e.issueAccess x
        Action.note (.tokenRotated old.user id x.id)
        return (⟨access, x⟩ : TokenPair)) mid rest r after) :
    Renewed e id signal t (look ++ (make ++ (⟨.now, asked⟩ :: (turn ++ rest)))) r after := by
  cases hturn with
  | refused late hlate =>
    obtain ⟨time, last, rfl, hlast⟩ := runs_timed h
    by_cases hexp : old.expires < time
    · simp only [Record.isExpiredAt, hexp, decide_true, ite_true] at hlast
      obtain ⟨rfl, rfl, rfl⟩ := runs_refused hlast
      exact .expired look make _ old new asked time hlook hmake (.refused late hlate) hexp
    · simp only [Record.isExpiredAt, hexp, decide_false, Bool.false_eq_true, ite_false] at hlast
      obtain ⟨rfl, rfl, rfl⟩ := runs_refused hlast
      exact .consumed look make _ old new asked time hlook hmake (.refused late hlate) hexp
  | replaced late x hx hlive =>
    rcases runs_bind.mp h with ⟨issue, last, access, mid', hissue, hend, rfl⟩ | ⟨err, hissue, rfl⟩
    · obtain ⟨rfl, hissued⟩ := runs_issueAccess hissue
      obtain ⟨last, rfl, rfl, rfl, rfl⟩ := runs_noted hend
      exact .renewed look make _ issue old new asked access _ hlook hmake (.replaced late x hx hlive) hissued
    · obtain ⟨rfl, hissued⟩ := runs_issueAccess hissue
      exact .unissued look make _ rest old new asked err _ hlook hmake (.replaced late x hx hlive) hissued

theorem runs_refresh {e : Engine} {id : TokenId} {signal : Bytes} {r : Except AuthError TokenPair}
    (h : (e.refresh id signal).Runs t events r after) : Renewed e id signal t events r after := by
  rcases runs_bind.mp h with ⟨look, rest, old, mid, hfind, hbody, rfl⟩ | ⟨err, hfind, rfl⟩
  · obtain ⟨hmid, hlook⟩ := runs_findBound hfind
    obtain rfl : t = mid := hmid.symm
    rcases runs_bind.mp hbody with ⟨make, rest, new, mid, hnew, hasked, rfl⟩ | ⟨err, hnew, rfl⟩
    · obtain ⟨hmid, hmade⟩ := runs_newRecord hnew
      obtain rfl : t = mid := hmid.symm
      obtain ⟨asked, rest, rfl, hturn⟩ := runs_timed hasked
      rw [hlook.eq_some.2.1] at hturn
      rcases runs_bind.mp hturn with ⟨turn, rest, found, mid, hrotate, hend, rfl⟩ | ⟨err, hrotate, rfl⟩
      · exact runs_afterRotation hlook hmade (runs_rotate hrotate) hend
      · cases runs_rotate hrotate with
        | failed text => exact .unrotated look make _ old new asked _ hlook hmade (.failed text)
    · obtain ⟨rfl, hmade⟩ := runs_newRecord hnew
      exact .unmade look rest old err hlook hmade
  · obtain ⟨rfl, hlook⟩ := runs_findBound hfind
    exact .lost events err hlook

/-! ### Reading and closing -/

/-- How the reading of a session ends. -/
inductive Read (id : TokenId) (t : Table) : List Event → Except AuthError Record → Prop
  | lost (look : List Event) (err : AuthError) (hlook : Sought t id look (.error err)) :
    Read id t look (.error err)
  | expired (look : List Event) (x : Record) (time : Instant) (hlook : Sought t id look (.ok x))
    (hexp : x.expires < time) : Read id t (look ++ [⟨.now, time⟩]) (.error .tokenExpired)
  | read (look : List Event) (x : Record) (time : Instant) (hlook : Sought t id look (.ok x))
    (hlive : ¬ x.expires < time) : Read id t (look ++ [⟨.now, time⟩]) (.ok x)

theorem runs_get {id : TokenId} {r : Except AuthError Record}
    (h : (Engine.get id).Runs t events r after) : after = t ∧ Read id t events r := by
  rcases runs_bind.mp h with ⟨look, rest, x, mid, hfind, hbody, rfl⟩ | ⟨err, hfind, rfl⟩
  · obtain ⟨hmid, hlook⟩ := runs_find hfind
    obtain rfl : t = mid := hmid.symm
    obtain ⟨time, rest, rfl, hend⟩ := runs_timed hbody
    by_cases hexp : x.expires < time
    · simp only [Record.isExpiredAt, hexp, decide_true, ite_true] at hend
      obtain ⟨rfl, rfl, rfl⟩ := hend
      exact ⟨rfl, .expired look x time hlook hexp⟩
    · simp only [Record.isExpiredAt, hexp, decide_false, Bool.false_eq_true, ite_false] at hend
      obtain ⟨rfl, rfl, rfl⟩ := hend
      exact ⟨rfl, .read look x time hlook hexp⟩
  · obtain ⟨rfl, hlook⟩ := runs_find hfind
    exact ⟨rfl, .lost events err hlook⟩

/-- How the closing of one session or of all of a user's ends: `remove` is what is done to the table for the
record that was found. -/
inductive Closed (id : TokenId) (signal : Bytes) (remove : Record → Table) (t : Table) :
    List Event → Except AuthError Unit → Table → Prop
  | lost (look : List Event) (err : AuthError) (hlook : SoughtBound t id signal look (.error err)) :
    Closed id signal remove t look (.error err) t
  | failed (look : List Event) (x : Record) (m : Method) (text : String)
    (hlook : SoughtBound t id signal look (.ok x)) :
    Closed id signal remove t (look ++ [⟨.enter m, .error text⟩]) (.error (.store text)) t
  | closed (look : List Event) (x : Record) (m : Method) (c : TableCall) (reply : c.Reply) (n : Note)
    (hlook : SoughtBound t id signal look (.ok x)) :
    Closed id signal remove t
      (look ++ [⟨.enter m, .ok ()⟩, ⟨.table c, reply⟩, ⟨.note n, ()⟩]) (.ok ()) (remove x)

theorem runs_delete {id : TokenId} {signal : Bytes} {r : Except AuthError Unit}
    (h : (Engine.delete id signal).Runs t events r after) :
    Closed id signal (fun _ => t.remove id) t events r after := by
  rcases runs_bind.mp h with ⟨look, rest, x, mid, hfind, hbody, rfl⟩ | ⟨err, hfind, rfl⟩
  · obtain ⟨hmid, hlook⟩ := runs_findBound hfind
    obtain rfl : t = mid := hmid.symm
    rw [hlook.eq_some.2.1] at hbody
    rcases runs_bind.mp hbody with ⟨first, last, u, mid, hdel, hnote, rfl⟩ | ⟨err, hdel, rfl⟩
    · rcases runs_deleteById hdel with ⟨rfl, -, rfl⟩ | ⟨text, -, hr, -⟩
      · obtain ⟨rfl, rfl, rfl⟩ := runs_note hnote
        exact .closed look x .deleteById (.remove id) () _ hlook
      · cases hr
    · rcases runs_deleteById hdel with ⟨-, hr, -⟩ | ⟨text, rfl, hr, rfl⟩
      · cases hr
      · injection hr with hr
        subst hr
        exact .failed look x .deleteById text hlook
  · obtain ⟨rfl, hlook⟩ := runs_findBound hfind
    exact .lost events err hlook

theorem runs_deleteAll {id : TokenId} {signal : Bytes} {r : Except AuthError Unit}
    (h : (Engine.deleteAll id signal).Runs t events r after) :
    Closed id signal (fun x => t.removeOwnedBy x.user) t events r after := by
  rcases runs_bind.mp h with ⟨look, rest, x, mid, hfind, hbody, rfl⟩ | ⟨err, hfind, rfl⟩
  · obtain ⟨hmid, hlook⟩ := runs_findBound hfind
    obtain rfl : t = mid := hmid.symm
    rcases runs_bind.mp hbody with ⟨first, last, u, mid, hdel, hnote, rfl⟩ | ⟨err, hdel, rfl⟩
    · rcases runs_deleteByUser hdel with ⟨rfl, -, rfl⟩ | ⟨text, -, hr, -⟩
      · obtain ⟨rfl, rfl, rfl⟩ := runs_note hnote
        exact .closed look x .deleteByUser (.removeOwnedBy x.user) () _ hlook
      · cases hr
    · rcases runs_deleteByUser hdel with ⟨-, hr, -⟩ | ⟨text, rfl, hr, rfl⟩
      · cases hr
      · injection hr with hr
        subst hr
        exact .failed look x .deleteByUser text hlook
  · obtain ⟨rfl, hlook⟩ := runs_findBound hfind
    exact .lost events err hlook

end SessionWarden
