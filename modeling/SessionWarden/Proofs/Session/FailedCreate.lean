import SessionWarden.Proofs.Session.Eviction
import SessionWarden.Proofs.Session.FailedRefresh
/-!
# What a failed opening leaves behind

An opening first makes room, then stores its record, and issues the credential last; what has been done when it fails
stays done. So the sessions that were to give way are gone as far as they had been removed, and the record is there if
only the credential could not be issued: nobody was told about it.
-/

namespace SessionWarden

variable {e : Engine} {t mid after : Table} {events : List Event} {user : UserId}

/-! ### Removals -/

def Event.removed? : Event → Option TokenId
  | ⟨.table (.remove id), _⟩ => some id
  | _ => none

/-- The identifiers whose records were removed one by one, in this order. -/
def removals (events : List Event) : List TokenId := events.filterMap Event.removed?

@[simp] theorem removals_append (first rest : List Event) :
    removals (first ++ rest) = removals first ++ removals rest :=
  List.filterMap_append

theorem Made.removals {signal : Bytes} {persistent : Bool} {r : Except AuthError Record}
    (h : Made e user signal persistent events r) : removals events = [] := by
  cases h <;> rfl

theorem Issued.removals {x : Record} {r : Except AuthError String} (h : Issued e x events r) :
    removals events = [] := by
  cases h <;> rfl

theorem Concludes.removals {signal : Bytes} {persistent : Bool} {r : Except AuthError TokenPair}
    (h : Concludes e user signal persistent t events r after) : removals events = [] := by
  cases h with
  | unmade make err hmake => exact hmake.removals
  | unstored make new text hmake =>
    rw [removals_append, hmake.removals]
    rfl
  | unissued make issue new err hmake hissue =>
    rw [removals_append, hmake.removals]
    exact hissue.removals
  | granted make issue new access hmake hissue =>
    have hend : removals (issue ++ [⟨.note (.sessionCreated user new.id persistent), ()⟩]) = [] := by
      rw [removals_append, hissue.removals]
      rfl
    rw [removals_append, hmake.removals]
    exact hend

/-- Of records that are to be deleted one by one those are gone that had their turn. -/
theorem removals_of_deletions {l : List Record} {r : Except AuthError Unit}
    (h : Action.Runs (l.forM fun x => Repository.deleteById x.id) t events r after) :
    removals events <+: l.map Record.id ∧ after = t.removeAll (removals events) ∧
      (r = .ok () → removals events = l.map Record.id) := by
  induction l generalizing t events with
  | nil =>
    obtain ⟨rfl, rfl, rfl⟩ := h
    exact ⟨List.prefix_rfl, rfl, fun _ => rfl⟩
  | cons x xs ih =>
    have hcons : Action.Runs (do Repository.deleteById x.id; xs.forM fun x => Repository.deleteById x.id)
        t events r after := h
    rcases Action.runs_bind.mp hcons with ⟨first, rest, u, mid, hx, hxs, rfl⟩ | ⟨err, hx, rfl⟩
    · rcases runs_deleteById hx with ⟨rfl, -, rfl⟩ | ⟨text, -, hr, -⟩
      · obtain ⟨hfront, rfl, hall⟩ := ih hxs
        have hfirst : removals ([⟨.enter .deleteById, .ok ()⟩, ⟨.table (.remove x.id), ()⟩] ++ rest) =
            x.id :: removals rest := rfl
        rw [hfirst, List.map_cons]
        exact ⟨List.cons_prefix_cons.mpr ⟨rfl, hfront⟩, rfl, fun hr => by rw [hall hr]⟩
      · cases hr
    · rcases runs_deleteById hx with ⟨-, hr, -⟩ | ⟨text, rfl, hr, rfl⟩
      · cases hr
      · cases hr
        exact ⟨List.nil_prefix, rfl, fun hr => by cases hr⟩

theorem removals_of_evict {r : Except AuthError Unit} (h : (e.evictForCapacity user).Runs t events r after) :
    ∃ found, found.Perm (t.ownedBy user) ∧ removals events <+: (e.evicted found).map Record.id ∧
      after = t.removeAll (removals events) ∧ (r = .ok () → removals events = (e.evicted found).map Record.id) := by
  have hlisting : ∀ (found : List Record) (rest : List Event), removals (⟨.enter .getByUser, .ok ()⟩ ::
      ⟨.table (.ownedBy user), found⟩ :: rest) = removals rest := fun _ _ => rfl
  cases runs_evicting h with
  | unlisted text => exact ⟨_, List.Perm.refl _, List.nil_prefix, rfl, fun hr => by cases hr⟩
  | roomy found hfound hroom =>
    refine ⟨found, hfound, ?_⟩
    rw [Engine.evicted, if_pos hroom]
    exact ⟨List.prefix_rfl, rfl, fun _ => rfl⟩
  | stopped found deletions err mid hfound hfull hdeletions =>
    obtain ⟨hfront, hafter, -⟩ := removals_of_deletions hdeletions
    exact ⟨found, hfound, by rw [hlisting]; exact hfront, by rw [hlisting]; exact hafter, fun hr => by cases hr⟩
  | done found deletions mid hfound hfull hdeletions =>
    obtain ⟨-, hafter, hall⟩ := removals_of_deletions hdeletions
    have hquiet : ∀ n : Note, removals (deletions ++ [⟨.note n, ()⟩]) = removals deletions := fun n => by
      rw [removals_append]
      exact List.append_nil _
    rw [hlisting, hquiet, hall rfl]
    exact ⟨found, hfound, List.prefix_rfl, hall rfl ▸ hafter, fun _ => rfl⟩

theorem Action.Plainly.of_runs {α : Type} {a : Action α} {post : Except AuthError α → Prop} (h : a.Plainly post)
    {r : Except AuthError α} (hruns : a.Runs t events r after) : ∀ ev ∈ events, ev.query.Plain := by
  have key : ∀ (s : Script (Except AuthError α)) (t : Table) (events : List Event), s.Plainly post →
      s.Runs t events r after → ∀ ev ∈ events, ev.query.Plain := by
    intro s
    induction s with
    | done b =>
      rintro t events - ⟨rfl, -, -⟩ ev hev
      cases hev
    | ask q next ih =>
      rintro t events ⟨hq, hnext⟩ ⟨reply, mid, rest, rfl, hanswer, hrest⟩
      exact List.forall_mem_cons.mpr ⟨hq, ih reply mid rest (hnext reply ⟨t, mid, hanswer⟩) hrest⟩
  exact key a.run t events h hruns

theorem not_issueBegan_of_plain (h : ∀ ev ∈ events, ev.query.Plain) : ¬ IssueBegan events := by
  rintro ⟨ev, hev, hroles⟩
  have hplain := h ev hev
  rw [hroles] at hplain
  exact hplain

/-! ### The table after a failure -/

/-- What a failed opening leaves behind. What is gone gave way to the new session, first those that expire first; all
had gone, and the new record is there, if the credential could not be issued. -/
structure LeftBehind (e : Engine) (user : UserId) (signal : Bytes) (persistent : Bool) (t : Table)
    (events : List Event) (err : AuthError) (after : Table) : Prop where
  evicted : ∃ found, found.Perm (t.ownedBy user) ∧ removals events <+: (e.evicted found).map Record.id ∧
    (IssueBegan events → removals events = (e.evicted found).map Record.id)
  unissued : ¬ IssueBegan events → after = t.removeAll (removals events)
  orphaned : IssueBegan events → ((∃ text, err = .store text) ∨ ∃ text, err = .ofCredential (.signing text)) ∧
    ∃ new, e.Makes events user signal persistent new ∧ after = (t.removeAll (removals events)).insert new
  unchanged : (t.ownedBy user).length < e.params.refreshCap → ¬ IssueBegan events → after = t
  others : (∀ id, ⟨.mint, id⟩ ∈ events → ∀ x ∈ t.records, x.id ≠ id) →
    ∀ v, v ≠ user → after.ownedBy v = t.ownedBy v

section Endings

variable {signal : Bytes} {persistent : Bool} {err : AuthError} {found : List Record}

theorem removals_eq_nil_of_roomy (hfound : found.Perm (t.ownedBy user))
    (hfront : removals events <+: (e.evicted found).map Record.id)
    (hroom : (t.ownedBy user).length < e.params.refreshCap) : removals events = [] := by
  rw [Engine.evicted, if_pos (hfound.length_eq ▸ hroom)] at hfront
  exact List.prefix_nil.mp hfront

theorem ownedBy_create_of_ne {r : Except AuthError TokenPair}
    (h : (e.create user signal persistent).Runs t events r after)
    (hfresh : ∀ id, ⟨.mint, id⟩ ∈ events → ∀ x ∈ t.records, x.id ≠ id) {v : UserId} (hne : v ≠ user) :
    after.ownedBy v = t.ownedBy v := by
  have hserve : (e.serve (.create user signal persistent)).Runs t events (r.map .pair) after :=
    Action.runs_map.mpr ⟨_, h, rfl⟩
  exact (stage_of_runs hserve).ownedBy_of_ne rfl hne hfresh

/-- An opening that fails before the issue has done nothing but remove records that were to give way. -/
theorem LeftBehind.of_unissued (h : (e.create user signal persistent).Runs t events (.error err) after)
    (hfound : found.Perm (t.ownedBy user)) (hfront : removals events <+: (e.evicted found).map Record.id)
    (hbegan : ¬ IssueBegan events) (hafter : after = t.removeAll (removals events)) :
    LeftBehind e user signal persistent t events err after where
  evicted := ⟨found, hfound, hfront, fun h => absurd h hbegan⟩
  unissued _ := hafter
  orphaned h := absurd h hbegan
  unchanged hroom _ := by
    rw [hafter, removals_eq_nil_of_roomy hfound hfront hroom]
    rfl
  others hfresh _ hne := ownedBy_create_of_ne h hfresh hne

/-- An opening that fails leaves behind what it had done: before the issue of a credential begins, at most removals of
the records that were to give way; afterwards all of these, and the new record. -/
theorem create_error (h : (e.create user signal persistent).Runs t events (.error err) after) :
    LeftBehind e user signal persistent t events err after := by
  obtain ⟨err', hevict, hr⟩ | ⟨evict, rest, mid, rfl, hevict, hrest⟩ := runs_create_parts h
  · have hquiet := not_issueBegan_of_plain ((plainly_evictForCapacity e user).of_runs hevict)
    obtain ⟨found, hfound, hfront, hafter, -⟩ := removals_of_evict hevict
    exact .of_unissued h hfound hfront hquiet hafter
  · have hquiet := not_issueBegan_of_plain ((plainly_evictForCapacity e user).of_runs hevict)
    obtain ⟨found, hfound, -, hmid, hall⟩ := removals_of_evict hevict
    have hgone : removals (evict ++ rest) = removals evict := by
      rw [removals_append, hrest.removals, List.append_nil]
    have hevicted : removals (evict ++ rest) = (e.evicted found).map Record.id := hgone.trans (hall rfl)
    have hfront : removals (evict ++ rest) <+: (e.evicted found).map Record.id := hevicted ▸ List.prefix_rfl
    rw [← hgone] at hmid
    cases hrest with
    | unmade make _ hmake =>
      exact .of_unissued h hfound hfront (by simp [issueBegan_append, hquiet, hmake.not_issueBegan]) hmid
    | unstored make new text hmake =>
      refine .of_unissued h hfound hfront ?_ hmid
      simp [issueBegan_append, issueBegan_cons, hquiet, hmake.not_issueBegan]
    | unissued make issue new _ hmake hissue =>
      have hbegan : IssueBegan
          (evict ++ (make ++ (⟨.enter .create, .ok ()⟩ :: ⟨.table (.insert new), ()⟩ :: issue))) := by
        simp [issueBegan_append, issueBegan_cons, hissue.began]
      refine ⟨⟨found, hfound, hfront, fun _ => hevicted⟩, fun hnone => absurd hbegan hnone, fun _ => ?_,
        fun _ hnone => absurd hbegan hnone, fun hfresh _ hne => ownedBy_create_of_ne h hfresh hne⟩
      exact ⟨hissue.error_cases, new, hmake.makes fun ev hev => by simp [hev], congrArg (·.insert new) hmid⟩

end Endings

/-! ### Any opening can leave something behind -/

/-- Whatever the records of a user, a failing look-up of roles leaves a record behind, and of the others those that did
not have to give way. -/
theorem exists_lossy_create (e : Engine) (t : Table) (user : UserId) {fresh : TokenId} {signal : Bytes}
    {persistent : Bool} {new : Record} {time : Instant} (text : String)
    (hnew : e.recordAt? time fresh user signal persistent = some new) :
    ∃ events found, (e.create user signal persistent).Runs t events (.error (.store text))
      ((t.removeAll ((e.evicted found).map Record.id)).insert new) ∧ IssueBegan events ∧
      found.Perm (t.ownedBy user) := by
  obtain ⟨evict, r, mid, hevict, hfits⟩ :=
    Script.exists_fitting_run (e.evictForCapacity user).run FaultFree.sample t
  obtain ⟨rfl, found, hfound, rfl⟩ := (runs_evictForCapacity hevict).of_fits hfits
  have hput : (Repository.create new).Runs (t.removeAll ((e.evicted found).map Record.id))
      [⟨.enter .create, .ok ()⟩, ⟨.table (.insert new), ()⟩] (.ok new)
      ((t.removeAll ((e.evicted found).map Record.id)).insert new) :=
    ⟨.ok (), _, _, rfl, rfl, (), _, [], rfl, ⟨rfl, rfl⟩, rfl, rfl, rfl⟩
  have hissue : (e.issueAccess new).Runs ((t.removeAll ((e.evicted found).map Record.id)).insert new)
      [⟨.enter .roles, .error text⟩] (.error (.store text))
      ((t.removeAll ((e.evicted found).map Record.id)).insert new) := ⟨.error text, _, [], rfl, rfl, rfl, rfl, rfl⟩
  refine ⟨evict ++ ([⟨.now, time⟩, ⟨.mint, fresh⟩] ++ ([⟨.enter .create, .ok ()⟩, ⟨.table (.insert new), ()⟩] ++
    [⟨.enter .roles, .error text⟩])), found, ?_, by simp [issueBegan_append, issueBegan_cons], hfound⟩
  refine Action.runs_bind.mpr (Or.inl ⟨evict, _, (), _, hevict, ?_, rfl⟩)
  refine Action.runs_bind.mpr (Or.inl ⟨_, _, new, _, runs_newRecord_made hnew, ?_, rfl⟩)
  refine Action.runs_bind.mpr (Or.inl ⟨_, _, new, _, hput, ?_, rfl⟩)
  exact Action.runs_bind.mpr (Or.inr ⟨_, hissue, rfl⟩)

theorem Engine.sample_opens : Engine.sample.recordAt? ⟨0⟩ default default [] true = some Record.sample :=
  Option.map_eq_some_iff.mpr ⟨⟨86400000000000⟩, by decide, by simp only [Record.sample]⟩

/-- Not every opening that fails leaves the table as it was: a session may be gone, and a record there that nobody was
told about. -/
theorem create_error_not_unchanged : ∃ events after,
    (Engine.sample.create default [] true).Runs .crowded events (.error (.store "down")) after ∧ after ≠ .crowded ∧
      (∃ x ∈ Table.crowded.records, x ∉ after.records) ∧ ∃ x ∈ after.records, x ∉ Table.crowded.records := by
  obtain ⟨events, found, hruns, -, hfound⟩ :=
    exists_lossy_create Engine.sample .crowded default "down" Engine.sample_opens
  have hnew : Record.sample ∉ Table.crowded.records := fun hmem => Table.crowded_fresh _ hmem rfl
  have hpos : 0 < (Engine.sample.evicted found).length := by
    rw [Engine.evicted_eq_take, List.length_take, Repository.length_byExpiry, hfound.length_eq]
    decide
  obtain ⟨x, hx⟩ := List.exists_mem_of_length_pos hpos
  have hmem : x ∈ Table.crowded.records :=
    (Table.mem_ownedBy.mp (hfound.mem_iff.mp (Engine.mem_of_mem_evicted hx))).1
  have hgone : x ∉ ((Table.crowded.removeAll ((Engine.sample.evicted found).map Record.id)).insert
      Record.sample).records := fun hin =>
    (Table.mem_insert_removeAll Table.crowded_fresh hmem).mp hin (List.mem_map_of_mem hx)
  refine ⟨events, _, hruns, ?_, ⟨x, hmem, hgone⟩, Record.sample, Table.mem_insert.mpr (Or.inl rfl), hnew⟩
  intro hsame
  rw [hsame] at hgone
  exact hgone hmem

theorem create_error_of_sample : ∃ events after,
    (Engine.sample.create default [] true).Runs .crowded events (.error (.store "down")) after ∧ IssueBegan events ∧
      ∃ new, Engine.sample.Makes events default [] true new ∧
        after = (Table.crowded.removeAll (removals events)).insert new := by
  obtain ⟨events, found, hruns, hbegan, -⟩ :=
    exists_lossy_create Engine.sample .crowded default "down" Engine.sample_opens
  exact ⟨events, _, hruns, hbegan, ((create_error hruns).orphaned hbegan).2⟩

end SessionWarden
