import SessionWarden.Proofs.Session.Operations
import SessionWarden.Proofs.Session.Progress
/-!
# What a call does to the table

A call that runs alone passes through few tables, whatever it is answered: an opening removes records of its user one
by one and then stores one, a renewal removes the record that was presented and then stores its successor, a closing
removes once, and all else leaves the table as it was. Every invariant of calls that run alone follows from this.
-/

namespace SessionWarden

variable {e : Engine} {t mid : Table} {events : List Event}

/-- Whether a record was made for a user and a client in the course of some events: it bears the identifier that was
drawn, and expires as long after a reading of the clock as sessions last. -/
structure Engine.Makes (e : Engine) (events : List Event) (user : UserId) (signal : Bytes) (persistent : Bool)
    (new : Record) : Prop where
  minted : ⟨.mint, new.id⟩ ∈ events
  made : ∃ time, ⟨.now, time⟩ ∈ events ∧ e.recordAt? time new.id user signal persistent = some new

theorem Engine.Makes.user_eq {user : UserId} {signal : Bytes} {persistent : Bool} {new : Record}
    (h : e.Makes events user signal persistent new) : new.user = user := by
  obtain ⟨time, -, hnew⟩ := h.made
  obtain ⟨expires, -, heq⟩ := Option.map_eq_some_iff.mp hnew
  exact (congrArg Record.user heq).symm

theorem Engine.Makes.persistent_eq {user : UserId} {signal : Bytes} {persistent : Bool} {new : Record}
    (h : e.Makes events user signal persistent new) : new.persistent = persistent := by
  obtain ⟨time, -, hnew⟩ := h.made
  obtain ⟨expires, -, heq⟩ := Option.map_eq_some_iff.mp hnew
  exact (congrArg Record.persistent heq).symm

theorem Engine.Makes.fingerprint_eq {user : UserId} {signal : Bytes} {persistent : Bool} {new : Record}
    (h : e.Makes events user signal persistent new) : new.fingerprint = fingerprint user signal := by
  obtain ⟨time, -, hnew⟩ := h.made
  obtain ⟨expires, -, heq⟩ := Option.map_eq_some_iff.mp hnew
  exact (congrArg Record.fingerprint heq).symm

theorem Made.makes {user : UserId} {signal : Bytes} {persistent : Bool} {make : List Event} {new : Record}
    (h : Made e user signal persistent make (.ok new)) (hmore : ∀ ev ∈ make, ev ∈ events) :
    e.Makes events user signal persistent new := by
  cases h with
  | made time id _ hnew =>
    obtain ⟨expires, -, rfl⟩ := Option.map_eq_some_iff.mp hnew
    exact ⟨hmore _ (by simp), time, hmore _ (by simp), hnew⟩

/-- The tables that a call may pass through when it runs alone on a table, with its events so far. -/
inductive Stage (e : Engine) (t : Table) (events : List Event) : Command → Table → Prop
  | same (c : Command) : Stage e t events c t
  | evicting (user : UserId) (signal : Bytes) (persistent : Bool) (found : List Record) (n : Nat)
    (hfound : found.Perm (t.ownedBy user)) :
    Stage e t events (.create user signal persistent) (t.removeAll (((e.evicted found).take n).map Record.id))
  | opened (user : UserId) (signal : Bytes) (persistent : Bool) (found : List Record) (new : Record)
    (hfound : found.Perm (t.ownedBy user)) (hnew : e.Makes events user signal persistent new) :
    Stage e t events (.create user signal persistent)
      ((t.removeAll ((e.evicted found).map Record.id)).insert new)
  | taken (id : TokenId) (signal : Bytes) (old : Record) (hget : t.get id = some old) :
    Stage e t events (.refresh id signal) (t.remove id)
  | renewed (id : TokenId) (signal : Bytes) (old new : Record) (hget : t.get id = some old)
    (hsignal : fingerprint old.user signal = old.fingerprint)
    (hnew : e.Makes events old.user signal old.persistent new)
    (hlive : ∃ time, ⟨.table (.removeLive id time), true⟩ ∈ events ∧ ¬ old.expires < time) :
    Stage e t events (.refresh id signal) ((t.remove id).insert new)
  | closed (id : TokenId) (signal : Bytes) (x : Record) (hget : t.get id = some x) :
    Stage e t events (.delete id signal) (t.remove id)
  | closedAll (id : TokenId) (signal : Bytes) (x : Record) (hget : t.get id = some x) :
    Stage e t events (.deleteAll id signal) (t.removeOwnedBy x.user)

/-! ### Parts of operations -/

section Parts

open SessionWarden.Action (Runs Passes)

theorem passes_entered {α : Type} {m : Method} {failure : String → AuthError} {a : Action α}
    (h : Passes (do Action.enter m failure; a) t events mid) :
    mid = t ∨ ∃ rest, events = ⟨.enter m, .ok ()⟩ :: rest ∧ a.Passes t rest mid := by
  rcases h.of_bind with hfirst | ⟨first, last, u, after, hfirst, hlast, rfl⟩
  · exact Or.inl ((Action.still_enter m failure).passes hfirst)
  · obtain ⟨rfl, ⟨rfl, -⟩ | ⟨text, -, hr⟩⟩ := Action.runs_enter.mp hfirst
    · exact Or.inr ⟨last, rfl, hlast⟩
    · cases hr

/-- A repository call that ends with one question for the table has the table before it or after it. -/
theorem passes_called {m : Method} {failure : String → AuthError} {c : TableCall}
    (h : Passes (do Action.enter m failure; Action.table c) t events mid) :
    mid = t ∨ mid = (c.perform t).2 := by
  rcases passes_entered h with rfl | ⟨rest, -, hcall⟩
  · exact Or.inl rfl
  · rcases hcall.of_query with rfl | ⟨reply, -, -, rfl⟩
    · exact Or.inl rfl
    · exact Or.inr rfl

theorem passes_deletions {l : List Record}
    (h : Passes (l.forM fun x => Repository.deleteById x.id) t events mid) :
    ∃ n, mid = t.removeAll ((l.take n).map Record.id) := by
  induction l generalizing t events with
  | nil =>
    obtain ⟨rest, h⟩ := h
    cases h
    exact ⟨0, rfl⟩
  | cons x xs ih =>
    have hcons : Passes (do Repository.deleteById x.id; xs.forM fun x => Repository.deleteById x.id)
        t events mid := h
    rcases hcons.of_bind with hfirst | ⟨first, last, u, after, hfirst, hlast, -⟩
    · rcases passes_called hfirst with rfl | rfl
      · exact ⟨0, rfl⟩
      · exact ⟨1, rfl⟩
    · rcases runs_deleteById hfirst with ⟨-, -, rfl⟩ | ⟨text, -, hr, -⟩
      · obtain ⟨n, rfl⟩ := ih hlast
        exact ⟨n + 1, rfl⟩
      · cases hr

theorem passes_evictForCapacity {user : UserId} (h : (e.evictForCapacity user).Passes t events mid) :
    ∃ found n, found.Perm (t.ownedBy user) ∧ mid = t.removeAll (((e.evicted found).take n).map Record.id) := by
  have hsame : ∃ found n, found.Perm (t.ownedBy user) ∧
      t = t.removeAll (((e.evicted found).take n).map Record.id) := ⟨t.ownedBy user, 0, List.Perm.refl _, rfl⟩
  rcases h.of_bind with hscan | ⟨scan, rest, sorted, after, hscan, hrest, -⟩
  · rcases passes_entered hscan with rfl | ⟨rest, -, hcall⟩
    · exact hsame
    · rcases hcall.of_asked with rfl | ⟨found, after, last, -, hanswer, last', hlast⟩
      · exact hsame
      · obtain rfl := hanswer.eq_of_still trivial
        cases hlast
        exact hsame
  · obtain ⟨rfl, ⟨found, hfound, -, hr⟩ | ⟨text, -, hr⟩⟩ := runs_getByUser hscan
    · injection hr with hr
      subst hr
      rw [Repository.length_byExpiry] at hrest
      by_cases hroom : found.length < e.params.refreshCap
      · rw [if_pos hroom] at hrest
        obtain ⟨rest', hrest⟩ := hrest
        cases hrest
        exact hsame
      · rw [if_neg hroom] at hrest
        have hsome : e.evicted found =
            (Repository.byExpiry found).take (Engine.excess e.params.refreshCap found.length) := if_neg hroom
        rcases hrest.of_bind with hdel | ⟨dels, last, u, after, hdel, hnote, -⟩
        · rw [← hsome] at hdel
          obtain ⟨n, rfl⟩ := passes_deletions hdel
          exact ⟨found, n, hfound, rfl⟩
        · rw [← hsome] at hdel
          obtain ⟨n, rfl, -⟩ := runs_deletions hdel
          obtain rfl := (Action.still_note _).passes hnote
          exact ⟨found, n, hfound, rfl⟩
    · cases hr

theorem still_granted {α : Type} (e : Engine) (x : Record) (n : Note) (g : String → α) :
    Action.Still (do
      let access ← e.issueAccess x
      Action.note n
      return g access) :=
  Action.still_bind (still_issueAccess e x) fun _ => Action.still_bind (Action.still_note n) fun _ => trivial

theorem passes_map {α β : Type} {a : Action α} {g : α → β} (h : Passes (a >>= fun x => pure (g x)) t events mid) :
    a.Passes t events mid := by
  rcases h.of_bind with hfirst | ⟨first, last, x, after, hfirst, hlast, rfl⟩
  · exact hfirst
  · obtain ⟨rest, hlast⟩ := hlast
    cases hlast
    rw [List.append_nil]
    exact Action.Runs.passes hfirst

theorem passes_logged {a : Action Unit} {n : Note} (h : Passes (do a; Action.note n) t events mid) :
    ∃ events, a.Passes t events mid := by
  rcases h.of_bind with hfirst | ⟨first, last, u, after, hfirst, hnote, -⟩
  · exact ⟨events, hfirst⟩
  · obtain rfl := (Action.still_note n).passes hnote
    exact ⟨first, Action.Runs.passes hfirst⟩

/-- A rotation has not touched a record, has taken it out, or has put its successor in its place, and in this case the
record had not expired when it was taken out. -/
theorem passes_rotate {id : TokenId} {asked : Instant} {old new : Record} {P : Table → Prop}
    (h : (Repository.rotate id asked new).Passes t events mid) (hget : t.get id = some old) (hsame : P t)
    (htaken : P (t.remove id))
    (hrenewed : (∃ time, ⟨.table (.removeLive id time), true⟩ ∈ events ∧ ¬ old.expires < time) →
      P ((t.remove id).insert new)) : P mid := by
  rcases passes_entered h with rfl | ⟨rest, rfl, hbody⟩
  · exact hsame
  · rcases hbody.of_asked with rfl | ⟨time, after, rest, rfl, hanswer, hcall⟩
    · exact hsame
    · obtain rfl : t = after := (hanswer.eq_of_still trivial).symm
      rcases hcall.of_asked with rfl | ⟨removed, after, rest, rfl, ⟨hremoved, rfl⟩, hlast⟩
      · exact hsame
      · have hreply : removed = ((TableCall.removeLive id time).perform t).1 := hremoved
        rcases removeLive_cases t id time with ⟨-, hperf⟩ | ⟨x, hx, hlive, hperf⟩
        · rw [hperf] at hreply hlast
          subst hreply
          obtain ⟨rest, hlast⟩ := hlast
          cases hlast
          exact hsame
        · obtain rfl : old = x := Option.some.inj (hget.symm.trans hx)
          rw [hperf] at hreply hlast
          subst hreply
          have hstore : mid = t.remove id ∨ mid = (t.remove id).insert new := by
            rcases (passes_map hlast).of_query with rfl | ⟨reply, -, -, rfl⟩
            · exact Or.inl rfl
            · exact Or.inr rfl
          rcases hstore with rfl | rfl
          · exact htaken
          · exact hrenewed ⟨time, by simp, hlive⟩

theorem still_lost {α : Type} (old : Record) (n n' : Note) : Action.Still (do
    if old.isExpiredAt (← Action.now) then
      Action.note n
      throw .tokenExpired
    else
      Action.note n'
      throw .tokenIncorrect : Action α) := by
  refine ⟨trivial, fun time => ?_⟩
  show Action.Still (if old.isExpiredAt time then _ else _)
  split
  · exact ⟨trivial, fun _ => trivial⟩
  · exact ⟨trivial, fun _ => trivial⟩

theorem passes_create {user : UserId} {signal : Bytes} {persistent : Bool}
    (h : (e.create user signal persistent).Passes t events mid) :
    Stage e t events (.create user signal persistent) mid := by
  rcases h.of_bind with hevict | ⟨evict, rest, u, room, hevict, hbody, rfl⟩
  · obtain ⟨found, n, hfound, rfl⟩ := passes_evictForCapacity hevict
    exact .evicting user signal persistent found n hfound
  · cases runs_evictForCapacity hevict with
    | room found hfound =>
      have hroom : Stage e t (evict ++ rest) (.create user signal persistent)
          (t.removeAll ((e.evicted found).map Record.id)) := by
        have hstage : Stage e t (evict ++ rest) (.create user signal persistent)
            (t.removeAll (((e.evicted found).take (e.evicted found).length).map Record.id)) :=
          .evicting user signal persistent found _ hfound
        rwa [List.take_length] at hstage
      rcases hbody.of_bind with hmake | ⟨make, last, new, after, hmake, hstore, rfl⟩
      · obtain rfl := (still_newRecord e user signal persistent).passes hmake
        exact hroom
      · obtain ⟨rfl, hmade⟩ := runs_newRecord hmake
        have hnew : e.Makes (evict ++ (make ++ last)) user signal persistent new :=
          hmade.makes fun ev hev => List.mem_append_right _ (List.mem_append_left _ hev)
        have hopened := Stage.opened user signal persistent found new hfound hnew
        rcases hstore.of_bind with hput | ⟨store, last, stored, after, hput, hgrant, rfl⟩
        · rcases passes_entered hput with rfl | ⟨rest, -, hcall⟩
          · exact hroom
          · rcases hcall.of_asked with rfl | ⟨reply, after, last', -, ⟨-, rfl⟩, rest', hlast⟩
            · exact hroom
            · cases hlast
              exact hopened
        · rcases runs_create hput with ⟨-, hr, rfl⟩ | ⟨text, -, hr, -⟩
          · obtain rfl := Except.ok.inj hr
            obtain rfl := (still_granted e stored _ _).passes hgrant
            exact hopened
          · cases hr

theorem passes_refresh {id : TokenId} {signal : Bytes} (h : (e.refresh id signal).Passes t events mid) :
    Stage e t events (.refresh id signal) mid := by
  rcases h.of_bind with hlook | ⟨look, rest, old, after, hlook, hbody, rfl⟩
  · obtain rfl := (still_findBound id signal).passes hlook
    exact .same _
  · obtain ⟨rfl, hlook⟩ := runs_findBound hlook
    obtain ⟨hget, rfl, hsignal⟩ := hlook.eq_some
    rcases hbody.of_bind with hmake | ⟨make, rest, new, after, hmake, hasked, rfl⟩
    · obtain rfl := (still_newRecord e old.user signal old.persistent).passes hmake
      exact .same _
    · obtain ⟨rfl, hmade⟩ := runs_newRecord hmake
      have hnew : e.Makes (look ++ (make ++ rest)) old.user signal old.persistent new :=
        hmade.makes fun ev hev => List.mem_append_right _ (List.mem_append_left _ hev)
      rcases hasked.of_asked with rfl | ⟨asked, after, last, rfl, hanswer, hturn⟩
      · exact .same _
      · obtain rfl := hanswer.eq_of_still trivial
        rcases hturn.of_bind with hrotate | ⟨turn, tail, found, after', hrotate, hend, rfl⟩
        · exact passes_rotate hrotate hget (.same _) (.taken old.id signal old hget) fun ⟨time, htime, hlive⟩ =>
            .renewed old.id signal old new hget hsignal hnew ⟨time, by simp [htime], hlive⟩
        · have hmid : mid = after' := by
            cases found with
            | none => exact (still_lost old _ _).passes hend
            | some x => exact (still_granted e x _ _).passes hend
          subst hmid
          exact passes_rotate (Action.Runs.passes hrotate) hget (.same _) (.taken old.id signal old hget)
            fun ⟨time, htime, hlive⟩ =>
              .renewed old.id signal old new hget hsignal hnew ⟨time, by simp [htime], hlive⟩

theorem stage_of_passes {c : Command} (h : (e.serve c).Passes t events mid) : Stage e t events c mid := by
  cases c with
  | create user signal persistent => exact passes_create (passes_map h)
  | refresh id signal => exact passes_refresh (passes_map h)
  | get id =>
    obtain rfl := (still_get id).passes (passes_map h)
    exact .same _
  | delete id signal =>
    rcases (passes_map h).of_bind with hlook | ⟨look, rest, x, after, hlook, hbody, rfl⟩
    · obtain rfl := (still_findBound id signal).passes hlook
      exact .same _
    · obtain ⟨rfl, hlook⟩ := runs_findBound hlook
      obtain ⟨hget, rfl, -⟩ := hlook.eq_some
      obtain ⟨events, hcall⟩ := passes_logged hbody
      rcases passes_called hcall with rfl | rfl
      · exact .same _
      · exact .closed x.id signal x hget
  | deleteAll id signal =>
    rcases (passes_map h).of_bind with hlook | ⟨look, rest, x, after, hlook, hbody, rfl⟩
    · obtain rfl := (still_findBound id signal).passes hlook
      exact .same _
    · obtain ⟨rfl, hlook⟩ := runs_findBound hlook
      obtain ⟨hget, rfl, -⟩ := hlook.eq_some
      obtain ⟨events, hcall⟩ := passes_logged hbody
      rcases passes_called hcall with rfl | rfl
      · exact .same _
      · exact .closedAll x.id signal x hget

theorem stage_of_runs {c : Command} {r : Except AuthError Outcome} (h : (e.serve c).Runs t events r mid) :
    Stage e t events c mid := stage_of_passes (Action.Runs.passes h)

end Parts

end SessionWarden
