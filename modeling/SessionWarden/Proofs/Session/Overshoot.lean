import Mathlib.Data.List.Nodup
import Mathlib.Data.List.Perm.Subperm
import Mathlib.Data.Nat.Find
import SessionWarden.Proofs.Session.Capacity
import SessionWarden.Proofs.Session.Overtaking
import SessionWarden.Proofs.Session.Lineage
/-!
# Logins at the same time

Openings that are in flight at the same time list the records of their user before the others have stored theirs, so
that a user may have more records than fit. How many more is bounded by the number of openings in flight: of all lists
that led to a record, the last one counts. Its opening left room for one before it stored, and whatever was stored since
was stored by openings that were in flight at the time of that list.
-/

namespace SessionWarden

/-! ### What an opening does before it stores -/

/-- Whether some events show that room was made for a user: the records of the user were listed, and those that the
list gives over were removed afterwards. -/
def Engine.Cleared (e : Engine) (past : List Event) (user : UserId) : Prop :=
  ∃ first found rest, past = first ++ ⟨.table (.ownedBy user), found⟩ :: rest ∧
    ∀ x ∈ e.evicted found, ⟨.table (.remove x.id), ()⟩ ∈ rest

/-- When a call may store a record: an opening one for its user, for whom it has made room. -/
def Command.ClearsFirst (e : Engine) (c : Command) (past : List Event) : Query → Prop
  | .table (.insert r) =>
    ∀ user signal persistent, c = .create user signal persistent → r.user = user ∧ e.Cleared past user
  | _ => True

theorem Command.clearsFirst_of_ne {e : Engine} {c : Command} {past : List Event} {q : Query}
    (hq : ∀ r, q ≠ .table (.insert r)) : c.ClearsFirst e past q := by
  unfold ClearsFirst
  split
  · exact absurd rfl (hq _)
  · trivial

section Operations

open SessionWarden.Action (obeys_bind obeys_entered)

variable {allowed : List Event → Query → Prop} {past : List Event}

theorem obeys_deletions {l : List Record} {fits : List Event → Except AuthError Unit → Prop}
    (hplain : ∀ past q, q.Plain → allowed past q) (hfail : ∀ more err, fits (past ++ more) (.error err))
    (hdone : ∀ more, (∀ x ∈ l, ⟨.table (.remove x.id), ()⟩ ∈ more) → fits (past ++ more) (.ok ())) :
    Action.Obeys (l.forM fun x => Repository.deleteById x.id) allowed fits past := by
  induction l generalizing past with
  | nil =>
    have hnil := hdone [] (by simp)
    rw [List.append_nil] at hnil
    exact hnil
  | cons x xs ih =>
    refine obeys_bind (obeys_entered (hplain _ _ trivial) ⟨hplain _ _ trivial, fun _ _ => ?_⟩ fun text => hfail _ _)
    rw [List.append_assoc]
    refine ih (fun more err => ?_) fun more hmore => ?_
    · rw [List.append_assoc]
      exact hfail _ err
    · rw [List.append_assoc]
      refine hdone _ (List.forall_mem_cons.mpr ⟨by simp, fun y hy => ?_⟩)
      exact List.mem_append_right _ (hmore y hy)

/-- Room is made by listing the records of the user, and removing those that the list gives over. -/
theorem obeys_evictForCapacity {e : Engine} {user : UserId} {fits : List Event → Except AuthError Unit → Prop}
    (hplain : ∀ past q, q.Plain → allowed past q) (hfail : ∀ more err, fits (past ++ more) (.error err))
    (hroom : ∀ found rest, (∀ x ∈ e.evicted found, ⟨.table (.remove x.id), ()⟩ ∈ rest) →
      fits (past ++ ⟨.enter .getByUser, .ok ()⟩ :: ⟨.table (.ownedBy user), found⟩ :: rest) (.ok ())) :
    (e.evictForCapacity user).Obeys allowed fits past := by
  refine obeys_bind (obeys_entered (hplain _ _ trivial) ⟨hplain _ _ trivial, fun found _ => ?_⟩ fun text => hfail _ _)
  show Action.Obeys (if (Repository.byExpiry found).length < e.params.refreshCap then pure () else _) _ _ _
  rw [List.append_assoc]
  by_cases hfits : (Repository.byExpiry found).length < e.params.refreshCap
  · rw [if_pos hfits]
    rw [Repository.length_byExpiry] at hfits
    refine hroom found [] fun x hx => ?_
    rw [Engine.evicted, if_pos hfits] at hx
    cases hx
  · rw [if_neg hfits]
    rw [Repository.length_byExpiry] at hfits ⊢
    have hevicted : e.evicted found =
        (Repository.byExpiry found).take (Engine.excess e.params.refreshCap found.length) := if_neg hfits
    refine obeys_bind (obeys_deletions hplain (fun more err => ?_) fun more hmore => ?_)
    · rw [List.append_assoc]
      exact hfail _ err
    · refine ⟨hplain _ _ trivial, fun _ _ => ?_⟩
      rw [← hevicted] at hmore
      simp only [List.append_assoc, List.cons_append, List.nil_append]
      exact hroom found _ fun x hx => List.mem_append_left _ (hmore x hx)

theorem obeys_create_clears (e : Engine) (user : UserId) (signal : Bytes) (persistent : Bool) :
    (e.create user signal persistent).Obeys ((Command.create user signal persistent).ClearsFirst e)
      (fun _ _ => True) [] := by
  refine obeys_bind (obeys_evictForCapacity (fun past q hq => Command.clearsFirst_of_ne hq.ne_insert)
    (fun _ _ => trivial) fun found rest hrest => ?_)
  refine obeys_bind (obeys_newRecord trivial (fun _ => trivial) (fun _ _ => trivial) fun time id x hx => ?_)
  obtain ⟨expires, -, rfl⟩ := Option.map_eq_some_iff.mp hx
  refine obeys_bind (obeys_create trivial ?_ (fun _ _ => trivial) ?_)
  · rintro _ _ _ ⟨⟩
    refine ⟨rfl, [⟨.enter .getByUser, .ok ()⟩], found,
      rest ++ [⟨.now, time⟩, ⟨.mint, id⟩, ⟨.enter .create, .ok ()⟩], by simp, fun y hy => ?_⟩
    exact List.mem_append_left _ (hrest y hy)
  · exact (still_granted e _ _ _).obeys (fun past q hq => Command.clearsFirst_of_ne hq.ne_insert) fun _ _ => trivial

theorem obeys_serve_clears (e : Engine) (c : Command) :
    (e.serve c).Obeys (c.ClearsFirst e) (fun _ _ => True) [] := by
  have hother : (∀ user signal persistent, c ≠ .create user signal persistent) →
      (e.serve c).Obeys (c.ClearsFirst e) (fun _ _ => True) [] := by
    intro hc
    refine Script.obeys_of_forall _ (fun past q => ?_) fun _ _ => trivial
    unfold Command.ClearsFirst
    split
    · exact fun user signal persistent h => absurd h (hc user signal persistent)
    · trivial
  cases c with
  | create user signal persistent =>
    refine obeys_bind (Script.obeys_mono (obeys_create_clears e user signal persistent) ?_)
    rintro past (err | p) -
    · trivial
    · trivial
  | refresh id signal => exact hother (by simp)
  | get id => exact hother (by simp)
  | delete id signal => exact hother (by simp)
  | deleteAll id signal => exact hother (by simp)

end Operations

/-- Whether a call is an opening for a user that has not returned. -/
def Call.opens (user : UserId) : Call → Bool
  | ⟨.create owner _ _, .ask _ _⟩ => owner == user
  | _ => false

namespace Traffic

variable {e : Engine} {s s' : Traffic} {user : UserId} {k : Nat}

/-! ### What comes after a state -/

theorem Kept.of_split {allowed : List Event → Query → Prop} {events past more : List Event} {ev : Event}
    (h : Kept allowed events) (hsplit : events = past ++ ev :: more) : allowed past ev.query := by
  induction h generalizing more with
  | nil => exact absurd hsplit (by simp)
  | snoc front last hfront hq hreply ih =>
    rcases List.eq_nil_or_concat more with rfl | ⟨rest, x, rfl⟩
    · obtain ⟨rfl, hlast⟩ := List.append_inj' hsplit rfl
      obtain rfl := List.head_eq_of_cons_eq hlast
      exact hq
    · rw [List.concat_eq_append, ← List.cons_append, ← List.append_assoc] at hsplit
      exact ih (List.append_inj' hsplit rfl).1

theorem Moves.exists_later (h : Moves e s s') : ∃ more, s'.history = s.history ++ more := by
  induction h with
  | refl => exact ⟨[], by rw [List.append_nil]⟩
  | tail hpath hstep ih =>
    obtain ⟨more, hmore⟩ := ih
    cases hstep with
    | arrive c => exact ⟨more, hmore⟩
    | advance j c q next reply after hcall hanswer =>
      exact ⟨more ++ [(j, ⟨q, reply⟩)], by rw [hmore, List.append_assoc]⟩

theorem later_concat {history first more : List (Nat × Event)} {x : Nat × Event}
    (h : history ++ first ++ [x] = history ++ more) : more = first ++ [x] := by
  rw [List.append_assoc] at h
  exact (List.append_cancel_left h).symm

theorem Moves.mem_or_stored (h : Moves e s s') {more : List (Nat × Event)} (hmore : s'.history = s.history ++ more)
    {x : Record} (hx : x ∈ s'.table.records) :
    x ∈ s.table.records ∨ ∃ j, (j, ⟨.table (.insert x), ()⟩) ∈ more := by
  induction h generalizing more with
  | refl => exact Or.inl hx
  | tail hpath hstep ih =>
    obtain ⟨first, hfirst⟩ := Moves.exists_later hpath
    cases hstep with
    | arrive c => exact ih hmore hx
    | advance j c q next reply after hcall hanswer =>
      rw [hfirst] at hmore
      rw [later_concat hmore]
      rcases hanswer.mem_before hx with hold | rfl
      · rcases ih hfirst hold with hbefore | ⟨i, hi⟩
        · exact Or.inl hbefore
        · exact Or.inr ⟨i, List.mem_append_left _ hi⟩
      · exact Or.inr ⟨j, List.mem_append_right _ (List.mem_singleton_self _)⟩

theorem Moves.stored_of_removed (h : Moves e s s') {more : List (Nat × Event)} (hmore : s'.history = s.history ++ more)
    {x : Record} (hx : x ∈ s'.table.records) {j : Nat} (hremoved : (j, ⟨.table (.remove x.id), ()⟩) ∈ more) :
    ∃ i, (i, ⟨.table (.insert x), ()⟩) ∈ more := by
  induction h generalizing more with
  | refl =>
    obtain rfl := List.self_eq_append_right.mp hmore
    cases hremoved
  | tail hpath hstep ih =>
    obtain ⟨first, hfirst⟩ := Moves.exists_later hpath
    cases hstep with
    | arrive c => exact ih hmore hx hremoved
    | advance i c q next reply after hcall hanswer =>
      rw [hfirst] at hmore
      rw [later_concat hmore] at hremoved ⊢
      rcases hanswer.mem_before hx with hold | rfl
      · rcases List.mem_append.mp hremoved with hbefore | hnow
        · obtain ⟨i, hi⟩ := ih hfirst hold hbefore
          exact ⟨i, List.mem_append_left _ hi⟩
        · cases List.mem_singleton.mp hnow
          obtain ⟨-, rfl⟩ := hanswer
          exact absurd rfl (Table.mem_remove.mp hx).2
      · exact ⟨i, List.mem_append_right _ (List.mem_singleton_self _)⟩

theorem Moves.returned (h : Moves e s s') {c : Command} {r : Except AuthError Outcome}
    (hk : s.calls[k]? = some ⟨c, .done r⟩) : s'.calls[k]? = some ⟨c, .done r⟩ := by
  induction h with
  | refl => exact hk
  | tail hpath hstep ih =>
    cases hstep with
    | arrive d => rwa [List.getElem?_append_left (List.getElem?_eq_some_iff.mp ih).1]
    | advance j d q next reply after hcall hanswer =>
      rw [List.getElem?_set_ne ?_]
      · exact ih
      · rintro rfl
        rw [hcall] at ih
        cases ih

theorem Moves.not_mem_of_returned (h : Moves e s s') {more : List (Nat × Event)}
    (hmore : s'.history = s.history ++ more) {c : Command} {r : Except AuthError Outcome}
    (hk : s.calls[k]? = some ⟨c, .done r⟩) (ev : Event) : (k, ev) ∉ more := by
  induction h generalizing more with
  | refl =>
    obtain rfl := List.self_eq_append_right.mp hmore
    exact List.not_mem_nil
  | tail hpath hstep ih =>
    obtain ⟨first, hfirst⟩ := Moves.exists_later hpath
    cases hstep with
    | arrive d => exact ih hmore
    | advance j d q next reply after hcall hanswer =>
      rw [hfirst] at hmore
      rw [later_concat hmore, List.mem_append, not_or]
      refine ⟨ih hfirst, fun hlast => ?_⟩
      -- the last event would be one of a call that is still to ask
      cases List.mem_singleton.mp hlast
      rw [Moves.returned hpath hk] at hcall
      cases hcall

/-! ### Openings in flight -/

def openings (s : Traffic) (user : UserId) : Nat := s.calls.countP (Call.opens user)

/-- A step to a state in which so many openings for a user are in flight at most. -/
def Throttled (e : Engine) (user : UserId) (k : Nat) (s s' : Traffic) : Prop := Move e s s' ∧ s'.openings user ≤ k

/-- Whether a refresh has come upon a record of a user. -/
def Refreshes (s : Traffic) (user : UserId) : Prop :=
  ∃ j id signal script x, s.calls[j]? = some ⟨.refresh id signal, script⟩ ∧
    (j, ⟨.table (.get id), some x⟩) ∈ s.history ∧ x.user = user

/-- The numbers of the openings for a user that are in flight. -/
def openingNumbers (s : Traffic) (user : UserId) : List Nat :=
  (List.range s.calls.length).filter fun j => (s.calls[j]?).any (Call.opens user)

theorem mem_openingNumbers {j : Nat} : j ∈ s.openingNumbers user ↔ ∃ c, s.calls[j]? = some c ∧ c.opens user := by
  simp only [openingNumbers, List.mem_filter, List.mem_range, Option.any_eq_true]
  constructor
  · rintro ⟨-, c, hc, hopens⟩
    exact ⟨c, hc, hopens⟩
  · rintro ⟨c, hc, hopens⟩
    exact ⟨(List.getElem?_eq_some_iff.mp hc).1, c, hc, hopens⟩

theorem length_openingNumbers (s : Traffic) (user : UserId) : (s.openingNumbers user).length = s.openings user := by
  have hcalls : (List.range s.calls.length).map (fun j => s.calls[j]?) = s.calls.map some := by
    refine List.ext_getElem (by simp) fun j hj hj' => ?_
    simp
  have hcount : s.openings user = (s.calls.map some).countP (Option.any (Call.opens user)) := by
    rw [List.countP_map]
    rfl
  rw [hcount, ← hcalls, List.countP_map, List.countP_eq_length_filter]
  rfl

theorem throttled_moves (h : Relation.ReflTransGen (Throttled e user k) s s') : Moves e s s' :=
  Relation.ReflTransGen.mono (fun _ _ hstep => hstep.1) _ _ h

theorem openings_le (h : Relation.ReflTransGen (Throttled e user k) empty s) : s.openings user ≤ k := by
  rcases h.cases_tail with rfl | ⟨mid, -, hstep⟩
  · exact Nat.zero_le k
  · exact hstep.2

/-! ### The last list -/

/-- Whether a call listed the records of a user at some place of the history, and has since removed those that the list
gives over. -/
structure Clears (s : Traffic) (e : Engine) (user : UserId) (j : Nat) (found : List Record)
    (before after : List (Nat × Event)) : Prop where
  history : s.history = before ++ (j, ⟨.table (.ownedBy user), found⟩) :: after
  removed : ∀ y ∈ e.evicted found, (j, ⟨.table (.remove y.id), ()⟩) ∈ after

/-- A record is stored for a user by an opening that has made room for the user; or a refresh has come upon a record of
the user. -/
theorem Attainable.of_stored_for (h : Attainable e s) {j : Nat} {x : Record}
    (hx : (j, ⟨.table (.insert x), ()⟩) ∈ s.history) (hrefresh : ¬ s.Refreshes x.user) :
    ∃ signal persistent script found before after,
      s.calls[j]? = some ⟨.create x.user signal persistent, script⟩ ∧ s.Clears e x.user j found before after := by
  obtain ⟨⟨command, script⟩, hj, -, -, hids⟩ := h.of_stored hx
  obtain ⟨past, more, hevents⟩ := List.append_of_mem (mem_eventsOf.mpr hx)
  cases command with
  | create owner signal persistent =>
    obtain ⟨hkept, -⟩ := Attainable.kept_obeys (obeys_serve_clears e) h j _ hj
    obtain ⟨rfl, first, found, rest, rfl, hremoved⟩ := hkept.of_split hevents owner signal persistent rfl
    rw [List.append_assoc, List.cons_append] at hevents
    obtain ⟨before, after, hhistory, hafter⟩ := exists_split hevents
    refine ⟨signal, persistent, script, found, before, after, hj, hhistory, fun y hy => ?_⟩
    have hmem : (⟨.table (.remove y.id), ()⟩ : Event) ∈ (after.filter fun x => x.1 == j).map Prod.snd := by
      rw [hafter]
      exact List.mem_append_left _ (hremoved y hy)
    obtain ⟨⟨i, ev⟩, hi, rfl⟩ := List.mem_map.mp hmem
    obtain ⟨hin, hij⟩ := List.mem_filter.mp hi
    obtain rfl : i = j := by simpa using hij
    exact hin
  | refresh id signal =>
    obtain ⟨hkept, -⟩ := Attainable.kept_obeys (obeys_serve_inherits e) h j _ hj
    obtain ⟨y, hy, huser⟩ := hkept.of_split hevents id signal rfl
    have hread : (j, ⟨.table (.get id), some y⟩) ∈ s.history := by
      refine mem_eventsOf.mp ?_
      rw [hevents]
      exact List.mem_append_left _ hy
    exact absurd ⟨j, id, signal, script, y, hj, hread, huser.symm⟩ hrefresh
  | get id => cases hids
  | delete id signal => cases hids
  | deleteAll id signal => cases hids

theorem Clears.exists_last {j : Nat} {found : List Record} {before after : List (Nat × Event)}
    (h : s.Clears e user j found before after) :
    ∃ j found before after, s.Clears e user j found before after ∧
      ∀ j' found' before' after', s.Clears e user j' found' before' after' →
        (j', ⟨.table (.ownedBy user), found'⟩) ∈ before ++ [(j, ⟨.table (.ownedBy user), found⟩)] := by
  classical
  have hsome : ∃ n j found before after, s.Clears e user j found before after ∧ after.length = n :=
    ⟨_, j, found, before, after, h, rfl⟩
  obtain ⟨j, found, before, after, hlast, hlength⟩ := Nat.find_spec hsome
  refine ⟨j, found, before, after, hlast, fun j' found' before' after' h' => ?_⟩
  have hle : after.length ≤ after'.length := hlength ▸ Nat.find_min' hsome ⟨j', found', before', after', h', rfl⟩
  have hsame : (before' ++ [(j', (⟨.table (.ownedBy user), found'⟩ : Event))]) ++ after' =
      (before ++ [(j, ⟨.table (.ownedBy user), found⟩)]) ++ after := by
    simp only [List.append_assoc, List.singleton_append, ← h'.history, ← hlast.history]
  have hlengths := congrArg List.length hsame
  simp only [List.length_append, List.length_singleton] at hlengths
  have hfront := List.prefix_of_prefix_length_le ⟨after', hsame⟩ (List.prefix_append _ after)
    (by simp only [List.length_append, List.length_singleton]; omega)
  exact hfront.subset (List.mem_append_right _ (List.mem_singleton_self _))

/-! ### The bound -/

/-- What is stored for a user after the last list was stored by openings that were in flight at the list. -/
theorem Attainable.stored_since (h : Attainable e s) {s₂ : Traffic} (hpath₂ : Attainable e s₂) (hpath : Moves e s₂ s)
    {more : List (Nat × Event)} (hmore : s.history = s₂.history ++ more) (hrefresh : ¬ s.Refreshes user)
    (hlast : ∀ j found before after, s.Clears e user j found before after →
      (j, ⟨.table (.ownedBy user), found⟩) ∈ s₂.history)
    {j : Nat} {x : Record} (hx : (j, ⟨.table (.insert x), ()⟩) ∈ more) (huser : x.user = user) :
    x ∈ (s₂.openingNumbers user).filterMap fun j => ((s.eventsOf j).filterMap Event.stored?).head? := by
  have hstored : (j, ⟨.table (.insert x), ()⟩) ∈ s.history := hmore ▸ List.mem_append_right _ hx
  obtain ⟨-, -, hone, -⟩ := h.of_stored hstored
  subst huser
  obtain ⟨signal, persistent, script, found, before, after, hj, hclears⟩ := h.of_stored_for hstored hrefresh
  obtain ⟨⟨command, left⟩, hj₂⟩ := hpath₂.call_of_mem (hlast j found before after hclears)
  obtain ⟨c', hc', hcommand⟩ := hpath.command_eq hj₂
  rw [hj] at hc'
  cases hc'
  cases hcommand
  refine List.mem_filterMap.mpr ⟨j, mem_openingNumbers.mpr ⟨_, hj₂, ?_⟩, by rw [hone, List.head?_cons]⟩
  cases left with
  | done r => exact absurd hx (hpath.not_mem_of_returned hmore hj₂ _)
  | ask q next => exact beq_self_eq_true x.user

/-- What a user has was there before and not removed since, or was stored by openings that were in flight. -/
theorem Attainable.ownedBy_subset (h : Attainable e s) {s₂ : Traffic} (hpath₂ : Attainable e s₂)
    (hpath : Moves e s₂ s) {more : List (Nat × Event)} (hmore : s.history = s₂.history ++ more)
    (hrefresh : ¬ s.Refreshes user)
    (hlast : ∀ j found before after, s.Clears e user j found before after →
      (j, ⟨.table (.ownedBy user), found⟩) ∈ s₂.history)
    {ids : List TokenId} (hremoved : ∀ id ∈ ids, ∃ j, (j, ⟨.table (.remove id), ()⟩) ∈ more) :
    s.table.ownedBy user ⊆ (s₂.table.removeAll ids).ownedBy user ++
      (s₂.openingNumbers user).filterMap fun j => ((s.eventsOf j).filterMap Event.stored?).head? := by
  intro x hx
  obtain ⟨hmem, huser⟩ := Table.mem_ownedBy.mp hx
  by_cases hgone : x.id ∈ ids
  · obtain ⟨j, hj⟩ := hremoved x.id hgone
    obtain ⟨i, hi⟩ := hpath.stored_of_removed hmore hmem hj
    exact List.mem_append_right _ (h.stored_since hpath₂ hpath hmore hrefresh hlast hi huser)
  · rcases hpath.mem_or_stored hmore hmem with hold | ⟨i, hi⟩
    · rw [Table.ownedBy_removeAll]
      exact List.mem_append_left _
        (List.mem_filter.mpr ⟨Table.mem_ownedBy.mpr ⟨hold, huser⟩, decide_eq_true hgone⟩)
    · exact List.mem_append_right _ (h.stored_since hpath₂ hpath hmore hrefresh hlast hi huser)

/-- While so many logins of a user are in flight at most and the user's sessions are not refreshed, the user has no
more records than the capacity and the logins in flight but one, however the calls follow each other, whatever
identifiers are drawn and whichever parts fail. -/
theorem bounded_overshoot (hcap : 0 < e.params.refreshCap) (h : Relation.ReflTransGen (Throttled e user k) empty s)
    (hrefresh : ¬ s.Refreshes user) : (s.table.ownedBy user).length ≤ e.params.refreshCap + k - 1 := by
  have hs : Attainable e s := throttled_moves h
  rcases List.eq_nil_or_concat (s.table.ownedBy user) with hnone | ⟨front, x, hlist⟩
  · rw [hnone]
    exact Nat.zero_le _
  -- there is a record, so there was a list that led to it
  obtain ⟨hx, rfl⟩ := Table.mem_ownedBy.mp (show x ∈ s.table.ownedBy user by simp [hlist])
  obtain ⟨i, hi⟩ := (hs.mem_or_stored (List.nil_append _).symm hx).resolve_left List.not_mem_nil
  obtain ⟨_, _, _, _, _, _, -, hsome⟩ := hs.of_stored_for hi hrefresh
  obtain ⟨j, found, before, after, hclears, hlast⟩ := hsome.exists_last
  obtain ⟨s₁, s₂, hpath₁, -, hstep, hhistory, hanswer, hlater⟩ :=
    around (fun _ _ hstep => hstep.1) h hclears.history
  obtain ⟨hfound, htable⟩ : found.Perm (s₁.table.ownedBy x.user) ∧ s₂.table = s₁.table := hanswer
  have hpath₂ : Relation.ReflTransGen (Throttled e x.user k) empty s₂ := hpath₁.tail hstep
  have hmore : s.history = s₂.history ++ after := by
    rw [hclears.history, hhistory, List.append_assoc, List.singleton_append]
  rw [← hhistory] at hlast
  have hremoved : ∀ id ∈ (e.evicted found).map Record.id, ∃ j, (j, ⟨.table (.remove id), ()⟩) ∈ after := by
    intro id hid
    obtain ⟨y, hy, rfl⟩ := List.mem_map.mp hid
    exact ⟨j, hclears.removed y hy⟩
  have hsub := hs.ownedBy_subset (throttled_moves hpath₂) (throttled_moves hlater) hmore hrefresh hlast hremoved
  have hle := (List.subperm_of_subset (List.Nodup.of_map _ (Table.nodup_ownedBy x.user)) hsub).length_le
  rw [← htable] at hfound
  have hroom := Engine.length_ownedBy_evicted_lt hcap hfound
  have hflight := openings_le hpath₂
  have hstored := List.length_filterMap_le
    (fun j => ((s.eventsOf j).filterMap Event.stored?).head?) (s₂.openingNumbers x.user)
  rw [length_openingNumbers] at hstored
  rw [List.length_append] at hle
  omega

theorem throttled_of_length_le (h : Moves e s s') (hk : s'.calls.length ≤ k) :
    Relation.ReflTransGen (Throttled e user k) s s' := by
  induction h with
  | refl => exact .refl
  | @tail mid s' hpath hstep ih =>
    have hcount : s'.openings user ≤ k := Nat.le_trans List.countP_le_length hk
    refine (ih ?_).tail ⟨hstep, hcount⟩
    cases hstep with
    | arrive c =>
      rw [List.length_append, List.length_singleton] at hk
      omega
    | advance j c q next reply after hcall hanswer =>
      rw [List.length_set] at hk
      exact hk

/-- Two logins that overtake each other where one session fits: both list the records before the other has stored its
own, and the bound is reached. -/
theorem bounded_overshoot_reached : ∃ (e : Engine) (s : Traffic), e.params.refreshCap = 1 ∧
    Relation.ReflTransGen (Throttled e default 2) empty s ∧ ¬ s.Refreshes default ∧
    (s.table.ownedBy default).length ≤ e.params.refreshCap + 2 - 1 ∧
    (s.table.ownedBy default).length = e.params.refreshCap + 2 - 1 := by
  let e : Engine := { Engine.sample with params := { Engine.sample.params with refreshCap := 1 } }
  have hnew : e.recordAt? ⟨0⟩ default default [] true = some Record.sample :=
    Option.map_eq_some_iff.mpr ⟨⟨86400000000000⟩, by decide, by simp only [Record.sample]⟩
  have hnew' : e.recordAt? ⟨0⟩ ⟨.ofNat 1⟩ default [] true = some { Record.sample with id := ⟨.ofNat 1⟩ } :=
    Option.map_eq_some_iff.mpr ⟨⟨86400000000000⟩, by decide, by simp only [Record.sample]⟩
  have hnone : ([] : List Record).Perm (Table.empty.ownedBy default) := .refl _
  obtain ⟨rest, n, access, signer, text, signature, hlist, hput⟩ :=
    Engine.exists_opening_halves e hnone Nat.zero_lt_one hnew rfl
  obtain ⟨rest', n', access', signer', text', signature', hlist', hput'⟩ :=
    Engine.exists_opening_halves e hnone Nat.zero_lt_one hnew' rfl
  have hfresh : ([default, ⟨.ofNat 1⟩] : List TokenId).Nodup := by decide
  obtain ⟨s, hpath, htable, hcalls, -⟩ :=
    Path.overtaking (e := e) (s := empty) hlist hlist' (hput _) (hput' _) hfresh
  have hthrottled : Relation.ReflTransGen (Throttled e default 2) empty s :=
    throttled_of_length_le (Path.moves hpath) (by rw [hcalls]; exact Nat.le_refl 2)
  have hrefresh : ¬ s.Refreshes default := by
    rintro ⟨j, id, signal, script, x, hj, -⟩
    have hmem := List.mem_of_getElem? hj
    rw [hcalls] at hmem
    simp [empty] at hmem
  refine ⟨e, s, rfl, hthrottled, hrefresh, bounded_overshoot Nat.zero_lt_one hthrottled hrefresh, ?_⟩
  rw [htable]
  rfl

end Traffic

end SessionWarden
