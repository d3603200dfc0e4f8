import Mathlib.Data.List.Nodup
import SessionWarden.Proofs.Session.FreshIdentifiers
import SessionWarden.Proofs.Session.Faultless
/-!
# Users do not interfere

In a serial run without repeated identifiers, what the calls for one user return and which records the user has are the
same as if no call for another user had ever been made. A call for another user leaves the user's records as they
were, and two calls for different users may trade places.
-/

namespace SessionWarden

variable {e : Engine} {rule : TieRule} {t : Table} {records : List Record} {user : UserId}

/-! ### For whom a call acts -/

/-- To whom some records say that an identifier was issued. -/
def owner? (records : List Record) (id : TokenId) : Option UserId := (records.find? fun x => x.id == id).map Record.user

namespace Command

/-- For whom a command acts, if these records were issued: the user who logs in, or the one to whom the presented
identifier was issued. -/
def actor? (records : List Record) : Command → Option UserId
  | .create owner _ _ => some owner
  | .refresh id _ => owner? records id
  | .get id => owner? records id
  | .delete id _ => owner? records id
  | .deleteAll id _ => owner? records id

/-- Whether a command acts for no other user than the given one. -/
def concerns (records : List Record) (user : UserId) (c : Command) : Bool :=
  (c.actor? records).all fun other => other == user

theorem concerns_of_actor {c : Command} (h : c.actor? records = some user) : c.concerns records user = true := by
  simp only [concerns, h, Option.all_some, beq_self_eq_true]

theorem exists_actor_of_not_concerns {c : Command} (h : ¬ c.concerns records user = true) :
    ∃ other, c.actor? records = some other ∧ user ≠ other := by
  cases hactor : c.actor? records with
  | none => simp [concerns, hactor] at h
  | some other =>
    refine ⟨other, rfl, ?_⟩
    rintro rfl
    exact h (concerns_of_actor hactor)

theorem confined_of_concerns {c : Command} (h : c.concerns records user = true)
    (hid : ∀ id, (owner? records id).all (· == user) = true → t.Reserves user id) : c.Confined user t := by
  cases c with
  | create owner signal persistent =>
    have howner : owner = user := by simpa [concerns, actor?] using h
    exact howner
  | refresh id signal => exact hid id h
  | get id => exact hid id h
  | delete id signal => exact hid id h
  | deleteAll id signal => exact hid id h

/-- A command that acts for no other user is confined to a user where only records are stored that were issued. -/
theorem confined_of_issued {c : Command} (h : c.concerns records user = true)
    (hnodup : (records.map Record.id).Nodup) (hissued : ∀ z ∈ t.records, z ∈ records) : c.Confined user t := by
  refine confined_of_concerns h fun id hid z hz hzid => ?_
  obtain ⟨y, hy⟩ : ∃ y, records.find? (fun x => x.id == id) = some y := by
    rw [← Option.isSome_iff_exists, List.find?_isSome]
    exact ⟨z, hissued z hz, by rw [hzid, beq_self_eq_true]⟩
  have hyid : y.id = id := by simpa using List.find?_some hy
  have hsame : y = z :=
    List.inj_on_of_nodup_map hnodup (List.mem_of_find?_eq_some hy) (hissued z hz) (hyid.trans hzid.symm)
  simpa [owner?, hy, hsame] using hid

theorem confined_of_all {c : Command} (h : c.concerns records user = true)
    (hall : ∀ z ∈ t.records, z.user = user) : c.Confined user t :=
  confined_of_concerns h fun _ _ z hz _ => hall z hz

end Command

/-- The calls among some that act for no other user than the given one. -/
def ServedCall.concerning {S : Type} (records : List Record) (user : UserId) (run : List (ServedCall S)) :
    List (ServedCall S) := run.filter fun x => x.command.concerns records user

theorem ServedCall.concerning_append {S : Type} (records : List Record) (user : UserId)
    (first rest : List (ServedCall S)) :
    concerning records user (first ++ rest) = concerning records user first ++ concerning records user rest :=
  List.filter_append _ _

/-! ### Runs with fixed replies -/

namespace FixedReplies

def ids (run : List (ServedCall FixedReplies)) : List TokenId := run.map fun x => x.given.id

theorem nodup_ids_of_prefix {first run : List (ServedCall FixedReplies)} (h : (ids run).Nodup)
    (hfirst : first <+: run) : (ids first).Nodup := h.sublist (hfirst.sublist.map _)

theorem ids_eq_of_plan {run run' : List (ServedCall FixedReplies)}
    (h : run.map ServedCall.plan = run'.map ServedCall.plan) : ids run = ids run' := by
  have hids := congrArg (List.map fun p => p.2.id) h
  rw [List.map_map, List.map_map] at hids
  exact hids

theorem exists_serve_met (e : Engine) (rule : TieRule) (c : Command) (o : FixedReplies) (t : Table) :
    ∃ events r after, (e.serve c).Runs t events r after ∧ o.Met rule events :=
  (e.serve c).run.exists_run_within rule o 0 t

theorem nodup_drawn {run : List (ServedCall FixedReplies)} (h : SerialRun e (Met rule) run)
    (hfresh : (ids run).Nodup) : (ServedCall.drawn run).Nodup :=
  hfresh.sublist (h.drawn_sublist fun _ _ _ hmet hmint => (hmet.of_mem hmint).choose_spec)

end FixedReplies

namespace SerialRun

open ServedCall (concerning plan stored table)
open FixedReplies (Met ids)

/-- Whether one run is what another comes to without the calls that act for others than a user. -/
structure PartFor (e : Engine) (rule : TieRule) (run : List (ServedCall FixedReplies)) (user : UserId)
    (part : List (ServedCall FixedReplies)) : Prop where
  serial : SerialRun e (Met rule) part
  plan_eq : part.map plan = (concerning (stored run) user run).map plan

variable {first run part before : List (ServedCall FixedReplies)} {x y x' y' : ServedCall FixedReplies} {c : Command}
  {other : UserId}

/-! ### The part of a run -/

theorem confined_of_prefix (h : SerialRun e (Met rule) run) (hfresh : (ids run).Nodup) (hfirst : first <+: run)
    (hc : c.concerns (stored run) user = true) : c.Confined user (table first) :=
  Command.confined_of_issued hc (h.nodup_stored (FixedReplies.nodup_drawn h hfresh)) fun _ hz =>
    ServedCall.mem_stored_of_prefix hfirst ((h.of_prefix hfirst).mem_stored hz)

theorem untouched (h : SerialRun e (Met rule) run) (hfresh : (ids run).Nodup) (hfirst : first ++ [x] <+: run)
    (hactor : x.command.actor? (stored run) = some other) (hne : user ≠ other) :
    x.after.ownedBy user = (table first).ownedBy user := by
  have hconfined : x.command.Confined other (table first) :=
    h.confined_of_prefix hfresh ((List.prefix_append _ _).trans hfirst) (Command.concerns_of_actor hactor)
  have hdrawn := FixedReplies.nodup_drawn (h.of_prefix hfirst) (FixedReplies.nodup_ids_of_prefix hfresh hfirst)
  exact (h.of_prefix hfirst).ownedBy_of_ne hdrawn hconfined hne

theorem user_eq (h : SerialRun e (Met rule) part) (hfresh : (ids part).Nodup)
    (hpart : ∀ x ∈ part, x.command.concerns records user = true) : ∀ z ∈ (table part).records, z.user = user := by
  induction part using List.reverseRecOn with
  | nil =>
    intro z hz
    cases hz
  | append_singleton part x ih =>
    intro z hz
    obtain ⟨hbefore, -, -⟩ := concat_iff.mp h
    have hall := ih hbefore (FixedReplies.nodup_ids_of_prefix hfresh (List.prefix_append _ _)) fun y hy =>
      hpart y (List.mem_append_left _ hy)
    have hconfined : x.command.Confined user (table part) := Command.confined_of_all (hpart x (by simp)) hall
    rw [ServedCall.table_concat] at hz
    have hmem : z ∈ x.after.ownedBy z.user := Table.mem_ownedBy.mpr ⟨hz, rfl⟩
    -- a record of another user would have been there before the last call
    by_contra hne
    rw [h.ownedBy_of_ne (FixedReplies.nodup_drawn h hfresh) hconfined hne] at hmem
    exact hne (hall z (Table.mem_ownedBy.mp hmem).1)

/-- Two calls with one plan, for one user and on tables that agree on the user, come to the same. -/
theorem same_of_plan (h : SerialRun e (Met rule) (first ++ [x])) (h' : SerialRun e (Met rule) (part ++ [x']))
    (hplan : x'.plan = x.plan)
    (hx : x.command.Confined user (table first)) (hx' : x.command.Confined user (table part))
    (hagree : (table part).ownedBy user = (table first).ownedBy user) :
    x'.result = x.result ∧ x'.after.ownedBy user = x.after.ownedBy user := by
  obtain ⟨-, hrun, hfix⟩ := concat_iff.mp h
  obtain ⟨-, hrun', hfix'⟩ := concat_iff.mp h'
  obtain ⟨hcommand, hgiven⟩ := Prod.mk.inj hplan
  rw [hcommand] at hrun'
  rw [hgiven] at hfix'
  have hsame := (hx'.serve e).eq_of_runs (hx.serve e) (Table.only_eq_iff.mpr hagree) hrun' hrun hfix' hfix
  exact ⟨hsame.1, Table.only_eq_iff.mp hsame.2⟩

theorem concerns_of_plan (hplan : part.map plan = (concerning records user first).map plan) :
    ∀ z ∈ part, z.command.concerns records user = true := by
  intro z hz
  have hmem : z.plan ∈ (concerning records user first).map plan := hplan ▸ List.mem_map_of_mem hz
  obtain ⟨w, hw, hwz⟩ := List.mem_map.mp hmem
  have hcommand : w.command = z.command := (Prod.mk.inj hwz).1
  exact hcommand ▸ (List.mem_filter.mp hw).2

/-- Up to any moment of a run, a course of the calls that act for no other user returns what they return in the run,
and leaves the user's records of the run. -/
theorem agree (h : SerialRun e (Met rule) run) (hfresh : (ids run).Nodup) (hfirst : first <+: run)
    (hpart : SerialRun e (Met rule) part)
    (hplan : part.map plan = (concerning (stored run) user first).map plan) :
    part.map (·.result) = (concerning (stored run) user first).map (·.result) ∧
      (table part).ownedBy user = (table first).ownedBy user := by
  induction first using List.reverseRecOn generalizing part with
  | nil =>
    have hnil : part = [] := List.map_eq_nil_iff.mp hplan
    rw [hnil]
    exact ⟨rfl, rfl⟩
  | append_singleton first x ih =>
    have hbefore : first <+: run := (List.prefix_append _ _).trans hfirst
    rw [ServedCall.concerning_append] at hplan ⊢
    by_cases hx : x.command.concerns (stored run) user = true
    · -- the call is the last of the part too
      have hone : concerning (stored run) user [x] = [x] := List.filter_eq_self.mpr (by simpa using hx)
      rw [hone, List.map_append, List.map_eq_append_iff] at hplan
      obtain ⟨part, last, rfl, hearly, hend⟩ := hplan
      obtain ⟨y, rfl, hy⟩ := List.map_eq_singleton_iff.mp hend
      have hold : SerialRun e (Met rule) part := (concat_iff.mp hpart).1
      obtain ⟨hresults, hagree⟩ := ih hbefore hold hearly
      have hids : (ids part).Nodup := by
        rw [FixedReplies.ids_eq_of_plan hearly]
        exact (FixedReplies.nodup_ids_of_prefix hfresh hbefore).sublist (List.filter_sublist.map _)
      have hsame := same_of_plan (h.of_prefix hfirst) hpart hy (h.confined_of_prefix hfresh hbefore hx)
        (Command.confined_of_all hx (hold.user_eq hids (concerns_of_plan hearly))) hagree
      rw [hone, List.map_append, List.map_append, hresults, ServedCall.table_concat, ServedCall.table_concat]
      exact ⟨congrArg _ (congrArg (fun r => [r]) hsame.1), hsame.2⟩
    · -- the call is not in the part, and the user does not notice it
      have hnil : concerning (stored run) user [x] = [] := List.filter_eq_nil_iff.mpr (by simpa using hx)
      rw [hnil, List.append_nil] at hplan ⊢
      obtain ⟨other, hactor, hne⟩ := Command.exists_actor_of_not_concerns hx
      rw [ServedCall.table_concat, h.untouched hfresh hfirst hactor hne]
      exact ih hbefore hpart hplan

/-! ### Calls that trade places -/

section Swap

variable (h : SerialRun e (Met rule) run) (hfresh : (ids run).Nodup) (hpair : before ++ [x] ++ [y] <+: run)
  (hx : x.command.actor? (stored run) = some user) (hy : y.command.actor? (stored run) = some other)
  (hne : user ≠ other)
include h hfresh hpair hx hy hne

/-- The second of two calls for different users, when it comes first instead, returns the same and leaves the same to
its user. It takes nothing from others, and stores what is issued in the run. -/
theorem moved_front (h' : SerialRun e (Met rule) (before ++ [y'])) (hfresh' : (ids (before ++ [y'])).Nodup)
    (hplan : y'.plan = y.plan) :
    y'.result = y.result ∧ y'.after.ownedBy other = y.after.ownedBy other ∧
      (∀ v, v ≠ other → y'.after.ownedBy v = (table before).ownedBy v) ∧
      ∀ z ∈ y'.after.records, z ∈ stored run := by
  have hfirst : before ++ [x] <+: run := (List.prefix_append _ _).trans hpair
  have hbefore : before <+: run := (List.prefix_append _ _).trans hfirst
  have hconcerns := Command.concerns_of_actor hy
  have hstart : y.command.Confined other (table before) := h.confined_of_prefix hfresh hbefore hconcerns
  have hsame : y'.result = y.result ∧ y'.after.ownedBy other = y.after.ownedBy other := by
    refine same_of_plan (h.of_prefix hpair) h' hplan (h.confined_of_prefix hfresh hfirst hconcerns) hstart ?_
    rw [ServedCall.table_concat, h.untouched hfresh hfirst hx hne.symm]
  have hcommand : y'.command = y.command := (Prod.mk.inj hplan).1
  have huntouched : ∀ v, v ≠ other → y'.after.ownedBy v = (table before).ownedBy v := fun v hv =>
    h'.ownedBy_of_ne (FixedReplies.nodup_drawn h' hfresh') (hcommand ▸ hstart) hv
  refine ⟨hsame.1, hsame.2, huntouched, fun z hz => ?_⟩
  have howned : z ∈ y'.after.ownedBy z.user := Table.mem_ownedBy.mpr ⟨hz, rfl⟩
  by_cases huser : z.user = other
  · rw [huser, hsame.2] at howned
    have hmem : z ∈ (table (before ++ [x] ++ [y])).records := by
      rw [ServedCall.table_concat]
      exact (Table.mem_ownedBy.mp howned).1
    exact ServedCall.mem_stored_of_prefix hpair ((h.of_prefix hpair).mem_stored hmem)
  · rw [huntouched z.user huser] at howned
    exact ServedCall.mem_stored_of_prefix hbefore ((h.of_prefix hbefore).mem_stored (Table.mem_ownedBy.mp howned).1)

/-- Two calls for different users, one after the other, return and leave the same in either order. -/
theorem swapped (h' : SerialRun e (Met rule) (before ++ [y'] ++ [x'])) (hxplan : x'.plan = x.plan)
    (hyplan : y'.plan = y.plan) :
    x'.result = x.result ∧ y'.result = y.result ∧ ∀ v, x'.after.ownedBy v = y.after.ownedBy v := by
  have hfirst : before ++ [x] <+: run := (List.prefix_append _ _).trans hpair
  have hbefore : before <+: run := (List.prefix_append _ _).trans hfirst
  have hfresh' : (ids (before ++ [y'] ++ [x'])).Nodup := by
    have hplans : (before ++ [y'] ++ [x']).map plan = (before ++ [y] ++ [x]).map plan := by
      simp [hxplan, hyplan]
    have hperm : (before ++ [y] ++ [x]).Perm (before ++ [x] ++ [y]) := by
      rw [List.append_assoc, List.append_assoc]
      exact (List.Perm.swap _ _ []).append_left _
    rw [FixedReplies.ids_eq_of_plan hplans]
    exact (hperm.map _).nodup_iff.mpr (FixedReplies.nodup_ids_of_prefix hfresh hpair)
  obtain ⟨hyresult, hyowned, hyuntouched, hissued⟩ := moved_front h hfresh hpair hx hy hne (concat_iff.mp h').1
    (FixedReplies.nodup_ids_of_prefix hfresh' (List.prefix_append _ _)) hyplan
  have hconcerns := Command.concerns_of_actor hx
  have hconfined : x.command.Confined user (table (before ++ [y'])) := by
    rw [ServedCall.table_concat]
    exact Command.confined_of_issued hconcerns (h.nodup_stored (FixedReplies.nodup_drawn h hfresh)) hissued
  have hxsame : x'.result = x.result ∧ x'.after.ownedBy user = x.after.ownedBy user := by
    refine same_of_plan (h.of_prefix hfirst) h' hxplan (h.confined_of_prefix hfresh hbefore hconcerns) hconfined ?_
    rw [ServedCall.table_concat, hyuntouched user hne]
  have hcommand : x'.command = x.command := (Prod.mk.inj hxplan).1
  have hxuntouched : ∀ v, v ≠ user → x'.after.ownedBy v = y'.after.ownedBy v := by
    intro v hv
    rw [h'.ownedBy_of_ne (FixedReplies.nodup_drawn h' hfresh') (hcommand ▸ hconfined) hv, ServedCall.table_concat]
  have hlast : ∀ v, v ≠ other → y.after.ownedBy v = x.after.ownedBy v := by
    intro v hv
    rw [h.untouched hfresh hpair hy hv, ServedCall.table_concat]
  -- each of the two users has what the call for that user left, and all others have what was there before
  refine ⟨hxsame.1, hyresult, fun v => ?_⟩
  by_cases hvuser : v = user
  · rw [hvuser, hxsame.2, hlast user hne]
  · rw [hxuntouched v hvuser]
    by_cases hvother : v = other
    · rw [hvother, hyowned]
    · rw [hyuntouched v hvother, hlast v hvother, h.untouched hfresh hfirst hx hvuser]

end Swap

/-! ### A run and its part -/

/-- In a run without repeated identifiers, the calls that act for a user return what they return when all calls for
other users are left out, and the user's records are at every moment what they are then. A call for another user
leaves the user's records as they were, and calls for different users may trade places. -/
theorem isolated (h : SerialRun e (Met rule) run) (hfresh : (ids run).Nodup) (user : UserId) :
    (∃ part, PartFor e rule run user part) ∧
    (∀ part, PartFor e rule run user part →
      part.map (·.result) = (concerning (stored run) user run).map (·.result) ∧
      ∀ before rest, run = before ++ rest → (table before).ownedBy user =
        (table (part.take (concerning (stored run) user before).length)).ownedBy user) ∧
    (∀ before x rest other, run = before ++ x :: rest → x.command.actor? (stored run) = some other →
      user ≠ other → x.after.ownedBy user = (table before).ownedBy user) ∧
    (∀ before x y rest other, run = before ++ x :: y :: rest → x.command.actor? (stored run) = some user →
      y.command.actor? (stored run) = some other → user ≠ other →
      (∃ y' x', SerialRun e (Met rule) (before ++ [y'] ++ [x']) ∧ y'.plan = y.plan ∧ x'.plan = x.plan) ∧
      ∀ y' x', SerialRun e (Met rule) (before ++ [y'] ++ [x']) → y'.plan = y.plan → x'.plan = x.plan →
        x'.result = x.result ∧ y'.result = y.result ∧ ∀ v, x'.after.ownedBy v = y.after.ownedBy v) := by
  refine ⟨?_, ?_, ?_, ?_⟩
  · obtain ⟨part, hpart, hplan⟩ := exists_of_plan (FixedReplies.exists_serve_met e rule)
      ((concerning (stored run) user run).map plan)
    exact ⟨part, hpart, hplan⟩
  · rintro part ⟨hpart, hplan⟩
    refine ⟨(h.agree hfresh List.prefix_rfl hpart hplan).1, ?_⟩
    rintro before rest hrun
    have hsplit : part.map plan = (concerning (stored run) user before).map plan ++
        (concerning (stored run) user rest).map plan := by
      rw [hplan, ← List.map_append, ← ServedCall.concerning_append, ← hrun]
    obtain ⟨early, late, rfl, hearly, -⟩ := List.map_eq_append_iff.mp hsplit
    have hlength : early.length = (concerning (stored run) user before).length := by
      have hlengths := congrArg List.length hearly
      rwa [List.length_map, List.length_map] at hlengths
    rw [← hlength, List.take_left]
    exact (h.agree hfresh ⟨rest, hrun.symm⟩ (hpart.of_prefix (List.prefix_append _ _)) hearly).2.symm
  · intro before x rest other hrun hactor hne
    exact h.untouched hfresh ⟨rest, by simp [hrun]⟩ hactor hne
  · intro before x y rest other hrun hx hy hne
    have hpair : before ++ [x] ++ [y] <+: run := ⟨rest, by simp [hrun]⟩
    refine ⟨?_, fun y' x' h' hyplan hxplan => swapped h hfresh hpair hx hy hne h' hxplan hyplan⟩
    have hbefore : SerialRun e (Met rule) before := h.of_prefix ⟨x :: y :: rest, hrun.symm⟩
    obtain ⟨y', hy', hyplan⟩ := hbefore.exists_concat (FixedReplies.exists_serve_met e rule) y.plan
    obtain ⟨x', hx', hxplan⟩ := hy'.exists_concat (FixedReplies.exists_serve_met e rule) x.plan
    exact ⟨y', x', hx', hyplan, hxplan⟩

theorem isolated_of_sample : ∃ x y, SerialRun Engine.sample (Met default) [x, y] ∧ (ids [x, y]).Nodup ∧
    x.command = .create default [] true ∧ y.command = .create ⟨.ofNat 1⟩ [] true ∧
    x.after.ownedBy default = [Record.sample] ∧ y.after.ownedBy default = [Record.sample] ∧
    ∃ part, PartFor Engine.sample default [x, y] default part := by
  obtain ⟨run, hcourse, hplan⟩ := exists_of_plan (FixedReplies.exists_serve_met Engine.sample default)
    [(.create default [] true, FaultFree.sample.fixed),
      (.create ⟨.ofNat 1⟩ [] true, { FaultFree.sample with id := ⟨.ofNat 1⟩ }.fixed)]
  obtain ⟨x, rest, rfl, hx, hrest⟩ := List.map_eq_cons_iff.mp hplan
  obtain ⟨y, rest, rfl, hy, hnil⟩ := List.map_eq_cons_iff.mp hrest
  obtain rfl := List.map_eq_nil_iff.mp hnil
  obtain ⟨hxcommand, hxaround⟩ := Prod.mk.inj hx
  obtain ⟨hycommand, hyaround⟩ := Prod.mk.inj hy
  have hfresh : (ids [x, y]).Nodup := by
    have hids : ids [x, y] = [default, ⟨.ofNat 1⟩] := by
      simp only [FixedReplies.ids, List.map_cons, List.map_nil, hxaround, hyaround]
      rfl
    rw [hids]
    decide
  obtain ⟨hpart, -, huntouched, -⟩ := isolated hcourse hfresh default
  have hyafter : y.after.ownedBy default = x.after.ownedBy default := by
    refine huntouched [x] y [] ⟨.ofNat 1⟩ rfl ?_ (by decide)
    rw [hycommand]
    rfl
  have hxafter : x.after.ownedBy default = [Record.sample] := by
    have hfirst : SerialRun Engine.sample (Met default) ([] ++ [x]) := hcourse.of_prefix ⟨[y], rfl⟩
    obtain ⟨-, hrun, hfix⟩ := concat_iff.mp hfirst
    rw [hxcommand] at hrun
    rw [hxaround] at hfix
    have hfits : ∀ ev ∈ x.events, ev.Fits FaultFree.sample := by
      intro ev hev
      obtain ⟨n, hwithin⟩ := hfix.of_mem hev
      exact hwithin.fits
    obtain ⟨s, hopen, -⟩ := Action.runs_map.mp hrun
    obtain ⟨found, hfound, -, -, hafter⟩ := (runs_open hopen).of_fits hfits rfl rfl
    obtain rfl : found = [] := hfound.eq_nil
    rw [hafter]
    rfl
  exact ⟨x, y, hcourse, hfresh, hxcommand, hycommand, hxafter, hyafter.trans hxafter, hpart⟩

end SerialRun

end SessionWarden
