import SessionWarden.Proofs.Session.Closing
import SessionWarden.Proofs.Session.FailedRefresh
/-!
# A renewal that overtakes a closing

A closing has read a record and not yet removed anything, and a renewal of the same record has taken it out: from there
each goes on whatever the other does. This is how two calls are run that overtake each other.
-/

namespace SessionWarden

variable {t : Table}

/-! ### Two halves of a call -/

/-- A closing that has found its record removes what it removes whatever has become of the table. -/
theorem Engine.exists_closing_halves (e : Engine) {c : Command} {id : TokenId} {signal : Bytes}
    {removal : Record → Event} {x : Record} {time : Instant} (hc : c.closing? = some (id, signal, removal))
    (hget : t.get id = some x) (hsignal : fingerprint x.user signal = x.fingerprint) (hlive : ¬ x.expires < time) :
    ∃ rest m n,
      (e.serve c).run.Reaches t [⟨.enter .getById, .ok ()⟩, ⟨.table (.get id), some x⟩, ⟨.now, time⟩] rest t ∧
      ∀ mid after, mid.Answers (removal x).query (removal x).reply after →
        rest.Runs mid [⟨.enter m, .ok ()⟩, removal x, ⟨.note n, ()⟩] (.ok .done) after := by
  obtain rfl : x.id = id := (Table.get_eq_some_iff.mp hget).2
  have hlook := Script.Runs.reaches (runs_findBound_bound hget hsignal hlive)
  cases c with
  | delete id signal =>
    cases hc
    refine ⟨_, .deleteById, .sessionDeleted x.user x.id, (hlook.bind _).bind _, fun mid after hanswer => ?_⟩
    exact ⟨.ok (), mid, _, rfl, rfl, (), after, _, rfl, hanswer, (), after, [], rfl, rfl, rfl, rfl, rfl⟩
  | deleteAll id signal =>
    cases hc
    refine ⟨_, .deleteByUser, .allSessionsDeleted x.user, (hlook.bind _).bind _, fun mid after hanswer => ?_⟩
    exact ⟨.ok (), mid, _, rfl, rfl, (), after, _, rfl, hanswer, (), after, [], rfl, rfl, rfl, rfl, rfl⟩
  | create user signal persistent => cases hc
  | refresh id signal => cases hc
  | get id => cases hc

theorem runs_issueAccess_issued {e : Engine} {x : Record} {roles : List Role} {time : Instant} {claims : Claims}
    (hclaims : e.claimsAt time x roles = .ok claims) (signature : Bytes) :
    (e.issueAccess x).Runs t
      [⟨.enter .roles, .ok ()⟩, ⟨.roles x.user, roles⟩, ⟨.enter .build, .ok ()⟩, ⟨.now, time⟩,
        ⟨.sign e.issuer.signer (Issuer.message e.issuer.algorithm claims), Base64.urlBare.encode signature⟩]
      (.ok (Issuer.join (Issuer.message e.issuer.algorithm claims) (Base64.urlBare.encode signature))) t := by
  refine ⟨.ok (), t, _, rfl, rfl, roles, t, _, rfl, rfl, .ok (), t, _, rfl, rfl, time, t, _, rfl, rfl, ?_⟩
  show (e.signed (e.claimsAt time x roles)).Runs _ _ _ _
  rw [hclaims]
  exact ⟨_, t, [], rfl, ⟨⟨signature, rfl⟩, rfl⟩, rfl, rfl, rfl⟩

open SessionWarden.Action (runs_bind) in
/-- A renewal that has taken its record out stores the successor whatever has become of the table. -/
theorem Engine.exists_renewal_halves (e : Engine) {id fresh : TokenId} {signal : Bytes} {old new : Record}
    {time : Instant} {claims : Claims} (hget : t.get id = some old)
    (hsignal : fingerprint old.user signal = old.fingerprint) (hlive : ¬ old.expires < time)
    (hnew : e.recordAt? time fresh old.user signal old.persistent = some new)
    (hclaims : e.claimsAt time new [] = .ok claims) :
    ∃ rest n access signer text signature,
      (e.serve (.refresh id signal)).run.Reaches t
        [⟨.enter .getById, .ok ()⟩, ⟨.table (.get id), some old⟩, ⟨.now, time⟩, ⟨.now, time⟩, ⟨.mint, fresh⟩,
          ⟨.now, time⟩, ⟨.enter .rotate, .ok ()⟩, ⟨.rotationTime id time, time⟩, ⟨.table (.removeLive id time), true⟩]
        rest (t.remove id) ∧
      ∀ mid, rest.Runs mid
        [⟨.table (.insert new), ()⟩, ⟨.enter .roles, .ok ()⟩, ⟨.roles new.user, []⟩, ⟨.enter .build, .ok ()⟩,
          ⟨.now, time⟩, ⟨.sign signer text, signature⟩, ⟨.note n, ()⟩]
        (.ok (.pair ⟨access, new⟩)) (mid.insert new) := by
  obtain rfl : old.id = id := (Table.get_eq_some_iff.mp hget).2
  have hlook := runs_findBound_bound hget hsignal hlive
  have hmake := runs_newRecord_made (t := t) hnew
  have hremove : t.Answers (.table (.removeLive old.id time)) true (t.remove old.id) := by
    rcases removeLive_cases t old.id time with ⟨hexpired, -⟩ | ⟨x, -, -, hperform⟩
    · exact absurd (hexpired old hget) hlive
    · exact ⟨(congrArg Prod.fst hperform).symm, (congrArg Prod.snd hperform).symm⟩
  have hrotate : (Repository.rotate old.id time new).run.Reaches t
      [⟨.enter .rotate, .ok ()⟩, ⟨.rotationTime old.id time, time⟩, ⟨.table (.removeLive old.id time), true⟩]
      (.ask (.table (.insert new)) fun _ => .done (.ok (some new))) (t.remove old.id) :=
    .step (.enter .rotate) _ t (.ok ()) t _ _ _ rfl (.step (.rotationTime old.id time) _ t time t _ _ _ rfl
      (.step (.table (.removeLive old.id time)) _ t true _ _ _ _ hremove (.refl _ _)))
  obtain ⟨rest, hreach, hrest⟩ : ∃ rest, (e.refresh old.id signal).run.Reaches t
        ([⟨.enter .getById, .ok ()⟩, ⟨.table (.get old.id), some old⟩, ⟨.now, time⟩] ++
          ([⟨.now, time⟩, ⟨.mint, fresh⟩] ++ (⟨.now, time⟩ :: [⟨.enter .rotate, .ok ()⟩,
            ⟨.rotationTime old.id time, time⟩, ⟨.table (.removeLive old.id time), true⟩]))) rest (t.remove old.id) ∧
      ∀ mid issue access, (e.issueAccess new).Runs (mid.insert new) issue (.ok access) (mid.insert new) →
        rest.Runs mid
          (⟨.table (.insert new), ()⟩ :: (issue ++ [⟨.note (.tokenRotated old.user old.id new.id), ()⟩]))
          (.ok ⟨access, new⟩) (mid.insert new) := by
    refine ⟨_, hlook.reaches_bind (hmake.reaches_bind (.step .now _ t time t _ _ _ rfl (hrotate.bind _))), ?_⟩
    intro mid issue access hissue
    exact ⟨(), mid.insert new, _, rfl, ⟨rfl, rfl⟩, runs_bind.mpr (Or.inl ⟨issue, _, access, _, hissue,
      ⟨(), _, [], rfl, rfl, rfl, rfl, rfl⟩, rfl⟩)⟩
  exact ⟨_, _, _, _, _, _, hreach.bind _, fun mid => Script.runs_bind.mpr ⟨_, [], _, mid.insert new,
    hrest mid _ _ (runs_issueAccess_issued hclaims []), ⟨rfl, rfl, rfl⟩, rfl⟩⟩

open SessionWarden.Action (runs_bind runs_map runs_entered runs_query) in
theorem runs_evictForCapacity_roomy {e : Engine} {user : UserId} {found : List Record}
    (hfound : found.Perm (t.ownedBy user)) (hroom : found.length < e.params.refreshCap) :
    (e.evictForCapacity user).Runs t [⟨.enter .getByUser, .ok ()⟩, ⟨.table (.ownedBy user), found⟩] (.ok ()) t := by
  have hget : (Repository.getByUser user).Runs t
      [⟨.enter .getByUser, .ok ()⟩, ⟨.table (.ownedBy user), found⟩] (.ok (Repository.byExpiry found)) t := by
    refine runs_entered.mpr (Or.inl ⟨_, rfl, runs_map.mpr ⟨.ok found, ?_, rfl⟩⟩)
    exact runs_query.mpr ⟨found, rfl, rfl, hfound, rfl⟩
  refine runs_bind.mpr (Or.inl ⟨_, [], _, t, hget, ?_, rfl⟩)
  show Action.Runs (if (Repository.byExpiry found).length < e.params.refreshCap then pure () else _) _ _ _ _
  rw [if_pos (by rw [Repository.length_byExpiry]; exact hroom)]
  exact ⟨rfl, rfl, rfl⟩

open SessionWarden.Action (runs_bind) in
theorem Engine.exists_opening_halves (e : Engine) {user : UserId} {signal : Bytes} {persistent : Bool}
    {found : List Record} {fresh : TokenId} {new : Record} {time : Instant} {claims : Claims}
    (hfound : found.Perm (t.ownedBy user)) (hroom : found.length < e.params.refreshCap)
    (hnew : e.recordAt? time fresh user signal persistent = some new) (hclaims : e.claimsAt time new [] = .ok claims) :
    ∃ rest n access signer text signature,
      (e.serve (.create user signal persistent)).run.Reaches t
        [⟨.enter .getByUser, .ok ()⟩, ⟨.table (.ownedBy user), found⟩] rest t ∧
      ∀ mid, rest.Runs mid
        [⟨.now, time⟩, ⟨.mint, fresh⟩, ⟨.enter .create, .ok ()⟩, ⟨.table (.insert new), ()⟩, ⟨.enter .roles, .ok ()⟩,
          ⟨.roles new.user, []⟩, ⟨.enter .build, .ok ()⟩, ⟨.now, time⟩, ⟨.sign signer text, signature⟩, ⟨.note n, ()⟩]
        (.ok (.pair ⟨access, new⟩)) (mid.insert new) := by
  have hscan := Script.Runs.reaches (runs_evictForCapacity_roomy hfound hroom)
  have hput : ∀ mid : Table, (Repository.create new).Runs mid
      [⟨.enter .create, .ok ()⟩, ⟨.table (.insert new), ()⟩] (.ok new) (mid.insert new) := fun mid =>
    ⟨.ok (), mid, _, rfl, rfl, (), mid.insert new, [], rfl, ⟨rfl, rfl⟩, rfl, rfl, rfl⟩
  obtain ⟨rest, hreach, hrest⟩ : ∃ rest, (e.create user signal persistent).run.Reaches t
        [⟨.enter .getByUser, .ok ()⟩, ⟨.table (.ownedBy user), found⟩] rest t ∧
      ∀ mid issue access, (e.issueAccess new).Runs (mid.insert new) issue (.ok access) (mid.insert new) →
        rest.Runs mid ([⟨.now, time⟩, ⟨.mint, fresh⟩] ++ ([⟨.enter .create, .ok ()⟩, ⟨.table (.insert new), ()⟩] ++
          (issue ++ [⟨.note (.sessionCreated user new.id persistent), ()⟩]))) (.ok ⟨access, new⟩) (mid.insert new) := by
    refine ⟨_, hscan.bind _, fun mid issue access hissue => ?_⟩
    refine runs_bind.mpr (Or.inl ⟨_, _, new, mid, runs_newRecord_made hnew, ?_, rfl⟩)
    refine runs_bind.mpr (Or.inl ⟨_, _, new, mid.insert new, hput mid, ?_, rfl⟩)
    exact runs_bind.mpr (Or.inl ⟨issue, _, access, _, hissue, ⟨(), _, [], rfl, rfl, rfl, rfl, rfl⟩, rfl⟩)
  exact ⟨_, _, _, _, _, _, hreach.bind _, fun mid => Script.runs_bind.mpr ⟨_, [], _, mid.insert new,
    hrest mid _ _ (runs_issueAccess_issued hclaims []), ⟨rfl, rfl, rfl⟩, rfl⟩⟩

/-! ### Two calls that overtake each other -/

namespace Traffic

/-- One of the calls in flight may ask some of its questions before any other takes a step. -/
theorem Path.of_reaches_among {e : Engine} (calls others : List Call) (c : Command)
    {script rest : Script (Except AuthError Outcome)} {t mid : Table} {events : List Event}
    (history : List (Nat × Event)) (h : script.Reaches t events rest mid)
    (hfresh : ((history.filterMap fun x => x.2.drawn?) ++ events.filterMap Event.drawn?).Nodup) :
    Path e ⟨t, calls ++ ⟨c, script⟩ :: others, history⟩
      ⟨mid, calls ++ ⟨c, rest⟩ :: others, history ++ events.map fun ev => (calls.length, ev)⟩ := by
  have hget : (calls ++ ⟨c, script⟩ :: others)[calls.length]? = some ⟨c, script⟩ := by simp
  have hpath := Path.of_reaches (e := e) (s := ⟨t, calls ++ ⟨c, script⟩ :: others, history⟩) hget h hfresh
  simpa using hpath

/-- Two calls arrive. The first comes halfway, then the second does; then the first is served to its end, and the
second after it. -/
theorem Path.overtaking {e : Engine} {s : Traffic} {c d : Command} {rest rest' : Script (Except AuthError Outcome)}
    {first second third fourth : List Event} {t₁ t₂ t₃ t₄ : Table} {r r' : Except AuthError Outcome}
    (h₁ : (e.serve c).run.Reaches s.table first rest t₁) (h₂ : (e.serve d).run.Reaches t₁ second rest' t₂)
    (h₃ : rest.Runs t₂ third r t₃) (h₄ : rest'.Runs t₃ fourth r' t₄)
    (hfresh : (s.drawn ++ (first ++ (second ++ (third ++ fourth))).filterMap Event.drawn?).Nodup) :
    ∃ s', Path e s s' ∧ s'.table = t₄ ∧ s'.calls = s.calls ++ [⟨c, .done r⟩, ⟨d, .done r'⟩] ∧
      s'.history = s.history ++ ((first.map fun ev => (s.calls.length, ev)) ++
        ((second.map fun ev => (s.calls.length + 1, ev)) ++
          ((third.map fun ev => (s.calls.length, ev)) ++ fourth.map fun ev => (s.calls.length + 1, ev)))) := by
  have hdrawn : ∀ (k : Nat) (events : List Event),
      (events.map fun ev => (k, ev)).filterMap (fun x => x.2.drawn?) = events.filterMap Event.drawn? := by
    intro k events
    rw [List.filterMap_map]
    rfl
  simp only [drawn, List.filterMap_append, ← List.append_assoc] at hfresh
  have hfresh₃ := hfresh.sublist (List.sublist_append_left _ _)
  have hfresh₂ := hfresh₃.sublist (List.sublist_append_left _ _)
  have hfresh₁ := hfresh₂.sublist (List.sublist_append_left _ _)
  have harrive : Path e s ⟨s.table, s.calls ++ [⟨c, (e.serve c).run⟩, ⟨d, (e.serve d).run⟩], s.history⟩ := by
    have hlast := Step.arrive (e := e) (s := ⟨s.table, s.calls ++ [⟨c, (e.serve c).run⟩], s.history⟩) d
    rw [List.append_assoc] at hlast
    exact Relation.ReflTransGen.head (.arrive c) (.single hlast)
  have hfirst := Path.of_reaches_among (e := e) s.calls [⟨d, (e.serve d).run⟩] c s.history h₁ hfresh₁
  have hsecond := Path.of_reaches_among (e := e) (s.calls ++ [⟨c, rest⟩]) [] d
    (s.history ++ first.map fun ev => (s.calls.length, ev)) h₂
    (by simpa only [List.filterMap_append, hdrawn] using hfresh₂)
  have hthird := Path.of_reaches_among (e := e) s.calls [⟨d, rest'⟩] c
    (s.history ++ (first.map fun ev => (s.calls.length, ev)) ++ second.map fun ev => (s.calls.length + 1, ev))
    h₃.reaches (by simpa only [List.filterMap_append, hdrawn] using hfresh₃)
  have hfourth := Path.of_reaches_among (e := e) (s.calls ++ [⟨c, .done r⟩]) [] d
    (s.history ++ (first.map fun ev => (s.calls.length, ev)) ++ (second.map fun ev => (s.calls.length + 1, ev)) ++
      third.map fun ev => (s.calls.length, ev))
    h₄.reaches (by simpa only [List.filterMap_append, hdrawn] using hfresh)
  simp only [List.append_assoc, List.singleton_append, List.length_append, List.length_singleton]
    at hsecond hthird hfourth
  exact ⟨_, harrive.trans (hfirst.trans (hsecond.trans (hthird.trans hfourth))), rfl, rfl, rfl⟩

/-! ### A session that can be overtaken -/

theorem Reachable.drawn_nodup {e : Engine} {s : Traffic} (h : Reachable e s) : s.drawn.Nodup := by
  induction h with
  | refl => exact List.nodup_nil
  | @tail s _ _ hstep ih =>
    cases hstep with
    | arrive c => exact ih
    | advance k c q next reply after hcall hanswer hfresh =>
      have hdrawn : drawn ⟨after, s.calls.set k ⟨c, next reply⟩, s.history ++ [(k, ⟨q, reply⟩)]⟩ =
          s.drawn ++ (Event.drawn? ⟨q, reply⟩).toList := by
        simp only [drawn, List.filterMap_append, List.filterMap_cons, List.filterMap_nil]
        cases (Event.drawn? ⟨q, reply⟩) <;> rfl
      rw [hdrawn, List.nodup_append]
      refine ⟨ih, by cases (Event.drawn? ⟨q, reply⟩) <;> simp, ?_⟩
      rintro id hid _ hnew rfl
      exact hfresh id (Option.mem_toList.mp hnew) hid

theorem exists_renewed_sample : ∃ new claims,
    Engine.sample.recordAt? ⟨0⟩ ⟨.ofNat 1⟩ Record.sample.user [] Record.sample.persistent = some new ∧
      Engine.sample.claimsAt ⟨0⟩ new [] = .ok claims ∧ new.id = ⟨.ofNat 1⟩ ∧ new.user = default :=
  ⟨_, _, Engine.sample_renewable.2.2.2, rfl, rfl, rfl⟩

theorem exists_opened_sample : ∃ (s : Traffic) (access : String), Reachable Engine.sample s ∧
    s.table = Table.empty.insert Record.sample ∧
    s.calls = [⟨.create default [] true, .done (.ok (.pair ⟨access, Record.sample⟩))⟩] ∧
    (0, ⟨.table (.insert Record.sample), ()⟩) ∈ s.history ∧ (∀ x ∈ s.history, x.2.consumed? = none) ∧
    ∀ ids : List TokenId, ids.Nodup → default ∉ ids → (s.drawn ++ ids).Nodup := by
  obtain ⟨s, access, hs, htable, hcalls, hfits⟩ := exists_sample
  have hzero : ∀ x ∈ s.history, x.1 = 0 := by
    intro x hx
    have := hs.lt_length x hx
    simp only [hcalls, List.length_singleton] at this
    omega
  refine ⟨s, access, hs, htable, hcalls, ?_, ?_, ?_⟩
  · have hmem : Record.sample ∈ s.table.records := htable ▸ Table.mem_insert.mpr (Or.inl rfl)
    obtain ⟨k, hk⟩ := mem_stored.mp (hs.sound.of_table _ hmem)
    exact hzero _ hk ▸ hk
  · intro x hx
    have hcall : s.calls[0]? = some ⟨.create default [] true, _⟩ := congrArg (·[0]?) hcalls
    have hnone : (s.eventsOf 0).filterMap Event.consumed? = [] := by
      rcases (hs.tidy hcall).consumed with hnone | hids
      · exact hnone
      · exact (Option.some.inj hids).symm
    exact List.filterMap_eq_nil_iff.mp hnone _ (mem_eventsOf.mpr (hzero x hx ▸ hx))
  · intro ids hids hdefault
    rw [List.nodup_append]
    refine ⟨hs.drawn_nodup, hids, ?_⟩
    rintro id hid _ hnew rfl
    obtain ⟨k, hk⟩ := mem_drawn.mp hid
    have hsame : id = default := hfits _ hk
    exact hdefault (hsame ▸ hnew)

/-- Two calls may overtake each other when the session of the small engine is open. -/
theorem exists_overtaking_sample (ids : List TokenId) {c d : Command} {rest rest' : Script (Except AuthError Outcome)}
    {first second third fourth : List Event} {t₁ t₂ t₃ t₄ : Table} {r r' : Except AuthError Outcome}
    (h₁ : (Engine.sample.serve c).run.Reaches (Table.empty.insert Record.sample) first rest t₁)
    (h₂ : (Engine.sample.serve d).run.Reaches t₁ second rest' t₂) (h₃ : rest.Runs t₂ third r t₃)
    (h₄ : rest'.Runs t₃ fourth r' t₄)
    (hdrawn : (first ++ (second ++ (third ++ fourth))).filterMap Event.drawn? = ids) (hnodup : ids.Nodup)
    (hnew : default ∉ ids) :
    ∃ (s s' : Traffic) (access : String), Reachable Engine.sample s ∧ Path Engine.sample s s' ∧
      s.table = Table.empty.insert Record.sample ∧ s'.table = t₄ ∧
      s'.calls = [⟨.create default [] true, .done (.ok (.pair ⟨access, Record.sample⟩))⟩, ⟨c, .done r⟩,
        ⟨d, .done r'⟩] ∧
      (0, ⟨.table (.insert Record.sample), ()⟩) ∈ s.history ∧ (∀ x ∈ s.history, x.2.consumed? = none) ∧
      s'.history = s.history ++ ((first.map fun ev => (1, ev)) ++ ((second.map fun ev => (2, ev)) ++
        ((third.map fun ev => (1, ev)) ++ fourth.map fun ev => (2, ev)))) := by
  obtain ⟨s, access, hs, htable, hcalls, hstored, hunconsumed, hfresh⟩ := exists_opened_sample
  have hlen : s.calls.length = 1 := by rw [hcalls, List.length_singleton]
  rw [← htable] at h₁
  obtain ⟨s', hpath, htable', hcalls', hhistory⟩ := Path.overtaking h₁ h₂ h₃ h₄ (hdrawn ▸ hfresh ids hnodup hnew)
  rw [hlen] at hhistory
  rw [hcalls] at hcalls'
  exact ⟨s, s', access, hs, hpath, htable, htable', hcalls', hstored, hunconsumed, hhistory⟩

/-- In the small engine a renewal may be served from its arrival to its end while a closing of the same session is
between its two moments. -/
theorem exists_overtaken_sample {c : Command} {removal : Record → Event}
    (hc : c.closing? = some (default, [], removal)) (after : Table → Table)
    (hafter : ∀ t : Table, t.Answers (removal Record.sample).query (removal Record.sample).reply (after t)) :
    ∃ s t opened o new, Reachable Engine.sample s ∧ s.Whole ∧
      s.calls = [⟨.create default [] true, .done (.ok opened)⟩, ⟨c, .done (.ok .done)⟩,
        ⟨.refresh default [], .done (.ok o)⟩] ∧
      Record.sample ∈ s.stored ∧ s.Succeeds Record.sample new ∧ new.id = ⟨.ofNat 1⟩ ∧
      s.table = after (Table.insert t new) := by
  obtain ⟨hget, hsignal, hlive, -⟩ := Engine.sample_renewable
  obtain ⟨new, claims, hnew, hclaims, hid, -⟩ := exists_renewed_sample
  obtain ⟨rest, m, n, hlook, hclose⟩ := Engine.exists_closing_halves Engine.sample hc hget hsignal hlive
  obtain ⟨rest', n', access, signer, text, signature, htake, hput⟩ :=
    Engine.exists_renewal_halves Engine.sample hget hsignal hlive hnew hclaims
  have hended : ∀ (r : Except AuthError Outcome) (t : Table), (Script.done r).Runs t [] r t :=
    fun _ _ => ⟨rfl, rfl, rfl⟩
  obtain ⟨s, s', opened, hs, hpath, -, htable, hcalls, hstored, hunconsumed, hhistory⟩ := exists_overtaking_sample
    [⟨.ofNat 1⟩] hlook (htake.runs (hput _)).reaches (hclose _ _ (hafter _)) (hended _ _)
    (by cases c <;> cases hc <;> rfl) (by decide) (by decide)
  simp only [List.map_cons, List.map_nil, List.cons_append, List.nil_append] at hhistory
  have hwhole : s'.Whole := whole_of_append hhistory hunconsumed
    (by cases c <;> cases hc <;> simp [Renews, Event.consumed?, Event.stored?])
  refine ⟨s', _, _, _, new, hs.trans hpath, hwhole, hcalls, ?_, ⟨2, ⟨0⟩, ?_, ?_⟩, hid, htable⟩
  · exact mem_stored.mpr ⟨0, hpath.history_mono _ hstored⟩
  · rw [hhistory]
    simp [Record.sample]
  · rw [hhistory]
    simp

end Traffic

end SessionWarden
