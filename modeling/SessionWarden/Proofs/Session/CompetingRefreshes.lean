import SessionWarden.Proofs.Session.Overtaking
/-!
# Refreshes that compete for one token

Any number of refreshes may present one token and find its record before one of them rotates it. The rotation takes the
record out for good, so that one of them at most returns a pair, and the session goes on in one record only.
-/

namespace SessionWarden

variable {t : Table}

/-! ### A refresh that comes too late -/

theorem runs_rotate_gone {id : TokenId} (hget : t.get id = none) (new : Record) (time : Instant) :
    (Repository.rotate id time new).Runs t
      [⟨.enter .rotate, .ok ()⟩, ⟨.rotationTime id time, time⟩, ⟨.table (.removeLive id time), false⟩]
      (.ok none) t := by
  have hperform : (TableCall.removeLive id time).perform t = (false, t) := by
    rcases removeLive_cases t id time with ⟨-, hperform⟩ | ⟨x, hx, -⟩
    · exact hperform
    · rw [hget] at hx
      cases hx
  refine ⟨.ok (), t, _, rfl, rfl, time, t, _, rfl, rfl, false, t, [], rfl, ?_, rfl, rfl, rfl⟩
  exact ⟨(congrArg Prod.fst hperform).symm, (congrArg Prod.snd hperform).symm⟩

open SessionWarden.Action (runs_bind) in
/-- A refresh that has found its record is refused if the record has gone when it comes to the rotation. -/
theorem Engine.exists_beaten_renewal (e : Engine) {id fresh : TokenId} {signal : Bytes} {old new : Record}
    {time : Instant} (hget : t.get id = some old) (hsignal : fingerprint old.user signal = old.fingerprint)
    (hlive : ¬ old.expires < time) (hnew : e.recordAt? time fresh old.user signal old.persistent = some new) :
    ∃ rest n,
      (e.serve (.refresh id signal)).run.Reaches t
        [⟨.enter .getById, .ok ()⟩, ⟨.table (.get id), some old⟩, ⟨.now, time⟩] rest t ∧
      ∀ mid : Table, mid.get id = none → rest.Runs mid
        [⟨.now, time⟩, ⟨.mint, fresh⟩, ⟨.now, time⟩, ⟨.enter .rotate, .ok ()⟩, ⟨.rotationTime id time, time⟩,
          ⟨.table (.removeLive id time), false⟩, ⟨.now, time⟩, ⟨.note n, ()⟩] (.error .tokenIncorrect) mid := by
  obtain rfl : old.id = id := (Table.get_eq_some_iff.mp hget).2
  have hlook := Script.Runs.reaches (runs_findBound_bound hget hsignal hlive)
  obtain ⟨rest, hreach, hrest⟩ : ∃ rest, (e.refresh old.id signal).run.Reaches t
        [⟨.enter .getById, .ok ()⟩, ⟨.table (.get old.id), some old⟩, ⟨.now, time⟩] rest t ∧
      ∀ mid : Table, mid.get old.id = none → rest.Runs mid
        ([⟨.now, time⟩, ⟨.mint, fresh⟩] ++ (⟨.now, time⟩ :: ([⟨.enter .rotate, .ok ()⟩,
          ⟨.rotationTime old.id time, time⟩, ⟨.table (.removeLive old.id time), false⟩] ++
            [⟨.now, time⟩, ⟨.note (.tokenConsumedConcurrently old.id), ()⟩]))) (.error .tokenIncorrect) mid := by
    refine ⟨_, hlook.bind _, fun mid hgone => ?_⟩
    refine runs_bind.mpr (Or.inl ⟨_, _, new, mid, runs_newRecord_made hnew, ⟨time, mid, _, rfl, rfl, ?_⟩, rfl⟩)
    refine runs_bind.mpr (Or.inl ⟨_, _, none, mid, runs_rotate_gone hgone new time, ⟨time, mid, _, rfl, rfl, ?_⟩, rfl⟩)
    show Script.Runs (if old.isExpiredAt time then _ else _) _ _ _ _
    rw [if_neg (by simpa [Record.isExpiredAt] using hlive)]
    exact ⟨(), mid, [], rfl, rfl, rfl, rfl, rfl⟩
  exact ⟨_, _, hreach.bind _, fun mid hgone =>
    Script.runs_bind.mpr ⟨_, [], _, mid, hrest mid hgone, ⟨rfl, rfl, rfl⟩, rfl⟩⟩

/-! ### Single use -/

namespace Traffic

variable {e : Engine} {s : Traffic}

/-- Refresh tokens are used once, whatever calls are in flight: a session has one record at most in the table
and every record is of a session; an identifier is consumed once, and of the refreshes that present it one at
most returns a pair; an identifier that has left the table never comes back. -/
theorem Reachable.single_use (h : Reachable e s) :
    (∀ x ∈ s.table.records, ∃ root, s.Begun root ∧ s.InSession root x) ∧
    (∀ root, s.Begun root → ∀ x ∈ s.table.records, ∀ y ∈ s.table.records,
      s.InSession root x → s.InSession root y → x = y) ∧
    s.consumed.Nodup ∧
    (∀ (j k : Nat) (id : TokenId) (signal signal' : Bytes) (o o' : Outcome),
      s.calls[j]? = some ⟨.refresh id signal, .done (.ok o)⟩ →
        s.calls[k]? = some ⟨.refresh id signal', .done (.ok o')⟩ → j = k) ∧
    ∀ s' s'' id, Path e s s' → Path e s' s'' → (s.table.get id).isSome → s'.table.get id = none →
      s''.table.get id = none := by
  refine ⟨?_, ?_, h.sound.consumed_nodup, ?_, ?_⟩
  · intro x hx
    exact h.rooted x (h.sound.of_table x hx)
  · intro root _ x hx y hy hxs hys
    exact h.session_eq hx hy hxs hys
  · intro j k id signal signal' o o' hj hk
    obtain ⟨ev, hev, hid⟩ := h.consumed_of_done hj
    obtain ⟨ev', hev', hid'⟩ := h.consumed_of_done hk
    exact congrArg Prod.fst (h.sound.consumed_once hev hev' hid hid')
  · intro s' s'' id hfirst hsecond hin hout
    obtain ⟨x, hx⟩ := Option.isSome_iff_exists.mp hin
    obtain ⟨hmem, hid⟩ := Table.get_eq_some_iff.mp hx
    obtain ⟨k, hk⟩ := mem_stored.mp (h.sound.of_table x hmem)
    have hstored : ∃ x ∈ s'.stored, x.id = id := ⟨x, mem_stored.mpr ⟨k, Path.history_mono hfirst _ hk⟩, hid⟩
    exact Table.get_eq_none_iff.mpr
      (Path.gone (h.trans hfirst) hsecond hstored (Table.get_eq_none_iff.mp hout))

/-- In the small engine a refresh may be served from its arrival to its end after another has found the same record, and
before that one rotates it. -/
theorem exists_contested_sample : ∃ (s s' : Traffic) (access : String) (o : Outcome) (new : Record),
    Reachable Engine.sample s ∧ Path Engine.sample s s' ∧ s.table = Table.empty.insert Record.sample ∧
    s'.calls = [⟨.create default [] true, .done (.ok (.pair ⟨access, Record.sample⟩))⟩,
      ⟨.refresh default [], .done (.ok o)⟩, ⟨.refresh default [], .done (.error .tokenIncorrect)⟩] ∧
    (∀ k ∈ [1, 2], (k, ⟨.table (.get default), some Record.sample⟩) ∈ s'.history) ∧
    s'.table.records = [new] ∧ new.id = ⟨.ofNat 1⟩ ∧ s'.consumed = [default] := by
  obtain ⟨hget, hsignal, hlive, -⟩ := Engine.sample_renewable
  obtain ⟨new, claims, hnew, hclaims, hid, -⟩ := exists_renewed_sample
  have hnew' : Engine.sample.recordAt? ⟨0⟩ ⟨.ofNat 2⟩ Record.sample.user [] Record.sample.persistent =
      some { Record.sample with id := ⟨.ofNat 2⟩ } :=
    Option.map_eq_some_iff.mpr ⟨⟨86400000000000⟩, by decide, by simp only [Record.sample]⟩
  obtain ⟨late, n, hlook, hbeaten⟩ := Engine.exists_beaten_renewal Engine.sample hget hsignal hlive hnew'
  obtain ⟨rest, n', pair, signer, text, signature, htake, hput⟩ :=
    Engine.exists_renewal_halves Engine.sample hget hsignal hlive hnew hclaims
  have hgone : (((Table.empty.insert Record.sample).remove default).insert new).get default = none := by
    refine Table.get_eq_none_iff.mpr fun x hx hx' => ?_
    rcases Table.mem_insert.mp hx with rfl | ⟨hold, -⟩
    · rw [hid] at hx'
      exact absurd hx' (by decide)
    · exact (Table.mem_remove.mp hold).2 hx'
  -- the second refresh has found the record before the first takes its own first step
  obtain ⟨s, s', access, hs, hpath, htable, htable', hcalls, -, hunconsumed, hhistory⟩ := exists_overtaking_sample
    [⟨.ofNat 1⟩, ⟨.ofNat 2⟩] (.refl _ _) hlook (htake.runs (hput _)) (hbeaten _ hgone) rfl (by decide) (by decide)
  simp only [List.map_cons, List.map_nil, List.cons_append, List.nil_append] at hhistory
  refine ⟨s, s', access, _, new, hs, hpath, htable, hcalls, ?_, ?_, hid, ?_⟩
  · simp [hhistory]
  · rw [htable']
    rfl
  · rw [consumed, hhistory, List.filterMap_append, List.filterMap_eq_nil_iff.mpr hunconsumed]
    rfl

/-- Of two refreshes that both find the record of a token, one is refused; the token is consumed once, the session goes
on in the record that took its place, and the token never comes back. -/
theorem single_use_of_sample : ∃ (s : Traffic) (access : String) (o : Outcome) (new : Record),
    Reachable Engine.sample s ∧
    s.calls = [⟨.create default [] true, .done (.ok (.pair ⟨access, Record.sample⟩))⟩,
      ⟨.refresh default [], .done (.ok o)⟩, ⟨.refresh default [], .done (.error .tokenIncorrect)⟩] ∧
    (∀ k ∈ [1, 2], (k, ⟨.table (.get default), some Record.sample⟩) ∈ s.history) ∧
    s.table.records = [new] ∧ (∃ root, s.Begun root ∧ s.InSession root new) ∧
    (∀ root, s.Begun root → ∀ x ∈ s.table.records, s.InSession root x → s.InSession root new → x = new) ∧
    default ∈ s.consumed ∧ s.consumed.Nodup ∧
    (∀ (k : Nat) (signal : Bytes) (o' : Outcome),
      s.calls[k]? = some ⟨.refresh default signal, .done (.ok o')⟩ → 1 = k) ∧
    ∀ s', Path Engine.sample s s' → s'.table.get default = none := by
  obtain ⟨s, s', access, o, new, hs, hpath, htable, hcalls, hfound, hrecords, hid, hconsumed⟩ := exists_contested_sample
  obtain ⟨-, -, -, -, hback⟩ := Reachable.single_use hs
  obtain ⟨hrooted, hone, hnodup, hwinner, -⟩ := Reachable.single_use (hs.trans hpath)
  have hnew : new ∈ s'.table.records := hrecords ▸ List.mem_singleton_self new
  have hin : (s.table.get default).isSome := by rw [htable]; rfl
  have hout : s'.table.get default = none := by
    refine Table.get_eq_none_iff.mpr fun x hx => ?_
    rw [hrecords] at hx
    rw [List.mem_singleton.mp hx, hid]
    decide
  exact ⟨s', access, o, new, hs.trans hpath, hcalls, hfound, hrecords, hrooted new hnew,
    fun root hroot x hx hxs hnews => hone root hroot x hx new hnew hxs hnews, hconsumed ▸ List.mem_singleton_self _,
    hnodup, fun k signal o' hk => hwinner 1 k default [] signal o o' (congrArg (·[1]?) hcalls) hk,
    fun s'' hlater => hback s' s'' default hpath hlater hin hout⟩

end Traffic

end SessionWarden
