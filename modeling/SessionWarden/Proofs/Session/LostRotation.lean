import SessionWarden.Proofs.Session.Company
import SessionWarden.Proofs.Session.FailedRefresh
import SessionWarden.Proofs.Session.Verdicts
/-!
# Rotations that are lost

A renewal looks its record up and rotates it later. What others do in between, and how late the clock has become,
decides whether the rotation finds the record. If it does not, the call changes nothing, and its error names the cause:
a record that has only expired is told from one that somebody else has taken out.
-/

namespace SessionWarden

open SessionWarden.Action (runsAmong_bind runsAmong_asked runsAmong_entered)

variable {w : Company} {n : Nat} {t after : Table} {moments : List Moment} {e : Engine} {id : TokenId} {signal : Bytes}

/-! ### Parts of a renewal -/

theorem runsAmong_timed {α : Type} {f : Instant → Action α} {r : Except AuthError α}
    (h : (Action.now >>= f).RunsAmong w n t moments r after) :
    ∃ first rest, moments = first :: rest ∧ first.event = ⟨.now, w.clock n⟩ ∧ first.Calm ∧
      (f (w.clock n)).RunsAmong w (n + 1) (t.afterCalls (w.calls n)) rest r after := by
  obtain ⟨time, mid, rest, rfl, rfl, hshown, hrest⟩ := runsAmong_asked.mp h
  obtain rfl : time = w.clock n := hshown
  exact ⟨_, rest, rfl, rfl, rfl, hrest⟩

theorem runsAmong_refused {α : Type} {line : Note} {err : AuthError} {r : Except AuthError α}
    (h : Action.RunsAmong (do Action.note line; throw err) w n t moments r after) :
    ∃ noted, moments = [noted] ∧ noted.event = ⟨.note line, ()⟩ ∧ noted.Calm ∧ r = .error err := by
  obtain ⟨reply, mid, rest, rfl, rfl, -, rfl, rfl, rfl⟩ := runsAmong_asked.mp h
  exact ⟨_, rfl, rfl, rfl, rfl⟩

/-- The first two moments of a look-up: it enters the repository, and it meets the table. -/
structure LooksUp (id : TokenId) (first look : Moment) : Prop where
  enters : first.event = ⟨.enter .getById, .ok ()⟩
  asks : look.event = ⟨.table (.get id), look.before.get id⟩
  calm_first : first.Calm
  calm_look : look.Calm

theorem runsAmong_find {r : Except AuthError Record} (h : (Engine.find id).RunsAmong w n t moments r after) :
    ∃ first look rest, moments = first :: look :: rest ∧ LooksUp id first look ∧
      ∀ x, look.before.get id = some x → rest = [] ∧ r = .ok x := by
  obtain ⟨reply, _, _, rfl, rfl, hreply, hget⟩ := h
  obtain rfl : reply = .ok () := hreply
  obtain ⟨found, _, rest, rfl, ⟨hfound, rfl⟩, -, hrest⟩ := hget
  obtain rfl : found = _ := hfound
  refine ⟨_, _, rest, rfl, ⟨rfl, rfl, rfl, rfl⟩, ?_⟩
  intro x hx
  dsimp only [TableCall.perform] at hx hrest
  rw [hx] at hrest
  obtain ⟨rfl, rfl, -⟩ := hrest
  exact ⟨rfl, rfl⟩

/-- The look-up for a client goes well if it meets a record that is the client's and live. -/
theorem runsAmong_findBound {r : Except AuthError Record}
    (h : (Engine.findBound id signal).RunsAmong w n t moments r after) :
    ∃ first look rest, moments = first :: look :: rest ∧ LooksUp id first look ∧
      ∀ old, look.before.get id = some old → old.BoundTo signal → ∃ timed more, rest = timed :: more ∧
        timed.event = ⟨.now, w.clock (n + 2)⟩ ∧ timed.Calm ∧
          (¬ old.expires < w.clock (n + 2) → more = [] ∧ r = .ok old) := by
  rcases runsAmong_bind.mp h with ⟨found, judged, x, mid, hfind, hjudge, rfl⟩ | ⟨err, hfind, rfl⟩
  · obtain ⟨first, look, rest, rfl, hlook, hfound⟩ := runsAmong_find hfind
    refine ⟨first, look, rest ++ judged, rfl, hlook, ?_⟩
    intro old hget hbound
    obtain ⟨rfl, hx⟩ := hfound old hget
    obtain rfl : x = old := Except.ok.inj hx
    have hcheck : checkFingerprint x.user signal x.fingerprint = .ok () := checkFingerprint_ok_iff.mpr hbound
    simp only [hcheck] at hjudge
    obtain ⟨timed, more, rfl, htimed, hcalm, hmore⟩ := runsAmong_timed hjudge
    refine ⟨timed, more, rfl, htimed, hcalm, fun hlive => ?_⟩
    have hexp : x.isExpiredAt (w.clock (n + [first, look].length)) = false := decide_eq_false hlive
    rw [if_neg (by rw [hexp]; exact Bool.false_ne_true)] at hmore
    obtain ⟨rfl, rfl, -⟩ := hmore
    exact ⟨rfl, rfl⟩
  · obtain ⟨first, look, rest, rfl, hlook, hfound⟩ := runsAmong_find hfind
    refine ⟨first, look, rest, rfl, hlook, ?_⟩
    intro old hget
    cases (hfound old hget).2

theorem runsAmong_newRecord {user : UserId} {persistent : Bool}
    {r : Except AuthError Record} (hage : ((w.clock n).add? e.params.refreshAge).isSome)
    (h : (e.newRecord user signal persistent).RunsAmong w n t moments r after) :
    (∀ m ∈ moments, m.Calm) ∧ ∃ new, r = .ok new := by
  obtain ⟨first, rest, rfl, -, hfirst, hrest⟩ := runsAmong_timed h
  rw [Instant.add?_eq_some hage] at hrest
  obtain ⟨new, mid, last, rfl, rfl, -, rfl, rfl, rfl⟩ := hrest
  refine ⟨?_, _, rfl⟩
  simp only [List.forall_mem_cons]
  exact ⟨hfirst, rfl, List.forall_mem_nil _⟩

/-- A rotation meets the table at its turn. It takes the record that is live then and goes on, or it ends there. -/
theorem runsAmong_rotate {asked : Instant} {new : Record} {r : Except AuthError (Option Record)}
    (h : (Repository.rotate id asked new).RunsAmong w n t moments r after) :
    ∃ first timed turn rest, moments = first :: timed :: turn :: rest ∧ first.Calm ∧ timed.Calm ∧
      (∃ removed, turn.event = ⟨.table (.removeLive id (w.clock (n + 1))), removed⟩) ∧
        ((∃ x, turn.before.get id = some x ∧ ¬ x.expires < w.clock (n + 1) ∧ r = .ok (some new)) ∨
          ((∀ x, turn.before.get id = some x → x.expires < w.clock (n + 1)) ∧ turn.Calm ∧ rest = [] ∧
            r = .ok none)) := by
  obtain ⟨first, _, rfl, -, hfirst, htimed⟩ := runsAmong_entered h
  obtain ⟨late, _, _, rfl, rfl, hlate, hturn⟩ := runsAmong_asked.mp htimed
  obtain rfl : late = w.clock (n + 1) := hlate
  obtain ⟨removed, _, rest, rfl, ⟨hremoved, rfl⟩, -, hrest⟩ := runsAmong_asked.mp hturn
  refine ⟨first, _, _, rest, rfl, hfirst, rfl, ⟨removed, rfl⟩, ?_⟩
  have hremoved : removed = _ := hremoved
  rcases removeLive_cases _ id (w.clock (n + 1)) with ⟨hexp, hperform⟩ | ⟨x, hx, hlive, hperform⟩
  · rw [hperform] at hremoved hrest
    subst hremoved
    obtain ⟨rfl, rfl, -⟩ := hrest
    exact Or.inr ⟨hexp, congrArg Prod.snd hperform, rfl, rfl⟩
  · rw [hperform] at hremoved hrest
    subst hremoved
    obtain ⟨_, _, _, rfl, -, -, rfl, rfl, -⟩ := hrest
    exact Or.inl ⟨x, hx, hlive, rfl⟩

theorem runsAmong_issueAccess {x : Record} {r : Except AuthError String}
    (hages : ∀ n, ((w.clock n).add? e.params.accessAge).isSome)
    (h : (e.issueAccess x).RunsAmong w n t moments r after) : ∃ access, r = .ok access := by
  obtain ⟨reply, _, _, rfl, -, hreply, hroles⟩ := h
  obtain rfl : reply = .ok () := hreply
  obtain ⟨roles, _, _, rfl, -, -, hbuild⟩ := hroles
  obtain ⟨_, _, rfl, -, -, hclaims⟩ := runsAmong_entered hbuild
  obtain ⟨_, _, rfl, -, -, hsigned⟩ := runsAmong_timed hclaims
  simp only [Issuer.claims, Instant.add?_eq_some (hages _)] at hsigned
  obtain ⟨_, _, _, -, -, -, -, rfl, -⟩ := hsigned
  exact ⟨_, rfl⟩

theorem runsAmong_granted {x : Record} {line : Note} {r : Except AuthError TokenPair}
    (hages : ∀ n, ((w.clock n).add? e.params.accessAge).isSome)
    (h : Action.RunsAmong (do
      let access ← e.issueAccess x
      Action.note line
      return (⟨access, x⟩ : TokenPair)) w n t moments r after) : ∃ p, r = .ok p := by
  rcases runsAmong_bind.mp h with ⟨_, _, access, _, hissue, hnote, rfl⟩ | ⟨err, hissue, rfl⟩
  · obtain ⟨_, _, _, rfl, -, -, -, rfl, -⟩ := hnote
    exact ⟨_, rfl⟩
  · obtain ⟨access, hr⟩ := runsAmong_issueAccess hages hissue
    cases hr

/-- How a renewal ends from its turn: it takes the record of the identifier, or it reads the clock once more and tells
why there was none to take. -/
inductive Turned (w : Company) (old : Record) (k : Nat) (turn : Moment) :
    List Moment → Except AuthError TokenPair → Prop
  | taken (later : List Moment) (p : TokenPair) (x : Record) (hget : turn.before.get old.id = some x)
    (hlive : ¬ x.expires < w.clock k) : Turned w old k turn later (.ok p)
  | missed (last noted : Moment) (j : Nat) (hj : k ≤ j)
    (hmissed : ∀ x, turn.before.get old.id = some x → x.expires < w.clock k) (hturn : turn.Calm) (hlast : last.Calm)
    (hnoted : noted.Calm) (hevent : last.event = ⟨.now, w.clock j⟩) (hline : noted.event.time? = none) :
    Turned w old k turn [last, noted] (.error (if old.expires < w.clock j then .tokenExpired else .tokenIncorrect))

theorem runsAmong_missed {old : Record} {r : Except AuthError TokenPair} {expired consumed : Note}
    (h : Action.RunsAmong (do
      if old.isExpiredAt (← Action.now) then
        Action.note expired
        throw .tokenExpired
      else
        Action.note consumed
        throw .tokenIncorrect) w n t moments r after) :
    ∃ last noted, moments = [last, noted] ∧ last.Calm ∧ noted.Calm ∧ last.event = ⟨.now, w.clock n⟩ ∧
      noted.event.time? = none ∧
        r = .error (if old.expires < w.clock n then .tokenExpired else .tokenIncorrect) := by
  obtain ⟨last, _, rfl, hevent, hlast, hrest⟩ := runsAmong_timed h
  unfold Record.isExpiredAt at hrest
  by_cases hexp : old.expires < w.clock n
  · rw [if_pos (decide_eq_true hexp)] at hrest
    obtain ⟨noted, rfl, hline, hnoted, rfl⟩ := runsAmong_refused hrest
    exact ⟨last, noted, rfl, hlast, hnoted, hevent, by rw [hline]; rfl, by rw [if_pos hexp]⟩
  · rw [if_neg (by simpa using hexp)] at hrest
    obtain ⟨noted, rfl, hline, hnoted, rfl⟩ := runsAmong_refused hrest
    exact ⟨last, noted, rfl, hlast, hnoted, hevent, by rw [hline]; rfl, by rw [if_neg hexp]⟩

theorem runsAmong_refresh {r : Except AuthError TokenPair}
    (haccess : ∀ n, ((w.clock n).add? e.params.accessAge).isSome)
    (hrefresh : ∀ n, ((w.clock n).add? e.params.refreshAge).isSome)
    (h : (e.refresh id signal).RunsAmong w n t moments r after) :
    ∃ first look rest, moments = first :: look :: rest ∧ LooksUp id first look ∧
      ∀ old, look.before.get id = some old → old.BoundTo signal → ∃ timed more, rest = timed :: more ∧
        timed.event = ⟨.now, w.clock (n + 2)⟩ ∧ (¬ old.expires < w.clock (n + 2) →
          ∃ between turn later k, more = between ++ turn :: later ∧ k = n + 2 + between.length ∧ n + 2 < k ∧
            (∀ m ∈ timed :: between, m.Calm) ∧
              (∃ removed, turn.event = ⟨.table (.removeLive id (w.clock k)), removed⟩) ∧
                Turned w old k turn later r) := by
  rcases runsAmong_bind.mp h with ⟨found, renewing, x, mid, hfind, hrenew, rfl⟩ | ⟨err, hfind, rfl⟩
  · obtain ⟨first, look, rest, rfl, hlook, hfound⟩ := runsAmong_findBound hfind
    refine ⟨first, look, rest ++ renewing, rfl, hlook, ?_⟩
    intro old hget hbound
    obtain ⟨timed, more, rfl, htimed, hcalm, hlast⟩ := hfound old hget hbound
    refine ⟨timed, more ++ renewing, rfl, htimed, fun hlive => ?_⟩
    obtain ⟨rfl, hx⟩ := hlast hlive
    obtain rfl : x = old := Except.ok.inj hx
    -- nothing fails before the turn, so the renewal does come to it
    rcases runsAmong_bind.mp hrenew with ⟨make, asking, new, mid', hmake, hask, rfl⟩ | ⟨err, hmake, rfl⟩
    · obtain ⟨hmade, -⟩ := runsAmong_newRecord (hrefresh _) hmake
      obtain ⟨asked, rotating, rfl, -, hasked, hrotating⟩ := runsAmong_timed hask
      rcases runsAmong_bind.mp hrotating with ⟨turning, ending, replaced, mid'', hturn, hend, rfl⟩ | ⟨err, hturn, rfl⟩
      · obtain ⟨enter, late, turn, rest, rfl, henter, hlate, hevent, hturned⟩ := runsAmong_rotate hturn
        obtain ⟨hmem, rfl⟩ := Table.get_eq_some_iff.mp hget
        refine ⟨make ++ [asked, enter, late], turn, rest ++ ending, _, by simp, ?_, ?_, ?_, hevent, ?_⟩
        · simp only [List.length_append, List.length_cons, List.length_nil]
          omega
        · simp only [List.length_cons, List.length_nil]
          omega
        · simp only [List.forall_mem_cons, List.forall_mem_append]
          exact ⟨hcalm, hmade, hasked, henter, hlate, List.forall_mem_nil _⟩
        · rcases hturned with ⟨y, hy, hlive', hr⟩ | ⟨hmissed, hstays, rfl, hr⟩
          · cases hr
            obtain ⟨p, rfl⟩ := runsAmong_granted haccess hend
            exact .taken _ p y hy hlive'
          · cases hr
            obtain ⟨last, noted, rfl, hlast, hnoted, hread, hline, rfl⟩ := runsAmong_missed hend
            exact .missed last noted _ (by simp) hmissed hstays hlast hnoted hread hline
      · obtain ⟨_, _, _, _, -, -, -, -, ⟨_, -, -, hr⟩ | ⟨-, -, -, hr⟩⟩ := runsAmong_rotate hturn
        · cases hr
        · cases hr
    · obtain ⟨-, new, hr⟩ := runsAmong_newRecord (hrefresh _) hmake
      cases hr
  · obtain ⟨first, look, rest, rfl, hlook, hfound⟩ := runsAmong_findBound hfind
    refine ⟨first, look, rest, rfl, hlook, ?_⟩
    intro old hget hbound
    obtain ⟨timed, more, rfl, htimed, -, hlast⟩ := hfound old hget hbound
    exact ⟨timed, more, rfl, htimed, fun hlive => by cases (hlast hlive).2⟩

/-! ### Lost rotations -/

@[simp] theorem readings_append (first rest : List Moment) :
    readings (first ++ rest) = readings first ++ readings rest :=
  List.filterMap_append

theorem readings_cons_of_none {m : Moment} (hm : m.event.time? = none) : readings (m :: moments) = readings moments :=
  List.filterMap_cons_none hm

theorem readings_cons_of_now {m : Moment} {time : Instant} (hm : m.event = ⟨.now, time⟩) :
    readings (m :: moments) = time :: readings moments :=
  List.filterMap_cons_some (by rw [hm]; rfl)

namespace Turned

variable {old : Record} {k : Nat} {turn : Moment} {later : List Moment} {r : Except AuthError TokenPair}

theorem granted_iff (h : Turned w old k turn later r) (honly : ∀ x, turn.before.get old.id = some x → x = old) :
    (∃ p, r = .ok p) ↔ old ∈ turn.before.records ∧ ¬ old.expires < w.clock k := by
  cases h with
  | taken later p x hget hlive =>
    obtain rfl := honly x hget
    exact ⟨fun _ => ⟨(Table.get_eq_some_iff.mp hget).1, hlive⟩, fun _ => ⟨p, rfl⟩⟩
  | missed last noted j hj hmissed =>
    constructor
    · rintro ⟨p, ⟨⟩⟩
    · rintro ⟨hmem, hlive⟩
      exact absurd (hmissed old (Table.get_eq_some_iff.mpr ⟨hmem, rfl⟩)) hlive

theorem of_error {err : AuthError} (h : Turned w old k turn later (.error err)) :
    (∀ m ∈ turn :: later, m.Calm) ∧ ∃ j, k ≤ j ∧ readings later = [w.clock j] ∧
      err = if old.expires < w.clock j then .tokenExpired else .tokenIncorrect := by
  cases h with
  | missed last noted j hj hmissed hturn hlast hnoted hevent hline =>
    refine ⟨?_, j, hj, ?_, rfl⟩
    · simp only [List.forall_mem_cons]
      exact ⟨hturn, hlast, hnoted, List.forall_mem_nil _⟩
    · rw [readings_cons_of_now hevent, readings_cons_of_none hline]
      rfl

end Turned

/-- How the rotation of a record that a renewal has found is decided: by what others have done to the table since, and
by the clock. The time of the rotation is told by the question of a number, and its turn comes with the next. -/
structure Contest (w : Company) (id : TokenId) (moments : List Moment) (look : Moment) (old : Record)
    (r : Except AuthError TokenPair) (turn : Moment) (k : Nat) : Prop where
  turn_mem : turn ∈ moments
  event_eq : ∃ removed, turn.event = ⟨.table (.removeLive id (w.clock k)), removed⟩
  before_eq : turn.before = look.before.afterCalls (w.interim 2 k)
  granted_iff : (∃ p, r = .ok p) ↔ old ∈ turn.before.records ∧ ¬ old.expires < w.clock k
  /-- A renewal that fails changes nothing, and the last reading of the clock decides on its error. -/
  of_error : ∀ err, r = .error err → (∀ m ∈ moments, m.Calm) ∧ ∃ last, (readings moments).getLast? = some last ∧
    err = if old.expires < last then .tokenExpired else .tokenIncorrect
  /-- If the record is told to be consumed, then somebody else took it out. -/
  of_incorrect : r = .error .tokenIncorrect → ∃ first c rest, w.interim 2 k = first ++ c :: rest ∧
    old ∈ (look.before.afterCalls first).records ∧ old ∉ (c.perform (look.before.afterCalls first)).2.records
  /-- A record that only expired is told to be, and is still there. -/
  of_expired : old ∈ turn.before.records → old.expires < w.clock k → r = .error .tokenExpired ∧ old ∈ turn.after.records

theorem Turned.contest {old : Record} {k : Nat} {look turn : Moment} {early later : List Moment}
    {r : Except AuthError TokenPair} (h : Turned w old k turn later r)
    (hclock : ∀ i j, i ≤ j → w.clock i ≤ w.clock j) (hfresh : ∀ n x, .insert x ∈ w.calls n → x.id ≠ old.id)
    (hold : old ∈ look.before.records) (hearly : ∀ m ∈ early, m.Calm)
    (hevent : ∃ removed, turn.event = ⟨.table (.removeLive old.id (w.clock k)), removed⟩)
    (hbefore : turn.before = look.before.afterCalls (w.interim 2 k)) :
    Contest w old.id (early ++ turn :: later) look old r turn k := by
  have honly : ∀ x, turn.before.get old.id = some x → x = old := by
    intro x hx
    obtain ⟨hmem, hid⟩ := Table.get_eq_some_iff.mp hx
    rw [hbefore] at hmem
    -- others store nothing under the identifier, so the record was there at the look-up already
    refine Table.eq_of_mem_of_id_eq (Table.mem_of_mem_afterCalls (fun y hy => ?_) hmem) hold hid
    obtain ⟨n, hn⟩ := Company.exists_of_mem_interim hy
    exact hid ▸ hfresh n y hn
  have hgranted := h.granted_iff honly
  have hturn : turn.event.time? = none := by
    obtain ⟨removed, hevent⟩ := hevent
    rw [hevent]
    rfl
  refine ⟨by simp, hevent, hbefore, hgranted, ?_, ?_, ?_⟩
  · rintro err rfl
    obtain ⟨hcalm, j, -, hlater, herr⟩ := h.of_error
    refine ⟨fun m hm => ?_, w.clock j, ?_, herr⟩
    · rcases List.mem_append.mp hm with hm | hm
      · exact hearly m hm
      · exact hcalm m hm
    · rw [readings_append, readings_cons_of_none hturn, hlater, List.getLast?_concat]
  · rintro rfl
    obtain ⟨-, j, hj, -, herr⟩ := h.of_error
    have hlast : ¬ old.expires < w.clock j := by
      intro hexp
      rw [if_pos hexp] at herr
      cases herr
    -- the clock does not go back, so what is live at its last reading was live at the turn
    have hlive : ¬ old.expires < w.clock k := fun hexp => hlast (Int.lt_of_lt_of_le hexp (hclock k j hj))
    have hgone : old ∉ (look.before.afterCalls (w.interim 2 k)).records := by
      intro hmem
      obtain ⟨p, hp⟩ := hgranted.mpr ⟨hbefore ▸ hmem, hlive⟩
      cases hp
    exact Table.exists_removal hold hgone
  · intro hmem hexp
    cases r with
    | ok p => exact absurd hexp (hgranted.mp ⟨p, rfl⟩).2
    | error err =>
      obtain ⟨hcalm, j, hj, -, rfl⟩ := h.of_error
      have hlast : old.expires < w.clock j := Int.lt_of_lt_of_le hexp (hclock k j hj)
      have hstays : turn.after = turn.before := hcalm turn List.mem_cons_self
      exact ⟨by rw [if_pos hlast], hstays ▸ hmem⟩

/-- A renewal that has found its record is granted if the record is there and live at its turn. If it fails it has left
the table alone, and it tells a record that has expired from one that others have taken out, whatever they do and
however the clock goes on. -/
theorem lost_rotations_classified (e : Engine) (w : Company) (t : Table) (id : TokenId) (signal : Bytes)
    (hclock : ∀ i j, i ≤ j → w.clock i ≤ w.clock j)
    (haccess : ∀ n, ((w.clock n).add? e.params.accessAge).isSome)
    (hrefresh : ∀ n, ((w.clock n).add? e.params.refreshAge).isSome)
    (hfresh : ∀ n x, .insert x ∈ w.calls n → x.id ≠ id) :
    (∃ moments r after, (e.refresh id signal).RunsAmong w 0 t moments r after) ∧
    ∀ moments r after, (e.refresh id signal).RunsAmong w 0 t moments r after →
      ∃ look ∈ moments, look.event = ⟨.table (.get id), look.before.get id⟩ ∧
        look.before = t.afterCalls (w.interim 0 2) ∧
        ∀ old, look.before.get id = some old → old.BoundTo signal →
          (readings moments).head? = some (w.clock 2) ∧ (¬ old.expires < w.clock 2 →
            ∃ turn k, 2 < k ∧ Contest w id moments look old r turn k) := by
  refine ⟨Script.exists_runAmong _ w 0 t, ?_⟩
  intro moments r after h
  obtain ⟨first, look, rest, rfl, hlook, hfound⟩ := runsAmong_refresh haccess hrefresh h
  have hfirst : ∀ m ∈ [first], m.Calm := List.forall_mem_singleton.mpr hlook.calm_first
  have hlooked : look.before = t.afterCalls (w.interim 0 2) := Script.RunsAmong.before_eq [first] h hfirst
  refine ⟨look, by simp, hlook.asks, hlooked, ?_⟩
  intro old hget hbound
  obtain ⟨timed, more, rfl, htimed, hturn⟩ := hfound old hget hbound
  refine ⟨?_, fun hlive => ?_⟩
  · have henters : first.event.time? = none := by rw [hlook.enters]; rfl
    have hasks : look.event.time? = none := by rw [hlook.asks]; rfl
    rw [readings_cons_of_none henters, readings_cons_of_none hasks, readings_cons_of_now htimed, List.head?_cons]
  · obtain ⟨between, turn, later, k, rfl, hk, hlater, hbetween, hevent, hturned⟩ := hturn hlive
    have hearly : ∀ m ∈ first :: look :: timed :: between, m.Calm := by
      simp only [List.forall_mem_cons] at hbetween ⊢
      exact ⟨hlook.calm_first, hlook.calm_look, hbetween⟩
    have hbefore : turn.before = look.before.afterCalls (w.interim 2 k) := by
      have hcount : (first :: look :: timed :: between).length + 1 = 2 + k := by
        simp only [List.length_cons]
        omega
      rw [Script.RunsAmong.before_eq (first :: look :: timed :: between) h hearly, hcount, Company.interim_add,
        Table.afterCalls_append, hlooked]
    obtain ⟨hold, rfl⟩ := Table.get_eq_some_iff.mp hget
    exact ⟨turn, k, hlater, hturned.contest hclock hfresh hold hearly hevent hbefore⟩

/-- Nobody else calls, and the clock passes the end of a day just after the third question. -/
def Company.sample : Company := ⟨fun _ => [], fun n => if n ≤ 2 then ⟨0⟩ else ⟨86400000000001⟩⟩

theorem lost_rotations_classified_of_sample : (∀ i j, i ≤ j → Company.sample.clock i ≤ Company.sample.clock j) ∧
    (∀ n, ((Company.sample.clock n).add? Engine.sample.params.accessAge).isSome) ∧
    (∀ n, ((Company.sample.clock n).add? Engine.sample.params.refreshAge).isSome) ∧
    (∀ n x, .insert x ∈ Company.sample.calls n → x.id ≠ default) ∧
    ∃ moments after, (Engine.sample.refresh default []).RunsAmong Company.sample 0 (Table.empty.insert Record.sample)
      moments (.error .tokenExpired) after ∧ ∃ turn ∈ moments, Record.sample ∈ turn.after.records := by
  have hclock : ∀ i j, i ≤ j → Company.sample.clock i ≤ Company.sample.clock j := by
    intro i j hij
    simp only [Company.sample]
    split
    · split <;> decide
    · rw [if_neg (by omega)]
      decide
  have haccess : ∀ n, ((Company.sample.clock n).add? Engine.sample.params.accessAge).isSome := by
    intro n
    simp only [Company.sample]
    split <;> decide
  have hrefresh : ∀ n, ((Company.sample.clock n).add? Engine.sample.params.refreshAge).isSome := by
    intro n
    simp only [Company.sample]
    split <;> decide
  have hfresh : ∀ n x, .insert x ∈ Company.sample.calls n → x.id ≠ default := fun _ _ hx => by cases hx
  refine ⟨hclock, haccess, hrefresh, hfresh, ?_⟩
  obtain ⟨⟨moments, r, after, hrun⟩, hall⟩ := lost_rotations_classified Engine.sample Company.sample
    (Table.empty.insert Record.sample) default [] hclock haccess hrefresh hfresh
  obtain ⟨look, -, -, hlook, hfound⟩ := hall moments r after hrun
  obtain ⟨hget, hbound, -, -⟩ := Engine.sample_renewable
  obtain ⟨-, hcontest⟩ := hfound Record.sample (hlook ▸ hget) hbound
  obtain ⟨turn, k, hk, hc⟩ := hcontest (by decide)
  have hquiet : ∀ n count, Company.sample.interim n count = [] := fun n count =>
    List.flatMap_eq_nil_iff.mpr fun _ _ => rfl
  have hthere : Record.sample ∈ turn.before.records := by
    rw [hc.before_eq, hlook, hquiet, hquiet]
    exact Table.mem_insert.mpr (Or.inl rfl)
  have hexp : Record.sample.expires < Company.sample.clock k := by
    simp only [Company.sample]
    rw [if_neg (by omega)]
    decide
  obtain ⟨rfl, hstays⟩ := hc.of_expired hthere hexp
  exact ⟨moments, after, hrun, turn, hc.turn_mem, hstays⟩

end SessionWarden
