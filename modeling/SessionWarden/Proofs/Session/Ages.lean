import SessionWarden.Proofs.Session.Verdicts
/-!
# Ages that can be used

Parameters are taken exactly if they are positive and the expiries that they lead to now can be represented. The two
limits on the way, of spans and of dates, come to one: no span within the dates is too long. From then on no expiry of
the engine overflows on a clock that shows the same time or an earlier one.
-/

namespace SessionWarden

/-! ### Expiries -/

namespace Instant

variable {t now : Instant} {span : Int}

theorem add?_isSome_iff (ht : t.Representable) (hspan : 0 ≤ span) :
    (t.add? span).isSome ↔ t.after span ≤ latest := by
  have hearliest : earliest.nanos ≤ (t.after span).nanos := by
    have hlow := ht.1
    simp only [after]
    omega
  have hlater : (t.after span).Representable ↔ t.after span ≤ latest :=
    ⟨fun h => h.2, fun h => ⟨hearliest, h⟩⟩
  rw [← hlater]
  unfold add?
  simp [after]

theorem add?_isSome_of_le (ht : t.Representable) (hle : t ≤ now) (hspan : 0 ≤ span) (h : now.after span ≤ latest) :
    (t.add? span).isSome := by
  rw [add?_isSome_iff ht hspan]
  have hle : t.nanos ≤ now.nanos := hle
  have hlast : now.nanos + span ≤ latest.nanos := h
  show t.nanos + span ≤ latest.nanos
  omega

end Instant

namespace TokenParams

variable {now : Instant} {accessMinutes refreshDays : Int} {cap : Nat}

theorem span?_of_after_le {count unit : Int} (hnow : now.Representable) (hspan : 0 < count * unit)
    (hlast : now.after (count * unit * Instant.perSecond) ≤ Instant.latest) :
    span? count unit = some (count * unit * Instant.perSecond) := by
  -- the longest span exceeds the distance of the earliest date and the latest
  have hlow := hnow.1
  have hhigh : now.nanos + count * unit * Instant.perSecond ≤ Instant.latest.nanos := hlast
  rw [span?_eq_some_iff]
  generalize count * unit = seconds at *
  simp only [Instant.earliest, Instant.latest, Instant.ofParts, Instant.perSecond, longestSpan] at *
  omega

theorem span?_add?_iff {count unit age : Int} (hnow : now.Representable) (hspan : 0 < count * unit) :
    (span? count unit = some age ∧ (now.add? age).isSome) ↔
      age = count * unit * Instant.perSecond ∧ now.after age ≤ Instant.latest := by
  have hlong : 0 ≤ count * unit * Instant.perSecond := by
    simp only [Instant.perSecond]
    omega
  constructor
  · rintro ⟨hage, hadd⟩
    obtain ⟨-, rfl⟩ := span?_eq_some_iff.mp hage
    have heq : count * unit * 1000 * 1000000 = count * unit * Instant.perSecond := by
      simp only [Instant.perSecond]
      omega
    rw [heq] at hadd ⊢
    exact ⟨rfl, (Instant.add?_isSome_iff hnow hlong).mp hadd⟩
  · rintro ⟨rfl, hlast⟩
    exact ⟨span?_of_after_le hnow hspan hlast, (Instant.add?_isSome_iff hnow hlong).mpr hlast⟩

def accessAgeOf (minutes : Int) : Int := minutes * 60 * Instant.perSecond

def refreshAgeOf (days : Int) : Int := days * 86400 * Instant.perSecond

/-- Whether the expiries that two ages lead to are within the dates. -/
def ExpiriesFit (now : Instant) (accessMinutes refreshDays : Int) : Prop :=
  now.after (accessAgeOf accessMinutes) ≤ Instant.latest ∧ now.after (refreshAgeOf refreshDays) ≤ Instant.latest

theorem tryNew_eq_ok_iff_expiriesFit {p : TokenParams} (hnow : now.Representable) :
    tryNew now accessMinutes refreshDays cap = .ok p ↔ 0 < accessMinutes ∧ 0 < refreshDays ∧ 1 ≤ cap ∧
      ExpiriesFit now accessMinutes refreshDays ∧
        p = ⟨accessAgeOf accessMinutes, refreshAgeOf refreshDays, cap⟩ := by
  obtain ⟨accessAge, refreshAge, refreshCap⟩ := p
  rw [tryNew_eq_ok_iff]
  constructor
  · rintro ⟨⟨hminutes, hdays, hcap⟩, ⟨haccess, hrefresh, hcapacity⟩, hexpiry, hrenewal⟩
    obtain ⟨haccessAge, hfit⟩ := (span?_add?_iff hnow (by omega)).mp ⟨haccess, hexpiry⟩
    obtain ⟨hrefreshAge, hfit'⟩ := (span?_add?_iff hnow (by omega)).mp ⟨hrefresh, hrenewal⟩
    dsimp only at haccessAge hrefreshAge hfit hfit' hcapacity
    rw [haccessAge] at hfit
    rw [hrefreshAge] at hfit'
    rw [haccessAge, hrefreshAge, ← hcapacity]
    exact ⟨hminutes, hdays, hcap, ⟨hfit, hfit'⟩, rfl⟩
  · rintro ⟨hminutes, hdays, hcap, ⟨hfit, hfit'⟩, h⟩
    injection h with haccessAge hrefreshAge hcapacity
    obtain ⟨haccess, hexpiry⟩ := (span?_add?_iff hnow (by omega)).mpr ⟨haccessAge, haccessAge ▸ hfit⟩
    obtain ⟨hrefresh, hrenewal⟩ := (span?_add?_iff hnow (by omega)).mpr ⟨hrefreshAge, hrefreshAge ▸ hfit'⟩
    exact ⟨⟨hminutes, hdays, hcap⟩, ⟨haccess, hrefresh, hcapacity.symm⟩, hexpiry, hrenewal⟩

/-- Which parameters are taken, and why others are not: the error is that of the first condition that fails. -/
structure Verdict (now : Instant) (accessMinutes refreshDays : Int) (cap : Nat) (r : Except ParamsError TokenParams) :
    Prop where
  accepted_iff : (∃ p, r = .ok p) ↔
    0 < accessMinutes ∧ 0 < refreshDays ∧ 1 ≤ cap ∧ ExpiriesFit now accessMinutes refreshDays
  accessAge_iff : r = .error .accessAge ↔ ¬ 0 < accessMinutes
  refreshAge_iff : r = .error .refreshAge ↔ 0 < accessMinutes ∧ ¬ 0 < refreshDays
  refreshCap_iff : r = .error .refreshCap ↔ 0 < accessMinutes ∧ 0 < refreshDays ∧ ¬ 1 ≤ cap
  ageOverflow_iff : r = .error .ageOverflow ↔
    0 < accessMinutes ∧ 0 < refreshDays ∧ 1 ≤ cap ∧ ¬ ExpiriesFit now accessMinutes refreshDays

theorem verdict (hnow : now.Representable) (accessMinutes refreshDays : Int) (cap : Nat) :
    Verdict now accessMinutes refreshDays cap (tryNew now accessMinutes refreshDays cap) := by
  by_cases hminutes : 0 < accessMinutes
  · by_cases hdays : 0 < refreshDays
    · by_cases hcap : 1 ≤ cap
      · by_cases hfit : ExpiriesFit now accessMinutes refreshDays
        · have hok : tryNew now accessMinutes refreshDays cap = .ok _ :=
            (tryNew_eq_ok_iff_expiriesFit hnow).mpr ⟨hminutes, hdays, hcap, hfit, rfl⟩
          constructor <;> simp [hok, hminutes, hdays, hcap, hfit]
        · -- whichever of the two limits is met first, the error is the same
          have hover : tryNew now accessMinutes refreshDays cap = .error .ageOverflow := by
            have hno : ∀ p, tryNew now accessMinutes refreshDays cap ≠ .ok p := fun p hp =>
              hfit ((tryNew_eq_ok_iff_expiriesFit hnow).mp hp).2.2.2.1
            revert hno
            unfold tryNew
            rw [if_neg (by omega), if_neg (by omega), if_neg (by omega)]
            split
            · split
              · simp
              · simp
            · simp
          constructor <;> simp [hover, hminutes, hdays, hcap, hfit]
      · have hfew : tryNew now accessMinutes refreshDays cap = .error .refreshCap := by
          unfold tryNew
          rw [if_neg (by omega), if_neg (by omega), if_pos (by omega)]
        constructor <;> simp [hfew, hminutes, hdays, hcap]
    · have hshort : tryNew now accessMinutes refreshDays cap = .error .refreshAge := by
        unfold tryNew
        rw [if_neg (by omega), if_pos (by omega)]
      constructor <;> simp [hshort, hminutes, hdays]
  · have hshort : tryNew now accessMinutes refreshDays cap = .error .accessAge := by
      unfold tryNew
      rw [if_pos (by omega)]
    constructor <;> simp [hshort, hminutes]

end TokenParams

/-! ### On a clock that is not ahead -/

/-- Whether the clock showed a date, and none after the given time, whenever it was read. -/
def ReadsUntil (now : Instant) (events : List Event) : Prop :=
  ∀ time, ⟨.now, time⟩ ∈ events → time.Representable ∧ time ≤ now

theorem readsUntil_of_fits {now : Instant} {o : FaultFree} {events : List Event} (ho : o.time.Representable)
    (hle : o.time ≤ now) (hfits : ∀ ev ∈ events, ev.Fits o) : ReadsUntil now events := by
  intro time hmem
  obtain rfl : time = o.time := hfits ⟨.now, time⟩ hmem
  exact ⟨ho, hle⟩

section Overflow

variable {now : Instant} {e : Engine} {events : List Event}

theorem Made.ok_of_readsUntil {user : UserId} {signal : Bytes} {persistent : Bool} {r : Except AuthError Record}
    (h : Made e user signal persistent events r) (hreads : ReadsUntil now events) (hage : 0 ≤ e.params.refreshAge)
    (hfit : now.after e.params.refreshAge ≤ Instant.latest) :
    ∃ time x, ⟨.now, time⟩ ∈ events ∧ r = .ok x ∧ x.expires = time.after e.params.refreshAge := by
  cases h with
  | overflow time hover =>
    obtain ⟨hdate, hle⟩ := hreads time (by simp)
    have hsome := Instant.add?_isSome_of_le hdate hle hage hfit
    rw [hover] at hsome
    cases hsome
  | made time id x hrecord =>
    obtain ⟨hdate, hle⟩ := hreads time (by simp)
    have hsome := Instant.add?_eq_some (Instant.add?_isSome_of_le hdate hle hage hfit)
    rw [Engine.recordAt?, hsome] at hrecord
    obtain rfl := Option.some.inj hrecord
    exact ⟨time, _, by simp, rfl, rfl⟩

theorem Issued.ok_of_readsUntil {x : Record} {r : Except AuthError String} (h : Issued e x events r)
    (hreads : ReadsUntil now events) (hage : 0 ≤ e.params.accessAge)
    (hfit : now.after e.params.accessAge ≤ Instant.latest) :
    (∃ access, r = .ok access) ∨ ∃ m text, ⟨.enter m, .error text⟩ ∈ events := by
  cases h with
  | rolesFailed text => exact Or.inr ⟨.roles, text, by simp⟩
  | buildFailed roles text => exact Or.inr ⟨.build, text, by simp⟩
  | unbuildable roles time fault hclaims =>
    obtain ⟨hdate, hle⟩ := hreads time (by simp)
    have hsome := Instant.add?_eq_some (Instant.add?_isSome_of_le hdate hle hage hfit)
    simp [Engine.claimsAt, Issuer.claims, hsome] at hclaims
  | issued roles time claims signature hclaims hsigned => exact Or.inl ⟨_, rfl⟩

end Overflow

/-- An engine that computes every expiry on a clock that is not past a time: a credential is built, a record is made and
an access credential is issued, unless a part of the world fails. -/
structure Engine.ReachesExpiries (e : Engine) (now : Instant) : Prop where
  builds : ∀ (time : Instant) (subject fingerprint : String) (roles : List String), time.Representable → time ≤ now →
    ∃ access, e.issuer.build time subject e.params.accessAge fingerprint roles = .ok access
  makes : ∀ (user : UserId) (signal : Bytes) (persistent : Bool) (t after : Table) (events : List Event)
    (r : Except AuthError Record), (e.newRecord user signal persistent).Runs t events r after →
    ReadsUntil now events → ∃ time x, ⟨.now, time⟩ ∈ events ∧ r = .ok x ∧ x.expires = time.after e.params.refreshAge
  issues : ∀ (x : Record) (t after : Table) (events : List Event) (r : Except AuthError String),
    (e.issueAccess x).Runs t events r after → ReadsUntil now events →
    (∃ access, r = .ok access) ∨ ∃ m text, ⟨.enter m, .error text⟩ ∈ events

theorem Engine.reachesExpiries {e : Engine} {now : Instant} (haccess : 0 ≤ e.params.accessAge)
    (hrefresh : 0 ≤ e.params.refreshAge) (haccessFit : now.after e.params.accessAge ≤ Instant.latest)
    (hrefreshFit : now.after e.params.refreshAge ≤ Instant.latest) : e.ReachesExpiries now where
  builds := by
    intro time subject fingerprint roles htime hle
    have hsome := Instant.add?_eq_some (Instant.add?_isSome_of_le htime hle haccess haccessFit)
    unfold Issuer.build Issuer.claims
    rw [hsome]
    exact ⟨_, rfl⟩
  makes := by
    intro user signal persistent t after events r hruns hreads
    obtain ⟨-, hmade⟩ := runs_newRecord hruns
    exact hmade.ok_of_readsUntil hreads hrefresh hrefreshFit
  issues := by
    intro x t after events r hruns hreads
    obtain ⟨-, hissued⟩ := runs_issueAccess hruns
    exact hissued.ok_of_readsUntil hreads haccess haccessFit

/-- Parameters are taken exactly if they are positive and both expiries can be represented now, and otherwise the first
condition that fails is named. An engine with parameters that were taken overflows on no clock that shows a date not
after that time. -/
theorem usable_parameters (now : Instant) (hnow : now.Representable) (accessMinutes refreshDays : Int) (cap : Nat) :
    TokenParams.Verdict now accessMinutes refreshDays cap (TokenParams.tryNew now accessMinutes refreshDays cap) ∧
    ∀ e : Engine, TokenParams.tryNew now accessMinutes refreshDays cap = .ok e.params →
      e.params = ⟨TokenParams.accessAgeOf accessMinutes, TokenParams.refreshAgeOf refreshDays, cap⟩ ∧
      e.ReachesExpiries now ∧
      ∀ (o : FaultFree) (t : Table), o.time.Representable → o.time ≤ now →
        (∀ user signal persistent, (e.newRecord user signal persistent).Surely o t fun _ r _ => ∃ x, r = .ok x) ∧
        ∀ x, (e.issueAccess x).Surely o t fun _ r _ => ∃ access, r = .ok access := by
  refine ⟨TokenParams.verdict hnow accessMinutes refreshDays cap, fun e hparams => ?_⟩
  obtain ⟨hminutes, hdays, -, ⟨haccess, hrefresh⟩, hp⟩ := (TokenParams.tryNew_eq_ok_iff_expiriesFit hnow).mp hparams
  have haccessAge : 0 ≤ e.params.accessAge := by
    simp only [hp, TokenParams.accessAgeOf, Instant.perSecond]
    omega
  have hrefreshAge : 0 ≤ e.params.refreshAge := by
    simp only [hp, TokenParams.refreshAgeOf, Instant.perSecond]
    omega
  have hreaches : e.ReachesExpiries now :=
    Engine.reachesExpiries haccessAge hrefreshAge (by rw [hp]; exact haccess) (by rw [hp]; exact hrefresh)
  refine ⟨hp, hreaches, fun o t hdate hle => ⟨fun user signal persistent => ?_, fun x => ?_⟩⟩
  · refine Action.surely fun events r after hruns hfits => ?_
    obtain ⟨time, x, -, hr, -⟩ :=
      hreaches.makes user signal persistent t after events r hruns (readsUntil_of_fits hdate hle hfits)
    exact ⟨x, hr⟩
  · refine Action.surely fun events r after hruns hfits => ?_
    rcases hreaches.issues x t after events r hruns (readsUntil_of_fits hdate hle hfits) with hok | ⟨m, text, hmem⟩
    · exact hok
    · have hentered : Except.error text = Except.ok () := hfits _ hmem
      cases hentered

theorem usable_parameters_of_sample : (⟨0⟩ : Instant).Representable ∧
    TokenParams.tryNew ⟨0⟩ 15 1 2 = .ok Engine.sample.params ∧
    FaultFree.sample.time.Representable ∧ FaultFree.sample.time ≤ ⟨0⟩ ∧
    (Engine.sample.newRecord default [] true).Surely FaultFree.sample .empty fun _ r _ => ∃ x, r = .ok x := by
  have hepoch : (⟨0⟩ : Instant).Representable := by decide
  have htaken : TokenParams.tryNew ⟨0⟩ 15 1 2 = .ok Engine.sample.params := rfl
  have hle : FaultFree.sample.time ≤ (⟨0⟩ : Instant) := by decide
  obtain ⟨-, hengines⟩ := usable_parameters ⟨0⟩ hepoch 15 1 2
  obtain ⟨-, -, hfaultFree⟩ := hengines Engine.sample htaken
  obtain ⟨hmakes, -⟩ := hfaultFree FaultFree.sample .empty hepoch hle
  exact ⟨hepoch, htaken, hepoch, hle, hmakes default [] true⟩

end SessionWarden
