import SessionWarden.Calendar
/-!
# Token parameters

How long credentials and sessions last and how many sessions a user may have. Parameters are accepted only if
an expiry can be computed from them now.
-/

namespace SessionWarden

/-- Why parameters are not accepted (`TokenParamsError`). -/
inductive ParamsError where
  | accessAge
  | refreshAge
  | refreshCap
  | ageOverflow
deriving DecidableEq, Repr

def ParamsError.message : ParamsError → String
  | .accessAge => "access token age must be positive"
  | .refreshAge => "refresh token age must be positive"
  | .refreshCap => "refresh token capacity must be at least 1"
  | .ageOverflow => "token age is too large to compute an expiry"

/-- The ages of credentials and sessions in nanoseconds, and the sessions of a user at most. -/
structure TokenParams where
  accessAge : Int
  refreshAge : Int
  refreshCap : Nat
deriving DecidableEq, Repr

namespace TokenParams

def longestSpan : Int := 9223372036854775807

/-- The nanoseconds of a count of units of some seconds each, if that is a span of time. -/
def span? (count secondsPerUnit : Int) : Option Int :=
  let milliseconds := count * secondsPerUnit * 1000
  if -longestSpan ≤ milliseconds ∧ milliseconds ≤ longestSpan then some (milliseconds * 1000000) else none

/-- The parameters of an age in minutes, an age in days and a capacity, judged at a time (`TokenParams::try_new`). -/
def tryNew (now : Instant) (accessMinutes refreshDays : Int) (cap : Nat) : Except ParamsError TokenParams :=
  if accessMinutes ≤ 0 then .error .accessAge
  else if refreshDays ≤ 0 then .error .refreshAge
  else if cap < 1 then .error .refreshCap
  else
    match span? accessMinutes 60, span? refreshDays 86400 with
    | some accessAge, some refreshAge =>
      if (now.add? accessAge).isNone ∨ (now.add? refreshAge).isNone then .error .ageOverflow
      else .ok ⟨accessAge, refreshAge, cap⟩
    | _, _ => .error .ageOverflow

theorem span?_eq_some_iff {count secondsPerUnit span : Int} : span? count secondsPerUnit = some span ↔
    (-longestSpan ≤ count * secondsPerUnit * 1000 ∧ count * secondsPerUnit * 1000 ≤ longestSpan) ∧
      span = count * secondsPerUnit * 1000 * 1000000 := by
  by_cases hfits : -longestSpan ≤ count * secondsPerUnit * 1000 ∧ count * secondsPerUnit * 1000 ≤ longestSpan
  · simp only [span?, hfits, and_self, if_true, Option.some.injEq, true_and, eq_comm]
  · simp only [span?, hfits, if_false, reduceCtorEq, false_and]

/-- Parameters are accepted exactly if the ages and the capacity are positive, and an expiry can be computed now. -/
theorem tryNew_eq_ok_iff {now : Instant} {accessMinutes refreshDays : Int} {cap : Nat} {p : TokenParams} :
    tryNew now accessMinutes refreshDays cap = .ok p ↔ (0 < accessMinutes ∧ 0 < refreshDays ∧ 0 < cap) ∧
      (span? accessMinutes 60 = some p.accessAge ∧ span? refreshDays 86400 = some p.refreshAge ∧ cap = p.refreshCap) ∧
        (now.add? p.accessAge).isSome ∧ (now.add? p.refreshAge).isSome := by
  obtain ⟨accessAge, refreshAge, refreshCap⟩ := p
  by_cases hpositive : 0 < accessMinutes ∧ 0 < refreshDays ∧ 0 < cap
  · obtain ⟨haccess, hrefresh, hcap⟩ := hpositive
    simp only [tryNew, Int.not_le.mpr haccess, Int.not_le.mpr hrefresh, Nat.not_lt.mpr hcap, if_false, haccess,
      hrefresh, hcap, and_self, true_and]
    cases span? accessMinutes 60 with
    | none => simp
    | some access =>
      cases span? refreshDays 86400 with
      | none => simp
      | some refresh =>
        simp only [Option.isNone_iff_eq_none, Option.isSome_iff_ne_none]
        grind
  · simp only [hpositive, false_and, iff_false]
    grind [tryNew]

end TokenParams

end SessionWarden
