/-!
# Instants and their written forms

An instant is a whole number of nanoseconds since the epoch, without a bound of its own; the dates that can
be represented are an interval of them, and arithmetic that may leave it answers `none`. The layer writes
instants as RFC 3339 timestamps and as dates of HTTP.
-/

namespace SessionWarden

/-- A point in time, in nanoseconds since the epoch. -/
structure Instant where
  nanos : Int
deriving DecidableEq, Repr, Inhabited

namespace Instant

def perSecond : Int := 1000000000

def ofParts (seconds nanos : Int) : Instant := ⟨seconds * perSecond + nanos⟩

def second (t : Instant) : Int := t.nanos / perSecond

def subsecond (t : Instant) : Int := t.nanos % perSecond

/-- The first instant that can be represented: the start of the year -262143. -/
def earliest : Instant := ofParts (-8334601228800) 0

/-- The last instant that can be represented: the end of the year 262142. -/
def latest : Instant := ofParts 8210266876799 999999999

def Representable (t : Instant) : Prop := earliest.nanos ≤ t.nanos ∧ t.nanos ≤ latest.nanos

instance (t : Instant) : Decidable t.Representable := inferInstanceAs (Decidable (_ ∧ _))

def add? (t : Instant) (span : Int) : Option Instant :=
  let later : Instant := ⟨t.nanos + span⟩
  if later.Representable then some later else none

instance : LT Instant := ⟨fun a b => a.nanos < b.nanos⟩

instance : LE Instant := ⟨fun a b => a.nanos ≤ b.nanos⟩

instance (a b : Instant) : Decidable (a < b) := inferInstanceAs (Decidable (a.nanos < b.nanos))

instance (a b : Instant) : Decidable (a ≤ b) := inferInstanceAs (Decidable (a.nanos ≤ b.nanos))

theorem second_ofParts {s n : Int} (h : 0 ≤ n) (hn : n < perSecond) : (ofParts s n).second = s := by
  simp only [second, ofParts, perSecond] at *
  omega

end Instant

/-! ### Civil dates -/

structure CivilDate where
  year : Int
  month : Nat
  day : Nat
deriving DecidableEq, Repr

/-- The date that is some days after the epoch. The year is taken to begin in March, so that a leap day
is the last of it. -/
def CivilDate.ofDays (days : Int) : CivilDate :=
  let shifted := days + 719468
  let era := shifted / 146097
  let dayOfEra := shifted % 146097
  let yearOfEra := (dayOfEra - dayOfEra / 1460 + dayOfEra / 36524 - dayOfEra / 146096) / 365
  let dayOfYear := dayOfEra - (365 * yearOfEra + yearOfEra / 4 - yearOfEra / 100)
  let monthIndex := (5 * dayOfYear + 2) / 153
  let day := dayOfYear - (153 * monthIndex + 2) / 5 + 1
  let month := if monthIndex < 10 then monthIndex + 3 else monthIndex - 9
  let year := yearOfEra + era * 400 + (if month ≤ 2 then 1 else 0)
  ⟨year, month.toNat, day.toNat⟩

def CivilDate.isLeapYear (year : Int) : Bool :=
  year % 4 == 0 && (year % 100 != 0 || year % 400 == 0)

/-- The days of a month, or zero if there is no such month. -/
def CivilDate.daysInMonth (year : Int) (month : Nat) : Nat :=
  match month with
  | 2 => if isLeapYear year then 29 else 28
  | 4 | 6 | 9 | 11 => 30
  | 1 | 3 | 5 | 7 | 8 | 10 | 12 => 31
  | _ => 0

structure CivilTime where
  date : CivilDate
  hour : Nat
  minute : Nat
  second : Nat
  nanos : Nat
  weekday : Nat
deriving DecidableEq, Repr

def Instant.toCivil (t : Instant) : CivilTime :=
  let days := t.second / 86400
  let rest := (t.second % 86400).toNat
  { date := CivilDate.ofDays days
    hour := rest / 3600
    minute := rest / 60 % 60
    second := rest % 60
    nanos := t.subsecond.toNat
    weekday := ((days + 4) % 7).toNat }

/-! ### Written forms -/

/-- A number in at least `width` decimal digits. -/
def paddedNat (width n : Nat) : String :=
  let d := toString n
  String.ofList (List.replicate (width - d.length) '0') ++ d

/-- A year in four digits, with a sign if it needs one. -/
def yearText (year : Int) : String :=
  if 0 ≤ year ∧ year ≤ 9999 then paddedNat 4 year.toNat
  else (if year < 0 then "-" else "+") ++ paddedNat 4 year.natAbs

/-- A fraction of a second in three, six or nine digits, as few as suffice. -/
def fractionText (nanos : Nat) : String :=
  if nanos = 0 then ""
  else if nanos % 1000000 = 0 then "." ++ paddedNat 3 (nanos / 1000000)
  else if nanos % 1000 = 0 then "." ++ paddedNat 6 (nanos / 1000)
  else "." ++ paddedNat 9 nanos

namespace CivilTime

def clockText (c : CivilTime) : String :=
  paddedNat 2 c.hour ++ ":" ++ paddedNat 2 c.minute ++ ":" ++ paddedNat 2 c.second

def weekdayNames : List String := ["Sun", "Mon", "Tue", "Wed", "Thu", "Fri", "Sat"]

def monthNames : List String :=
  ["Jan", "Feb", "Mar", "Apr", "May", "Jun", "Jul", "Aug", "Sep", "Oct", "Nov", "Dec"]

end CivilTime

namespace Instant

/-- An RFC 3339 timestamp, ending in the given name of the zone. -/
def timestamp (zone : String) (t : Instant) : String :=
  let c := t.toCivil
  yearText c.date.year ++ "-" ++ paddedNat 2 c.date.month ++ "-" ++ paddedNat 2 c.date.day ++ "T" ++
    c.clockText ++ fractionText c.nanos ++ zone

def httpDate (t : Instant) : String :=
  let c := t.toCivil
  CivilTime.weekdayNames.getD c.weekday "" ++ ", " ++ paddedNat 2 c.date.day ++ " " ++
    CivilTime.monthNames.getD (c.date.month - 1) "" ++ " " ++ yearText c.date.year ++ " " ++
    c.clockText ++ " GMT"

end Instant

end SessionWarden
