import Mathlib.Data.String.Basic
import SessionWarden.Proofs.Calendar
/-!
# Dates of HTTP

A reader of dates in the form of HTTP, and of dates whose year may have a sign. What is written for an instant is read
as the second in which it lies; it is a date of HTTP exactly if its year has four digits.
-/

namespace SessionWarden

namespace HttpDate

def digits? (width : Nat) (cs : List Char) : Option Nat :=
  if cs.length = width ∧ cs.all Char.isDigit then some (Nat.ofDigitChars 10 cs 0) else none

def year? (cs : List Char) : Option Int := (digits? 4 cs).map Int.ofNat

/-- The year that is written in four digits, or in no fewer after a sign. -/
def signedYear? : List Char → Option Int
  | '+' :: cs => if 4 ≤ cs.length then (digits? cs.length cs).map Int.ofNat else none
  | '-' :: cs => if 4 ≤ cs.length then (digits? cs.length cs).map fun n => -Int.ofNat n else none
  | cs => year? cs

def weekday? : List Char → Option Nat
  | ['S', 'u', 'n', ','] => some 0
  | ['M', 'o', 'n', ','] => some 1
  | ['T', 'u', 'e', ','] => some 2
  | ['W', 'e', 'd', ','] => some 3
  | ['T', 'h', 'u', ','] => some 4
  | ['F', 'r', 'i', ','] => some 5
  | ['S', 'a', 't', ','] => some 6
  | _ => none

def month? : List Char → Option Nat
  | ['J', 'a', 'n'] => some 1
  | ['F', 'e', 'b'] => some 2
  | ['M', 'a', 'r'] => some 3
  | ['A', 'p', 'r'] => some 4
  | ['M', 'a', 'y'] => some 5
  | ['J', 'u', 'n'] => some 6
  | ['J', 'u', 'l'] => some 7
  | ['A', 'u', 'g'] => some 8
  | ['S', 'e', 'p'] => some 9
  | ['O', 'c', 't'] => some 10
  | ['N', 'o', 'v'] => some 11
  | ['D', 'e', 'c'] => some 12
  | _ => none

/-- The hours, minutes and seconds that are written in two digits each. -/
def clock? (cs : List Char) : Option (Nat × Nat × Nat) :=
  match cs.splitOn ':' with
  | [hour, minute, second] => do return (← digits? 2 hour, ← digits? 2 minute, ← digits? 2 second)
  | _ => none

/-- The time that a date states, if it is in the form of a date of HTTP but for its year, which is read as is given. -/
def fields? (readYear? : List Char → Option Int) (text : String) : Option CivilTime :=
  match text.toList.splitOn ' ' with
  | [weekday, day, month, year, clock, zone] => do
    let weekday ← weekday? weekday
    let day ← digits? 2 day
    let month ← month? month
    let year ← readYear? year
    let (hour, minute, second) ← clock? clock
    if zone = "GMT".toList then some ⟨⟨year, month, day⟩, hour, minute, second, 0, weekday⟩ else none
  | _ => none

end HttpDate

/-- The second after the epoch that a civil time denotes, if it is a time of the calendar with the weekday that its
date has. -/
def CivilTime.denoted? (c : CivilTime) : Option Int :=
  if c.date.Valid ∧ c.weekday = c.date.weekday ∧ c.hour < 24 ∧ c.minute < 60 ∧ c.second < 60 then
    some (c.date.dayNumber * 86400 + c.hour * 3600 + c.minute * 60 + c.second)
  else none

/-! ### Digits -/

theorem toList_paddedNat (width n : Nat) : (paddedNat width n).toList =
    List.replicate (width - (Nat.toDigits 10 n).length) '0' ++ Nat.toDigits 10 n := by
  have hlength : (toString n).length = (Nat.toDigits 10 n).length := by
    rw [Nat.toString_eq_repr, ← String.length_toList, Nat.toList_repr]
  rw [paddedNat, hlength, String.toList_append, String.toList_ofList, Nat.toString_eq_repr, Nat.toList_repr]

theorem isDigit_of_mem_paddedNat {width n : Nat} {c : Char} (h : c ∈ (paddedNat width n).toList) :
    c.isDigit = true := by
  rw [toList_paddedNat] at h
  rcases List.mem_append.mp h with hzero | hdigit
  · rw [List.eq_of_mem_replicate hzero]
    rfl
  · exact Nat.isDigit_of_mem_toDigits (by decide) (by decide) hdigit

theorem ofDigitChars_paddedNat (width n : Nat) : Nat.ofDigitChars 10 (paddedNat width n).toList 0 = n := by
  have hzeros : ∀ k, Nat.ofDigitChars 10 (List.replicate k '0') 0 = 0 := by
    intro k
    induction k with
    | zero => rfl
    | succ k ih =>
      rw [List.replicate_succ, Nat.ofDigitChars_cons]
      exact ih
  rw [toList_paddedNat, Nat.ofDigitChars_append, hzeros, Nat.ofDigitChars_ten_toDigits]

theorem length_paddedNat (width n : Nat) :
    (paddedNat width n).toList.length = max width (Nat.toDigits 10 n).length := by
  rw [toList_paddedNat, List.length_append, List.length_replicate]
  omega

theorem digits?_paddedNat {width n k : Nat} (hk : (paddedNat width n).toList.length = k) :
    HttpDate.digits? k (paddedNat width n).toList = some n := by
  have hall : (paddedNat width n).toList.all Char.isDigit = true :=
    List.all_eq_true.mpr fun _ hc => isDigit_of_mem_paddedNat hc
  rw [HttpDate.digits?, if_pos ⟨hk, hall⟩, ofDigitChars_paddedNat]

theorem length_paddedNat_of_lt {width n : Nat} (hwidth : 0 < width) (hn : n < 10 ^ width) :
    (paddedNat width n).toList.length = width := by
  rw [length_paddedNat]
  exact max_eq_left ((Nat.length_toDigits_le_iff (by decide) hwidth).mpr hn)

namespace HttpDate

theorem digits?_two {n : Nat} (hn : n < 100) : digits? 2 (paddedNat 2 n).toList = some n :=
  digits?_paddedNat (length_paddedNat_of_lt (by decide) hn)

/-! ### The year -/

theorem toList_yearText (year : Int) : (yearText year).toList =
    if 0 ≤ year ∧ year ≤ 9999 then (paddedNat 4 year.natAbs).toList
    else (if year < 0 then '-' else '+') :: (paddedNat 4 year.natAbs).toList := by
  unfold yearText
  split
  · rename_i h
    have habs : year.toNat = year.natAbs := by omega
    rw [habs]
  · split
    · rw [String.toList_append]
      rfl
    · rw [String.toList_append]
      rfl

theorem year?_yearText (year : Int) :
    year? (yearText year).toList = if 0 ≤ year ∧ year ≤ 9999 then some year else none := by
  rw [toList_yearText]
  by_cases h : 0 ≤ year ∧ year ≤ 9999
  · have hlength : (paddedNat 4 year.natAbs).toList.length = 4 := length_paddedNat_of_lt (by decide) (by omega)
    rw [if_pos h, if_pos h, year?, digits?_paddedNat hlength, Option.map_some]
    exact congrArg some (Int.natAbs_of_nonneg h.1)
  · have hsign : (if year < 0 then '-' else '+').isDigit = false := by
      split <;> rfl
    rw [if_neg h, if_neg h, year?, digits?, List.all_cons, hsign]
    simp

theorem signedYear?_eq_year? {cs : List Char} (h : cs.all Char.isDigit = true) : signedYear? cs = year? cs := by
  cases cs with
  | nil => rfl
  | cons c cs =>
    have hc : c.isDigit = true := (List.all_eq_true.mp h) c List.mem_cons_self
    have hplus : c ≠ '+' := by
      rintro rfl
      cases hc
    have hminus : c ≠ '-' := by
      rintro rfl
      cases hc
    simp [signedYear?, hplus, hminus]

theorem signedYear?_yearText (year : Int) : signedYear? (yearText year).toList = some year := by
  by_cases h : 0 ≤ year ∧ year ≤ 9999
  · have hyear := year?_yearText year
    rw [if_pos h] at hyear
    rw [signedYear?_eq_year?, hyear]
    rw [toList_yearText, if_pos h]
    exact List.all_eq_true.mpr fun _ hc => isDigit_of_mem_paddedNat hc
  · have hlength : 4 ≤ (paddedNat 4 year.natAbs).toList.length := by
      rw [length_paddedNat]
      exact Nat.le_max_left _ _
    have hdigits : digits? (paddedNat 4 year.natAbs).toList.length (paddedNat 4 year.natAbs).toList =
        some year.natAbs := digits?_paddedNat rfl
    rw [toList_yearText, if_neg h]
    split
    · rw [signedYear?, if_pos hlength, hdigits, Option.map_some]
      refine congrArg some ?_
      show -(year.natAbs : Int) = year
      omega
    · rw [signedYear?, if_pos hlength, hdigits, Option.map_some]
      refine congrArg some ?_
      show (year.natAbs : Int) = year
      omega

/-! ### The words of a date -/

theorem not_mem_paddedNat {sep : Char} (hsep : sep.isDigit = false) (width n : Nat) :
    sep ∉ (paddedNat width n).toList := by
  intro hmem
  rw [isDigit_of_mem_paddedNat hmem] at hsep
  cases hsep

def clockWords (c : CivilTime) : List (List Char) :=
  [(paddedNat 2 c.hour).toList, (paddedNat 2 c.minute).toList, (paddedNat 2 c.second).toList]

theorem toList_clockText (c : CivilTime) : c.clockText.toList = [':'].intercalate (clockWords c) := by
  simp [CivilTime.clockText, clockWords]

theorem clock?_clockText {c : CivilTime} (hhour : c.hour < 24) (hminute : c.minute < 60) (hsecond : c.second < 60) :
    clock? c.clockText.toList = some (c.hour, c.minute, c.second) := by
  have hplain : ∀ word ∈ clockWords c, ':' ∉ word := by
    simp only [clockWords, List.mem_cons, List.not_mem_nil, or_false, forall_eq_or_imp, forall_eq]
    exact ⟨not_mem_paddedNat rfl _ _, not_mem_paddedNat rfl _ _, not_mem_paddedNat rfl _ _⟩
  have hhour : c.hour < 100 := by omega
  have hminute : c.minute < 100 := by omega
  have hsecond : c.second < 100 := by omega
  rw [clock?, toList_clockText, List.splitOn_intercalate ':' hplain (List.cons_ne_nil _ _)]
  simp only [clockWords, digits?_two hhour, digits?_two hminute, digits?_two hsecond]
  rfl

/-- The weekday of a date as it is written, with the comma after it. -/
def weekdayWord (weekday : Nat) : List Char := (CivilTime.weekdayNames.getD weekday "").toList ++ [',']

def monthWord (month : Nat) : List Char := (CivilTime.monthNames.getD (month - 1) "").toList

def words (c : CivilTime) : List (List Char) :=
  [weekdayWord c.weekday, (paddedNat 2 c.date.day).toList, monthWord c.date.month, (yearText c.date.year).toList,
    c.clockText.toList, "GMT".toList]

theorem toList_httpDate (t : Instant) : t.httpDate.toList = [' '].intercalate (words t.toCivil) := by
  simp [Instant.httpDate, words, weekdayWord, monthWord]

theorem weekday?_weekdayWord {weekday : Nat} (h : weekday < 7) : weekday? (weekdayWord weekday) = some weekday := by
  have hall : ∀ n : Fin 7, weekday? (weekdayWord n) = some n.val := by decide
  exact hall ⟨weekday, h⟩

theorem month?_monthWord {month : Nat} (hlow : 1 ≤ month) (hhigh : month ≤ 12) :
    month? (monthWord month) = some month := by
  have hall : ∀ n : Fin 12, month? (monthWord (n.val + 1)) = some (n.val + 1) := by decide
  obtain ⟨n, rfl⟩ := Nat.exists_eq_add_of_le' hlow
  exact hall ⟨n, by omega⟩

theorem not_mem_words {sep : Char} (hsep : sep = ' ' ∨ sep = ';') {c : CivilTime} (hweekday : c.weekday < 7)
    (hmonth : 1 ≤ c.date.month ∧ c.date.month ≤ 12) : ∀ word ∈ words c, sep ∉ word := by
  have hdigit : sep.isDigit = false := by
    rcases hsep with rfl | rfl
    all_goals rfl
  have hyear : sep ∉ (yearText c.date.year).toList := by
    rw [toList_yearText]
    split
    · exact not_mem_paddedNat hdigit _ _
    · rw [List.mem_cons, not_or]
      refine ⟨?_, not_mem_paddedNat hdigit _ _⟩
      rcases hsep with rfl | rfl
      all_goals split <;> decide
  have hclock : sep ∉ c.clockText.toList := by
    rw [toList_clockText]
    simp only [clockWords, List.intercalate_cons_cons, List.intercalate_singleton, List.mem_append, List.mem_singleton,
      not_mem_paddedNat hdigit, false_or, or_false]
    rcases hsep with rfl | rfl
    all_goals decide
  have hfixed : ∀ weekday : Fin 7, ∀ month : Fin 12, sep ∉ weekdayWord weekday ∧ sep ∉ monthWord (month.val + 1) ∧
      sep ∉ "GMT".toList := by
    rcases hsep with rfl | rfl
    all_goals decide
  obtain ⟨month, hmonthEq⟩ := Nat.exists_eq_add_of_le' hmonth.1
  obtain ⟨hweekdayWord, hmonthWord, hzone⟩ := hfixed ⟨c.weekday, hweekday⟩ ⟨month, by omega⟩
  rw [← hmonthEq] at hmonthWord
  simp only [words, List.mem_cons, List.not_mem_nil, or_false, forall_eq_or_imp, forall_eq]
  exact ⟨hweekdayWord, not_mem_paddedNat hdigit _ _, hmonthWord, hyear, hclock, hzone⟩

theorem fields?_httpDate (readYear? : List Char → Option Int) (t : Instant) :
    fields? readYear? t.httpDate = (readYear? (yearText t.toCivil.date.year).toList).map fun year =>
      { t.toCivil with date := { t.toCivil.date with year := year }, nanos := 0 } := by
  have hcivil := t.toCivil_spec
  rw [fields?, toList_httpDate]
  generalize t.toCivil = c at *
  have hmonth : 1 ≤ c.date.month ∧ c.date.month ≤ 12 := ⟨hcivil.valid.month_pos, hcivil.valid.month_le⟩
  have hweekday : c.weekday < 7 := hcivil.weekday_eq ▸ c.date.weekday_lt
  have hday : c.date.day < 100 := by
    have hle := hcivil.valid.day_le
    have hmax := CivilDate.daysInMonth_le c.date.year c.date.month
    omega
  -- no word has a blank in it, so that a cut at the blanks gives the words back
  rw [List.splitOn_intercalate ' ' (not_mem_words (Or.inl rfl) hweekday hmonth) (List.cons_ne_nil _ _)]
  simp only [words, weekday?_weekdayWord hweekday, digits?_two hday, month?_monthWord hmonth.1 hmonth.2,
    clock?_clockText hcivil.hour_lt hcivil.minute_lt hcivil.second_lt]
  cases readYear? (yearText c.date.year).toList with
  | none => rfl
  | some year => rfl

/-! ### What a date denotes -/

def read? (text : String) : Option Int := (fields? year? text).bind CivilTime.denoted?

/-- The second after the epoch that a date denotes whose year may have a sign. -/
def readSigned? (text : String) : Option Int := (fields? signedYear? text).bind CivilTime.denoted?

end HttpDate

/-- Whether an instant lies in a year of four digits: not before the year 0 and not after the year 9999. -/
def Instant.InFourDigits (t : Instant) : Prop := -62167219200 ≤ t.second ∧ t.second < 253402300800

instance (t : Instant) : Decidable t.InFourDigits := inferInstanceAs (Decidable (_ ∧ _))

theorem Instant.inFourDigits_iff (t : Instant) :
    t.InFourDigits ↔ 0 ≤ t.toCivil.date.year ∧ t.toCivil.date.year ≤ 9999 := by
  have hdays : t.toCivil.date = CivilDate.ofDays (t.second / 86400) := rfl
  rw [hdays, CivilDate.year_mem_iff, InFourDigits]
  omega

theorem Instant.denoted?_toCivil (t : Instant) (nanos : Nat) :
    CivilTime.denoted? { t.toCivil with nanos := nanos } = some t.second := by
  have hcivil := t.toCivil_spec
  rw [hcivil.second_eq]
  exact if_pos ⟨hcivil.valid, hcivil.weekday_eq, hcivil.hour_lt, hcivil.minute_lt, hcivil.second_lt⟩

namespace HttpDate

theorem readSigned?_httpDate (t : Instant) : readSigned? t.httpDate = some t.second := by
  rw [readSigned?, fields?_httpDate, signedYear?_yearText, Option.map_some, Option.bind_some]
  exact t.denoted?_toCivil 0

/-- What is written for an instant is a date of HTTP exactly if the year has four digits. -/
theorem read?_httpDate (t : Instant) : read? t.httpDate = if t.InFourDigits then some t.second else none := by
  rw [read?, fields?_httpDate, year?_yearText]
  by_cases h : t.InFourDigits
  · rw [if_pos h, if_pos (t.inFourDigits_iff.mp h), Option.map_some, Option.bind_some]
    exact t.denoted?_toCivil 0
  · rw [if_neg h, if_neg fun hyear => h (t.inFourDigits_iff.mpr hyear), Option.map_none, Option.bind_none]

example : (Instant.ofParts 1772600767 0).httpDate = "Wed, 04 Mar 2026 05:06:07 GMT" := by decide +kernel

/-! ### The characters of a date -/

theorem not_mem_words_toCivil {sep : Char} (hsep : sep = ' ' ∨ sep = ';') (t : Instant) :
    ∀ word ∈ words t.toCivil, sep ∉ word :=
  have hcivil := t.toCivil_spec
  not_mem_words hsep (hcivil.weekday_eq ▸ t.toCivil.date.weekday_lt) ⟨hcivil.valid.month_pos, hcivil.valid.month_le⟩

theorem semicolon_not_mem_httpDate (t : Instant) : ';' ∉ t.httpDate.toList := by
  have hwords := not_mem_words_toCivil (Or.inr rfl) t
  simp only [words, List.mem_cons, List.not_mem_nil, or_false, forall_eq_or_imp, forall_eq] at hwords
  simp only [toList_httpDate, words, List.intercalate_cons_cons, List.intercalate_singleton, List.mem_append,
    List.mem_singleton, hwords, or_false, false_or]
  decide

theorem ends_httpDate (t : Instant) :
    (∃ c rest, t.httpDate.toList = c :: rest ∧ c ≠ ' ' ∧ c ≠ '\t') ∧ t.httpDate.toList.getLast? = some 'T' := by
  have hcivil := t.toCivil_spec
  have hweekday : t.toCivil.weekday < 7 := hcivil.weekday_eq ▸ t.toCivil.date.weekday_lt
  have hfirst : ∀ n : Fin 7, (weekdayWord n).head?.any (fun c => c ≠ ' ' ∧ c ≠ '\t') = true := by decide
  obtain ⟨c, hhead, hplain⟩ := (Option.any_eq_true _ _).mp (hfirst ⟨_, hweekday⟩)
  obtain ⟨rest, hword⟩ := List.head?_eq_some_iff.mp hhead
  dsimp only at hword
  have hstart : ∃ tail, t.httpDate.toList = c :: tail := by
    rw [toList_httpDate, words, hword, List.intercalate_cons_cons, List.cons_append, List.cons_append]
    exact ⟨_, rfl⟩
  obtain ⟨tail, htail⟩ := hstart
  refine ⟨⟨c, tail, htail, of_decide_eq_true hplain⟩, ?_⟩
  rw [Instant.httpDate, String.toList_append, List.getLast?_append]
  rfl

end HttpDate

end SessionWarden
