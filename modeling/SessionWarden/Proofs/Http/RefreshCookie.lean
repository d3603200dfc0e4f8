import SessionWarden.Proofs.Http.Cookies
import SessionWarden.Proofs.Http.Dates
import SessionWarden.Proofs.Http.Recognition
import SessionWarden.Proofs.Session.Ages
import SessionWarden.Proofs.Session.Stages
/-!
# What the refresh cookie says of a record

The text that sets the cookie is read as the identifier of the record and, for a session that outlives the browser, as
the date on which the record expires. A date of HTTP has no room for a year of more than four digits: of records that
expire later, or before the year 0, the cookie states a year with a sign.
-/

namespace SessionWarden

/-! ### Attributes -/

/-- The value that some attributes give to a name, whatever its case: the last of the name counts. -/
def lastValue? (name : String) (attributes : List String) : Option String :=
  attributes.reverse.findSome? fun part => (readCookie? part.toList).bind fun x =>
    if x.1.toList.map Char.toLower = name.toList then some x.2 else none

/-- The date that a cookie states, up to which it is kept. -/
def SetCookie.expires? (cookie : SetCookie) : Option String := lastValue? "expires" cookie.attributes

def attributesOf (text : List Char) : List String := (text.splitOn ';').map fun part => String.ofList (trimBlanks part)

/-- The attributes that a path makes in a cookie: one, unless there are semicolons in it. -/
def pathAttributes (path : String) : List String := attributesOf (" Path=" ++ path).toList

def cookieAttributes (path : String) (x : Record) : List String :=
  pathAttributes path ++ (["HttpOnly", "Secure", "SameSite=None"] ++
    if x.persistent then ["Expires=" ++ x.expires.httpDate] else [])

theorem lastValue?_append (name : String) (first rest : List String) :
    lastValue? name (first ++ rest) = (lastValue? name rest).or (lastValue? name first) := by
  rw [lastValue?, List.reverse_append, List.findSome?_append]
  rfl

theorem attributesOf_append (first rest : List Char) :
    attributesOf (first ++ ';' :: rest) = attributesOf first ++ attributesOf rest := by
  rw [attributesOf, List.splitOn_append_cons_self, List.map_append]
  rfl

theorem attributesOf_of_not_mem {text : List Char} (h : ';' ∉ text) :
    attributesOf text = [String.ofList (trimBlanks text)] := by
  have hsingle : text.splitOn ';' = [text] := by
    refine List.splitOnP_eq_singleton fun c hc => beq_eq_false_iff_ne.mpr ?_
    rintro rfl
    exact h hc
  rw [attributesOf, hsingle, List.map_singleton]

theorem trimBlanks_of_ends {c last : Char} {rest : List Char} (hfirst : c ≠ ' ' ∧ c ≠ '\t')
    (hlast : (c :: rest).getLast? = some last) (hend : last ≠ ' ' ∧ last ≠ '\t') :
    trimBlanks (c :: rest) = c :: rest := by
  have hfront : (c :: rest).dropWhile (fun x => x == ' ' || x == '\t') = c :: rest := by
    rw [List.dropWhile_cons_of_neg (by simp [hfirst])]
  obtain ⟨front, hfrontEq⟩ := List.getLast?_eq_some_iff.mp hlast
  have hback : (c :: rest).reverse.dropWhile (fun x => x == ' ' || x == '\t') = (c :: rest).reverse := by
    rw [hfrontEq, List.reverse_append, List.reverse_singleton, List.singleton_append,
      List.dropWhile_cons_of_neg (by simp [hend])]
  rw [trimBlanks, hfront, hback, List.reverse_reverse]

theorem attributesOf_expires (t : Instant) :
    attributesOf (" Expires=".toList ++ t.httpDate.toList) = ["Expires=" ++ t.httpDate] ∧
      lastValue? "expires" ["Expires=" ++ t.httpDate] = some t.httpDate := by
  obtain ⟨⟨c, rest, hdate, hfirst⟩, hlast⟩ := HttpDate.ends_httpDate t
  have hsemicolon : ';' ∉ " Expires=".toList ++ t.httpDate.toList := by
    rw [List.mem_append, not_or]
    exact ⟨by decide, HttpDate.semicolon_not_mem_httpDate t⟩
  have hwhole : trimBlanks ("Expires=".toList ++ t.httpDate.toList) = "Expires=".toList ++ t.httpDate.toList := by
    refine @trimBlanks_of_ends 'E' 'T' ("xpires=".toList ++ t.httpDate.toList) (by decide) ?_ (by decide)
    rw [← List.cons_append, List.getLast?_append, hlast]
    rfl
  have hblank : trimBlanks (" Expires=".toList ++ t.httpDate.toList) =
      trimBlanks ("Expires=".toList ++ t.httpDate.toList) := rfl
  have hvalue : trimBlanks t.httpDate.toList = t.httpDate.toList := by
    rw [hdate] at hlast ⊢
    exact trimBlanks_of_ends hfirst hlast (by decide)
  constructor
  · simp only [attributesOf_of_not_mem hsemicolon, hblank, hwhole, String.ofList_append, String.ofList_toList]
  · have hread : readCookie? ("Expires=".toList ++ t.httpDate.toList) =
        some ("Expires", String.ofList (trimBlanks t.httpDate.toList)) := rfl
    rw [hvalue, String.ofList_toList] at hread
    simp only [lastValue?, List.reverse_singleton, List.findSome?_cons, String.toList_append, hread, Option.bind_some]
    rfl

/-! ### The cookie as a whole -/

theorem setRefreshCookie_eq (path : String) (x : Record) : setRefreshCookie path x =
    String.ofList ("refresh_token=".toList ++ x.id.uuid.toText.toList ++ ';' :: ((" Path=" ++ path).toList ++
      ';' :: (" HttpOnly; Secure; SameSite=None".toList ++
        if x.persistent then ';' :: (" Expires=".toList ++ x.expires.httpDate.toList) else []))) := by
  refine String.toList_inj.mp ?_
  simp only [setRefreshCookie, refreshCookieName, String.toList_append, String.toList_ofList]
  split
  all_goals simp [List.append_assoc]

theorem attributesOf_lasting (path : String) (x : Record) :
    attributesOf ((" Path=" ++ path).toList ++ ';' :: (" HttpOnly; Secure; SameSite=None".toList ++
        if x.persistent then ';' :: (" Expires=".toList ++ x.expires.httpDate.toList) else [])) =
      cookieAttributes path x := by
  have hfixed : attributesOf " HttpOnly; Secure; SameSite=None".toList = ["HttpOnly", "Secure", "SameSite=None"] := by
    decide
  rw [attributesOf_append, cookieAttributes, pathAttributes]
  congr 1
  cases x.persistent with
  | false => simpa using hfixed
  | true =>
    rw [if_pos rfl, if_pos rfl, attributesOf_append, hfixed, (attributesOf_expires x.expires).1]

theorem read?_cookie (path : String) (x : Record) : SetCookie.read? (setRefreshCookie path x) =
    some ⟨refreshCookieName, x.id.uuid.toText, cookieAttributes path x⟩ := by
  have hvalue : ';' ∉ x.id.uuid.toText.toList := fun hmem => (Uuid.plain_of_mem_toText hmem).1 rfl
  have htrim : trimBlanks x.id.uuid.toText.toList = x.id.uuid.toText.toList :=
    trimBlanks_eq_self fun c hc => (Uuid.plain_of_mem_toText hc).2.1
  rw [setRefreshCookie_eq, SetCookie.read?_append hvalue, htrim, String.ofList_toList, ← attributesOf_lasting]
  rfl

/-- The date of the cookie is that of the record, unless the record is gone with the browser: then it is what the path
may have brought in. -/
theorem lastValue?_cookieAttributes (path : String) (x : Record) : lastValue? "expires" (cookieAttributes path x) =
    if x.persistent then some x.expires.httpDate else lastValue? "expires" (pathAttributes path) := by
  have hfixed : lastValue? "expires" ["HttpOnly", "Secure", "SameSite=None"] = none := by decide
  rw [cookieAttributes, lastValue?_append, lastValue?_append, hfixed, Option.or_none]
  cases x.persistent with
  | false => rfl
  | true =>
    rw [if_pos rfl, if_pos rfl, (attributesOf_expires x.expires).2]
    rfl

theorem trimBlanks_path (cs : List Char) : ∃ more, trimBlanks (" Path=".toList ++ cs) = "Path=".toList ++ more := by
  -- seen from the end, the trimming stops at the equals sign at the latest
  let isBlank : Char → Bool := fun c => c == ' ' || c == '\t'
  have hback : ("Path=".toList ++ cs).reverse.dropWhile isBlank =
      cs.reverse.dropWhile isBlank ++ "Path=".toList.reverse := by
    rw [List.reverse_append, List.dropWhile_append]
    split
    · rename_i hempty
      rw [List.isEmpty_iff.mp hempty]
      rfl
    · rfl
  refine ⟨(cs.reverse.dropWhile isBlank).reverse, ?_⟩
  show (("Path=".toList ++ cs).reverse.dropWhile isBlank).reverse = _
  rw [hback, List.reverse_append, List.reverse_reverse]

theorem lastValue?_pathAttributes {path : String} (h : ';' ∉ path.toList) :
    lastValue? "expires" (pathAttributes path) = none := by
  have hpath : ';' ∉ " Path=".toList ++ path.toList := by
    rw [List.mem_append, not_or]
    exact ⟨by decide, h⟩
  obtain ⟨more, hmore⟩ := trimBlanks_path path.toList
  have hread : readCookie? ("Path=".toList ++ more) = some ("Path", String.ofList (trimBlanks more)) := rfl
  have hname : ¬ "Path".toList.map Char.toLower = "expires".toList := by decide
  rw [pathAttributes, String.toList_append, attributesOf_of_not_mem hpath, hmore]
  simp only [lastValue?, List.reverse_singleton, List.findSome?_cons, String.toList_ofList, hread, Option.bind_some,
    if_neg hname, List.findSome?_nil]

/-! ### The way back -/

theorem splitCookies_of_not_mem {cs : List Char} (h : ';' ∉ cs) (quoted : Bool) : splitCookies quoted cs = [cs] := by
  induction cs generalizing quoted with
  | nil => rfl
  | cons c cs ih =>
    rw [List.mem_cons, not_or] at h
    rw [splitCookies, if_neg fun hc => h.1 hc.1.symm, ih h.2]

theorem refreshToken?_of_returned {r : Request} {u : Uuid}
    (h : r.headerValues "cookie" = [Bytes.ofString (refreshCookieName ++ "=" ++ u.toText)]) :
    r.refreshToken? = some ⟨u⟩ := by
  have hlist : (refreshCookieName ++ "=" ++ u.toText).toList = "refresh_token=".toList ++ u.toText.toList := by
    simp only [refreshCookieName, String.toList_append]
    rfl
  have hname : ("refresh_token=".toList.all fun c => decide (Printed c ∧ c ≠ ';')) = true := by decide
  have hdigit : ∀ c, c = '-' ∨ Hex.IsDigit c → Printed c ∧ c ≠ ';' := by
    rintro c (rfl | hc)
    · decide
    · exact hc.elim (P := fun c => Printed c ∧ c ≠ ';') (by decide)
  have hplain : ∀ c ∈ (refreshCookieName ++ "=" ++ u.toText).toList, Printed c ∧ c ≠ ';' := by
    intro c hc
    rw [hlist] at hc
    rcases List.mem_append.mp hc with hc | hc
    · exact of_decide_eq_true (List.all_eq_true.mp hname c hc)
    · exact hdigit c (Uuid.mem_toText hc)
  have hsemicolon : ';' ∉ (refreshCookieName ++ "=" ++ u.toText).toList := fun hmem => (hplain _ hmem).2 rfl
  have htrim : trimBlanks u.toText.toList = u.toText.toList :=
    trimBlanks_eq_self fun c hc => (Uuid.plain_of_mem_toText hc).2.1
  have hcookies : r.cookies = [(refreshCookieName, u.toText)] := by
    have htext := Request.valueText?_ofString fun c hc => (hplain c hc).1
    have hvalues : (r.headerValues "cookie").mapM Request.valueText? = some [refreshCookieName ++ "=" ++ u.toText] := by
      rw [h, List.mapM_cons, htext]
      rfl
    rw [hlist] at hsemicolon
    rw [Request.cookies, hvalues]
    simp only [String.intercalate_singleton, hlist, splitCookies_of_not_mem hsemicolon, List.filterMap_cons,
      readCookie?_refresh, htrim, String.ofList_toList, List.filterMap_nil]
  rw [Request.refreshToken?, Request.cookie?, hcookies]
  simp [Uuid.parse_toText]

/-! ### What the cookie says -/

/-- How a cookie that was set under a path reflects a record. -/
structure SetCookie.Reflects (cookie : SetCookie) (path : String) (x : Record) : Prop where
  name_eq : cookie.name = refreshCookieName
  /-- The value is read as the identifier, and a request that brings the cookie back carries it. -/
  parse_value : Uuid.parse cookie.value = .ok x.id.uuid
  returned : ∀ r : Request, r.headerValues "cookie" = [Bytes.ofString (cookie.name ++ "=" ++ cookie.value)] →
    r.refreshToken? = some x.id
  /-- The cookie goes with the browser if the session does, unless the path brings a date of its own. -/
  expires_eq_none_iff :
    cookie.expires? = none ↔ x.persistent = false ∧ lastValue? "expires" (pathAttributes path) = none
  plain_path : ';' ∉ path.toList → lastValue? "expires" (pathAttributes path) = none
  /-- The date denotes the second of the expiry, and is a date of HTTP exactly if the year has four digits. -/
  dated : x.persistent = true → ∃ date, cookie.expires? = some date ∧
    HttpDate.readSigned? date = some x.expires.second ∧
    HttpDate.read? date = if x.expires.InFourDigits then some x.expires.second else none

theorem reflects_setRefreshCookie (path : String) (x : Record) :
    ∃ cookie, SetCookie.read? (setRefreshCookie path x) = some cookie ∧ cookie.Reflects path x := by
  refine ⟨_, read?_cookie path x, ?_⟩
  constructor
  · rfl
  · exact Uuid.parse_toText x.id.uuid
  · exact fun r h => refreshToken?_of_returned h
  · rw [SetCookie.expires?, lastValue?_cookieAttributes]
    cases x.persistent <;> simp
  · exact lastValue?_pathAttributes
  · intro hpersistent
    refine ⟨x.expires.httpDate, ?_, HttpDate.readSigned?_httpDate _, HttpDate.read?_httpDate _⟩
    rw [SetCookie.expires?, lastValue?_cookieAttributes, if_pos hpersistent]

/-! ### Records that are handed out -/

/-- Whether a record was made under an age in days: it expires so many days after a reading of the clock, on a date
that can be represented. -/
structure Record.Dated (x : Record) (events : List Event) (refreshDays : Int) : Prop where
  representable : x.expires.Representable
  expires_eq : ∃ time, ⟨.now, time⟩ ∈ events ∧ x.expires = time.after (TokenParams.refreshAgeOf refreshDays)

theorem Instant.of_add? {t later : Instant} {span : Int} (h : t.add? span = some later) :
    later.Representable ∧ later = t.after span := by
  simp only [add?] at h
  split at h
  · rename_i hrepresentable
    obtain rfl := Option.some.inj h
    exact ⟨hrepresentable, rfl⟩
  · cases h

theorem Engine.Makes.dated {e : Engine} {events : List Event} {user : UserId} {signal : Bytes} {persistent : Bool}
    {x : Record} {refreshDays : Int} (h : e.Makes events user signal persistent x)
    (hage : e.params.refreshAge = TokenParams.refreshAgeOf refreshDays) : x.Dated events refreshDays := by
  obtain ⟨time, htime, hmade⟩ := h.made
  obtain ⟨expires, hadd, hx⟩ := Option.map_eq_some_iff.mp hmade
  obtain rfl : expires = x.expires := congrArg Record.expires hx
  obtain ⟨hrepresentable, heq⟩ := Instant.of_add? hadd
  exact ⟨hrepresentable, time, htime, hage ▸ heq⟩

theorem makes_of_create {e : Engine} {user : UserId} {signal : Bytes} {persistent : Bool} {t after : Table}
    {events : List Event} {p : TokenPair} (h : (e.create user signal persistent).Runs t events (.ok p) after) :
    e.Makes events user signal persistent p.refresh := by
  cases runs_open h with
  | opened evict make issue new mid access hroom hmake hissue => exact hmake.makes fun ev hev => by simp [hev]

theorem makes_of_refresh {e : Engine} {id : TokenId} {signal : Bytes} {t after : Table} {events : List Event}
    {p : TokenPair} (h : (e.refresh id signal).Runs t events (.ok p) after) :
    ∃ old, t.get id = some old ∧ e.Makes events old.user signal old.persistent p.refresh := by
  cases runs_refresh h with
  | renewed look make turn issue old new asked access after hlook hmake hturn hissue =>
    exact ⟨old, hlook.eq_some.1, hmake.makes fun ev hev => by simp [hev]⟩

theorem exists_create_run (e : Engine) {o : FaultFree} (haccess : (o.time.add? e.params.accessAge).isSome)
    (hrefresh : (o.time.add? e.params.refreshAge).isSome) (user : UserId) (signal : Bytes) (persistent : Bool)
    (t : Table) : ∃ events p after, (e.create user signal persistent).Runs t events (.ok p) after ∧
      p.refresh = (e.entryOn o user signal persistent).record user := by
  obtain ⟨events, r, after, hruns, hfits⟩ :=
    Script.exists_fitting_run (e.create user signal persistent).run o t
  obtain ⟨-, -, -, rfl, -⟩ := (runs_open hruns).of_fits hfits haccess hrefresh
  exact ⟨events, _, after, hruns, rfl⟩

/-- Whatever parameters were taken and whatever the clock shows, the cookie for a record that a login or a renewal has
made says of the record what it is: its identifier, whether it outlives the browser, and when it expires. -/
theorem cookie_reflects_record {judged : Instant} {accessMinutes refreshDays : Int} {cap : Nat} {e : Engine}
    (hjudged : judged.Representable) (hparams : TokenParams.tryNew judged accessMinutes refreshDays cap = .ok e.params)
    (path : String) :
    (∀ (user : UserId) (signal : Bytes) (persistent : Bool) (t after : Table) (events : List Event) (p : TokenPair),
      (e.create user signal persistent).Runs t events (.ok p) after →
        p.refresh.persistent = persistent ∧ p.refresh.Dated events refreshDays ∧
        ∃ cookie, SetCookie.read? (setRefreshCookie path p.refresh) = some cookie ∧ cookie.Reflects path p.refresh) ∧
    ∀ (id : TokenId) (signal : Bytes) (t after : Table) (events : List Event) (p : TokenPair),
      (e.refresh id signal).Runs t events (.ok p) after →
        (∃ old, t.get id = some old ∧ p.refresh.persistent = old.persistent) ∧ p.refresh.Dated events refreshDays ∧
        ∃ cookie, SetCookie.read? (setRefreshCookie path p.refresh) = some cookie ∧ cookie.Reflects path p.refresh := by
  obtain ⟨-, -, -, -, hp⟩ := (TokenParams.tryNew_eq_ok_iff_expiriesFit hjudged).mp hparams
  have hage : e.params.refreshAge = TokenParams.refreshAgeOf refreshDays := congrArg TokenParams.refreshAge hp
  constructor
  · intro user signal persistent t after events p hruns
    have hmakes := makes_of_create hruns
    exact ⟨hmakes.persistent_eq, hmakes.dated hage, reflects_setRefreshCookie path p.refresh⟩
  · intro id signal t after events p hruns
    obtain ⟨old, hold, hmakes⟩ := makes_of_refresh hruns
    exact ⟨⟨old, hold, hmakes.persistent_eq⟩, hmakes.dated hage, reflects_setRefreshCookie path p.refresh⟩

theorem cookie_reflects_record_of_sample : (⟨0⟩ : Instant).Representable ∧
    TokenParams.tryNew ⟨0⟩ 15 1 2 = .ok Engine.sample.params ∧
    ∃ events p after, (Engine.sample.create default [] true).Runs .empty events (.ok p) after ∧
      p.refresh.Dated events 1 ∧ ∃ cookie, SetCookie.read? (setRefreshCookie "/" p.refresh) = some cookie ∧
        cookie.Reflects "/" p.refresh ∧ ∃ date, cookie.expires? = some date ∧ HttpDate.read? date = some 86400 := by
  have hepoch : (⟨0⟩ : Instant).Representable := by decide
  have htaken : TokenParams.tryNew ⟨0⟩ 15 1 2 = .ok Engine.sample.params := by decide
  obtain ⟨events, p, after, hruns, hp⟩ :=
    exists_create_run Engine.sample (o := .sample) (by decide) (by decide) default [] true .empty
  obtain ⟨hpersistent, hdated, cookie, hread, hreflects⟩ :=
    (cookie_reflects_record hepoch htaken "/").1 default [] true .empty after events p hruns
  obtain ⟨date, hdate, -, hdenotes⟩ := hreflects.dated hpersistent
  have hfour : p.refresh.expires.InFourDigits := by
    rw [hp]
    decide
  have hsecond : p.refresh.expires.second = 86400 := by
    rw [hp]
    decide
  rw [if_pos hfour, hsecond] at hdenotes
  exact ⟨hepoch, htaken, events, p, after, hruns, hdated, cookie, hread, hreflects, date, hdate, hdenotes⟩

def Engine.lasting : Engine := { Engine.sample with params := ⟨900000000000, 253402300800000000000, 2⟩ }

/-- Not every date that a cookie states is one of HTTP, and not every cookie of a session that goes with the browser is
without a date. -/
theorem cookie_not_always_plain :
    (TokenParams.tryNew ⟨0⟩ 15 2932897 2 = .ok Engine.lasting.params ∧
      ∃ events p after, (Engine.lasting.create default [] true).Runs .empty events (.ok p) after ∧
        ∃ cookie, SetCookie.read? (setRefreshCookie "/" p.refresh) = some cookie ∧
          cookie.expires? = some "Sat, 01 Jan +10000 00:00:00 GMT" ∧
          HttpDate.read? "Sat, 01 Jan +10000 00:00:00 GMT" = none) ∧
    (TokenParams.tryNew ⟨0⟩ 15 1 2 = .ok Engine.sample.params ∧
      ∃ events p after, (Engine.sample.create default [] false).Runs .empty events (.ok p) after ∧
        p.refresh.persistent = false ∧
        ∃ cookie, SetCookie.read? (setRefreshCookie "/; Expires=Thu, 01 Jan 1970 00:00:00 GMT" p.refresh) =
          some cookie ∧ cookie.expires? = some "Thu, 01 Jan 1970 00:00:00 GMT") := by
  refine ⟨⟨by decide, ?_⟩, by decide, ?_⟩
  · obtain ⟨events, p, after, hruns, hp⟩ :=
      exists_create_run Engine.lasting (o := .sample) (by decide) (by decide) default [] true .empty
    have hdate : p.refresh.expires.httpDate = "Sat, 01 Jan +10000 00:00:00 GMT" := by
      rw [hp]
      decide +kernel
    have hfar : ¬ p.refresh.expires.InFourDigits := by
      rw [hp]
      decide
    have hpersistent : p.refresh.persistent = true := by rw [hp]; rfl
    refine ⟨events, p, after, hruns, _, read?_cookie "/" p.refresh, ?_, ?_⟩
    · rw [SetCookie.expires?, lastValue?_cookieAttributes, if_pos hpersistent, hdate]
    · rw [← hdate, HttpDate.read?_httpDate, if_neg hfar]
  · obtain ⟨events, p, after, hruns, hp⟩ :=
      exists_create_run Engine.sample (o := .sample) (by decide) (by decide) default [] false .empty
    have hpersistent : p.refresh.persistent = false := by rw [hp]; rfl
    refine ⟨events, p, after, hruns, hpersistent, _, read?_cookie _ p.refresh, ?_⟩
    rw [SetCookie.expires?, lastValue?_cookieAttributes, hpersistent, if_neg (by decide)]
    decide +kernel

end SessionWarden
