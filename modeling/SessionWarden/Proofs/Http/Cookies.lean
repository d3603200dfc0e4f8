import SessionWarden.Proofs.Http.Admission
import SessionWarden.Proofs.Http.Answers
import SessionWarden.Proofs.Uuid
/-!
# The refresh cookie of a response

A response sets the refresh cookie to the session that it has opened or renewed, clears it when the session has ended
or the token that was presented is of no more use, and leaves it alone otherwise.
-/

namespace SessionWarden

/-! ### Reading what sets a cookie -/

structure SetCookie where
  name : String
  value : String
  attributes : List String

/-- Reads a text that sets a cookie: the cookie stands first, its attributes follow after semicolons. -/
def SetCookie.read? (text : String) : Option SetCookie :=
  match text.toList.splitOn ';' with
  | cookie :: attributes =>
    (readCookie? cookie).map fun c => ⟨c.1, c.2, attributes.map fun part => String.ofList (trimBlanks part)⟩
  | [] => none

namespace Response

variable {response : Response} {id : TokenId} {code : ErrorCode}

def Clears (response : Response) : Prop :=
  ∃ line cookie, response.setCookie = some line ∧ SetCookie.read? line = some cookie ∧
    cookie.name = refreshCookieName ∧ cookie.value = "" ∧ "Max-Age=0" ∈ cookie.attributes

end Response

/-! ### Texts without blanks and semicolons -/

theorem trimBlanks_eq_self {cs : List Char} (h : ∀ c ∈ cs, c ≠ ' ' ∧ c ≠ '\t') : trimBlanks cs = cs := by
  have hdrop : ∀ l : List Char, (∀ c ∈ l, c ≠ ' ' ∧ c ≠ '\t') → l.dropWhile (fun c => c == ' ' || c == '\t') = l := by
    intro l hl
    cases l with
    | nil => rfl
    | cons c rest =>
      have hc := hl c List.mem_cons_self
      simp [hc]
  have hback : ∀ c ∈ cs.reverse, c ≠ ' ' ∧ c ≠ '\t' := fun c hc => h c (List.mem_reverse.mp hc)
  simp only [trimBlanks, hdrop cs h, hdrop cs.reverse hback, List.reverse_reverse]

theorem readCookie?_refresh (value : List Char) :
    readCookie? ("refresh_token=".toList ++ value) = some (refreshCookieName, String.ofList (trimBlanks value)) := by
  rfl

theorem SetCookie.read?_append {value rest : List Char} (h : ';' ∉ value) :
    read? (String.ofList ("refresh_token=".toList ++ value ++ ';' :: rest)) = some ⟨refreshCookieName,
      String.ofList (trimBlanks value), (rest.splitOn ';').map fun part => String.ofList (trimBlanks part)⟩ := by
  have hfront : ("refresh_token=".toList ++ value).splitOn ';' = ["refresh_token=".toList ++ value] := by
    refine List.splitOnP_eq_singleton fun c hc => beq_eq_false_iff_ne.mpr ?_
    rintro rfl
    rcases List.mem_append.mp hc with hname | hvalue
    · exact absurd hname (by decide)
    · exact h hvalue
  rw [read?, String.toList_ofList, List.splitOn_append_cons_self, hfront, List.singleton_append]
  simp only [readCookie?_refresh, Option.map_some]

theorem Uuid.plain_of_mem_toText {u : Uuid} {c : Char} (h : c ∈ u.toText.toList) :
    c ≠ ';' ∧ (c ≠ ' ' ∧ c ≠ '\t') ∧ 32 ≤ c.toNat ∧ c ≠ '\x7f' := by
  rcases mem_toText h with rfl | hdigit
  · decide
  · exact hdigit.elim (P := fun c => c ≠ ';' ∧ (c ≠ ' ' ∧ c ≠ '\t') ∧ 32 ≤ c.toNat ∧ c ≠ '\x7f') (by decide)

namespace Response

variable {response : Response} {path : String}

end Response

/-! ### What becomes of the cookie -/

namespace Service

variable {s : Service} {r : Request} {e : Endpoint} {t after : Table} {response : Response}

end Service

end SessionWarden
