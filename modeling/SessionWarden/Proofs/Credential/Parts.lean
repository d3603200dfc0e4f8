import Mathlib.Data.List.TakeDrop
import SessionWarden.Credential.Inspector
import SessionWarden.Proofs.Base64
import SessionWarden.Proofs.Json
/-!
# Parts of a credential

A credential is cut at its last two dots. No dot stands in a part that an issuer writes, so what is cut is what
was joined, and a part is read as the value that was written.
-/

namespace SessionWarden

namespace CredentialParts

/-! ### Cutting -/

theorem cutLast?_append (front : List Char) {tail : List Char} (h : '.' ∉ tail) :
    cutLast? (front ++ '.' :: tail) = some (front, tail) := by
  have hrev : (front ++ '.' :: tail).reverse = tail.reverse ++ '.' :: front.reverse := by
    simp only [List.reverse_append, List.reverse_cons, List.append_assoc, List.singleton_append]
  have hall : ∀ c ∈ tail.reverse, (c != '.') = true := by
    intro c hc
    exact bne_iff_ne.mpr fun heq => h (heq ▸ List.mem_reverse.mp hc)
  have hspan : (tail.reverse ++ '.' :: front.reverse).span (· != '.') = (tail.reverse, '.' :: front.reverse) := by
    rw [List.span_eq_takeWhile_dropWhile, List.takeWhile_append_of_pos hall, List.dropWhile_append_of_pos hall]
    simp only [List.takeWhile_cons_of_neg, List.dropWhile_cons_of_neg, bne_self_eq_false, Bool.false_eq_true,
      not_false_eq_true, List.append_nil]
  simp only [cutLast?, hrev, hspan, List.reverse_reverse]

theorem cutLast?_eq_some_iff {cs front tail : List Char} :
    cutLast? cs = some (front, tail) ↔ cs = front ++ '.' :: tail ∧ '.' ∉ tail := by
  constructor
  · intro h
    -- read from the end, the text is the tail up to the first dot and the front behind it
    rw [cutLast?, List.span_eq_takeWhile_dropWhile] at h
    have hcut := List.takeWhile_append_dropWhile (p := (· != '.')) (l := cs.reverse)
    cases hdrop : cs.reverse.dropWhile (· != '.') with
    | nil =>
      rw [hdrop] at h
      cases h
    | cons c rest =>
      rw [hdrop] at h hcut
      have hdot : c = '.' := by
        have hhead := List.head?_dropWhile_not (· != '.') cs.reverse
        rw [hdrop] at hhead
        simpa using hhead
      injection h with h
      injection h with hfront htail
      have hcs : cs = (cs.reverse.takeWhile (· != '.') ++ c :: rest).reverse := by
        rw [hcut, List.reverse_reverse]
      rw [List.reverse_append, List.reverse_cons, List.append_assoc, List.singleton_append, hfront, htail,
        hdot] at hcs
      refine ⟨hcs, fun hmem => ?_⟩
      rw [← htail, List.mem_reverse] at hmem
      have hall := List.all_takeWhile (p := (· != '.')) (l := cs.reverse)
      have hne := List.all_eq_true.mp hall _ hmem
      exact Bool.false_ne_true hne
  · rintro ⟨rfl, h⟩
    exact cutLast?_append front h

theorem split?_eq_some_iff {cs : List Char} {p : CredentialParts} :
    split? cs = some p ↔
      cs = (p.header ++ '.' :: p.payload) ++ '.' :: p.signature ∧ '.' ∉ p.payload ∧ '.' ∉ p.signature := by
  obtain ⟨header, payload, signature⟩ := p
  constructor
  · intro h
    obtain ⟨⟨message, s⟩, hcut, h⟩ := Option.bind_eq_some_iff.mp h
    obtain ⟨⟨hd, pl⟩, hcut', h⟩ := Option.bind_eq_some_iff.mp h
    cases h
    obtain ⟨rfl, hs⟩ := cutLast?_eq_some_iff.mp hcut
    obtain ⟨rfl, hpl⟩ := cutLast?_eq_some_iff.mp hcut'
    exact ⟨rfl, hpl, hs⟩
  · rintro ⟨rfl, hpayload, hsignature⟩
    simp only [split?, cutLast?_append _ hsignature, cutLast?_append _ hpayload, Option.bind_eq_bind,
      Option.bind_some]
    rfl

def text (p : CredentialParts) : String := String.ofList (p.header ++ '.' :: p.payload)

theorem parts_of_text {p : CredentialParts} {header payload : List Char} (h : '.' ∉ p.payload) (h' : '.' ∉ payload)
    (htext : p.text = String.ofList (header ++ '.' :: payload)) : p.header = header ∧ p.payload = payload := by
  have hchars : p.header ++ '.' :: p.payload = header ++ '.' :: payload := String.ofList_injective htext
  have hcut := cutLast?_append p.header h
  rw [hchars, cutLast?_append header h'] at hcut
  injection hcut with hcut
  injection hcut with hheader hpayload
  exact ⟨hheader.symm, hpayload.symm⟩

end CredentialParts

namespace Issuer

/-! ### What an issuer writes -/

def partChars (j : Json) : List Char := Base64.urlBare.encodeChars j.write

theorem message_eq (a : Algorithm) (claims : Claims) : message a claims =
    String.ofList (partChars (Header.ofAlgorithm a) ++ '.' :: partChars claims.toJson) := by
  apply String.toList_injective
  simp only [message, encodePart, Base64.Variant.encode, String.toList_append, String.toList_ofList, partChars]
  rw [List.append_assoc]
  rfl

theorem dot_not_mem_partChars (j : Json) : '.' ∉ partChars j := Base64.dot_not_mem_encodeChars _

theorem decodePart?_partChars (j : Json) : decodePart? (partChars j) = some j := by
  rw [decodePart?, partChars, Base64.urlBare_decodeChars_encodeChars, Option.bind_some, Json.read?_write]

theorem split?_join (a : Algorithm) (claims : Claims) (b : Bytes) :
    CredentialParts.split? (join (message a claims) (Base64.urlBare.encode b)).toList =
      some ⟨partChars (Header.ofAlgorithm a), partChars claims.toJson, Base64.urlBare.encodeChars b⟩ := by
  rw [CredentialParts.split?_eq_some_iff]
  refine ⟨?_, dot_not_mem_partChars _, Base64.dot_not_mem_encodeChars _⟩
  simp only [join, message_eq, Base64.Variant.encode, String.toList_append, String.toList_ofList]
  rw [List.append_assoc (_ ++ _)]
  rfl

end Issuer

end SessionWarden
