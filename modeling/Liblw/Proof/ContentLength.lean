import Liblw.Http.Request
import Liblw.Proof.Numerals

/-!
# The content length of a request

`std::from_chars` leaves the length as it was when there is no number or one that is out of range.
Since the length begins as a negative number, the check of the sign catches this too.
-/

namespace Liblw.Http

open Liblw.Lib

namespace HttpRequest

variable {request : HttpRequest} {text : Text}

/-- The text of a length: a numeral with a value from zero to the largest `int64_t`. -/
def IsLength (text : Text) : Prop :=
  IsNumeral text ∧ 0 ≤ numeralValue text ∧ numeralValue text ≤ 2 ^ 63 - 1

theorem exec_parseContentLength_none
    (hfind : request.headers.find "content-length".toList = none) :
    parseContentLength.exec request = (.ok (), { request with contentLength := 0 }) := by
  rw [parseContentLength, Call.exec_get_bind, hfind]
  rfl

/-- A length is stored, and refused if something is left of the text or it is negative. -/
theorem exec_parseContentLength_some {length : Int}
    (hfind : request.headers.find "content-length".toList = some text)
    (hlength : (fromCharsInt64 text).value.getD request.contentLength = length) :
    parseContentLength.exec request =
      (if (fromCharsInt64 text).rest ≠ [] ∨ length < 0 then
          let shown := String.ofList text
          raise .invalidArgument
            s!"Invalid Content-Length \"{shown}\"; expected a positive integer."
        else .ok (),
        { request with contentLength := length }) := by
  rw [parseContentLength, Call.exec_get_bind, hfind]
  dsimp only
  rw [Call.exec_set_bind, hlength]
  split_ifs <;> rfl

/-- A text is left over, or leaves a negative length, exactly if it is no length. -/
theorem isLength_iff (hinitial : request.contentLength = -1) (text : Text) :
    IsLength text ↔ ¬ ((fromCharsInt64 text).rest ≠ [] ∨
      (fromCharsInt64 text).value.getD request.contentLength < 0) := by
  rw [fromCharsInt64_eq]
  by_cases hnumeral : IsNumeral text
  · rw [fromCharsSigned_of_isNumeral hnumeral, IsLength]
    split_ifs with hrange
    · simp only [hnumeral, Option.getD_some]
      simp
      omega
    · simp only [hnumeral, Option.getD_none, hinitial]
      simp
      omega
  · apply iff_of_false (fun hlength => hnumeral hlength.1)
    rw [not_not]
    rcases fromCharsSigned_of_not_isNumeral hnumeral with hrest | hvalue
    · exact Or.inl hrest
    · exact Or.inr (by rw [hvalue, hinitial]; decide)

/-- What has been accepted is not negative. -/
theorem nonneg_of_parseContentLength {final : HttpRequest}
    (hexec : parseContentLength.exec request = (.ok (), final)) : 0 ≤ final.contentLength := by
  cases hfind : request.headers.find "content-length".toList with
  | none =>
      rw [exec_parseContentLength_none hfind] at hexec
      obtain ⟨-, rfl⟩ := Prod.mk.inj hexec
      exact le_rfl
  | some text =>
      rw [exec_parseContentLength_some hfind rfl] at hexec
      obtain ⟨hresult, rfl⟩ := Prod.mk.inj hexec
      by_contra hnegative
      rw [if_pos (Or.inr (not_le.mp hnegative))] at hresult
      cases hresult

theorem nonneg_of_parseHead {rawHeader : Text} {final : HttpRequest}
    (hexec : (parseHead rawHeader).exec request = (.ok (), final)) : 0 ≤ final.contentLength := by
  rw [parseHead, Call.exec_modify_bind] at hexec
  obtain ⟨methodLineEnd, middle, -, hheaders⟩ := Call.exec_bind_eq_ok hexec
  obtain ⟨_, middle', -, hlength⟩ := Call.exec_bind_eq_ok hheaders
  exact nonneg_of_parseContentLength hlength

end HttpRequest

/-- **The content length.** Without the header it is zero. A text is accepted exactly if it is a
numeral from zero to the largest `int64_t`, and then it is the number. What has been read with a
head is never negative. -/
theorem contentLength_of_head :
    (∀ request : HttpRequest, request.contentLength = -1 →
      (request.headers.find "content-length".toList = none →
        HttpRequest.parseContentLength.exec request =
          (.ok (), { request with contentLength := 0 })) ∧
      ∀ text, request.headers.find "content-length".toList = some text →
        (HttpRequest.IsLength text → HttpRequest.parseContentLength.exec request =
          (.ok (), { request with contentLength := numeralValue text })) ∧
        (¬ HttpRequest.IsLength text → ∃ message final,
          HttpRequest.parseContentLength.exec request =
            (.error (.thrown ⟨.invalidArgument, message⟩), final))) ∧
    ∀ (σ : Type) (flags : Io.ReadFlags) (allocator : Io.Allocator) (source : Io.Source σ)
      (exchange final : Exchange σ),
      (Exchange.readHeader flags allocator source).exec exchange = (.ok (), final) →
        0 ≤ final.request.contentLength := by
  refine ⟨?_, ?_⟩
  · intro request hinitial
    refine ⟨HttpRequest.exec_parseContentLength_none, ?_⟩
    intro text hfind
    refine ⟨?_, ?_⟩
    · intro hlength
      have hvalue : (fromCharsInt64 text).value.getD request.contentLength = numeralValue text := by
        obtain ⟨hnumeral, hlower, hupper⟩ := hlength
        rw [fromCharsInt64_eq, fromCharsSigned_of_isNumeral hnumeral,
          if_pos ⟨by omega, hupper⟩, Option.getD_some]
      rw [HttpRequest.exec_parseContentLength_some hfind hvalue, if_neg]
      rw [← hvalue]
      exact (HttpRequest.isLength_iff hinitial text).mp hlength
    · intro hlength
      rw [HttpRequest.isLength_iff hinitial, not_not] at hlength
      rw [HttpRequest.exec_parseContentLength_some hfind rfl, if_pos hlength]
      exact ⟨_, _, rfl⟩
  · intro σ flags allocator source exchange final hexec
    rw [Exchange.readHeader, Call.exec_get_bind] at hexec
    split_ifs at hexec
    · cases hexec
    · obtain ⟨bytes, middle, -, hhead⟩ := Call.exec_bind_eq_ok hexec
      obtain ⟨request, hparse, rfl⟩ := Call.exec_within_eq_ok hhead
      exact HttpRequest.nonneg_of_parseHead hparse

end Liblw.Http
