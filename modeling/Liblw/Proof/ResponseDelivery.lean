import Liblw.Http.Serve

/-!
# What the stream gets of a response

`finish_request` writes once and leaves aside how much the stream has taken of it.
-/

namespace Liblw.Http

open Liblw.Lib Serving

variable {E χ σ : Type} {response : HttpResponse} {bytes : Text}

theorem serialize_ne_nil (hserialize : response.serialize = .ok bytes) : bytes ≠ [] := by
  unfold HttpResponse.serialize at hserialize
  cases hmessage : response.message with
  | error fault =>
      rw [hmessage] at hserialize
      cases hserialize
  | ok message =>
      rw [hmessage] at hserialize
      rw [← Except.ok.inj hserialize]
      exact List.append_ne_nil_of_left_ne_nil (by decide) _

/-- Behind its write `finish_request` at most closes the connection. -/
theorem finishRequest_eq (request : HttpRequest) (hserialize : response.serialize = .ok bytes) :
    (finishRequest request response : Serving E χ Unit) =
      .await (.write bytes) fun answer => (.done answer : Serving E χ Nat) >>= fun _ =>
        if !request.hasHeader connectionName ||
            request.headers.find connectionName ≠ some "keep-alive".toList then
          close false
        else pure () := by
  unfold finishRequest
  rw [hserialize]
  rfl

theorem delivered_close_or_return (host : Host E χ σ) (condition : Prop) [Decidable condition]
    (state : σ) :
    delivered ((if condition then close false else pure () : Serving E χ Unit).play
      host.respond state).1 = [] := by
  split_ifs <;> rfl

theorem delivered_finishRequest (host : Host E χ σ) (request : HttpRequest)
    (hserialize : response.serialize = .ok bytes) (state : σ) {count : Nat}
    (hcount : (host.respond (.write bytes) state).1 = .ok count) :
    delivered ((finishRequest request response).play host.respond state).1 = bytes.take count := by
  rw [finishRequest_eq request hserialize]
  unfold Coroutine.play
  dsimp only
  rw [hcount, Coroutine.done_ok_bind, delivered, delivered_close_or_return, List.append_nil]

/-- The whole response reaches the stream if and only if the stream takes all of it at once. -/
theorem finishRequest_delivers_iff (host : Host E χ σ) (request : HttpRequest)
    (hserialize : response.serialize = .ok bytes) (state : σ) :
    delivered ((finishRequest request response).play host.respond state).1 = bytes ↔
      (host.respond (.write bytes) state).1 = .ok bytes.length := by
  obtain ⟨count, hcount, -, hle⟩ := host.write_accepts bytes state (serialize_ne_nil hserialize)
  rw [delivered_finishRequest host request hserialize state hcount, hcount, Except.ok.injEq]
  constructor
  · intro htake
    have hlength := congrArg List.length htake
    rw [List.length_take] at hlength
    omega
  · rintro rfl
    exact List.take_length

/-- A host whose stream takes no more than so many bytes at a time. -/
def hostTaking (limit : Nat) (hlimit : 0 < limit) : Host E χ Unit where
  respond
    | .good, state => (true, state)
    | .close _, state => (.ok (), state)
    | .readUntil _, state => (.ok [], state)
    | .write data, state => (.ok (min limit data.length), state)
    | .makeHandler _ _ response, state => (.ok response, state)
    | .handle _ _ _ response, state => (.ok response, state)
  write_accepts data state hdata := by
    have hpos : 0 < data.length := List.length_pos_iff.mpr hdata
    exact ⟨min limit data.length, rfl, by omega, by omega⟩

def emptyOk : Text := "HTTP/1.1 200 OK\r\nContent-Length: 0\r\n\r\n".toList

theorem serialize_make : HttpResponse.make.serialize = .ok emptyOk := by decide

theorem finishRequest_delivers_iff_whole :
    delivered ((finishRequest HttpRequest.make HttpResponse.make).play
        (hostTaking 100 (by decide) : Host Unit Unit Unit).respond ()).1 = emptyOk ↔
      ((hostTaking 100 (by decide) : Host Unit Unit Unit).respond (.write emptyOk) ()).1 =
        .ok emptyOk.length :=
  finishRequest_delivers_iff _ HttpRequest.make serialize_make ()

/-- A stream that takes one byte gets one byte. -/
theorem response_cut_short :
    ¬ ∀ (host : Host Unit Unit Unit) (request : HttpRequest) (response : HttpResponse)
        (bytes : Text) (state : Unit), response.serialize = .ok bytes →
      delivered ((finishRequest request response).play host.respond state).1 = bytes := by
  intro hdelivers
  have htaken := delivered_finishRequest (hostTaking 1 (by decide) : Host Unit Unit Unit)
    HttpRequest.make serialize_make () rfl
  rw [hdelivers _ _ _ emptyOk () serialize_make] at htaken
  revert htaken
  decide

end Liblw.Http
