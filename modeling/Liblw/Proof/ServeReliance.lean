import Liblw.Proof.HeadErrors

/-!
# What a run relies on

A round of the loop ends in a value while its answers are as expected, and in an exception at the
first one that is not.
-/

namespace Liblw.Http

open Liblw.Lib Serving

variable {E χ α β : Type}

theorem harmless_error (exception : Exception χ) :
    harmless (.error exception : Except (Exception χ) α) = exception.isError := rfl

section Reliance

variable {engine : RegexEngine} {what : Error → Text} {trie : EndpointTrie E}

/-- The answers are as expected, and the result is harmless. -/
abbrev RunsOver (engine : RegexEngine) (trie : EndpointTrie E) (serving : Serving E χ α) : Prop :=
  serving.Relies (fun query answer => expects engine trie query answer = true)
    fun result => harmless result = true

theorem runsOver_pure (value : α) : RunsOver engine trie (pure value : Serving E χ α) := rfl

theorem runsOver_ofResult {result : Result α}
    (hresult : ∀ fault, result = .error fault → Fault.IsThrown fault) :
    RunsOver engine trie (ofResult result : Serving E χ α) := by
  cases result with
  | ok value => exact runsOver_pure value
  | error fault =>
      obtain ⟨error, rfl⟩ := hresult fault rfl
      rfl

theorem RunsOver.bind {serving : Serving E χ α} {next : α → Serving E χ β}
    (hfirst : RunsOver engine trie serving) (hnext : ∀ value, RunsOver engine trie (next value)) :
    RunsOver engine trie (serving >>= next) := by
  apply Coroutine.Relies.bind hfirst
  · exact fun value _ => hnext value
  · exact fun value hvalue => absurd rfl hvalue
  · exact fun error => Iff.rfl

theorem runsOver_write (data : Text) : RunsOver engine trie (write data : Serving E χ Nat) :=
  Coroutine.relies_await (fun _ hanswer => hanswer) fun answer hanswer => ⟨answer, hanswer, rfl⟩

theorem runsOver_close : RunsOver engine trie (close false : Serving E χ Unit) :=
  Coroutine.relies_await (fun _ hanswer => hanswer) fun answer hanswer => ⟨answer, hanswer, rfl⟩

theorem runsOver_makeHandler (endpoint : E) (request : HttpRequest) (response : HttpResponse) :
    RunsOver engine trie (makeHandler endpoint request response : Serving E χ HttpResponse) :=
  Coroutine.relies_await (fun _ hanswer => hanswer) fun answer hanswer => ⟨answer, hanswer, rfl⟩

theorem runsOver_handle (endpoint : E) (method : Method) (request : HttpRequest)
    (response : HttpResponse) :
    RunsOver engine trie (handle endpoint method request response : Serving E χ HttpResponse) :=
  Coroutine.relies_await (fun _ hanswer => hanswer) fun answer hanswer => ⟨answer, hanswer, rfl⟩

theorem isThrown_of_serialize {response : HttpResponse} {fault : Fault}
    (hserialize : response.serialize = .error fault) : Fault.IsThrown fault := by
  unfold HttpResponse.serialize HttpResponse.message defaultStatusMessage at hserialize
  split_ifs at hserialize
  · split at hserialize
    · cases hserialize
    · exact ⟨_, (Except.error.inj hserialize).symm⟩
  · cases hserialize

theorem runsOver_finishRequest (request : HttpRequest) (response : HttpResponse) :
    RunsOver engine trie (finishRequest request response : Serving E χ Unit) := by
  unfold finishRequest
  apply (runsOver_ofResult fun fault => isThrown_of_serialize).bind
  intro bytes
  apply (runsOver_write bytes).bind
  intro count
  split_ifs
  · exact runsOver_close
  · exact runsOver_pure ()

/-- The request was read, and `match` has an answer for its path. -/
def Routed (engine : RegexEngine) (trie : EndpointTrie E) :
    Except (Exception χ) (Bool × HttpRequest × HttpResponse) → Prop
  | .ok (true, request, _) => (trie.match engine request.path).isOk = true
  | .ok (false, _, _) => True
  | .error exception => exception.isError = true

theorem routed_read (request : HttpRequest) (response : HttpResponse) :
    Routed engine trie (.ok (true, request, response) : Except (Exception χ) _) ↔
      (trie.match engine request.path).isOk = true := Iff.rfl

theorem relies_catchMalformed {request : HttpRequest} {result : Except (Exception χ) Unit}
    (response : HttpResponse) (hresult : harmless result = true)
    (hrouted : result = .ok () → (trie.match engine request.path).isOk = true) :
    (catchMalformed what request response result : Serving E χ _).Relies
      (fun query answer => expects engine trie query answer = true) (Routed engine trie) := by
  unfold catchMalformed
  split
  · exact hrouted rfl
  · split_ifs
    · exact trivial
    · rfl
  · exact hresult

theorem catchMalformed_rethrow {exception : Exception χ} (request : HttpRequest)
    (response : HttpResponse) (hexception : ¬ exception.isError = true) :
    (catchMalformed what request response (.error exception) : Serving E χ _) =
      .done (.error exception) := by
  unfold catchMalformed
  split
  · cases ‹_›
  · cases ‹Except.error exception = _›
    exact absurd rfl hexception
  · cases ‹Except.error exception = _›
    rfl

/-- Taking a head apart leads to no exception that `run` lets through. -/
theorem harmless_parseHead {rawHeader : Text} {result : Result Unit}
    {request final : HttpRequest}
    (hexec : (HttpRequest.parseHead rawHeader).exec request = (result, final)) :
    harmless (result.mapError .fault : Except (Exception χ) Unit) = true := by
  cases result with
  | ok value => rfl
  | error fault =>
      obtain ⟨error, rfl⟩ := HttpRequest.errorsAre_parseHead rawHeader request fault final hexec
      rfl

theorem relies_tryReadHeader (response : HttpResponse) :
    (tryReadHeader what HttpRequest.make response : Serving E χ _).Relies
      (fun query answer => expects engine trie query answer = true) (Routed engine trie) := by
  unfold tryReadHeader readHeader
  rw [if_neg (by simp [HttpRequest.make])]
  apply Coroutine.relies_await
  · intro answer hanswer
    cases answer with
    | error exception => exact relies_catchMalformed response hanswer nofun
    | ok bytes =>
        rcases hexec : (HttpRequest.parseHead (textOfBytes bytes)).exec HttpRequest.make with
          ⟨result, request⟩
        simp only [expects, hexec] at hanswer
        simp only [hexec]
        apply relies_catchMalformed response (harmless_parseHead hexec)
        intro hresult
        cases result with
        | ok value => exact hanswer
        | error fault => cases hresult
  · intro answer hanswer
    cases answer with
    | error exception =>
        exact ⟨.error exception, hanswer, catchMalformed_rethrow _ response hanswer⟩
    | ok bytes =>
        rcases hexec : (HttpRequest.parseHead (textOfBytes bytes)).exec HttpRequest.make with
          ⟨result, request⟩
        simp only [expects, hexec] at hanswer
        cases result with
        | ok value =>
            refine ⟨.ok (true, request, response), hanswer, ?_⟩
            simp only [hexec]
            rfl
        | error fault => exact absurd rfl hanswer

theorem walkLoop_eq_error {path : Text} {rounds : Nat} {walk : EndpointTrie.Walk} {fault : Fault}
    (hwalk : EndpointTrie.walkLoop engine trie path rounds walk = .error fault) :
    fault = .diverged := by
  induction rounds generalizing walk with
  | zero => exact (Except.error.inj hwalk).symm
  | succ rounds ih =>
      unfold EndpointTrie.walkLoop at hwalk
      split at hwalk
      · cases hwalk
      · split at hwalk
        · cases hwalk
        · exact ih hwalk

/-- Where `match` has no answer, what happens is no exception that `run` catches. -/
theorem isError_of_match {path : Text} {fault : Fault}
    (hmatch : trie.match engine path = .error fault) :
    (Exception.fault fault : Exception χ).isError = false := by
  unfold EndpointTrie.match at hmatch
  split at hmatch
  · rename_i hwalk
    rw [Except.error.injEq] at hmatch
    rw [← hmatch, walkLoop_eq_error hwalk]
    rfl
  · cases hmatch
  · split_ifs at hmatch
    · rw [← Except.error.inj hmatch]
      rfl

theorem runsOver_runRequest :
    RunsOver engine trie (runRequest engine what trie : Serving E χ Unit) := by
  unfold runRequest
  apply Coroutine.Relies.bind (relies_tryReadHeader HttpResponse.make)
  · rintro ⟨headed, request, response⟩ hrouted
    cases headed with
    | false => exact runsOver_finishRequest request response
    | true =>
        cases hmatch : trie.match engine request.path with
        | error fault =>
            rw [routed_read, hmatch] at hrouted
            cases hrouted
        | ok result =>
            dsimp only
            rw [hmatch]
            cases result with
            | none => exact runsOver_finishRequest request _
            | some found =>
                apply (runsOver_makeHandler found.1 _ response).bind
                intro response
                cases methodOf request.method with
                | some method =>
                    apply (runsOver_handle found.1 method _ response).bind
                    exact fun response => runsOver_finishRequest _ response
                | none => exact runsOver_finishRequest _ _
  · rintro ⟨headed, request, response⟩ hrouted
    cases headed with
    | false => exact absurd trivial hrouted
    | true =>
        cases hmatch : trie.match engine request.path with
        | error fault =>
            refine ⟨.error (.fault fault), ?_, ?_⟩
            · change ¬ (Exception.fault fault : Exception χ).isError = true
              rw [isError_of_match hmatch]
              exact Bool.false_ne_true
            · dsimp only
              rw [hmatch]
              rfl
        | ok result =>
            rw [routed_read, hmatch] at hrouted
            exact absurd rfl hrouted
  · exact fun error => Iff.rfl

/-- The result of a round is a value. -/
abbrev GoesOn (engine : RegexEngine) (trie : EndpointTrie E) (serving : Serving E χ α) : Prop :=
  serving.Relies (fun query answer => expects engine trie query answer = true)
    fun result => result.isOk = true

/-- What the loop does about an `Error`. -/
theorem goesOn_caught :
    GoesOn engine trie (do
      if ← good then close true
      pure true : Serving E χ Bool) := by
  apply Coroutine.relies_await
  · intro answer _
    cases answer with
    | false => rfl
    | true =>
        apply Coroutine.relies_await
        · intro result hresult
          cases result with
          | ok value => rfl
          | error exception => cases hresult
        · intro result hresult
          cases result with
          | ok value => exact absurd rfl hresult
          | error exception => exact ⟨.error exception, hresult, rfl⟩
  · exact fun answer hanswer => absurd rfl hanswer

theorem goesOn_runRound :
    GoesOn engine trie (runRound engine what trie : Serving E χ Bool) := by
  unfold runRound
  apply Coroutine.relies_await
  · intro answer _
    cases answer with
    | false => rfl
    | true =>
        apply Coroutine.Relies.catching (runsOver_runRequest.bind fun _ => runsOver_pure true)
        · intro exception hexception
          rw [harmless_error] at hexception
          rw [if_pos hexception]
          exact goesOn_caught
        · intro exception hexception
          rw [harmless_error] at hexception
          refine ⟨.error exception, Bool.false_ne_true, ?_⟩
          rw [if_neg hexception]
          rfl
        · exact fun value => Iff.rfl
  · exact fun answer hanswer => absurd rfl hanswer

end Reliance

end Liblw.Http
