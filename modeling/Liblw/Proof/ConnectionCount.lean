import Liblw.Http.Connections
import Liblw.Proof.Routing
import Liblw.Proof.ServeReliance

/-!
# The number of connections

The counter is the number of the active runs and of those that an exception has ended. Each answer
that a run does not get over makes one more of the latter.
-/

namespace Liblw.Http

open Liblw.Lib Serving

variable {E χ : Type} {engine : RegexEngine} {what : Error → Text} {trie : EndpointTrie E}

/-- An exception has left the run. -/
def Stage.hasEscaped : Stage E χ → Bool
  | .ended (.error _) => true
  | _ => false

/-- A run that goes on relies on its answers. -/
def Stage.IsReliant (engine : RegexEngine) (trie : EndpointTrie E) : Stage E χ → Prop
  | .running rest => GoesOn engine trie rest
  | _ => True

theorem countP_set_add {α : Type} {stages : List α} {i : Nat} {old : α} (p : α → Bool) (new : α)
    (hold : stages[i]? = some old) :
    (stages.set i new).countP p + (p old).toNat = stages.countP p + (p new).toNat := by
  induction stages generalizing i with
  | nil => cases hold
  | cons stage stages ih =>
      cases i with
      | zero =>
          obtain rfl := Option.some.inj hold
          rw [List.set_cons_zero, List.countP_cons, List.countP_cons]
          cases p stage <;> cases p new <;> simp
      | succ i =>
          have hrest := ih hold
          rw [List.set_cons_succ, List.countP_cons, List.countP_cons]
          omega

namespace HttpRouter

variable {router before after final : HttpRouter E χ} {actions : List (Action E χ)}

def escaped (router : HttpRouter E χ) : Nat := router.runs.countP Stage.hasEscaped

/-- The stage that a run is in behind its next steps. -/
def stageOf (engine : RegexEngine) (what : Error → Text) (trie : EndpointTrie E) :
    Serving E χ Bool → Stage E χ
  | .done (.ok true) => .running (runRound engine what trie)
  | .done (.ok false) => .ended (.ok ())
  | .done (.error exception) => .ended (.error exception)
  | .await query resume => .running (.await query resume)

theorem goOn_runs (router : HttpRouter E χ) (i : Nat) (rest : Serving E χ Bool) :
    (goOn engine what trie router i rest).runs =
      router.runs.set i (stageOf engine what trie rest) := by
  unfold goOn stageOf
  split <;> rfl

variable (engine what trie) in
/-- What a step of a run does to the numbers of the active and of the escaped runs. -/
theorem counts_goOn {i : Nat} {stage : Stage E χ} (rest : Serving E χ Bool)
    (hrun : router.runs[i]? = some stage) :
    (goOn engine what trie router i rest).active + stage.isRunning.toNat =
        router.active + (stageOf engine what trie rest).isRunning.toNat ∧
      (goOn engine what trie router i rest).escaped + stage.hasEscaped.toNat =
        router.escaped + (stageOf engine what trie rest).hasEscaped.toNat := by
  unfold active escaped
  rw [goOn_runs]
  exact ⟨countP_set_add _ _ hrun, countP_set_add _ _ hrun⟩

theorem counter_goOn (router : HttpRouter E χ) (i : Nat) (rest : Serving E χ Bool) :
    (goOn engine what trie router i rest).connectionCounter =
      router.connectionCounter - (1 - (stageOf engine what trie rest).isRunning.toNat -
        (stageOf engine what trie rest).hasEscaped.toNat) := by
  unfold goOn stageOf
  split <;> rfl

/-- The counter is as far ahead of the active and the escaped runs as the step of a run was begun
with it. -/
theorem goOn_balanced {i : Nat} {stage : Stage E χ} (rest : Serving E χ Bool)
    (hrun : router.runs[i]? = some stage) (hstage : stage.hasEscaped = false)
    (hcounter : router.connectionCounter + stage.isRunning.toNat =
      router.active + router.escaped + 1) :
    (goOn engine what trie router i rest).connectionCounter =
      (goOn engine what trie router i rest).active +
        (goOn engine what trie router i rest).escaped := by
  obtain ⟨hactive, hescaped⟩ := counts_goOn engine what trie rest hrun
  have hone : (stageOf engine what trie rest).isRunning.toNat +
      (stageOf engine what trie rest).hasEscaped.toNat ≤ 1 := by
    unfold stageOf
    split <;> simp [Stage.isRunning, Stage.hasEscaped]
  rw [hstage] at hescaped
  rw [counter_goOn]
  simp only [Bool.toNat_false] at hescaped
  omega

/-! ### One step -/

/-- All runs that go on rely on their answers. -/
def IsReliant (engine : RegexEngine) (trie : EndpointTrie E) (router : HttpRouter E χ) : Prop :=
  ∀ stage ∈ router.runs, stage.IsReliant engine trie

theorem step_balanced {action : Action E χ} (hstep : Step engine what trie before action after)
    (hcounter : before.connectionCounter = before.active + before.escaped) :
    after.connectionCounter = after.active + after.escaped := by
  cases hstep with
  | hand =>
      unfold active escaped at hcounter ⊢
      simpa [Stage.isRunning, Stage.hasEscaped] using hcounter
  | start hrun =>
      refine goOn_balanced _ hrun rfl ?_
      change before.connectionCounter + 1 + 0 = before.active + before.escaped + 1
      omega
  | answer hrun answer =>
      apply goOn_balanced _ hrun rfl
      rw [hcounter]
      rfl

theorem isReliant_make : (make : HttpRouter E χ).IsReliant engine trie := by
  intro stage hmem
  cases hmem

theorem isReliant_goOn {i : Nat} {rest : Serving E χ Bool} (hreliant : router.IsReliant engine trie)
    (hrest : (stageOf engine what trie rest).IsReliant engine trie) :
    (goOn engine what trie router i rest).IsReliant engine trie := by
  intro stage hmem
  rw [goOn_runs] at hmem
  rcases List.mem_or_eq_of_mem_set hmem with hmem | rfl
  · exact hreliant stage hmem
  · exact hrest

theorem isReliant_stageOf {rest : Serving E χ Bool} (hrest : GoesOn engine trie rest) :
    (stageOf engine what trie rest).IsReliant engine trie := by
  unfold stageOf
  split
  · exact goesOn_runRound
  · trivial
  · trivial
  · exact hrest

theorem hasEscaped_stageOf {rest : Serving E χ Bool} (hrest : GoesOn engine trie rest) :
    (stageOf engine what trie rest).hasEscaped = false := by
  unfold stageOf
  split
  · rfl
  · rfl
  · cases hrest
  · rfl

/-- One step: the runs stay reliant, and an exception leaves one if and only if its answer is not as
expected. -/
theorem step_escaped {action : Action E χ} (hstep : Step engine what trie before action after)
    (hreliant : before.IsReliant engine trie) :
    after.IsReliant engine trie ∧
      after.escaped = before.escaped + (!action.isExpected engine trie).toNat := by
  cases hstep with
  | hand =>
      constructor
      · intro stage hmem
        rcases List.mem_append.mp hmem with hmem | hmem
        · exact hreliant stage hmem
        · rw [List.mem_singleton.mp hmem]
          trivial
      · simp [escaped, Stage.hasEscaped, Action.isExpected]
  | start hrun =>
      refine ⟨isReliant_goOn hreliant (isReliant_stageOf goesOn_runRound), ?_⟩
      exact (@counts_goOn E χ engine what trie { before with connectionCounter := _ } _ _
        (runRound engine what trie) hrun).2
  | @answer i query resume hrun answer =>
      have hrest := hreliant _ (List.mem_of_getElem? hrun) answer
      have hescaped := (counts_goOn engine what trie (resume answer) hrun).2
      by_cases hanswer : expects engine trie query answer = true
      · have hgoes := hrest.1 hanswer
        refine ⟨isReliant_goOn hreliant (isReliant_stageOf hgoes), ?_⟩
        rw [hasEscaped_stageOf hgoes] at hescaped
        change _ = before.escaped + (!expects engine trie query answer).toNat
        rw [hanswer]
        exact hescaped
      · obtain ⟨result, hresult, hresume⟩ := hrest.2 hanswer
        have hfailed : (stageOf engine what trie (resume answer)).hasEscaped = true := by
          rw [hresume]
          cases result with
          | ok value => exact absurd rfl hresult
          | error exception => rfl
        constructor
        · apply isReliant_goOn hreliant
          rw [hresume]
          cases result with
          | ok value => exact absurd rfl hresult
          | error exception => trivial
        · rw [hfailed] at hescaped
          change _ = before.escaped + (!expects engine trie query answer).toNat
          rw [Bool.eq_false_of_not_eq_true hanswer]
          exact hescaped

/-! ### Runs -/

theorem run_balanced (hrun : Run (Step engine what trie) make actions final) :
    final.connectionCount = final.active + final.escaped :=
  hrun.preserves (fun router => router.connectionCounter = router.active + router.escaped)
    (fun (_ : True) => step_balanced) (fun _ _ => trivial) rfl

theorem run_escaped {start : HttpRouter E χ}
    (hrun : Run (Step engine what trie) start actions final)
    (hreliant : start.IsReliant engine trie) :
    final.escaped =
      start.escaped + actions.countP fun action => !action.isExpected engine trie := by
  induction hrun with
  | nil => rfl
  | cons hstep _ ih =>
      obtain ⟨hmiddle, hescaped⟩ := step_escaped hstep hreliant
      rw [ih hmiddle, hescaped, List.countP_cons]
      cases Action.isExpected engine trie _ <;>
        simp only [Bool.not_false, Bool.not_true, Bool.toNat_false, Bool.toNat_true, if_true,
          Bool.false_eq_true, if_false] <;> omega

/-- The count is ahead of the active runs by one for each answer that was not as expected. -/
theorem run_connectionCount (hrun : Run (Step engine what trie) make actions final) :
    final.connectionCount =
      final.active + actions.countP fun action => !action.isExpected engine trie := by
  rw [run_balanced hrun, run_escaped hrun isReliant_make]
  exact congrArg (final.active + ·) (Nat.zero_add _)

theorem active_eq_zero (hended : ∀ stage ∈ router.runs, stage.hasEnded) : router.active = 0 := by
  unfold active
  rw [List.countP_eq_zero]
  intro stage hmem
  have hstage := hended stage hmem
  cases stage with
  | running rest => cases hstage
  | scheduled => exact Bool.false_ne_true
  | ended result => exact Bool.false_ne_true

/-- The connections balance in a run if and only if all of its answers are as expected. -/
theorem balanced_iff (hrun : Run (Step engine what trie) make actions final) :
    Balanced engine what trie actions final ↔
      ∀ action ∈ actions, action.isExpected engine trie = true := by
  constructor
  · intro hbalanced action hmem
    have hcount := hbalanced.counts final hrun.visits_final
    rw [run_connectionCount hrun, Nat.add_eq_left, List.countP_eq_zero] at hcount
    simpa using hcount action hmem
  · intro hexpected
    have hcounts : ∀ router, Run.Visits (Step engine what trie) make actions final router →
        router.connectionCount = router.active := by
      rintro router ⟨earlier, later, rfl, hearlier, -⟩
      rw [run_connectionCount hearlier, Nat.add_eq_left, List.countP_eq_zero]
      intro action hmem
      rw [hexpected action (List.mem_append_left later hmem)]
      exact Bool.false_ne_true
    refine ⟨hcounts, fun hended => ?_⟩
    have hzero : final.connectionCount = 0 := by
      rw [hcounts final hrun.visits_final, active_eq_zero hended]
    refine ⟨hzero, fun server hserver => ?_⟩
    rw [Net.Server.tryClose_iff]
    intro entry hmem
    rcases hserver entry hmem with hrouter | hidle
    · rw [hrouter]
      exact hzero
    · exact hidle

end HttpRouter

/-! ### A handler that throws -/

section Handled

variable {bytes : List UInt8} {request : HttpRequest} {endpoint : E} {parameters : HeadersView}
  {method : Method} {exception : Exception χ}

/-- Where a head has been read, `try_read_header` returns with the request. -/
theorem tryReadHeader_ok (response : HttpResponse)
    (hexec : (HttpRequest.parseHead (textOfBytes bytes)).exec HttpRequest.make =
      (.ok (), request)) :
    ∃ resume, (tryReadHeader what HttpRequest.make response : Serving E χ _) =
        .await (.readUntil Exchange.headEnd) resume ∧
      resume (.ok bytes) = .done (.ok (true, request, response)) := by
  refine ⟨_, rfl, ?_⟩
  dsimp only
  rw [hexec]
  rfl

/-- Where the path has a handler for the method, an exception of the handler leaves
`run_request`. -/
theorem runRequest_handled
    (hexec : (HttpRequest.parseHead (textOfBytes bytes)).exec HttpRequest.make = (.ok (), request))
    (hmatch : trie.match engine request.path = .ok (some (endpoint, parameters)))
    (hmethod : methodOf request.method = some method) :
    ∃ headed, (runRequest engine what trie : Serving E χ Unit) =
        .await (.readUntil Exchange.headEnd) headed ∧
      ∃ made, headed (.ok bytes) =
        .await (.makeHandler endpoint { request with routeParams := parameters } .make) made ∧
      ∃ handled, made (.ok .make) =
        .await (.handle endpoint method { request with routeParams := parameters } .make) handled ∧
      ∀ exception, handled (.error exception) = .done (.error exception) := by
  obtain ⟨resume, hresume, hbytes⟩ := @tryReadHeader_ok E χ what bytes request .make hexec
  unfold runRequest
  rw [hresume]
  refine ⟨_, rfl, ?_⟩
  dsimp only
  rw [hbytes]
  simp only [Coroutine.andThen, hmatch, hmethod]
  exact ⟨_, rfl, _, rfl, fun _ => rfl⟩

/-- A run that ends with what its handler has thrown. -/
theorem exists_run_handled
    (hexec : (HttpRequest.parseHead (textOfBytes bytes)).exec HttpRequest.make = (.ok (), request))
    (hmatch : trie.match engine request.path = .ok (some (endpoint, parameters)))
    (hmethod : methodOf request.method = some method) (hexception : exception.isError = false) :
    ∃ actions, Run (HttpRouter.Step engine what trie) HttpRouter.make actions
      ⟨1, [.ended (.error exception)]⟩ := by
  obtain ⟨headed, hheaded, made, hmade, handled, hhandled, hescapes⟩ :=
    @runRequest_handled E χ engine what trie _ _ _ _ _ hexec hmatch hmethod
  refine ⟨[.hand, .start 0, .answer 0 ⟨.good, true⟩,
    .answer 0 ⟨.readUntil Exchange.headEnd, .ok bytes⟩,
    .answer 0 ⟨.makeHandler endpoint { request with routeParams := parameters } .make, .ok .make⟩,
    .answer 0 ⟨.handle endpoint method { request with routeParams := parameters } .make,
      .error exception⟩], ?_⟩
  apply Run.cons (.hand _)
  apply Run.cons (.start rfl)
  apply Run.cons (.answer rfl _)
  dsimp only
  rw [hheaded]
  apply Run.cons (.answer rfl _)
  dsimp only
  rw [hmade]
  apply Run.cons (.answer rfl _)
  dsimp only
  rw [hhandled]
  apply Run.cons (.answer rfl _)
  dsimp only
  rw [hescapes]
  simp only [Coroutine.andThen, Coroutine.catching, hexception]
  exact .nil _

end Handled

open EndpointTrie in
theorem balanced_iff_closed :
    HttpRouter.Balanced plainEngine (fun _ => []) (trieOf ["/x"])
        [.hand, .start 0, .answer 0 ⟨.good, false⟩]
        (⟨0, [.ended (.ok ())]⟩ : HttpRouter Text Unit) ↔
      ∀ action ∈ ([.hand, .start 0, .answer 0 ⟨.good, false⟩] : List (HttpRouter.Action Text Unit)),
        action.isExpected plainEngine (trieOf ["/x"]) = true :=
  HttpRouter.balanced_iff (.cons (.hand _) (.cons (.start rfl) (.cons (.answer rfl _) (.nil _))))

def getText : Text := "GET /x HTTP/1.1\r\n\r\n".toList

def getRequest : HttpRequest :=
  { HttpRequest.make with
    rawHeader := getText
    httpVersion := "HTTP/1.1".toList
    method := "GET".toList
    path := "/x".toList
    rawPath := "/x".toList
    contentLength := 0 }

theorem exec_parseHead_getText :
    (HttpRequest.parseHead (textOfBytes (getText.map fun c => UInt8.ofNat c.toNat))).exec
      HttpRequest.make = (.ok (), getRequest) := by decide

open EndpointTrie in
/-- A handler throws `std::out_of_range`, and its connection is counted for ever. -/
theorem not_balanced :
    ¬ ∀ (actions : List (HttpRouter.Action Text Unit)) (final : HttpRouter Text Unit),
      Run (HttpRouter.Step plainEngine (fun _ => []) (trieOf ["/x"])) HttpRouter.make actions
          final →
      HttpRouter.Balanced plainEngine (fun _ => []) (trieOf ["/x"]) actions final := by
  intro hbalanced
  have hmatch : (trieOf ["/x"]).match plainEngine getRequest.path =
      .ok (some ("/x".toList, [])) := by decide
  have hexception : (.fault (.standard .outOfRange) : Exception Unit).isError = false := rfl
  obtain ⟨actions, hrun⟩ := @exists_run_handled Text Unit plainEngine (fun _ => []) _ _ _ _ _ .get _
    exec_parseHead_getText hmatch (by decide) hexception
  have hcount := (hbalanced actions _ hrun).counts _ hrun.visits_final
  cases hcount

end Liblw.Http
