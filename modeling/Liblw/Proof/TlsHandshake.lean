import Liblw.Proof.HandshakeRounds

/-!
# TLS handshakes come to an end

Neither end of a handshake waits for bytes that the other one still has, and a round costs bytes
that were received. So both ends complete, in whatever order they go on.
-/

namespace Liblw.Net

open Liblw.Lib

/-! ### Both ends -/

namespace Link

variable {σ : Side → Type} {ssl : ∀ side, HandshakeSsl (σ side)}
  (engine : ∀ side, (ssl side).Engine) {size : Side → Nat}

/-- What has come of the bytes that were taken out of a session: they are received by the other one,
in flight or about to be written. -/
def account (link : Link σ) (side : Side) : List UInt8 :=
  (engine side.other).received (link.party side.other).session ++
    (link.inFlight side ++ (link.party side).stage.unwritten)

/-- Nothing comes that was not taken out of a session, and nothing changes its order. -/
structure Invariant (link : Link σ) : Prop where
  party : ∀ side, (link.party side).Invariant (engine side)
  accounts : ∀ side,
    (link.account engine side).Sublist ((engine side).taken (link.party side).session)

/-- Nothing is lost. -/
def Conserves (link : Link σ) : Prop :=
  ∀ side, link.account engine side = (engine side).taken (link.party side).session

def Drained (size : Side → Nat) (link : Link σ) : Prop :=
  ∀ side, (link.party side).Drained (engine side) (toInt (size side)).toNat

def progress (link : Link σ) : Nat :=
  (link.party .client).progress (engine .client) + (link.party .server).progress (engine .server)

variable {engine} {before after : Link σ} {action : Action}

theorem progress_update {side : Side} {party : Party (σ side)} {inFlight : Side → List UInt8}
    (hparty : (before.party side).progress (engine side) < party.progress (engine side)) :
    before.progress engine <
      (Link.mk (Function.update before.party side party) inFlight).progress engine := by
  unfold progress
  dsimp only
  cases side with
  | client =>
      rw [Function.update_self, Function.update_of_ne (by decide)]
      omega
  | server =>
      rw [Function.update_self, Function.update_of_ne (by decide)]
      omega

theorem account_other (link : Link σ) (side : Side) :
    link.account engine side.other = (engine side).received (link.party side).session ++
      (link.inFlight side.other ++ (link.party side.other).stage.unwritten) := by
  cases side <;> rfl

/-- The bytes that a step takes out of a session are accounted for, up to what a write loses. -/
def Accounts (engine : ∀ side, (ssl side).Engine) (before : Link σ) (action : Action)
    (after : Link σ) (side : Side) : Prop :=
  ∃ bytes, (engine side).taken (after.party side).session =
      (engine side).taken (before.party side).session ++ bytes ∧
    (after.account engine side).Sublist (before.account engine side ++ bytes) ∧
    (action.Whole → after.account engine side = before.account engine side ++ bytes)

theorem Accounts.of_eq {side : Side} (bytes : List UInt8)
    (htaken : (engine side).taken (after.party side).session =
      (engine side).taken (before.party side).session ++ bytes)
    (haccount : after.account engine side = before.account engine side ++ bytes) :
    Accounts engine before action after side :=
  ⟨bytes, htaken, haccount ▸ List.Sublist.refl _, fun _ => haccount⟩

/-- One end has moved. The other direction is accounted for by what the end has received. -/
theorem accounts_update {side : Side} {party : Party (σ side)} {inFlight : Side → List UInt8}
    (hfrom : Accounts engine before action
      (Link.mk (Function.update before.party side party) inFlight) side)
    (hto : (engine side).received party.session ++
        (inFlight side.other ++ (before.party side.other).stage.unwritten) =
      before.account engine side.other) (every : Side) :
    Accounts engine before action (Link.mk (Function.update before.party side party) inFlight)
      every := by
  obtain rfl | rfl := side.eq_or_eq_other every
  · exact hfrom
  · apply Accounts.of_eq []
    · dsimp only
      rw [Function.update_of_ne side.other_ne, List.append_nil]
    · rw [account_other, List.append_nil, ← hto]
      dsimp only
      rw [Function.update_self, Function.update_of_ne side.other_ne]

theorem party_update (hparties : ∀ side, (before.party side).Invariant (engine side)) {side : Side}
    {party : Party (σ side)} (hparty : party.Invariant (engine side)) (every : Side) :
    (Function.update before.party side party every).Invariant (engine every) := by
  by_cases hevery : every = side
  · subst hevery
    rwa [Function.update_self]
  · rw [Function.update_of_ne hevery]
    exact hparties every

/-- Every step brings its end on, and accounts for the bytes. -/
theorem accounts_of_step (hparties : ∀ side, (before.party side).Invariant (engine side))
    (hstep : Step ssl size before action after) :
    (∀ side, (after.party side).Invariant (engine side)) ∧
      before.progress engine < after.progress engine ∧
      ∀ side, Accounts engine before action after side := by
  cases hstep with
  | @goOn side party hparty =>
      have hgoes := Party.goes_of_goOn (hparties side) hparty
      refine ⟨party_update hparties hgoes.invariant, progress_update hgoes.progress,
        accounts_update (.of_eq party.stage.unwritten ?_ ?_) ?_⟩
      · dsimp only
        rw [Function.update_self, hgoes.taken]
      · unfold account
        dsimp only
        rw [Function.update_self, Function.update_of_ne side.other_ne, hgoes.unwritten,
          List.append_nil, List.append_assoc]
      · rw [hgoes.received, account_other]
  | @write side bytes taken lost hstage htaken =>
      have hparty := hparties side
      unfold Party.Invariant at hparty
      rw [hstage] at hparty
      have hbefore : before.account engine side = (Link.mk
            (Function.update before.party side ⟨(before.party side).session, .asking⟩)
            (Function.update before.inFlight side (before.inFlight side ++ taken))).account
              engine side ++ lost := by
        unfold account
        dsimp only
        rw [Function.update_self, Function.update_self, Function.update_of_ne side.other_ne,
          hstage, htaken]
        simp only [Stage.unwritten, List.append_assoc, List.append_nil]
      refine ⟨party_update hparties hparty, progress_update ?_,
        accounts_update ⟨[], ?_, ?_, ?_⟩ ?_⟩
      · simp only [Party.progress, Party.rank, hstage]
        omega
      · dsimp only
        rw [Function.update_self, List.append_nil]
      · rw [List.append_nil, hbefore]
        exact List.sublist_append_left _ _
      · intro hwhole
        rw [hbefore, show lost = [] from hwhole, List.append_nil, List.append_nil]
      · dsimp only
        rw [account_other, Function.update_of_ne side.other_ne]
  | @read side bytes rest hstage hbytes hsome hsize =>
      have hprogress := Party.progress_receive hstage (hparties side) hsome
      obtain ⟨-, hreceived, htaken, -⟩ :=
        (engine side).bioWriteAll bytes (before.party side).session
      refine ⟨party_update hparties ?_, progress_update hprogress,
        accounts_update (.of_eq [] ?_ ?_) ?_⟩
      · rw [Party.receive_eq (engine side)]
        trivial
      · dsimp only
        rw [Function.update_self, Party.receive_eq (engine side), htaken, List.append_nil]
      · unfold account
        dsimp only
        rw [Function.update_self, Party.receive_eq (engine side),
          Function.update_of_ne side.other_ne, Function.update_of_ne side.other_ne.symm, hstage,
          List.append_nil]
        rfl
      · rw [Party.receive_eq (engine side), Function.update_self, hreceived, account_other, hbytes]
        simp only [List.append_assoc]

theorem Invariant.step (hinv : before.Invariant engine)
    (hstep : Step ssl size before action after) :
    after.Invariant engine ∧ before.progress engine < after.progress engine := by
  obtain ⟨hparties, hprogress, haccounts⟩ := accounts_of_step hinv.party hstep
  refine ⟨⟨hparties, fun side => ?_⟩, hprogress⟩
  obtain ⟨bytes, htaken, hkept, -⟩ := haccounts side
  rw [htaken]
  exact hkept.trans ((hinv.accounts side).append (.refl bytes))

theorem Conserves.step (hwhole : action.Whole) (hinv : before.Invariant engine)
    (hconserves : before.Conserves engine) (hstep : Step ssl size before action after) :
    after.Conserves engine := by
  obtain ⟨-, -, haccounts⟩ := accounts_of_step hinv.party hstep
  intro side
  obtain ⟨bytes, htaken, -, hkept⟩ := haccounts side
  rw [htaken, hkept hwhole, hconserves side]

theorem Drained.update (hdrained : before.Drained engine size) {side : Side}
    {party : Party (σ side)} {inFlight : Side → List UInt8}
    (hparty : party.Drained (engine side) (toInt (size side)).toNat) :
    (Link.mk (Function.update before.party side party) inFlight).Drained engine size := by
  intro other
  by_cases hother : other = side
  · subst hother
    dsimp only
    rwa [Function.update_self]
  · dsimp only
    rw [Function.update_of_ne hother]
    exact hdrained other

theorem Drained.step (hfits : ∀ side, (engine side).Fits (toInt (size side)).toNat)
    (hinv : before.Invariant engine) (hdrained : before.Drained engine size)
    (hstep : Step ssl size before action after) : after.Drained engine size := by
  cases hstep with
  | @goOn side party hparty =>
      have hgoes := Party.goes_of_goOn (hinv.party side) hparty
      exact hdrained.update (hgoes.drained (hfits side) (hdrained side))
  | @write side bytes taken lost hstage htaken =>
      have hparty := hdrained side
      unfold Party.Drained at hparty
      rw [hstage] at hparty
      exact hdrained.update hparty
  | @read side bytes rest hstage hbytes hsome hsize =>
      have hparty := hdrained side
      unfold Party.Drained at hparty
      rw [hstage] at hparty
      obtain ⟨-, -, -, hpending, -⟩ := (engine side).bioWriteAll bytes (before.party side).session
      refine hdrained.update ?_
      rw [Party.receive_eq (engine side)]
      exact hpending.trans hparty

section Start

variable {session : ∀ side, σ side}

theorem conserves_start (hfresh : ∀ side, (engine side).Fresh (session side)) :
    (start session).Conserves engine := by
  intro side
  obtain ⟨htaken, -, -⟩ := hfresh side
  obtain ⟨-, hreceived, -⟩ := hfresh side.other
  simp only [account, start, htaken, hreceived, Stage.unwritten, List.append_nil]

theorem invariant_start (hfresh : ∀ side, (engine side).Fresh (session side)) :
    (start session).Invariant engine where
  party := fun _ => trivial
  accounts := fun side => conserves_start hfresh side ▸ List.Sublist.refl _

theorem drained_start (hfresh : ∀ side, (engine side).Fresh (session side)) :
    (start session).Drained engine size := fun side => (hfresh side).2.2

theorem progress_start (hfresh : ∀ side, (engine side).Fresh (session side)) :
    (start session).progress engine = 0 := by
  obtain ⟨-, hclient, -⟩ := hfresh .client
  obtain ⟨-, hserver, -⟩ := hfresh .server
  simp only [progress, start, Party.progress, Party.rank, hclient, hserver, List.length_nil]

end Start

/-- An end that cannot go on has read all that is in flight, or is done. -/
theorem reading_or_done {link : Link σ} {side : Side} (hsize : 0 < size side)
    (hstuck : ∀ action next, ¬ Step ssl size link action next) :
    ((link.party side).stage = .reading ∧ link.inFlight side.other = []) ∨
      (link.party side).stage = .completed ∨ ∃ fault, (link.party side).stage = .failed fault := by
  have hgo : (link.party side).goOn (ssl side) (size side) = none := by
    cases hparty : (link.party side).goOn (ssl side) (size side) with
    | none => rfl
    | some party => exact (hstuck _ _ (.goOn hparty)).elim
  unfold Party.goOn at hgo
  cases hstage : (link.party side).stage with
  | reading =>
      refine .inl ⟨rfl, ?_⟩
      cases hflight : link.inFlight side.other with
      | nil => rfl
      | cons byte rest =>
          exact (hstuck (.read side [byte]) _
            (.read hstage hflight (List.cons_ne_nil _ _) hsize)).elim
  | writing bytes => exact (hstuck _ _ (.write hstage (List.append_nil _).symm)).elim
  | completed => exact .inr (.inl rfl)
  | failed fault => exact .inr (.inr ⟨fault, rfl⟩)
  | entering => rw [hstage] at hgo; exact nomatch hgo
  | round => rw [hstage] at hgo; exact nomatch hgo
  | asking => rw [hstage] at hgo; exact nomatch hgo
  | deciding => rw [hstage] at hgo; exact nomatch hgo

theorem Invariant.received_sublist {link : Link σ} (hinv : link.Invariant engine) (side : Side) :
    ((engine side.other).received (link.party side.other).session).Sublist
      ((engine side).emitted (link.party side).session) :=
  (List.sublist_append_left _ _).trans
    ((hinv.accounts side).trans (List.sublist_append_left _ _))

/-- What an end has received is what the other one has put out, as far as it has come. -/
theorem Conserves.received_beginning {link : Link σ} (hconserves : link.Conserves engine)
    (side : Side) :
    (engine side.other).received (link.party side.other).session <+:
      (engine side).emitted (link.party side).session := by
  unfold HandshakeSsl.Engine.emitted
  rw [← hconserves side, account, List.append_assoc]
  exact List.prefix_append _ _

/-- An end that reads or is done holds nothing back. -/
theorem Drained.holds_nothing {link : Link σ} (hdrained : link.Drained engine size) {side : Side}
    (hstage : (link.party side).stage = .reading ∨ (link.party side).stage = .completed) :
    (engine side).pending (link.party side).session = [] ∧
      (link.party side).stage.unwritten = [] := by
  have hparty := hdrained side
  unfold Party.Drained at hparty
  rcases hstage with hreading | hcompleted
  · rw [hreading] at hparty ⊢
    exact ⟨hparty, rfl⟩
  · rw [hcompleted] at hparty ⊢
    exact ⟨hparty, rfl⟩

/-- An end that reads while nothing is in flight waits with all that the other one has put out. -/
theorem Invariant.waits_of_reading {link : Link σ} (hinv : link.Invariant engine)
    (hconserves : link.Conserves engine) {side : Side}
    (hreading : (link.party side).stage = .reading) (hflight : link.inFlight side.other = [])
    (hother : (engine side.other).pending (link.party side.other).session = [] ∧
      (link.party side.other).stage.unwritten = []) :
    (engine side).waits (link.party side).session ∧
      (engine side).received (link.party side).session =
        (engine side.other).emitted (link.party side.other).session := by
  have hwaits := hinv.party side
  unfold Party.Invariant at hwaits
  rw [hreading] at hwaits
  refine ⟨hwaits, ?_⟩
  unfold HandshakeSsl.Engine.emitted
  rw [hother.1, ← hconserves side.other, account_other, hflight, hother.2, List.append_nil,
    List.append_nil, List.append_nil]

/-- Where neither end can go on and neither has failed, both are done. -/
theorem completed_of_stuck {link : Link σ} (hcompatible : HandshakeSsl.Compatible engine)
    (hsize : ∀ side, 0 < size side) (hinv : link.Invariant engine)
    (hconserves : link.Conserves engine) (hdrained : link.Drained engine size)
    (hstuck : ∀ action next, ¬ Step ssl size link action next)
    (hsound : ∀ side fault, (link.party side).stage ≠ .failed fault) (side : Side) :
    (link.party side).stage = .completed := by
  have hstage : ∀ side, ((link.party side).stage = .reading ∧ link.inFlight side.other = []) ∨
      (link.party side).stage = .completed := fun side =>
    (reading_or_done (hsize side) hstuck).imp_right fun hdone =>
      hdone.resolve_right fun ⟨fault, hfailed⟩ => hsound side fault hfailed
  have hwaiting : ∀ side, (link.party side).stage = .reading →
      (engine side).waits (link.party side).session ∧
        (engine side).received (link.party side).session =
          (engine side.other).emitted (link.party side.other).session := by
    intro side hreading
    have hflight : link.inFlight side.other = [] :=
      ((hstage side).resolve_right fun hcompleted => nomatch hreading.symm.trans hcompleted).2
    exact hinv.waits_of_reading hconserves hreading hflight
      (hdrained.holds_nothing ((hstage side.other).imp_left And.left))
  by_contra hnot
  have hreading : (link.party side).stage = .reading := ((hstage side).resolve_right hnot).1
  rcases hstage side.other with ⟨hother, -⟩ | hother
  · have hboth : ∀ side, (link.party side).stage = .reading := by
      intro every
      cases side <;> cases every <;> assumption
    exact hcompatible.waiting (fun side => (link.party side).session)
      (fun side => (hwaiting side (hboth side)).2) fun side => (hwaiting side (hboth side)).1
  · have hfinished := hinv.party side.other
    unfold Party.Invariant at hfinished
    rw [hother] at hfinished
    obtain ⟨hwaits, hall⟩ := hwaiting side hreading
    exact hcompatible.finished (fun side => (link.party side).session) side hall hfinished hwaits

theorem not_step_of_completed {link : Link σ}
    (hcompleted : ∀ side, (link.party side).stage = .completed) (action : Action) (next : Link σ) :
    ¬ Step ssl size link action next := by
  intro hstep
  cases hstep with
  | @goOn side party hparty =>
      unfold Party.goOn at hparty
      rw [hcompleted side] at hparty
      exact nomatch hparty
  | @write side bytes taken lost hstage => exact nomatch (hcompleted side).symm.trans hstage
  | @read side bytes rest hstage => exact nomatch (hcompleted side).symm.trans hstage

section Run

variable {session : ∀ side, σ side} {actions : List Action} {final : Link σ}

theorem conserves_of_whole (hfresh : ∀ side, (engine side).Fresh (session side))
    (hrun : Run (Step ssl size) (start session) actions final)
    (hwhole : ∀ action ∈ actions, action.Whole) : final.Conserves engine :=
  (hrun.preserves (fun link => link.Invariant engine ∧ link.Conserves engine)
    (fun hwhole hstep hboth => ⟨(hboth.1.step hstep).1, hboth.2.step hwhole hboth.1 hstep⟩)
    hwhole ⟨invariant_start hfresh, conserves_start hfresh⟩).2

/-- `handshake` at both ends, where no part of the handshake is longer than the write buffer and the
raw streams take every write as a whole: an end never waits for ever, in whatever order the two go
on. -/
theorem handshakes_complete (hfresh : ∀ side, (engine side).Fresh (session side))
    (hfits : ∀ side, (engine side).Fits (toInt (size side)).toNat) (hsize : ∀ side, 0 < size side)
    (hcompatible : HandshakeSsl.Compatible engine)
    (hrun : Run (Step ssl size) (start session) actions final)
    (hwhole : ∀ action ∈ actions, action.Whole)
    (hstuck : ∀ action next, ¬ Step ssl size final action next)
    (hsound : ∀ side fault, (final.party side).stage ≠ .failed fault) (side : Side) :
    (final.party side).stage = .completed ∧
      (ssl side).sslIsInitFinished (final.party side).session = true ∧
      (engine side.other).received (final.party side.other).session ++ final.inFlight side =
        (engine side).emitted (final.party side).session := by
  obtain ⟨hinv, hdrained⟩ := hrun.preserves
    (fun link => link.Invariant engine ∧ link.Drained engine size)
    (fun _ hstep hboth => ⟨(hboth.1.step hstep).1, hboth.2.step hfits hboth.1 hstep⟩)
    (fun _ _ => trivial) ⟨invariant_start hfresh, drained_start hfresh⟩
  have hconserves := conserves_of_whole hfresh hrun hwhole
  have hcompleted := completed_of_stuck hcompatible hsize hinv hconserves hdrained hstuck hsound
    side
  have hfinished := hinv.party side
  unfold Party.Invariant at hfinished
  rw [hcompleted] at hfinished
  obtain ⟨hpending, hunwritten⟩ := hdrained.holds_nothing (.inr hcompleted)
  refine ⟨hcompleted, hfinished, ?_⟩
  unfold HandshakeSsl.Engine.emitted
  rw [hpending, ← hconserves side, account, hunwritten, List.append_nil, List.append_nil]

/-- `handshake` never turns round and round: every round but the last costs an end bytes that it has
received. These are of what the other end has put out and in its order, and they are its beginning
where the raw streams take every write as a whole. -/
theorem handshakes_terminate (hfresh : ∀ side, (engine side).Fresh (session side))
    (hrun : Run (Step ssl size) (start session) actions final) :
    actions.length ≤ 5 * (((engine .client).received (final.party .client).session).length +
        ((engine .server).received (final.party .server).session).length) + 10 ∧
      (∀ side, ((engine side.other).received (final.party side.other).session).Sublist
        ((engine side).emitted (final.party side).session)) ∧
      ((∀ action ∈ actions, action.Whole) → ∀ side,
        (engine side.other).received (final.party side.other).session <+:
          (engine side).emitted (final.party side).session) := by
  obtain ⟨hinv, hlength⟩ := hrun.raises (fun link => link.Invariant engine)
    (fun link => link.progress engine) (fun hinv hstep => hinv.step hstep) (invariant_start hfresh)
  refine ⟨?_, hinv.received_sublist, fun hwhole =>
    (conserves_of_whole hfresh hrun hwhole).received_beginning⟩
  have hclient := Party.rank_le (ssl .client) (final.party .client)
  have hserver := Party.rank_le (ssl .server) (final.party .server)
  rw [progress_start hfresh] at hlength
  unfold progress Party.progress at hlength
  omega

end Run

end Link

/-! ### A handshake of one byte from either end -/

/-- A session that puts out one byte and is finished when it has received one. -/
structure Greeting where
  taken : List UInt8 := []
  pending : List UInt8 := []
  received : List UInt8 := []
  finished : Bool := false

namespace Greeting

def greeted (session : Greeting) : Bool := session.taken ++ session.pending ≠ []

def sslIsInitFinished (session : Greeting) : Bool := session.finished && session.greeted

def sslDoHandshake (session : Greeting) : Int × Greeting :=
  (if session.received = [] then -1 else 1,
    { session with
      pending := if session.greeted then session.pending else [22]
      finished := session.received ≠ [] })

def bioRead (num : Int) (session : Greeting) : (Int × List UInt8) × Greeting :=
  if num ≤ 0 then ((0, []), session)
  else if session.pending = [] then ((-1, []), session)
  else
    let bytes := session.pending.take num.toNat
    ((bytes.length, bytes),
      { session with taken := session.taken ++ bytes, pending := session.pending.drop num.toNat })

def bioWriteAll (data : List UInt8) (session : Greeting) : Bool × Greeting :=
  (true, { session with received := session.received ++ data })

def ssl : HandshakeSsl Greeting where
  sslWrite := fun _ _ session => (-1, session)
  sslRead := fun _ session => ((-1, []), session)
  sslGetError := fun ret _ => if ret = 1 then .none else .wantRead
  bioWriteAll := bioWriteAll
  bioRead := bioRead
  bioShouldRetry := fun _ => true
  errorText := fun _ => none
  systemError := fun _ => none
  sslIsInitFinished := sslIsInitFinished
  sslDoHandshake := sslDoHandshake
  errorString := fun _ => "error"

theorem emitted_bioRead (num : Int) (session : Greeting) :
    (bioRead num session).2.taken ++ (bioRead num session).2.pending =
      session.taken ++ session.pending := by
  unfold bioRead
  split_ifs with hnum hpending
  · rfl
  · rfl
  · rw [List.append_assoc, List.take_append_drop]

theorem kept_bioRead (num : Int) (session : Greeting) :
    (bioRead num session).2.received = session.received ∧
      (bioRead num session).2.finished = session.finished ∧
        (bioRead num session).2.greeted = session.greeted := by
  refine ⟨?_, ?_, ?_⟩
  · unfold bioRead
    split_ifs <;> rfl
  · unfold bioRead
    split_ifs <;> rfl
  · unfold greeted
    rw [emitted_bioRead]

theorem greeted_sslDoHandshake (session : Greeting) :
    (sslDoHandshake session).2.greeted = true := by
  unfold sslDoHandshake
  by_cases hgreeted : session.greeted = true
  · simp only [hgreeted, if_true]
    exact hgreeted
  · simp only [if_neg hgreeted]
    simp [greeted]

def engine : ssl.Engine where
  pending := pending
  taken := taken
  received := received
  waits := fun session => session.greeted = true ∧ session.received = [] ∧ session.finished = false
  sslWrite := fun _ _ _ hpos => nomatch hpos
  bioRead_some := fun num session hnum hpending => by
    simp only [ssl, bioRead, if_neg (Int.not_le.mpr hnum), if_neg hpending, and_self]
  bioRead_empty := fun num session hnum hpending => by
    simp [ssl, bioRead, if_neg (Int.not_le.mpr hnum), hpending]
  bioRead_nothing := fun num session hnum => by
    simp [ssl, bioRead, if_pos hnum]
  doHandshake := fun session _ => by
    refine ⟨?_, rfl, rfl⟩
    by_cases hgreeted : session.greeted = true
    · simp [ssl, sslDoHandshake, hgreeted]
    · have hnone : session.pending = [] := by
        simp only [greeted, decide_eq_true_eq, not_not, List.append_eq_nil_iff] at hgreeted
        exact hgreeted.2
      simp [hnone]
  outcome := fun session _ => by
    have hgreeted := greeted_sslDoHandshake session
    by_cases hreceived : session.received = []
    · simp [ssl, sslIsInitFinished, sslDoHandshake, hreceived] at hgreeted ⊢
      exact hgreeted
    · simp [ssl, sslIsInitFinished, sslDoHandshake, hreceived] at hgreeted ⊢
      exact hgreeted
  waits_again := fun session ⟨hgreeted, hreceived, hfinished⟩ => by
    simp [ssl, sslIsInitFinished, sslDoHandshake, hgreeted, hreceived, hfinished]
  bioRead := fun num session => by
    obtain ⟨hreceived, hfinished, hgreeted⟩ := kept_bioRead num session
    refine ⟨emitted_bioRead num session, hreceived, ?_, ?_⟩
    · simp only [ssl, sslIsInitFinished, hfinished, hgreeted]
    · simp only [ssl, hreceived, hfinished, hgreeted, imp_self]
  bioWriteAll := fun data session => ⟨rfl, rfl, rfl, rfl, rfl⟩

theorem engine_fits : engine.Fits (toInt 1).toNat := by
  have hone : (toInt 1).toNat = 1 := by decide
  rw [hone]
  intro session _
  by_cases hgreeted : session.greeted = true
  · simp [engine, ssl, sslDoHandshake, hgreeted]
  · simp [engine, ssl, sslDoHandshake, hgreeted]

theorem emitted_ne_nil {session : Greeting} (hgreeted : session.greeted = true) :
    engine.emitted session ≠ [] := decide_eq_true_iff.mp hgreeted

theorem compatible : HandshakeSsl.Compatible fun _ : Side => engine where
  finished := by
    rintro session side hreceived hfinished ⟨-, hnone, -⟩
    have hgreeted := (Bool.and_eq_true_iff.mp hfinished).2
    exact emitted_ne_nil hgreeted (hreceived.symm.trans hnone)
  waiting := by
    intro session hreceived hwaits
    obtain ⟨hgreeted, -, -⟩ := hwaits .server
    obtain ⟨-, hnone, -⟩ := hwaits .client
    exact emitted_ne_nil hgreeted ((hreceived .client).symm.trans hnone)

/-- The client goes on first, and each end as far as it can. -/
def actions : List Link.Action :=
  [.goOn .client, .goOn .client, .write .client [], .goOn .client,
    .goOn .server, .goOn .server, .write .server [], .goOn .server, .read .server [22],
    .goOn .server, .goOn .server, .goOn .server, .goOn .server,
    .read .client [22], .goOn .client, .goOn .client, .goOn .client, .goOn .client]

def fresh : ∀ _ : Side, Greeting := fun _ => {}

theorem engine_fresh (side : Side) : engine.Fresh (fresh side) := ⟨rfl, rfl, rfl⟩

/-- Both ends with write buffers of one byte. -/
abbrev Step : Link (fun _ => Greeting) → Link.Action → Link (fun _ => Greeting) → Prop :=
  Link.Step (fun _ => ssl) fun _ => 1

theorem run_actions : ∃ final, Run Step (Link.start fresh) actions final ∧
    ∀ side, (final.party side).stage = .completed := by
  have hwhole : [(22 : UInt8)] = [22] ++ [] := rfl
  refine ⟨_, .cons (.goOn rfl) <| .cons (.goOn rfl) <| .cons (.write rfl hwhole) <|
    .cons (.goOn rfl) <| .cons (.goOn rfl) <| .cons (.goOn rfl) <| .cons (.write rfl hwhole) <|
    .cons (.goOn rfl) <|
    .cons (.read rfl rfl (by decide) (by decide)) <|
    .cons (.goOn rfl) <| .cons (.goOn rfl) <| .cons (.goOn rfl) <| .cons (.goOn rfl) <|
    .cons (.read rfl rfl (by decide) (by decide)) <|
    .cons (.goOn rfl) <| .cons (.goOn rfl) <| .cons (.goOn rfl) <| .cons (.goOn rfl) <| .nil _, ?_⟩
  intro side
  cases side <;> rfl

theorem handshakes_complete_greeting : ∃ final, Run Step (Link.start fresh) actions final ∧
    ∀ side, ssl.sslIsInitFinished (final.party side).session = true ∧
      engine.received (final.party side.other).session ++ final.inFlight side =
        engine.emitted (final.party side).session := by
  obtain ⟨final, hrun, hcompleted⟩ := run_actions
  refine ⟨final, hrun, fun side => ?_⟩
  exact (Link.handshakes_complete engine_fresh (fun _ => engine_fits) (fun _ => Nat.zero_lt_one)
    compatible hrun (by simp [actions, Link.Action.Whole]) (Link.not_step_of_completed hcompleted)
    (fun side fault hfailed => nomatch (hcompleted side).symm.trans hfailed) side).2

theorem handshakes_terminate_greeting : ∃ final, Run Step (Link.start fresh) actions final ∧
    18 ≤ 5 * ((engine.received (final.party .client).session).length +
      (engine.received (final.party .server).session).length) + 10 := by
  obtain ⟨final, hrun, -⟩ := run_actions
  exact ⟨final, hrun, (Link.handshakes_terminate engine_fresh hrun).1⟩

end Greeting

end Liblw.Net
