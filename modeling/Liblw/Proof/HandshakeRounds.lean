import Liblw.Net.TlsHandshake

/-!
# What one end of a TLS handshake does

An end asks its session for ciphertext only where the session waits or is finished. Each of its
steps brings it on in its round, and only a read begins another one.
-/

namespace Liblw.Net

open Liblw.Lib

/-! ### The client -/

section Client

variable {σ : Type} {ssl : HandshakeSsl σ} (engine : ssl.Engine)

/-- What a call of `handshake` can do. -/
structure Handshaken (before : σ) (result : Result TLSResult) (after : σ) : Prop where
  taken : engine.taken after = engine.taken before
  received : engine.received after = engine.received before
  outcome : match result with
    | .ok .completed => after = before ∧ ssl.sslIsInitFinished before = true
    | .ok .again => ssl.sslIsInitFinished before = false ∧ ¬ engine.waits before ∧
        ssl.sslIsInitFinished after = true
    | .ok .needToRead => ssl.sslIsInitFinished before = false ∧ engine.waits after ∧
        (engine.waits before → engine.pending after = engine.pending before)
    | .ok .needToWrite => False
    | .error _ => ssl.sslIsInitFinished before = false ∧ ¬ engine.waits before
  fits : ∀ limit, engine.Fits limit →
    (engine.pending after).length ≤ (engine.pending before).length + limit

theorem exec_handshake (client : σ) :
    ∃ result after, (handshake ssl).exec client = (result, after) ∧
      Handshaken engine client result after := by
  unfold handshake
  rw [Call.exec_get_bind]
  by_cases hfinished : ssl.sslIsInitFinished client = true
  · refine ⟨.ok .completed, client, ?_, rfl, rfl, ⟨rfl, hfinished⟩, fun _ _ => by omega⟩
    rw [if_pos hfinished, Call.exec_pure]
  · rw [if_neg hfinished, Call.exec_bind, Call.exec_ofFunction]
    dsimp only
    rw [Call.exec_get_bind]
    rw [Bool.not_eq_true] at hfinished
    obtain ⟨-, htaken, hreceived⟩ := engine.doHandshake client hfinished
    have houtcome := engine.outcome client hfinished
    have hagain := engine.waits_again client
    have hfits : ∀ limit, engine.Fits limit →
        (engine.pending (ssl.sslDoHandshake client).2).length ≤
          (engine.pending client).length + limit := fun limit hfits => hfits client hfinished
    cases herror : ssl.sslGetError (ssl.sslDoHandshake client).1 (ssl.sslDoHandshake client).2 with
    | none =>
        rw [herror] at houtcome hagain
        refine ⟨.ok .again, _, rfl, htaken, hreceived,
          ⟨hfinished, fun hwaits => ?_, houtcome⟩, hfits⟩
        exact nomatch (hagain hwaits).2.1
    | wantRead =>
        rw [herror] at houtcome hagain
        exact ⟨.ok .needToRead, _, rfl, htaken, hreceived,
          ⟨hfinished, houtcome.2, fun hwaits => (hagain hwaits).2.2⟩, hfits⟩
    | wantWrite =>
        rw [herror] at houtcome
        exact houtcome.elim
    | other =>
        rw [herror] at hagain
        refine ⟨.error _, _, rfl, htaken, hreceived, ⟨hfinished, fun hwaits => ?_⟩, hfits⟩
        exact nomatch (hagain hwaits).2.1

variable {engine} in
theorem Handshaken.settled {before after : σ} {result : TLSResult}
    (hhand : Handshaken engine before (.ok result) after) :
    engine.waits after ∨ ssl.sslIsInitFinished after = true := by
  have houtcome := hhand.outcome
  cases result with
  | needToRead => exact .inl houtcome.2.1
  | needToWrite => exact houtcome.elim
  | again => exact .inr houtcome.2.2
  | completed =>
      obtain ⟨rfl, hfinished⟩ := houtcome
      exact .inr hfinished

/-- What a call of `read_encrypted_data` does. It takes from the front what fits. -/
structure ReadOut (size : Nat) (before : σ) (result : TLSIOResult × List UInt8) (after : σ) :
    Prop where
  bytes : result.2 = (engine.pending before).take (toInt size).toNat
  more : result.1.isCompleted = true ∧ 0 < result.1.bytes ↔ result.2 ≠ []
  pending : engine.pending after = (engine.pending before).drop (toInt size).toNat
  taken : engine.taken after = engine.taken before ++ result.2
  received : engine.received after = engine.received before
  finished : ssl.sslIsInitFinished after = ssl.sslIsInitFinished before
  waits : engine.waits before → engine.waits after

theorem exec_readEncryptedData_readOut (size : Nat) (client : σ) :
    ∃ result after, (readEncryptedData ssl.toOpenSsl size).exec client = (.ok result, after) ∧
      ReadOut engine size client result after := by
  obtain ⟨hall, hreceived, hfinished, hwaits⟩ := engine.bioRead (toInt size) client
  by_cases hnum : 0 < toInt size
  · by_cases hpending : engine.pending client = []
    · obtain ⟨hnone, hretry, hleft⟩ := engine.bioRead_empty _ client hnum hpending
      refine ⟨(⟨.again, 0⟩, []), _, ?_, ?_, by simp [TLSIOResult.isCompleted], ?_, ?_,
        hreceived, hfinished, hwaits⟩
      · unfold readEncryptedData
        rw [Call.exec_bind, Call.exec_ofFunction]
        dsimp only
        rw [Call.exec_get_bind, if_pos hnone, if_pos hretry, Call.exec_pure]
      · rw [hpending, List.take_nil]
      · rw [hleft, hpending, List.drop_nil]
      · rw [hleft, hpending, List.append_nil, List.append_nil] at hall
        rw [hall, List.append_nil]
    · obtain ⟨-, hleft⟩ := engine.bioRead_some _ client hnum hpending
      have hlength : 0 < (engine.pending client).length := List.length_pos_iff.mpr hpending
      refine ⟨_, _, TLSStream.exec_readEncryptedData engine.toOutgoing hnum hpending, ?_, ?_, hleft,
        ?_, hreceived, hfinished, hwaits⟩
      · dsimp only
      · rw [← List.length_pos_iff, List.length_take]
        simp [TLSIOResult.isCompleted]
      · rw [hleft] at hall
        refine List.append_cancel_right (hall.trans ?_)
        rw [List.append_assoc, List.take_append_drop]
  · rw [Int.not_lt] at hnum
    obtain ⟨hnone, hleft⟩ := engine.bioRead_nothing _ client hnum
    refine ⟨(⟨.completed, 0⟩, []), _, ?_, ?_, by simp, ?_, ?_, hreceived, hfinished, hwaits⟩
    · unfold readEncryptedData
      rw [Call.exec_bind, Call.exec_ofFunction, hnone]
      rfl
    · rw [Int.toNat_of_nonpos hnum, List.take_zero]
    · rw [hleft, Int.toNat_of_nonpos hnum, List.drop_zero]
    · rw [hleft] at hall
      rw [List.append_nil]
      exact List.append_cancel_right hall

end Client

/-! ### One end -/

namespace Party

variable {σ : Type} {ssl : HandshakeSsl σ} (engine : ssl.Engine)

/-- A session is asked for ciphertext only when it waits or is finished. -/
def Invariant (party : Party σ) : Prop :=
  match party.stage with
  | .round | .writing _ | .asking =>
      engine.waits party.session ∨ ssl.sslIsInitFinished party.session = true
  | .reading => engine.waits party.session
  | .completed => ssl.sslIsInitFinished party.session = true
  | .entering | .deciding | .failed _ => True

/-- A round takes all that there is out of the session. -/
def Drained (limit : Nat) (party : Party σ) : Prop :=
  match party.stage with
  | .round => (engine.pending party.session).length ≤ limit
  | .failed _ => True
  | _ => engine.pending party.session = []

/-- How far a round has come. -/
def rank (ssl : HandshakeSsl σ) (party : Party σ) : Nat :=
  match party.stage with
  | .entering => 0
  | .round => 1
  | .writing _ => 2
  | .asking => 3
  | .reading => 4
  | .deciding => if ssl.sslIsInitFinished party.session then 4 else 0
  | .completed | .failed _ => 5

def progress (party : Party σ) : Nat :=
  5 * (engine.received party.session).length + party.rank ssl

/-- What an end does that goes on by itself. -/
structure Goes (size : Nat) (before after : Party σ) : Prop where
  unwritten : before.stage.unwritten = []
  taken : engine.taken after.session = engine.taken before.session ++ after.stage.unwritten
  received : engine.received after.session = engine.received before.session
  invariant : after.Invariant engine
  drained : engine.Fits (toInt size).toNat → before.Drained engine (toInt size).toNat →
    after.Drained engine (toInt size).toNat
  rank : before.rank ssl < after.rank ssl

variable {engine} {size : Nat} {before after : Party σ}

theorem rank_le (ssl : HandshakeSsl σ) (party : Party σ) : party.rank ssl ≤ 5 := by
  unfold rank
  grind

theorem Goes.progress (hgoes : Goes engine size before after) :
    before.progress engine < after.progress engine := by
  have hrank := hgoes.rank
  unfold Party.progress
  rw [hgoes.received]
  omega

theorem goes_failed {client : σ} {fault : Fault} {result : Result TLSResult}
    (hstage : before.stage.unwritten = []) (hrank : before.rank ssl < 5)
    (hhand : Handshaken engine before.session result client) :
    Goes engine size before ⟨client, .failed fault⟩ where
  unwritten := hstage
  taken := by rw [hhand.taken]; exact (List.append_nil _).symm
  received := hhand.received
  invariant := trivial
  drained := fun _ _ => trivial
  rank := hrank

/-- Behind a handshake the ciphertext is what the handshake put out, where there was none before. -/
theorem drained_round {limit : Nat} {client : σ} {result : Result TLSResult}
    (hhand : Handshaken engine before.session result client) (hfits : engine.Fits limit)
    (hnone : engine.pending before.session = []) :
    (engine.pending client).length ≤ limit := by
  have hlength := hhand.fits limit hfits
  rwa [hnone, List.length_nil, Nat.zero_add] at hlength

variable {session : σ}

theorem goes_entering (hgo : (Party.mk session .entering).goOn ssl size = some after) :
    Goes engine size ⟨session, .entering⟩ after := by
  obtain ⟨result, client, hexec, hhand⟩ := exec_handshake engine session
  simp only [goOn, call, hexec, Option.some.injEq] at hgo
  subst hgo
  cases result with
  | error fault => exact goes_failed rfl (Nat.zero_lt_succ 4) hhand
  | ok result =>
      exact {
        unwritten := rfl
        taken := by rw [hhand.taken]; exact (List.append_nil _).symm
        received := hhand.received
        invariant := hhand.settled
        drained := drained_round hhand
        rank := Nat.zero_lt_one }

theorem goes_round (hinv : (Party.mk session .round).Invariant engine)
    (hgo : (Party.mk session .round).goOn ssl size = some after) :
    Goes engine size ⟨session, .round⟩ after := by
  obtain ⟨⟨res, bytes⟩, client, hexec, hread⟩ := exec_readEncryptedData_readOut engine size session
  simp only [goOn, call, hexec, Option.some.injEq] at hgo
  subst hgo
  have hsettled : engine.waits client ∨ ssl.sslIsInitFinished client = true := by
    rw [hread.finished]
    exact hinv.imp_left hread.waits
  have hdrained : (engine.pending session).length ≤ (toInt size).toNat →
      engine.pending client = [] := fun hlength => by
    rw [hread.pending, List.drop_eq_nil_iff]
    exact hlength
  have hmore := hread.more
  split_ifs with hif
  · exact {
      unwritten := rfl
      taken := hread.taken
      received := hread.received
      invariant := hsettled
      drained := fun _ => hdrained
      rank := Nat.lt_succ_self 1 }
  · rw [Bool.and_eq_true, decide_eq_true_iff, hmore, not_not] at hif
    exact {
      unwritten := rfl
      taken := by rw [hread.taken, hif]; rfl
      received := hread.received
      invariant := hsettled
      drained := fun _ => hdrained
      rank := by simp [rank] }

/-- A session that waits says so again, and a finished one says that. -/
theorem goes_asking (hinv : (Party.mk session .asking).Invariant engine)
    (hgo : (Party.mk session .asking).goOn ssl size = some after) :
    Goes engine size ⟨session, .asking⟩ after := by
  obtain ⟨result, client, hexec, hhand⟩ := exec_handshake engine session
  simp only [goOn, call, hexec, Option.some.injEq] at hgo
  subst hgo
  have houtcome := hhand.outcome
  have htaken : engine.taken client = engine.taken session ++ [] := by
    rw [hhand.taken, List.append_nil]
  cases result with
  | error fault =>
      obtain ⟨hfinished, hwaits⟩ := houtcome
      exact (hinv.elim hwaits (Bool.eq_false_iff.mp hfinished)).elim
  | ok result =>
      cases result with
      | needToRead =>
          obtain ⟨hfinished, hwaits, hpending⟩ := houtcome
          have hwaited : engine.waits session :=
            hinv.resolve_right (Bool.eq_false_iff.mp hfinished)
          exact {
            unwritten := rfl
            taken := htaken
            received := hhand.received
            invariant := hwaits
            drained := fun _ hdrained => (hpending hwaited).trans hdrained
            rank := Nat.lt_succ_self 3 }
      | needToWrite => exact houtcome.elim
      | again =>
          obtain ⟨hfinished, hwaits, -⟩ := houtcome
          exact (hinv.elim hwaits (Bool.eq_false_iff.mp hfinished)).elim
      | completed =>
          obtain ⟨rfl, hfinished⟩ := houtcome
          exact {
            unwritten := rfl
            taken := htaken
            received := rfl
            invariant := trivial
            drained := fun _ hdrained => hdrained
            rank := by simp [rank, hfinished] }

theorem goes_deciding (hgo : (Party.mk session .deciding).goOn ssl size = some after) :
    Goes engine size ⟨session, .deciding⟩ after := by
  obtain ⟨result, client, hexec, hhand⟩ := exec_handshake engine session
  simp only [goOn, call, hexec, Option.some.injEq] at hgo
  subst hgo
  have houtcome := hhand.outcome
  have htaken : engine.taken client = engine.taken session ++ [] := by
    rw [hhand.taken, List.append_nil]
  cases result with
  | error fault =>
      refine goes_failed rfl ?_ hhand
      simp only [rank]
      split_ifs <;> omega
  | ok result =>
      by_cases hcompleted : result = .completed
      · subst hcompleted
        obtain ⟨rfl, hfinished⟩ := houtcome
        exact {
          unwritten := rfl
          taken := htaken
          received := rfl
          invariant := hfinished
          drained := fun _ hdrained => hdrained
          rank := by simp [rank, hfinished] }
      · have hfinished : ssl.sslIsInitFinished session = false := by
          cases result with
          | needToRead => exact houtcome.1
          | needToWrite => exact houtcome.elim
          | again => exact houtcome.1
          | completed => exact (hcompleted rfl).elim
        simp only [if_neg hcompleted]
        exact {
          unwritten := rfl
          taken := htaken
          received := hhand.received
          invariant := hhand.settled
          drained := drained_round hhand
          rank := by simp [rank, hfinished] }

theorem goes_of_goOn (hinv : before.Invariant engine)
    (hgo : before.goOn ssl size = some after) : Goes engine size before after := by
  obtain ⟨session, stage⟩ := before
  cases stage with
  | entering => exact goes_entering hgo
  | round => exact goes_round hinv hgo
  | writing bytes => exact nomatch hgo
  | asking => exact goes_asking hinv hgo
  | reading => exact nomatch hgo
  | deciding => exact goes_deciding hgo
  | completed => exact nomatch hgo
  | failed fault => exact nomatch hgo

/-- What a read leaves of an end that waited for it. -/
theorem receive_eq (engine : ssl.Engine) (party : Party σ) (bytes : List UInt8) :
    party.receive ssl bytes = ⟨(ssl.bioWriteAll bytes party.session).2, .deciding⟩ := by
  obtain ⟨hwritten, -⟩ := engine.bioWriteAll bytes party.session
  unfold receive call
  rw [exec_bufferEncryptedData ssl.toOpenSsl hwritten]

theorem progress_receive {party : Party σ} {bytes : List UInt8} (hstage : party.stage = .reading)
    (hinv : party.Invariant engine) (hsome : bytes ≠ []) :
    party.progress engine < (party.receive ssl bytes).progress engine := by
  obtain ⟨-, hreceived, -, -, hfinished⟩ := engine.bioWriteAll bytes party.session
  have hwaits : engine.waits party.session := by
    unfold Invariant at hinv
    rwa [hstage] at hinv
  have hlength : 0 < bytes.length := List.length_pos_iff.mpr hsome
  rw [(engine.waits_again _ hwaits).1] at hfinished
  rw [receive_eq engine]
  unfold progress
  rw [hreceived, List.length_append]
  simp only [rank, hstage, hfinished]
  omega

end Party

end Liblw.Net
