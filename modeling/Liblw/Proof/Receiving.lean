import Liblw.Net.Receiving
import Liblw.Proof.SocketSend

/-!
# A socket as a stream

A reader cannot tell a socket from a stream that has from the beginning what is going to arrive: the
waiting in between does not show, and what has not arrived yet is a cut between two reads.
-/

namespace Liblw.Net

open Liblw.Lib
open Io (SocketStream Stream)

namespace Connection

variable {systemError : Errno → Option Error} {connection next final : Connection} {size : Nat}
  {answer : RecvAnswer} {events : List Event} {future : List UInt8}

/-! ### One round -/

/-- What a round can come to on an open socket. -/
inductive Round (connection : Connection) (size : Nat) :
    Result (Option (List UInt8)) → Connection → Prop where
  | received {bytes : List UInt8} (hsome : bytes ≠ []) (hlength : bytes.length ≤ size)
      (hfront : bytes <+: connection.arrived) :
      Round connection size (.ok (some bytes))
        { connection with arrived := connection.arrived.drop bytes.length }
  | closed (hsize : 0 < size) (hnone : connection.arrived = [])
      (hpeer : connection.peerClosed = true) :
      Round connection size (.ok (some [])) { connection with isOpen := false }
  | waits (hsize : 0 < size) :
      Round connection size (.ok none) { connection with waiting := some size }
  | throws (fault : Fault) : Round connection size (.error fault) connection

theorem exec_recv (hopen : connection.isOpen = true) (answer : RecvAnswer) :
    (recv answer).exec connection = (.ok answer, { connection with
      arrived := connection.arrived.drop answer.bytes.length }) := by
  unfold recv
  rw [Call.exec_modify_bind, if_pos hopen, Call.exec_pure]

theorem exec_recv_none (hopen : connection.isOpen = true) (hnone : answer.bytes = []) :
    (recv answer).exec connection = (.ok answer, connection) := by
  rw [exec_recv hopen, hnone]
  rfl

theorem exec_close (hopen : connection.isOpen = true) :
    close.exec connection = (.ok (), { connection with isOpen := false }) := by
  unfold close
  rw [Call.exec_get_bind, hopen]
  rfl

theorem bytesReceived_pos {bytes : List UInt8} (errno : Errno) (hsome : bytes ≠ [])
    (hlength : bytes.length < 2 ^ 31) :
    0 < (RecvAnswer.received bytes errno).bytesReceived ∧
      (RecvAnswer.received bytes errno).bytes.take
        (RecvAnswer.received bytes errno).bytesReceived.toNat = bytes := by
  have hint : (RecvAnswer.received bytes errno).bytesReceived = bytes.length :=
    (toInt_eq_iff _).mpr hlength
  rw [hint, Int.toNat_natCast]
  exact ⟨Int.natCast_pos.mpr (List.length_pos_iff.mpr hsome), List.take_length⟩

theorem round_doRecv (hopen : connection.isOpen = true) (hpos : 0 < size)
    (hanswers : connection.Answers size answer) (hsize : size < 2 ^ 31) :
    Round connection size ((doRecv systemError size answer).exec connection).1
      ((doRecv systemError size answer).exec connection).2 := by
  unfold doRecv
  cases answer with
  | received bytes errno =>
      obtain ⟨hsome, hlength, hfront⟩ := hanswers
      obtain ⟨hreceived, htake⟩ := bytesReceived_pos errno hsome (hlength.trans_lt hsize)
      rw [Call.exec_bind_ok (exec_recv hopen _), if_pos hreceived, Call.exec_pure, htake]
      exact .received hsome hlength hfront
  | closed =>
      have hzero : RecvAnswer.closed.bytesReceived = 0 := rfl
      rw [Call.exec_bind_ok (exec_recv_none hopen rfl), if_neg (by decide), if_pos hzero,
        Call.exec_bind_ok (exec_close hopen), Call.exec_pure]
      exact .closed hpos hanswers.1 hanswers.2
  | failed errno =>
      have hint : (RecvAnswer.failed errno).bytesReceived = -1 := rfl
      have herrno : (RecvAnswer.failed errno).errno = errno := rfl
      rw [Call.exec_bind_ok (exec_recv_none hopen rfl), hint, if_neg (by decide),
        if_neg (by decide), herrno]
      by_cases hwait : shouldWait errno = true
      · rw [if_pos hwait]
        exact .waits hpos
      · rw [if_neg hwait]
        cases herror : systemError errno with
        | none => exact .throws _
        | some error => exact .throws _
  | unwatched error =>
      have hint : (RecvAnswer.unwatched error).bytesReceived = -1 := rfl
      have hwait : shouldWait (RecvAnswer.unwatched error).errno = true := rfl
      rw [Call.exec_bind_ok (exec_recv_none hopen rfl), hint, if_neg (by decide),
        if_neg (by decide), if_pos hwait]
      exact .throws _

theorem round_receive (hanswers : connection.isOpen = true → connection.Answers size answer)
    (hsize : size < 2 ^ 31) :
    Round connection size ((receive systemError size answer).exec connection).1
        ((receive systemError size answer).exec connection).2 ∧
      ((∀ fault, ((receive systemError size answer).exec connection).1 ≠ .error fault) →
        connection.isOpen = true) := by
  unfold receive
  rw [Call.exec_get_bind]
  cases hopen : connection.isOpen with
  | false => exact ⟨.throws _, fun hreturns => (hreturns _ rfl).elim⟩
  | true =>
      refine ⟨?_, fun _ => rfl⟩
      by_cases hroom : size = 0
      · simp only [hroom]
        exact .throws _
      · simp only [hroom]
        exact round_doRecv hopen (Nat.pos_of_ne_zero hroom) (hanswers hopen) hsize

/-! ### The stream that a socket is taken for -/

/-- With what is going to arrive, and the reads cut as they are going to be. -/
def asStream (connection : Connection) (future : List UInt8) (cuts : List Nat) (reads : Nat) :
    SocketStream :=
  ⟨⟨connection.arrived ++ future, fun read => cuts.getD read 1, reads⟩, connection.isOpen⟩

/-- How many bytes each read brings. -/
def readLengths (observations : List Observation) : List Nat :=
  observations.filterMap fun
    | .received _ bytes => some bytes.length
    | .closed => none

theorem step_received {bytes : List UInt8} {past later : List Nat}
    (hopen : connection.isOpen = true) (hsome : bytes ≠ []) (hlength : bytes.length ≤ size)
    (hfront : bytes <+: connection.arrived) :
    SocketStep (connection.asStream future (past ++ bytes.length :: later) past.length)
      (.received size bytes)
      ({ connection with arrived := connection.arrived.drop bytes.length }.asStream future
        (past ++ bytes.length :: later) (past.length + 1)) := by
  obtain ⟨left, hleft⟩ := hfront
  have hpos := List.length_pos_iff.mpr hsome
  have hcut : (past ++ bytes.length :: later).getD past.length 1 = bytes.length := by simp
  have hdelivers : (connection.asStream future (past ++ bytes.length :: later)
      past.length).stream.delivers size = bytes.length := by
    simp only [Stream.delivers, asStream, ← hleft, hcut, List.length_append]
    omega
  have hrest : (connection.asStream future (past ++ bytes.length :: later)
      past.length).stream.rest = bytes ++ (left ++ future) := by
    simp only [asStream, ← hleft, List.append_assoc]
  have hnonempty : (!bytes.isEmpty) = true := by
    rwa [Bool.not_eq_true', List.isEmpty_eq_false_iff]
  refine .received ?_
  rw [SocketStream.exec_receive hopen (by omega), Stream.next, hdelivers, hrest,
    List.take_left' rfl, List.drop_left' rfl, hnonempty]
  simp only [asStream, ← hleft, hopen, List.drop_left' rfl]

theorem step_closed {past later : List Nat} (hopen : connection.isOpen = true) (hsize : 0 < size)
    (hnone : connection.arrived = []) :
    SocketStep (connection.asStream [] (past ++ 0 :: later) past.length) (.received size [])
      ({ connection with isOpen := false }.asStream [] (past ++ 0 :: later) (past.length + 1)) := by
  refine .received ?_
  rw [SocketStream.exec_receive hopen hsize]
  simp [asStream, Stream.next, hnone]

/-! ### Runs -/

/-- A `receive` that waits has room, and its socket is open. -/
def Waits (connection : Connection) : Prop :=
  ∀ size, connection.waiting = some size → connection.isOpen = true ∧ 0 < size

/-- Nobody waits while the kernel is asked. -/
def idle (connection : Connection) : Connection := { connection with waiting := none }

theorem round_of_step {result : Result (Option (List UInt8))} (hwaits : connection.Waits)
    (hsize : size < 2 ^ 31) (hstep : Step systemError connection (.asked size result) next) :
    Round connection.idle size result next ∧
      ((∀ fault, result ≠ .error fault) → connection.isOpen = true) := by
  cases hstep with
  | @receive _ answer hidle hanswers =>
      have hself : connection.idle = connection := by
        unfold idle
        rw [← hidle]
      rw [hself]
      exact round_receive hanswers hsize
  | @resume _ answer hwaiting hanswers =>
      obtain ⟨hopen, hpos⟩ := hwaits size hwaiting
      refine ⟨?_, fun _ => hopen⟩
      exact @round_doRecv systemError connection.idle size answer hopen hpos (hanswers hopen) hsize

theorem Round.waits_next {result : Result (Option (List UInt8))}
    (hround : Round connection.idle size result next)
    (hopen : (∀ fault, result ≠ .error fault) → connection.isOpen = true) : next.Waits := by
  cases hround with
  | received => exact nofun
  | closed => exact nofun
  | waits hpos =>
      rintro _ ⟨⟩
      exact ⟨hopen nofun, hpos⟩
  | throws => exact nofun

theorem Round.peerClosed_next {result : Result (Option (List UInt8))}
    (hround : Round connection size result next) : next.peerClosed = connection.peerClosed := by
  cases hround <;> rfl

/-- Closing a socket that is closed throws, and it stays so. -/
theorem exec_close_state (connection : Connection) :
    (close.exec connection).2 = { connection with isOpen := false } := by
  cases hopen : connection.isOpen with
  | true => rw [exec_close hopen]
  | false =>
      unfold close
      rw [Call.exec_get_bind, hopen]
      change connection = _
      rw [← hopen]

theorem waits_of_step {event : Event} (hwaits : connection.Waits) (htidy : connection.Tidy event)
    (hstep : Step systemError connection event next) : next.Waits := by
  cases event with
  | asked size result =>
      obtain ⟨hround, hopen⟩ := round_of_step hwaits htidy hstep
      exact hround.waits_next hopen
  | arrives bytes => cases hstep; exact hwaits
  | peerCloses => cases hstep; exact hwaits
  | closes =>
      cases hstep
      have hidle : connection.waiting = none := htidy
      rw [exec_close_state]
      exact fun size hsome => nomatch hidle.symm.trans hsome

/-- Nothing arrives behind the end. -/
theorem arrivals_of_peerClosed (hrun : Run (Step systemError) connection events final)
    (hwaits : connection.Waits)
    (htidy : ∀ before event after, Run.Takes (Step systemError) connection events final before
      event after → before.Tidy event)
    (hpeer : connection.peerClosed = true) : arrivals events = [] := by
  induction hrun with
  | nil => rfl
  | @cons state middle final event events hstep hrun ih =>
      have hfirst : state.Tidy event := htidy _ _ _ (Run.takes_head hstep hrun)
      have hrest := ih (waits_of_step hwaits hfirst hstep) fun before event after htakes =>
        htidy _ _ _ (Run.takes_cons hstep htakes)
      cases event with
      | arrives bytes =>
          cases hstep with
          | arrives hopen => exact nomatch hopen.symm.trans hpeer
      | peerCloses => cases hstep; exact hrest rfl
      | asked size result =>
          obtain ⟨hround, -⟩ := round_of_step hwaits hfirst hstep
          exact hrest (hround.peerClosed_next.trans hpeer)
      | closes =>
          cases hstep
          rw [exec_close_state] at hrest
          exact hrest hpeer

/-- One observation in front of the others. -/
theorem observed_cons {middle : Connection} {observation : Observation} {length : Nat}
    {observed : List Observation} {past : List Nat} {later : List UInt8}
    (hstep : SocketStep
      (connection.asStream future (past ++ length :: readLengths observed) past.length) observation
      (middle.asStream (later) (past ++ length :: readLengths observed)
        (past.length + 1)))
    (hrest : Run SocketStep
      (middle.asStream (later) (past ++ [length] ++ readLengths observed)
        (past ++ [length]).length) observed
      (final.asStream [] (past ++ [length] ++ readLengths observed)
        ((past ++ [length]).length + (readLengths observed).length))) :
    Run SocketStep
      (connection.asStream future (past ++ length :: readLengths observed) past.length)
      (observation :: observed)
      (final.asStream [] (past ++ length :: readLengths observed)
        (past.length + (length :: readLengths observed).length)) := by
  rw [List.append_assoc, List.singleton_append, List.length_append, List.length_singleton,
    Nat.add_assoc, Nat.add_comm 1] at hrest
  exact .cons hstep hrest

theorem observed_from (hrun : Run (Step systemError) connection events final)
    (hwaits : connection.Waits)
    (htidy : ∀ before event after, Run.Takes (Step systemError) connection events final before
      event after → before.Tidy event) (past : List Nat) :
    let observed := events.filterMap Event.observation
    Run SocketStep
      (connection.asStream (arrivals events) (past ++ readLengths observed) past.length) observed
      (final.asStream [] (past ++ readLengths observed)
        (past.length + (readLengths observed).length)) := by
  induction hrun generalizing past with
  | nil => exact .nil _
  | @cons state middle final event events hstep hrun ih =>
      have hfirst : state.Tidy event := htidy _ _ _ (Run.takes_head hstep hrun)
      have hmiddle := waits_of_step hwaits hfirst hstep
      have htail : ∀ before event after, Run.Takes (Step systemError) middle events final before
          event after → before.Tidy event :=
        fun before event after htakes => htidy _ _ _ (Run.takes_cons hstep htakes)
      have hrest := ih hmiddle htail
      cases event with
      | arrives bytes =>
          cases hstep
          have hstream := hrest past
          simp only [asStream, List.append_assoc] at hstream ⊢
          exact hstream
      | peerCloses => cases hstep; exact hrest past
      | asked size result =>
          obtain ⟨hround, hopen⟩ := round_of_step hwaits hfirst hstep
          cases hround with
          | @received bytes hsome hlength hfront =>
              exact observed_cons
                (@step_received state.idle _ _ _ _ _ (hopen nofun) hsome hlength hfront)
                (hrest (past ++ [bytes.length]))
          | closed hsize hnone hpeer =>
              have hend := arrivals_of_peerClosed hrun hmiddle htail hpeer
              have hlast := hrest (past ++ [0])
              rw [hend] at hlast
              change Run SocketStep (state.asStream (arrivals events) _ _) _ _
              rw [hend]
              exact observed_cons (@step_closed state.idle _ _ _ (hopen nofun) hsize hnone) hlast
          | waits hsize => exact hrest past
          | throws fault => exact hrest past
      | closes =>
          cases hstep
          rw [exec_close_state] at hrest
          exact .cons (.closed _) (hrest past)

/-- The bytes that the calls have returned. -/
def returned (observations : List Observation) : List UInt8 :=
  observations.flatMap fun
    | .received _ bytes => bytes
    | .closed => []

theorem returned_of_run {socket last : SocketStream} {observed : List Observation}
    (hrun : Run SocketStep socket observed last) :
    returned observed ++ last.stream.rest = socket.stream.rest := by
  induction hrun with
  | nil => rfl
  | @cons socket middle last observation observed hstep hrun ih =>
      cases hstep with
      | @received _ size bytes hreceive =>
          obtain ⟨-, -, hbytes, hmiddle⟩ := SocketStream.receive_eq_ok hreceive
          rw [hmiddle] at ih
          change bytes ++ returned observed ++ last.stream.rest = _
          rw [List.append_assoc, ih, hbytes]
          exact List.take_append_drop _ _
      | closed => exact ih

/-- **A socket is a stream.** However the bytes arrive, and however often a `receive` has to wait
for them, the calls that return and the closes are those of a stream that has had from the beginning
all that arrives. So no byte is lost, doubled or out of order. -/
theorem received_as_stream (hrun : Run (Step systemError) connection events final)
    (hwaits : connection.Waits)
    (htidy : ∀ before event after, Run.Takes (Step systemError) connection events final before
      event after → before.Tidy event) :
    (∃ cuts reads, Run SocketStep
      ⟨⟨connection.arrived ++ arrivals events, cuts, 0⟩, connection.isOpen⟩
      (events.filterMap Event.observation) ⟨⟨final.arrived, cuts, reads⟩, final.isOpen⟩) ∧
    returned (events.filterMap Event.observation) ++ final.arrived =
      connection.arrived ++ arrivals events := by
  have hobserved := observed_from hrun hwaits htidy []
  simp only [asStream, List.nil_append, List.append_nil] at hobserved
  exact ⟨⟨_, _, hobserved⟩, returned_of_run hobserved⟩

/-- A connection that has just been made. -/
def fresh : Connection := ⟨true, none, [], false⟩

/-- The first `receive` cannot wait, the second one waits, and the last one finds that the peer has
closed. -/
def talk : List Event :=
  [.asked 4 (.error (.thrown ⟨.alreadyExists, "Handle already registered with epoll."⟩)),
    .asked 4 (.ok none), .arrives [1, 2], .asked 4 (.ok (some [1])), .asked 4 (.ok (some [2])),
    .peerCloses, .asked 4 (.ok (some []))]

theorem run_talk : Run (Step fun _ => none) fresh talk ⟨false, none, [], true⟩ :=
  .cons (@Step.receive _ _ 4
      (.unwatched ⟨.alreadyExists, "Handle already registered with epoll."⟩) rfl
      fun _ => trivial) <|
    .cons (@Step.receive _ _ 4 (.failed .wouldBlock) rfl fun _ => trivial) <|
    .cons (.arrives rfl [1, 2]) <|
    .cons (@Step.resume _ _ 4 (.received [1] .none) rfl
      fun _ => ⟨by decide, by decide, by decide⟩) <|
    .cons (@Step.receive _ _ 4 (.received [2] .none) rfl
      fun _ => ⟨by decide, by decide, by decide⟩) <|
    .cons (.peerCloses _) <|
    .cons (@Step.receive _ _ 4 .closed rfl fun _ => ⟨rfl, rfl⟩) <| .nil _

theorem received_as_stream_talk : ∃ cuts reads, Run SocketStep
    ⟨⟨[1, 2], cuts, 0⟩, true⟩ [.received 4 [1], .received 4 [2], .received 4 []]
    ⟨⟨[], cuts, reads⟩, false⟩ := by
  refine (received_as_stream run_talk nofun fun before event after htakes => ?_).1
  have hmem := Run.mem_of_takes htakes
  simp only [talk, List.mem_cons, List.not_mem_nil, or_false] at hmem
  rcases hmem with rfl | rfl | rfl | rfl | rfl | rfl | rfl <;> simp [Tidy]

/-- A socket that is closed under a `receive` that waits has it read from descriptor zero, and hand
on whatever comes from there. -/
theorem foreign_of_closed (hwaiting : connection.waiting = some size) {bytes : List UInt8}
    (hsome : bytes ≠ []) (hlength : bytes.length ≤ size) (hsize : size < 2 ^ 31) :
    ∃ next, Run (Step systemError) connection [.closes, .asked size (.ok (some bytes))] next ∧
      next.arrived = connection.arrived := by
  have hclosed : Step systemError connection .closes { connection with isOpen := false } := by
    rw [← exec_close_state]
    exact .closes connection
  have hexec : (resume systemError size (.received bytes .none)).exec
      { connection with isOpen := false } =
        (.ok (some bytes), { connection with isOpen := false, waiting := none }) := by
    have hreceived := bytesReceived_pos .none hsome (hlength.trans_lt hsize)
    unfold resume doRecv recv
    rw [Call.exec_modify_bind, Call.exec_bind, Call.exec_modify_bind]
    dsimp only
    rw [Call.exec_pure]
    dsimp only
    rw [if_pos hreceived.1, Call.exec_pure, hreceived.2]
    rfl
  have hresumed := @Step.resume systemError { connection with isOpen := false } size
    (.received bytes .none) hwaiting nofun
  rw [hexec] at hresumed
  exact ⟨_, .cons hclosed (.cons hresumed (.nil _)), rfl⟩

end Connection

end Liblw.Net
