import Liblw.Lib.Fuel
import Liblw.Net.Socket

/-!
# What a socket sends

The first byte that a completed call has the kernel accept is the first of its data, whichever piece
it is in. So the two halves of a message meet only where the first of them is accepted as a whole.
-/

namespace Liblw.Net

open Liblw.Lib
open Io (Window)

/-! ### The calls of one round -/

section Round

variable (kernel : Kernel) (data : Window) (sending : Sending)

/-- The answer to the call that comes next. -/
def Kernel.reply : SendAnswer := kernel.answer sending.calls data.size

/-- The state behind that call. -/
def Kernel.after : Sending :=
  ⟨sending.calls + 1,
    sending.accepted ++ data.addresses.take (kernel.reply data sending).count⟩

/-- The two halves of a message. -/
def Socket.sendHalves (fuel : Nat) : Call Fault Sending Nat := do
  let firstSend ← Socket.doSend kernel fuel ⟨data.data, data.size / 2⟩
  let secondSend ←
    Socket.doSend kernel fuel ⟨data.data + data.size / 2, data.size - data.size / 2⟩
  pure ((firstSend + secondSend) % 2 ^ 64)

theorem trimSuffix_half {σ : Type} (state : σ) :
    (data.trimSuffix (data.size - data.size / 2)).exec state =
      (.ok ⟨data.data, data.size / 2⟩, state) := by
  have hhalf : data.size - (data.size - data.size / 2) = data.size / 2 := by omega
  rw [Window.trimSuffix, if_neg (Nat.not_lt_of_le (Nat.sub_le _ _)), Call.exec_pure, hhalf]

theorem trimPrefix_half {σ : Type} (state : σ) :
    (data.trimPrefix (data.size / 2)).exec state =
      (.ok ⟨data.data + data.size / 2, data.size - data.size / 2⟩, state) := by
  rw [Window.trimPrefix, if_neg (Nat.not_lt_of_le (Nat.div_le_self _ _)), Call.exec_pure]

theorem exec_send :
    (kernel.send data).exec sending =
      (.ok (kernel.reply data sending), kernel.after data sending) := rfl

theorem exec_split (fuel : Nat) :
    Call.exec (do
      let halfSize := data.size / 2
      let first ← data.trimSuffix (data.size - halfSize)
      let firstSend ← Socket.doSend kernel fuel first
      let second ← data.trimPrefix halfSize
      let secondSend ← Socket.doSend kernel fuel second
      pure ((firstSend + secondSend) % 2 ^ 64)) sending =
    (Socket.sendHalves kernel data fuel).exec sending := by
  rw [Call.exec_bind_ok (trimSuffix_half data sending), Socket.sendHalves, Call.exec_bind,
    Call.exec_bind]
  rcases (Socket.doSend kernel fuel ⟨data.data, data.size / 2⟩).exec sending with ⟨result, middle⟩
  cases result with
  | error fault => rfl
  | ok firstSend => exact Call.exec_bind_ok (trimPrefix_half data middle)

/-- A round of `_do_send`. What other errors it throws does not matter. -/
theorem exec_doSend : ∃ error, ∀ fuel, (Socket.doSend kernel (fuel + 1) data).exec sending =
    if 0 < (kernel.reply data sending).bytesSent then
      (.ok (kernel.reply data sending).bytesSent.toNat, kernel.after data sending)
    else if (kernel.reply data sending).errno = .wouldBlock then
      (Socket.doSend kernel fuel data).exec (kernel.after data sending)
    else if (kernel.reply data sending).errno = .messageTooLong ∧ 2 ≤ data.size then
      (Socket.sendHalves kernel data fuel).exec (kernel.after data sending)
    else (.error (.thrown error), kernel.after data sending) := by
  have hround : ∀ fuel, (Socket.doSend kernel (fuel + 1) data).exec sending = _ :=
    fun fuel => (congrArg (Call.exec · sending) (Socket.doSend.eq_2 kernel data fuel)).trans
      (Call.exec_bind_ok (exec_send kernel data sending))
  simp only [hround, Call.exec_ite, exec_split, Call.exec_pure, shouldWait, decide_eq_true_eq]
  by_cases hlong : (kernel.reply data sending).errno = .messageTooLong
  · by_cases hsmall : data.size < 2
    · simp only [if_pos hlong, if_pos hsmall, exec_raise,
        if_neg fun hboth : _ ∧ 2 ≤ data.size => Nat.not_le_of_lt hsmall hboth.2]
      exact ⟨_, fun _ => rfl⟩
    · simp only [hlong, if_neg hsmall, true_and, if_pos (Nat.le_of_not_lt hsmall)]
      exact ⟨⟨.internal, ""⟩, fun _ => rfl⟩
  · simp only [hlong, if_false, false_and]
    cases kernel.systemError (kernel.reply data sending).errno with
    | some error => exact ⟨error, fun _ => rfl⟩
    | none => exact ⟨_, fun _ => rfl⟩

variable {kernel data sending}

theorem halves_of_exec {fuel n : Nat} {final : Sending}
    (hexec : (Socket.sendHalves kernel data fuel).exec sending = (.ok n, final)) :
    ∃ firstSend between secondSend,
      (Socket.doSend kernel fuel ⟨data.data, data.size / 2⟩).exec sending =
        (.ok firstSend, between) ∧
      (Socket.doSend kernel fuel ⟨data.data + data.size / 2, data.size - data.size / 2⟩).exec
        between = (.ok secondSend, final) ∧
      n = (firstSend + secondSend) % 2 ^ 64 := by
  obtain ⟨firstSend, between, hfirst, hrest⟩ := Call.exec_bind_eq_ok hexec
  obtain ⟨secondSend, last, hsecond, hpure⟩ := Call.exec_bind_eq_ok hrest
  cases hpure
  exact ⟨firstSend, between, secondSend, hfirst, hsecond, rfl⟩

/-- The answers that let a call go on: bytes were taken, and the result is positive unless there
were too many of them, or none were. -/
theorem reply_cases (hsize : 0 < data.size) :
    (∃ count errno, kernel.reply data sending = .sent count errno ∧ 0 < count ∧ count ≤ data.size) ∨
      ∃ errno, kernel.reply data sending = .failed errno := by
  cases hreply : kernel.reply data sending with
  | sent count errno => exact Or.inl ⟨count, errno, rfl, kernel.count_le hsize hreply⟩
  | failed errno => exact Or.inr ⟨errno, rfl⟩

end Round

/-! ### Counts -/

theorem bmod_le_self (count modulus : Nat) : (count : Int).bmod modulus ≤ count := by
  have hmod : (count : Int) % modulus ≤ count := by
    rw [← Int.natCast_emod]
    exact Int.ofNat_le.mpr (Nat.mod_le count modulus)
  rw [Int.bmod_def]
  split_ifs <;> omega

theorem toInt_le (count : Nat) : toInt count ≤ count := bmod_le_self count (2 ^ 32)

theorem toInt_eq_iff (count : Nat) : toInt count = count ↔ count < 2 ^ 31 := by
  unfold toInt
  constructor
  · intro hsame
    have hlt := @Int.bmod_lt count (2 ^ 32) (by decide)
    omega
  · intro hint
    apply Int.bmod_eq_of_le
    · omega
    · omega

/-! ### The bytes that are accepted -/

/-- What a completed call has had the kernel accept, whichever the answers were: it begins with the
first byte, and is not less than what the call returns. -/
structure Accepts (data : Window) (n : Nat) (accepted : List Nat) : Prop where
  head_eq : accepted.head? = some data.data
  pos : 0 < n
  le_size : n ≤ data.size
  le_length : n ≤ accepted.length

namespace Accepts

variable {data : Window} {n : Nat} {accepted : List Nat}

theorem behind (haccepts : Accepts data n accepted) (count : Nat) :
    Accepts data n (List.range' data.data count ++ accepted) where
  head_eq := by
    cases count with
    | zero => exact haccepts.head_eq
    | succ count => rfl
  pos := haccepts.pos
  le_size := haccepts.le_size
  le_length := by
    rw [List.length_append]
    exact haccepts.le_length.trans (Nat.le_add_left _ _)

theorem halves {firstSend secondSend half : Nat} {first second : List Nat}
    (hlt : data.size < 2 ^ 64) (hhalf : half ≤ data.size)
    (hfirst : Accepts ⟨data.data, half⟩ firstSend first)
    (hsecond : Accepts ⟨data.data + half, data.size - half⟩ secondSend second) :
    (firstSend + secondSend) % 2 ^ 64 = firstSend + secondSend ∧
      Accepts data (firstSend + secondSend) (first ++ second) := by
  have hfirstSize : firstSend ≤ half := hfirst.le_size
  have hsecondSize : secondSend ≤ data.size - half := hsecond.le_size
  refine ⟨Nat.mod_eq_of_lt (by omega), ?_, Nat.add_pos_left hfirst.pos _, by omega, ?_⟩
  · rw [List.head?_append, hfirst.head_eq]
    rfl
  · rw [List.length_append]
    exact Nat.add_le_add hfirst.le_length hsecond.le_length

/-- Bytes that are sent once more do not follow on each other. -/
theorem ne_range' (haccepts : Accepts data n accepted) {count : Nat} (hcount : 0 < count)
    (sent : Nat) : List.range' data.data count ++ accepted ≠ List.range' data.data sent := by
  intro hsame
  obtain ⟨taken, _, hfirst, hrest⟩ := List.range'_eq_append_iff.mp hsame.symm
  have hlength : count = taken := by
    simpa using congrArg List.length hfirst
  have hhead := haccepts.head_eq
  rw [hrest, List.head?_range'] at hhead
  split_ifs at hhead
  have hsum := Option.some.inj hhead
  omega

end Accepts

section Runs

variable {kernel : Kernel} {data : Window} {sending final : Sending} {n : Nat}

/-- Each call takes some of the first bytes of its data, or none. -/
theorem after_accepted (hsize : 0 < data.size) :
    ∃ count ≤ data.size, (kernel.reply data sending).count = count ∧
      (kernel.after data sending).accepted =
        sending.accepted ++ List.range' data.data count := by
  have hle : (kernel.reply data sending).count ≤ data.size := by
    rcases reply_cases hsize with ⟨count, errno, hreply, _, hle⟩ | ⟨errno, hreply⟩
    · rw [hreply]
      exact hle
    · rw [hreply]
      exact Nat.zero_le _
  refine ⟨_, hle, rfl, ?_⟩
  rw [Kernel.after, Window.addresses, List.take_range'_of_length_ge hle]

/-- A positive result is at most the number of bytes that were taken. -/
theorem sent_of_positive (hsize : 0 < data.size)
    (hpositive : 0 < (kernel.reply data sending).bytesSent) :
    ∃ count errno, kernel.reply data sending = .sent count errno ∧ count ≤ data.size ∧
      0 < (toInt count).toNat ∧ (toInt count).toNat ≤ count := by
  rcases reply_cases hsize with ⟨count, errno, hreply, _, hle⟩ | ⟨errno, hreply⟩
  · have hint := toInt_le count
    rw [hreply, SendAnswer.bytesSent] at hpositive
    exact ⟨count, errno, hreply, hle, by omega, by omega⟩
  · rw [hreply, SendAnswer.bytesSent] at hpositive
    exact absurd hpositive (by decide)

/-- Two halves that are sent, when this is known of each of them. -/
theorem accepts_of_sendHalves {fuel : Nat} (hsize : 2 ≤ data.size) (hlt : data.size < 2 ^ 64)
    (hsend : ∀ {data : Window} {sending final : Sending} {n : Nat}, 0 < data.size →
      data.size < 2 ^ 64 → (Socket.doSend kernel fuel data).exec sending = (.ok n, final) →
        ∃ accepted, final.accepted = sending.accepted ++ accepted ∧ Accepts data n accepted)
    (hexec : (Socket.sendHalves kernel data fuel).exec sending = (.ok n, final)) :
    ∃ accepted, final.accepted = sending.accepted ++ accepted ∧ Accepts data n accepted := by
  obtain ⟨firstSend, between, secondSend, hfirst, hsecond, rfl⟩ := halves_of_exec hexec
  obtain ⟨first, hfirstAccepted, hfirst⟩ := hsend (by dsimp; omega) (by dsimp; omega) hfirst
  obtain ⟨second, hsecondAccepted, hsecond⟩ := hsend (by dsimp; omega) (by dsimp; omega) hsecond
  obtain ⟨hsum, haccepts⟩ := Accepts.halves hlt (Nat.div_le_self _ _) hfirst hsecond
  rw [hsum]
  refine ⟨first ++ second, ?_, haccepts⟩
  rw [hsecondAccepted, hfirstAccepted, List.append_assoc]

theorem accepts_of_doSend {fuel : Nat} (hsize : 0 < data.size) (hlt : data.size < 2 ^ 64)
    (hexec : (Socket.doSend kernel fuel data).exec sending = (.ok n, final)) :
    ∃ accepted, final.accepted = sending.accepted ++ accepted ∧ Accepts data n accepted := by
  induction fuel generalizing data n sending final with
  | zero => cases hexec
  | succ fuel ih =>
      obtain ⟨error, hround⟩ := exec_doSend kernel data sending
      obtain ⟨count, hcount, hreply, htaken⟩ := @after_accepted kernel data sending hsize
      rw [hround] at hexec
      split_ifs at hexec with hpositive hwait hsplit
      · obtain ⟨sent, errno, hsent, hle, hpos, hint⟩ := sent_of_positive hsize hpositive
        rw [hsent] at hreply hexec
        obtain rfl : sent = count := hreply
        rw [Prod.mk.injEq, Except.ok.injEq] at hexec
        obtain ⟨rfl, rfl⟩ := hexec
        refine ⟨List.range' data.data sent, htaken, ?_, hpos, hint.trans hle, ?_⟩
        · rw [List.head?_range', if_neg (by omega)]
        · rw [List.length_range']
          exact hint
      · obtain ⟨accepted, haccepted, haccepts⟩ := ih hsize hlt hexec
        refine ⟨List.range' data.data count ++ accepted, ?_, haccepts.behind count⟩
        rw [haccepted, htaken, List.append_assoc]
      · obtain ⟨accepted, haccepted, haccepts⟩ := accepts_of_sendHalves hsplit.2 hlt ih hexec
        refine ⟨List.range' data.data count ++ accepted, ?_, haccepts.behind count⟩
        rw [haccepted, htaken, List.append_assoc]
      · cases hexec

/-! ### Whole pieces -/

section Whole

variable {call size count : Nat} {errno : Errno} {pending : List Nat}

theorem whole_sent_iff (hanswer : kernel.answer call size = .sent count errno) :
    kernel.Whole call (size :: pending) ↔
      count < 2 ^ 31 ∧ (count = size ∨ pending = []) ∧ kernel.Whole (call + 1) pending := by
  constructor
  · intro hwhole
    cases hwhole with
    | wait hother => cases hanswer.symm.trans hother
    | split hother => cases hanswer.symm.trans hother
    | sent hother hint hpiece hrest =>
        cases hanswer.symm.trans hother
        exact ⟨hint, hpiece, hrest⟩
  · rintro ⟨hint, hpiece, hrest⟩
    exact .sent hanswer hint hpiece hrest

theorem whole_wait_iff (hanswer : kernel.answer call size = .failed .wouldBlock) :
    kernel.Whole call (size :: pending) ↔ kernel.Whole (call + 1) (size :: pending) := by
  constructor
  · intro hwhole
    cases hwhole with
    | wait _ hrest => exact hrest
    | split hother => cases hanswer.symm.trans hother
    | sent hother => cases hanswer.symm.trans hother
  · exact .wait hanswer

theorem whole_split_iff (hanswer : kernel.answer call size = .failed .messageTooLong) :
    kernel.Whole call (size :: pending) ↔
      kernel.Whole (call + 1) (size / 2 :: (size - size / 2) :: pending) := by
  constructor
  · intro hwhole
    cases hwhole with
    | wait hother => cases hanswer.symm.trans hother
    | split _ hrest => exact hrest
    | sent hother => cases hanswer.symm.trans hother
  · exact .split hanswer

end Whole

/-- Two halves follow on each other exactly if the first of them is sent as a whole. -/
theorem halves_eq_range' {data : Window} {half firstSend secondSend : Nat}
    {first second : List Nat} (hhalf : half ≤ data.size)
    (hfirst : Accepts ⟨data.data, half⟩ firstSend first)
    (hsecond : Accepts ⟨data.data + half, data.size - half⟩ secondSend second) :
    first ++ second = List.range' data.data (firstSend + secondSend) ↔
      (first = List.range' data.data firstSend ∧ firstSend = half) ∧
        second = List.range' (data.data + half) secondSend := by
  constructor
  · intro hsame
    obtain ⟨taken, hle, htaken, hrest⟩ := List.range'_eq_append_iff.mp hsame.symm
    have hhead := hsecond.head_eq
    rw [hrest, List.head?_range'] at hhead
    split_ifs at hhead
    have hstart : data.data + taken * 1 = data.data + half := by simpa using hhead
    have hfirstLength := hfirst.le_length
    have hsecondLength := hsecond.le_length
    rw [htaken, List.length_range'] at hfirstLength
    rw [hrest, List.length_range'] at hsecondLength
    have hfirstSize : firstSend ≤ half := hfirst.le_size
    obtain rfl : taken = half := by omega
    obtain rfl : firstSend = taken := by omega
    refine ⟨⟨htaken, rfl⟩, ?_⟩
    rw [hrest, Nat.add_sub_cancel_left, Nat.mul_one]
  · rintro ⟨⟨rfl, rfl⟩, rfl⟩
    exact List.range'_append_1

/-- The answer that ends a call. -/
theorem whole_iff_of_positive {count : Nat} {errno : Errno}
    (hsent : kernel.reply data sending = .sent count errno) (pending : List Nat) :
    kernel.Whole sending.calls (data.size :: pending) ↔
      (List.range' data.data count = List.range' data.data (toInt count).toNat ∧
        (pending ≠ [] → (toInt count).toNat = data.size)) ∧
        kernel.Whole (sending.calls + 1) pending := by
  have hint := toInt_eq_iff count
  have hsame : List.range' data.data count = List.range' data.data (toInt count).toNat ↔
      count < 2 ^ 31 := by
    rw [← hint]
    constructor
    · intro hranges
      have hlengths := congrArg List.length hranges
      rw [List.length_range', List.length_range'] at hlengths
      omega
    · intro hcount
      rw [hcount, Int.toNat_natCast]
  rw [whole_sent_iff hsent, hsame, and_assoc]
  apply and_congr_right
  intro hlt
  rw [hint.mpr hlt, Int.toNat_natCast]
  apply and_congr_left
  intro _
  rw [or_comm, or_iff_not_imp_left]

/-- Bytes that were taken without a positive result are sent once more. -/
theorem whole_iff_of_stale {count : Nat} {errno : Errno} {rest accepted : List Nat}
    (hcount : 0 < count) (hsent : kernel.reply data sending = .sent count errno)
    (hnot : ¬ 0 < (kernel.reply data sending).bytesSent) (hrest : Accepts data n rest)
    (haccepted : accepted = List.range' data.data count ++ rest) (pending : List Nat)
    (behind : Prop) :
    kernel.Whole sending.calls (data.size :: pending) ↔
      (accepted = List.range' data.data n ∧ (pending ≠ [] → n = data.size)) ∧ behind := by
  apply iff_of_false
  · intro hwhole
    have hint := (toInt_eq_iff count).mpr ((whole_sent_iff hsent).mp hwhole).1
    rw [hsent, SendAnswer.bytesSent, hint] at hnot
    omega
  · rintro ⟨⟨hsame, _⟩, _⟩
    exact hrest.ne_range' hcount n (haccepted.symm.trans hsame)

/-- The two halves, when this is known of each of them. -/
theorem whole_iff_of_halves {fuel : Nat} {accepted : List Nat} (hsize : 2 ≤ data.size)
    (hlt : data.size < 2 ^ 64)
    (hsend : ∀ {data : Window} {sending final : Sending} {n : Nat} {accepted : List Nat},
      0 < data.size → data.size < 2 ^ 64 →
      (Socket.doSend kernel fuel data).exec sending = (.ok n, final) →
      final.accepted = sending.accepted ++ accepted → ∀ pending,
        (kernel.Whole sending.calls (data.size :: pending) ↔
          (accepted = List.range' data.data n ∧ (pending ≠ [] → n = data.size)) ∧
            kernel.Whole final.calls pending))
    (hexec : (Socket.sendHalves kernel data fuel).exec sending = (.ok n, final))
    (haccepted : final.accepted = sending.accepted ++ accepted) (pending : List Nat) :
    kernel.Whole sending.calls (data.size / 2 :: (data.size - data.size / 2) :: pending) ↔
      (accepted = List.range' data.data n ∧ (pending ≠ [] → n = data.size)) ∧
        kernel.Whole final.calls pending := by
  have hhalf : data.size / 2 ≤ data.size := Nat.div_le_self _ _
  have hfirstPos : 0 < data.size / 2 := by omega
  have hsecondPos : 0 < data.size - data.size / 2 := by omega
  obtain ⟨firstSend, between, secondSend, hfirst, hsecond, rfl⟩ := halves_of_exec hexec
  obtain ⟨first, hfirstAccepted, haccepts⟩ := accepts_of_doSend hfirstPos (by dsimp; omega) hfirst
  obtain ⟨second, hsecondAccepted, haccepts'⟩ :=
    accepts_of_doSend hsecondPos (by dsimp; omega) hsecond
  rw [hsecondAccepted, hfirstAccepted, List.append_assoc] at haccepted
  rw [← List.append_cancel_left haccepted, (haccepts.halves hlt hhalf haccepts').1,
    halves_eq_range' hhalf haccepts haccepts',
    hsend hfirstPos (by dsimp; omega) hfirst hfirstAccepted,
    hsend hsecondPos (by dsimp; omega) hsecond hsecondAccepted]
  have hfirstSize : firstSend ≤ data.size / 2 := haccepts.le_size
  constructor
  · rintro ⟨⟨hfirstRange, hfirstWhole⟩, ⟨hsecondRange, hsecondWhole⟩, hpending⟩
    have hwhole : firstSend = data.size / 2 := hfirstWhole (List.cons_ne_nil _ _)
    refine ⟨⟨⟨⟨hfirstRange, hwhole⟩, hsecondRange⟩, fun hmore => ?_⟩, hpending⟩
    have hrest := hsecondWhole hmore
    dsimp at hrest
    omega
  · rintro ⟨⟨⟨⟨hfirstRange, hwhole⟩, hsecondRange⟩, hall⟩, hpending⟩
    refine ⟨⟨hfirstRange, fun _ => hwhole⟩, ⟨hsecondRange, fun hmore => ?_⟩, hpending⟩
    have hrest := hall hmore
    dsimp
    omega

/-- A completed call accepts the first bytes, and all of them if others are still to follow, exactly
if it is whole, and then the pieces that follow have to be whole. -/
theorem whole_iff_of_doSend {fuel : Nat} {accepted : List Nat} (hsize : 0 < data.size)
    (hlt : data.size < 2 ^ 64)
    (hexec : (Socket.doSend kernel fuel data).exec sending = (.ok n, final))
    (haccepted : final.accepted = sending.accepted ++ accepted) (pending : List Nat) :
    kernel.Whole sending.calls (data.size :: pending) ↔
      (accepted = List.range' data.data n ∧ (pending ≠ [] → n = data.size)) ∧
        kernel.Whole final.calls pending := by
  induction fuel generalizing data n sending final accepted pending with
  | zero => cases hexec
  | succ fuel ih =>
      obtain ⟨error, hround⟩ := exec_doSend kernel data sending
      obtain ⟨count, hcount, hreply, htaken⟩ := @after_accepted kernel data sending hsize
      rw [hround] at hexec
      split_ifs at hexec with hpositive hwait hsplit
      · obtain ⟨sent, errno, hsent, _⟩ := sent_of_positive hsize hpositive
        rw [hsent] at hreply hexec
        obtain rfl : sent = count := hreply
        rw [Prod.mk.injEq, Except.ok.injEq] at hexec
        obtain ⟨rfl, rfl⟩ := hexec
        rw [htaken] at haccepted
        rw [← List.append_cancel_left haccepted]
        exact whole_iff_of_positive hsent pending
      · rcases reply_cases hsize with ⟨sent, errno, hsent, hpos, _⟩ | ⟨errno, hfailed⟩
        · obtain ⟨rest, hfinal, hrest⟩ := accepts_of_doSend hsize hlt hexec
          rw [hsent] at hreply
          obtain rfl : sent = count := hreply
          rw [hfinal, htaken, List.append_assoc] at haccepted
          exact whole_iff_of_stale hpos hsent hpositive hrest
            (List.append_cancel_left haccepted).symm pending _
        · rw [hfailed] at hwait hreply
          obtain rfl : errno = .wouldBlock := hwait
          obtain rfl : 0 = count := hreply
          rw [whole_wait_iff hfailed]
          apply ih hsize hlt hexec
          rw [haccepted, htaken, List.range'_zero, List.append_nil]
      · rcases reply_cases hsize with ⟨sent, errno, hsent, hpos, _⟩ | ⟨errno, hfailed⟩
        · obtain ⟨rest, hfinal, hrest⟩ :=
            accepts_of_sendHalves hsplit.2 hlt accepts_of_doSend hexec
          rw [hsent] at hreply
          obtain rfl : sent = count := hreply
          rw [hfinal, htaken, List.append_assoc] at haccepted
          exact whole_iff_of_stale hpos hsent hpositive hrest
            (List.append_cancel_left haccepted).symm pending _
        · rw [hfailed] at hsplit hreply
          obtain rfl : errno = .messageTooLong := hsplit.1
          obtain rfl : 0 = count := hreply
          rw [whole_split_iff hfailed]
          exact whole_iff_of_halves hsplit.2 hlt ih hexec
            (by rw [haccepted, htaken, List.range'_zero, List.append_nil]) pending
      · cases hexec

/-! ### The end of the recursion -/

theorem ends_sendHalves
    (hfirst : Call.Ends .diverged
      (fun fuel => Socket.doSend kernel fuel ⟨data.data, data.size / 2⟩) sending)
    (hsecond : ∀ between, Call.Ends .diverged (fun fuel => Socket.doSend kernel fuel
      ⟨data.data + data.size / 2, data.size - data.size / 2⟩) between) :
    Call.Ends .diverged (Socket.sendHalves kernel data) sending :=
  hfirst.bind fun _ between => (hsecond between).bind fun _ last => Call.ends_pure _ last

theorem ends_of_round
    (hwait : ¬ 0 < (kernel.reply data sending).bytesSent →
      (kernel.reply data sending).errno = .wouldBlock →
      Call.Ends .diverged (fun fuel => Socket.doSend kernel fuel data) (kernel.after data sending))
    (hsplit : 2 ≤ data.size →
      Call.Ends .diverged (Socket.sendHalves kernel data) (kernel.after data sending)) :
    Call.Ends .diverged (fun fuel => Socket.doSend kernel fuel data) sending := by
  obtain ⟨error, hround⟩ := exec_doSend kernel data sending
  split_ifs at hround with hpositive hblocked hlong
  · exact Call.ends_of_succ hround (Call.ends_pure _ _)
  · exact Call.ends_of_succ hround (hwait hpositive hblocked)
  · exact Call.ends_of_succ hround (hsplit hlong.2)
  · have hthrown : (Except.error (Fault.thrown error) : Except Fault Nat) ≠ .error .diverged :=
      nofun
    exact Call.ends_of_succ hround (Call.ends_of_eq hthrown fun _ => Call.exec_throw _ _)

/-- The recursion is on the size, and for one size on the calls up to one that does not wait. -/
theorem ends_doSend (hkeeps : kernel.KeepsAnswering) (data : Window) (sending : Sending) :
    Call.Ends .diverged (fun fuel => Socket.doSend kernel fuel data) sending := by
  induction hlength : data.size using Nat.strong_induction_on generalizing data sending with
  | _ size ihSize =>
      subst hlength
      have hhalves : 2 ≤ data.size →
          ∀ sending, Call.Ends .diverged (Socket.sendHalves kernel data) sending := by
        intro htwo sending
        apply ends_sendHalves
        · exact ihSize (data.size / 2) (by omega) _ sending rfl
        · exact fun between => ihSize (data.size - data.size / 2) (by omega) _ between rfl
      obtain ⟨later, hlater, hanswers⟩ := hkeeps sending.calls
      induction hdistance : later - sending.calls generalizing sending with
      | zero =>
          obtain rfl : later = sending.calls := by omega
          apply ends_of_round
          · exact fun hnot hblocked => absurd (hanswers data.size hblocked) hnot
          · exact fun htwo => hhalves htwo _
      | succ distance ih =>
          apply ends_of_round
          · intro _ _
            apply ih
            · change sending.calls + 1 ≤ later
              omega
            · change later - (sending.calls + 1) = distance
              omega
          · exact fun htwo => hhalves htwo _

end Runs

theorem doSend_of_send {socket : Socket} {kernel : Kernel} {data : Window} {fuel n : Nat}
    {sending final : Sending}
    (hexec : (socket.send kernel fuel data).exec sending = (.ok n, final)) :
    0 < data.size ∧ (Socket.doSend kernel fuel data).exec sending = (.ok n, final) := by
  rw [Socket.send] at hexec
  split_ifs at hexec with hopen hempty hnull
  · cases hexec
  · cases hexec
  · cases hexec
  · exact ⟨Nat.pos_of_ne_zero hempty, hexec⟩

/-- **Sending on a socket.** The bytes that a completed call has had accepted are the first ones of
the data, as many as it returns, if and only if the pieces are accepted as a whole up to the last
one. And the call comes to an end when the kernel does not have it wait forever. -/
theorem send_accepts_iff (kernel : Kernel) (socket : Socket) (data : Window)
    (hlt : data.size < 2 ^ 64) :
    (∀ fuel n final, (socket.send kernel fuel data).exec .start = (.ok n, final) →
      (final.accepted = data.addresses.take n ↔ kernel.Whole 0 [data.size])) ∧
    (kernel.KeepsAnswering →
      ∃ bound, ∀ fuel, bound ≤ fuel →
        ((socket.send kernel fuel data).exec .start).1 ≠ .error .diverged) := by
  constructor
  · intro fuel n final hexec
    obtain ⟨hsize, hexec⟩ := doSend_of_send hexec
    obtain ⟨accepted, haccepted, haccepts⟩ := accepts_of_doSend hsize hlt hexec
    have hdone : kernel.Whole final.calls [] := .done _
    have hwhole : kernel.Whole 0 [data.size] ↔ accepted = List.range' data.data n := by
      apply (whole_iff_of_doSend hsize hlt hexec haccepted []).trans
      rw [and_iff_left hdone, and_iff_left fun hmore => absurd rfl hmore]
    rw [hwhole, haccepted, Window.addresses, List.take_range'_of_length_ge haccepts.le_size]
    rfl
  · intro hkeeps
    obtain ⟨bound, outcome, houtcome, hends⟩ := ends_doSend hkeeps data .start
    refine ⟨bound, fun fuel hbound => ?_⟩
    rw [Socket.send]
    split_ifs
    · nofun
    · nofun
    · nofun
    · rw [hends fuel hbound]
      exact houtcome

/-- A kernel that takes no message of four bytes, and of the first half only one byte. -/
def splittingKernel : Kernel where
  answer call size :=
    if size = 0 ∨ 4 ≤ size then .failed .messageTooLong
    else if call = 1 then .sent 1 .none
    else .sent size .none
  count_le := by
    intro call size count errno hsize hanswer
    split_ifs at hanswer
    · cases hanswer
      omega
    · cases hanswer
      omega
  systemError _ := none

theorem send_accepts_splitting :
    let data : Window := ⟨4096, 3⟩
    ((⟨true⟩ : Socket).send splittingKernel 2 data).exec .start =
        (.ok 3, ⟨1, [4096, 4097, 4098]⟩) ∧
      splittingKernel.Whole 0 [data.size] := by
  intro data
  have hexec : ((⟨true⟩ : Socket).send splittingKernel 2 data).exec .start =
      (.ok 3, ⟨1, [4096, 4097, 4098]⟩) := by decide
  refine ⟨hexec, ?_⟩
  exact ((send_accepts_iff splittingKernel ⟨true⟩ data (by decide)).1 2 3 _ hexec).mp rfl

/-- Of the bytes of a message that is split, the one in the middle is left out. -/
theorem not_accepts_splitting :
    let data : Window := ⟨4096, 4⟩
    ∃ final, ((⟨true⟩ : Socket).send splittingKernel 3 data).exec .start = (.ok 3, final) ∧
      final.accepted = [4096, 4098, 4099] ∧ final.accepted ≠ data.addresses.take 3 := by
  exact ⟨⟨3, [4096, 4098, 4099]⟩, by decide, rfl, by decide⟩

end Liblw.Net
