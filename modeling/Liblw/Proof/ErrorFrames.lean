import Liblw.ErrorStack

/-!
# The frames of a copied error

A copy that is made has all the frames. One that is assigned keeps the length that the message had
before, and the stack that it had before if the other error wraps none.
-/

namespace Liblw.ErrorStack

open Liblw.Lib

variable {allocation : Allocation} {stack rhs : ErrorStack}

/-- The frames of the stack that this one wraps. -/
def framesBelow (previous : Option ErrorStack) : List (SourceLocation × List UInt8) :=
  match previous with
  | some previous => previous.frames
  | none => []

theorem frames_eq (stack : ErrorStack) :
    stack.frames = (stack.location, stack.message) :: framesBelow stack.previous := by
  rcases stack with ⟨location, buffer, _ | previous⟩ <;> rw [frames] <;> rfl

theorem framesBelow_eq_nil_iff (previous : Option ErrorStack) :
    framesBelow previous = [] ↔ previous = none := by
  cases previous with
  | none => exact iff_of_true rfl rfl
  | some previous =>
      refine iff_of_false ?_ (Option.some_ne_none previous)
      rw [framesBelow, frames_eq]
      exact List.cons_ne_nil _ _

theorem frames_copyConstruct (allocation : Allocation) (other : ErrorStack) :
    (other.copyConstruct allocation).frames = other.frames := by
  fun_induction copyConstruct allocation other with
  | case1 location buffer => rw [frames, frames, StdString.bytes_ofBytes]
  | case2 location buffer previous ih => rw [frames, frames, StdString.bytes_ofBytes, ih]

theorem moveConstruct_eq (other : ErrorStack) : other.moveConstruct = other := by
  cases other
  rfl

theorem frames_setPrevious (stack previous : ErrorStack) :
    (stack.setPrevious previous).frames = (stack.location, stack.message) :: previous.frames := by
  rw [frames_eq, setPrevious, moveConstruct_eq]
  rfl

/-- What the previous stack is after an assignment. -/
def assignedPrevious (allocation : Allocation) (stack rhs : ErrorStack) : Option ErrorStack :=
  match rhs.previous with
  | some previous => some (previous.copyConstruct allocation)
  | none => stack.previous

/-- It has the other one's frames, unless there is a stack to keep and none to copy. -/
theorem framesBelow_assigned (allocation : Allocation) (stack rhs : ErrorStack) :
    framesBelow (assignedPrevious allocation stack rhs) = framesBelow rhs.previous ↔
      (rhs.previous = none → stack.previous = none) := by
  unfold assignedPrevious
  cases rhs.previous with
  | none =>
      rw [forall_prop_of_true (show (none : Option ErrorStack) = none from rfl)]
      exact framesBelow_eq_nil_iff stack.previous
  | some previous =>
      exact iff_of_true (frames_copyConstruct allocation previous)
        fun hnone => absurd hnone (Option.some_ne_none previous)

theorem copyAssign_of_long
    (hlong : rhs.buffer.chars.length < stack.buffer.size) :
    stack.copyAssign allocation rhs = .error (.undefined .readPastBuffer) := by
  rw [copyAssign, if_pos (by rwa [StdString.size_reserve])]

theorem copyAssign_of_le (hle : stack.buffer.size ≤ rhs.buffer.chars.length) :
    ∃ assigned, stack.copyAssign allocation rhs = .ok assigned ∧
      assigned.location = rhs.location ∧
      assigned.message = rhs.buffer.chars.take stack.buffer.size ∧
      assigned.previous = assignedPrevious allocation stack rhs := by
  have hsize : (stack.buffer.reserve allocation rhs.buffer.size).size = stack.buffer.size :=
    StdString.size_reserve allocation _ _
  rw [copyAssign, if_neg (by rwa [hsize, Nat.not_lt])]
  refine ⟨_, rfl, rfl, ?_, rfl⟩
  rw [hsize]
  apply StdString.bytes_overwrite
  rw [hsize, List.length_take, Nat.min_eq_left hle]

/-- As the size of the buffer stays, the message is the other one's if it was as long. -/
theorem copyAssign_iff (allocation : Allocation) (stack rhs : ErrorStack) :
    (∃ assigned, stack.copyAssign allocation rhs = .ok assigned ∧ assigned.frames = rhs.frames) ↔
      stack.message.length = rhs.message.length ∧
        (rhs.previous = none → stack.previous = none) := by
  have hstack : stack.message.length = stack.buffer.size := StdString.length_bytes _
  have hrhs : rhs.message.length = rhs.buffer.size := StdString.length_bytes _
  rcases Nat.lt_or_ge rhs.buffer.chars.length stack.buffer.size with hlong | hle
  · have hlt := rhs.buffer.size_lt
    rw [copyAssign_of_long hlong]
    refine iff_of_false ?_ fun hmeets => absurd hmeets.1 (by omega)
    rintro ⟨assigned, hassign, -⟩
    cases hassign
  · obtain ⟨assigned, hassign, hlocation, hmessage, hprevious⟩ :=
      @copyAssign_of_le allocation _ _ hle
    have hsame : assigned.message = rhs.message ↔ stack.message.length = rhs.message.length := by
      rw [hmessage, hstack, hrhs]
      constructor
      · intro heq
        have hlength := congrArg List.length heq
        rwa [List.length_take, Nat.min_eq_left hle, hrhs] at hlength
      · intro heq
        rw [heq]
        rfl
    have hframes : assigned.frames = rhs.frames ↔
        stack.message.length = rhs.message.length ∧
          (rhs.previous = none → stack.previous = none) := by
      rw [frames_eq assigned, frames_eq rhs, List.cons.injEq, Prod.mk.injEq, hlocation, hprevious,
        framesBelow_assigned, hsame]
      exact and_congr_left' (and_iff_right rfl)
    rw [← hframes]
    constructor
    · rintro ⟨other, hother, heq⟩
      rw [hassign] at hother
      cases hother
      exact heq
    · exact fun heq => ⟨assigned, hassign, heq⟩

/-- **Copied errors.** A copy that is made and an error that wraps another one have its frames. One
that is assigned has them exactly if the message was as long before, and it wrapped no error or is
assigned one that does. -/
theorem copies_iff (allocation : Allocation) (stack rhs made : ErrorStack) :
    Copies allocation stack rhs made ↔
      stack.message.length = rhs.message.length ∧
        (rhs.previous = none → stack.previous = none) := by
  rw [← copyAssign_iff allocation stack rhs]
  refine ⟨fun hcopies => hcopies.assigns, fun hassigns => ⟨?_, hassigns, ?_, ?_⟩⟩
  · exact frames_copyConstruct allocation rhs
  · rw [wrap, frames_setPrevious, frames_copyConstruct]
  · rw [wrapMoved, frames_setPrevious, moveConstruct_eq]

/-- An error of an empty message that is assigned one of a single character stays empty, and one
that wraps an error still wraps it when it is assigned one that wraps none. -/
theorem not_copies :
    let location : SourceLocation := ⟨"server.cpp", "run", 1, 1⟩
    let empty : ErrorStack := ⟨location, .ofBytes .tight [], none⟩
    ¬ Copies .tight empty ⟨location, .ofBytes .tight [97], none⟩ empty ∧
      ¬ Copies .tight ⟨location, .ofBytes .tight [], some empty⟩ empty empty := by
  refine ⟨fun hcopies => ?_, fun hcopies => ?_⟩
  · have hlength := ((copyAssign_iff _ _ _).1 hcopies.assigns).1
    exact absurd hlength (by decide)
  · have hprevious := ((copyAssign_iff _ _ _).1 hcopies.assigns).2 rfl
    exact absurd hprevious (Option.some_ne_none _)

end Liblw.ErrorStack
