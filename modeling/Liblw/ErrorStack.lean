import Liblw.Error
import Liblw.Lib.StdString

/-!
# Stacks of errors

An error has a frame of its own and, if it wraps another error, the frames of that one. A frame
keeps its message in a string buffer, of which only the string is read here: the pointers of the
stream are left out. The header that an error type begins its message with is up to the type.
-/

namespace Liblw

open Liblw.Lib

structure SourceLocation where
  fileName : String
  functionName : String
  line : Nat
  column : Nat
deriving DecidableEq, Repr

structure ErrorStack where
  location : SourceLocation
  buffer : StdString
  previous : Option ErrorStack

namespace ErrorStack

def message (stack : ErrorStack) : List UInt8 := stack.buffer.bytes

/-- The location and the message of every frame from `begin()` to `end()`. -/
def frames : ErrorStack → List (SourceLocation × List UInt8)
  | ⟨location, buffer, none⟩ => [(location, buffer.bytes)]
  | ⟨location, buffer, some previous⟩ => (location, buffer.bytes) :: previous.frames

def copyConstruct (allocation : Allocation) : ErrorStack → ErrorStack
  | ⟨location, buffer, none⟩ => ⟨location, .ofBytes allocation buffer.bytes, none⟩
  | ⟨location, buffer, some previous⟩ =>
      ⟨location, .ofBytes allocation buffer.bytes, some (previous.copyConstruct allocation)⟩

/-- As many characters are copied as the buffer had before, and its size stays as it is. -/
def copyAssign (allocation : Allocation) (stack rhs : ErrorStack) : Result ErrorStack :=
  let reserved := stack.buffer.reserve allocation rhs.buffer.size
  if rhs.buffer.chars.length < reserved.size then
    .error (.undefined .readPastBuffer)
  else
    .ok {
      location := rhs.location
      buffer := reserved.overwrite (rhs.buffer.chars.take reserved.size)
      previous := match rhs.previous with
        | some previous => some (previous.copyConstruct allocation)
        | none => stack.previous }

/-- What is made of a stack that is moved has its characters and its previous stack. -/
def moveConstruct (other : ErrorStack) : ErrorStack :=
  ⟨other.location, other.buffer, other.previous⟩

def setPrevious (stack previous : ErrorStack) : ErrorStack :=
  { stack with previous := some previous.moveConstruct }

/-- `wrap` of an error that is kept: a copy of its stack is passed on. -/
def wrap (allocation : Allocation) (made subError : ErrorStack) : ErrorStack :=
  made.setPrevious (subError.copyConstruct allocation)

/-- `wrap` of an error that is given up. -/
def wrapMoved (made subError : ErrorStack) : ErrorStack :=
  made.setPrevious subError.moveConstruct

/-- What is expected of copies of an error, and of wrapping it with one that was made: the frames go
along. -/
structure Copies (allocation : Allocation) (stack rhs made : ErrorStack) : Prop where
  constructs : (rhs.copyConstruct allocation).frames = rhs.frames
  assigns : ∃ assigned,
    stack.copyAssign allocation rhs = .ok assigned ∧ assigned.frames = rhs.frames
  wraps : (wrap allocation made rhs).frames = (made.location, made.message) :: rhs.frames
  wrapsMoved : (wrapMoved made rhs).frames = (made.location, made.message) :: rhs.frames

end ErrorStack

end Liblw
