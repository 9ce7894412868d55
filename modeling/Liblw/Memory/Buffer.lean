import Liblw.Error
import Liblw.Lib.Ownership

/-!
# Buffers and their blocks

A `Buffer` points into a block of memory and may own it. What it owns is deleted by its destructor
and by an assignment to it. Moving from a buffer takes the ownership and leaves the pointer, and a
trimmed buffer or a view owns nothing. What the blocks hold does not matter here.
-/

namespace Liblw.Memory

open Liblw.Lib

/-- A place in the block that `new` has given out as the `block`-th one. -/
structure Pointer where
  block : Nat
  offset : Nat
deriving DecidableEq, Repr

def Pointer.add (pointer : Pointer) (n : Nat) : Pointer :=
  { pointer with offset := pointer.offset + n }

structure Buffer where
  capacity : Nat := 0
  data : Option Pointer := none
  ownData : Bool := false
deriving DecidableEq, Repr

/-- What a buffer deletes when it goes away. -/
def Buffer.owned (buffer : Buffer) : Option Pointer :=
  if buffer.ownData then buffer.data else none

/-- `buffer` is each of the buffers by name, and a default constructed one where there is no such
buffer. `sizes` has every block that was given out, `elsewhere` those that other code deletes. -/
structure Objects where
  buffer : Nat → Buffer
  sizes : List Nat
  live : Finset Nat
  elsewhere : Finset Nat

/-- `invalidDelete` is `delete[]` of what `new` has not given out or what is deleted already. -/
inductive BufferFault where
  | thrown (error : Error)
  | invalidDelete
deriving DecidableEq, Repr

abbrev BufferCall := Call BufferFault Objects

/-- `new std::uint8_t[size]`. -/
def newArray (size : Nat) : BufferCall Pointer :=
  .ofFunction fun state =>
    (⟨state.sizes.length, 0⟩,
      { state with
        sizes := state.sizes ++ [size]
        live := insert state.sizes.length state.live })

def deleteArray (pointer : Pointer) : BufferCall Unit := do
  let state ← get
  if pointer.offset = 0 ∧ pointer.block ∈ state.live then
    set { state with live := state.live.erase pointer.block }
  else throw .invalidDelete

namespace Objects

def withBuffer (state : Objects) (name : Nat) (buffer : Buffer) : Objects :=
  { state with buffer := Function.update state.buffer name buffer }

def setBuffer (name : Nat) (buffer : Buffer) : BufferCall Unit :=
  modify fun state => state.withBuffer name buffer

/-- `_own_data = false`. -/
def disown (name : Nat) : BufferCall Unit :=
  modify fun state => state.withBuffer name { state.buffer name with ownData := false }

def deleteOwned (name : Nat) : BufferCall Unit := do
  let state ← get
  match (state.buffer name).owned with
  | some data => deleteArray data
  | none => pure ()

/-- Around memory from elsewhere. -/
def wrap (name : Nat) (buffer : Option Pointer) (capacity : Nat) (ownData : Bool) :
    BufferCall Unit :=
  setBuffer name ⟨capacity, buffer, ownData⟩

def allocate (name size : Nat) : BufferCall Unit := do
  let data ← newArray size
  setBuffer name ⟨size, some data, true⟩

def moveConstruct (target source : Nat) : BufferCall Unit := do
  let state ← get
  setBuffer target (state.buffer source)
  disown source

/-- `operator=`. -/
def moveAssign (target source : Nat) : BufferCall Unit := do
  deleteOwned target
  let state ← get
  setBuffer target (state.buffer source)
  disown source

/-- `~Buffer`. -/
def destroy (name : Nat) : BufferCall Unit := do
  deleteOwned name
  setBuffer name {}

def trimError (n capacity : Nat) : BufferFault :=
  .thrown ⟨.invalidArgument, s!"Cannot trim {n} bytes from buffer with {capacity} bytes."⟩

def trimPrefix (target source n : Nat) : BufferCall Unit := do
  let state ← get
  let buffer := state.buffer source
  if buffer.capacity < n then throw (trimError n buffer.capacity)
  else wrap target (buffer.data.map (·.add n)) (buffer.capacity - n) false

def trimSuffix (target source n : Nat) : BufferCall Unit := do
  let state ← get
  let buffer := state.buffer source
  if buffer.capacity < n then throw (trimError n buffer.capacity)
  else wrap target buffer.data (buffer.capacity - n) false

/-- `BufferView{buffer}`. -/
def view (target source : Nat) : BufferCall Unit := do
  let state ← get
  wrap target (state.buffer source).data (state.buffer source).capacity false

/-- Other code takes a block, or deletes one that it has. -/
def newElsewhere (size : Nat) : BufferCall Unit := do
  let data ← newArray size
  modify fun state => { state with elsewhere := insert data.block state.elsewhere }

def deleteElsewhere (block : Nat) : BufferCall Unit := do
  deleteArray ⟨block, 0⟩
  modify fun state => { state with elsewhere := state.elsewhere.erase block }

/-- A buffer around a block of other code, which hands it over. -/
def adopt (name block capacity : Nat) : BufferCall Unit := do
  modify fun state => { state with elsewhere := state.elsewhere.erase block }
  wrap name (some ⟨block, 0⟩) capacity true

/-! ### What happens to the buffers -/

inductive Action where
  | wrap (name : Nat) (buffer : Option Pointer) (capacity : Nat)
  | adopt (name block capacity : Nat)
  | allocate (name size : Nat)
  | moveConstruct (target source : Nat)
  | moveAssign (target source : Nat)
  | destroy (name : Nat)
  | trimPrefix (target source n : Nat)
  | trimSuffix (target source n : Nat)
  | view (target source : Nat)
  | newElsewhere (size : Nat)
  | deleteElsewhere (block : Nat)

def Action.call : Action → BufferCall Unit
  | .wrap name buffer capacity => Objects.wrap name buffer capacity false
  | .adopt name block capacity => Objects.adopt name block capacity
  | .allocate name size => Objects.allocate name size
  | .moveConstruct target source => Objects.moveConstruct target source
  | .moveAssign target source => Objects.moveAssign target source
  | .destroy name => Objects.destroy name
  | .trimPrefix target source n => Objects.trimPrefix target source n
  | .trimSuffix target source n => Objects.trimSuffix target source n
  | .view target source => Objects.view target source
  | .newElsewhere size => Objects.newElsewhere size
  | .deleteElsewhere block => Objects.deleteElsewhere block

/-- The bytes are those of one block. -/
def Covers (state : Objects) (data : Option Pointer) (capacity : Nat) : Prop :=
  match data with
  | none => capacity = 0
  | some pointer => ∃ size, state.sizes[pointer.block]? = some size ∧
      pointer.offset + capacity ≤ size

/-- A new buffer comes into a place that has none. Other code deletes and hands over what it has,
and wraps what is in a block. -/
def Allowed (state : Objects) : Action → Prop
  | .wrap name buffer capacity => state.buffer name = {} ∧ state.Covers buffer capacity
  | .adopt name block capacity =>
      state.buffer name = {} ∧ block ∈ state.elsewhere ∧ state.Covers (some ⟨block, 0⟩) capacity
  | .allocate name _ | .moveConstruct name _ | .trimPrefix name _ _ | .trimSuffix name _ _
  | .view name _ => state.buffer name = {}
  | .deleteElsewhere block => block ∈ state.elsewhere
  | .moveAssign _ _ | .destroy _ | .newElsewhere _ => True

/-- The state that the call leaves, whether it returns or throws. -/
def after (state : Objects) (call : BufferCall Unit) : Objects := (call.exec state).2

inductive Step : Objects → Action → Objects → Prop where
  | call {state : Objects} {action : Action} (hallowed : state.Allowed action) :
      Step state action (state.after action.call)

def start : Objects := ⟨fun _ => {}, [], ∅, ∅⟩

/-! ### Who owns what -/

inductive Owner where
  | buffer (name : Nat)
  | elsewhere (block : Nat)
deriving DecidableEq, Repr

def holdings (state : Objects) : Holdings Owner Nat where
  holds
    | .buffer name => (state.buffer name).owned.map Pointer.block
    | .elsewhere block => if block ∈ state.elsewhere then some block else none
  live := ↑state.live

/-- What is there is deleted by this. -/
def Frees (state : Objects) (block : Nat) : Action → Prop
  | .destroy name | .moveAssign name _ => (state.buffer name).owned.map Pointer.block = some block
  | .deleteElsewhere other => other = block
  | _ => False

end Objects

end Liblw.Memory
