import Mathlib.Tactic.Common

/-!
# Strings with a capacity

A `std::string` of bytes owns an array for as many characters as its capacity and one more, which is
the terminator of a full one. How much an implementation makes room for is up to it, as long as it
is enough.
-/

namespace Liblw.Lib

/-- The capacity that a string gets where some is asked for. -/
structure Allocation where
  capacity : Nat → Nat
  le_capacity : ∀ requested, requested ≤ capacity requested

/-- Exactly what is asked for. -/
def Allocation.tight : Allocation := ⟨id, Nat.le_refl⟩

/-- What is behind the characters is a terminator, and then anything. -/
structure StdString where
  chars : List UInt8
  size : Nat
  size_lt : size < chars.length
deriving DecidableEq, Repr

namespace StdString

def bytes (string : StdString) : List UInt8 := string.chars.take string.size

theorem length_bytes (string : StdString) : string.bytes.length = string.size := by
  rw [bytes, List.length_take]
  exact Nat.min_eq_left (Nat.le_of_lt string.size_lt)

def capacity (string : StdString) : Nat := string.chars.length - 1

def ofBytes (allocation : Allocation) (text : List UInt8) : StdString where
  chars := text ++ List.replicate (allocation.capacity text.length + 1 - text.length) 0
  size := text.length
  size_lt := by
    have hle := allocation.le_capacity text.length
    rw [List.length_append, List.length_replicate]
    omega

/-- The characters move to a larger array where the capacity is smaller than what is asked for. -/
def reserve (allocation : Allocation) (requested : Nat) (string : StdString) : StdString :=
  if hmore : string.capacity < requested then
    { chars := string.bytes ++
        List.replicate (allocation.capacity requested + 1 - string.size) 0
      size := string.size
      size_lt := by
        have hle := allocation.le_capacity requested
        have hsize := string.length_bytes
        have hlt := string.size_lt
        unfold capacity at hmore
        rw [List.length_append, List.length_replicate]
        omega }
  else string

def append (allocation : Allocation) (text : List UInt8) (string : StdString) : StdString :=
  if hfits : string.size + text.length < string.chars.length then
    { chars := string.bytes ++ text ++ 0 :: string.chars.drop (string.size + text.length + 1)
      size := string.size + text.length
      size_lt := by
        have hsize := string.length_bytes
        rw [List.length_append, List.length_append, List.length_cons, List.length_drop]
        omega }
  else ofBytes allocation (string.bytes ++ text)

/-- `string[i] = c`, of any place in the array. -/
def put (i : Nat) (c : UInt8) (string : StdString) : StdString where
  chars := string.chars.set i c
  size := string.size
  size_lt := by
    rw [List.length_set]
    exact string.size_lt

/-- `std::memcpy(string.data(), text, n)` for the `n` bytes of the text. -/
def overwrite (text : List UInt8) (string : StdString) : StdString where
  chars := text ++ string.chars.drop text.length
  size := string.size
  size_lt := by
    have hsize := string.size_lt
    rw [List.length_append, List.length_drop]
    omega

@[simp]
theorem bytes_ofBytes (allocation : Allocation) (text : List UInt8) :
    (ofBytes allocation text).bytes = text :=
  List.take_left

@[simp]
theorem size_reserve (allocation : Allocation) (requested : Nat) (string : StdString) :
    (string.reserve allocation requested).size = string.size := by
  unfold reserve
  split_ifs <;> rfl

@[simp]
theorem bytes_reserve (allocation : Allocation) (requested : Nat) (string : StdString) :
    (string.reserve allocation requested).bytes = string.bytes := by
  unfold reserve
  split_ifs
  · exact (congrArg (fun size => List.take size _) string.length_bytes.symm).trans List.take_left
  · rfl

@[simp]
theorem bytes_append (allocation : Allocation) (text : List UInt8) (string : StdString) :
    (string.append allocation text).bytes = string.bytes ++ text := by
  unfold append
  split_ifs
  · have hlength : (string.bytes ++ text).length = string.size + text.length := by
      rw [List.length_append, length_bytes]
    exact (congrArg (fun size => List.take size _) hlength.symm).trans List.take_left
  · exact bytes_ofBytes allocation _

theorem size_put (i : Nat) (c : UInt8) (string : StdString) :
    (string.put i c).size = string.size := rfl

theorem bytes_overwrite {text : List UInt8} {string : StdString}
    (hlength : text.length = string.size) : (string.overwrite text).bytes = text := by
  change (text ++ _).take string.size = text
  rw [← hlength, List.take_left]

end StdString

end Liblw.Lib
