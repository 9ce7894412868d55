import Liblw.Http.NameOrder

/-!
# Comparing and hashing names

The functors that maps and hash tables of names are made with, beside the comparison. A size of the
hash is an `std::size_t`, to which an `int` below zero is converted.
-/

namespace Liblw.Http

/-- The loop of `CaseInsensitiveEqual`. -/
def equalFrom : Text → Text → Bool
  | l :: lhs, r :: rhs => if upperCode l ≠ upperCode r then false else equalFrom lhs rhs
  | _, _ => true

/-- `CaseInsensitiveEqual`. -/
def caseInsensitiveEqual (lhs rhs : Text) : Bool :=
  if lhs.length ≠ rhs.length then false else equalFrom lhs rhs

def hashPrime : Nat := 251

def hashModulus : Nat := 2 ^ 64 - 1

/-- The loop of `CaseInsensitiveHash`. -/
def hashFrom (multiplier hash : Nat) : Text → Nat
  | [] => hash
  | c :: str =>
      let upper := ((upperCode c + 1) % 2 ^ 64).toNat
      let hash := (hash + upper * multiplier % 2 ^ 64) % 2 ^ 64 % hashModulus
      let multiplier := multiplier * hashPrime % 2 ^ 64 % hashModulus
      hashFrom multiplier hash str

/-- `CaseInsensitiveHash`. -/
def caseInsensitiveHash (str : Text) : Nat := hashFrom 1 0 str

/-- A name whose size and the difference of sizes are in the range of an `int`. -/
abbrev ShortName := { name : Text // name.length < 2 ^ 31 }

namespace ShortName

/-- `CaseInsensitiveLess`. -/
def Less (lhs rhs : ShortName) : Prop := caseInsensitiveLess lhs.1 rhs.1 = true

/-- `CaseInsensitiveCompare`. -/
def compare (lhs rhs : ShortName) : Int := caseInsensitiveCompare lhs.1 rhs.1

end ShortName

end Liblw.Http
