import Mathlib.Tactic

/-!
# Types of tuples

Metafunctions compute with types. A plain type is a name; a tuple holds the types of its members,
and every type can be qualified. A tuple without qualifiers is written as its list of members.
-/

namespace Liblw

inductive Reference
  | none
  | lvalue
  | rvalue
deriving DecidableEq, Repr

structure Qualifiers where
  isConst : Bool
  isVolatile : Bool
  reference : Reference
deriving DecidableEq, Repr

/-- No qualifiers. -/
def Qualifiers.bare : Qualifiers := ⟨false, false, .none⟩

inductive CppType (α : Type)
  | plain (qualifiers : Qualifiers) (name : α)
  | tuple (qualifiers : Qualifiers) (members : List (CppType α))

namespace CppType

variable {α : Type}

section DecidableEq

variable [DecidableEq α]

mutual

def decEq : (first second : CppType α) → Decidable (first = second)
  | .plain q name, .plain q' name' =>
      decidable_of_iff (q = q' ∧ name = name') (by rw [plain.injEq])
  | .tuple q members, .tuple q' members' =>
      have := decEqMembers members members'
      decidable_of_iff (q = q' ∧ members = members') (by rw [tuple.injEq])
  | .plain _ _, .tuple _ _ => isFalse nofun
  | .tuple _ _, .plain _ _ => isFalse nofun

def decEqMembers : (first second : List (CppType α)) → Decidable (first = second)
  | [], [] => isTrue rfl
  | T :: first, U :: second =>
      have := decEq T U
      have := decEqMembers first second
      decidable_of_iff (T = U ∧ first = second) (by rw [List.cons.injEq])
  | [], _ :: _ => isFalse nofun
  | _ :: _, [] => isFalse nofun

end

instance : DecidableEq (CppType α) := decEq

end DecidableEq

def qualifiers : CppType α → Qualifiers
  | .plain qualifiers _ => qualifiers
  | .tuple qualifiers _ => qualifiers

def IsTuple : CppType α → Prop
  | .plain _ _ => False
  | .tuple _ _ => True

/-- `std::remove_cvref`. -/
def removeCvref : CppType α → CppType α
  | .plain _ name => .plain .bare name
  | .tuple _ members => .tuple .bare members

end CppType

section Metafunctions

variable {α : Type}

mutual

/-- `TupleFlatten` on one type: the specialisations for tuples take a tuple without qualifiers. -/
def tupleFlatten : CppType α → List (CppType α) → List (CppType α)
  | .tuple qualifiers members, results =>
      if qualifiers = .bare then tupleFlattenMembers members results
      else results ++ [.tuple qualifiers members]
  | .plain qualifiers name, results => results ++ [.plain qualifiers name]

/-- `TupleFlatten` on the members of a tuple. -/
def tupleFlattenMembers : List (CppType α) → List (CppType α) → List (CppType α)
  | [], results => results
  | T :: rest, results => tupleFlattenMembers rest (tupleFlatten T results)

end

def flatTuple (types : List (CppType α)) : List (CppType α) := tupleFlattenMembers types []

def applyTypeModification (typeMod : CppType α → CppType α) (types : List (CppType α)) :
    List (CppType α) :=
  types.map typeMod

variable [DecidableEq α]

def tupleMemberIndex (index : Int) (T : CppType α) : List (CppType α) → Int
  | [] => -1
  | member :: rest => if T = member then index else tupleMemberIndex (index + 1) T rest

def dedupTuple : List (CppType α) → List (CppType α) → List (CppType α)
  | [], results => results
  | T :: rest, results =>
      if tupleMemberIndex 0 T results = -1 then dedupTuple rest (results ++ [T])
      else dedupTuple rest results

def deduplicateTuple (types : List (CppType α)) : List (CppType α) := dedupTuple types []

def sanitizeTuple (types : List (CppType α)) : List (CppType α) :=
  deduplicateTuple (applyTypeModification .removeCvref (flatTuple types))

end Metafunctions

section Purpose

variable {α : Type}

mutual

/-- The plain types in a type, from left to right and without their qualifiers. -/
def leaves : CppType α → List α
  | .plain _ name => [name]
  | .tuple _ members => leavesOfMembers members

def leavesOfMembers : List (CppType α) → List α
  | [] => []
  | T :: rest => leaves T ++ leavesOfMembers rest

end

/-- A tuple with qualifiers stands in the type, at any depth. -/
inductive HoldsQualifiedTuple : CppType α → Prop
  | here {qualifiers : Qualifiers} (members : List (CppType α)) (hqualified : qualifiers ≠ .bare) :
      HoldsQualifiedTuple (.tuple qualifiers members)
  | inside (qualifiers : Qualifiers) {T : CppType α} {members : List (CppType α)}
      (hmem : T ∈ members) (hholds : HoldsQualifiedTuple T) :
      HoldsQualifiedTuple (.tuple qualifiers members)

/-- What sanitizing a tuple is for. -/
structure Sanitizes [DecidableEq α] (types : List (CppType α)) : Prop where
  flat : ∀ T ∈ sanitizeTuple types, ¬ T.IsTuple
  unqualified : ∀ T ∈ sanitizeTuple types, T.qualifiers = .bare
  nodup : (sanitizeTuple types).Nodup
  eq_leaves : sanitizeTuple types = (leavesOfMembers types).eraseDups.map (.plain .bare)
  idempotent : sanitizeTuple (sanitizeTuple types) = sanitizeTuple types

end Purpose

end Liblw
