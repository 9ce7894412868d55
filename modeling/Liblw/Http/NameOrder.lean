import Liblw.Http.Headers
import Liblw.Lib.SearchTree

/-!
# The order of names

`CaseInsensitiveCompare` and the maps that are ordered by it. The comparison returns the difference
of two sizes as an `int`, which tells their order only while the sizes are less than 2^31 apart.
-/

namespace Liblw.Http

open Liblw.Lib

/-- `std::toupper` of a `char`, which has a sign. -/
def upperCode (c : Char) : Int :=
  if 128 ≤ c.toUpper.toNat ∧ c.toUpper.toNat < 256 then c.toUpper.toNat - 256 else c.toUpper.toNat

def upperCodes (name : Text) : List Int := name.map upperCode

/-- The loop over the characters that both names have, and what is returned behind it. -/
def compareFrom (sizes : Int) : Text → Text → Int
  | l :: lhs, r :: rhs =>
      if upperCode l ≠ upperCode r then upperCode l - upperCode r else compareFrom sizes lhs rhs
  | _, _ => sizes

/-- `CaseInsensitiveCompare`. -/
def caseInsensitiveCompare (lhs rhs : Text) : Int :=
  if lhs = [] ∧ rhs = [] then 0
  else compareFrom (Int.bmod (lhs.length - rhs.length) (2 ^ 32)) lhs rhs

/-- `CaseInsensitiveLess`. -/
def caseInsensitiveLess (lhs rhs : Text) : Bool := caseInsensitiveCompare lhs rhs < 0

/-- `http::HeadersView` and `http::Headers` as the maps they are. -/
abbrev HeaderMap := SearchTree Text Text

namespace HeaderMap

/-- `at` and `find`, which give the value under a name. -/
def valueOf (map : HeaderMap) (name : Text) : Option Text :=
  (map.find caseInsensitiveLess name).map Prod.snd

/-- `contains`. -/
def contains (map : HeaderMap) (name : Text) : Bool :=
  (map.find caseInsensitiveLess name).isSome

/-- The map has the entries of the list. -/
def Stores (map : HeaderMap) (headers : HeadersView) : Prop :=
  SearchTree.Holds upperCodes map headers

end HeaderMap

/-- A stored name that the comparison takes for one that is longer by a multiple of 2^32. -/
def Wraps (stored name : Text) : Prop :=
  upperCodes stored <+: upperCodes name ∧ stored.length < name.length ∧
    2 ^ 32 ∣ name.length - stored.length

end Liblw.Http
