import Liblw.Http.NameOrder
import Liblw.Proof.RouteCaptures

/-!
# Maps of short names

Between names shorter than 2^31 the comparison is the order of their upper-case codes. So a map of
such names does what the list of its entries does.
-/

namespace Liblw.Http

open Liblw.Lib

/-! ### The comparison -/

theorem upperCode_eq_iff (first second : Char) :
    upperCode first = upperCode second ↔ first.toUpper = second.toUpper := by
  constructor
  · intro hcode
    apply Char.ext
    apply UInt32.toNat_inj.mp
    unfold upperCode at hcode
    change first.toUpper.toNat = second.toUpper.toNat
    split_ifs at hcode <;> omega
  · intro hupper
    rw [upperCode, upperCode, hupper]

theorem sameName_iff (first second : Text) :
    sameName first second = true ↔ upperCodes first = upperCodes second := by
  unfold sameName upperCodes
  rw [beq_iff_eq]
  induction first generalizing second with
  | nil => cases second <;> simp
  | cons c first ih =>
      cases second with
      | nil => simp
      | cons d second => simp [upperCode_eq_iff, ih]

/-- Either two names differ at a character, or the one goes on where the other one ends. -/
theorem compareFrom_lt_iff {lhs rhs : Text} {sizes : Int}
    (hsizes : sizes < 0 ↔ lhs.length < rhs.length) :
    compareFrom sizes lhs rhs < 0 ↔ upperCodes lhs < upperCodes rhs := by
  induction lhs generalizing rhs with
  | nil =>
      cases rhs with
      | nil => simpa [compareFrom, upperCodes] using hsizes
      | cons r rhs => simpa [compareFrom, upperCodes] using hsizes
  | cons l lhs ih =>
      cases rhs with
      | nil => simpa [compareFrom, upperCodes] using hsizes
      | cons r rhs =>
          have hrest : sizes < 0 ↔ lhs.length < rhs.length := by
            rw [hsizes, List.length_cons, List.length_cons, Nat.add_lt_add_iff_right]
          have hcodes : upperCodes (l :: lhs) < upperCodes (r :: rhs) ↔
              upperCode l < upperCode r ∨ upperCode l = upperCode r ∧
                upperCodes lhs < upperCodes rhs := List.cons_lt_cons_iff
          rw [compareFrom, hcodes, ← ih hrest]
          split_ifs with hne
          · omega
          · omega

theorem caseInsensitiveLess_iff_of_lt {lhs rhs : Text}
    (hleft : lhs.length < 2 ^ 31) (hright : rhs.length < 2 ^ 31) :
    caseInsensitiveLess lhs rhs = true ↔ upperCodes lhs < upperCodes rhs := by
  have hbmod : Int.bmod ((lhs.length : Int) - rhs.length) (2 ^ 32) = lhs.length - rhs.length := by
    apply Int.bmod_eq_of_le <;> omega
  unfold caseInsensitiveLess caseInsensitiveCompare
  rw [decide_eq_true_iff, hbmod]
  split_ifs with hnil
  · rw [hnil.1, hnil.2]
    simp
  · apply compareFrom_lt_iff
    omega

/-! ### The maps -/

/-- The names of the entries are shorter than 2^31. -/
def Short (headers : HeadersView) : Prop := ∀ entry ∈ headers, entry.1.length < 2 ^ 31

variable {map : HeaderMap} {headers : HeadersView} {name : Text}

theorem compares_of_short (hshort : Short headers) (hname : name.length < 2 ^ 31) :
    SearchTree.Compares upperCodes caseInsensitiveLess headers name := by
  intro entry hmem
  exact ⟨caseInsensitiveLess_iff_of_lt (hshort entry hmem) hname,
    caseInsensitiveLess_iff_of_lt hname (hshort entry hmem)⟩

namespace HeaderMap

theorem Stores.find (hstores : map.Stores headers) (hshort : Short headers)
    (hname : name.length < 2 ^ 31) :
    map.find caseInsensitiveLess name = headers.find? fun entry => sameName entry.1 name := by
  exact SearchTree.Holds.find hstores (compares_of_short hshort hname)
    fun own => sameName_iff own name

/-- Looking up a short name. -/
theorem Stores.valueOf (hstores : map.Stores headers) (hshort : Short headers)
    (hname : name.length < 2 ^ 31) : map.valueOf name = headers.find name := by
  rw [HeaderMap.valueOf, hstores.find hshort hname]
  rfl

theorem Stores.insert (hstores : map.Stores headers) (hshort : Short headers)
    (hname : name.length < 2 ^ 31) (value : Text) :
    HeaderMap.Stores (map.insert caseInsensitiveLess name value) (headers.insert name value) := by
  have hinsert := SearchTree.Holds.insert value hstores (compares_of_short hshort hname)
    fun own => sameName_iff own name
  rw [← List.isSome_find?] at hinsert
  unfold HeadersView.insert HeadersView.contains HeadersView.find
  rw [Option.isSome_map]
  exact hinsert

theorem Stores.assign (hstores : map.Stores headers) (hshort : Short headers)
    (hname : name.length < 2 ^ 31) (value : Text) :
    HeaderMap.Stores (map.assign caseInsensitiveLess name value)
      (headers.map fun entry => if sameName entry.1 name then (entry.1, value) else entry) := by
  exact SearchTree.Holds.assign value hstores (compares_of_short hshort hname)
    fun own => sameName_iff own name

end HeaderMap

/-- Inserting entries in turn. -/
def insertAll (fields : List (Text × Text)) : HeadersView :=
  fields.foldl (fun headers field => headers.insert field.1 field.2) []

end Liblw.Http
