import Liblw.Http.NameFunctors
import Liblw.Proof.HeaderMaps

/-!
# The laws of the name functors

All four functors look at the upper-case codes of a name alone. On short names the order is the
lexicographic one of these codes, so that names which neither precede each other are those that have
the same codes.
-/

namespace Liblw.Http

/-! ### Equality and the hash -/

theorem equalFrom_iff {lhs rhs : Text} (hlength : lhs.length = rhs.length) :
    equalFrom lhs rhs = true ↔ upperCodes lhs = upperCodes rhs := by
  induction lhs generalizing rhs with
  | nil =>
      rw [List.length_eq_zero_iff.mp hlength.symm]
      exact iff_of_true rfl rfl
  | cons l lhs ih =>
      cases rhs with
      | nil => cases hlength
      | cons r rhs =>
          have hrest : lhs.length = rhs.length := Nat.succ.inj hlength
          have hcodes : upperCodes (l :: lhs) = upperCodes (r :: rhs) ↔
              upperCode l = upperCode r ∧ upperCodes lhs = upperCodes rhs := List.cons_eq_cons
          rw [equalFrom, hcodes, ← ih hrest]
          split_ifs with hne
          · exact iff_of_false id fun hboth => hne hboth.1
          · exact ⟨fun hequal => ⟨not_not.mp hne, hequal⟩, fun hboth => hboth.2⟩

theorem caseInsensitiveEqual_iff (lhs rhs : Text) :
    caseInsensitiveEqual lhs rhs = true ↔ upperCodes lhs = upperCodes rhs := by
  rw [caseInsensitiveEqual]
  split_ifs with hlength
  · apply iff_of_false id
    intro hcodes
    have hlengths := congrArg List.length hcodes
    rw [upperCodes, upperCodes, List.length_map, List.length_map] at hlengths
    exact hlength hlengths
  · exact equalFrom_iff (not_not.mp hlength)

theorem hashFrom_congr {first second : Text} (hcodes : upperCodes first = upperCodes second)
    (multiplier hash : Nat) : hashFrom multiplier hash first = hashFrom multiplier hash second := by
  induction first generalizing second multiplier hash with
  | nil => rw [List.map_eq_nil_iff.mp hcodes.symm]
  | cons c first ih =>
      obtain ⟨d, rest, rfl, hcode, hrest⟩ := List.map_eq_cons_iff.mp hcodes.symm
      rw [hashFrom, hashFrom, hcode]
      exact ih hrest.symm _ _

/-! ### The comparison -/

/-- Turned round, the comparison gives the opposite number. -/
theorem compareFrom_neg (sizes : Int) (lhs rhs : Text) :
    compareFrom (-sizes) rhs lhs = -compareFrom sizes lhs rhs := by
  induction lhs generalizing rhs with
  | nil => cases rhs <;> rfl
  | cons l lhs ih =>
      cases rhs with
      | nil => rfl
      | cons r rhs =>
          rw [compareFrom, compareFrom, ih]
          split_ifs with hright hleft
          · exact (Int.neg_sub _ _).symm
          · exact absurd hright.symm hleft
          · rename_i hleft
            exact absurd hleft.symm hright
          · rfl

theorem caseInsensitiveCompare_neg {lhs rhs : Text} (hleft : lhs.length < 2 ^ 31)
    (hright : rhs.length < 2 ^ 31) :
    caseInsensitiveCompare rhs lhs = -caseInsensitiveCompare lhs rhs := by
  have hsizes : Int.bmod ((rhs.length : Int) - lhs.length) (2 ^ 32) =
      -Int.bmod ((lhs.length : Int) - rhs.length) (2 ^ 32) := by
    have hforth := @Int.bmod_eq_of_le ((rhs.length : Int) - lhs.length) (2 ^ 32)
      (by omega) (by omega)
    have hback := @Int.bmod_eq_of_le ((lhs.length : Int) - rhs.length) (2 ^ 32)
      (by omega) (by omega)
    rw [hforth, hback]
    omega
  rw [caseInsensitiveCompare, caseInsensitiveCompare, hsizes, compareFrom_neg]
  split_ifs with hnil hnil' hnil'
  · rfl
  · exact absurd hnil.symm hnil'
  · exact absurd hnil'.symm hnil
  · rfl

namespace ShortName

variable (first second : ShortName)

theorem less_iff : first.Less second ↔ upperCodes first.1 < upperCodes second.1 :=
  caseInsensitiveLess_iff_of_lt first.2 second.2

theorem less_iff_compare : first.Less second ↔ first.compare second < 0 := decide_eq_true_iff

theorem compare_neg : second.compare first = -first.compare second :=
  caseInsensitiveCompare_neg first.2 second.2

theorem incomparable_iff :
    ¬ first.Less second ∧ ¬ second.Less first ↔ first.compare second = 0 := by
  rw [less_iff_compare, less_iff_compare, compare_neg first second]
  omega

theorem compare_eq_zero_iff :
    first.compare second = 0 ↔ caseInsensitiveEqual first.1 second.1 = true := by
  rw [← incomparable_iff, less_iff, less_iff, caseInsensitiveEqual_iff, not_lt, not_lt]
  exact ⟨fun hboth => le_antisymm hboth.2 hboth.1, fun hsame => ⟨hsame.ge, hsame.le⟩⟩

/-- The order is that of the codes. -/
theorem isStrictWeakOrder_less : IsStrictWeakOrder ShortName Less := by
  have horder : Less = Order.Preimage (fun name : ShortName => upperCodes name.1) (· < ·) := by
    ext first second
    exact less_iff first second
  have hcodes : IsStrictWeakOrder (List Int) (· < ·) := isStrictWeakOrder_of_isOrderConnected
  rw [horder]
  infer_instance

end ShortName

/-- **The name functors.** On names shorter than `2 ^ 31` the order is a strict weak one, names
that neither precede each other are those that compare as zero, and these are the equal ones; the
comparison changes its sign with the sides, and equal names have the same hash. -/
theorem name_functors :
    IsStrictWeakOrder ShortName ShortName.Less ∧
      ∀ first second : ShortName,
        (¬ first.Less second ∧ ¬ second.Less first ↔ first.compare second = 0) ∧
          (first.compare second = 0 ↔ caseInsensitiveEqual first.1 second.1 = true) ∧
          (first.compare second).sign = -(second.compare first).sign ∧
          (caseInsensitiveEqual first.1 second.1 = true →
            caseInsensitiveHash first.1 = caseInsensitiveHash second.1) := by
  refine ⟨ShortName.isStrictWeakOrder_less, fun first second => ⟨?_, ?_, ?_, ?_⟩⟩
  · exact first.incomparable_iff second
  · exact first.compare_eq_zero_iff second
  · rw [first.compare_neg second, Int.sign_neg, Int.neg_neg]
  · intro hequal
    rw [caseInsensitiveEqual_iff] at hequal
    exact hashFrom_congr hequal 1 0

end Liblw.Http
