import Mathlib.Tactic

/-!
# A search that does not look back

The search for a pattern in a text that keeps one position in the pattern. Where a character does
not fit, it begins anew behind that character and gives up what it has matched before. So it comes
only upon the occurrences that begin where one of its attempts begins.
-/

namespace Liblw.Lib.Search

variable {α : Type} [DecidableEq α] {pattern text : List α} {stop : Nat}

/-- The pattern ends after the first `stop` characters of the text. -/
def EndsAt (pattern text : List α) (stop : Nat) : Prop :=
  stop ≤ text.length ∧ pattern <:+ text.take stop

instance : Decidable (EndsAt pattern text stop) :=
  inferInstanceAs (Decidable (_ ∧ _))

/-- It ends there for the first time. -/
structure EndsFirstAt (pattern text : List α) (stop : Nat) : Prop where
  ends : EndsAt pattern text stop
  first : ∀ earlier < stop, ¬ EndsAt pattern text earlier

/-- How many characters the pattern and the text have in common before they differ. -/
def sharedLength : (pattern text : List α) → Nat
  | p :: pattern, c :: text => if c = p then sharedLength pattern text + 1 else 0
  | _, _ => 0

/-- Where the attempts begin: at the front, and behind the character at which one has failed. -/
inductive Attempt (pattern text : List α) : Nat → Prop
  | front : Attempt pattern text 0
  | anew {start : Nat} : Attempt pattern text start →
      sharedLength pattern (text.drop start) < pattern.length →
      Attempt pattern text (start + sharedLength pattern (text.drop start) + 1)

/-- The search from character `i` on, of which the first argument is the rest. `pos` characters of
the pattern have been matched. -/
def scan (pattern : List α) : List α → (pos i : Nat) → Option Nat
  | [], _, _ => none
  | c :: rest, pos, i =>
      match pattern[pos]? with
      | none => none
      | some p =>
          if c = p then
            if pos + 1 = pattern.length then some (i + 1) else scan pattern rest (pos + 1) (i + 1)
          else scan pattern rest 0 (i + 1)

/-! ### Occurrences -/

omit [DecidableEq α] in
theorem endsAt_iff :
    EndsAt pattern text stop ↔
      pattern.length ≤ stop ∧ stop ≤ text.length ∧
        pattern <+: text.drop (stop - pattern.length) := by
  constructor
  · rintro ⟨hstop, before, hbefore⟩
    have hlength := congrArg List.length hbefore
    rw [List.length_append, List.length_take, Nat.min_eq_left hstop] at hlength
    refine ⟨by omega, hstop, text.drop stop, ?_⟩
    have htext : before ++ (pattern ++ text.drop stop) = text := by
      rw [← List.append_assoc, hbefore, List.take_append_drop]
    have hskip : stop - pattern.length = before.length := by omega
    rw [hskip]
    conv_rhs => rw [← htext, List.drop_left]
  · rintro ⟨hpattern, hstop, rest, hrest⟩
    refine ⟨hstop, text.take (stop - pattern.length), ?_⟩
    have htext : text.take (stop - pattern.length) ++ pattern ++ rest = text := by
      rw [List.append_assoc, hrest, List.take_append_drop]
    have hlength : (text.take (stop - pattern.length) ++ pattern).length = stop := by
      rw [List.length_append, List.length_take]
      omega
    conv_rhs => rw [← htext, List.take_left' hlength]

omit [DecidableEq α] in
theorem endsAt_of_begins {start : Nat} (hbegins : pattern <+: text.drop start)
    (hstart : start ≤ text.length) : EndsAt pattern text (start + pattern.length) := by
  have hlength := hbegins.length_le
  rw [List.length_drop] at hlength
  rw [endsAt_iff, Nat.add_sub_cancel]
  exact ⟨by omega, by omega, hbegins⟩

/-! ### What a text shares with the pattern -/

theorem sharedLength_le (pattern text : List α) : sharedLength pattern text ≤ pattern.length := by
  induction pattern, text using sharedLength.induct with
  | case1 pattern c text ih =>
    rw [sharedLength, if_pos rfl]
    exact Nat.succ_le_succ ih
  | case2 p pattern c text hdiffer => simp [sharedLength, hdiffer]
  | case3 => simp [sharedLength]

theorem sharedLength_eq_iff : sharedLength pattern text = pattern.length ↔ pattern <+: text := by
  induction pattern, text using sharedLength.induct with
  | case1 pattern c text ih =>
    rw [sharedLength, if_pos rfl, List.length_cons, Nat.add_right_cancel_iff, ih,
      List.cons_prefix_cons, and_iff_right rfl]
  | case2 p pattern c text hdiffer =>
    rw [sharedLength, if_neg hdiffer, List.length_cons, List.cons_prefix_cons]
    refine iff_of_false (Nat.succ_ne_zero _).symm ?_
    rintro ⟨rfl, -⟩
    exact hdiffer rfl
  | case3 pattern text hcases =>
    cases pattern with
    | nil => simp [sharedLength]
    | cons p pattern =>
      cases text with
      | nil => simp [sharedLength]
      | cons c text => exact absurd rfl (hcases p pattern c text rfl)

/-! ### What the search comes upon -/

/-- One attempt: the rest of the pattern is there, or the search begins anew. -/
theorem scan_eq {rest : List α} {pos i : Nat} (hpos : pos < pattern.length) :
    let shared := sharedLength (pattern.drop pos) rest
    scan pattern rest pos i =
      if shared = (pattern.drop pos).length then some (i + shared)
      else scan pattern (rest.drop (shared + 1)) 0 (i + shared + 1) := by
  induction rest generalizing pos i with
  | nil =>
    have hmore : (pattern.drop pos).length ≠ 0 := by
      rw [List.length_drop]
      omega
    have hshared : sharedLength (pattern.drop pos) ([] : List α) = 0 := by
      cases pattern.drop pos with
      | nil => rfl
      | cons p rest => rfl
    intro shared
    have hnone : shared = 0 := hshared
    rw [hnone, if_neg hmore.symm]
    rfl
  | cons c rest ih =>
    have hdrop : pattern.drop pos = pattern[pos] :: pattern.drop (pos + 1) :=
      List.drop_eq_getElem_cons hpos
    have hsome : pattern[pos]? = some pattern[pos] := List.getElem?_eq_getElem hpos
    rw [hdrop, scan, hsome]
    dsimp only
    by_cases hfits : c = pattern[pos]
    · rw [sharedLength, if_pos hfits, if_pos hfits, List.length_cons]
      by_cases hlast : pos + 1 = pattern.length
      · rw [if_pos hlast, List.drop_eq_nil_of_le hlast.ge]
        rfl
      · rw [if_neg hlast, ih (by omega)]
        simp only [Nat.add_right_cancel_iff, List.drop_succ_cons]
        congr 1
        · congr 1
          omega
        · congr 1
          omega
    · rw [sharedLength, if_neg hfits, if_neg hfits, List.length_cons,
        if_neg (Nat.succ_ne_zero _).symm]
      rfl

/-- At the beginning of an attempt. -/
theorem scan_of_begins {start : Nat} (hpattern : pattern ≠ [])
    (hbegins : pattern <+: text.drop start) :
    scan pattern (text.drop start) 0 start = some (start + pattern.length) := by
  have hshared := sharedLength_eq_iff.2 hbegins
  rw [scan_eq (List.length_pos_iff.2 hpattern), List.drop_zero, if_pos hshared, hshared]

theorem scan_of_shared {start : Nat}
    (hshared : sharedLength pattern (text.drop start) < pattern.length) :
    let next := start + sharedLength pattern (text.drop start) + 1
    scan pattern (text.drop start) 0 start = scan pattern (text.drop next) 0 next := by
  rw [scan_eq (by omega), List.drop_zero, if_neg (by omega), List.drop_drop]
  rfl

theorem scan_of_attempt {start : Nat} (hattempt : Attempt pattern text start) :
    scan pattern text 0 0 = scan pattern (text.drop start) 0 start := by
  induction hattempt with
  | front => rfl
  | anew hattempt hshared ih => rw [ih, scan_of_shared hshared]

/-- By induction on the text that is left. -/
theorem exists_attempt_of_scan (hpattern : pattern ≠ []) {start : Nat}
    (hattempt : Attempt pattern text start)
    (hscan : scan pattern (text.drop start) 0 start = some stop) :
    ∃ start, Attempt pattern text start ∧ pattern <+: text.drop start ∧
      start + pattern.length = stop := by
  induction hleft : text.length - start using Nat.strong_induction_on generalizing start with
  | _ left ih =>
    by_cases hbegins : pattern <+: text.drop start
    · rw [scan_of_begins hpattern hbegins] at hscan
      exact ⟨start, hattempt, hbegins, Option.some.inj hscan⟩
    · have hshared : sharedLength pattern (text.drop start) < pattern.length := by
        apply lt_of_le_of_ne (sharedLength_le pattern _)
        rwa [Ne, sharedLength_eq_iff]
      have hmore : start < text.length := by
        by_contra hend
        rw [List.drop_eq_nil_of_le (by omega)] at hscan
        cases hscan
      rw [scan_of_shared hshared] at hscan
      exact ih _ (by omega) (hattempt.anew hshared) hscan rfl

/-- **What the search comes upon.** It finds the pattern where an attempt begins at which the
pattern is there, and nowhere else. -/
theorem scan_eq_some_iff (hpattern : pattern ≠ []) :
    scan pattern text 0 0 = some stop ↔
      ∃ start, Attempt pattern text start ∧ pattern <+: text.drop start ∧
        start + pattern.length = stop := by
  constructor
  · intro hscan
    exact exists_attempt_of_scan hpattern Attempt.front hscan
  · rintro ⟨start, hattempt, hbegins, rfl⟩
    rw [scan_of_attempt hattempt, scan_of_begins hpattern hbegins]

theorem endsAt_of_scan (hpattern : pattern ≠ []) (hscan : scan pattern text 0 0 = some stop) :
    EndsAt pattern text stop := by
  obtain ⟨start, -, hbegins, rfl⟩ := (scan_eq_some_iff hpattern).1 hscan
  apply endsAt_of_begins hbegins
  by_contra hend
  rw [List.drop_eq_nil_of_le (by omega)] at hbegins
  exact hpattern (List.prefix_nil.1 hbegins)

/-- Of the first occurrence it is enough to know that an attempt begins with it. -/
theorem scan_eq_some_iff_of_first (hpattern : pattern ≠ [])
    (hfirst : EndsFirstAt pattern text stop) :
    scan pattern text 0 0 = some stop ↔ Attempt pattern text (stop - pattern.length) := by
  obtain ⟨hlength, hstop, hbegins⟩ := endsAt_iff.1 hfirst.ends
  rw [scan_eq_some_iff hpattern]
  constructor
  · rintro ⟨start, hattempt, -, rfl⟩
    rwa [Nat.add_sub_cancel]
  · intro hattempt
    exact ⟨_, hattempt, hbegins, Nat.sub_add_cancel hlength⟩

/-- The search has looked at the text up to where it finds the pattern. -/
theorem lt_of_scan {rest : List α} {pos i : Nat} (hscan : scan pattern rest pos i = some stop) :
    i < stop ∧ stop ≤ i + rest.length := by
  induction rest generalizing pos i with
  | nil => cases hscan
  | cons c rest ih =>
    rw [scan] at hscan
    rw [List.length_cons]
    split at hscan
    · cases hscan
    · split_ifs at hscan with hfits hlast
      · obtain rfl := Option.some.inj hscan
        omega
      · have := ih hscan
        omega
      · have := ih hscan
        omega

end Liblw.Lib.Search
