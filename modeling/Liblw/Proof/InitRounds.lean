import Liblw.Cli.Init

/-!
# The rounds of `init`

What `flags_cli_set` does with a flag that exists, and what one round of the loop does with an
argument.
-/

namespace Liblw.Cli

open Lib

variable {hash : Text → UInt64} {map final : FlagMap hash} {line : CommandLine hash}
  {flagName : Text} {value : Option Text}

theorem exec_returning {α : Type} (result : Result α) (line : CommandLine hash) :
    (returning result : InitCall hash α).exec line = (result, line) := by
  cases result <;> rfl

theorem returning_eq_ok {α : Type} {result : Result α} {first : α} {after : CommandLine hash}
    (hexec : (returning result : InitCall hash α).exec line = (.ok first, after)) :
    result = .ok first ∧ after = line := by
  rw [exec_returning, Prod.mk.injEq] at hexec
  exact ⟨hexec.1, hexec.2.symm⟩

/-- A flag that exists takes the value that came with it, or it is of type `bool` and does without
one, or it takes the next argument. -/
theorem flagsCliSet_cases {next : Option Text} {usedNext : Bool}
    (hexists : flagsExists map flagName)
    (hset : flagsCliSet map flagName value next = .ok (usedNext, final)) :
    ∃ flag text parsed, map.find flagName = some flag ∧ flag.parseValue text = .ok parsed ∧
      final = map.store parsed ∧
      (usedNext = false ∧ (value = some text ∨ value = none ∧ flag.typeName = booleanTypeName) ∨
        usedNext = true ∧ value = none ∧ flag.typeName ≠ booleanTypeName ∧ next = some text) := by
  obtain ⟨flag, hfind⟩ := Option.isSome_iff_exists.mp hexists
  unfold flagsCliSet at hset
  simp only [hfind, Option.isNone_some, Bool.false_and, Bool.false_eq_true, if_false] at hset
  cases value with
  | some text =>
      obtain ⟨parsed, hparse, heq⟩ := eq_ok_of_map hset
      cases heq
      exact ⟨flag, text, parsed, hfind, hparse, rfl, .inl ⟨rfl, .inl rfl⟩⟩
  | none =>
      by_cases htype : flag.typeName = booleanTypeName
      · rw [if_pos ⟨rfl, htype⟩] at hset
        obtain ⟨parsed, hparse, heq⟩ := eq_ok_of_map hset
        cases heq
        exact ⟨flag, _, parsed, hfind, hparse, rfl, .inl ⟨rfl, .inr ⟨rfl, htype⟩⟩⟩
      · rw [if_neg fun hboth => htype hboth.2] at hset
        cases hnext : next.filter fun next => !"--".toList.isPrefixOf next with
        | none =>
            rw [hnext] at hset
            cases hset
        | some text =>
            rw [hnext] at hset
            obtain ⟨parsed, hparse, heq⟩ := eq_ok_of_map hset
            cases heq
            have htext : next = some text := (Option.filter_eq_some_iff.mp hnext).1
            exact ⟨flag, text, parsed, hfind, hparse, rfl, .inr ⟨rfl, rfl, htype, htext⟩⟩

/-- A round that returns has set the flag that its argument names, or has moved the argument. -/
theorem initArgument_cases {remaining i backFill : Nat} {used : Bool × Nat}
    {after : CommandLine hash}
    (hexec : (initArgument remaining i backFill).exec line = (.ok used, after)) :
    ∃ flagName value, parseFlag (line.argument i) = .ok (flagName, value) ∧
      ((∃ name usedNext flags, flagName = some name ∧ flagsExists line.flags name ∧
        flagsCliSet line.flags name value
          (if 0 < remaining then some (line.argument (i + 1)) else none) = .ok (usedNext, flags) ∧
        used = (usedNext, backFill) ∧ after = line.setFlag usedNext flags) ∨
      flagName.filter (flagsExists line.flags) = none ∧ used = (false, backFill + 1) ∧
        after = line.moveForward i backFill) := by
  unfold initArgument at hexec
  rw [Call.exec_get_bind] at hexec
  obtain ⟨⟨flagName, value⟩, middle, hfirst, hexec⟩ := Call.exec_bind_eq_ok hexec
  obtain ⟨hparse, rfl⟩ := returning_eq_ok hfirst
  refine ⟨flagName, value, hparse, ?_⟩
  cases hname : flagName.filter (flagsExists middle.flags) with
  | none =>
      simp only [hname] at hexec
      cases hexec
      exact .inr ⟨rfl, rfl, rfl⟩
  | some name =>
      obtain ⟨rfl, hexists⟩ := Option.filter_eq_some_iff.mp hname
      simp only [hname] at hexec
      obtain ⟨⟨usedNext, flags⟩, last, hsecond, hexec⟩ := Call.exec_bind_eq_ok hexec
      obtain ⟨hset, rfl⟩ := returning_eq_ok hsecond
      cases hexec
      exact .inl ⟨name, usedNext, flags, rfl, hexists, hset, rfl, rfl⟩

end Liblw.Cli
