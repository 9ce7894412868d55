import Liblw.Cli.LeftOver
import Liblw.Proof.InitRounds

/-!
# The argument vector after `init`

A flag that is set stays registered with its type, so which arguments go is decided by the flags
there were at first. The loop fills the front of the vector, and its place to fill never comes past
the argument that it is at.
-/

namespace Liblw.Cli

open Lib

variable {hash : Text → UInt64}

/-! ### The registered flags -/

theorem find_store (map : FlagMap hash) (flag : FlagBase) (flagName : Text) :
    (map.store flag).find flagName = (map.find flagName).map fun other =>
      if hashFlagName hash other.name = hashFlagName hash flag.name then flag else other := by
  rw [FlagMap.find, FlagMap.store, List.find?_map, FlagMap.find]
  congr 2
  funext other
  rw [Function.comp_apply]
  split_ifs with hsame
  · rw [hsame]
  · rfl

/-- The types of the flags by their names. -/
def typeOf (flags : FlagMap hash) (flagName : Text) : Option String :=
  (flags.find flagName).map FlagBase.typeName

theorem typeOf_store {map : FlagMap hash} {flagName text : Text} {flag parsed : FlagBase}
    (hfind : map.find flagName = some flag) (hparse : flag.parseValue text = .ok parsed) :
    typeOf (map.store parsed) = typeOf map := by
  obtain ⟨hname, htypeName⟩ := FlagBase.kept_of_parseValue hparse
  funext other
  rw [typeOf, typeOf, find_store, Option.map_map]
  cases hother : map.find other with
  | none => rfl
  | some found =>
      rw [Option.map_some, Option.map_some, Function.comp_apply, hname]
      split_ifs with hsame
      · rw [htypeName, FlagMap.eq_of_hash (List.mem_of_find?_eq_some hother)
          (List.mem_of_find?_eq_some hfind) hsame]
      · rfl

section Types

variable {flags flags' : FlagMap hash} (htypes : typeOf flags' = typeOf flags)
include htypes

theorem flagsExists_congr : flagsExists flags' = flagsExists flags := by
  funext flagName
  have hsame := congrArg Option.isSome (congrFun htypes flagName)
  rwa [typeOf, typeOf, Option.isSome_map, Option.isSome_map] at hsame

theorem namesFlag_congr : namesFlag flags' = namesFlag flags := by
  funext argument
  rw [namesFlag, namesFlag, flagsExists_congr htypes]

theorem takesNext_congr : takesNext flags' = takesNext flags := by
  have hany (flags : FlagMap hash) (flagName : Text) :
      ((flags.find flagName).any fun flag => flag.typeName != booleanTypeName) =
        (typeOf flags flagName).any (· != booleanTypeName) := by
    rw [typeOf, Option.any_map]
  funext argument
  simp only [takesNext, hany, htypes]

theorem leftOver_congr : leftOver flags' = leftOver flags := by
  funext taken arguments
  induction arguments generalizing taken with
  | nil => cases taken <;> rfl
  | cons argument arguments ih =>
      cases taken with
      | true => exact ih false
      | false =>
          rw [leftOver, leftOver, namesFlag_congr htypes, takesNext_congr htypes, ih, ih]

end Types

/-! ### Rounds -/

section Rounds

variable {line after : CommandLine hash} {remaining i backFill : Nat} {used : Bool × Nat}

theorem namesFlag_of_parse {flags : FlagMap hash} {argument : Text} {flagName value : Option Text}
    (hparse : parseFlag (cString argument) = .ok (flagName, value)) :
    namesFlag flags argument = (flagName.filter (flagsExists flags)).isSome := by
  rw [namesFlag, hparse]
  cases flagName with
  | none => rfl
  | some name =>
      rw [Option.filter_some]
      split_ifs with hexists
      · exact hexists
      · exact Bool.eq_false_iff.mpr hexists

theorem takesNext_of_parse {flags : FlagMap hash} {argument name : Text} {value : Option Text}
    {flag : FlagBase} (hparse : parseFlag (cString argument) = .ok (some name, value))
    (hfind : flags.find name = some flag) :
    takesNext flags argument = (value.isNone && flag.typeName != booleanTypeName) := by
  rw [takesNext, hparse]
  cases value with
  | none =>
      change (flags.find name).any _ = _
      rw [hfind]
      rfl
  | some text => rfl

/-- An argument that names a flag is dropped, and the next one is with it if the flag needs it. -/
theorem initArgument_named (hnamed : namesFlag line.flags (line.argv.getD i []) = true)
    (hexec : (initArgument remaining i backFill).exec line = (.ok used, after)) :
    used = (takesNext line.flags (line.argv.getD i []), backFill) ∧
      (used.1 = true → 0 < remaining) ∧ after.argv = line.argv ∧
      after.argc = line.argc - (if used.1 then 2 else 1) ∧
      typeOf after.flags = typeOf line.flags := by
  obtain ⟨flagName, value, hparse, ⟨name, usedNext, flags, rfl, hexists, hset, rfl, rfl⟩ |
    ⟨hnone, _, _⟩⟩ := initArgument_cases hexec
  · obtain ⟨flag, text, parsed, hfind, hvalue, hflags, hcases⟩ := flagsCliSet_cases hexists hset
    have htypes : typeOf flags = typeOf line.flags := hflags ▸ typeOf_store hfind hvalue
    have htakes := takesNext_of_parse hparse hfind
    have hused : usedNext = takesNext line.flags (line.argv.getD i []) ∧
        (usedNext = true → 0 < remaining) := by
      rw [htakes]
      rcases hcases with ⟨rfl, rfl | ⟨rfl, htype⟩⟩ | ⟨rfl, rfl, htype, hnext⟩
      · exact ⟨rfl, nofun⟩
      · rw [htype]
        exact ⟨rfl, nofun⟩
      · refine ⟨(bne_iff_ne.mpr htype).symm, fun _ => ?_⟩
        by_contra hlast
        rw [if_neg hlast] at hnext
        cases hnext
    exact ⟨Prod.ext hused.1 rfl, hused.2, rfl, rfl, htypes⟩
  · rw [namesFlag_of_parse hparse, hnone] at hnamed
    cases hnamed

/-- Any other argument is moved. -/
theorem initArgument_unnamed (hnamed : namesFlag line.flags (line.argv.getD i []) = false)
    (hexec : (initArgument remaining i backFill).exec line = (.ok used, after)) :
    used = (false, backFill + 1) ∧ after = line.moveForward i backFill := by
  obtain ⟨flagName, value, hparse, ⟨name, usedNext, flags, rfl, hexists, _, _, _⟩ |
    ⟨_, hused, hafter⟩⟩ := initArgument_cases hexec
  · rw [namesFlag_of_parse hparse, Option.filter_some_pos hexists] at hnamed
    cases hnamed
  · exact ⟨hused, hafter⟩

end Rounds

/-! ### The loop -/

theorem take_drop_succ {α : Type} {cells : List α} {i : Nat} (hlt : i < cells.length) (default : α)
    (count : Nat) : (cells.drop i).take (count + 1) =
      cells.getD i default :: (cells.drop (i + 1)).take count := by
  rw [List.drop_eq_getElem_cons hlt, List.take_succ_cons, List.getD_eq_getElem?_getD,
    List.getElem?_eq_getElem hlt, Option.getD_some]

theorem take_set_succ {α : Type} {cells : List α} {i : Nat} (hlt : i < cells.length) (value : α) :
    (cells.set i value).take (i + 1) = cells.take i ++ [value] := by
  have hlength : i < (cells.set i value).length := by
    rw [List.length_set]
    exact hlt
  rw [List.take_succ_eq_append_getElem hlength, List.take_set_of_le le_rfl, List.getElem_set_self]

/-- What the loop does from an argument on: it puts what is left over behind what it has filled of
the vector, and takes the other arguments off the count. -/
structure Leaves (line after : CommandLine hash) (remaining backFill : Nat) (taken : Bool)
    (left : List Text) : Prop where
  front : after.argv.take (backFill + left.length) = line.argv.take backFill ++ left
  count : after.argc + remaining = line.argc + taken.toNat + left.length

section Leaves

variable {line middle after : CommandLine hash} {remaining i backFill : Nat} {taken : Bool}
  {left : List Text}

theorem leaves_nothing (line : CommandLine hash) (backFill : Nat) :
    Leaves line line 0 backFill false [] where
  front := (List.append_nil _).symm
  count := rfl

theorem Leaves.passed (hleaves : Leaves line after remaining backFill false left) :
    Leaves line after (remaining + 1) backFill true left where
  front := hleaves.front
  count := by
    have hcount := hleaves.count
    rw [Bool.toNat_false] at hcount
    rw [Bool.toNat_true]
    omega

theorem Leaves.named (hleaves : Leaves middle after remaining backFill taken left)
    (hargv : middle.argv = line.argv)
    (hargc : middle.argc + taken.toNat + 1 = line.argc) :
    Leaves line after (remaining + 1) backFill false left where
  front := hargv ▸ hleaves.front
  count := by
    have hcount := hleaves.count
    rw [Bool.toNat_false]
    omega

theorem Leaves.moved (hlt : backFill < line.argv.length)
    (hleaves : Leaves (line.moveForward i backFill) after remaining (backFill + 1) false left) :
    Leaves line after (remaining + 1) backFill false (line.argv.getD i [] :: left) where
  front := by
    have hfront := hleaves.front
    change _ = (line.argv.set backFill _).take (backFill + 1) ++ left at hfront
    rw [take_set_succ hlt, List.append_assoc] at hfront
    rw [List.length_cons, Nat.add_comm _ 1, ← Nat.add_assoc]
    exact hfront
  count := by
    have hcount := hleaves.count
    change after.argc + remaining = line.argc + _ + _ at hcount
    rw [List.length_cons]
    omega

/-- By induction on the arguments that remain. The place to fill stays at or in front of the
argument that the loop is at, so that what remains is as it was. -/
theorem initLoop_leaves (hexec : (initLoop remaining i backFill taken).exec line = (.ok (), after))
    (hleft : leftOver line.flags taken ((line.argv.drop i).take remaining) = left)
    (hback : backFill ≤ i) (hlength : i + remaining ≤ line.argv.length)
    (htaken : taken = true → 0 < remaining) (hargc : remaining ≤ line.argc + taken.toNat) :
    Leaves line after remaining backFill taken left := by
  induction remaining generalizing i backFill taken line left with
  | zero =>
      obtain rfl : taken = false := Bool.eq_false_iff.mpr fun htrue => by simpa using htaken htrue
      cases hexec
      rw [List.take_zero, leftOver] at hleft
      rw [← hleft]
      exact leaves_nothing after backFill
  | succ remaining ih =>
      rw [take_drop_succ (by omega) []] at hleft
      cases taken with
      | true =>
          rw [Bool.toNat_true] at hargc
          exact (ih hexec hleft (by omega) (by omega) nofun (by omega)).passed
      | false =>
          rw [Bool.toNat_false] at hargc
          obtain ⟨used, middle, hround, hrest⟩ := Call.exec_bind_eq_ok hexec
          rw [leftOver] at hleft
          cases hnamed : namesFlag line.flags (line.argv.getD i []) with
          | true =>
              obtain ⟨rfl, hnext, hargv, hcount, htypes⟩ := initArgument_named hnamed hround
              rw [if_pos hnamed, ← hargv, ← leftOver_congr htypes, hargv] at hleft
              generalize takesNext line.flags (line.argv.getD i []) = taken at *
              have hsum : middle.argc + taken.toNat + 1 = line.argc := by
                cases taken with
                | false =>
                    rw [if_neg Bool.false_ne_true] at hcount
                    rw [Bool.toNat_false]
                    omega
                | true =>
                    have hpos : 0 < remaining := hnext rfl
                    rw [if_pos rfl] at hcount
                    rw [Bool.toNat_true]
                    omega
              rw [← hargv] at hleft hlength
              exact (ih hrest hleft (by omega) (by omega) hnext (by omega)).named hargv hsum
          | false =>
              obtain ⟨rfl, rfl⟩ := initArgument_unnamed hnamed hround
              rw [if_neg (by rw [hnamed]; exact Bool.false_ne_true)] at hleft
              have hlater : (line.moveForward i backFill).argv.drop (i + 1) =
                  line.argv.drop (i + 1) := List.drop_set_of_lt (by omega)
              have hmoved : (line.moveForward i backFill).argv.length = line.argv.length :=
                List.length_set
              have hcount : (line.moveForward i backFill).argc = line.argc := rfl
              rw [← hlater] at hleft
              rw [← hleft]
              exact (ih hrest rfl (by omega) (by omega) nofun (by omega)).moved (by omega)

end Leaves

/-! ### What was read and overwritten -/

section Watched

variable {remaining i backFill : Nat} {taken : Bool} (line : CommandLine hash) (log : List Access)

theorem returning_watched {α : Type} (result : Result α) :
    (Watched.returning result : WatchedCall hash α).exec ⟨line, log⟩ = (result, ⟨line, log⟩) := by
  cases result <;> rfl

theorem argument_watched :
    (Watched.argument i).exec ⟨line, log⟩ = (.ok (line.argument i), ⟨line, log ++ [.read i]⟩) := rfl

theorem setFlag_watched (result : Result (Bool × FlagMap hash)) :
    Call.exec (do
        let (usedNext, flags) ← Watched.returning result
        Watched.setFlag usedNext flags
        return (usedNext, backFill)) ⟨line, log⟩ =
      let set := Call.exec (do
        let (usedNext, flags) ← returning result
        set (line.setFlag usedNext flags)
        return (usedNext, backFill)) line
      (set.1, ⟨set.2, log⟩) := by
  cases result <;> rfl

/-- A round reads from its argument on, and overwrites none behind that. -/
theorem initArgument_watched (hback : backFill ≤ i) :
    ∃ added, (Watched.initArgument remaining i backFill).exec ⟨line, log⟩ =
        (((initArgument remaining i backFill).exec line).1,
          ⟨((initArgument remaining i backFill).exec line).2, log ++ added⟩) ∧
      added.Pairwise KeepsClear ∧ (∀ index, .read index ∈ added → i ≤ index) ∧
      ∀ index, .write index ∈ added → index ≤ i := by
  rw [Watched.initArgument, initArgument, Call.exec_bind_ok (argument_watched line log),
    Call.exec_get_bind, Call.exec_bind, Call.exec_bind, returning_watched, exec_returning]
  cases hparse : parseFlag (line.argument i) with
  | error fault =>
      refine ⟨[.read i], rfl, ?_⟩
      simp
  | ok parsed =>
      obtain ⟨flagName, value⟩ := parsed
      dsimp only
      rw [Call.exec_get_bind]
      cases hname : flagName.filter (flagsExists line.flags) with
      | none =>
          refine ⟨[.read i] ++ [.read i, .write backFill], ?_, ?_⟩
          · rw [← List.append_assoc]
            rfl
          · simp [KeepsClear, hback]
      | some name =>
          dsimp only
          by_cases hmore : 0 < remaining
          · refine ⟨[.read i] ++ [.read (i + 1)], ?_, ?_⟩
            · rw [if_pos hmore, if_pos hmore, ← List.append_assoc]
              exact setFlag_watched line _ (flagsCliSet line.flags name value _)
            · simp [KeepsClear]
          · refine ⟨[.read i], ?_, ?_⟩
            · rw [if_neg hmore, if_neg hmore]
              exact setFlag_watched line _ (flagsCliSet line.flags name value none)
            · simp

/-- The place to fill does not come past the next argument. -/
theorem backFill_initArgument {used : Bool × Nat} {line after : CommandLine hash}
    (hback : backFill ≤ i)
    (hexec : (initArgument remaining i backFill).exec line = (.ok used, after)) :
    used.2 ≤ i + 1 := by
  obtain ⟨_, _, _, ⟨_, _, _, _, _, _, rfl, _⟩ | ⟨_, rfl, _⟩⟩ := initArgument_cases hexec
  · exact Nat.le_succ_of_le hback
  · exact Nat.succ_le_succ hback

theorem initLoop_watched (hback : backFill ≤ i) :
    ∃ added, (Watched.initLoop remaining i backFill taken).exec ⟨line, log⟩ =
        (((initLoop remaining i backFill taken).exec line).1,
          ⟨((initLoop remaining i backFill taken).exec line).2, log ++ added⟩) ∧
      added.Pairwise KeepsClear ∧ ∀ index, .read index ∈ added → i ≤ index := by
  induction remaining generalizing i backFill taken line log with
  | zero =>
      refine ⟨[], ?_, List.Pairwise.nil, nofun⟩
      rw [List.append_nil]
      rfl
  | succ remaining ih =>
      cases taken with
      | true =>
          obtain ⟨added, hexec, hclear, hreads⟩ := @ih (i + 1) backFill false line log (by omega)
          exact ⟨added, hexec, hclear, fun index hmem => Nat.le_of_succ_le (hreads index hmem)⟩
      | false =>
          rw [Watched.initLoop, initLoop]
          obtain ⟨first, hround, hclear, hreads, hwrites⟩ :=
            @initArgument_watched hash remaining i backFill line log hback
          rw [Call.exec_bind, Call.exec_bind, hround]
          rcases hline : (initArgument remaining i backFill).exec line with ⟨result, middle⟩
          cases result with
          | error fault => exact ⟨first, rfl, hclear, hreads⟩
          | ok used =>
              obtain ⟨later, hexec, hclear', hreads'⟩ := @ih (i + 1) used.2 used.1 middle
                (log ++ first) (backFill_initArgument hback hline)
              refine ⟨first ++ later, ?_, ?_, ?_⟩
              · rw [← List.append_assoc]
                exact hexec
              · refine List.pairwise_append.mpr ⟨hclear, hclear', ?_⟩
                intro earlier hearlier next hnext
                cases earlier with
                | read index => trivial
                | write index =>
                    cases next with
                    | write index' => trivial
                    | read index' =>
                        have hwrite : index ≤ i := hwrites index hearlier
                        have hread : i + 1 ≤ index' := hreads' index' hnext
                        change index ≠ index'
                        omega
              · intro index hmem
                rcases List.mem_append.mp hmem with hmem | hmem
                · exact hreads index hmem
                · exact Nat.le_of_succ_le (hreads' index hmem)

theorem init_watched :
    ∃ added, Watched.init.exec ⟨line, log⟩ =
        ((init.exec line).1, ⟨(init.exec line).2, log ++ added⟩) ∧
      added.Pairwise KeepsClear := by
  obtain ⟨added, hexec, hclear, _⟩ :=
    @initLoop_watched hash (line.argc - 1) 1 1 false line log (Nat.le_refl 1)
  refine ⟨added, ?_, hclear⟩
  rw [Watched.init, init, Call.exec_get_bind, Call.exec_get_bind, Call.exec_bind, Call.exec_bind,
    hexec]
  cases (initLoop (line.argc - 1) 1 1 false).exec line with
  | mk result after => cases result <;> rfl

end Watched

/-! ### The vector afterwards -/

section Init

variable {line after : CommandLine hash} {usage : Bool}

theorem initLoop_of_init (hexec : init.exec line = (.ok usage, after)) :
    (initLoop (line.argc - 1) 1 1 false).exec line = (.ok (), after) := by
  rw [init, Call.exec_get_bind] at hexec
  obtain ⟨_, middle, hloop, hexec⟩ := Call.exec_bind_eq_ok hexec
  cases hexec
  exact hloop

theorem init_of_argc_eq_zero (hargc : line.argc = 0) (hexec : init.exec line = (.ok usage, after)) :
    after = line := by
  have hloop := initLoop_of_init hexec
  rw [hargc] at hloop
  cases hloop
  rfl

theorem arguments_eq (line : CommandLine hash) :
    line.arguments = (line.argv.drop 1).take (line.argc - 1) := by
  rw [CommandLine.arguments, List.drop_take]

theorem init_front {left : List Text} (hleft : leftOver line.flags false line.arguments = left)
    (hpos : 0 < line.argc) (hargc : line.argc ≤ line.argv.length)
    (hexec : init.exec line = (.ok usage, after)) :
    after.argv.take after.argc = line.argv.take 1 ++ left ∧ after.argc = left.length + 1 := by
  rw [arguments_eq] at hleft
  have hleaves := initLoop_leaves (initLoop_of_init hexec) hleft (Nat.le_refl 1) (by omega) nofun
    (by omega)
  have hcount : after.argc = left.length + 1 := by
    have hcounted := hleaves.count
    rw [Bool.toNat_false] at hcounted
    omega
  rw [hcount, Nat.add_comm]
  exact ⟨hleaves.front, rfl⟩

/-- Where `init` gets through, the vector keeps its program name, and behind it are the arguments
that are left over. The uses of the vector kept clear of what they overwrote. -/
theorem init_leaves (hargc : line.argc ≤ line.argv.length)
    (hexec : init.exec line = (.ok usage, after)) :
    after.argv[0]? = line.argv[0]? ∧
      after.arguments = leftOver line.flags false line.arguments ∧
      (0 < line.argc → after.argc = after.arguments.length + 1) ∧
      (line.argc = 0 → after = line) ∧
      ∃ accesses, Watched.init.exec ⟨line, []⟩ = (.ok usage, ⟨after, accesses⟩) ∧
        accesses.Pairwise KeepsClear := by
  obtain ⟨accesses, hwatched, hclear⟩ := init_watched line []
  rw [hexec, List.nil_append] at hwatched
  cases hzero : line.argc with
  | zero =>
      obtain rfl := init_of_argc_eq_zero hzero hexec
      have hnone : after.arguments = [] := by rw [CommandLine.arguments, hzero]; rfl
      refine ⟨rfl, ?_, nofun, fun _ => rfl, accesses, hwatched, hclear⟩
      rw [hnone]
      rfl
  | succ count =>
      generalize hleft : leftOver line.flags false line.arguments = left
      obtain ⟨hfront, hcount⟩ := init_front hleft (by omega) hargc hexec
      have hname : (line.argv.take 1).length = 1 := by
        rw [List.length_take]
        omega
      have hleftOver : after.arguments = left := by
        rw [CommandLine.arguments, hfront, List.drop_left' hname]
      refine ⟨?_, hleftOver, fun _ => ?_, nofun, accesses, hwatched, hclear⟩
      · have hfirst := congrArg (fun cells : List Text => cells[0]?) hfront
        rw [List.getElem?_take_of_lt (by omega), List.getElem?_append_left (by omega),
          List.getElem?_take_of_lt (by omega)] at hfirst
        exact hfirst
      · rw [hleftOver]
        exact hcount

end Init

/-- `LW_FLAG(int, port, 0, "")`. -/
def portFlag : Flag Int := ⟨"port".toList, 0, none, by decide⟩

/-- `LW_FLAG(bool, all, false, "")`. -/
def allFlag : Flag Bool := ⟨"all".toList, false, none, by decide⟩

/-- A flag that takes the next argument, one that does not, and a name that is no flag's. -/
def mixedLine : CommandLine fun text => text.length.toUInt64 where
  argc := 7
  argv := ["p", "a", "--all", "--port", "5", "--other", "b"].map String.toList
  flags := ⟨[.integer .int portFlag, .boolean allFlag], by decide⟩

theorem init_leaves_mixedLine :
    (init.exec mixedLine).2.arguments = [['a'], "--other".toList, ['b']] ∧
      (init.exec mixedLine).2.argc = 4 := by
  have hresult : (init.exec mixedLine).1 = .ok true := by decide
  obtain ⟨_, hleft, hcount, _⟩ :=
    @init_leaves _ mixedLine (init.exec mixedLine).2 true (by decide) (Prod.ext hresult rfl)
  have harguments : (init.exec mixedLine).2.arguments = [['a'], "--other".toList, ['b']] := by
    rw [hleft]
    decide
  rw [hcount (by decide), harguments]
  exact ⟨rfl, rfl⟩

end Liblw.Cli
