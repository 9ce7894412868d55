import Liblw.Proof.FlagFormat
import Liblw.Proof.InitRounds

/-!
# Strings through the command line

A string that `format` wrote stands behind a flag's `=`. `format` escapes double quotes, and
`parse_flag` takes off quotes of either kind, so a string with a single quote in front is not what
arrives. Neither does an empty string, which `flags_cli_set` takes for a missing one.
-/

namespace Liblw.Cli

open Lib

/-! ### The characters of the argument -/

theorem formatChar_ne_nul {c : Char} (hc : c ≠ '\x00') : ∀ d ∈ formatChar c, d ≠ '\x00' := by
  unfold formatChar
  split_ifs
  · simp [hc]
  · simp [hc]

theorem cString_append {text rest : Text} (htext : '\x00' ∉ text) :
    cString (text ++ rest) = text ++ cString rest := by
  apply List.takeWhile_append_of_pos
  intro c hmem
  rw [decide_eq_true_eq]
  rintro rfl
  exact htext hmem

theorem cString_formatString (value : Text) :
    cString (formatString value) = formatString (cString value) := by
  unfold formatString
  induction value with
  | nil => rfl
  | cons c value ih =>
      by_cases hc : c = '\x00'
      · subst hc
        rfl
      · have hcons : cString (c :: value) = c :: cString value :=
          List.takeWhile_cons_of_pos (decide_eq_true hc)
        rw [hcons, List.flatMap_cons, List.flatMap_cons,
          cString_append fun hmem => formatChar_ne_nul hc _ hmem rfl, ih]

theorem eq_of_length_le_cString {value : Text} (hlength : value.length ≤ (cString value).length) :
    cString value = value :=
  (List.takeWhile_prefix _).eq_of_length_le hlength

theorem nul_notMem_of_cString {value : Text} (hvalue : cString value = value) :
    '\x00' ∉ value := by
  intro hmem
  have hne := List.takeWhile_eq_self_iff.mp hvalue _ hmem
  exact of_decide_eq_true hne rfl

theorem cString_of_nul_notMem {value : Text} (hvalue : '\x00' ∉ value) : cString value = value := by
  rw [← List.append_nil value, cString_append hvalue]
  rfl

/-! ### Quotes -/

theorem length_parseStringFrom_le (escaped : Bool) (text rest : Text) :
    (parseStringFrom escaped text).length ≤ (parseStringFrom escaped (text ++ rest)).length := by
  induction text generalizing escaped with
  | nil => exact Nat.zero_le _
  | cons c text ih =>
      rw [List.cons_append]
      unfold parseStringFrom
      split_ifs
      · exact ih true
      · exact Nat.succ_le_succ (ih false)

theorem length_parseString_take_le (n : Nat) (value : Text) :
    (parseString ((formatString value).take n)).length ≤ value.length := by
  calc
    (parseString ((formatString value).take n)).length ≤
      (parseString ((formatString value).take n ++ (formatString value).drop n)).length :=
        length_parseStringFrom_le false _ _
    _ = value.length := by rw [List.take_append_drop, parseString_formatString]

theorem formatString_head_ne {value : Text} (hquote : value.head? ≠ some '\'') :
    (formatString value).head? ≠ some '"' ∧ (formatString value).head? ≠ some '\'' := by
  cases value with
  | nil => exact ⟨nofun, nofun⟩
  | cons c value =>
      unfold formatString
      rw [List.flatMap_cons]
      unfold formatChar
      split_ifs with hspecial
      · exact ⟨by simp, by simp⟩
      · constructor
        · intro heq
          exact hspecial (.inr (.inl (Option.some.inj heq)))
        · exact hquote

theorem unquote_formatString {value : Text} (name : Text) (hquote : value.head? ≠ some '\'') :
    unquote name (formatString value) = .ok (formatString value) := by
  obtain ⟨hdouble, hsingle⟩ := formatString_head_ne hquote
  unfold unquote
  rw [if_neg]
  rintro (heq | heq)
  · exact hdouble heq
  · exact hsingle heq

/-- What is read behind the `=` is not longer than the string, and shorter where quotes went. -/
theorem length_of_unquote {value text name : Text}
    (hunquote : unquote name (formatString value) = .ok text) :
    (parseString text).length ≤ value.length ∧
      (value.head? = some '\'' → (parseString text).length < value.length) := by
  by_cases hquote : value.head? = some '\''
  · obtain ⟨value, rfl⟩ : ∃ rest, value = '\'' :: rest := by
      cases value with
      | nil => cases hquote
      | cons c value => exact ⟨value, by rw [Option.some.inj hquote]⟩
    have hformat : formatString ('\'' :: value) = '\'' :: formatString value := rfl
    rw [hformat] at hunquote
    unfold unquote at hunquote
    rw [if_pos (.inr rfl)] at hunquote
    split_ifs at hunquote
    · cases hunquote
    have htext := Except.ok.inj hunquote
    rw [List.drop_one, List.tail_cons] at htext
    have hle := length_parseString_take_le (('\'' :: formatString value).length - 2) value
    rw [htext] at hle
    exact ⟨Nat.le_succ_of_le hle, fun _ => Nat.lt_succ_of_le hle⟩
  · rw [unquote_formatString name hquote] at hunquote
    cases hunquote
    rw [parseString_formatString]
    exact ⟨Nat.le_refl _, fun heq => absurd heq hquote⟩

/-! ### The name and the value -/

section ParseFlag

variable {c : Char} {name text : Text}

theorem takeWhile_name (hname : '=' ∉ name) :
    (name ++ '=' :: text).takeWhile (fun c => c ≠ '=') = name := by
  rw [List.takeWhile_append_of_pos, List.takeWhile_cons_of_neg, List.append_nil]
  · simp
  · intro c hmem
    rw [decide_eq_true_eq]
    rintro rfl
    exact hname hmem

theorem parseFlag_assign (hname : '=' ∉ name) :
    parseFlag ('-' :: '-' :: c :: (name ++ '=' :: text)) =
      if text = [] then .ok (withoutValue (c :: name))
      else (unquote (c :: name) text).map fun value => (some (c :: name), some value) := by
  have hlength : ('-' :: '-' :: c :: (name ++ '=' :: text)).length =
      3 + name.length + 1 + text.length := by
    simp only [List.length_cons, List.length_append]
    omega
  have hstop : (('-' :: '-' :: c :: (name ++ '=' :: text)).drop 3).takeWhile (fun c => c ≠ '=') =
      name := takeWhile_name hname
  have htake : (('-' :: '-' :: c :: (name ++ '=' :: text)).drop 2).take (3 + name.length - 2) =
      c :: name := by
    rw [show 3 + name.length - 2 = name.length + 1 by omega]
    change c :: (name ++ '=' :: text).take name.length = c :: name
    rw [List.take_left]
  have hdrop : ('-' :: '-' :: c :: (name ++ '=' :: text)).drop (3 + name.length + 1) = text := by
    rw [show 3 + name.length + 1 = name.length + 1 + 3 by omega]
    change (name ++ '=' :: text).drop (name.length + 1) = text
    rw [List.drop_append]
    simp
  unfold parseFlag
  rw [if_neg]
  · simp only [hstop, htake, hdrop, hlength]
    by_cases htext : text = []
    · rw [if_pos htext, if_pos]
      rw [htext]
      exact Nat.le_refl _
    · have hpos := List.length_pos_iff.mpr htext
      rw [if_neg htext, if_neg (by omega)]
  · rintro (hshort | hdash)
    · omega
    · exact absurd hdash Bool.false_ne_true

theorem parseFlag_bare (hname : '=' ∉ name) :
    parseFlag ('-' :: '-' :: c :: name) = .ok (withoutValue (c :: name)) := by
  have hstop : (('-' :: '-' :: c :: name).drop 3).takeWhile (fun c => c ≠ '=') = name := by
    apply List.takeWhile_eq_self_iff.mpr
    intro c hmem
    rw [decide_eq_true_eq]
    rintro rfl
    exact hname hmem
  unfold parseFlag
  rw [if_neg]
  · simp only [hstop]
    rw [if_pos]
    · rw [show 3 + name.length - 2 = (c :: name).length by rw [List.length_cons]; omega]
      change Except.ok (withoutValue ((c :: name).take (c :: name).length)) = _
      rw [List.take_length]
    · simp only [List.length_cons]
      omega
  · rintro (hshort | hdash)
    · simp only [List.length_cons] at hshort
      omega
    · exact absurd hdash Bool.false_ne_true

end ParseFlag

/-! ### Setting the flag -/

section Init

variable {hash : Text → UInt64} {map final : FlagMap hash} {line : CommandLine hash}
  {flagName program argument : Text} {value : Option Text} {usedNext : Bool}

/-- A flag with no argument behind it takes the value that came with it, and a flag of type `bool`
may do without one. -/
theorem flagsCliSet_eq_ok (hexists : flagsExists map flagName)
    (hset : flagsCliSet map flagName value none = .ok (usedNext, final)) :
    ∃ flag text parsed, map.find flagName = some flag ∧ flag.parseValue text = .ok parsed ∧
      final = map.store parsed ∧ (value = some text ∨ flag.typeName = booleanTypeName) := by
  obtain ⟨flag, text, parsed, hfind, hparse, hfinal, hused⟩ := flagsCliSet_cases hexists hset
  refine ⟨flag, text, parsed, hfind, hparse, hfinal, ?_⟩
  rcases hused with ⟨_, hvalue | ⟨_, htype⟩⟩ | ⟨_, _, _, hnext⟩
  · exact .inl hvalue
  · exact .inr htype
  · cases hnext

theorem flagsCliSet_string {flag : Flag Text} {text : Text} (hmem : .string flag ∈ map.flags) :
    flagsCliSet map flag.name (some text) none =
      .ok (false, map.store (.string (flag.setValue (parseString text)))) := by
  have hfind : map.find flag.name = some (.string flag) := FlagMap.find_of_mem hmem
  unfold flagsCliSet
  simp only [hfind, Option.isNone_some, Bool.and_false, Bool.false_eq_true, if_false, false_and]
  rfl

/-- One argument behind the program name that names a flag and its value. -/
theorem init_set {flags : FlagMap hash}
    (hparse : parseFlag (cString argument) = .ok (some flagName, value))
    (hexists : flagsExists map flagName)
    (hset : flagsCliSet map flagName value none = .ok (usedNext, flags)) :
    init.exec ⟨2, [program, argument], map⟩ =
      (.ok (!help flags), CommandLine.setFlag ⟨2, [program, argument], map⟩ usedNext flags) := by
  have hround : (initArgument 0 1 1).exec ⟨2, [program, argument], map⟩ =
      (.ok (usedNext, 1), CommandLine.setFlag ⟨2, [program, argument], map⟩ usedNext flags) := by
    unfold initArgument
    rw [Call.exec_get_bind]
    change Call.exec (returning (parseFlag (cString argument)) >>= _) _ = _
    rw [Call.exec_bind, exec_returning, hparse]
    dsimp only
    rw [Option.filter_some_pos hexists]
    change Call.exec (returning (flagsCliSet map flagName value none) >>= _) _ = _
    rw [hset]
    rfl
  have hloop : (initLoop 1 1 1 false).exec ⟨2, [program, argument], map⟩ =
      (.ok (), CommandLine.setFlag ⟨2, [program, argument], map⟩ usedNext flags) := by
    unfold initLoop
    rw [Call.exec_bind_ok hround]
    rfl
  unfold init
  rw [Call.exec_get_bind]
  change Call.exec (initLoop 1 1 1 false >>= _) _ = _
  rw [Call.exec_bind_ok hloop]
  rfl

/-- Where one argument changes the flags, it names one of them and its value is what is read. -/
theorem exec_initArgument {used : Bool × Nat} {after : CommandLine hash}
    (hexec : (initArgument 0 1 1).exec ⟨2, [program, argument], map⟩ = (.ok used, after)) :
    after.flags = map ∨
      ∃ flagName value, parseFlag (cString argument) = .ok (some flagName, value) ∧
        flagsExists map flagName ∧
          flagsCliSet map flagName value none = .ok (used.1, after.flags) := by
  obtain ⟨flagName, value, hparse, ⟨name, usedNext, flags, rfl, hexists, hset, rfl, rfl⟩ |
    ⟨_, _, rfl⟩⟩ := initArgument_cases hexec
  · exact .inr ⟨name, value, hparse, hexists, hset⟩
  · exact .inl rfl

theorem exec_init {usage : Bool} {after : CommandLine hash}
    (hexec : init.exec ⟨2, [program, argument], map⟩ = (.ok usage, after)) :
    ∃ used, (initArgument 0 1 1).exec ⟨2, [program, argument], map⟩ = (.ok used, after) := by
  unfold init at hexec
  rw [Call.exec_get_bind] at hexec
  obtain ⟨_, middle, hloop, hexec⟩ := Call.exec_bind_eq_ok hexec
  cases hexec
  change Call.exec (initLoop 1 1 1 false) _ = _ at hloop
  unfold initLoop at hloop
  obtain ⟨used, middle, hround, hloop⟩ := Call.exec_bind_eq_ok hloop
  cases hloop
  exact ⟨used, hround⟩

end Init

/-! ### The string that arrives -/

section Survival

variable {hash : Text → UInt64} {map : FlagMap hash} {flag : Flag Text} {program value : Text}

/-- `--name=` and the text that `format` writes. -/
def assignment (flagName value : Text) : Text :=
  '-' :: '-' :: (flagName ++ '=' :: formatString value)

/-- The program is started with the flag's assignment as its one argument, and the flag has the
value. -/
def SurvivesCommandLine (map : FlagMap hash) (flag : Flag Text) (program value : Text) : Prop :=
  ∃ usage after, init.exec ⟨2, [program, assignment flag.name value], map⟩ = (.ok usage, after) ∧
    .string (flag.setValue value) ∈ after.flags.flags

theorem cString_assignment :
    cString (assignment flag.name value) = assignment flag.name (cString value) := by
  have hnul : '\x00' ∉ '-' :: '-' :: (flag.name ++ ['=']) := by
    have hliteral := flag.literal
    simp [hliteral]
  have hsplit (value : Text) :
      assignment flag.name value = ('-' :: '-' :: (flag.name ++ ['='])) ++ formatString value := by
    simp [assignment]
  rw [hsplit, hsplit, cString_append hnul, cString_formatString]

/-- The flag's value was set by its assignment, so it is what `parse` made of what `parse_flag`
left. -/
theorem SurvivesCommandLine.parsed (hsurvives : SurvivesCommandLine map flag program value)
    (hmem : .string { flag with stored := none } ∈ map.flags) :
    ∃ flagName text, parseFlag (assignment flag.name (cString value)) =
      .ok (some flagName, some text) ∧ parseString text = value := by
  obtain ⟨usage, after, hexec, hset⟩ := hsurvives
  obtain ⟨used, hround⟩ := exec_init hexec
  have hunset : FlagBase.string (flag.setValue value) ∉ map.flags := by
    intro hstored
    have heq := FlagMap.eq_of_hash hstored hmem rfl
    injection heq with heq
    injection heq with _ _ heq
    cases heq
  rcases exec_initArgument hround with hflags | ⟨flagName, optValue, hparse, hexists, hcli⟩
  · rw [hflags] at hset
    exact absurd hset hunset
  · rw [cString_assignment] at hparse
    obtain ⟨found, text, parsed, hfind, hvalue, hfinal, htext⟩ := flagsCliSet_eq_ok hexists hcli
    rw [hfinal] at hset
    rcases FlagMap.eq_or_mem_of_mem_store hset with rfl | hstored
    · obtain ⟨htype, hread⟩ := FlagBase.parseValue_eq_string hvalue
      rcases htext with rfl | hboolean
      · exact ⟨flagName, text, hparse, (Option.some.inj hread).symm⟩
      · rw [htype] at hboolean
        exact absurd hboolean (by decide)
    · exact absurd hstored hunset

/-- A name in front of the `=` is read up to it. -/
theorem parseFlag_assignment {c : Char} {name : Text} (hname : '=' ∉ name) :
    parseFlag (assignment (c :: name) value) =
      if formatString value = [] then .ok (withoutValue (c :: name))
      else (unquote (c :: name) (formatString value)).map
        fun text => (some (c :: name), some text) :=
  parseFlag_assign hname

theorem formatString_eq_nil : formatString value = [] ↔ value = [] := by
  constructor
  · intro hnil
    rw [← parseString_formatString value, hnil]
    rfl
  · rintro rfl
    rfl

theorem eq_notMem_formatString {value : Text} (hvalue : '=' ∉ value) :
    '=' ∉ formatString value := by
  intro hmem
  obtain ⟨c, hc, hchar⟩ := List.mem_flatMap.mp hmem
  have heq : '=' = c := by
    unfold formatChar at hchar
    split_ifs at hchar
    · simpa using hchar
    · simpa using hchar
  rw [← heq] at hc
  exact hvalue hc

/-- Without a name the value has to come from behind a later `=`. -/
theorem length_of_nameless {flagName text : Text}
    (hparse : parseFlag (assignment [] value) = .ok (some flagName, some text)) :
    (parseString text).length < value.length := by
  have hwithout (name : Text) : withoutValue ('=' :: name) = (some ('=' :: name), none) :=
    if_neg fun hprefix => absurd hprefix.2 Bool.false_ne_true
  by_cases hmem : '=' ∈ value
  · obtain ⟨before, later, rfl, hbefore⟩ := List.eq_append_cons_of_mem hmem
    have hsplit : assignment [] (before ++ '=' :: later) =
        '-' :: '-' :: '=' :: (formatString before ++ '=' :: formatString later) := by
      unfold assignment formatString
      rw [List.flatMap_append, List.flatMap_cons]
      rfl
    rw [hsplit, parseFlag_assign (eq_notMem_formatString hbefore)] at hparse
    split_ifs at hparse with hlater
    · rw [hwithout] at hparse
      cases hparse
    · obtain ⟨read, hunquote, heq⟩ := eq_ok_of_map hparse
      cases heq
      have hlength := (length_of_unquote hunquote).1
      rw [List.length_append, List.length_cons]
      omega
  · have hbare : parseFlag (assignment [] value) = .ok (withoutValue ('=' :: formatString value)) :=
      parseFlag_bare (eq_notMem_formatString hmem)
    rw [hbare, hwithout] at hparse
    cases hparse

/-- What is read behind a name is as long as the string only where nothing was cut off it. -/
theorem kept_of_length {c : Char} {name flagName text : Text} (hname : '=' ∉ name)
    (hparse : parseFlag (assignment (c :: name) (cString value)) = .ok (some flagName, some text))
    (htext : parseString text = value) :
    value ≠ [] ∧ value.head? ≠ some '\'' ∧ '\x00' ∉ value := by
  rw [parseFlag_assignment hname] at hparse
  split_ifs at hparse with hnil
  · have hno : text = "no".toList := by
      unfold withoutValue at hparse
      split_ifs at hparse with hprefix
      · obtain ⟨rest, hrest⟩ := List.isPrefixOf_iff_prefix.mp hprefix.2
        rw [← hrest] at hparse
        cases hparse
        rfl
      · cases hparse
    rw [hno] at htext
    rw [formatString_eq_nil, ← htext] at hnil
    cases hnil
  · obtain ⟨read, hunquote, heq⟩ := eq_ok_of_map hparse
    cases heq
    obtain ⟨hle, hlt⟩ := length_of_unquote hunquote
    rw [htext] at hle hlt
    have hwhole := eq_of_length_le_cString hle
    rw [hwhole] at hlt hnil
    refine ⟨?_, ?_, nul_notMem_of_cString hwhole⟩
    · rintro rfl
      exact hnil rfl
    · intro hquote
      exact Nat.lt_irrefl _ (hlt hquote)

theorem survives_of_plain (hmem : .string flag ∈ map.flags) (hne : flag.name ≠ [])
    (hname : '=' ∉ flag.name) (hvalue : value ≠ []) (hquote : value.head? ≠ some '\'')
    (hnul : '\x00' ∉ value) : SurvivesCommandLine map flag program value := by
  have hparse : parseFlag (cString (assignment flag.name value)) =
      .ok (some flag.name, some (formatString value)) := by
    rw [cString_assignment, cString_of_nul_notMem hnul]
    obtain ⟨c, name, hcons⟩ := List.exists_cons_of_ne_nil hne
    rw [hcons] at hname ⊢
    rw [parseFlag_assignment fun hmem => hname (List.mem_cons_of_mem c hmem),
      if_neg fun hnil => hvalue (formatString_eq_nil.mp hnil), unquote_formatString _ hquote]
    rfl
  have hexists : flagsExists map flag.name :=
    Option.isSome_iff_exists.mpr ⟨_, FlagMap.find_of_mem hmem⟩
  refine ⟨_, _, init_set hparse hexists (flagsCliSet_string hmem), ?_⟩
  rw [parseString_formatString]
  exact FlagMap.mem_store hmem rfl

/-- A flag for strings has the string that its assignment was written from, whatever it had before,
if and only if the flag has a name and the string is not empty, has no single quote in front and can
be in an argument at all. -/
theorem survivesCommandLine_iff (hmem : .string flag ∈ map.flags) (hname : '=' ∉ flag.name)
    (program value : Text) :
    (∀ stored, SurvivesCommandLine (map.store (.string { flag with stored := stored }))
        { flag with stored := stored } program value) ↔
      flag.name ≠ [] ∧ value ≠ [] ∧ value.head? ≠ some '\'' ∧ '\x00' ∉ value := by
  constructor
  · intro hsurvives
    obtain ⟨flagName, text, hparse, htext⟩ := (hsurvives none).parsed (FlagMap.mem_store hmem rfl)
    cases hcase : flag.name with
    | nil =>
        rw [hcase] at hparse
        have hlength := length_of_nameless hparse
        have hprefix : (cString value).length ≤ value.length :=
          (List.takeWhile_prefix _).length_le
        rw [htext] at hlength
        omega
    | cons c name =>
        rw [hcase] at hparse hname
        refine ⟨List.cons_ne_nil c name, ?_⟩
        exact kept_of_length (fun hmem => hname (List.mem_cons_of_mem c hmem)) hparse htext
  · rintro ⟨hne, hvalue, hquote, hnul⟩ stored
    exact survives_of_plain (FlagMap.mem_store hmem rfl) hne hname hvalue hquote hnul

end Survival

/-! ### The empty string -/

/-- `LW_FLAG(std::string, n, "", "")`. -/
def flagN : Flag Text := ⟨['n'], [], none, by decide⟩

def mapN : FlagMap fun _ => 0 := ⟨[.string flagN], List.nodup_singleton _⟩

theorem survivesCommandLine_iff_flagN :
    (∀ stored, SurvivesCommandLine (mapN.store (.string { flagN with stored := stored }))
        { flagN with stored := stored } ['p'] "a b".toList) ↔
      flagN.name ≠ [] ∧ "a b".toList ≠ [] ∧ "a b".toList.head? ≠ some '\'' ∧
        '\x00' ∉ "a b".toList :=
  survivesCommandLine_iff (List.mem_singleton.mpr rfl) (by decide) ['p'] "a b".toList

/-- `--n=` is an error. -/
theorem not_survivesCommandLine_nil : ¬ SurvivesCommandLine mapN flagN ['p'] [] := by
  rintro ⟨usage, after, hexec, hset⟩
  have herror : (init.exec ⟨2, [['p'], assignment flagN.name []], mapN⟩).1 =
      .error (.thrown ⟨.invalidArgument, "Flag n missing std::string value."⟩) := by
    decide
  rw [hexec] at herror
  cases herror

end Liblw.Cli
