import Liblw.Http.HeadText
import Liblw.Proof.HeaderMaps
import Liblw.Proof.MethodLine

/-!
# The header fields

Header lines are read one by one and put into the map in turn. A name is then found as it was
written unless it is so long that the comparison goes round to a stored one.
-/

namespace Liblw.Http

open Liblw.Lib HttpRequest

/-! ### Reading the lines -/

theorem findLineEnd_value {value : Text} (hvalue : ¬ ['\r', '\n'] <:+: value) (rest : Text) :
    findLineEnd (value ++ '\r' :: '\n' :: rest) = some value.length := by
  induction value with
  | nil => rfl
  | cons c value ih =>
      have htail : ¬ ['\r', '\n'] <:+: value := fun h => hvalue (List.infix_cons h)
      have hne : ∀ tail, c = '\r' → value ++ '\r' :: '\n' :: rest = '\n' :: tail → False := by
        rintro tail rfl hnext
        cases value with
        | nil => cases hnext
        | cons d value =>
            obtain ⟨rfl, -⟩ := List.cons.inj hnext
            exact hvalue ⟨[], value, rfl⟩
      rw [List.cons_append, findLineEnd, ih htail]
      · rfl
      · exact hne

/-- A header line is taken apart into its name and its value. -/
theorem exec_parseHeaderLine {field : Text × Text}
    (hname : ∀ c ∈ field.1, c ≠ ':' ∧ c ≠ '\r' ∧ c ≠ '\n')
    (hvalue : ¬ ['\r', '\n'] <:+: field.2 ∧ ∀ c ∈ field.2.head?, isSpace c = false)
    (rest : Text) (request : HttpRequest) :
    (parseHeaderLine (headerLine field ++ rest)).exec request =
      (.ok ((field.1, field.2), rest), request) := by
  obtain ⟨name, value⟩ := field
  have hview : headerLine (name, value) ++ rest =
      [] ++ (name ++ ':' :: ' ' :: (value ++ '\r' :: '\n' :: rest)) := by
    simp [headerLine]
  have hblanks : headerLine (name, value) ++ rest =
      (name ++ [':']) ++ ([' '] ++ (value ++ '\r' :: '\n' :: rest)) := by
    simp [headerLine]
  have hbehind : headerLine (name, value) ++ rest =
      (name ++ [':', ' ']) ++ (value ++ '\r' :: '\n' :: rest) := by
    simp [headerLine]
  generalize headerLine (name, value) ++ rest = view at hview hblanks hbehind ⊢
  obtain ⟨hcolon, -, hnameText⟩ := @word_at view [] _ 0 (· ≠ ':') name ':' hview rfl
    (fun c hc => decide_eq_true (hname c hc).1) (by rfl)
  rw [Nat.zero_add] at hcolon hnameText
  have hlineEnd : ¬ passWhile (fun c => !isLineEnd c) view 0 < name.length := by
    have hkept : ∀ c ∈ name, (!isLineEnd c) = true := by
      intro c hc
      simp [isLineEnd, (hname c hc).2]
    rw [passWhile, List.drop_zero, hview, List.nil_append, List.takeWhile_append_of_pos hkept,
      List.length_append]
    omega
  have hstart : passWhile (fun c => isSpace c && !isLineEnd c) view (name.length + 1) =
      name.length + 1 + 1 := by
    rw [passWhile_piece hblanks (by simp)]
    · rfl
    · intro c hc
      obtain rfl := List.mem_singleton.mp hc
      rfl
    · intro c hc
      cases value with
      | nil =>
          obtain rfl := Option.some.inj hc
          rfl
      | cons d value =>
          obtain rfl := Option.some.inj hc
          simp [hvalue.2 d rfl]
  have hlength : name.length + 1 + 1 + value.length + 2 + rest.length = view.length := by
    rw [hview]
    simp only [List.nil_append, List.length_append, List.length_cons]
    omega
  have hdrop : view.drop (name.length + 1 + 1) = value ++ '\r' :: '\n' :: rest :=
    drop_piece hbehind (by simp)
  have hrest : view.drop (name.length + 1 + 1 + value.length + 2) = rest := by
    have hwhole : view = (name ++ ':' :: ' ' :: (value ++ ['\r', '\n'])) ++ rest := by
      rw [hview]
      simp
    apply drop_piece hwhole
    simp only [List.length_append, List.length_cons, List.length_nil]
    omega
  have hvalueText : substr view (name.length + 1 + 1) value.length = value :=
    substr_piece hbehind (by simp) rfl
  unfold parseHeaderLine
  simp only [hcolon, hlineEnd, if_false, hstart]
  rw [if_neg (by omega), if_neg (by omega), hdrop, findLineEnd_value hvalue.1]
  rw [Nat.sub_zero] at hnameText
  simp only [hrest, hnameText, hvalueText]
  rfl

/-- The loop ends at the empty line, with the fields put into the map in turn. -/
theorem exec_parseHeadersLoop {fields : List (Text × Text)}
    (hnames : ∀ field ∈ fields, field.1 ≠ [] ∧ ∀ c ∈ field.1, c ≠ ':' ∧ c ≠ '\r' ∧ c ≠ '\n')
    (hvalues : ∀ field ∈ fields,
      ¬ ['\r', '\n'] <:+: field.2 ∧ ∀ c ∈ field.2.head?, isSpace c = false)
    {rounds : Nat} (hrounds : fields.length < rounds) (request : HttpRequest) :
    (parseHeadersLoop rounds (headerLines fields)).exec request = (.ok (), { request with
      headers := fields.foldl (fun headers field => headers.insert field.1 field.2)
        request.headers }) := by
  induction fields generalizing rounds request with
  | nil =>
      obtain ⟨rounds, rfl⟩ := Nat.exists_eq_add_one_of_ne_zero (Nat.ne_of_gt hrounds)
      rfl
  | cons field fields ih =>
      obtain ⟨rounds, rfl⟩ :=
        Nat.exists_eq_add_one_of_ne_zero (Nat.ne_of_gt (Nat.zero_lt_of_lt hrounds))
      obtain ⟨hne, hname⟩ := hnames field List.mem_cons_self
      have hline : headerLines (field :: fields) = headerLine field ++ headerLines fields := by
        rw [headerLines, List.flatMap_cons, List.append_assoc, headerLines]
      have hbegins : "\r\n".toList.isPrefixOf (headerLine field ++ headerLines fields) = false := by
        obtain ⟨c, tail, hcons⟩ := List.exists_cons_of_ne_nil hne
        have hc : c ≠ '\r' := (hname c (by rw [hcons]; exact List.mem_cons_self)).2.1
        rw [headerLine, hcons]
        have hc' : ('\r' == c) = false := by simpa using Ne.symm hc
        simp [List.isPrefixOf, hc']
      rw [hline, parseHeadersLoop, hbegins]
      rw [if_neg (by simp), Call.exec_bind_ok (exec_parseHeaderLine hname
        (hvalues field List.mem_cons_self) _ _)]
      dsimp only
      rw [Call.exec_modify_bind, ih (fun other hmem => hnames other (List.mem_cons_of_mem _ hmem))
        (fun other hmem => hvalues other (List.mem_cons_of_mem _ hmem)) (by simpa using hrounds)]
      rfl

theorem length_le_headerLines (fields : List (Text × Text)) :
    fields.length ≤ (headerLines fields).length := by
  induction fields with
  | nil => simp
  | cons field fields ih =>
      rw [headerLines, List.flatMap_cons, List.append_assoc, ← headerLines, List.length_append,
        List.length_cons, headerLine, List.length_append, List.length_cons]
      omega

/-- **Reading the header lines.** -/
theorem exec_parseHeaders {fields : List (Text × Text)}
    (hnames : ∀ field ∈ fields, field.1 ≠ [] ∧ ∀ c ∈ field.1, c ≠ ':' ∧ c ≠ '\r' ∧ c ≠ '\n')
    (hvalues : ∀ field ∈ fields,
      ¬ ['\r', '\n'] <:+: field.2 ∧ ∀ c ∈ field.2.head?, isSpace c = false)
    {request : HttpRequest} (hfresh : request.headers = []) :
    (parseHeaders (headerLines fields)).exec request =
      (.ok (), { request with headers := insertAll fields }) := by
  have hloop := exec_parseHeadersLoop hnames hvalues
    (Nat.lt_succ_of_le (length_le_headerLines fields)) request
  rw [hfresh] at hloop
  exact hloop

/-! ### Looking up -/

theorem find_insert (headers : HeadersView) (key value name : Text) :
    (headers.insert key value).find name =
      (headers.find name).or (if sameName key name then some value else none) := by
  unfold HeadersView.insert
  split_ifs with hpresent hname hname
  · obtain ⟨stored, hstored⟩ := Option.isSome_iff_exists.mp hpresent
    rw [← HeadersView.find_eq_find_of_sameName headers hname, hstored, Option.some_or]
  · rw [Option.or_none]
  · rw [HeadersView.find_append_singleton, if_pos hname]
  · rw [HeadersView.find_append_singleton, if_neg hname]

theorem find_foldl_insert (fields : List (Text × Text)) (headers : HeadersView) (name : Text) :
    HeadersView.find (fields.foldl (fun headers field => headers.insert field.1 field.2) headers)
        name = (headers.find name).or (HeadersView.find fields name) := by
  induction fields generalizing headers with
  | nil => exact Option.or_none.symm
  | cons field fields ih =>
      rw [List.foldl_cons, ih, find_insert, Option.or_assoc, HeadersView.find_cons]
      congr 1
      split_ifs <;> rfl

/-- The first field of a name is the one that stays. -/
theorem find_insertAll (fields : List (Text × Text)) (name : Text) :
    HeadersView.find (insertAll fields) name = HeadersView.find fields name := by
  rw [insertAll, find_foldl_insert]
  rfl

theorem mem_of_mem_insert {headers : HeadersView} {key value : Text} {entry : Text × Text}
    (hmem : entry ∈ headers.insert key value) : entry ∈ headers ∨ entry = (key, value) := by
  unfold HeadersView.insert at hmem
  split_ifs at hmem
  · exact Or.inl hmem
  · rcases List.mem_append.mp hmem with hmem | hmem
    · exact Or.inl hmem
    · exact Or.inr (List.mem_singleton.mp hmem)

theorem mem_of_mem_insertAll {fields : List (Text × Text)} {entry : Text × Text}
    (hmem : entry ∈ insertAll fields) : entry ∈ fields := by
  induction fields using List.reverseRecOn with
  | nil => exact hmem
  | append_singleton fields field ih =>
      rw [insertAll, List.foldl_append] at hmem
      rw [List.mem_append, List.mem_singleton]
      exact (mem_of_mem_insert hmem).imp ih id

theorem short_insertAll {fields : List (Text × Text)} (hshort : Short fields) :
    Short (insertAll fields) := fun entry hmem => hshort entry (mem_of_mem_insertAll hmem)

/-- Inserting the fields in turn makes a map. -/
theorem exists_stores {fields : List (Text × Text)} (hshort : Short fields) :
    ∃ map : HeaderMap, map.Stores (insertAll fields) := by
  induction fields using List.reverseRecOn with
  | nil => exact ⟨.leaf, SearchTree.holds_leaf⟩
  | append_singleton fields field ih =>
      obtain ⟨map, hstores⟩ := ih fun other hmem => hshort other (List.mem_append_left _ hmem)
      have hfields : Short fields := fun other hmem => hshort other (List.mem_append_left _ hmem)
      have hinsert := hstores.insert (short_insertAll hfields)
        (hshort field (List.mem_append_right _ List.mem_cons_self)) field.2
      rw [insertAll, List.foldl_append]
      exact ⟨_, hinsert⟩

/-! ### Long names -/

section Long

variable {stored name : Text}

/-- Where neither name begins the other they differ at a character. -/
theorem compareFrom_lt_iff_of_apart {lhs rhs : Text} (sizes : Int)
    (hleft : ¬ upperCodes lhs <+: upperCodes rhs) (hright : ¬ upperCodes rhs <+: upperCodes lhs) :
    compareFrom sizes lhs rhs < 0 ↔ upperCodes lhs < upperCodes rhs := by
  induction lhs generalizing rhs with
  | nil => exact absurd List.nil_prefix hleft
  | cons l lhs ih =>
      cases rhs with
      | nil => exact absurd List.nil_prefix hright
      | cons r rhs =>
          have hcodes : upperCodes (l :: lhs) < upperCodes (r :: rhs) ↔
              upperCode l < upperCode r ∨ upperCode l = upperCode r ∧
                upperCodes lhs < upperCodes rhs := List.cons_lt_cons_iff
          rw [compareFrom, hcodes]
          by_cases heq : upperCode l = upperCode r
          · have hleft' : ¬ upperCodes lhs <+: upperCodes rhs := fun h =>
              hleft (List.cons_prefix_cons.mpr ⟨heq, h⟩)
            have hright' : ¬ upperCodes rhs <+: upperCodes lhs := fun h =>
              hright (List.cons_prefix_cons.mpr ⟨heq.symm, h⟩)
            rw [if_neg (by simpa using heq), ih hleft' hright']
            simp [heq]
          · rw [if_pos heq]
            omega

theorem compareFrom_of_begins {lhs rhs : Text} (sizes : Int)
    (hbegins : upperCodes lhs <+: upperCodes rhs) :
    compareFrom sizes lhs rhs = sizes ∧ compareFrom sizes rhs lhs = sizes := by
  induction lhs generalizing rhs with
  | nil => cases rhs <;> exact ⟨rfl, rfl⟩
  | cons l lhs ih =>
      cases rhs with
      | nil => exact absurd hbegins (by simp [upperCodes])
      | cons r rhs =>
          obtain ⟨heq, hrest⟩ := List.cons_prefix_cons.mp hbegins
          rw [compareFrom, compareFrom, if_neg (by simpa using heq),
            if_neg (by simpa using heq.symm)]
          exact ih hrest

theorem caseInsensitiveLess_eq (lhs rhs : Text) :
    caseInsensitiveLess lhs rhs =
      decide (compareFrom (Int.bmod (lhs.length - rhs.length) (2 ^ 32)) lhs rhs < 0) := by
  unfold caseInsensitiveLess caseInsensitiveCompare
  split_ifs with hnil
  · rw [hnil.1, hnil.2]
    rfl
  · rfl

/-- A shorter name that is not told apart from the longer one wraps onto it. -/
theorem wraps_of_not_less (hlength : stored.length < name.length)
    (hless : caseInsensitiveLess stored name = false)
    (hless' : caseInsensitiveLess name stored = false) : Wraps stored name := by
  rw [caseInsensitiveLess_eq, decide_eq_false_iff_not] at hless hless'
  have hnot : ¬ upperCodes name <+: upperCodes stored := by
    intro hbegins
    have hle := hbegins.length_le
    simp only [upperCodes, List.length_map] at hle
    omega
  by_cases hbegins : upperCodes stored <+: upperCodes name
  · rw [(compareFrom_of_begins _ hbegins).1] at hless
    rw [(compareFrom_of_begins _ hbegins).2] at hless'
    refine ⟨hbegins, hlength, ?_⟩
    simp only [Int.bmod] at hless hless'
    omega
  · rw [compareFrom_lt_iff_of_apart _ hbegins hnot, not_lt] at hless
    rw [compareFrom_lt_iff_of_apart _ hnot hbegins, not_lt] at hless'
    have heq := hless'.antisymm hless
    exact absurd (by rw [heq]) hbegins

theorem not_less_of_wraps (hwraps : Wraps stored name) :
    caseInsensitiveLess stored name = false ∧ caseInsensitiveLess name stored = false := by
  obtain ⟨hbegins, hlength, hdvd⟩ := hwraps
  rw [caseInsensitiveLess_eq, caseInsensitiveLess_eq, (compareFrom_of_begins _ hbegins).1,
    (compareFrom_of_begins _ hbegins).2, decide_eq_false_iff_not, decide_eq_false_iff_not]
  simp only [Int.bmod]
  omega

/-- What comes before a name that wraps comes before the longer name. -/
theorem less_of_wraps {other : Text} (hwraps : Wraps stored name) (hstored : stored.length < 2 ^ 31)
    (hother : other.length < 2 ^ 31) (hbefore : upperCodes other < upperCodes stored) :
    caseInsensitiveLess other name = true := by
  obtain ⟨hbegins, hlength, hdvd⟩ := hwraps
  rw [caseInsensitiveLess_eq, decide_eq_true_iff]
  by_cases hshort : upperCodes other <+: upperCodes name
  · have hinside : other.length < stored.length := by
      by_contra hle
      have hback : upperCodes stored <+: upperCodes other :=
        List.prefix_of_prefix_length_le hbegins hshort
          (by simpa [upperCodes] using Nat.le_of_not_lt hle)
      exact hback.le hbefore
    rw [(compareFrom_of_begins _ hshort).1]
    simp only [Int.bmod]
    omega
  · have hnot : ¬ upperCodes name <+: upperCodes other := by
      intro hlong
      have hle := hlong.length_le
      simp only [upperCodes, List.length_map] at hle
      omega
    rw [compareFrom_lt_iff_of_apart _ hshort hnot]
    exact lt_of_lt_of_le hbefore (not_lt.mp hbegins.le)

end Long

/-! ### The lookups -/

/-- Looking up a name gives the value of the first field of this name, if there is one. -/
def LooksUp (map : HeaderMap) (fields : List (Text × Text)) (name : Text) : Prop :=
  (map.contains name = true ↔ ∃ field ∈ fields, sameName field.1 name = true) ∧
    map.valueOf name = HeadersView.find fields name

theorem looksUp_iff {map : HeaderMap} {fields : List (Text × Text)} {name : Text} :
    LooksUp map fields name ↔ map.valueOf name = HeadersView.find fields name := by
  refine ⟨And.right, fun hvalue => ⟨?_, hvalue⟩⟩
  have hcontains : map.contains name = (map.valueOf name).isSome := by
    rw [HeaderMap.contains, HeaderMap.valueOf, Option.isSome_map]
  rw [hcontains, hvalue, ← HeadersView.contains, contains_iff_exists]

theorem length_eq_of_sameName {first second : Text} (hname : sameName first second = true) :
    first.length = second.length := by
  have hlength := congrArg List.length ((sameName_iff first second).mp hname)
  simpa [upperCodes] using hlength

/-- A long name is found in no map of short names unless one of them wraps onto it. -/
theorem looksUp_of_not_wraps {map : HeaderMap} {fields : List (Text × Text)} {name : Text}
    (hshort : Short fields) (hstores : map.Stores (insertAll fields))
    (hwraps : ∀ field ∈ fields, ¬ Wraps field.1 name) : LooksUp map fields name := by
  rw [looksUp_iff]
  by_cases hname : name.length < 2 ^ 31
  · rw [hstores.valueOf (short_insertAll hshort) hname, find_insertAll]
  · have hnone : map.find caseInsensitiveLess name = none := by
      cases hfind : map.find caseInsensitiveLess name with
      | none => rfl
      | some entry =>
          obtain ⟨hmem, hless, hless'⟩ := SearchTree.mem_of_find hfind
          have hfield := mem_of_mem_insertAll (hstores.perm.mem_iff.mp hmem)
          have hlength := hshort entry hfield
          exact absurd (wraps_of_not_less (by omega) hless hless') (hwraps entry hfield)
    have hother : HeadersView.find fields name = none := by
      rw [HeadersView.find, Option.map_eq_none_iff, List.find?_eq_none]
      intro field hmem hsame
      have hlength := hshort field hmem
      rw [length_eq_of_sameName hsame] at hlength
      exact hname hlength
    rw [HeaderMap.valueOf, hnone, hother]
    rfl

/-- A name that a stored one wraps onto is found where that one is the root. -/
theorem exists_not_looksUp {fields : List (Text × Text)} {name : Text} {field : Text × Text}
    (hshort : Short fields) (hfield : field ∈ fields) (hwraps : Wraps field.1 name) :
    ∃ map : HeaderMap, map.Stores (insertAll fields) ∧ ¬ LooksUp map fields name := by
  obtain ⟨map, hstores⟩ := exists_stores hshort
  -- the map has a name that is the same as that of the field
  have hkept : (HeadersView.find (insertAll fields) field.1).isSome := by
    rw [find_insertAll, ← HeadersView.contains, contains_iff_exists]
    exact ⟨field, hfield, sameName_self _⟩
  obtain ⟨entry, hentry, hsame⟩ := (contains_iff_exists _ _).mp hkept
  have hcodes := (sameName_iff _ _).mp hsame
  have hlength := length_eq_of_sameName hsame
  have hentryWraps : Wraps entry.1 name := by
    rw [Wraps, hcodes, hlength]
    exact hwraps
  obtain ⟨before, after, hsplit⟩ := List.append_of_mem (hstores.perm.mem_iff.mpr hentry)
  have hordered := hstores.ordered
  let root : HeaderMap :=
    .node (SearchTree.ofList before) entry.1 entry.2 (SearchTree.ofList after)
  have hroot : root.entries = map.entries := by
    rw [hsplit]
    simp only [root, SearchTree.entries, SearchTree.entries_ofList]
  have hrootStores : root.Stores (insertAll fields) := hstores.rotate hroot
  refine ⟨root, hrootStores, ?_⟩
  rw [looksUp_iff]
  have hnone : (SearchTree.ofList before).lowerBound caseInsensitiveLess name = none := by
    apply SearchTree.lowerBound_eq_none
    rw [SearchTree.entries_ofList]
    intro other hother
    rw [hsplit, List.pairwise_append] at hordered
    have hmem : other ∈ insertAll fields :=
      hstores.perm.mem_iff.mp (by rw [hsplit]; exact List.mem_append_left _ hother)
    exact less_of_wraps hentryWraps (short_insertAll hshort entry hentry)
      (short_insertAll hshort other hmem) (hordered.2.2 other hother entry List.mem_cons_self)
  obtain ⟨hless, hless'⟩ := not_less_of_wraps hentryWraps
  have hfound : root.valueOf name = some entry.2 := by
    have hbound : root.lowerBound caseInsensitiveLess name = some entry := by
      simp only [root, SearchTree.lowerBound, hless, hnone]
      rfl
    rw [HeaderMap.valueOf, SearchTree.find, hbound, Option.filter_some, hless']
    rfl
  have hother : HeadersView.find fields name = none := by
    rw [HeadersView.find, Option.map_eq_none_iff, List.find?_eq_none]
    intro other hmem hsame'
    have hshortOther := hshort other hmem
    rw [length_eq_of_sameName hsame'] at hshortOther
    obtain ⟨-, hlonger, hdvd⟩ := hentryWraps
    omega
  rw [hfound, hother]
  simp

/-- **The header fields.** Every map that holds what is read from the lines looks a name up as the
fields were written exactly if no field name wraps onto it. -/
theorem parseHeaders_iff {fields : List (Text × Text)}
    (hnames : ∀ field ∈ fields, field.1 ≠ [] ∧ ∀ c ∈ field.1, c ≠ ':' ∧ c ≠ '\r' ∧ c ≠ '\n')
    (hvalues : ∀ field ∈ fields,
      ¬ ['\r', '\n'] <:+: field.2 ∧ ∀ c ∈ field.2.head?, isSpace c = false)
    (hshort : Short fields) {request : HttpRequest} (hfresh : request.headers = [])
    (name : Text) :
    ∃ headers, (parseHeaders (headerLines fields)).exec request =
        (.ok (), { request with headers }) ∧
      (∃ map : HeaderMap, map.Stores headers) ∧
      ((∀ map : HeaderMap, map.Stores headers → LooksUp map fields name) ↔
        ∀ field ∈ fields, ¬ Wraps field.1 name) := by
  refine ⟨insertAll fields, exec_parseHeaders hnames hvalues hfresh, exists_stores hshort, ?_⟩
  constructor
  · intro hall field hfield hwraps
    obtain ⟨map, hstores, hnot⟩ := exists_not_looksUp hshort hfield hwraps
    exact hnot (hall map hstores)
  · intro hwraps map hstores
    exact looksUp_of_not_wraps hshort hstores hwraps

theorem parseHeaders_iff_host :
    ∃ headers, (parseHeaders (headerLines [("Host".toList, "test.com".toList),
          ("hOST".toList, []), ("A-Header".toList, [])])).exec HttpRequest.make =
        (.ok (), { HttpRequest.make with headers }) ∧
      (∃ map : HeaderMap, map.Stores headers) ∧
      ((∀ map : HeaderMap, map.Stores headers → LooksUp map [("Host".toList, "test.com".toList),
          ("hOST".toList, []), ("A-Header".toList, [])] "host".toList) ↔
        ∀ field ∈ [("Host".toList, "test.com".toList), ("hOST".toList, []),
          ("A-Header".toList, [])], ¬ Wraps field.1 "host".toList) :=
  parseHeaders_iff (by decide) (by decide) (by unfold Short; decide) rfl "host".toList

/-- A name that goes on for `n` characters behind the first one. -/
theorem wraps_replicate {n : Nat} (hpos : 0 < n) (hdvd : 2 ^ 32 ∣ n) :
    Wraps ['a'] ('a' :: List.replicate n 'b') := by
  refine ⟨List.cons_prefix_cons.mpr ⟨rfl, List.nil_prefix⟩, ?_, ?_⟩
  · rw [List.length_cons, List.length_cons, List.length_replicate]
    exact Nat.succ_lt_succ hpos
  · rw [List.length_cons, List.length_cons, List.length_replicate]
    exact hdvd

/-- A name of 2^32 + 1 characters is taken for the one character that it begins with. -/
theorem long_name_found :
    ¬ ∀ (fields : List (Text × Text)) (headers : HeadersView) (map : HeaderMap) (name : Text),
      (∀ field ∈ fields, field.1 ≠ [] ∧ ∀ c ∈ field.1, c ≠ ':' ∧ c ≠ '\r' ∧ c ≠ '\n') →
      (∀ field ∈ fields,
        ¬ ['\r', '\n'] <:+: field.2 ∧ ∀ c ∈ field.2.head?, isSpace c = false) →
      (fields.map fun field => field.1.length + field.2.length).sum < 2 ^ 31 →
      (parseHeaders (headerLines fields)).exec HttpRequest.make =
        (.ok (), { HttpRequest.make with headers }) →
      map.Stores headers → LooksUp map fields name := by
  intro hall
  let map : HeaderMap := .node .leaf ['a'] ['1'] .leaf
  have hstores : map.Stores [(['a'], ['1'])] :=
    ⟨List.pairwise_singleton _ _, List.Perm.refl _⟩
  obtain ⟨name, hwraps⟩ : ∃ name, Wraps ['a'] name :=
    ⟨_, wraps_replicate (Nat.two_pow_pos 32) (Nat.dvd_refl _)⟩
  have hlooks := hall [(['a'], ['1'])] [(['a'], ['1'])] map name (by decide) (by decide)
    (by decide) (by decide) hstores
  obtain ⟨hless, hless'⟩ := not_less_of_wraps hwraps
  have hfound : map.contains name = true := by
    simp only [map, HeaderMap.contains, SearchTree.find, SearchTree.lowerBound, hless]
    simp [hless']
  obtain ⟨field, hmem, hsame⟩ := hlooks.1.mp hfound
  obtain rfl := List.mem_singleton.mp hmem
  exact absurd (length_eq_of_sameName hsame) hwraps.2.1.ne

end Liblw.Http
