import Liblw.Http.Message
import Liblw.Proof.ListRoundTrip
import Liblw.Proof.TextLines

/-!
# The framing of a response

A response is written as a status line and header lines between line ends. It is read back as it was
exactly if no part holds a separator that it is written between: then the line ends are those that
were put there, and each line is cut where it was joined.
-/

namespace Liblw.Http

open Liblw.Lib HttpRequest
open Mime (integerText)

/-! ### Fields -/

/-- The fields are those of the lines up to the empty one. -/
theorem decodeFields_eq_some {rounds : Nat} {text body : Text} {fields : List (Text × Text)}
    (hdecode : decodeFields rounds text = some (fields, body)) :
    ∃ lines, text = terminated lines ++ '\r' :: '\n' :: body ∧ (∀ line ∈ lines, lineEnds line = 0) ∧
      lines.map decodeField = fields.map some := by
  induction rounds generalizing text fields with
  | zero => cases hdecode
  | succ rounds ih =>
      rw [decodeFields] at hdecode
      obtain ⟨⟨line, rest⟩, hcut, hline⟩ := Option.bind_eq_some_iff.mp hdecode
      obtain ⟨rfl, hends⟩ := cutLine_eq_some_iff.mp hcut
      dsimp only at hline
      split_ifs at hline with hempty
      · rw [Option.some.injEq, Prod.mk.injEq] at hline
        obtain ⟨rfl, rfl⟩ := hline
        subst hempty
        exact ⟨[], rfl, by simp, rfl⟩
      · obtain ⟨field, hfield, hrest⟩ := Option.bind_eq_some_iff.mp hline
        obtain ⟨⟨fields', body'⟩, hinner, hpair⟩ := Option.map_eq_some_iff.mp hrest
        rw [Prod.mk.injEq] at hpair
        obtain ⟨rfl, rfl⟩ := hpair
        obtain ⟨lines, rfl, hlines, hmap⟩ := ih hinner
        refine ⟨line :: lines, ?_, List.forall_mem_cons.mpr ⟨hends, hlines⟩, ?_⟩
        · rw [terminated_cons, List.append_assoc]
          rfl
        · rw [List.map_cons, List.map_cons, hfield, hmap]

theorem decodeFields_lines {lines : List Text} {fields : List (Text × Text)}
    (hlines : ∀ line ∈ lines, line ≠ [] ∧ lineEnds line = 0)
    (hmap : lines.map decodeField = fields.map some) {rounds : Nat}
    (hrounds : lines.length < rounds)
    (body : Text) :
    decodeFields rounds (terminated lines ++ '\r' :: '\n' :: body) = some (fields, body) := by
  induction lines generalizing fields rounds with
  | nil =>
      obtain ⟨rounds, rfl⟩ := Nat.exists_eq_add_one_of_ne_zero (Nat.ne_of_gt hrounds)
      obtain rfl : fields = [] := List.map_eq_nil_iff.mp hmap.symm
      have hcut : cutLine ('\r' :: '\n' :: body) = some ([], body) :=
        @cutLine_append [] rfl body
      change (cutLine ('\r' :: '\n' :: body)).bind _ = _
      rw [hcut]
      rfl
  | cons line lines ih =>
      obtain ⟨rounds, rfl⟩ :=
        Nat.exists_eq_add_one_of_ne_zero (Nat.ne_of_gt (Nat.zero_lt_of_lt hrounds))
      obtain ⟨⟨hne, hends⟩, hrest⟩ := List.forall_mem_cons.mp hlines
      cases fields with
      | nil => cases hmap
      | cons field fields =>
          rw [List.map_cons, List.map_cons, List.cons.injEq] at hmap
          have hinner := ih hrest hmap.2 (Nat.lt_of_succ_lt_succ hrounds)
          rw [terminated_cons, List.append_assoc, List.cons_append, List.cons_append, decodeFields,
            cutLine_append hends, Option.bind_some]
          dsimp only
          rw [if_neg hne, hmap.1, Option.bind_some, hinner]
          rfl

/-- A field on its line, before the line end. -/
def fieldLine (field : Text × Text) : Text := field.1 ++ ':' :: ' ' :: field.2

theorem headerLines_eq (fields : List (Text × Text)) :
    headerLines fields = terminated (fields.map fieldLine) ++ ['\r', '\n'] := by
  unfold headerLines terminated
  rw [List.flatMap_map]
  congr 1
  apply List.flatMap_congr
  intro field hmem
  simp [headerLine, fieldLine]

theorem not_colon_of_notMem {name : Text} (hname : ':' ∉ name) :
    ∀ c ∈ name, decide (c ≠ ':') = true := by
  intro c hc
  apply decide_eq_true
  rintro rfl
  exact hname hc

theorem decodeField_append {name : Text} (hname : ':' ∉ name) (value : Text) :
    decodeField (name ++ ':' :: value) = some (name, trimBlanks value) := by
  unfold decodeField
  rw [List.dropWhile_append_of_pos (not_colon_of_notMem hname),
    List.dropWhile_cons_of_neg (by simp), List.takeWhile_append_of_pos (not_colon_of_notMem hname),
    List.takeWhile_cons_of_neg (by simp), List.append_nil]

/-- What a reader takes the line of a field for. -/
def readBack (field : Text × Text) : Text × Text :=
  (field.1.takeWhile (· ≠ ':'), ((decodeField (fieldLine field)).getD ([], [])).2)

theorem decodeField_fieldLine (field : Text × Text) :
    decodeField (fieldLine field) = some (readBack field) := by
  obtain ⟨name, value⟩ := field
  by_cases hname : ':' ∈ name
  · obtain ⟨first, rest, rfl, hfirst⟩ := List.eq_append_cons_of_mem hname
    have hline : fieldLine (first ++ ':' :: rest, value) =
        first ++ ':' :: (rest ++ ':' :: ' ' :: value) := by simp [fieldLine]
    rw [readBack, hline, decodeField_append hfirst,
      List.takeWhile_append_of_pos (not_colon_of_notMem hfirst),
      List.takeWhile_cons_of_neg (by simp), List.append_nil]
    rfl
  · have hall := @List.takeWhile_append_of_pos Char _ name [] (not_colon_of_notMem hname)
    rw [List.append_nil, List.takeWhile_nil, List.append_nil] at hall
    rw [readBack, fieldLine, decodeField_append hname, hall]
    rfl

theorem readBack_of_notMem {field : Text × Text} (hname : ':' ∉ field.1) :
    readBack field = (field.1, trimBlanks field.2) := by
  have hdecode := decodeField_fieldLine field
  rw [fieldLine, decodeField_append hname, Option.some.injEq] at hdecode
  rw [← hdecode]
  rfl

theorem trimBlanks_inside (text : Text) : trimBlanks text <:+: text := by
  unfold trimBlanks
  have hinner : (text.dropWhile isBlank).reverse.dropWhile isBlank <:+
      (text.dropWhile isBlank).reverse := List.dropWhile_suffix _
  have houter := List.reverse_prefix.mpr hinner
  rw [List.reverse_reverse] at houter
  exact houter.isInfix.trans (List.dropWhile_suffix _).isInfix

/-- Reading a set of fields back leaves the set as it is only if it leaves each field. -/
theorem readBack_eq_of_perm {fields : List (Text × Text)}
    (hperm : (fields.map readBack).Perm fields) :
    ∀ field ∈ fields, ':' ∉ field.1 ∧ trimBlanks field.2 = field.2 := by
  have hsum : ∀ measure : Text × Text → Nat,
      (fields.map fun field => measure (readBack field)).sum = (fields.map measure).sum := by
    intro measure
    have hmeasures := (hperm.map measure).sum_eq
    rwa [List.map_map] at hmeasures
  have hnames := eq_of_sum_eq (fun field _ => (List.takeWhile_prefix _).length_le)
    (hsum fun field => field.1.length)
  have hfree : ∀ field ∈ fields, ':' ∉ field.1 := by
    intro field hmem hcolon
    have hwhole := (List.takeWhile_prefix _).eq_of_length (hnames field hmem)
    have hkept := List.mem_takeWhile_imp (hwhole.symm ▸ hcolon)
    simp at hkept
  have hvalues := eq_of_sum_eq (f := fun field => (readBack field).2.length)
    (fun field hmem => by
      rw [readBack_of_notMem (hfree field hmem)]
      exact (trimBlanks_inside field.2).length_le)
    (hsum fun field => field.2.length)
  intro field hmem
  refine ⟨hfree field hmem, ?_⟩
  have hlength := hvalues field hmem
  rw [readBack_of_notMem (hfree field hmem)] at hlength
  exact (trimBlanks_inside field.2).eq_of_length hlength

theorem map_readBack {fields : List (Text × Text)}
    (hfields : ∀ field ∈ fields, ':' ∉ field.1 ∧ trimBlanks field.2 = field.2) :
    fields.map readBack = fields := by
  refine (List.map_congr_left ?_).trans (List.map_id fields)
  intro field hmem
  rw [readBack_of_notMem (hfields field hmem).1, (hfields field hmem).2]
  rfl

/-! ### The message -/

/-- The status line, before its end. -/
def statusLine (status : Int) (reason : Text) : Text :=
  HttpResponse.versionText ++ (integerText status ++ ' ' :: reason)

/-- A message as it is written. -/
def messageText (status : Int) (reason : Text) (fields : List (Text × Text)) (body : Text) : Text :=
  HttpResponse.versionText ++ (integerText status ++ ' ' :: (reason ++
    '\r' :: '\n' :: (headerLines fields ++ body)))

theorem messageText_eq (status : Int) (reason : Text) (fields : List (Text × Text)) (body : Text) :
    messageText status reason fields body =
      terminated (statusLine status reason :: fields.map fieldLine) ++ '\r' :: '\n' :: body := by
  rw [messageText, headerLines_eq, terminated_cons, statusLine]
  simp only [List.append_assoc, List.cons_append, List.nil_append]

theorem mem_integerText {status : Int} {c : Char} (hmem : c ∈ integerText status) :
    c = '-' ∨ isDigit c = true := by
  cases status with
  | ofNat magnitude =>
      rw [Int.ofNat_eq_natCast, Mime.integerText_ofNat] at hmem
      exact Or.inr (isDigit_of_mem_toDigits hmem)
  | negSucc magnitude =>
      rw [Mime.integerText_negSucc, List.mem_cons] at hmem
      exact hmem.imp id isDigit_of_mem_toDigits

theorem ne_of_mem_integerText {status : Int} {c d : Char} (hmem : c ∈ integerText status)
    (hsign : d ≠ '-') (hdigit : isDigit d = false) : c ≠ d := by
  rintro rfl
  rcases mem_integerText hmem with rfl | hc
  · exact hsign rfl
  · rw [hc] at hdigit
    cases hdigit

theorem decodeStatus_statusLine {status : Int} (hlower : -2 ^ 63 ≤ status)
    (hupper : status ≤ 2 ^ 63 - 1) (reason : Text) :
    decodeStatus (statusLine status reason) = some (status, reason) := by
  have hcode : ∀ c ∈ integerText status, decide (c ≠ ' ') = true := by
    intro c hc
    exact decide_eq_true (ne_of_mem_integerText hc (by decide) (by decide))
  have hprefix : HttpResponse.versionText.isPrefixOf (statusLine status reason) = true := by
    rw [List.isPrefixOf_iff_prefix]
    exact List.prefix_append _ _
  have hdrop : (statusLine status reason).drop HttpResponse.versionText.length =
      integerText status ++ ' ' :: reason := List.drop_left
  unfold decodeStatus
  rw [if_pos hprefix, hdrop]
  simp only [List.takeWhile_append_of_pos hcode, List.dropWhile_append_of_pos hcode,
    List.takeWhile_cons_of_neg, List.dropWhile_cons_of_neg, ne_eq, not_true_eq_false, decide_false,
    Bool.false_eq_true, not_false_eq_true, List.append_nil,
    Mime.fromCharsInt64_integerText hlower hupper]

/-! ### Line ends inside of the parts -/

/-- A character that belongs to no line end keeps the line ends before it and behind it apart. -/
theorem lineEnds_append_cons {c : Char} (hreturn : c ≠ '\r') (hnewline : c ≠ '\n')
    (first second : Text) : lineEnds (first ++ c :: second) = lineEnds first + lineEnds second := by
  induction first using lineEnds.induct with
  | case1 first ih =>
      rw [List.cons_append, List.cons_append, lineEnds, ih, lineEnds]
      omega
  | case2 d first hne ih =>
      rw [List.cons_append, lineEnds_cons_of_ne, ih, lineEnds_cons_of_ne hne]
      rintro tail hd htail
      cases first with
      | nil => exact hnewline (List.cons.inj htail).1
      | cons e first =>
          obtain ⟨rfl, -⟩ := List.cons.inj htail
          exact hne first hd rfl
  | case3 =>
      rw [List.nil_append, lineEnds_cons_of_ne, lineEnds, Nat.zero_add]
      exact fun tail hc _ => hreturn hc

theorem lineEnds_of_notMem {text : Text} (htext : '\r' ∉ text) : lineEnds text = 0 := by
  rw [lineEnds_eq_zero_iff]
  intro hends
  exact htext (hends.subset List.mem_cons_self)

theorem lineEnds_integerText (number : Int) : lineEnds (integerText number) = 0 := by
  apply lineEnds_of_notMem
  intro hmem
  exact ne_of_mem_integerText hmem (by decide) (by decide) rfl

theorem lineEnds_statusLine (status : Int) (reason : Text) :
    lineEnds (statusLine status reason) = lineEnds reason := by
  have hfront : lineEnds (HttpResponse.versionText ++ integerText status) = 0 := by
    apply lineEnds_of_notMem
    rw [List.mem_append, not_or]
    refine ⟨by decide, ?_⟩
    intro hmem
    exact ne_of_mem_integerText hmem (by decide) (by decide) rfl
  rw [statusLine, ← List.append_assoc, lineEnds_append_cons (by decide) (by decide), hfront,
    Nat.zero_add]

theorem lineEnds_fieldLine (field : Text × Text) :
    lineEnds (fieldLine field) = lineEnds field.1 + lineEnds field.2 := by
  have hblank : lineEnds (' ' :: field.2) = lineEnds field.2 := by
    apply lineEnds_cons_of_ne
    exact fun tail hc _ => absurd hc (by decide)
  rw [fieldLine, lineEnds_append_cons (by decide) (by decide), hblank]

theorem fieldLine_ne_nil (field : Text × Text) : fieldLine field ≠ [] := by
  simp [fieldLine]

theorem decodeField_fieldLines (fields : List (Text × Text)) :
    (fields.map fieldLine).map decodeField = (fields.map readBack).map some := by
  rw [List.map_map, List.map_map]
  exact List.map_congr_left fun field _ => decodeField_fieldLine field

theorem length_le_terminated (lines : List Text) : lines.length ≤ (terminated lines).length := by
  induction lines with
  | nil => simp
  | cons line lines ih =>
      rw [terminated_cons, List.length_append, List.length_cons, List.length_cons,
        List.length_cons]
      omega

/-- Reading back as many fields as were written means that the lines were cut where they were
ended. -/
theorem lines_of_decodeMessage {status : Int} {reason body : Text}
    {fields fields' : List (Text × Text)} (hlength : fields'.length = fields.length)
    (hdecode : decodeMessage (messageText status reason fields body) =
      some ⟨status, reason, fields', body⟩) :
    (∀ line ∈ statusLine status reason :: fields.map fieldLine, lineEnds line = 0) ∧
      (fields.map fieldLine).map decodeField = fields'.map some := by
  rw [decodeMessage] at hdecode
  obtain ⟨⟨line, rest⟩, hcut, hline⟩ := Option.bind_eq_some_iff.mp hdecode
  obtain ⟨⟨status', reason'⟩, hstatus, hrest⟩ := Option.bind_eq_some_iff.mp hline
  obtain ⟨⟨decoded, body'⟩, hfields, hmessage⟩ := Option.map_eq_some_iff.mp hrest
  obtain ⟨-, -, rfl, rfl⟩ := Message.mk.inj hmessage
  obtain ⟨htext, hends⟩ := cutLine_eq_some_iff.mp hcut
  obtain ⟨lines, rfl, hlines, hdecoded⟩ := decodeFields_eq_some hfields
  have hcount :
      (line :: lines).length = (statusLine status reason :: fields.map fieldLine).length := by
    have hlengths := congrArg List.length hdecoded
    rw [List.length_map, List.length_map] at hlengths
    rw [List.length_cons, List.length_cons, List.length_map, hlengths, hlength]
  have hsame : terminated (line :: lines) =
      terminated (statusLine status reason :: fields.map fieldLine) := by
    rw [messageText_eq] at htext
    have hwhole : line ++ '\r' :: '\n' :: (terminated lines ++ '\r' :: '\n' :: body') =
        terminated (line :: lines) ++ '\r' :: '\n' :: body' := by
      rw [terminated_cons, List.append_assoc]
      rfl
    rw [hwhole] at htext
    exact (List.append_cancel_right htext).symm
  have hall : ∀ other ∈ line :: lines, lineEnds other = 0 :=
    List.forall_mem_cons.mpr ⟨hends, hlines⟩
  obtain ⟨rfl, rfl⟩ := List.cons.inj (terminated_unique hall hcount hsame)
  exact ⟨hall, hdecoded⟩

/-- A message without line ends inside of its parts is read back. -/
theorem decodeMessage_messageText {status : Int} (hlower : -2 ^ 63 ≤ status)
    (hupper : status ≤ 2 ^ 63 - 1) {reason : Text} (body : Text) {fields : List (Text × Text)}
    (hreason : lineEnds reason = 0)
    (hfields : ∀ field ∈ fields, lineEnds field.1 = 0 ∧ lineEnds field.2 = 0) :
    decodeMessage (messageText status reason fields body) =
      some ⟨status, reason, fields.map readBack, body⟩ := by
  have hends : lineEnds (statusLine status reason) = 0 := by
    rw [lineEnds_statusLine, hreason]
  have hlines : ∀ line ∈ fields.map fieldLine, line ≠ [] ∧ lineEnds line = 0 := by
    intro line hmem
    obtain ⟨field, hfield, rfl⟩ := List.mem_map.mp hmem
    obtain ⟨hname, hvalue⟩ := hfields field hfield
    exact ⟨fieldLine_ne_nil field, by rw [lineEnds_fieldLine, hname, hvalue]⟩
  have hrounds : (fields.map fieldLine).length <
      (terminated (fields.map fieldLine) ++ '\r' :: '\n' :: body).length + 1 := by
    have hle := length_le_terminated (fields.map fieldLine)
    rw [List.length_append]
    omega
  rw [messageText_eq, terminated_cons, List.append_assoc, List.cons_append, List.cons_append,
    decodeMessage, cutLine_append hends, Option.bind_some]
  dsimp only
  rw [decodeStatus_statusLine hlower hupper, Option.bind_some]
  dsimp only
  rw [decodeFields_lines hlines (decodeField_fieldLines fields) hrounds]
  rfl

/-- A message is read back with as many fields exactly if no line end is inside of its parts. The
fields are then those that its lines are taken for. -/
theorem decodeMessage_messageText_iff {status : Int} (hlower : -2 ^ 63 ≤ status)
    (hupper : status ≤ 2 ^ 63 - 1) {reason body : Text} {fields fields' : List (Text × Text)}
    (hlength : fields'.length = fields.length) :
    decodeMessage (messageText status reason fields body) = some ⟨status, reason, fields', body⟩ ↔
      (lineEnds reason = 0 ∧ ∀ field ∈ fields, lineEnds field.1 = 0 ∧ lineEnds field.2 = 0) ∧
        fields' = fields.map readBack := by
  constructor
  · intro hdecode
    obtain ⟨hends, hdecoded⟩ := lines_of_decodeMessage hlength hdecode
    obtain ⟨hstatus, hlines⟩ := List.forall_mem_cons.mp hends
    refine ⟨⟨?_, ?_⟩, ?_⟩
    · rw [← lineEnds_statusLine status reason]
      exact hstatus
    · intro field hmem
      have hfield := hlines _ (List.mem_map_of_mem hmem)
      rw [lineEnds_fieldLine] at hfield
      omega
    · rw [decodeField_fieldLines] at hdecoded
      exact (List.map_injective_iff.mpr (Option.some_injective _) hdecoded).symm
  · rintro ⟨⟨hreason, hfields⟩, rfl⟩
    exact decodeMessage_messageText hlower hupper body hreason hfields

end Liblw.Http
