import Liblw.Http.WrittenRequest
import Liblw.Proof.Conversation

/-!
# What is written is heard

The head of a request as it is written ends where the search of the reader finds its end, whatever
comes behind it, and is taken apart into what it was written from.
-/

namespace Liblw.Http

open Liblw.Lib Liblw.Io HttpRequest

/-! ### The end of a head -/

/-- Lines as bytes. -/
def lineBytes (lines : List (List UInt8)) : List UInt8 := lines.flatMap (· ++ [13, 10])

theorem lineBytes_cons (line : List UInt8) (lines : List (List UInt8)) (rest : List UInt8) :
    lineBytes (line :: lines) ++ rest = line ++ 13 :: 10 :: (lineBytes lines ++ rest) := by
  simp [lineBytes]

/-- The lines are not empty, and no carriage return is in them. -/
def PlainLines (lines : List (List UInt8)) : Prop := ∀ line ∈ lines, line ≠ [] ∧ 13 ∉ line

theorem PlainLines.tail {line : List UInt8} {lines : List (List UInt8)}
    (hplain : PlainLines (line :: lines)) : PlainLines lines :=
  fun other hmem => hplain other (List.mem_cons_of_mem _ hmem)

/-- What begins with a line end has no line before it. -/
theorem nil_of_lineEnd {lines : List (List UInt8)} (hplain : PlainLines lines)
    {after : List UInt8} (heq : lineBytes lines ++ [13, 10] = 13 :: 10 :: after) : after = [] := by
  cases lines with
  | nil =>
      simp only [lineBytes, List.flatMap_nil, List.nil_append, List.cons.injEq, true_and] at heq
      exact heq.symm
  | cons line lines =>
      obtain ⟨hne, hline⟩ := hplain line List.mem_cons_self
      obtain ⟨c, line, rfl⟩ := List.exists_cons_of_ne_nil hne
      rw [lineBytes_cons, List.cons_append, List.cons.injEq] at heq
      exact absurd (heq.1 ▸ List.mem_cons_self) hline

/-- An empty line comes behind the lines and not before. -/
theorem nil_of_headEnd {lines : List (List UInt8)} (hplain : PlainLines lines)
    {before after : List UInt8}
    (heq : lineBytes lines ++ [13, 10] = before ++ 13 :: 10 :: 13 :: 10 :: after) : after = [] := by
  induction lines generalizing before with
  | nil =>
      have hlength := congrArg List.length heq
      simp only [lineBytes, List.flatMap_nil, List.nil_append, List.length_append,
        List.length_cons, List.length_nil] at hlength
      omega
  | cons line lines ih =>
      have hline := (hplain line List.mem_cons_self).2
      rw [lineBytes_cons, List.append_eq_append_iff] at heq
      rcases heq with ⟨between, rfl, heq⟩ | ⟨back, rfl, heq⟩
      · match between with
        | [] =>
            simp only [List.nil_append, List.cons.injEq, true_and] at heq
            exact nil_of_lineEnd hplain.tail heq
        | [c] =>
            simp only [List.cons_append, List.nil_append, List.cons.injEq] at heq
            exact absurd heq.2.1 (by decide)
        | c :: d :: between =>
            simp only [List.cons_append, List.cons.injEq] at heq
            exact ih hplain.tail heq.2.2
      · cases back with
        | nil =>
            simp only [List.nil_append, List.cons.injEq, true_and] at heq
            exact nil_of_lineEnd hplain.tail heq.symm
        | cons c back =>
            rw [List.cons_append, List.cons.injEq] at heq
            exact absurd (List.mem_append_right _ (heq.1 ▸ List.mem_cons_self)) hline

theorem endsFirstAt_lineBytes {lines : List (List UInt8)} (hplain : PlainLines lines)
    (hne : lines ≠ []) :
    Search.EndsFirstAt Exchange.headEnd (lineBytes lines ++ [13, 10])
      (lineBytes lines ++ [13, 10]).length := by
  constructor
  · refine ⟨le_rfl, ?_⟩
    rw [List.take_length]
    obtain ⟨front, last, rfl⟩ := List.eq_nil_or_concat' lines |>.resolve_left hne
    exact ⟨lineBytes front ++ last, by simp [lineBytes, Exchange.headEnd]⟩
  · rintro earlier hlt ⟨hle, before, hbefore⟩
    have hsplit := List.take_append_drop earlier (lineBytes lines ++ [13, 10])
    rw [← hbefore, List.append_assoc] at hsplit
    have hnil : (lineBytes lines ++ [13, 10]).drop earlier = [] :=
      nil_of_headEnd hplain hsplit.symm
    rw [List.drop_eq_nil_iff] at hnil
    omega

/-! ### The search -/

theorem scan_line {line : List UInt8} (hline : 13 ∉ line) (rest : List UInt8) (i : Nat) :
    Search.scan Exchange.headEnd (line ++ rest) 0 i =
      Search.scan Exchange.headEnd rest 0 (i + line.length) := by
  induction line generalizing i with
  | nil => rfl
  | cons c line ih =>
      rw [List.mem_cons, not_or] at hline
      have hc : c ≠ 13 := Ne.symm hline.1
      rw [List.cons_append, Search.scan]
      simp only [Exchange.headEnd, List.getElem?_cons_zero, if_neg hc]
      rw [← Exchange.headEnd, ih hline.2, List.length_cons]
      congr 1
      omega

/-- Behind a line end the search goes on as if it had not been there, unless another one follows. -/
theorem scan_lineEnd {c : UInt8} (hc : c ≠ 13) (rest : List UInt8) (i : Nat) :
    Search.scan Exchange.headEnd (13 :: 10 :: c :: rest) 0 i =
      Search.scan Exchange.headEnd (c :: rest) 0 (i + 2) := by
  simp [Search.scan, Exchange.headEnd, hc]

theorem scan_headEnd (rest : List UInt8) (i : Nat) :
    Search.scan Exchange.headEnd (13 :: 10 :: 13 :: 10 :: rest) 0 i = some (i + 4) := by
  simp [Search.scan, Exchange.headEnd]

/-- The search finds the empty line, whatever comes behind it. -/
theorem scan_lineBytes {lines : List (List UInt8)} (hplain : PlainLines lines) (hne : lines ≠ [])
    (rest : List UInt8) (i : Nat) :
    Search.scan Exchange.headEnd (lineBytes lines ++ 13 :: 10 :: rest) 0 i =
      some (i + (lineBytes lines).length + 2) := by
  induction lines generalizing i with
  | nil => exact absurd rfl hne
  | cons line lines ih =>
      have hline := (hplain line List.mem_cons_self).2
      have hlength : (lineBytes (line :: lines)).length =
          line.length + 2 + (lineBytes lines).length := by
        simp only [lineBytes, List.flatMap_cons, List.length_append, List.length_cons,
          List.length_nil]
      rw [lineBytes_cons, scan_line hline, hlength]
      cases lines with
      | nil =>
          refine (scan_headEnd rest _).trans (congrArg some ?_)
          simp only [lineBytes, List.flatMap_nil, List.length_nil]
          omega
      | cons next lines =>
          obtain ⟨hnext, hplainNext⟩ := hplain.tail next List.mem_cons_self
          obtain ⟨c, next, rfl⟩ := List.exists_cons_of_ne_nil hnext
          have hc : c ≠ 13 := fun heq => hplainNext (heq ▸ List.mem_cons_self)
          have hih := ih hplain.tail (List.cons_ne_nil _ _) (i + line.length + 2)
          rw [lineBytes_cons, List.cons_append] at hih ⊢
          rw [scan_lineEnd hc, hih]
          refine congrArg some ?_
          omega

/-! ### The bytes of a head -/

theorem toNat_byte {c : Char} (hnarrow : c.toNat < 256) :
    (UInt8.ofNat c.toNat).toNat = c.toNat := by
  rw [UInt8.toNat_ofNat']
  omega

theorem textOfBytes_bytesOfText {text : Text} (hnarrow : ∀ c ∈ text, c.toNat < 256) :
    textOfBytes (bytesOfText text) = text := by
  rw [textOfBytes, bytesOfText, List.map_map]
  refine (List.map_congr_left fun c hc => ?_).trans (List.map_id text)
  rw [Function.comp_apply, toNat_byte (hnarrow c hc), Char.ofNat_toNat]
  rfl

theorem return_notMem_bytesOfText {text : Text} (hnarrow : ∀ c ∈ text, c.toNat < 256)
    (hreturn : '\r' ∉ text) : 13 ∉ bytesOfText text := by
  intro hmem
  obtain ⟨c, hc, hbyte⟩ := List.mem_map.mp hmem
  have hcode := congrArg UInt8.toNat hbyte
  rw [toNat_byte (hnarrow c hc)] at hcode
  have hchar : c = '\r' := by
    rw [← Char.ofNat_toNat c, hcode]
    rfl
  exact hreturn (hchar ▸ hc)

theorem bytesOfText_terminated (lines : List Text) :
    bytesOfText (terminated lines ++ ['\r', '\n']) =
      lineBytes (lines.map bytesOfText) ++ [13, 10] := by
  simp only [bytesOfText, terminated, lineBytes, List.map_append, List.map_flatMap,
    List.flatMap_map]
  rfl

theorem IsWord.narrow {text : Text} (hword : IsWord text) : ∀ c ∈ text, c.toNat < 256 :=
  fun c hc => (hword c hc).2

theorem IsWord.notSpace {text : Text} (hword : IsWord text) : ∀ c ∈ text, isSpace c = false :=
  fun c hc => (hword c hc).1

namespace WrittenRequest

variable (written : WrittenRequest)

theorem isTarget : IsWord written.target := by
  intro c hc
  rw [target, List.mem_append] at hc
  rcases hc with hc | hc
  · exact written.isPath.1 c hc
  · cases hquery : written.query with
    | none =>
        rw [hquery] at hc
        cases hc
    | some query =>
        rw [hquery] at hc
        rcases List.mem_cons.mp hc with rfl | hc
        · exact ⟨rfl, by decide⟩
        · exact written.isQuery query hquery c hc

/-- No line is empty, and none has a carriage return or a wide character. -/
theorem plain_lines : ∀ line ∈ written.lines,
    line ≠ [] ∧ '\r' ∉ line ∧ ∀ c ∈ line, c.toNat < 256 := by
  intro line hmem
  rcases List.mem_cons.mp hmem with rfl | hmem
  · have hparts : ∀ c ∈ written.requestLine,
        c ∈ written.method ∨ c = ' ' ∨ c ∈ written.target ∨ c ∈ written.version := by
      intro c hc
      simp only [requestLine, List.mem_append, List.mem_cons] at hc
      tauto
    have hword : ∀ c ∈ written.requestLine, c ≠ '\r' ∧ c.toNat < 256 := by
      intro c hc
      have hne : ∀ {text : Text}, IsWord text → c ∈ text → c ≠ '\r' ∧ c.toNat < 256 := by
        rintro text hword hmem
        refine ⟨?_, hword.narrow c hmem⟩
        rintro rfl
        exact absurd (hword.notSpace _ hmem) (by decide)
      rcases hparts c hc with hc | rfl | hc | hc
      · exact hne written.isMethod hc
      · decide
      · exact hne written.isTarget hc
      · exact hne written.isVersion hc
    refine ⟨?_, fun hreturn => (hword _ hreturn).1 rfl, fun c hc => (hword c hc).2⟩
    simp [requestLine]
  · obtain ⟨field, hfield, rfl⟩ := List.mem_map.mp hmem
    have hname := (written.areNames field hfield).2
    have hvalue := (written.areValues field hfield).2
    have hkept : ∀ c ∈ fieldLine field, c ≠ '\r' ∧ c.toNat < 256 := by
      intro c hc
      simp only [fieldLine, List.mem_append, List.mem_cons] at hc
      rcases hc with hc | rfl | rfl | hc
      · exact ⟨(hname c hc).1.2.1, (hname c hc).2⟩
      · decide
      · decide
      · exact ⟨(hvalue c hc).1.1, (hvalue c hc).2⟩
    exact ⟨fieldLine_ne_nil field, fun hreturn => (hkept _ hreturn).1 rfl,
      fun c hc => (hkept c hc).2⟩

theorem head_eq : written.head = lineBytes (written.lines.map bytesOfText) ++ [13, 10] :=
  bytesOfText_terminated written.lines

theorem plainLines : PlainLines (written.lines.map bytesOfText) := by
  intro line hmem
  obtain ⟨text, htext, rfl⟩ := List.mem_map.mp hmem
  obtain ⟨hne, hreturn, hnarrow⟩ := written.plain_lines text htext
  exact ⟨by simpa [bytesOfText] using hne, return_notMem_bytesOfText hnarrow hreturn⟩

theorem ends_head :
    Search.EndsFirstAt Exchange.headEnd written.head written.head.length := by
  rw [head_eq]
  exact endsFirstAt_lineBytes written.plainLines (List.cons_ne_nil _ _)

theorem scan_written (rest : List UInt8) :
    Search.scan Exchange.headEnd (written.head ++ rest) 0 0 = some written.head.length := by
  rw [head_eq, List.append_assoc, List.cons_append, List.cons_append, List.nil_append,
    scan_lineBytes written.plainLines (List.cons_ne_nil _ _)]
  refine congrArg some ?_
  simp only [List.length_append, List.length_cons, List.length_nil]
  omega

theorem textOfBytes_head : textOfBytes written.head = written.headText := by
  apply textOfBytes_bytesOfText
  intro c hc
  have hends : ∀ c ∈ ['\r', '\n'], c.toNat < 256 := by decide
  rw [headText, List.mem_append] at hc
  rcases hc with hc | hc
  · obtain ⟨line, hline, hc⟩ := List.mem_flatMap.mp hc
    rcases List.mem_append.mp hc with hc | hc
    · exact (written.plain_lines line hline).2.2 c hc
    · exact hends c hc
  · exact hends c hc

/-! ### The request line -/

/-- The line of a request without a query. -/
theorem exec_plainLine {method path version : Text} (hmethod : ∀ c ∈ method, isSpace c = false)
    (hpath : ∀ c ∈ path, isSpace c = false ∧ c ≠ '?') (hversion : ∀ c ∈ version, isSpace c = false)
    (rest : Text) (request : HttpRequest) :
    (parseMethodLine
        (method ++ ' ' :: (path ++ ' ' :: (version ++ '\r' :: '\n' :: rest)))).exec request =
      (.ok (method.length + 1 + path.length + 1 + version.length + 2), { request with
        method := method
        path := path
        rawPath := path
        httpVersion := version }) := by
  have hview : method ++ ' ' :: (path ++ ' ' :: (version ++ '\r' :: '\n' :: rest)) =
      [] ++ (method ++ ' ' :: ((path ++ ' ' :: version) ++ '\r' :: '\n' :: rest)) := by
    simp
  have hbehind : method ++ ' ' :: (path ++ ' ' :: (version ++ '\r' :: '\n' :: rest)) =
      (method ++ [' ']) ++ (path ++ ' ' :: (version ++ '\r' :: '\n' :: rest)) := by
    simp
  have hlast : method ++ ' ' :: (path ++ ' ' :: (version ++ '\r' :: '\n' :: rest)) =
      (method ++ ' ' :: (path ++ [' '])) ++ (version ++ '\r' :: '\n' :: rest) := by
    simp
  have hnext : method ++ ' ' :: (path ++ ' ' :: (version ++ '\r' :: '\n' :: rest)) =
      (method ++ ' ' :: (path ++ ' ' :: (version ++ ['\r']))) ++ '\n' :: rest := by
    simp
  generalize method ++ ' ' :: (path ++ ' ' :: (version ++ '\r' :: '\n' :: rest)) = view
    at hview hbehind hlast hnext ⊢
  have hnotQuery : ∀ c ∈ path, (isNotSpace c && c ≠ '?') = true := by
    intro c hc
    simp [isNotSpace, hpath c hc]
  obtain ⟨hmethodEnd, hmethodBlank, hmethodText⟩ :=
    word_at hview rfl (isNotSpace_of_word hmethod) (by rfl)
  rw [List.length_nil, Nat.zero_add] at hmethodEnd hmethodBlank hmethodText
  rw [Nat.sub_zero] at hmethodText
  obtain ⟨hpathEnd, hpathBlank, hpathText⟩ :=
    word_at (i := method.length + 1) hbehind (by simp) hnotQuery (by rfl)
  obtain ⟨hversionEnd, hreturn, hversionText⟩ :=
    word_at (i := method.length + 1 + path.length + 1) hlast (by simp; omega)
      (isNotSpace_of_word hversion) (by rfl)
  have hnewline : view[method.length + 1 + path.length + 1 + version.length + 1]? = some '\n' := by
    apply getElem?_piece hnext
    simp only [List.length_append, List.length_cons, List.length_nil]
    omega
  have hlong : ¬ view.length ≤ method.length + 1 + path.length + 1 + version.length + 1 := by
    have hbound := (List.getElem?_eq_some_iff.mp hnewline).1
    omega
  have hnone : ¬ (some ' ' : Option Char) = some '?' := by decide
  unfold parseMethodLine
  simp only [hmethodEnd, hpathEnd, hpathBlank, hnone, if_false, hversionEnd, hmethodText,
    hpathText, hversionText, hreturn, hnewline, hlong, ne_eq, not_true_eq_false, or_self]
  rw [Call.exec_bind_ok (checkIsSpace_blank hmethodBlank request), Call.exec_modify_bind,
    Call.exec_bind_ok (checkIsSpace_blank hpathBlank _)]
  rfl

/-- The parameters that are heard. The query is taken apart with the blank behind it. -/
def heardParameters : HeadersView :=
  written.query.elim [] fun query => parseQueryParams (query ++ [' ']) []

theorem heardParameters_eq_iff :
    written.heardParameters = written.parameters ↔ written.QuerySafe := by
  rw [heardParameters, parameters, QuerySafe]
  cases hquery : written.query with
  | none => simp
  | some query => simp [parseQueryParams_eq_iff query]

/-- The request as it is heard. -/
def heard (length : Int) : HttpRequest :=
  { written.request length with queryParams := written.heardParameters }

theorem heard_eq (hsafe : written.QuerySafe) (length : Int) :
    written.heard length = written.request length := by
  rw [heard, written.heardParameters_eq_iff.mpr hsafe]
  rfl

theorem exec_requestLine (rest : Text) {request : HttpRequest} (hfresh : request.queryParams = []) :
    (parseMethodLine (written.requestLine ++ '\r' :: '\n' :: rest)).exec request =
      (.ok (written.requestLine.length + 2), { request with
        method := written.method
        path := written.path
        rawPath := written.target
        httpVersion := written.version
        queryParams := written.heardParameters }) := by
  have hmethod := written.isMethod.notSpace
  have hversion := written.isVersion.notSpace
  have hpath : ∀ c ∈ written.path, isSpace c = false ∧ c ≠ '?' := fun c hc =>
    ⟨written.isPath.1.notSpace c hc, fun hmark => written.isPath.2 (hmark ▸ hc)⟩
  cases hquery : written.query with
  | none =>
      have hline : written.requestLine ++ '\r' :: '\n' :: rest = written.method ++
          ' ' :: (written.path ++ ' ' :: (written.version ++ '\r' :: '\n' :: rest)) := by
        simp [requestLine, target, hquery]
      have hlength : written.method.length + 1 + written.path.length + 1 + written.version.length +
          2 = written.requestLine.length + 2 := by
        simp [requestLine, target, hquery]
        omega
      rw [hline, exec_plainLine hmethod hpath hversion, hlength, target, heardParameters, hquery]
      simp [hfresh]
  | some query =>
      have hline : written.requestLine ++ '\r' :: '\n' :: rest =
          methodLine written.method written.path query written.version rest := by
        simp [requestLine, target, hquery, methodLine]
      have hlength : (methodLine written.method written.path query written.version []).length =
          written.requestLine.length + 2 := by
        simp [requestLine, target, hquery, methodLine]
        omega
      rw [hline,
        exec_parseMethodLine hmethod hpath (written.isQuery query hquery).notSpace hversion,
        hlength, hfresh, target, heardParameters, hquery]
      rfl

theorem headText_eq :
    written.headText = written.requestLine ++ '\r' :: '\n' :: headerLines written.fields := by
  rw [headText, lines, terminated_cons, headerLines_eq, List.append_assoc]
  rfl

theorem drop_headText :
    written.headText.drop (written.requestLine.length + 2) = headerLines written.fields := by
  have hsplit : written.headText =
      (written.requestLine ++ ['\r', '\n']) ++ headerLines written.fields := by
    rw [headText_eq, List.append_assoc]
    rfl
  exact drop_piece hsplit (by simp)

/-- Only the length is left to be read. -/
theorem exec_parseHead :
    (parseHead (textOfBytes written.head)).exec HttpRequest.make =
      parseContentLength.exec (written.heard (-1)) := by
  have hnames : ∀ field ∈ written.fields,
      field.1 ≠ [] ∧ ∀ c ∈ field.1, c ≠ ':' ∧ c ≠ '\r' ∧ c ≠ '\n' := fun field hfield =>
    ⟨(written.areNames field hfield).1, fun c hc => ((written.areNames field hfield).2 c hc).1⟩
  have hvalues : ∀ field ∈ written.fields,
      ¬ ['\r', '\n'] <:+: field.2 ∧ ∀ c ∈ field.2.head?, isSpace c = false := by
    intro field hfield
    obtain ⟨hhead, hkept⟩ := written.areValues field hfield
    refine ⟨fun hends => ?_, hhead⟩
    exact (hkept '\r' (hends.subset List.mem_cons_self)).1.1 rfl
  rw [textOfBytes_head, parseHead, Call.exec_modify_bind]
  have hline := @exec_requestLine written (headerLines written.fields)
    { HttpRequest.make with rawHeader := written.headText } rfl
  rw [← headText_eq] at hline
  rw [Call.exec_bind_ok hline, drop_headText,
    Call.exec_bind_ok (exec_parseHeaders hnames hvalues rfl)]
  rfl

/-! ### The length -/

variable {written}

theorem find_request (length : Int) (name : Text) :
    (written.request length).headers.find name = HeadersView.find written.fields name :=
  find_insertAll written.fields name

theorem find_heard (length : Int) (name : Text) :
    (written.heard length).headers.find name = HeadersView.find written.fields name :=
  find_request length name

theorem exec_parseContentLength_of_announces {length : Nat} (hlength : written.Announces length) :
    parseContentLength.exec (written.heard (-1)) = (.ok (), written.heard length) := by
  have hfind := @find_heard written (-1) "content-length".toList
  rw [Announces] at hlength
  cases hfield : HeadersView.find written.fields "content-length".toList with
  | none =>
      rw [hfield] at hlength hfind
      rw [exec_parseContentLength_none hfind, hlength]
      rfl
  | some text =>
      rw [hfield] at hlength hfind
      obtain ⟨hisLength, hnumber⟩ := hlength
      have hvalue : (fromCharsInt64 text).value.getD (written.heard (-1)).contentLength =
          length := by
        obtain ⟨hnumeral, hlower, hupper⟩ := hisLength
        rw [fromCharsInt64_eq, fromCharsSigned_of_isNumeral hnumeral,
          if_pos ⟨by omega, hupper⟩, Option.getD_some, hnumber]
      rw [exec_parseContentLength_some hfind hvalue, if_neg]
      · rfl
      · rw [← hvalue]
        exact (isLength_iff rfl text).mp hisLength

theorem exec_parseContentLength_of_not_announces
    (hnone : ∀ length : Nat, ¬ written.Announces length) :
    ∃ text length, HeadersView.find written.fields "content-length".toList = some text ∧
      parseContentLength.exec (written.heard (-1)) =
        (refusedLength text, written.heard length) := by
  have hfind := @find_heard written (-1) "content-length".toList
  simp only [Announces] at hnone
  cases hfield : HeadersView.find written.fields "content-length".toList with
  | none =>
      rw [hfield] at hnone
      exact absurd rfl (hnone 0)
  | some text =>
      rw [hfield] at hnone hfind
      have hnot : ¬ IsLength text := fun hlength =>
        hnone (numeralValue text).toNat ⟨hlength, (Int.toNat_of_nonneg hlength.2.1).symm⟩
      rw [@isLength_iff (written.heard (-1)) rfl, not_not] at hnot
      have hexec := exec_parseContentLength_some hfind rfl
      rw [if_pos hnot] at hexec
      exact ⟨text, _, rfl, hexec⟩

end WrittenRequest

/-- A letter as it comes over a connection. -/
def Letter.sent (letter : Letter) : SentRequest where
  head := letter.written.head
  body := letter.body
  request := letter.written.request letter.body.length
  ends := letter.written.ends_head
  parses := by
    rw [letter.written.exec_parseHead, ← letter.written.heard_eq letter.safe]
    exact WrittenRequest.exec_parseContentLength_of_announces letter.announces
  keepsAlive := by
    have hfind := (WrittenRequest.find_request letter.body.length Serving.connectionName).trans
      letter.keepsAlive
    refine ⟨?_, hfind⟩
    rw [HttpRequest.hasHeader, HeadersView.contains, hfind]
    rfl
  announces := rfl

/-- The head of a letter is found where the buffers have room for a block. -/
theorem Letter.findsHead (letter : Letter) {flags : ReadFlags} {connection : Stream}
    {later : List UInt8} (hsent : connection.rest = letter.bytes ++ later)
    (hinitial : 0 < flags.initialReadBufferSize)
    (hroom : flags.initialReadBufferSize + flags.readBlockSize ≤ flags.maximumReadBufferSize)
    (hmaximum : flags.maximumReadBufferSize < 2 ^ 63) : FindsHead flags letter.sent connection := by
  refine ⟨?_, hinitial, hroom, Or.inl hmaximum⟩
  apply attempt_of_scan letter.sent
  rw [hsent, Letter.bytes, List.append_assoc]
  exact letter.written.scan_written _

/-- `POST /p` or `POST /p?a=1&b`, with the fields. -/
def posted (queried : Bool) (fields : List (Text × Text))
    (hnames : ∀ field ∈ fields, IsName field.1) (hvalues : ∀ field ∈ fields, IsValue field.2) :
    WrittenRequest where
  method := "POST".toList
  path := "/p".toList
  query := if queried then some "a=1&b".toList else none
  version := "H".toList
  fields
  isMethod := by decide
  isPath := by decide
  isQuery := by cases queried <;> decide
  isVersion := by decide
  areNames := hnames
  areValues := hvalues

theorem querySafe_posted (queried : Bool) {fields : List (Text × Text)}
    (hnames : ∀ field ∈ fields, IsName field.1) (hvalues : ∀ field ∈ fields, IsValue field.2) :
    (posted queried fields hnames hvalues).QuerySafe := by
  rw [← WrittenRequest.heardParameters_eq_iff]
  cases queried <;> rfl

/-- A request with four bytes of body, and one with none. -/
def fourBytes : Letter where
  written := posted false [("Connection".toList, "keep-alive".toList),
    ("Content-Length".toList, "4".toList)] (by decide) (by decide)
  body := [112, 105, 110, 103]
  safe := querySafe_posted _ _ _
  keepsAlive := by decide
  announces := ⟨⟨Or.inl (by decide), by decide, by decide⟩, by decide⟩

def noBytes : Letter where
  written := posted true [("Connection".toList, "keep-alive".toList)] (by decide) (by decide)
  body := []
  safe := querySafe_posted _ _ _
  keepsAlive := by decide
  announces := rfl

/-- The first read brings the head and two bytes of the body. -/
def twoLetters : Stream := ⟨fourBytes.bytes ++ noBytes.bytes, fun _ => 58, 0⟩

set_option maxRecDepth 8000 in
theorem ends_letters :
    EndsWithRead ⟨128, 1024, 128⟩ noPatterns oneRoute fourBytes.sent (plainHandlers true)
        twoLetters ∧
      EndsWithRead ⟨128, 1024, 128⟩ noPatterns oneRoute noBytes.sent (plainHandlers false)
        (runOnce ⟨128, 1024, 128⟩ zeroAllocator noPatterns (fun _ => []) oneRoute
          (plainHandlers true) twoLetters).2.2 := by
  decide

section Conversation

variable {E χ : Type}

end Conversation

end Liblw.Http
