import Liblw.Http.HeadText
import Liblw.Proof.RouteCaptures

/-!
# The request line

The line is cut at its blanks and at the question mark. The query is handed on with the blank behind
it, which `parse_query_params` takes for a part of the last piece.
-/

namespace Liblw.Http

open Liblw.Lib HttpRequest

/-! ### Scanning a text from its middle -/

section Middle

variable {view before piece rest : Text} {i : Nat}

theorem passWhile_piece {wanted : Char → Bool} (hview : view = before ++ (piece ++ rest))
    (hi : i = before.length) (hpiece : ∀ c ∈ piece, wanted c = true)
    (hrest : ∀ c ∈ rest.head?, wanted c = false) :
    passWhile wanted view i = i + piece.length := by
  have hstop : rest.takeWhile wanted = [] := by
    cases rest with
    | nil => rfl
    | cons c rest =>
        have hc : wanted c = false := hrest c rfl
        exact List.takeWhile_cons_of_neg (by simp [hc])
  rw [passWhile, hview, hi, List.drop_left, List.takeWhile_append_of_pos hpiece, hstop,
    List.append_nil]

theorem substr_piece {count : Nat} (hview : view = before ++ (piece ++ rest))
    (hi : i = before.length) (hcount : count = piece.length) : substr view i count = piece := by
  rw [substr, hview, hi, hcount, List.drop_left, List.take_left]

theorem drop_piece (hview : view = before ++ rest) (hi : i = before.length) :
    view.drop i = rest := by
  rw [hview, hi, List.drop_left]

theorem getElem?_piece {c : Char} (hview : view = before ++ c :: rest) (hi : i = before.length) :
    view[i]? = some c := by
  rw [hview, hi, List.getElem?_append_right le_rfl, Nat.sub_self, List.getElem?_cons_zero]

/-- A word that begins at `i` and that one character ends. -/
theorem word_at {wanted : Char → Bool} {word : Text} {c : Char}
    (hview : view = before ++ (word ++ c :: rest)) (hi : i = before.length)
    (hword : ∀ d ∈ word, wanted d = true) (hc : wanted c = false) :
    passWhile wanted view i = i + word.length ∧ view[i + word.length]? = some c ∧
      substr view i (i + word.length - i) = word := by
  refine ⟨passWhile_piece hview hi hword ?_, ?_, ?_⟩
  · intro d hd
    obtain rfl := Option.some.inj hd
    exact hc
  · have hbehind : view = (before ++ word) ++ c :: rest := by
      rw [hview, List.append_assoc]
    apply getElem?_piece hbehind
    rw [hi, List.length_append]
  · exact substr_piece hview hi (Nat.add_sub_cancel_left _ _)

end Middle

theorem isNotSpace_of_word {word : Text} (hword : ∀ c ∈ word, isSpace c = false) :
    ∀ c ∈ word, isNotSpace c = true := by
  intro c hc
  rw [isNotSpace, hword c hc, Bool.not_false]

theorem checkIsSpace_blank {view : Text} {i : Nat} (hblank : view[i]? = some ' ')
    (state : HttpRequest) :
    (checkIsSpace view i).exec state = (.ok (), state) := by
  unfold checkIsSpace
  rw [hblank]
  rfl

/-! ### The pieces of a query -/

/-- The scan after a piece that it has read from its start on. -/
def scanned (start : Nat) (piece : Text) : QueryScan :=
  if '=' ∈ piece then
    ⟨false, start, start + (pieceKey piece).length, start + (pieceKey piece).length + 1⟩
  else ⟨true, start, start + (piece.length - 1), start + piece.length⟩

theorem parseQueryLoop_value {params value rest : Text} (hvalue : '&' ∉ value) (i : Nat)
    (keyStart keyEnd valueStart : Nat) (pairs : HeadersView) :
    parseQueryLoop params i (value ++ rest) ⟨false, keyStart, keyEnd, valueStart⟩ pairs =
      parseQueryLoop params (i + value.length) rest ⟨false, keyStart, keyEnd, valueStart⟩
        pairs := by
  induction value generalizing i with
  | nil => rfl
  | cons c value ih =>
      rw [List.mem_cons, not_or] at hvalue
      rw [List.cons_append, parseQueryLoop]
      dsimp only [Bool.false_eq_true, if_false]
      rw [if_neg (Ne.symm hvalue.1), if_neg (by simp), ih hvalue.2, List.length_cons]
      congr 1
      omega

theorem parseQueryLoop_key {params piece rest : Text} (hpiece : '&' ∉ piece) (i : Nat)
    (keyStart : Nat) (pairs : HeadersView) :
    ∀ keyEnd valueStart,
      parseQueryLoop params i (piece ++ rest) ⟨true, keyStart, keyEnd, valueStart⟩ pairs =
        parseQueryLoop params (i + piece.length) rest
          (if '=' ∈ piece then
            ⟨false, keyStart, i + (pieceKey piece).length, i + (pieceKey piece).length + 1⟩
          else if piece = [] then ⟨true, keyStart, keyEnd, valueStart⟩
          else ⟨true, keyStart, i + (piece.length - 1), i + piece.length⟩) pairs := by
  induction piece generalizing i with
  | nil =>
      intro keyEnd valueStart
      rfl
  | cons c piece ih =>
      intro keyEnd valueStart
      rw [List.mem_cons, not_or] at hpiece
      rw [List.cons_append, parseQueryLoop]
      dsimp only
      rw [if_neg (Ne.symm hpiece.1)]
      by_cases hc : c = '='
      · subst hc
        have hkey : pieceKey ('=' :: piece) = [] := List.takeWhile_cons_of_neg (by simp)
        rw [hkey]
        simp only [if_true, ne_eq, not_true_eq_false, decide_false, List.mem_cons, true_or,
          List.length_nil, Nat.add_zero]
        rw [parseQueryLoop_value hpiece.2, List.length_cons]
        congr 1
        omega
      · have hkey : pieceKey (c :: piece) = c :: pieceKey piece :=
          List.takeWhile_cons_of_pos (by simp [hc])
        simp only [if_true, ne_eq, hc, not_false_eq_true, decide_true]
        rw [ih hpiece.2, hkey]
        have hmem : '=' ∈ c :: piece ↔ '=' ∈ piece := by
          simp [Ne.symm hc]
        simp only [hmem, List.length_cons, reduceCtorEq, if_false]
        congr 1
        · omega
        · split_ifs with heq hnil
          · congr 1 <;> omega
          · subst hnil
            simp
          · have hpos := List.length_pos_iff.mpr hnil
            congr 1 <;> omega

theorem parseQueryLoop_piece {params piece rest : Text} (hpiece : '&' ∉ piece) (start : Nat)
    (pairs : HeadersView) :
    parseQueryLoop params start (piece ++ rest) ⟨true, start, start, start⟩ pairs =
      parseQueryLoop params (start + piece.length) rest (scanned start piece) pairs := by
  rw [parseQueryLoop_key hpiece, scanned]
  congr 1
  split_ifs with heq hnil
  · rfl
  · subst hnil
    rfl
  · rfl

theorem not_equals_of_notMem {piece : Text} (hpiece : '=' ∉ piece) :
    ∀ c ∈ piece, decide (c ≠ '=') = true := by
  intro c hc
  apply decide_eq_true
  rintro rfl
  exact hpiece hc

theorem pieceKey_of_notMem {piece : Text} (hpiece : '=' ∉ piece) : pieceKey piece = piece := by
  have hall := @List.takeWhile_append_of_pos Char _ piece [] (not_equals_of_notMem hpiece)
  rwa [List.append_nil, List.takeWhile_nil, List.append_nil] at hall

theorem pieceValue_of_notMem {piece : Text} (hpiece : '=' ∉ piece) : pieceValue piece = [] := by
  have hall := @List.dropWhile_append_of_pos Char _ piece [] (not_equals_of_notMem hpiece)
  rw [List.append_nil, List.dropWhile_nil] at hall
  rw [pieceValue, hall, List.tail_nil]

theorem pieceKey_append {key : Text} (hkey : '=' ∉ key) (value : Text) :
    pieceKey (key ++ '=' :: value) = key := by
  rw [pieceKey, List.takeWhile_append_of_pos (not_equals_of_notMem hkey),
    List.takeWhile_cons_of_neg (by simp), List.append_nil]

theorem pieceValue_append {key : Text} (hkey : '=' ∉ key) (value : Text) :
    pieceValue (key ++ '=' :: value) = value := by
  rw [pieceValue, List.dropWhile_append_of_pos (not_equals_of_notMem hkey),
    List.dropWhile_cons_of_neg (by simp), List.tail_cons]

/-- Inserting a key that stands before a value of the view. -/
theorem insertViewPairs_eq {view before key middle value rest : Text}
    (hview : view = before ++ (key ++ (middle ++ (value ++ rest)))) (pairs : HeadersView) :
    insertViewPairs view before.length (before.length + key.length)
        (before.length + key.length + middle.length)
        (before.length + key.length + middle.length + value.length) pairs =
      if key = [] then pairs else pairs.insert key value := by
  have hkey : substr view before.length (before.length + key.length - before.length) = key := by
    exact substr_piece hview rfl (Nat.add_sub_cancel_left _ _)
  have hvalue : substr view (before.length + key.length + middle.length)
      (before.length + key.length + middle.length + value.length -
        (before.length + key.length + middle.length)) = value := by
    have hmiddle : view = (before ++ key ++ middle) ++ (value ++ rest) := by
      rw [hview]
      simp
    apply substr_piece hmiddle
    · rw [List.length_append, List.length_append]
    · exact Nat.add_sub_cancel_left _ _
  unfold insertViewPairs
  by_cases hnil : key = []
  · rw [if_pos hnil, if_pos (by simp [hnil])]
  · have hpos := List.length_pos_iff.mpr hnil
    rw [if_neg hnil, if_neg (by omega), hkey]
    by_cases hempty : value = []
    · rw [if_pos (by simp [hempty]), hempty]
    · have hpos' := List.length_pos_iff.mpr hempty
      rw [if_neg (by omega), hvalue]

/-- Where a piece ends, the scan tells its key and its value. -/
theorem insertViewPairs_scanned {params before piece rest : Text}
    (hparams : params = before ++ (piece ++ rest)) (pairs : HeadersView) (stop : Nat)
    (hstop : stop = before.length + piece.length) :
    insertViewPairs params before.length
        (if (scanned before.length piece).parsingKey then stop
          else (scanned before.length piece).keyEnd)
        (if (scanned before.length piece).parsingKey then stop + 1
          else (scanned before.length piece).valueStart) stop pairs =
      insertPiece pairs piece := by
  subst hstop
  by_cases hmem : '=' ∈ piece
  · rw [scanned, if_pos hmem]
    obtain ⟨key, value, rfl, hkey⟩ := List.eq_append_cons_of_mem hmem
    have hview : params = before ++ (key ++ (['='] ++ (value ++ rest))) := by
      rw [hparams]
      simp
    have hlength : before.length + (key ++ '=' :: value).length =
        before.length + key.length + ['='].length + value.length := by
      rw [List.length_append, List.length_cons, List.length_singleton]
      omega
    rw [insertPiece, pieceKey_append hkey, pieceValue_append hkey, hlength]
    exact insertViewPairs_eq hview pairs
  · rw [scanned, if_neg hmem, insertPiece, pieceKey_of_notMem hmem, pieceValue_of_notMem hmem]
    dsimp only [if_true]
    have hview : params = before ++ (piece ++ ([] ++ ([] ++ rest))) := hparams
    rw [← insertViewPairs_eq hview]
    unfold insertViewPairs
    simp

/-- A piece is taken at the separator behind it. -/
theorem parseQueryLoop_separated {params before piece rest : Text}
    (hparams : params = before ++ (piece ++ '&' :: rest)) (hpiece : '&' ∉ piece)
    (pairs : HeadersView) :
    parseQueryLoop params before.length (piece ++ '&' :: rest)
        ⟨true, before.length, before.length, before.length⟩ pairs =
      parseQueryLoop params (before ++ piece ++ ['&']).length rest
        ⟨true, (before ++ piece ++ ['&']).length, (before ++ piece ++ ['&']).length,
          (before ++ piece ++ ['&']).length⟩ (insertPiece pairs piece) := by
  have hlength : (before ++ piece ++ ['&']).length = before.length + piece.length + 1 := by
    rw [List.length_append, List.length_append, List.length_singleton]
  have hstart : (scanned before.length piece).keyStart = before.length := by
    unfold scanned
    split_ifs <;> rfl
  rw [parseQueryLoop_piece hpiece, parseQueryLoop, hlength,
    ← insertViewPairs_scanned hparams pairs _ rfl, if_pos rfl]
  cases (scanned before.length piece).parsingKey with
  | true => simp [hstart]
  | false => simp [hstart]

/-- The last piece with the blank behind it. -/
def insertLast (pairs : HeadersView) (piece : Text) : HeadersView :=
  if '=' ∈ piece ∧ pieceKey piece ≠ [] then
    pairs.insert (pieceKey piece) (pieceValue piece ++ [' '])
  else insertPiece pairs piece

theorem parseQueryLoop_last {params before piece : Text}
    (hparams : params = before ++ (piece ++ [' '])) (hpiece : '&' ∉ piece) (pairs : HeadersView) :
    parseQueryLoop params before.length (piece ++ [' '])
        ⟨true, before.length, before.length, before.length⟩ pairs = insertLast pairs piece := by
  have hblank : '&' ∉ piece ++ [' '] := by simp [hpiece]
  have hloop := @parseQueryLoop_piece params (piece ++ [' ']) [] hblank before.length pairs
  rw [List.append_nil] at hloop
  have hlength : before.length + (piece ++ [' ']).length = before.length + piece.length + 1 := by
    rw [List.length_append, List.length_singleton]
    omega
  rw [hloop, parseQueryLoop, insertLast, insertPiece]
  by_cases hmem : '=' ∈ piece
  · -- the blank belongs to the value
    obtain ⟨key, value, rfl, hkey⟩ := List.eq_append_cons_of_mem hmem
    have hpieceBlank : key ++ '=' :: value ++ [' '] = key ++ '=' :: (value ++ [' ']) := by simp
    rw [scanned, if_pos (by simp), hpieceBlank, pieceKey_append hkey, pieceKey_append hkey,
      pieceValue_append hkey, if_pos (by simp)]
    have hview : params = before ++ (key ++ (['='] ++ ((value ++ [' ']) ++ []))) := by
      rw [hparams]
      simp
    have hstop : before.length + (key ++ '=' :: (value ++ [' '])).length =
        before.length + key.length + ['='].length + (value ++ [' ']).length := by
      simp only [List.length_append, List.length_cons, List.length_nil]
      omega
    rw [hstop]
    refine (insertViewPairs_eq hview pairs).trans ?_
    by_cases hnil : key = []
    · simp [hnil]
    · simp [hnil]
  · -- the key ends before the last character, which is the blank
    have hscanned : scanned before.length (piece ++ [' ']) =
        ⟨true, before.length, before.length + piece.length,
          before.length + piece.length + [' '].length⟩ := by
      rw [scanned, if_neg (by simp [hmem]), List.length_append, List.length_singleton,
        Nat.add_sub_cancel, Nat.add_assoc]
    have hview : params = before ++ (piece ++ ([' '] ++ ([] ++ []))) := hparams
    have hinsert := insertViewPairs_eq hview pairs
    rw [List.length_nil, Nat.add_zero] at hinsert
    rw [hscanned, hlength, if_pos (by simp; omega), if_neg (by simp [hmem]),
      pieceKey_of_notMem hmem, pieceValue_of_notMem hmem]
    exact hinsert

/-- The pieces are taken in turn. -/
theorem parseQueryLoop_pieces {params before query : Text} {pieces : List Text} {last : Text}
    (hparams : params = before ++ (query ++ [' '])) (hsplit : query.splitOn '&' = pieces ++ [last])
    (pairs : HeadersView) :
    parseQueryLoop params before.length (query ++ [' '])
        ⟨true, before.length, before.length, before.length⟩ pairs =
      insertLast (pieces.foldl insertPiece pairs) last := by
  induction pieces generalizing before query pairs with
  | nil =>
      by_cases hmem : '&' ∈ query
      · obtain ⟨piece, rest, rfl, hpiece⟩ := List.eq_append_cons_of_mem hmem
        rw [List.splitOn_append_cons_self_of_not_mem hpiece, List.nil_append,
          List.cons.injEq] at hsplit
        exact absurd hsplit.2 (List.splitOn_ne_nil _ _)
      · rw [List.splitOn_eq_singleton hmem, List.nil_append, List.cons.injEq] at hsplit
        obtain rfl := hsplit.1
        exact parseQueryLoop_last hparams hmem pairs
  | cons piece pieces ih =>
      by_cases hmem : '&' ∈ query
      · obtain ⟨first, rest, rfl, hfirst⟩ := List.eq_append_cons_of_mem hmem
        rw [List.splitOn_append_cons_self_of_not_mem hfirst, List.cons_append,
          List.cons.injEq] at hsplit
        obtain ⟨rfl, hrest⟩ := hsplit
        have hview : params = before ++ (first ++ '&' :: (rest ++ [' '])) := by
          rw [hparams]
          simp
        have hnext : params = before ++ first ++ ['&'] ++ (rest ++ [' ']) := by
          rw [hparams]
          simp
        rw [List.append_assoc, List.cons_append, parseQueryLoop_separated hview hfirst,
          List.foldl_cons]
        exact ih hnext hrest _
      · rw [List.splitOn_eq_singleton hmem, List.cons_append, List.cons.injEq] at hsplit
        exact absurd hsplit.2.symm (by simp)

/-! ### The request line -/

section Line

variable {method path query version : Text} (rest : Text)

theorem methodLine_method (hmethod : ∀ c ∈ method, isSpace c = false) :
    passWhile isNotSpace (methodLine method path query version rest) 0 = method.length ∧
      (methodLine method path query version rest)[method.length]? = some ' ' ∧
      substr (methodLine method path query version rest) 0 method.length = method := by
  have hview : methodLine method path query version rest = [] ++ (method ++
      ' ' :: (path ++ '?' :: (query ++ ' ' :: (version ++ '\r' :: '\n' :: rest)))) := rfl
  have hword := word_at hview rfl (isNotSpace_of_word hmethod) (by rfl)
  rwa [List.length_nil, Nat.zero_add, Nat.sub_zero] at hword

/-- The path ends at the question mark. -/
theorem methodLine_path (hpath : ∀ c ∈ path, isSpace c = false ∧ c ≠ '?') :
    passWhile (fun c => isNotSpace c && c ≠ '?') (methodLine method path query version rest)
        (method.length + 1) = method.length + 1 + path.length ∧
      (methodLine method path query version rest)[method.length + 1 + path.length]? = some '?' ∧
      substr (methodLine method path query version rest) (method.length + 1)
        (method.length + 1 + path.length - (method.length + 1)) = path := by
  have hview : methodLine method path query version rest = (method ++ [' ']) ++ (path ++
      '?' :: (query ++ ' ' :: (version ++ '\r' :: '\n' :: rest))) := by
    simp [methodLine]
  have hnotSpace : ∀ c ∈ path, (isNotSpace c && c ≠ '?') = true := by
    intro c hc
    simp [isNotSpace, hpath c hc]
  have hlength : method.length + 1 = (method ++ [' ']).length := by
    rw [List.length_append, List.length_singleton]
  exact word_at hview hlength hnotSpace (by rfl)

theorem methodLine_query (hquery : ∀ c ∈ query, isSpace c = false) :
    passWhile isNotSpace (methodLine method path query version rest)
        (method.length + 1 + path.length) =
          method.length + 1 + path.length + (query.length + 1) ∧
      (methodLine method path query version rest)[method.length + 1 + path.length +
        (query.length + 1)]? = some ' ' := by
  have hview : methodLine method path query version rest = (method ++ ' ' :: path) ++
      (('?' :: query) ++ ' ' :: (version ++ '\r' :: '\n' :: rest)) := by
    simp [methodLine]
  have hmarked : ∀ c ∈ '?' :: query, isNotSpace c = true :=
    List.forall_mem_cons.mpr ⟨rfl, isNotSpace_of_word hquery⟩
  have hlength : method.length + 1 + path.length = (method ++ ' ' :: path).length := by
    simp only [List.length_append, List.length_cons]
    omega
  have hword := word_at hview hlength hmarked (by rfl)
  rw [List.length_cons] at hword
  exact ⟨hword.1, hword.2.1⟩

/-- What is handed on as the query has the blank behind it. -/
theorem methodLine_queryText :
    substr (methodLine method path query version rest) (method.length + 1 + path.length + 1)
      (method.length + 1 + path.length + (query.length + 1) -
        (method.length + 1 + path.length)) = query ++ [' '] := by
  have hview : methodLine method path query version rest = (method ++ ' ' :: (path ++ ['?'])) ++
      ((query ++ [' ']) ++ (version ++ '\r' :: '\n' :: rest)) := by
    simp [methodLine]
  apply substr_piece hview
  · simp only [List.length_append, List.length_cons, List.length_nil]
    omega
  · simp only [List.length_append, List.length_cons, List.length_nil]
    omega

theorem methodLine_rawPath :
    substr (methodLine method path query version rest) (method.length + 1)
      (method.length + 1 + path.length + (query.length + 1) - (method.length + 1)) =
        path ++ '?' :: query := by
  have hview : methodLine method path query version rest = (method ++ [' ']) ++
      ((path ++ '?' :: query) ++ ' ' :: (version ++ '\r' :: '\n' :: rest)) := by
    simp [methodLine]
  apply substr_piece hview List.length_append.symm
  simp only [List.length_append, List.length_cons]
  omega

theorem methodLine_version (hversion : ∀ c ∈ version, isSpace c = false) :
    let start := method.length + 1 + path.length + (query.length + 1) + 1
    passWhile isNotSpace (methodLine method path query version rest) start =
        start + version.length ∧
      (methodLine method path query version rest)[start + version.length]? = some '\r' ∧
      substr (methodLine method path query version rest) start
        (start + version.length - start) = version := by
  have hview : methodLine method path query version rest =
      (method ++ ' ' :: (path ++ '?' :: (query ++ [' ']))) ++ (version ++
        '\r' :: '\n' :: rest) := by
    simp [methodLine]
  refine word_at hview ?_ (isNotSpace_of_word hversion) (by rfl)
  simp only [List.length_append, List.length_cons, List.length_nil]
  omega

theorem methodLine_newline :
    (methodLine method path query version rest)[method.length + 1 + path.length +
      (query.length + 1) + 1 + version.length + 1]? = some '\n' := by
  have hview : methodLine method path query version rest =
      (method ++ ' ' :: (path ++ '?' :: (query ++ ' ' :: (version ++ ['\r'])))) ++
        '\n' :: rest := by
    simp [methodLine]
  apply getElem?_piece hview
  simp only [List.length_append, List.length_cons, List.length_nil]
  omega

theorem length_methodLine :
    (methodLine method path query version rest).length =
      method.length + 1 + path.length + (query.length + 1) + 1 + version.length + 2 +
        rest.length := by
  simp only [methodLine, List.length_append, List.length_cons]
  omega

end Line

/-- What the request line leaves in the request. The query comes with the blank behind it. -/
theorem exec_parseMethodLine {method path query version : Text}
    (hmethod : ∀ c ∈ method, isSpace c = false) (hpath : ∀ c ∈ path, isSpace c = false ∧ c ≠ '?')
    (hquery : ∀ c ∈ query, isSpace c = false) (hversion : ∀ c ∈ version, isSpace c = false)
    (rest : Text) (request : HttpRequest) :
    (parseMethodLine (methodLine method path query version rest)).exec request =
      (.ok (methodLine method path query version []).length, { request with
        method := method
        path := path
        rawPath := path ++ '?' :: query
        httpVersion := version
        queryParams := parseQueryParams (query ++ [' ']) request.queryParams }) := by
  obtain ⟨hmethodEnd, hmethodBlank, hmethodText⟩ :=
    @methodLine_method method path query version rest hmethod
  obtain ⟨hpathEnd, hmark, hpathText⟩ := @methodLine_path method path query version rest hpath
  obtain ⟨hqueryEnd, hqueryBlank⟩ := @methodLine_query method path query version rest hquery
  obtain ⟨hversionEnd, hreturn, hversionText⟩ :=
    @methodLine_version method path query version rest hversion
  have hqueryText := @methodLine_queryText method path query version rest
  have hrawPath := @methodLine_rawPath method path query version rest
  have hnewline := @methodLine_newline method path query version rest
  have hlength := @length_methodLine method path query version []
  have hbehind : ¬ (methodLine method path query version rest).length ≤ method.length + 1 +
      path.length + (query.length + 1) + 1 + version.length + 1 := by
    rw [length_methodLine]
    omega
  unfold parseMethodLine
  simp only [hmethodEnd, hpathEnd, hmark, if_true, hqueryEnd, hversionEnd, hmethodText, hpathText,
    hrawPath, hqueryText, hversionText, hreturn, hnewline, hbehind, if_false, hlength,
    ne_eq, not_true_eq_false, or_self]
  rw [Call.exec_bind_ok (checkIsSpace_blank hmethodBlank request), Call.exec_modify_bind,
    Call.exec_bind_ok (checkIsSpace_blank hqueryBlank _)]
  rfl

/-! ### The last piece -/

theorem contains_iff_exists (headers : HeadersView) (name : Text) :
    headers.contains name = true ↔ ∃ entry ∈ headers, sameName entry.1 name = true := by
  rw [HeadersView.contains, HeadersView.find, Option.isSome_map, List.find?_isSome]

theorem contains_insert (headers : HeadersView) (key value name : Text) :
    (headers.insert key value).contains name = true ↔
      headers.contains name = true ∨ sameName key name = true := by
  unfold HeadersView.insert
  split_ifs with hkey
  · refine ⟨Or.inl, ?_⟩
    rintro (hname | hname)
    · exact hname
    · rw [HeadersView.contains, ← HeadersView.find_eq_find_of_sameName headers hname]
      exact hkey
  · simp only [contains_iff_exists, List.mem_append, List.mem_singleton]
    constructor
    · rintro ⟨entry, hmem | rfl, hname⟩
      · exact Or.inl ⟨entry, hmem, hname⟩
      · exact Or.inr hname
    · rintro (⟨entry, hmem, hname⟩ | hname)
      · exact ⟨entry, Or.inl hmem, hname⟩
      · exact ⟨(key, value), Or.inr rfl, hname⟩

theorem contains_insertPiece (pairs : HeadersView) (piece name : Text) :
    (insertPiece pairs piece).contains name = true ↔
      pairs.contains name = true ∨ pieceKey piece ≠ [] ∧ sameName (pieceKey piece) name = true := by
  unfold insertPiece
  split_ifs with hkey
  · simp [hkey]
  · simp [contains_insert, hkey]

theorem contains_foldl_insertPiece (pieces : List Text) (pairs : HeadersView) (name : Text) :
    (pieces.foldl insertPiece pairs).contains name = true ↔ pairs.contains name = true ∨
      ∃ piece ∈ pieces, pieceKey piece ≠ [] ∧ sameName (pieceKey piece) name = true := by
  induction pieces generalizing pairs with
  | nil => simp
  | cons piece pieces ih =>
      rw [List.foldl_cons, ih, contains_insertPiece, List.exists_mem_cons_iff, or_assoc]

theorem insertLast_eq_iff (pairs : HeadersView) (piece : Text) :
    insertLast pairs piece = insertPiece pairs piece ↔
      '=' ∉ piece ∨ pieceKey piece = [] ∨ pairs.contains (pieceKey piece) = true := by
  unfold insertLast
  by_cases hmem : '=' ∈ piece
  · by_cases hkey : pieceKey piece = []
    · simp [hkey]
    · rw [if_pos ⟨hmem, hkey⟩, insertPiece, if_neg hkey]
      unfold HeadersView.insert
      by_cases hpresent : pairs.contains (pieceKey piece)
      · simp [hpresent]
      · simp [hpresent, hmem, hkey]
  · simp [hmem]

theorem parseQueryParams_eq_iff (query : Text) :
    parseQueryParams (query ++ [' ']) [] = queryPairs query ↔ LastPieceSafe query := by
  obtain ⟨pieces, last, hsplit⟩ :=
    (List.eq_nil_or_concat (query.splitOn '&')).resolve_left (List.splitOn_ne_nil '&' query)
  rw [List.concat_eq_append] at hsplit
  have hparams : query ++ [' '] = [] ++ (query ++ [' ']) := rfl
  have hloop := parseQueryLoop_pieces hparams hsplit []
  have hleft : parseQueryParams (query ++ [' ']) [] =
      insertLast (pieces.foldl insertPiece []) last := hloop
  rw [hleft, queryPairs, hsplit, List.foldl_append, List.foldl_cons, List.foldl_nil,
    insertLast_eq_iff, contains_foldl_insertPiece]
  have hempty : HeadersView.contains [] (pieceKey last) = false := rfl
  rw [hempty]
  constructor
  · intro hsafe earlier final hpieces
    rw [hsplit] at hpieces
    obtain ⟨rfl, hlast⟩ := List.append_inj' hpieces rfl
    obtain rfl := List.singleton_inj.mp hlast
    simpa using hsafe
  · intro hsafe
    simpa using hsafe pieces last hsplit

end Liblw.Http
