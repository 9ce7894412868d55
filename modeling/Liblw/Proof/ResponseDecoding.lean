import Liblw.Proof.ResponseFraming

/-!
# Reading a response back

The setters leave in the map the headers that were set, and the map is written out field by field.
So what a reader takes the written text for is told by the texts that the setters were given.
-/

namespace Liblw.Http

open Liblw.Lib HttpRequest
open Mime (integerText)

/-! ### The setters -/

/-- The names that the setters are given are shorter than 2^31. -/
def ShortNames (setters : List HttpResponse.Setter) : Prop :=
  ∀ name value, .header name value ∈ setters → name.length < 2 ^ 31

theorem short_assign {headers : HeadersView} (hshort : Short headers) {name : Text}
    (hname : name.length < 2 ^ 31) (value : Text) : Short (headers.assign name value) := by
  unfold HeadersView.assign
  intro entry hmem
  split_ifs at hmem with hpresent
  · obtain ⟨other, hother, rfl⟩ := List.mem_map.mp hmem
    split_ifs
    · exact hshort other hother
    · exact hshort other hother
  · rcases List.mem_append.mp hmem with hmem | hmem
    · exact hshort entry hmem
    · rw [List.mem_singleton.mp hmem]
      exact hname

/-- Setting a header does with the map what it does with the list of the headers. -/
theorem stores_setHeader {response : HttpResponse} {headers : HeadersView}
    (hstores : response.headers.Stores headers) (hshort : Short headers) {name : Text}
    (hname : name.length < 2 ^ 31) (value : Text) :
    (response.setHeader name value).headers.Stores (headers.assign name value) := by
  have hfind := hstores.find hshort hname
  have hcontains :
      headers.contains name = (headers.find? fun entry => sameName entry.1 name).isSome :=
    Option.isSome_map
  unfold HttpResponse.setHeader HeadersView.assign
  cases hfound : headers.find? fun entry => sameName entry.1 name with
  | none =>
      rw [hfound] at hfind hcontains
      have hinsert := hstores.insert hshort hname value
      unfold HeadersView.insert at hinsert
      rw [hfind, hcontains]
      rw [hcontains] at hinsert
      exact hinsert
  | some entry =>
      rw [hfound] at hfind hcontains
      rw [hfind, hcontains]
      exact hstores.assign hshort hname value

theorem stores_foldl {setters : List HttpResponse.Setter} (hsetters : ShortNames setters)
    {response : HttpResponse} {headers : HeadersView} (hstores : response.headers.Stores headers)
    (hshort : Short headers) :
    (setters.foldl HttpResponse.apply response).headers.Stores
        (setters.foldl (fun headers setter =>
          match setter with
          | .header name value => headers.assign name value
          | _ => headers) headers) ∧
      Short (setters.foldl (fun headers setter =>
        match setter with
        | .header name value => headers.assign name value
        | _ => headers) headers) := by
  induction setters generalizing response headers with
  | nil => exact ⟨hstores, hshort⟩
  | cons setter setters ih =>
      have hrest : ShortNames setters := fun name value hmem =>
        hsetters name value (List.mem_cons_of_mem _ hmem)
      rw [List.foldl_cons, List.foldl_cons]
      cases setter with
      | status code => exact ih hrest hstores hshort
      | statusMessage code message => exact ih hrest hstores hshort
      | header name value =>
          have hname := hsetters name value List.mem_cons_self
          exact ih hrest (stores_setHeader hstores hshort hname value)
            (short_assign hshort hname value)
      | body text => exact ih hrest hstores hshort

/-- **The setters.** The map of the response has the headers that were set. -/
theorem stores_applyAll {setters : List HttpResponse.Setter} (hsetters : ShortNames setters) :
    (HttpResponse.applyAll setters).headers.Stores (setHeaders setters) ∧
      Short (setHeaders setters) :=
  stores_foldl hsetters SearchTree.holds_leaf (by simp [Short])

/-! ### The header fields of a response -/

section Fields

variable {response : HttpResponse} {headers : HeadersView}

theorem length_contentLengthName : HttpResponse.contentLengthName.length < 2 ^ 31 := by decide

theorem hasHeader_eq (hstores : response.headers.Stores headers) (hshort : Short headers)
    {name : Text}
    (hname : name.length < 2 ^ 31) : response.hasHeader name = headers.contains name := by
  rw [HttpResponse.hasHeader, HeaderMap.contains, hstores.find hshort hname, HeadersView.contains,
    HeadersView.find, Option.isSome_map]

theorem headerFields_perm (hstores : response.headers.Stores headers) (hshort : Short headers) :
    response.headerFields.Perm (finalHeaders headers response.body) := by
  unfold HttpResponse.headerFields finalHeaders
  rw [hasHeader_eq hstores hshort length_contentLengthName]
  split_ifs
  · rw [List.append_nil]
    exact hstores.perm
  · exact hstores.perm.append_right _

theorem entries_distinct (hstores : response.headers.Stores headers) :
    response.headers.entries.Pairwise fun first second => sameName first.1 second.1 = false := by
  refine hstores.ordered.imp ?_
  intro first second hless
  rw [Bool.eq_false_iff, ne_eq, sameName_iff]
  exact hless.ne

/-- A name is there once. -/
theorem headerFields_distinct (hstores : response.headers.Stores headers) (hshort : Short headers) :
    response.headerFields.Pairwise fun first second => sameName first.1 second.1 = false := by
  unfold HttpResponse.headerFields
  rw [hasHeader_eq hstores hshort length_contentLengthName]
  split_ifs with hpresent
  · rw [List.append_nil]
    exact entries_distinct hstores
  · refine List.pairwise_append.mpr ⟨entries_distinct hstores, List.pairwise_singleton _ _, ?_⟩
    intro entry hmem other hother
    rw [List.mem_singleton.mp hother, Bool.eq_false_iff]
    intro hsame
    exact hpresent ((contains_iff_exists _ _).mpr
      ⟨entry, hstores.perm.mem_iff.mp hmem, hsame⟩)

theorem find_entries (hstores : response.headers.Stores headers) (hshort : Short headers)
    {name : Text}
    (hname : name.length < 2 ^ 31) :
    HeadersView.find response.headers.entries name = headers.find name := by
  have hself : response.headers.Stores response.headers.entries :=
    ⟨hstores.ordered, List.Perm.refl _⟩
  have hshort' : Short response.headers.entries := fun entry hmem =>
    hshort entry (hstores.perm.mem_iff.mp hmem)
  rw [← hself.valueOf hshort' hname, hstores.valueOf hshort hname]

/-- The length that a reader finds: the one that was set, or else the one that is written. -/
theorem find_headerFields (hstores : response.headers.Stores headers) (hshort : Short headers) :
    HeadersView.find response.headerFields HttpResponse.contentLengthName =
      (headers.find HttpResponse.contentLengthName).or
        (some (integerText response.body.length)) := by
  unfold HttpResponse.headerFields
  rw [hasHeader_eq hstores hshort length_contentLengthName]
  cases hfind : headers.find HttpResponse.contentLengthName with
  | some length =>
      have hpresent : headers.contains HttpResponse.contentLengthName = true := by
        rw [HeadersView.contains, hfind]
        rfl
      rw [if_pos hpresent, List.append_nil, find_entries hstores hshort length_contentLengthName,
        hfind]
      rfl
  | none =>
      have habsent : ¬ headers.contains HttpResponse.contentLengthName = true := by
        rw [HeadersView.contains, hfind]
        simp
      rw [if_neg habsent, HeadersView.find_append_singleton,
        find_entries hstores hshort length_contentLengthName, hfind, if_pos (sameName_self _)]

theorem numberText_integerText (number : Nat) : NumberText (integerText number) number := by
  rw [NumberText, Mime.integerText_ofNat]
  exact ⟨Nat.toDigits_ne_nil, fun c hc => isDigit_of_mem_toDigits hc,
    Nat.ofDigitChars_ten_toDigits⟩

/-- The field that is written for the length keeps to the separators. -/
theorem contentLength_framed (number : Nat) :
    (lineEnds HttpResponse.contentLengthName = 0 ∧ lineEnds (integerText number) = 0) ∧
      ':' ∉ HttpResponse.contentLengthName ∧
        trimBlanks (integerText number) = integerText number := by
  refine ⟨⟨by decide, lineEnds_integerText number⟩, by decide, ?_⟩
  have hkept : ∀ text : Text, (∀ c ∈ text, c ∈ integerText number) →
      text.dropWhile isBlank = text := by
    intro text htext
    cases text with
    | nil => rfl
    | cons c text =>
        apply List.dropWhile_cons_of_neg
        have hc := htext c List.mem_cons_self
        simp [isBlank, ne_of_mem_integerText hc (d := ' ') (by decide) (by decide),
          ne_of_mem_integerText hc (d := '\t') (by decide) (by decide)]
  rw [trimBlanks, hkept _ fun c hc => hc, hkept _ fun c hc => List.mem_reverse.mp hc,
    List.reverse_reverse]

/-- What holds of every field that is written holds of every header that was set. -/
theorem forall_headerFields_iff (hstores : response.headers.Stores headers)
    {property : Text × Text → Prop}
    (hlength : property (HttpResponse.contentLengthName, integerText response.body.length)) :
    (∀ field ∈ response.headerFields, property field) ↔ ∀ entry ∈ headers, property entry := by
  unfold HttpResponse.headerFields
  constructor
  · intro hall entry hmem
    exact hall entry (List.mem_append_left _ (hstores.perm.mem_iff.mpr hmem))
  · intro hall field hmem
    rcases List.mem_append.mp hmem with hmem | hmem
    · exact hall field (hstores.perm.mem_iff.mp hmem)
    · split_ifs at hmem
      · cases hmem
      · rw [List.mem_singleton.mp hmem]
        exact hlength

end Fields

/-! ### Reading back -/

theorem serialize_eq {response : HttpResponse} {reason : Text}
    (hmessage : response.message = .ok reason) :
    response.serialize =
      .ok (messageText response.status.toInt reason response.headerFields response.body) := by
  rw [HttpResponse.serialize, hmessage]
  rfl

theorem framed_iff {response : HttpResponse} {headers : HeadersView} {reason : Text}
    (hstores : response.headers.Stores headers) :
    Framed reason headers response.body ↔
      ((lineEnds reason = 0 ∧
        ∀ field ∈ response.headerFields, lineEnds field.1 = 0 ∧ lineEnds field.2 = 0) ∧
        ∀ field ∈ response.headerFields, ':' ∉ field.1 ∧ trimBlanks field.2 = field.2) ∧
      ∀ length, headers.find HttpResponse.contentLengthName = some length →
        NumberText length response.body.length := by
  obtain ⟨hends, hkept⟩ := contentLength_framed response.body.length
  rw [forall_headerFields_iff hstores hends, forall_headerFields_iff hstores hkept]
  simp only [lineEnds_eq_zero_iff]
  constructor
  · intro hframed
    exact ⟨⟨⟨hframed.reason, fun entry hmem =>
        ⟨(hframed.names entry hmem).1, (hframed.values entry hmem).1⟩⟩,
      fun entry hmem => ⟨(hframed.names entry hmem).2, (hframed.values entry hmem).2⟩⟩,
      hframed.length⟩
  · rintro ⟨⟨⟨hreason, hlines⟩, hfields⟩, hlength⟩
    exact ⟨hreason, fun entry hmem => ⟨(hlines entry hmem).1, (hfields entry hmem).1⟩,
      fun entry hmem => ⟨(hlines entry hmem).2, (hfields entry hmem).2⟩, hlength⟩

theorem decodesBack_of_stores {response : HttpResponse} {headers : HeadersView} {reason : Text}
    (hstores : response.headers.Stores headers) (hshort : Short headers) :
    DecodesBack (messageText response.status.toInt reason response.headerFields response.body)
        response.status.toInt reason headers response.body ↔
      Framed reason headers response.body := by
  have hlower : -2 ^ 63 ≤ response.status.toInt := by
    have hbound := response.status.le_toInt
    omega
  have hupper : response.status.toInt ≤ 2 ^ 63 - 1 := by
    have hbound := response.status.toInt_lt
    omega
  have hperm := headerFields_perm hstores hshort
  rw [framed_iff hstores]
  constructor
  · rintro ⟨fields, hdecode, hfields, -, length, hfind, hnumber⟩
    have hsame := hfields.trans hperm.symm
    obtain ⟨hends, rfl⟩ :=
      (decodeMessage_messageText_iff hlower hupper hsame.length_eq).mp hdecode
    have hkept := readBack_eq_of_perm hsame
    refine ⟨⟨hends, hkept⟩, ?_⟩
    intro set hset
    rw [map_readBack hkept, find_headerFields hstores hshort, hset, Option.some_or,
      Option.some.injEq] at hfind
    rw [hfind]
    exact hnumber
  · rintro ⟨⟨hends, hkept⟩, hlength⟩
    refine ⟨response.headerFields, ?_, hperm, headerFields_distinct hstores hshort, ?_⟩
    · exact (decodeMessage_messageText_iff hlower hupper rfl).mpr ⟨hends, (map_readBack hkept).symm⟩
    · rw [find_headerFields hstores hshort]
      cases hset : headers.find HttpResponse.contentLengthName with
      | some length => exact ⟨length, rfl, hlength length hset⟩
      | none => exact ⟨_, rfl, numberText_integerText _⟩

/-- **Reading a response back.** What was set is read back exactly if it keeps to the separators
that it is written between, and a length that was set is that of the body. -/
theorem decodesBack_iff {setters : List HttpResponse.Setter} (hsetters : ShortNames setters)
    {reason : Text} (hmessage : (HttpResponse.applyAll setters).message = .ok reason) :
    ∃ text, (HttpResponse.applyAll setters).serialize = .ok text ∧
      (DecodesBack text (HttpResponse.applyAll setters).status.toInt reason (setHeaders setters)
          (HttpResponse.applyAll setters).body ↔
        Framed reason (setHeaders setters) (HttpResponse.applyAll setters).body) := by
  obtain ⟨hstores, hshort⟩ := stores_applyAll hsetters
  exact ⟨_, serialize_eq hmessage, decodesBack_of_stores hstores hshort⟩

theorem decodesBack_iff_text :
    ∃ text, (HttpResponse.applyAll [.status 200, .header "Content-Type".toList "text/plain".toList,
        .body "foobar".toList]).serialize = .ok text ∧
      (DecodesBack text (HttpResponse.applyAll [.status 200,
          .header "Content-Type".toList "text/plain".toList, .body "foobar".toList]).status.toInt
          "OK".toList (setHeaders [.status 200,
            .header "Content-Type".toList "text/plain".toList, .body "foobar".toList])
          (HttpResponse.applyAll [.status 200, .header "Content-Type".toList "text/plain".toList,
            .body "foobar".toList]).body ↔
        Framed "OK".toList (setHeaders [.status 200,
            .header "Content-Type".toList "text/plain".toList, .body "foobar".toList])
          (HttpResponse.applyAll [.status 200, .header "Content-Type".toList "text/plain".toList,
            .body "foobar".toList]).body) := by
  refine decodesBack_iff ?_ (by decide)
  intro name value hmem
  simp only [List.mem_cons, HttpResponse.Setter.header.injEq, reduceCtorEq, List.not_mem_nil,
    false_or, or_false] at hmem
  rw [hmem.1]
  decide

/-- A value with a line end in it is read as two headers. -/
theorem header_injected :
    ¬ ∀ (setters : List HttpResponse.Setter) (reason text : Text), ShortNames setters →
      (HttpResponse.applyAll setters).message = .ok reason →
      (HttpResponse.applyAll setters).serialize = .ok text →
      DecodesBack text (HttpResponse.applyAll setters).status.toInt reason (setHeaders setters)
        (HttpResponse.applyAll setters).body := by
  intro hall
  let setters : List HttpResponse.Setter := [.header "X".toList "a\r\nY: b".toList]
  have hsetters : ShortNames setters := by
    intro name value hmem
    simp only [setters, List.mem_singleton, HttpResponse.Setter.header.injEq] at hmem
    rw [hmem.1]
    decide
  have hmessage : (HttpResponse.applyAll setters).message = .ok "OK".toList := by decide
  obtain ⟨hstores, hshort⟩ := stores_applyAll hsetters
  have hdecodes := hall setters _ _ hsetters hmessage (serialize_eq hmessage)
  have hframed := (decodesBack_of_stores hstores hshort).mp hdecodes
  have hvalue := (hframed.values ("X".toList, "a\r\nY: b".toList) (by decide)).1
  exact hvalue (by decide)

end Liblw.Http
