import Liblw.Proof.ParseItems

/-!
# The parser reads documents

The stack of tokens is at all times that of some documents that are still open, and the items read
so far are, but for the commas, those that these documents are written with. When a text is
accepted, one document is left: its items are those of the text, and the token is its token.
-/

namespace Liblw.Mime

open JSONParse

/-! ### Documents that are still open -/

inductive Opened where
  | list (elements : List Document)
  | object (members : List (Text × Document))
  | key (members : List (Text × Document)) (key : Text)
  | member (members : List (Text × Document)) (key : Text)

namespace Opened

/-- The part of the stack that belongs to an open container, its top first. -/
def stack : Opened → List JSONToken
  | .list elements => [.value (Document.list elements).token]
  | .object members => [.value (Document.object members).token]
  | .key members name =>
      [.value (.scalar (scalarToken name)), .value (Document.object members).token]
  | .member members name =>
      [.char ':', .value (.scalar (scalarToken name)), .value (Document.object members).token]

/-- The items that have been read of an open container, without the commas. -/
def items : Opened → List Item
  | .list elements => .openList :: (Document.spellElements List.flatten elements).flatten
  | .object members => .openObject :: (Document.spellMembers List.flatten members).flatten
  | .key members name =>
      .openObject :: (Document.spellMembers List.flatten members).flatten ++ [.scalar name]
  | .member members name =>
      .openObject :: (Document.spellMembers List.flatten members).flatten ++ [.scalar name, .colon]

end Opened

inductive Progress where
  | within (opened : List Opened)
  | complete (document : Document)

/-- A value is complete inside the open containers, the innermost first. -/
def finish (document : Document) : List Opened → Option Progress
  | [] => some (.complete document)
  | .list elements :: rest => some (.within (.list (elements ++ [document]) :: rest))
  | .object members :: rest =>
      match document with
      | .scalar text =>
          if scalarType text = .string then some (.within (.key members text :: rest)) else none
      | _ => none
  | .key _ _ :: _ => none
  | .member members key :: rest =>
      if unquoted key ∈ members.map fun member => unquoted member.1 then none
      else some (.within (.object (members ++ [(key, document)]) :: rest))

namespace Progress

def state : Progress → JSONParse
  | .within opened => ⟨opened.flatMap Opened.stack, none⟩
  | .complete document => ⟨[], some (.value document.token)⟩

def pending : List Opened → List Item
  | [] => []
  | opened :: rest => pending rest ++ opened.items

/-- What has been read, without the commas. -/
def items : Progress → List Item
  | .within opened => pending opened
  | .complete document => document.bare

def take (opened : List Opened) : Item → Option Progress
  | .openObject => some (.within (.object [] :: opened))
  | .openList => some (.within (.list [] :: opened))
  | .closeObject =>
      match opened with
      | .object members :: rest => finish (.object members) rest
      | _ => none
  | .closeList =>
      match opened with
      | .list elements :: rest => finish (.list elements) rest
      | _ => none
  | .colon =>
      match opened with
      | .key members key :: rest => some (.within (.member members key :: rest))
      | _ => none
  | .comma =>
      match opened with
      | .list _ :: _ => some (.within opened)
      | .object _ :: _ => some (.within opened)
      | _ => none
  | .scalar text => finish (.scalar text) opened

def takeAll : Progress → List Item → Option Progress
  | progress, [] => some progress
  | .complete _, _ :: _ => none
  | .within opened, item :: rest => (take opened item).bind fun progress => takeAll progress rest

end Progress

open Progress (take takeAll)

/-! ### The tokens of a document's parts -/

theorem tokens_append (first second : List Document) :
    Document.tokens (first ++ second) = Document.tokens first ++ Document.tokens second := by
  induction first with
  | nil => rfl
  | cons document first ih => rw [List.cons_append, Document.tokens, Document.tokens, ih]; rfl

theorem memberTokens_append (first second : List (Text × Document)) :
    Document.memberTokens (first ++ second) =
      Document.memberTokens first ++ Document.memberTokens second := by
  induction first with
  | nil => rfl
  | cons member first ih =>
      rw [List.cons_append, Document.memberTokens, Document.memberTokens, ih]
      rfl

theorem keys_memberTokens (members : List (Text × Document)) :
    (Document.memberTokens members).map Prod.fst =
      members.map fun member => unquoted member.1 := by
  induction members with
  | nil => rfl
  | cons member members ih => rw [Document.memberTokens, List.map_cons, List.map_cons, ih]

theorem lookup_isSome_iff_key (members : List (Text × Document)) (key : Text) :
    ((Document.memberTokens members).lookup key).isSome = true ↔
      key ∈ members.map fun member => unquoted member.1 := by
  rw [← keys_memberTokens, lookup_isSome_iff]

/-! ### One item -/

/-- Popping a complete value puts it where it belongs among the open containers. -/
theorem popTop_eq_ok {opened : List Opened} {document : Document} {i : Nat} {next : JSONParse}
    (hpop : (JSONParse.push (Progress.within opened).state document.token).popTop i = .ok next) :
    ∃ progress, finish document opened = some progress ∧ next = progress.state := by
  cases opened with
  | nil => exact ⟨_, rfl, (Except.ok.inj hpop).symm⟩
  | cons innermost rest =>
      cases innermost with
      | list elements =>
          refine ⟨_, rfl, ?_⟩
          rw [← Except.ok.inj hpop]
          change _ = JSONParse.mk (.value (.list (Document.tokens (elements ++ [document]))) ::
            rest.flatMap Opened.stack) none
          rw [tokens_append]
          rfl
      | object members =>
          by_cases hstring : document.token.isString = true
          · cases document with
            | scalar text =>
                have htype : scalarType text = .string := of_decide_eq_true hstring
                refine ⟨_, if_pos htype, ?_⟩
                simp only [popTop, JSONParse.push, Progress.state, List.flatMap_cons, Opened.stack,
                  List.singleton_append, Document.token] at hpop hstring ⊢
                rw [if_pos hstring] at hpop
                exact (Except.ok.inj hpop).symm
            | list elements => simp [Document.token, DeserializationToken.isString,
                DeserializationToken.type] at hstring
            | object members => simp [Document.token, DeserializationToken.isString,
                DeserializationToken.type] at hstring
          · simp only [popTop, JSONParse.push, Progress.state, List.flatMap_cons, Opened.stack,
              List.singleton_append, Document.token] at hpop hstring
            rw [if_neg hstring] at hpop
            cases hpop
      | key members key => cases hpop
      | member members key =>
          simp only [popTop, JSONParse.push, Progress.state, List.flatMap_cons, Opened.stack,
            List.cons_append, List.nil_append, Document.token, ↓reduceIte, popPair,
            JSONParse.insert] at hpop
          by_cases hpresent : unquoted key ∈ members.map fun member => unquoted member.1
          · have hlookup := (lookup_isSome_iff_key members (unquoted key)).mpr hpresent
            rw [unquoted] at hlookup
            simp only [scalarToken, JSONScalarToken.make, hlookup, ↓reduceIte] at hpop
            cases hpop
          · have hlookup :
                ¬ ((Document.memberTokens members).lookup (unquoted key)).isSome = true :=
              fun hsome => hpresent ((lookup_isSome_iff_key members _).mp hsome)
            rw [unquoted] at hlookup
            simp only [scalarToken, JSONScalarToken.make, hlookup] at hpop
            refine ⟨_, if_neg hpresent, ?_⟩
            rw [← Except.ok.inj hpop, Progress.state, List.flatMap_cons, Opened.stack,
              Document.token, memberTokens_append]
            rfl

theorem take_of_takes {opened : List Opened} {item : Item} {next : JSONParse}
    (htakes : Takes (Progress.within opened).state item next) :
    ∃ progress, take opened item = some progress ∧ next = progress.state := by
  cases item with
  | openObject => exact ⟨_, rfl, htakes⟩
  | openList => exact ⟨_, rfl, htakes⟩
  | scalar text =>
      obtain ⟨i, hpop⟩ := htakes
      exact @popTop_eq_ok opened (.scalar text) i next hpop
  | closeObject =>
      obtain ⟨htop, i, hpop⟩ := htakes
      cases opened with
      | nil => cases htop
      | cons innermost rest =>
          cases innermost with
          | object members => exact @popTop_eq_ok rest (.object members) i next hpop
          | _ => cases htop
  | closeList =>
      obtain ⟨htop, i, hpop⟩ := htakes
      cases opened with
      | nil => cases htop
      | cons innermost rest =>
          cases innermost with
          | list elements => exact @popTop_eq_ok rest (.list elements) i next hpop
          | _ => cases htop
  | colon =>
      obtain ⟨htop, rfl⟩ := htakes
      cases opened with
      | nil => cases htop
      | cons innermost rest =>
          cases innermost with
          | key members key => exact ⟨_, rfl, rfl⟩
          | _ => cases htop
  | comma =>
      obtain ⟨htop, rfl⟩ := htakes
      cases opened with
      | nil => cases htop
      | cons innermost rest =>
          cases innermost with
          | list elements => exact ⟨_, rfl, rfl⟩
          | object members => exact ⟨_, rfl, rfl⟩
          | _ => cases htop

/-! ### The items that have been read -/

theorem spellElements_append (join : List (List Item) → List Item) (first second : List Document) :
    Document.spellElements join (first ++ second) =
      Document.spellElements join first ++ Document.spellElements join second := by
  induction first with
  | nil => rfl
  | cons document first ih =>
      rw [List.cons_append, Document.spellElements, Document.spellElements, ih]
      rfl

theorem spellMembers_append (join : List (List Item) → List Item)
    (first second : List (Text × Document)) :
    Document.spellMembers join (first ++ second) =
      Document.spellMembers join first ++ Document.spellMembers join second := by
  induction first with
  | nil => rfl
  | cons member first ih =>
      rw [List.cons_append, Document.spellMembers, Document.spellMembers, ih]
      rfl

theorem items_finish {document : Document} {opened : List Opened} {progress : Progress}
    (hfinish : finish document opened = some progress) :
    progress.items = Progress.pending opened ++ document.bare := by
  cases opened with
  | nil =>
      obtain rfl := Option.some.inj hfinish
      rfl
  | cons innermost rest =>
      cases innermost with
      | list elements =>
          obtain rfl := Option.some.inj hfinish
          simp [Progress.items, Progress.pending, Opened.items, spellElements_append,
            Document.spellElements, Document.bare]
      | object members =>
          cases document with
          | scalar text =>
              rw [finish] at hfinish
              split_ifs at hfinish
              obtain rfl := Option.some.inj hfinish
              simp [Progress.items, Progress.pending, Opened.items, Document.bare, Document.spell]
          | list elements => cases hfinish
          | object members => cases hfinish
      | key members key => cases hfinish
      | member members key =>
          rw [finish] at hfinish
          split_ifs at hfinish
          obtain rfl := Option.some.inj hfinish
          simp [Progress.items, Progress.pending, Opened.items, spellMembers_append,
            Document.spellMembers, Document.bare]

/-- Reading an item adds it to what has been read, unless it is a comma. -/
theorem items_take {opened : List Opened} {item : Item} {progress : Progress}
    (htake : take opened item = some progress) :
    progress.items = Progress.pending opened ++ [item].filter (· ≠ .comma) := by
  cases item with
  | openObject =>
      obtain rfl := Option.some.inj htake
      rfl
  | openList =>
      obtain rfl := Option.some.inj htake
      rfl
  | scalar text => exact items_finish htake
  | closeObject =>
      cases opened with
      | nil => cases htake
      | cons innermost rest =>
          cases innermost with
          | object members =>
              rw [items_finish htake]
              simp [Progress.pending, Opened.items, Document.bare, Document.spell]
          | _ => cases htake
  | closeList =>
      cases opened with
      | nil => cases htake
      | cons innermost rest =>
          cases innermost with
          | list elements =>
              rw [items_finish htake]
              simp [Progress.pending, Opened.items, Document.bare, Document.spell]
          | _ => cases htake
  | colon =>
      cases opened with
      | nil => cases htake
      | cons innermost rest =>
          cases innermost with
          | key members key =>
              obtain rfl := Option.some.inj htake
              simp [Progress.items, Progress.pending, Opened.items]
          | _ => cases htake
  | comma =>
      cases opened with
      | nil => cases htake
      | cons innermost rest =>
          cases innermost with
          | list elements =>
              obtain rfl := Option.some.inj htake
              exact (List.append_nil _).symm
          | object members =>
              obtain rfl := Option.some.inj htake
              exact (List.append_nil _).symm
          | _ => cases htake

theorem items_takeAll {progress reached : Progress} {list : List Item}
    (htake : takeAll progress list = some reached) :
    reached.items = progress.items ++ list.filter (· ≠ .comma) := by
  induction list generalizing progress with
  | nil =>
      obtain rfl : progress = reached := by
        cases progress <;> exact Option.some.inj htake
      rw [List.filter_nil, List.append_nil]
  | cons item list ih =>
      cases progress with
      | complete document => cases htake
      | within opened =>
          obtain ⟨next, hnext, hrest⟩ := Option.bind_eq_some_iff.mp htake
          rw [ih hrest, items_take hnext, List.append_assoc, ← List.filter_append]
          rfl

/-! ### Keys -/

/-- The keys of an object that the parser has read. -/
def ParsedKeys (keys : List Text) : Prop := StringKeys keys ∧ DistinctKeys keys

theorem everyElement_append {p : List Text → Prop} {first second : List Document}
    (hfirst : Document.EveryElement p first) (hsecond : Document.EveryElement p second) :
    Document.EveryElement p (first ++ second) := by
  induction first with
  | nil => exact hsecond
  | cons document first ih => exact ⟨hfirst.1, ih hfirst.2⟩

theorem everyMember_append {p : List Text → Prop} {first second : List (Text × Document)}
    (hfirst : Document.EveryMember p first) (hsecond : Document.EveryMember p second) :
    Document.EveryMember p (first ++ second) := by
  induction first with
  | nil => exact hsecond
  | cons member first ih => exact ⟨hfirst.1, ih hfirst.2⟩

/-- A key that is new joins the others. -/
theorem ParsedKeys.append {keys : List Text} {key : Text} (hkeys : ParsedKeys keys)
    (hkey : scalarType key = .string) (hnew : unquoted key ∉ keys.map unquoted) :
    ParsedKeys (keys ++ [key]) := by
  constructor
  · intro name hname
    rcases List.mem_append.mp hname with hname | hname
    · exact hkeys.1 name hname
    · rw [List.mem_singleton.mp hname]
      exact hkey
  · rw [DistinctKeys, List.map_append, List.map_singleton, List.nodup_append_comm]
    exact List.nodup_cons.mpr ⟨hnew, hkeys.2⟩

def Opened.ParsedKeys : Opened → Prop
  | .list elements => Document.EveryElement Mime.ParsedKeys elements
  | .object members => (Document.object members).Every Mime.ParsedKeys
  | .key members name =>
      (Document.object members).Every Mime.ParsedKeys ∧ scalarType name = .string
  | .member members name =>
      (Document.object members).Every Mime.ParsedKeys ∧ scalarType name = .string

def Progress.ParsedKeys : Progress → Prop
  | .within opened => ∀ container ∈ opened, container.ParsedKeys
  | .complete document => document.Every Mime.ParsedKeys

theorem parsedKeys_finish {document : Document} {opened : List Opened} {progress : Progress}
    (hdocument : document.Every ParsedKeys) (hopened : (Progress.within opened).ParsedKeys)
    (hfinish : finish document opened = some progress) : progress.ParsedKeys := by
  cases opened with
  | nil =>
      obtain rfl := Option.some.inj hfinish
      exact hdocument
  | cons innermost rest =>
      obtain ⟨hinnermost, hrest⟩ := List.forall_mem_cons.mp hopened
      cases innermost with
      | list elements =>
          obtain rfl := Option.some.inj hfinish
          exact List.forall_mem_cons.mpr
            ⟨everyElement_append hinnermost ⟨hdocument, trivial⟩, hrest⟩
      | object members =>
          cases document with
          | scalar text =>
              rw [finish] at hfinish
              split_ifs at hfinish with htype
              obtain rfl := Option.some.inj hfinish
              exact List.forall_mem_cons.mpr ⟨⟨hinnermost, htype⟩, hrest⟩
          | list elements => cases hfinish
          | object members => cases hfinish
      | key members key => cases hfinish
      | member members key =>
          rw [finish] at hfinish
          split_ifs at hfinish with hpresent
          obtain rfl := Option.some.inj hfinish
          obtain ⟨⟨hkeys, hmembers⟩, htype⟩ := hinnermost
          refine List.forall_mem_cons.mpr ⟨⟨?_, ?_⟩, hrest⟩
          · rw [List.map_append]
            exact hkeys.append htype (by simpa using hpresent)
          · exact everyMember_append hmembers ⟨hdocument, trivial⟩

theorem parsedKeys_take {opened : List Opened} {item : Item} {progress : Progress}
    (hopened : (Progress.within opened).ParsedKeys) (htake : take opened item = some progress) :
    progress.ParsedKeys := by
  have hempty : ParsedKeys [] := ⟨by simp [StringKeys], by simp [DistinctKeys]⟩
  cases item with
  | openObject =>
      obtain rfl := Option.some.inj htake
      exact List.forall_mem_cons.mpr ⟨⟨hempty, trivial⟩, hopened⟩
  | openList =>
      obtain rfl := Option.some.inj htake
      exact List.forall_mem_cons.mpr ⟨trivial, hopened⟩
  | scalar text => exact @parsedKeys_finish (.scalar text) _ _ trivial hopened htake
  | closeObject =>
      cases opened with
      | nil => cases htake
      | cons innermost rest =>
          obtain ⟨hinnermost, hrest⟩ := List.forall_mem_cons.mp hopened
          cases innermost with
          | object members => exact @parsedKeys_finish (.object members) _ _ hinnermost hrest htake
          | _ => cases htake
  | closeList =>
      cases opened with
      | nil => cases htake
      | cons innermost rest =>
          obtain ⟨hinnermost, hrest⟩ := List.forall_mem_cons.mp hopened
          cases innermost with
          | list elements => exact @parsedKeys_finish (.list elements) _ _ hinnermost hrest htake
          | _ => cases htake
  | colon =>
      cases opened with
      | nil => cases htake
      | cons innermost rest =>
          cases innermost with
          | key members key =>
              obtain rfl := Option.some.inj htake
              obtain ⟨hinnermost, hrest⟩ := List.forall_mem_cons.mp hopened
              exact List.forall_mem_cons.mpr ⟨hinnermost, hrest⟩
          | _ => cases htake
  | comma =>
      cases opened with
      | nil => cases htake
      | cons innermost rest =>
          cases innermost with
          | list elements =>
              obtain rfl := Option.some.inj htake
              exact hopened
          | object members =>
              obtain rfl := Option.some.inj htake
              exact hopened
          | _ => cases htake

theorem parsedKeys_takeAll {progress reached : Progress} {list : List Item}
    (hprogress : progress.ParsedKeys) (htake : takeAll progress list = some reached) :
    reached.ParsedKeys := by
  induction list generalizing progress with
  | nil =>
      obtain rfl : progress = reached := by
        cases progress <;> exact Option.some.inj htake
      exact hprogress
  | cons item list ih =>
      cases progress with
      | complete document => cases htake
      | within opened =>
          obtain ⟨next, hnext, hrest⟩ := Option.bind_eq_some_iff.mp htake
          exact ih (parsedKeys_take hprogress hnext) hrest

/-! ### The whole text -/

/-- The text is made of the items and of blanks around them, each item standing where its scanner
takes it. -/
inductive Cut : List Item → Text → Prop where
  | nil {text : Text} (hblank : ∀ c ∈ text, isSpace c = true) : Cut [] text
  | cons {before after : Text} {item : Item} {list : List Item}
      (hbefore : ∀ c ∈ before, isSpace c = true) (hitem : ItemAt item after)
      (hafter : Cut list after) : Cut (item :: list) (before ++ item.text ++ after)

theorem Cut.blank {list : List Item} {text : Text} {c : Char} (hcut : Cut list text)
    (hc : isSpace c = true) : Cut list (c :: text) := by
  have hcons : ∀ {before : Text}, (∀ d ∈ before, isSpace d = true) →
      ∀ d ∈ c :: before, isSpace d = true := by
    intro before hbefore d hd
    rcases List.mem_cons.mp hd with rfl | hd
    · exact hc
    · exact hbefore d hd
  cases hcut with
  | nil hblank => exact .nil (hcons hblank)
  | cons hbefore hitem hafter => exact .cons (hcons hbefore) hitem hafter

theorem Cut.front {list : List Item} {item : Item} {after : Text} (hafter : Cut list after)
    (hitem : ItemAt item after) : Cut (item :: list) (item.text ++ after) :=
  @Cut.cons [] after item list (by simp) hitem hafter

/-- **The loop.** A loop that ends well has taken the items of the text one after the other. -/
theorem updateLoop_eq_ok (text : Text) {i : Nat} (progress : Progress) {final : JSONParse}
    (hloop : updateLoop i 0 text progress.state = .ok final) :
    Cut (items 0 text) text ∧
      ∃ reached, takeAll progress (items 0 text) = some reached ∧ final = reached.state := by
  induction hn : text.length using Nat.strongRecOn generalizing text i progress with
  | _ n ih =>
      subst hn
      cases text with
      | nil =>
          refine ⟨.nil (by simp), progress, ?_, (Except.ok.inj hloop).symm⟩
          cases progress <;> rfl
      | cons c rest =>
          rw [updateLoop] at hloop
          by_cases hspace : isSpace c = true
          · rw [if_pos hspace] at hloop
            obtain ⟨hcut, hreached⟩ := ih rest.length (by simp) rest progress hloop rfl
            rw [items, if_pos hspace]
            exact ⟨hcut.blank hspace, hreached⟩
          · rw [if_neg hspace] at hloop
            cases progress with
            | complete document => cases hloop
            | within opened =>
                rw [if_neg (by simp [Progress.state])] at hloop
                cases hround : (Progress.within opened).state.updateChar c (c :: rest) i with
                | error fault =>
                    rw [hround] at hloop
                    cases hloop
                | ok found =>
                    obtain ⟨next, last⟩ := found
                    rw [hround] at hloop
                    obtain ⟨item, after, htext, hitem, hlast, htakes⟩ := updateChar_eq_ok hround
                    obtain ⟨reached, htake, rfl⟩ := take_of_takes htakes
                    obtain ⟨d, tail, hspelled, -⟩ := item_text_cons hitem
                    have hrest : rest = tail ++ after := by
                      rw [hspelled, List.cons_append] at htext
                      exact (List.cons.inj htext).2
                    have hskip : last - i = tail.length := by
                      rw [hspelled, List.length_cons] at hlast
                      omega
                    dsimp only at hloop
                    rw [hskip, hrest, updateLoop_skip] at hloop
                    obtain ⟨hcut, final, hfinal, hstate⟩ :=
                      ih after.length (by rw [hrest]; simp) after reached hloop rfl
                    rw [htext, (cut_item hitem).1]
                    refine ⟨hcut.front hitem, final, ?_, hstate⟩
                    rw [takeAll, htake]
                    exact hfinal

theorem parse_eq_ok {text : Text} {token : DeserializationToken}
    (hparse : parse text = .ok token) :
    updateLoop 0 0 text make = .ok ⟨[], some (.value token)⟩ := by
  cases hloop : updateLoop 0 0 text make with
  | error fault =>
      simp only [parse, update, hloop] at hparse
      cases hparse
  | ok state =>
      obtain ⟨stack, final⟩ := state
      cases stack with
      | cons top stack =>
          simp only [parse, update, hloop] at hparse
          cases hparse
      | nil =>
          match final with
          | none =>
              simp only [parse, update, hloop] at hparse
              cases hparse
          | some (.char c) =>
              simp only [parse, update, hloop] at hparse
              cases hparse
          | some (.value found) =>
              simp only [parse, update, hloop] at hparse
              obtain rfl := Except.ok.inj hparse
              rfl

/-- The text is made of the items of a document, with commas somewhere in between. -/
def Reads (text : Text) (document : Document) : Prop :=
  (items 0 text).filter (· ≠ .comma) = document.bare

/-- **What an accepted text is.** The items of the text are those of a document, except that the
commas may stand elsewhere, and the token is that of the document. -/
theorem exists_document {text : Text} {token : DeserializationToken}
    (hparse : parse text = .ok token) :
    Cut (items 0 text) text ∧ ∃ document, Reads text document ∧ token = document.token ∧
      document.Every ParsedKeys := by
  obtain ⟨hcut, reached, htake, hstate⟩ :=
    updateLoop_eq_ok text (.within []) (parse_eq_ok hparse)
  refine ⟨hcut, ?_⟩
  cases reached with
  | within opened => simp [Progress.state] at hstate
  | complete document =>
      refine ⟨document, ?_, ?_, parsedKeys_takeAll (by simp [Progress.ParsedKeys]) htake⟩
      · exact (items_takeAll htake).symm
      · simp only [Progress.state, JSONParse.mk.injEq, Option.some.injEq, JSONToken.value.injEq,
          true_and] at hstate
        exact hstate

end Liblw.Mime
