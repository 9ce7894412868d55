import Mathlib.Tactic
import Mathlib.Order.Basic
import Mathlib.Data.List.Perm.Basic

/-!
# Search trees

A map whose nodes are found by a comparison that is given. Nothing is said about the shape of the
tree: a rotation leaves its entries in their order. Where the comparison tells the order of a rank,
the tree does what the list of its entries does.
-/

namespace Liblw.Lib

inductive SearchTree (α β : Type) where
  | leaf
  | node (left : SearchTree α β) (key : α) (value : β) (right : SearchTree α β)
deriving DecidableEq, Repr

namespace SearchTree

variable {α β γ : Type}

def entries : SearchTree α β → List (α × β)
  | leaf => []
  | node left key value right => left.entries ++ (key, value) :: right.entries

section Operations

variable (less : α → α → Bool) (key : α) (value : β)

/-- The first entry that is not less than the key. -/
def lowerBound : SearchTree α β → Option (α × β)
  | leaf => none
  | node left own stored right =>
      if less own key then lowerBound right
      else (lowerBound left).or (some (own, stored))

def find (tree : SearchTree α β) : Option (α × β) :=
  (tree.lowerBound less key).filter fun entry => !less key entry.1

/-- An entry that is already there is left as it is. -/
def insert : SearchTree α β → SearchTree α β
  | leaf => node leaf key value leaf
  | node left own stored right =>
      if less key own then node (insert left) own stored right
      else if less own key then node left own stored (insert right)
      else node left own stored right

/-- The entry that is there gets the value. -/
def assign : SearchTree α β → SearchTree α β
  | leaf => leaf
  | node left own stored right =>
      if less key own then node (assign left) own stored right
      else if less own key then node left own stored (assign right)
      else node left own value right

end Operations

/-- What is found is in the tree, and neither it nor the key is less than the other. -/
theorem mem_of_lowerBound {less : α → α → Bool} {key : α} {tree : SearchTree α β} {entry : α × β}
    (hbound : tree.lowerBound less key = some entry) :
    entry ∈ tree.entries ∧ less entry.1 key = false := by
  induction tree with
  | leaf => cases hbound
  | node left own stored right ihLeft ihRight =>
      rw [lowerBound] at hbound
      rw [entries, List.mem_append, List.mem_cons]
      split_ifs at hbound with hless
      · exact ⟨Or.inr (Or.inr (ihRight hbound).1), (ihRight hbound).2⟩
      · rcases Option.or_eq_some_iff.mp hbound with hleft | ⟨-, hown⟩
        · exact ⟨Or.inl (ihLeft hleft).1, (ihLeft hleft).2⟩
        · obtain rfl := Option.some.inj hown
          exact ⟨Or.inr (Or.inl rfl), by simpa using hless⟩

theorem mem_of_find {less : α → α → Bool} {key : α} {tree : SearchTree α β} {entry : α × β}
    (hfind : tree.find less key = some entry) :
    entry ∈ tree.entries ∧ less entry.1 key = false ∧ less key entry.1 = false := by
  obtain ⟨hbound, hless⟩ := Option.filter_eq_some_iff.mp hfind
  obtain ⟨hmem, hentry⟩ := mem_of_lowerBound hbound
  exact ⟨hmem, hentry, by simpa using hless⟩

theorem lowerBound_eq_none {less : α → α → Bool} {key : α} {tree : SearchTree α β}
    (hall : ∀ entry ∈ tree.entries, less entry.1 key = true) : tree.lowerBound less key = none := by
  cases hbound : tree.lowerBound less key with
  | none => rfl
  | some entry =>
      obtain ⟨hmem, hentry⟩ := mem_of_lowerBound hbound
      rw [hall entry hmem] at hentry
      cases hentry

/-- Some tree has these entries in this order. -/
def ofList : List (α × β) → SearchTree α β
  | [] => leaf
  | entry :: rest => node leaf entry.1 entry.2 (ofList rest)

theorem entries_ofList (list : List (α × β)) : (ofList list).entries = list := by
  induction list with
  | nil => rfl
  | cons entry rest ih => rw [ofList, entries, ih, entries, List.nil_append]

/-! ### Ordered trees -/

variable [LinearOrder γ] (rank : α → γ)

/-- The tree has the entries of the list, in the order of their ranks. -/
structure Holds (tree : SearchTree α β) (list : List (α × β)) : Prop where
  ordered : tree.entries.Pairwise fun first second => rank first.1 < rank second.1
  perm : tree.entries.Perm list

/-- The comparison tells the order between the key and those in the list. -/
def Compares (less : α → α → Bool) (list : List (α × β)) (key : α) : Prop :=
  ∀ entry ∈ list, (less entry.1 key = true ↔ rank entry.1 < rank key) ∧
    (less key entry.1 = true ↔ rank key < rank entry.1)

variable {rank} {less : α → α → Bool} {key : α} {list : List (α × β)} {tree : SearchTree α β}
  {same : α → Bool}

theorem holds_leaf : Holds rank (leaf : SearchTree α β) [] := ⟨List.Pairwise.nil, List.Perm.nil⟩

/-- A rotation leaves the entries in their order. -/
theorem Holds.rotate {tree' : SearchTree α β} (hholds : Holds rank tree list)
    (hentries : tree'.entries = tree.entries) : Holds rank tree' list where
  ordered := by
    rw [hentries]
    exact hholds.ordered
  perm := by
    rw [hentries]
    exact hholds.perm

/-- The parts of an ordered tree. -/
theorem ordered_node {left right : SearchTree α β} {own : α} {stored : β}
    (hordered : (node left own stored right).entries.Pairwise fun first second =>
      rank first.1 < rank second.1) :
    (left.entries.Pairwise fun first second => rank first.1 < rank second.1) ∧
      (right.entries.Pairwise fun first second => rank first.1 < rank second.1) ∧
      (∀ entry ∈ left.entries, rank entry.1 < rank own) ∧
      ∀ entry ∈ right.entries, rank own < rank entry.1 := by
  rw [entries, List.pairwise_append, List.pairwise_cons] at hordered
  obtain ⟨hleft, ⟨hown, hright⟩, hbetween⟩ := hordered
  exact ⟨hleft, hright, fun entry hmem => hbetween entry hmem _ List.mem_cons_self, hown⟩

theorem Compares.node {left right : SearchTree α β} {own : α} {stored : β}
    (hcompares : Compares rank less (node left own stored right).entries key) :
    Compares rank less left.entries key ∧ Compares rank less right.entries key ∧
      (less own key = true ↔ rank own < rank key) ∧
      (less key own = true ↔ rank key < rank own) := by
  rw [Compares, entries] at hcompares
  refine ⟨?_, ?_, hcompares (own, stored) (by simp)⟩
  · intro entry hmem
    exact hcompares entry (List.mem_append_left _ hmem)
  · intro entry hmem
    exact hcompares entry (List.mem_append_right _ (List.mem_cons_of_mem _ hmem))

theorem Compares.perm {list' : List (α × β)} (hcompares : Compares rank less list key)
    (hperm : list'.Perm list) : Compares rank less list' key :=
  fun entry hmem => hcompares entry (hperm.mem_iff.mp hmem)

/-! ### Finding -/

/-- What stands in an ordered tree is found. -/
theorem find_of_mem {entry : α × β}
    (hordered : tree.entries.Pairwise fun first second => rank first.1 < rank second.1)
    (hcompares : Compares rank less tree.entries key) (hmem : entry ∈ tree.entries)
    (hentry : rank entry.1 = rank key) : tree.find less key = some entry := by
  have hlast : less key entry.1 = false := by
    rw [Bool.eq_false_iff, ne_eq, (hcompares entry hmem).2, hentry]
    exact lt_irrefl _
  suffices hbound : tree.lowerBound less key = some entry by
    rw [find, hbound, Option.filter_some, hlast]
    rfl
  clear hlast
  induction tree with
  | leaf => cases hmem
  | node left own stored right ihLeft ihRight =>
      obtain ⟨hleft, hright, hbefore, hafter⟩ := ordered_node hordered
      obtain ⟨hcompLeft, hcompRight, hown, -⟩ := hcompares.node
      rw [lowerBound]
      rw [entries, List.mem_append, List.mem_cons] at hmem
      rcases hmem with hmem | rfl | hmem
      · have hless : less own key ≠ true := by
          rw [ne_eq, hown, ← hentry]
          exact (hbefore entry hmem).asymm
        rw [if_neg hless, ihLeft hleft hcompLeft hmem]
        rfl
      · have hless : less own key ≠ true := by
          rw [ne_eq, hown, ← hentry]
          exact lt_irrefl _
        have hnone : left.lowerBound less key = none := by
          apply lowerBound_eq_none
          intro other hother
          rw [(hcompLeft other hother).1, ← hentry]
          exact hbefore other hother
        rw [if_neg hless, hnone]
        rfl
      · have hless : less own key = true := by
          rw [hown, ← hentry]
          exact hafter entry hmem
        rw [if_pos hless, ihRight hright hcompRight hmem]

/-- **Finding.** An ordered tree finds what the list of its entries has under the key. -/
theorem Holds.find (hholds : Holds rank tree list) (hcompares : Compares rank less list key)
    (hsame : ∀ own, same own = true ↔ rank own = rank key) :
    tree.find less key = list.find? fun entry => same entry.1 := by
  have hcompares' := hcompares.perm hholds.perm
  cases hfind : list.find? fun entry => same entry.1 with
  | some entry =>
      have hmem := hholds.perm.mem_iff.mpr (List.mem_of_find?_eq_some hfind)
      have hentry := @List.find?_some (α × β) (fun entry => same entry.1) entry list hfind
      exact find_of_mem hholds.ordered hcompares' hmem ((hsame _).mp hentry)
  | none =>
      rw [List.find?_eq_none] at hfind
      cases htree : tree.find less key with
      | none => rfl
      | some entry =>
          obtain ⟨hmem, hless, hless'⟩ := mem_of_find htree
          obtain ⟨hfirst, hsecond⟩ := hcompares' entry hmem
          rw [Bool.eq_false_iff, ne_eq, hfirst, not_lt] at hless
          rw [Bool.eq_false_iff, ne_eq, hsecond, not_lt] at hless'
          exact absurd ((hsame _).mpr (hless'.antisymm hless))
            (hfind entry (hholds.perm.mem_iff.mp hmem))

/-! ### Inserting and assigning -/

theorem insert_of_mem {entry : α × β} (value : β)
    (hordered : tree.entries.Pairwise fun first second => rank first.1 < rank second.1)
    (hcompares : Compares rank less tree.entries key) (hmem : entry ∈ tree.entries)
    (hentry : rank entry.1 = rank key) : tree.insert less key value = tree := by
  induction tree with
  | leaf => cases hmem
  | node left own stored right ihLeft ihRight =>
      obtain ⟨hleft, hright, hbefore, hafter⟩ := ordered_node hordered
      obtain ⟨hcompLeft, hcompRight, hown, hown'⟩ := hcompares.node
      rw [SearchTree.insert]
      rw [entries, List.mem_append, List.mem_cons] at hmem
      rcases hmem with hmem | rfl | hmem
      · have hless : less key own = true := by
          rw [hown', ← hentry]
          exact hbefore entry hmem
        rw [if_pos hless, ihLeft hleft hcompLeft hmem]
      · rw [if_neg (by rw [hown', ← hentry]; exact lt_irrefl _),
          if_neg (by rw [hown, ← hentry]; exact lt_irrefl _)]
      · have hless : less own key = true := by
          rw [hown, ← hentry]
          exact hafter entry hmem
        have hless' : ¬ less key own = true := by
          rw [hown', ← hentry]
          exact (hafter entry hmem).asymm
        rw [if_neg hless', if_pos hless, ihRight hright hcompRight hmem]

/-- A new key goes between those before it and those behind it. -/
theorem entries_insert (value : β)
    (hordered : tree.entries.Pairwise fun first second => rank first.1 < rank second.1)
    (hcompares : Compares rank less tree.entries key)
    (hnew : ∀ entry ∈ tree.entries, rank entry.1 ≠ rank key) :
    ∃ before after, tree.entries = before ++ after ∧
      (tree.insert less key value).entries = before ++ (key, value) :: after ∧
      (∀ entry ∈ before, rank entry.1 < rank key) ∧ ∀ entry ∈ after, rank key < rank entry.1 := by
  induction tree with
  | leaf => exact ⟨[], [], rfl, rfl, by simp, by simp⟩
  | node left own stored right ihLeft ihRight =>
      obtain ⟨hleft, hright, hbefore, hafter⟩ := ordered_node hordered
      obtain ⟨hcompLeft, hcompRight, hown, hown'⟩ := hcompares.node
      have hne : rank own ≠ rank key := hnew (own, stored) (by simp [entries])
      rw [SearchTree.insert]
      by_cases hless : rank key < rank own
      · obtain ⟨before, after, hsplit, hinsert, hfirst, hlast⟩ := ihLeft hleft hcompLeft
          fun entry hmem => hnew entry (List.mem_append_left _ hmem)
        refine ⟨before, after ++ (own, stored) :: right.entries, ?_, ?_, hfirst, ?_⟩
        · rw [entries, hsplit, List.append_assoc]
        · rw [if_pos (hown'.mpr hless), entries, hinsert, List.append_assoc, List.cons_append]
        · intro entry hmem
          rw [List.mem_append, List.mem_cons] at hmem
          rcases hmem with hmem | rfl | hmem
          · exact hlast entry hmem
          · exact hless
          · exact hless.trans (hafter entry hmem)
      · have hgreater : rank own < rank key := lt_of_le_of_ne (not_lt.mp hless) hne
        obtain ⟨before, after, hsplit, hinsert, hfirst, hlast⟩ := ihRight hright hcompRight
          fun entry hmem => hnew entry (List.mem_append_right _ (List.mem_cons_of_mem _ hmem))
        refine ⟨left.entries ++ (own, stored) :: before, after, ?_, ?_, ?_, hlast⟩
        · rw [entries, hsplit, List.append_assoc, List.cons_append]
        · rw [if_neg (by rw [hown']; exact hless), if_pos (hown.mpr hgreater), entries, hinsert,
            List.append_assoc, List.cons_append]
        · intro entry hmem
          rw [List.mem_append, List.mem_cons] at hmem
          rcases hmem with hmem | rfl | hmem
          · exact (hbefore entry hmem).trans hgreater
          · exact hgreater
          · exact hfirst entry hmem

/-- **Inserting.** The entry comes last in the list, unless its key is there already. -/
theorem Holds.insert (value : β) (hholds : Holds rank tree list)
    (hcompares : Compares rank less list key)
    (hsame : ∀ own, same own = true ↔ rank own = rank key) :
    Holds rank (tree.insert less key value)
      (if list.any fun entry => same entry.1 then list else list ++ [(key, value)]) := by
  have hcompares' := hcompares.perm hholds.perm
  split_ifs with hpresent
  · obtain ⟨entry, hmem, hentry⟩ := List.any_eq_true.mp hpresent
    rw [insert_of_mem value hholds.ordered hcompares' (hholds.perm.mem_iff.mpr hmem)
      ((hsame _).mp hentry)]
    exact hholds
  · have hnew : ∀ entry ∈ tree.entries, rank entry.1 ≠ rank key := by
      intro entry hmem hentry
      exact hpresent (List.any_eq_true.mpr
        ⟨entry, hholds.perm.mem_iff.mp hmem, (hsame _).mpr hentry⟩)
    obtain ⟨before, after, hsplit, hinsert, hfirst, hlast⟩ :=
      entries_insert value hholds.ordered hcompares' hnew
    have hordered := hholds.ordered
    rw [hsplit, List.pairwise_append] at hordered
    constructor
    · rw [hinsert, List.pairwise_append, List.pairwise_cons]
      refine ⟨hordered.1, ⟨hlast, hordered.2.1⟩, ?_⟩
      intro entry hmem other hother
      rcases List.mem_cons.mp hother with rfl | hother
      · exact hfirst entry hmem
      · exact hordered.2.2 entry hmem other hother
    · rw [hinsert]
      have hperm := hholds.perm
      rw [hsplit] at hperm
      exact List.perm_middle.trans ((hperm.cons _).trans (List.perm_append_singleton _ _).symm)

/-- The list with the value under the key. -/
theorem entries_assign (value : β)
    (hordered : tree.entries.Pairwise fun first second => rank first.1 < rank second.1)
    (hcompares : Compares rank less tree.entries key)
    (hsame : ∀ own, same own = true ↔ rank own = rank key) :
    (tree.assign less key value).entries = tree.entries.map fun entry =>
      if same entry.1 then (entry.1, value) else entry := by
  have hside : ∀ side : List (α × β), (∀ entry ∈ side, rank entry.1 ≠ rank key) →
      (side.map fun entry => if same entry.1 then (entry.1, value) else entry) = side := by
    intro side hne
    refine (List.map_congr_left ?_).trans (List.map_id side)
    intro entry hmem
    rw [if_neg (by rw [hsame]; exact hne entry hmem)]
    rfl
  induction tree with
  | leaf => rfl
  | node left own stored right ihLeft ihRight =>
      obtain ⟨hleft, hright, hbefore, hafter⟩ := ordered_node hordered
      obtain ⟨hcompLeft, hcompRight, hown, hown'⟩ := hcompares.node
      rw [SearchTree.assign, entries, List.map_append, List.map_cons]
      rcases lt_trichotomy (rank own) (rank key) with hless | heq | hless
      · rw [if_neg (by rw [hown']; exact hless.asymm), if_pos (hown.mpr hless), entries,
          ihRight hright hcompRight, if_neg (by rw [hsame]; exact hless.ne),
          hside left.entries fun entry hmem => ((hbefore entry hmem).trans hless).ne]
      · rw [if_neg (by rw [hown', heq]; exact lt_irrefl _),
          if_neg (by rw [hown, heq]; exact lt_irrefl _), entries, if_pos ((hsame own).mpr heq),
          hside left.entries fun entry hmem => heq ▸ (hbefore entry hmem).ne,
          hside right.entries fun entry hmem => heq ▸ (hafter entry hmem).ne']
      · rw [if_pos (hown'.mpr hless), entries, ihLeft hleft hcompLeft,
          if_neg (by rw [hsame]; exact hless.ne'),
          hside right.entries fun entry hmem => (hless.trans (hafter entry hmem)).ne']

/-- **Assigning.** The value under the key is replaced. -/
theorem Holds.assign (value : β) (hholds : Holds rank tree list)
    (hcompares : Compares rank less list key)
    (hsame : ∀ own, same own = true ↔ rank own = rank key) :
    Holds rank (tree.assign less key value)
      (list.map fun entry => if same entry.1 then (entry.1, value) else entry) := by
  have hentries := entries_assign value hholds.ordered (hcompares.perm hholds.perm) hsame
  constructor
  · rw [hentries, List.pairwise_map]
    refine hholds.ordered.imp ?_
    intro first second hless
    split_ifs <;> exact hless
  · rw [hentries]
    exact hholds.perm.map _

end SearchTree

end Liblw.Lib
