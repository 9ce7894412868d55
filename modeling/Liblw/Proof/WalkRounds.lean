import Liblw.Lib.Lex
import Liblw.Proof.TrieShape

/-!
# The walk ends

Each round of `walk_path` leads to a node that comes later in the order of a search which tries the
children of a node before its wildcard, although the position in the path can go back. The stack
holds wildcards beside the way, each inside the way of the one above it.
-/

namespace Liblw.Http

open Liblw.Lib

/-- A child of a node is tried before its wildcard. -/
def Key.Before : Key → Key → Prop
  | .char _, .wild => True
  | _, _ => False

namespace EndpointTrie

/-- The order in which a search comes to the nodes. -/
def Sooner : Node → Node → Prop := List.Lex Key.Before

theorem Sooner.trans {first second third : Node} (hfirst : Sooner first second)
    (hsecond : Sooner second third) : Sooner first third := by
  refine List.lex_trans ?_ hfirst hsecond
  rintro (c | _) (d | _) (e | _) hbefore hbefore' <;> trivial

theorem not_sooner_self (node : Node) : ¬ Sooner node node := by
  refine List.lex_irrefl ?_ node
  rintro (c | _) hbefore <;> exact hbefore

variable {E : Type} {engine : RegexEngine} {trie : EndpointTrie E} {path : Text}
  {walk next : Walk} {c : Char}

/-- `lower` is beside the way that leads to `node`. -/
def Beside (lower node : Node) : Prop := ∃ d, lower ++ [.char d] <+: node

/-- What holds of the walk in every round. -/
structure Walking (walk : Walk) : Prop where
  position : walk.node ≠ [] → 0 < walk.i
  positions : ∀ entry ∈ walk.wildcardStack, 0 < entry.2
  beside : ∀ entry ∈ walk.wildcardStack, Beside entry.1 walk.node
  nested : walk.wildcardStack.Pairwise fun upper lower => Beside lower.1 upper.1

theorem walking_start : Walking ⟨[], 0, [], []⟩ where
  position := by simp
  positions := by simp
  beside := by simp
  nested := List.Pairwise.nil

theorem Beside.append {lower node : Node} (hbeside : Beside lower node) (more : Node) :
    Beside lower (node ++ more) := by
  obtain ⟨d, hbegin⟩ := hbeside
  exact ⟨d, hbegin.trans (List.prefix_append _ _)⟩

/-- The round has its own wildcard above the stack of the walk. -/
theorem Walking.roundStack (hshaped : Shaped trie) (hwalking : Walking walk) (d : Char) :
    (∀ entry ∈ roundStack trie walk, 0 < entry.2 ∧ Beside entry.1 (walk.node ++ [.char d])) ∧
      (roundStack trie walk).Pairwise fun upper lower => Beside lower.1 upper.1 := by
  have hbelow : ∀ entry ∈ walk.wildcardStack,
      0 < entry.2 ∧ Beside entry.1 (walk.node ++ [.char d]) := fun entry hmem =>
    ⟨hwalking.positions entry hmem, (hwalking.beside entry hmem).append _⟩
  unfold EndpointTrie.roundStack
  split_ifs with hwild
  · refine ⟨?_, List.pairwise_cons.mpr ⟨hwalking.beside, hwalking.nested⟩⟩
    intro entry hmem
    rcases List.mem_cons.mp hmem with rfl | hmem
    · refine ⟨hwalking.position ?_, d, List.prefix_rfl⟩
      obtain ⟨before, hnode⟩ := hshaped.behind _ hwild
      rw [hnode]
      simp
    · exact hbelow entry hmem
  · exact ⟨hbelow, hwalking.nested⟩

/-- Going back leads to the wildcard of an entry, with the stack below it. -/
theorem backtrack_eq_some {parameters : HeadersView} {stack : List (Node × Nat)}
    (hback : backtrack engine trie path parameters stack = some next) :
    ∃ skipped node i, ∃ captured : Text, stack = skipped ++ (node, i) :: next.wildcardStack ∧
      (trie.wildcard node).isSome ∧ next.node = node ++ [.wild] ∧
      next.i = i + captured.length := by
  induction stack with
  | nil => cases hback
  | cons entry stack ih =>
      obtain ⟨node, i⟩ := entry
      have hskip : backtrack engine trie path parameters stack = some next →
          ∃ skipped node' i', ∃ captured : Text,
            (node, i) :: stack = skipped ++ (node', i') :: next.wildcardStack ∧
              (trie.wildcard node').isSome ∧ next.node = node' ++ [.wild] ∧
              next.i = i' + captured.length := by
        intro hrest
        obtain ⟨skipped, node', i', captured, rfl, hfound⟩ := ih hrest
        exact ⟨(node, i) :: skipped, node', i', captured, rfl, hfound⟩
      rw [backtrack] at hback
      cases hwild : trie.wildcard node with
      | none =>
          rw [hwild] at hback
          exact hskip hback
      | some matcher =>
          rw [hwild] at hback
          dsimp only at hback
          cases hmatch : matcher.match engine (partAt path i) with
          | none =>
              rw [hmatch] at hback
              exact hskip hback
          | some captured =>
              rw [hmatch] at hback
              obtain rfl := Option.some.inj hback
              exact ⟨[], node, i, captured, rfl, by rw [hwild]; rfl, rfl, rfl⟩

theorem stepWalk_eq (engine : RegexEngine) (trie : EndpointTrie E) (path : Text) (walk : Walk)
    (c : Char) :
    stepWalk engine trie path walk c =
      if walk.node ++ [.char c] ∈ trie.nodes then
        some ⟨walk.node ++ [.char c], walk.i + 1, roundStack trie walk, walk.parameters⟩
      else backtrack engine trie path walk.parameters (roundStack trie walk) := rfl

/-- **One round** leads to a node of the trie that comes later. -/
theorem Walking.step (hshaped : Shaped trie) (hwalking : Walking walk)
    (hstep : stepWalk engine trie path walk c = some next) :
    Walking next ∧ next.node ∈ trie.nodes ∧ Sooner walk.node next.node := by
  obtain ⟨hentries, hnested⟩ := hwalking.roundStack hshaped c
  rw [stepWalk_eq] at hstep
  split_ifs at hstep with hchild
  · obtain rfl := Option.some.inj hstep
    exact ⟨⟨fun _ => Nat.succ_pos _, fun entry hmem => (hentries entry hmem).1,
      fun entry hmem => (hentries entry hmem).2, hnested⟩, hchild,
      lex_of_begins (List.prefix_append _ _) (by simp)⟩
  · obtain ⟨skipped, node, i, captured, hstack, hwild, hnode, hi⟩ := backtrack_eq_some hstep
    rw [hstack] at hentries hnested
    obtain ⟨hpositive, d, hbeside⟩ := hentries (node, i) (by simp)
    obtain ⟨hbelow, hrest⟩ := List.pairwise_cons.mp (List.pairwise_append.mp hnested).2.1
    refine ⟨⟨?_, ?_, ?_, hrest⟩, ?_, ?_⟩
    · intro _
      rw [hi]
      exact Nat.add_pos_left hpositive _
    · intro entry hmem
      exact (hentries entry (by simp [hmem])).1
    · intro entry hmem
      rw [hnode]
      exact (hbelow entry hmem).append _
    · rw [hnode]
      exact (hshaped.edge node).mpr hwild
    · rw [hnode]
      -- the wildcard is that of the node itself, or of one beside the way to it
      rcases List.prefix_concat_iff.mp hbeside with hself | hbefore
      · obtain ⟨rfl, -⟩ := List.append_inj' hself rfl
        exact lex_of_begins (List.prefix_append _ _) (by simp)
      · exact lex_of_part (show Key.Before (.char d) .wild from trivial) hbefore List.prefix_rfl

/-! ### All rounds -/

theorem walkAt_succ_eq_some {n : Nat} (hnext : walkAt engine trie path (n + 1) = some next) :
    ∃ walk c, walkAt engine trie path n = some walk ∧ path[walk.i]? = some c ∧
      stepWalk engine trie path walk c = some next := by
  obtain ⟨walk, hwalk, hrest⟩ := Option.bind_eq_some_iff.mp hnext
  obtain ⟨c, hc, hstep⟩ := Option.bind_eq_some_iff.mp hrest
  exact ⟨walk, c, hwalk, hc, hstep⟩

theorem walking_walkAt (hshaped : Shaped trie) {n : Nat}
    (hwalk : walkAt engine trie path n = some walk) : Walking walk := by
  induction n generalizing walk with
  | zero =>
      obtain rfl := Option.some.inj hwalk
      exact walking_start
  | succ n ih =>
      obtain ⟨before, c, hbefore, -, hstep⟩ := walkAt_succ_eq_some hwalk
      exact ((ih hbefore).step hshaped hstep).1

theorem mem_nodes_of_walkAt (hshaped : Shaped trie) {n : Nat}
    (hwalk : walkAt engine trie path (n + 1) = some walk) : walk.node ∈ trie.nodes := by
  obtain ⟨before, c, hbefore, -, hstep⟩ := walkAt_succ_eq_some hwalk
  exact ((walking_walkAt hshaped hbefore).step hshaped hstep).2.1

theorem sooner_of_lt (hshaped : Shaped trie) {m n : Nat} {later : Walk} (hlt : m < n)
    (hwalk : walkAt engine trie path m = some walk)
    (hlater : walkAt engine trie path n = some later) : Sooner walk.node later.node := by
  induction n generalizing later with
  | zero => omega
  | succ n ih =>
      obtain ⟨before, c, hbefore, -, hstep⟩ := walkAt_succ_eq_some hlater
      have hround := ((walking_walkAt hshaped hbefore).step hshaped hstep).2.2
      rcases Nat.lt_succ_iff_lt_or_eq.mp hlt with hless | rfl
      · exact (ih hless hbefore).trans hround
      · rw [hwalk, Option.some.injEq] at hbefore
        rwa [hbefore]

theorem exists_walkAt_of_le {m n : Nat} (hle : m ≤ n) {later : Walk}
    (hlater : walkAt engine trie path n = some later) :
    ∃ walk, walkAt engine trie path m = some walk := by
  induction n generalizing later with
  | zero => exact ⟨later, by rwa [Nat.le_zero.mp hle]⟩
  | succ n ih =>
      rcases Nat.le_succ_iff.mp hle with hless | rfl
      · obtain ⟨before, -, hbefore, -, -⟩ := walkAt_succ_eq_some hlater
        exact ih hless hbefore
      · exact ⟨later, hlater⟩

/-- There are no more rounds than nodes. -/
theorem le_card_of_walkAt (hshaped : Shaped trie) {n : Nat}
    (hwalk : walkAt engine trie path n = some walk) : n ≤ trie.nodes.card := by
  have hall : ∀ m : Fin n, ∃ before, walkAt engine trie path (m + 1) = some before :=
    fun m => exists_walkAt_of_le m.isLt hwalk
  choose visited hvisited using hall
  have hinjective : Function.Injective fun m => (visited m).node := by
    intro m m' hsame
    dsimp only at hsame
    by_contra hne
    rcases Nat.lt_or_gt_of_ne (Fin.val_ne_of_ne hne) with hless | hless
    · have hsooner := sooner_of_lt hshaped (Nat.succ_lt_succ hless) (hvisited m) (hvisited m')
      rw [hsame] at hsooner
      exact not_sooner_self _ hsooner
    · have hsooner := sooner_of_lt hshaped (Nat.succ_lt_succ hless) (hvisited m') (hvisited m)
      rw [hsame] at hsooner
      exact not_sooner_self _ hsooner
  calc n = (Finset.univ.image fun m => (visited m).node).card := by
        rw [Finset.card_image_of_injective _ hinjective, Finset.card_univ, Fintype.card_fin]
    _ ≤ trie.nodes.card := by
        apply Finset.card_le_card
        intro node hmem
        obtain ⟨m, -, rfl⟩ := Finset.mem_image.mp hmem
        exact mem_nodes_of_walkAt hshaped (hvisited m)

/-- The loop returns, or all its rounds lead on. -/
theorem walkLoop_cases {rounds n : Nat} (hwalk : walkAt engine trie path n = some walk) :
    (∃ result, walkLoop engine trie path rounds walk = .ok result) ∨
      ∃ later, walkAt engine trie path (n + rounds) = some later := by
  induction rounds generalizing n walk with
  | zero => exact Or.inr ⟨walk, hwalk⟩
  | succ rounds ih =>
      rw [walkLoop]
      cases hc : path[walk.i]? with
      | none => exact Or.inl ⟨_, rfl⟩
      | some c =>
          dsimp only
          cases hstep : stepWalk engine trie path walk c with
          | none => exact Or.inl ⟨_, rfl⟩
          | some next =>
              have hnext : walkAt engine trie path (n + 1) = some next := by
                rw [walkAt, hwalk, Option.bind_some, hc, Option.bind_some, hstep]
              rw [show n + (rounds + 1) = n + 1 + rounds by omega]
              exact ih hnext

/-- **The walk ends**, on every trie that attempts to insert have made and on every path. It comes
to no node twice, and where it goes back the position of a wildcard and the size of what is captured
there are not both zero. -/
theorem walkPath_ends (route : E → Text) (attempts : List (List PathMatcher × E))
    (engine : RegexEngine) (path : Text) :
    let trie := attempted route attempts
    (∃ result, walkPath engine trie path = .ok result) ∧
      (∀ m n walk later, m < n → walkAt engine trie path m = some walk →
        walkAt engine trie path n = some later → walk.node ≠ later.node) ∧
      ∀ n walk, walkAt engine trie path n = some walk → ∀ entry ∈ roundStack trie walk,
        ∀ captured : Text, 1 ≤ entry.2 + captured.length := by
  intro trie
  have hshaped : Shaped trie := shaped_attempted route attempts
  refine ⟨?_, ?_, ?_⟩
  · have hstart : walkAt engine trie path 0 = some ⟨[], 0, [], []⟩ := rfl
    rcases @walkLoop_cases _ _ _ _ _ (trie.nodes.card + 1) 0 hstart with hreturns | ⟨later, hlater⟩
    · exact hreturns
    · have hle := le_card_of_walkAt hshaped hlater
      omega
  · intro m n walk later hlt hwalk hlater hsame
    have hsooner := sooner_of_lt hshaped hlt hwalk hlater
    rw [hsame] at hsooner
    exact not_sooner_self _ hsooner
  · intro n walk hwalk entry hmem captured
    have hpositive := (((walking_walkAt hshaped hwalk).roundStack hshaped '/').1 entry hmem).1
    omega

end EndpointTrie

end Liblw.Http
