import Mathlib.Tactic

/-!
# Blocks of memory

A block is a run of cells that starts at some address. Loading and storing take absolute addresses
and are refused outside the block, except that no cell at all can be loaded from or stored to any
address: copying an empty range does not look at its pointer.
-/

namespace Liblw.Lib

structure Block (α : Type) where
  address : Nat
  cells : List α
deriving DecidableEq, Repr

namespace Block

variable {α : Type}

def Contains (block : Block α) (pointer count : Nat) : Prop :=
  block.address ≤ pointer ∧ pointer + count ≤ block.address + block.cells.length

instance (block : Block α) (pointer count : Nat) : Decidable (block.Contains pointer count) :=
  inferInstanceAs (Decidable (_ ∧ _))

def load (block : Block α) (pointer count : Nat) : Option (List α) :=
  if count = 0 then some []
  else if block.Contains pointer count then
    some ((block.cells.drop (pointer - block.address)).take count)
  else none

def store (block : Block α) (pointer : Nat) (values : List α) : Option (Block α) :=
  if values.length = 0 then some block
  else if block.Contains pointer values.length then
    let offset := pointer - block.address
    some { block with
      cells := block.cells.take offset ++ values ++ block.cells.drop (offset + values.length) }
  else none

theorem load_zero (block : Block α) (pointer : Nat) : block.load pointer 0 = some [] := rfl

theorem load_of_contains {block : Block α} {pointer count : Nat}
    (hcontains : block.Contains pointer count) :
    block.load pointer count = some ((block.cells.drop (pointer - block.address)).take count) := by
  unfold load
  split_ifs with hzero
  · rw [hzero, List.take_zero]
  · rfl

theorem length_of_load {block : Block α} {pointer count : Nat} {values : List α}
    (hload : block.load pointer count = some values) : values.length = count := by
  unfold load at hload
  split_ifs at hload with hzero hcontains
  · obtain rfl := Option.some.inj hload
    exact hzero.symm
  · obtain rfl := Option.some.inj hload
    obtain ⟨hbelow, habove⟩ := hcontains
    rw [List.length_take, List.length_drop]
    omega

/-- What is loaded in two adjacent pieces can be loaded at once. -/
theorem load_add {block : Block α} {pointer first second : Nat}
    (hfirst : block.Contains pointer first) (hsecond : block.Contains (pointer + first) second) :
    block.load pointer (first + second) = some
      (((block.cells.drop (pointer - block.address)).take first) ++
        (block.cells.drop (pointer + first - block.address)).take second) := by
  have hboth : block.Contains pointer (first + second) := ⟨hfirst.1, by have := hsecond.2; omega⟩
  have hoffset : pointer + first - block.address = pointer - block.address + first := by
    have := hfirst.1
    omega
  rw [load_of_contains hboth, hoffset, List.take_add, List.drop_drop]

theorem exists_store {block : Block α} {pointer : Nat} {values : List α}
    (hcontains : block.Contains pointer values.length) :
    ∃ after, block.store pointer values = some after := by
  unfold store
  split_ifs
  · exact ⟨_, rfl⟩
  · exact ⟨_, rfl⟩

/-- A store keeps the place and the size of the block. -/
theorem store_frame {block after : Block α} {pointer : Nat} {values : List α}
    (hstore : block.store pointer values = some after) :
    after.address = block.address ∧ after.cells.length = block.cells.length := by
  unfold store at hstore
  split_ifs at hstore with hzero hcontains
  · obtain rfl := Option.some.inj hstore
    exact ⟨rfl, rfl⟩
  · obtain rfl := Option.some.inj hstore
    obtain ⟨hbelow, habove⟩ := hcontains
    refine ⟨rfl, ?_⟩
    simp only [List.length_append, List.length_take, List.length_drop]
    omega

theorem contains_of_store {block after : Block α} {pointer : Nat} {values : List α}
    (hstore : block.store pointer values = some after) (hvalues : values ≠ []) :
    block.Contains pointer values.length := by
  unfold store at hstore
  split_ifs at hstore with hzero hcontains
  · exact absurd (List.length_eq_zero_iff.mp hzero) hvalues
  · exact hcontains

theorem load_store_same {block after : Block α} {pointer : Nat} {values : List α}
    (hstore : block.store pointer values = some after) :
    after.load pointer values.length = some values := by
  obtain ⟨haddress, hlength⟩ := store_frame hstore
  by_cases hvalues : values = []
  · subst hvalues
    rfl
  have hcontains := contains_of_store hstore hvalues
  have hafter : after.Contains pointer values.length := by
    unfold Contains at hcontains ⊢
    rwa [haddress, hlength]
  rw [load_of_contains hafter, haddress]
  unfold store at hstore
  rw [if_neg (by simpa using hvalues), if_pos hcontains] at hstore
  obtain rfl := Option.some.inj hstore
  obtain ⟨hbelow, habove⟩ := hcontains
  have hoffset : (block.cells.take (pointer - block.address)).length = pointer - block.address := by
    rw [List.length_take]
    omega
  rw [List.append_assoc, List.drop_left' hoffset, List.take_left]

/-- A store leaves what lies in front of it. -/
theorem load_store_before {block after : Block α} {pointer target count : Nat} {values : List α}
    (hstore : block.store target values = some after) (hbefore : pointer + count ≤ target) :
    after.load pointer count = block.load pointer count := by
  obtain ⟨haddress, hlength⟩ := store_frame hstore
  by_cases hvalues : values = []
  · subst hvalues
    obtain rfl := Option.some.inj hstore
    rfl
  have hcontains := contains_of_store hstore hvalues
  unfold store at hstore
  rw [if_neg (by simpa using hvalues), if_pos hcontains] at hstore
  by_cases hinside : block.Contains pointer count
  · have hafter : after.Contains pointer count := by
      unfold Contains at hinside ⊢
      rwa [haddress, hlength]
    rw [load_of_contains hafter, load_of_contains hinside, haddress]
    obtain rfl := Option.some.inj hstore
    have hroom : pointer - block.address + count ≤
        (block.cells.take (target - block.address)).length := by
      obtain ⟨hbelow, habove⟩ := hcontains
      obtain ⟨hstart, -⟩ := hinside
      rw [List.length_take]
      omega
    rw [List.append_assoc, List.drop_append_of_le_length (by omega),
      List.take_append_of_le_length (by rw [List.length_drop]; omega), List.drop_take,
      List.take_take]
    congr 2
    have hroom' := hroom
    rw [List.length_take] at hroom'
    omega
  · have hafter : ¬ after.Contains pointer count := by
      unfold Contains at hinside ⊢
      rwa [haddress, hlength]
    unfold load
    rw [if_neg hinside, if_neg hafter]

end Block

end Liblw.Lib
