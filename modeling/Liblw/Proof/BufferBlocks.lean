import Liblw.Memory.Buffer

/-!
# Every block is deleted once

A buffer that is moved from, trimmed or viewed leaves its block to its one owner, so that no block
is deleted twice and none is forgotten. A buffer can be used for as long as nothing has happened to
the owner of its block, and never reaches out of the block.
-/

namespace Liblw.Memory

open Liblw.Lib
open Lib.Holdings (Evolves)

namespace Objects

variable {state next : Objects} {action : Action} {name target source block : Nat}

/-! ### What the calls leave -/

/-- What is live without the block that the buffer owns. -/
def remaining (state : Objects) (name : Nat) : Finset Nat :=
  match (state.buffer name).owned with
  | some data => state.live.erase data.block
  | none => state.live

/-- A buffer owns blocks from their front, and what it points to is inside of one. -/
structure Placed (state : Objects) : Prop where
  front : ∀ name data, (state.buffer name).owned = some data → data.offset = 0
  given : ∀ block ∈ state.live, block < state.sizes.length
  covers : ∀ name, state.Covers (state.buffer name).data (state.buffer name).capacity

structure Sound (state : Objects) : Prop extends Placed state where
  exclusive : (holdings state).Exclusive

theorem Sound.live (hsound : state.Sound) {data : Pointer}
    (howned : (state.buffer name).owned = some data) : data.block ∈ state.live :=
  hsound.exclusive.live (.buffer name) data.block (congrArg (Option.map Pointer.block) howned)

theorem exec_deleteOwned (hsound : state.Sound) (name : Nat) :
    (deleteOwned name).exec state = (.ok (), { state with live := state.remaining name }) := by
  unfold deleteOwned remaining
  rw [Call.exec_get_bind]
  cases howned : (state.buffer name).owned with
  | none => rfl
  | some data =>
      have hdelete : data.offset = 0 ∧ data.block ∈ state.live :=
        ⟨hsound.front name data howned, hsound.live howned⟩
      dsimp only
      unfold deleteArray
      rw [Call.exec_get_bind, if_pos hdelete, Call.exec_set]

theorem exec_destroy (hsound : state.Sound) (name : Nat) :
    (destroy name).exec state =
      (.ok (), { state with live := state.remaining name }.withBuffer name {}) := by
  unfold destroy
  rw [Call.exec_bind_ok (exec_deleteOwned hsound name)]
  rfl

/-- The source keeps all but the ownership. -/
def handOver (state : Objects) (target source : Nat) : Objects :=
  let state := state.withBuffer target (state.buffer source)
  state.withBuffer source { state.buffer source with ownData := false }

theorem exec_moveAssign (hsound : state.Sound) (target source : Nat) :
    (moveAssign target source).exec state =
      (.ok (), { state with live := state.remaining target }.handOver target source) := by
  unfold moveAssign
  rw [Call.exec_bind_ok (exec_deleteOwned hsound target)]
  rfl

theorem exec_deleteElsewhere (hsound : state.Sound) (helsewhere : block ∈ state.elsewhere) :
    (deleteElsewhere block).exec state =
      (.ok (), { state with
        live := state.live.erase block
        elsewhere := state.elsewhere.erase block }) := by
  have hlive : block ∈ state.live :=
    hsound.exclusive.live (.elsewhere block) block (if_pos helsewhere)
  unfold deleteElsewhere deleteArray
  rw [Call.exec_bind, Call.exec_get_bind, if_pos ⟨rfl, hlive⟩]
  rfl

/-- With one more block. -/
def withBlock (state : Objects) (size : Nat) : Objects :=
  { state with
    sizes := state.sizes ++ [size]
    live := insert state.sizes.length state.live }

/-- All that an action can do. -/
inductive Effect (state : Objects) : Action → Objects → Prop where
  | refused {action : Action} (hkeeps : ∀ block, ¬ state.Frees block action) :
      Effect state action state
  | borrowed {action : Action} {name : Nat} {buffer : Buffer}
      (hkeeps : ∀ block, ¬ state.Frees block action) (hfree : state.buffer name = {})
      (howned : buffer.owned = none) (hcovers : state.Covers buffer.data buffer.capacity) :
      Effect state action (state.withBuffer name buffer)
  | allocated {name : Nat} (hfree : state.buffer name = {}) (size : Nat) :
      Effect state (.allocate name size)
        ((state.withBlock size).withBuffer name ⟨size, some ⟨state.sizes.length, 0⟩, true⟩)
  | adopted {name block capacity : Nat} (hfree : state.buffer name = {})
      (helsewhere : block ∈ state.elsewhere)
      (hcovers : state.Covers (some ⟨block, 0⟩) capacity) :
      Effect state (.adopt name block capacity)
        ({ state with elsewhere := state.elsewhere.erase block }.withBuffer name
          ⟨capacity, some ⟨block, 0⟩, true⟩)
  | constructed {target : Nat} (hfree : state.buffer target = {}) (source : Nat) :
      Effect state (.moveConstruct target source) (state.handOver target source)
  | assigned (target source : Nat) :
      Effect state (.moveAssign target source)
        ({ state with live := state.remaining target }.handOver target source)
  | destroyed (name : Nat) :
      Effect state (.destroy name) ({ state with live := state.remaining name }.withBuffer name {})
  | taken (size : Nat) :
      Effect state (.newElsewhere size)
        { state.withBlock size with elsewhere := insert state.sizes.length state.elsewhere }
  | deleted {block : Nat} (helsewhere : block ∈ state.elsewhere) :
      Effect state (.deleteElsewhere block)
        { state with live := state.live.erase block, elsewhere := state.elsewhere.erase block }

theorem covers_trimPrefix {buffer : Buffer} {n : Nat}
    (hcovers : state.Covers buffer.data buffer.capacity) (hroom : n ≤ buffer.capacity) :
    state.Covers (buffer.data.map (·.add n)) (buffer.capacity - n) := by
  unfold Covers at hcovers ⊢
  cases hdata : buffer.data with
  | none =>
      rw [hdata] at hcovers
      change buffer.capacity = 0 at hcovers
      change buffer.capacity - n = 0
      omega
  | some pointer =>
      rw [hdata] at hcovers
      obtain ⟨size, hsize, hinside⟩ := hcovers
      refine ⟨size, hsize, ?_⟩
      change pointer.offset + n + (buffer.capacity - n) ≤ size
      omega

theorem Covers.shorter {data : Option Pointer} {capacity shorter : Nat}
    (hcovers : state.Covers data capacity) (hshorter : shorter ≤ capacity) :
    state.Covers data shorter := by
  cases data with
  | none => exact Nat.le_zero.mp (hcovers ▸ hshorter)
  | some pointer =>
      obtain ⟨size, hsize, hinside⟩ := hcovers
      exact ⟨size, hsize, by omega⟩

/-- An action that is allowed deletes nothing that is not there. -/
theorem effect_of_allowed (hsound : state.Sound) (hallowed : state.Allowed action) :
    (action.call.exec state).1 ≠ .error .invalidDelete ∧
      Effect state action (state.after action.call) := by
  unfold after
  cases action with
  | wrap name buffer capacity =>
      obtain ⟨hfree, hcovers⟩ := hallowed
      exact ⟨nofun, .borrowed (fun _ => id) hfree rfl hcovers⟩
  | adopt name block capacity =>
      obtain ⟨hfree, helsewhere, hcovers⟩ := hallowed
      exact ⟨nofun, .adopted hfree helsewhere hcovers⟩
  | allocate name size => exact ⟨nofun, .allocated hallowed size⟩
  | moveConstruct target source => exact ⟨nofun, .constructed hallowed source⟩
  | moveAssign target source =>
      simp only [Action.call]
      rw [exec_moveAssign hsound]
      exact ⟨nofun, .assigned target source⟩
  | destroy name =>
      simp only [Action.call]
      rw [exec_destroy hsound]
      exact ⟨nofun, .destroyed name⟩
  | trimPrefix target source n =>
      simp only [Action.call, trimPrefix, Call.exec_get_bind]
      split_ifs with hroom
      · exact ⟨nofun, .refused fun _ => id⟩
      · exact ⟨nofun, .borrowed (fun _ => id) hallowed rfl
          (covers_trimPrefix (hsound.covers source) (Nat.le_of_not_lt hroom))⟩
  | trimSuffix target source n =>
      simp only [Action.call, trimSuffix, Call.exec_get_bind]
      split_ifs with hroom
      · exact ⟨nofun, .refused fun _ => id⟩
      · exact ⟨nofun, .borrowed (fun _ => id) hallowed rfl
          ((hsound.covers source).shorter (Nat.sub_le _ _))⟩
  | view target source => exact ⟨nofun, .borrowed (fun _ => id) hallowed rfl (hsound.covers source)⟩
  | newElsewhere size => exact ⟨nofun, .taken size⟩
  | deleteElsewhere block =>
      simp only [Action.call]
      rw [exec_deleteElsewhere hsound hallowed]
      exact ⟨nofun, .deleted hallowed⟩

/-! ### The holdings behind an effect -/

theorem holds_withBuffer (state : Objects) (name : Nat) (buffer : Buffer) :
    (holdings (state.withBuffer name buffer)).holds =
      Function.update (holdings state).holds (.buffer name) (buffer.owned.map Pointer.block) := by
  funext owner
  cases owner with
  | buffer other =>
      by_cases hother : other = name
      · subst hother
        rw [Function.update_self]
        simp only [holdings, withBuffer, Function.update_self]
      · rw [Function.update_of_ne (by simp [hother])]
        simp only [holdings, withBuffer, Function.update_of_ne hother]
  | elsewhere block => rw [Function.update_of_ne (by simp)]; rfl

theorem holds_handOver (state : Objects) (target source : Nat) :
    (holdings (state.handOver target source)).holds =
      Function.update (Function.update (holdings state).holds (.buffer target)
        ((holdings state).holds (.buffer source))) (.buffer source) none := by
  unfold handOver
  dsimp only
  rw [holds_withBuffer, holds_withBuffer]
  rfl

theorem holds_elsewhere (state : Objects) (block : Nat) :
    (holdings state).holds (.elsewhere block) =
      if block ∈ state.elsewhere then some block else none := rfl

theorem holds_insertElsewhere (state : Objects) (block : Nat) :
    (holdings { state with elsewhere := insert block state.elsewhere }).holds =
      Function.update (holdings state).holds (.elsewhere block) (some block) := by
  funext owner
  cases owner with
  | buffer name => rw [Function.update_of_ne (by simp)]; rfl
  | elsewhere other =>
      by_cases hother : other = block
      · subst hother
        rw [Function.update_self, holds_elsewhere]
        exact if_pos (Finset.mem_insert_self _ _)
      · rw [Function.update_of_ne (by simp [hother]), holds_elsewhere, holds_elsewhere]
        simp only [Finset.mem_insert, hother, false_or]

theorem holds_eraseElsewhere (state : Objects) (block : Nat) :
    (holdings { state with elsewhere := state.elsewhere.erase block }).holds =
      Function.update (holdings state).holds (.elsewhere block) none := by
  funext owner
  cases owner with
  | buffer name => rw [Function.update_of_ne (by simp)]; rfl
  | elsewhere other =>
      by_cases hother : other = block
      · subst hother
        rw [Function.update_self, holds_elsewhere]
        exact if_neg (Finset.notMem_erase _ _)
      · rw [Function.update_of_ne (by simp [hother]), holds_elsewhere, holds_elsewhere]
        simp only [Finset.mem_erase, hother, ne_eq, not_false_eq_true, true_and]

theorem holds_of_free (hfree : state.buffer name = {}) :
    (holdings state).holds (.buffer name) = none := by
  simp only [holdings, hfree]
  rfl

theorem holdings_eq {holds : Owner → Option Nat} {live : Set Nat}
    (hholds : (holdings next).holds = holds) (hlive : (holdings next).live = live) :
    holdings next = ⟨holds, live⟩ := by
  rw [← hholds, ← hlive]

theorem evolves_borrowed {buffer : Buffer} (hfree : state.buffer name = {})
    (howned : buffer.owned = none) :
    Evolves True (holdings state) (holdings (state.withBuffer name buffer)) := by
  have hholds : (holdings (state.withBuffer name buffer)).holds = (holdings state).holds := by
    rw [holds_withBuffer, howned, Option.map_none, ← holds_of_free hfree,
      Function.update_eq_self]
  exact .of_eq _ (holdings_eq hholds rfl).symm

/-- A new block gets an owner that has none. -/
theorem evolves_withBlock (hsound : state.Sound) (size : Nat) {owner : Owner}
    (hfree : (holdings state).holds owner = none)
    (hholds : (holdings next).holds =
      Function.update (holdings state).holds owner (some state.sizes.length))
    (hlive : next.live = (state.withBlock size).live) :
    Evolves True (holdings state) (holdings next) := by
  have hfresh : state.sizes.length ∉ (holdings state).live :=
    fun hlive => Nat.lt_irrefl _ (hsound.given _ hlive)
  have hinsert : (holdings next).live = insert state.sizes.length (holdings state).live := by
    simp only [holdings, hlive]
    exact Finset.coe_insert _ _
  rw [holdings_eq hholds hinsert]
  exact .step (.acquire hfree hfresh) fun _ => trivial

theorem evolves_handOver (hfree : (holdings state).holds (.buffer target) = none) (source : Nat) :
    Evolves True (holdings state) (holdings (state.handOver target source)) := by
  rw [holdings_eq (holds_handOver state target source) rfl]
  exact .step (.transfer hfree) fun _ => trivial

theorem evolves_adopted {capacity : Nat} (hfree : state.buffer name = {})
    (helsewhere : block ∈ state.elsewhere) :
    Evolves True (holdings state)
      (holdings ({ state with elsewhere := state.elsewhere.erase block }.withBuffer name
        ⟨capacity, some ⟨block, 0⟩, true⟩)) := by
  have hholds : (holdings state).holds (.elsewhere block) = some block := if_pos helsewhere
  rw [holdings_eq (holds_withBuffer _ name _) rfl, holds_eraseElsewhere,
    Function.update_comm (by simp)]
  have hmoved := @Holdings.Step.transfer _ _ _ (holdings state) (.elsewhere block) (.buffer name)
    (holds_of_free hfree)
  rw [hholds] at hmoved
  exact .step hmoved fun _ => trivial

theorem evolves_deleted (helsewhere : block ∈ state.elsewhere) :
    Evolves True (holdings state)
      (holdings { state with
        live := state.live.erase block
        elsewhere := state.elsewhere.erase block }) := by
  have hholds : (holdings state).holds (.elsewhere block) = some block := if_pos helsewhere
  have hnext : holdings { state with
        live := state.live.erase block
        elsewhere := state.elsewhere.erase block } =
      ⟨Function.update (holdings state).holds (.elsewhere block) none,
        (holdings state).live \ {block}⟩ :=
    holdings_eq (holds_eraseElsewhere state block) (Finset.coe_erase _ _)
  rw [hnext]
  exact .step (.release hholds) fun _ => trivial

/-- The block that a buffer owns goes, and its owner has none. -/
theorem evolves_remaining (state : Objects) (name : Nat) :
    Evolves True (holdings state)
      ⟨Function.update (holdings state).holds (.buffer name) none, ↑(state.remaining name)⟩ := by
  unfold remaining
  cases howned : (state.buffer name).owned with
  | none =>
      have hnone : (holdings state).holds (.buffer name) = none :=
        congrArg (Option.map Pointer.block) howned
      refine .of_eq _ ?_
      rw [← hnone, Function.update_eq_self]
      rfl
  | some data =>
      have hsome : (holdings state).holds (.buffer name) = some data.block :=
        congrArg (Option.map Pointer.block) howned
      dsimp only
      rw [Finset.coe_erase]
      exact .step (.release hsome) fun _ => trivial

theorem evolves_destroyed (state : Objects) (name : Nat) :
    Evolves True (holdings state)
      (holdings ({ state with live := state.remaining name }.withBuffer name {})) := by
  rw [holdings_eq (holds_withBuffer _ name {}) rfl]
  exact evolves_remaining state name

/-- The target may be the source. Then its block is gone, and nobody has it. -/
theorem evolves_assigned (state : Objects) (target source : Nat) :
    Evolves True (holdings state)
      (holdings ({ state with live := state.remaining target }.handOver target source)) := by
  have hmoved := @Holdings.Step.transfer _ _ _
    ⟨Function.update (holdings state).holds (.buffer target) none, ↑(state.remaining target)⟩
    (.buffer source) (.buffer target) (Function.update_self _ _ _)
  dsimp only at hmoved
  rw [Function.update_idem] at hmoved
  have hholds :
      (holdings ({ state with live := state.remaining target }.handOver target source)).holds =
        Function.update (Function.update (holdings state).holds (.buffer target)
          (Function.update (holdings state).holds (.buffer target) none (.buffer source)))
            (.buffer source) none := by
    refine (holds_handOver _ target source).trans ?_
    by_cases hsame : source = target
    · subst hsame
      rw [Function.update_idem, Function.update_idem]
      rfl
    · rw [Function.update_of_ne (by simp [hsame])]
      rfl
  rw [holdings_eq hholds rfl]
  exact (evolves_remaining state target).trans (.step hmoved fun _ => trivial)

theorem Effect.evolves (hsound : state.Sound) (heffect : Effect state action next) :
    Evolves True (holdings state) (holdings next) := by
  cases heffect with
  | refused => exact .refl _ _
  | borrowed hkeeps hfree howned hcovers => exact evolves_borrowed hfree howned
  | allocated hfree size =>
      exact evolves_withBlock hsound size (holds_of_free hfree) (holds_withBuffer _ _ _) rfl
  | adopted hfree helsewhere hcovers => exact evolves_adopted hfree helsewhere
  | constructed hfree source => exact evolves_handOver (holds_of_free hfree) source
  | assigned target source => exact evolves_assigned state target source
  | destroyed name => exact evolves_destroyed state name
  | taken size =>
      have hfree : (holdings state).holds (.elsewhere state.sizes.length) = none := by
        refine if_neg fun helsewhere => ?_
        have hlive := hsound.exclusive.live (.elsewhere _) _ (if_pos helsewhere)
        exact Nat.lt_irrefl _ (hsound.given _ hlive)
      exact evolves_withBlock hsound size hfree (holds_insertElsewhere _ _) rfl
  | deleted helsewhere => exact evolves_deleted helsewhere

/-! ### Where the buffers point to -/

theorem Placed.withBuffer (hplaced : state.Placed) {buffer : Buffer} (name : Nat)
    (hfront : ∀ data, buffer.owned = some data → data.offset = 0)
    (hcovers : state.Covers buffer.data buffer.capacity) :
    (state.withBuffer name buffer).Placed where
  front := by
    intro other data howned
    by_cases hother : other = name
    · subst hother
      simp only [Objects.withBuffer, Function.update_self] at howned
      exact hfront data howned
    · simp only [Objects.withBuffer, Function.update_of_ne hother] at howned
      exact hplaced.front other data howned
  given := hplaced.given
  covers := by
    intro other
    by_cases hother : other = name
    · subst hother
      simp only [Objects.withBuffer, Function.update_self]
      exact hcovers
    · simp only [Objects.withBuffer, Function.update_of_ne hother]
      exact hplaced.covers other

theorem Placed.fewer (hplaced : state.Placed) {live : Finset Nat} (hfewer : live ⊆ state.live)
    (elsewhere : Finset Nat) : Placed { state with live := live, elsewhere := elsewhere } where
  front := hplaced.front
  given := fun block hblock => hplaced.given block (hfewer hblock)
  covers := hplaced.covers

theorem Covers.withBlock {data : Option Pointer} {capacity : Nat}
    (hcovers : state.Covers data capacity) (size : Nat) :
    (state.withBlock size).Covers data capacity := by
  cases data with
  | none => exact hcovers
  | some pointer =>
      obtain ⟨total, htotal, hinside⟩ := hcovers
      exact ⟨total, List.getElem?_append_left (List.getElem?_eq_some_iff.mp htotal).1 ▸ htotal,
        hinside⟩

theorem Placed.withBlock (hplaced : state.Placed) (size : Nat) :
    (state.withBlock size).Placed where
  front := hplaced.front
  given := by
    intro block hblock
    simp only [Objects.withBlock, List.length_append, List.length_singleton]
    rcases Finset.mem_insert.mp hblock with rfl | hblock
    · exact Nat.lt_succ_self _
    · exact Nat.lt_succ_of_lt (hplaced.given block hblock)
  covers := fun name => (hplaced.covers name).withBlock size

theorem Placed.handOver (hplaced : state.Placed) (target source : Nat) :
    (state.handOver target source).Placed := by
  have htarget := hplaced.withBuffer target (hplaced.front source) (hplaced.covers source)
  exact htarget.withBuffer source nofun (htarget.covers source)

theorem remaining_subset (state : Objects) (name : Nat) : state.remaining name ⊆ state.live := by
  unfold remaining
  split
  · exact Finset.erase_subset _ _
  · exact Finset.Subset.refl _

theorem covers_front (state : Objects) (size : Nat) :
    (state.withBlock size).Covers (some ⟨state.sizes.length, 0⟩) size :=
  ⟨size, by simp [Objects.withBlock], (Nat.zero_add size).le⟩

theorem Effect.sound (hsound : state.Sound) (heffect : Effect state action next) : next.Sound := by
  refine ⟨?_, (heffect.evolves hsound).exclusive hsound.exclusive⟩
  have hplaced := hsound.toPlaced
  cases heffect with
  | refused => exact hplaced
  | @borrowed action name buffer hkeeps hfree howned hcovers =>
      exact hplaced.withBuffer name (fun data hsome => nomatch howned.symm.trans hsome) hcovers
  | @allocated name hfree size =>
      refine (hplaced.withBlock size).withBuffer name ?_ (covers_front state size)
      rintro data ⟨⟩
      rfl
  | @adopted name block capacity hfree helsewhere hcovers =>
      refine (hplaced.fewer (Finset.Subset.refl _) _).withBuffer name ?_ hcovers
      rintro data ⟨⟩
      rfl
  | constructed hfree source => exact hplaced.handOver _ source
  | assigned target source =>
      exact (hplaced.fewer (state.remaining_subset target) _).handOver target source
  | destroyed name =>
      exact (hplaced.fewer (state.remaining_subset name) _).withBuffer name nofun rfl
  | taken size => exact (hplaced.withBlock size).fewer (Finset.Subset.refl _) _
  | deleted helsewhere => exact hplaced.fewer (Finset.erase_subset _ _) _

/-! ### How long a block lives -/

theorem mem_remaining_iff (state : Objects) (name : Nat) :
    block ∈ state.remaining name ↔
      block ∈ state.live ∧ (state.buffer name).owned.map Pointer.block ≠ some block := by
  unfold remaining
  cases howned : (state.buffer name).owned with
  | none => simp
  | some data =>
      rw [Finset.mem_erase, Option.map_some, ne_eq, ne_eq, Option.some.injEq, and_comm, eq_comm]

theorem Effect.live_iff (heffect : Effect state action next) (hgiven : block < state.sizes.length) :
    block ∈ next.live ↔ block ∈ state.live ∧ ¬ state.Frees block action := by
  have hnew : block ∈ insert state.sizes.length state.live ↔ block ∈ state.live := by
    rw [Finset.mem_insert, or_iff_right (Nat.ne_of_lt hgiven)]
  cases heffect with
  | refused hkeeps => exact (and_iff_left (hkeeps block)).symm
  | borrowed hkeeps hfree howned hcovers => exact (and_iff_left (hkeeps block)).symm
  | allocated hfree size => exact hnew.trans (and_iff_left id).symm
  | adopted hfree helsewhere hcovers => exact (and_iff_left id).symm
  | constructed hfree source => exact (and_iff_left id).symm
  | assigned target source => exact mem_remaining_iff state target
  | destroyed name => exact mem_remaining_iff state name
  | taken size => exact hnew.trans (and_iff_left id).symm
  | @deleted other helsewhere =>
      exact Finset.mem_erase.trans (and_comm.trans (and_congr_right fun _ => not_congr eq_comm))

theorem Effect.sizes_prefix (heffect : Effect state action next) :
    state.sizes <+: next.sizes := by
  cases heffect with
  | allocated hfree size => exact List.prefix_append _ _
  | taken size => exact List.prefix_append _ _
  | refused | borrowed | adopted | constructed | assigned | destroyed | deleted =>
      exact List.prefix_rfl

/-! ### Runs -/

theorem effect_of_step (hsound : state.Sound) (hstep : Step state action next) :
    Effect state action next := by
  cases hstep with
  | call hallowed => exact (effect_of_allowed hsound hallowed).2

theorem sound_start : start.Sound where
  front := nofun
  given := fun _ hblock => absurd hblock (Finset.notMem_empty _)
  covers := fun _ => rfl
  exclusive := by
    have hnone : ∀ owner block, (holdings start).holds owner ≠ some block := by
      rintro (name | other) block <;> nofun
    exact ⟨fun owner block hholds => absurd hholds (hnone owner block),
      fun first _ block hholds => absurd hholds (hnone first block)⟩

section Run

variable {actions earlier later : List Action} {final : Objects}

theorem sound_of_reached (hrun : Run Step start actions state) : state.Sound :=
  hrun.preserves Sound (fun _ hstep hsound => (effect_of_step hsound hstep).sound hsound)
    (fun _ _ => trivial) sound_start

theorem evolves_of_run (hrun : Run Step state actions final) (hsound : state.Sound) :
    Evolves True (holdings state) (holdings final) := by
  induction hrun with
  | nil => exact .refl _ _
  | cons hstep _ ih =>
      have heffect := effect_of_step hsound hstep
      exact (heffect.evolves hsound).trans (ih (heffect.sound hsound))

/-- A buffer with five of the eight bytes of another one. -/
theorem run_trimmed : ∃ state, Run Step start [.allocate 0 8, .trimPrefix 1 0 3] state ∧
    state.buffer 0 = ⟨8, some ⟨0, 0⟩, true⟩ ∧ state.buffer 1 = ⟨5, some ⟨0, 3⟩, false⟩ ∧
      0 ∈ state.live :=
  ⟨_, .cons (.call rfl) (.cons (.call rfl) (.nil _)), rfl, rfl, Finset.mem_insert_self 0 _⟩

/-- **Once and for all.** Whatever is done to the buffers, nothing is deleted that is not there,
every block has one owner, and every block that is there has one. -/
theorem deleted_once_of_run (hrun : Run Step start actions state) :
    (∀ action, state.Allowed action → (action.call.exec state).1 ≠ .error .invalidDelete) ∧
      (holdings state).Exclusive ∧ (holdings state).Complete := by
  have hsound := sound_of_reached hrun
  refine ⟨fun action hallowed => (effect_of_allowed hsound hallowed).1, hsound.exclusive, ?_⟩
  refine (evolves_of_run hrun sound_start).complete trivial ?_
  exact fun block hblock => absurd hblock (Finset.notMem_empty block)

theorem deleted_once_of_run_trimmed : ∃ state,
    Run Step start [.allocate 0 8, .trimPrefix 1 0 3] state ∧
      ((Action.moveAssign 0 1).call.exec state).1 ≠ .error .invalidDelete := by
  obtain ⟨state, hrun, -⟩ := run_trimmed
  exact ⟨state, hrun, (deleted_once_of_run hrun).1 (.moveAssign 0 1) trivial⟩

/-- **As long as its owner.** No buffer reaches out of the block that it points into. What a buffer
points to is there until the owner of the block is destroyed or assigned to. -/
theorem usable_of_run (hreached : Run Step start earlier state) (hrun : Run Step state later final)
    {data : Pointer} (hdata : (final.buffer name).data = some data) :
    (∃ size, final.sizes[data.block]? = some size ∧
        data.offset + (final.buffer name).capacity ≤ size) ∧
      (data.block ∈ state.live → (data.block ∈ final.live ↔ ∀ before action after,
        Run.Takes Step state later final before action after →
          ¬ before.Frees data.block action)) := by
  have hsound := sound_of_reached hreached
  have hcovers := (sound_of_reached (hreached.append hrun)).covers name
  rw [hdata] at hcovers
  refine ⟨hcovers, fun hlive => ?_⟩
  have hlasts := hrun.lasts_iff
    (fun state => state.Sound ∧ data.block < state.sizes.length)
    (fun state => data.block ∈ state.live)
    (fun hstep ⟨hbefore, hgiven⟩ =>
      have heffect := effect_of_step hbefore hstep
      ⟨heffect.sound hbefore, hgiven.trans_le heffect.sizes_prefix.length_le⟩)
    (fun hstep ⟨hbefore, hgiven⟩ => (effect_of_step hbefore hstep).live_iff hgiven)
    ⟨hsound, hsound.given _ hlive⟩
  exact hlasts.trans (and_iff_right hlive)

/-- A buffer that is assigned to itself deletes its block, which the other one still points to. -/
theorem usable_of_run_self : ∃ final,
    Run Step start [.allocate 0 8, .trimPrefix 1 0 3, .moveAssign 0 0] final ∧
      (final.buffer 1).data = some ⟨0, 3⟩ ∧ 0 ∉ final.live := by
  obtain ⟨state, hrun, hfirst, hsecond, hlive⟩ := run_trimmed
  have hstep : Step state (.moveAssign 0 0) (state.after (moveAssign 0 0)) := .call trivial
  have hself : Run Step state [.moveAssign 0 0] (state.after (moveAssign 0 0)) :=
    .cons hstep (.nil _)
  have hdata : ((state.after (moveAssign 0 0)).buffer 1).data = some ⟨0, 3⟩ := by
    simp only [after, exec_moveAssign (sound_of_reached hrun)]
    simp [handOver, withBuffer, hsecond]
  refine ⟨_, hrun.append hself, hdata, fun hthere => ?_⟩
  refine ((usable_of_run hrun hself hdata).2 hlive).mp hthere state (.moveAssign 0 0) _
    ⟨[], [], rfl, .nil state, hstep, .nil _⟩ ?_
  simp only [Frees, hfirst]
  rfl

end Run

end Objects

end Liblw.Memory
