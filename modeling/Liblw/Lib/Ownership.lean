import Mathlib.Data.Set.Insert
import Mathlib.Logic.Function.Basic
import Liblw.Lib.Run

/-!
# Ownership

Resources are live or not, and every owner holds one of them or none. A program that is careful only
acquires fresh resources, hands them on and releases what it holds. One that is not may also forget
a resource that it holds, or make one that nobody holds. Whatever it does, no resource has two
owners, and one without an owner is live for good.
-/

namespace Liblw.Lib

structure Holdings (Owner Resource : Type) where
  holds : Owner → Option Resource
  live : Set Resource

namespace Holdings

variable {Owner Resource : Type}

inductive Move (Owner Resource : Type) where
  | acquire (owner : Owner) (resource : Resource)
  | release (owner : Owner)
  | transfer (source target : Owner)
  | appear (resource : Resource)
  | drop (owner : Owner)

/-- Nothing is left without an owner by the move. -/
def Move.Keeps : Move Owner Resource → Prop
  | .appear _ | .drop _ => False
  | _ => True

section Step

variable [DecidableEq Owner]

/-- The owner that acquires a resource or is handed one holds none before. -/
inductive Step :
    Holdings Owner Resource → Move Owner Resource → Holdings Owner Resource → Prop where
  | acquire {holdings : Holdings Owner Resource} {owner : Owner} {resource : Resource}
      (hfree : holdings.holds owner = none) (hfresh : resource ∉ holdings.live) :
      Step holdings (.acquire owner resource)
        ⟨Function.update holdings.holds owner (some resource), insert resource holdings.live⟩
  | release {holdings : Holdings Owner Resource} {owner : Owner} {resource : Resource}
      (hholds : holdings.holds owner = some resource) :
      Step holdings (.release owner)
        ⟨Function.update holdings.holds owner none, holdings.live \ {resource}⟩
  | transfer {holdings : Holdings Owner Resource} {source target : Owner}
      (hfree : holdings.holds target = none) :
      Step holdings (.transfer source target)
        ⟨Function.update (Function.update holdings.holds target (holdings.holds source)) source
          none, holdings.live⟩
  | appear {holdings : Holdings Owner Resource} {resource : Resource}
      (hfresh : resource ∉ holdings.live) :
      Step holdings (.appear resource) ⟨holdings.holds, insert resource holdings.live⟩
  | drop (holdings : Holdings Owner Resource) (owner : Owner) :
      Step holdings (.drop owner) ⟨Function.update holdings.holds owner none, holdings.live⟩

end Step

/-- What is held is live, and held by one owner. -/
structure Exclusive (holdings : Holdings Owner Resource) : Prop where
  live : ∀ owner resource, holdings.holds owner = some resource → resource ∈ holdings.live
  single : ∀ first second resource, holdings.holds first = some resource →
    holdings.holds second = some resource → first = second

/-- What is live is held. -/
def Complete (holdings : Holdings Owner Resource) : Prop :=
  ∀ resource ∈ holdings.live, ∃ owner, holdings.holds owner = some resource

/-- The resource is live, and nobody holds it. -/
structure Unowned (holdings : Holdings Owner Resource) (resource : Resource) : Prop where
  live : resource ∈ holdings.live
  free : ∀ owner, holdings.holds owner ≠ some resource

/-! ### Single moves -/

section Steps

variable [DecidableEq Owner] {holdings next : Holdings Owner Resource}
  {move : Move Owner Resource}

theorem holds_of_update_none {owner other : Owner} {resource : Resource}
    {holds : Owner → Option Resource}
    (hholds : Function.update holds owner none other = some resource) :
    other ≠ owner ∧ holds other = some resource := by
  rw [Function.update_apply] at hholds
  split at hholds
  · cases hholds
  · rename_i hne
    exact ⟨hne, hholds⟩

theorem holds_of_update_some {owner other : Owner} {fresh resource : Resource}
    {holds : Owner → Option Resource}
    (hholds : Function.update holds owner (some fresh) other = some resource) :
    (other = owner ∧ fresh = resource) ∨ holds other = some resource := by
  rw [Function.update_apply] at hholds
  split at hholds
  · rename_i hother
    exact Or.inl ⟨hother, Option.some.inj hholds⟩
  · exact Or.inr hholds

theorem exclusive_acquire (hexclusive : holdings.Exclusive) {owner : Owner} {resource : Resource}
    (hfresh : resource ∉ holdings.live) :
    Exclusive ⟨Function.update holdings.holds owner (some resource),
      insert resource holdings.live⟩ := by
  have hother : ∀ other, holdings.holds other ≠ some resource :=
    fun other hholds => hfresh (hexclusive.live other resource hholds)
  constructor
  · intro other found hfound
    rcases holds_of_update_some hfound with ⟨-, rfl⟩ | hholds
    · exact Set.mem_insert _ _
    · exact Set.mem_insert_of_mem _ (hexclusive.live other found hholds)
  · intro first second found hfirst hsecond
    rcases holds_of_update_some hfirst with ⟨rfl, rfl⟩ | hfirst'
    · rcases holds_of_update_some hsecond with ⟨rfl, -⟩ | hsecond'
      · rfl
      · exact absurd hsecond' (hother second)
    · rcases holds_of_update_some hsecond with ⟨rfl, rfl⟩ | hsecond'
      · exact absurd hfirst' (hother first)
      · exact hexclusive.single first second found hfirst' hsecond'

theorem exclusive_step (hexclusive : holdings.Exclusive) (hstep : Step holdings move next) :
    next.Exclusive := by
  cases hstep with
  | acquire hfree hfresh => exact exclusive_acquire hexclusive hfresh
  | @release owner resource hholds =>
      constructor
      · intro other found hfound
        obtain ⟨hne, hbefore⟩ := holds_of_update_none hfound
        refine ⟨hexclusive.live other found hbefore, ?_⟩
        rintro rfl
        exact hne (hexclusive.single other owner found hbefore hholds)
      · intro first second found hfirst hsecond
        exact hexclusive.single first second found (holds_of_update_none hfirst).2
          (holds_of_update_none hsecond).2
  | @transfer source target hfree =>
      -- who holds what was handed on held it before, and the source does not any more
      have hbefore : ∀ other found,
          Function.update (Function.update holdings.holds target (holdings.holds source)) source
            none other = some found →
          other ≠ source ∧ holdings.holds (if other = target then source else other) =
            some found := by
        intro other found hfound
        obtain ⟨hne, hfound⟩ := holds_of_update_none hfound
        refine ⟨hne, ?_⟩
        rw [Function.update_apply] at hfound
        split at hfound <;> rename_i hother
        · rwa [if_pos hother]
        · rwa [if_neg hother]
      constructor
      · intro other found hfound
        exact hexclusive.live _ found (hbefore other found hfound).2
      · intro first second found hfirst hsecond
        obtain ⟨hfirst', hfirst⟩ := hbefore first found hfirst
        obtain ⟨hsecond', hsecond⟩ := hbefore second found hsecond
        have hsame := hexclusive.single _ _ found hfirst hsecond
        split at hsame <;> split at hsame <;> rename_i hone htwo
        · rw [hone, htwo]
        · exact absurd hsame.symm hsecond'
        · exact absurd hsame hfirst'
        · exact hsame
  | appear hfresh =>
      exact ⟨fun owner resource hholds => Set.mem_insert_of_mem _
        (hexclusive.live owner resource hholds), hexclusive.single⟩
  | drop owner =>
      exact ⟨fun other found hfound => hexclusive.live other found (holds_of_update_none hfound).2,
        fun first second found hfirst hsecond => hexclusive.single first second found
          (holds_of_update_none hfirst).2 (holds_of_update_none hsecond).2⟩

theorem unowned_step {resource : Resource} (hunowned : holdings.Unowned resource)
    (hstep : Step holdings move next) : next.Unowned resource := by
  obtain ⟨hlive, hfree⟩ := hunowned
  cases hstep with
  | @acquire owner fresh _ hfresh =>
      refine ⟨Set.mem_insert_of_mem _ hlive, fun other hholds => ?_⟩
      rcases holds_of_update_some hholds with ⟨-, rfl⟩ | hholds
      · exact hfresh hlive
      · exact hfree other hholds
  | @release owner released hholds =>
      refine ⟨⟨hlive, ?_⟩, fun other hother => hfree other (holds_of_update_none hother).2⟩
      rintro rfl
      exact hfree owner hholds
  | @transfer source target =>
      refine ⟨hlive, fun other hother => ?_⟩
      obtain ⟨-, hother⟩ := holds_of_update_none hother
      rw [Function.update_apply] at hother
      split at hother
      · exact hfree source hother
      · exact hfree other hother
  | appear hfresh => exact ⟨Set.mem_insert_of_mem _ hlive, hfree⟩
  | drop owner => exact ⟨hlive, fun other hother => hfree other (holds_of_update_none hother).2⟩

theorem complete_step (hcomplete : holdings.Complete) (hkeeps : move.Keeps)
    (hstep : Step holdings move next) : next.Complete := by
  intro resource hlive
  cases hstep with
  | @acquire owner fresh hfree hfresh =>
      rcases hlive with rfl | hlive
      · exact ⟨owner, Function.update_self _ _ _⟩
      · obtain ⟨other, hother⟩ := hcomplete resource hlive
        have hne : other ≠ owner := by
          rintro rfl
          rw [hfree] at hother
          cases hother
        exact ⟨other, (Function.update_of_ne hne _ _).trans hother⟩
  | @release owner released hholds =>
      obtain ⟨other, hother⟩ := hcomplete resource hlive.1
      have hne : other ≠ owner := by
        rintro rfl
        rw [hholds] at hother
        exact hlive.2 (Option.some.inj hother).symm
      exact ⟨other, (Function.update_of_ne hne _ _).trans hother⟩
  | @transfer source target hfree =>
      obtain ⟨other, hother⟩ := hcomplete resource hlive
      have hne : other ≠ target := by
        rintro rfl
        rw [hfree] at hother
        cases hother
      by_cases hsource : other = source
      · subst hsource
        have htarget := (Function.update_of_ne hne.symm none _).trans
          (Function.update_self target (holdings.holds other) holdings.holds)
        exact ⟨target, htarget.trans hother⟩
      · have hkept := (Function.update_of_ne hsource none _).trans
          (Function.update_of_ne hne (holdings.holds source) holdings.holds)
        exact ⟨other, hkept.trans hother⟩
  | appear => cases hkeeps
  | drop => cases hkeeps

end Steps

/-! ### Several moves -/

section Evolves

variable [DecidableEq Owner] {tidy : Prop} {first second third : Holdings Owner Resource}
  {move : Move Owner Resource}

/-- Some moves lead from the one to the other, and if it is tidy, they leave nothing without an
owner. -/
def Evolves (tidy : Prop) (first second : Holdings Owner Resource) : Prop :=
  ∃ moves, Run Step first moves second ∧ (tidy → ∀ move ∈ moves, move.Keeps)

theorem Evolves.refl (tidy : Prop) (holdings : Holdings Owner Resource) :
    Evolves tidy holdings holdings :=
  ⟨[], .nil holdings, fun _ => nofun⟩

theorem Evolves.of_eq (tidy : Prop) (heq : first = second) : Evolves tidy first second :=
  heq ▸ refl tidy first

theorem Evolves.step (hstep : Step first move second) (hkeeps : tidy → move.Keeps) :
    Evolves tidy first second :=
  ⟨[move], .cons hstep (.nil second), fun htidy other hother => by
    rw [List.mem_singleton.mp hother]
    exact hkeeps htidy⟩

theorem Evolves.trans (hfirst : Evolves tidy first second) (hsecond : Evolves tidy second third) :
    Evolves tidy first third := by
  obtain ⟨earlier, hearlier, hkeepsEarlier⟩ := hfirst
  obtain ⟨later, hlater, hkeepsLater⟩ := hsecond
  refine ⟨earlier ++ later, hearlier.append hlater, fun htidy move hmove => ?_⟩
  rcases List.mem_append.mp hmove with hmove | hmove
  · exact hkeepsEarlier htidy move hmove
  · exact hkeepsLater htidy move hmove

theorem Evolves.mono {tidier : Prop} (hevolves : Evolves tidy first second)
    (htidier : tidier → tidy) : Evolves tidier first second := by
  obtain ⟨moves, hrun, hkeeps⟩ := hevolves
  exact ⟨moves, hrun, fun h => hkeeps (htidier h)⟩

theorem Evolves.exclusive (hevolves : Evolves tidy first second) (hexclusive : first.Exclusive) :
    second.Exclusive := by
  obtain ⟨moves, hrun, -⟩ := hevolves
  exact hrun.preserves Exclusive (fun _ hstep hexclusive => exclusive_step hexclusive hstep)
    (fun _ _ => trivial) hexclusive

theorem Evolves.unowned {resource : Resource} (hevolves : Evolves tidy first second)
    (hunowned : first.Unowned resource) : second.Unowned resource := by
  obtain ⟨moves, hrun, -⟩ := hevolves
  exact hrun.preserves (Unowned · resource)
    (fun _ hstep hunowned => unowned_step hunowned hstep) (fun _ _ => trivial) hunowned

theorem Evolves.complete (hevolves : Evolves tidy first second) (htidy : tidy)
    (hcomplete : first.Complete) : second.Complete := by
  obtain ⟨moves, hrun, hkeeps⟩ := hevolves
  exact hrun.preserves Complete
    (fun hkeeps hstep hcomplete => complete_step hcomplete hkeeps hstep) (hkeeps htidy) hcomplete

end Evolves

end Holdings

end Liblw.Lib
