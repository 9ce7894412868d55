import Mathlib.Tactic.Common

/-!
# Iterators over a list

Which offset of a list an iterator stands at is a relation, since iterators that have come there on
different ways need not be equal. Steps forward and the values are enough to read the list from the
front, and steps back to read it from the end.
-/

namespace Liblw.Lib

/-- The operations of an iterator, each of which may fail. -/
structure Iterating (ε ι α : Type) where
  increment : ι → Except ε ι
  decrement : ι → Except ε ι
  value : ι → Except ε α
  same : ι → ι → Bool

namespace Iterating

variable {ε ι α : Type}

/-- `for (; first != last; ++first) out << *first`, in fewer than `fuel` rounds. -/
def forwards (iterating : Iterating ε ι α) (diverged : ε) :
    (fuel : Nat) → (first last : ι) → Except ε (List α)
  | 0, _, _ => throw diverged
  | fuel + 1, first, last =>
      if iterating.same first last then pure []
      else do
        let c ← iterating.value first
        let first ← iterating.increment first
        let later ← forwards iterating diverged fuel first last
        pure (c :: later)

/-- `while (last != first) out << *--last`, in fewer than `fuel` rounds. -/
def backwards (iterating : Iterating ε ι α) (diverged : ε) :
    (fuel : Nat) → (first last : ι) → Except ε (List α)
  | 0, _, _ => throw diverged
  | fuel + 1, first, last =>
      if iterating.same last first then pure []
      else do
        let last ← iterating.decrement last
        let c ← iterating.value last
        let earlier ← backwards iterating diverged fuel first last
        pure (c :: earlier)

variable {iterating : Iterating ε ι α} {Stands : ι → Nat → Prop} {contents : List α}
  {first last iterator : ι} {count fuel : Nat}

/-- The iterators read the list from any offset on. -/
structure Reads (iterating : Iterating ε ι α) (Stands : ι → Nat → Prop) (contents : List α) :
    Prop where
  value : ∀ {iterator count}, Stands iterator count → ∀ hcount : count < contents.length,
    iterating.value iterator = .ok contents[count]
  increment : ∀ {iterator count}, Stands iterator count → count < contents.length →
    ∃ next, iterating.increment iterator = .ok next ∧ Stands next (count + 1)
  same : ∀ {iterator other count count'}, Stands iterator count → Stands other count' →
    (iterating.same iterator other = true ↔ count = count')

/-- They read it in both directions. -/
structure Traverses (iterating : Iterating ε ι α) (Stands : ι → Nat → Prop) (contents : List α) :
    Prop extends Reads iterating Stands contents where
  decrement : ∀ {iterator count}, Stands iterator (count + 1) → count < contents.length →
    ∃ back, iterating.decrement iterator = .ok back ∧ Stands back count

section Loops

variable
  (hvalue : ∀ {iterator count}, Stands iterator count → ∀ hcount : count < contents.length,
    iterating.value iterator = .ok contents[count])
include hvalue

/-- Forwards from an offset, by induction on the fuel. The iterator that ends the loop need not
stand anywhere. -/
theorem forwards_eq
    (hincrement : ∀ {iterator count}, Stands iterator count → count < contents.length →
      ∃ next, iterating.increment iterator = .ok next ∧ Stands next (count + 1))
    (hlast : ∀ {iterator count}, Stands iterator count →
      (iterating.same iterator last = true ↔ count = contents.length))
    (diverged : ε) (hfirst : Stands first count) (hcount : count ≤ contents.length)
    (hfuel : contents.length - count < fuel) :
    iterating.forwards diverged fuel first last = .ok (contents.drop count) := by
  induction fuel generalizing first count with
  | zero => exact absurd hfuel (Nat.not_lt_zero _)
  | succ fuel ih =>
      rw [forwards]
      by_cases hend : count = contents.length
      · rw [if_pos ((hlast hfirst).mpr hend), hend, List.drop_length]
        rfl
      · have hmore : count < contents.length := Nat.lt_of_le_of_ne hcount hend
        obtain ⟨next, hnext, hstands⟩ := hincrement hfirst hmore
        rw [if_neg (mt (hlast hfirst).mp hend), hvalue hfirst hmore,
          List.drop_eq_getElem_cons hmore]
        change (iterating.increment first).bind _ = _
        rw [hnext]
        change (iterating.forwards diverged fuel next last).bind _ = _
        rw [ih hstands hmore (by omega)]
        rfl

/-- Backwards to the front, by induction on the offset. -/
theorem backwards_eq
    (hdecrement : ∀ {iterator count}, Stands iterator (count + 1) → count < contents.length →
      ∃ back, iterating.decrement iterator = .ok back ∧ Stands back count)
    (hfirst : ∀ {iterator count}, Stands iterator count →
      (iterating.same iterator first = true ↔ count = 0))
    (diverged : ε) (hlast : Stands last count) (hcount : count ≤ contents.length)
    (hfuel : count < fuel) :
    iterating.backwards diverged fuel first last = .ok (contents.take count).reverse := by
  induction count generalizing last fuel with
  | zero =>
      obtain ⟨fuel, rfl⟩ := Nat.exists_eq_add_one_of_ne_zero (Nat.ne_zero_of_lt hfuel)
      rw [backwards, if_pos ((hfirst hlast).mpr rfl)]
      rfl
  | succ count ih =>
      obtain ⟨fuel, rfl⟩ := Nat.exists_eq_add_one_of_ne_zero (Nat.ne_zero_of_lt hfuel)
      obtain ⟨back, hback, hstands⟩ := hdecrement hlast hcount
      rw [backwards, if_neg (mt (hfirst hlast).mp (Nat.succ_ne_zero count)), hback]
      change (iterating.value back).bind _ = _
      rw [hvalue hstands hcount]
      change (iterating.backwards diverged fuel first back).bind _ = _
      rw [ih hstands (Nat.le_of_succ_le hcount) (Nat.lt_of_succ_lt_succ hfuel),
        List.take_succ_eq_append_getElem hcount, List.reverse_append]
      rfl

end Loops

theorem Reads.forwards_eq (hreads : Reads iterating Stands contents) (diverged : ε)
    (hlast : Stands last contents.length) (hfirst : Stands first count)
    (hcount : count ≤ contents.length) (hfuel : contents.length - count < fuel) :
    iterating.forwards diverged fuel first last = .ok (contents.drop count) :=
  Iterating.forwards_eq hreads.value hreads.increment
    (fun hstands => hreads.same hstands hlast) diverged hfirst hcount hfuel

theorem Traverses.backwards_eq (htraverses : Traverses iterating Stands contents) (diverged : ε)
    (hfirst : Stands first 0) (hlast : Stands last count) (hcount : count ≤ contents.length)
    (hfuel : count < fuel) :
    iterating.backwards diverged fuel first last = .ok (contents.take count).reverse :=
  Iterating.backwards_eq htraverses.value htraverses.decrement
    (fun hstands => htraverses.same hstands hfirst) diverged hlast hcount hfuel

end Iterating

end Liblw.Lib
