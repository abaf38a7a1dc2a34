import ModalMu.Fault
import ModalMu.Text.Quoted
import Std.Data.TreeMap

/-!
# Registries

A registry numbers distinct values by the order in which they first appear. Numbers are given
once: a value that is already there keeps its number, and the values do not move.

* `insert` — the number of a value, which is registered first if it is new;
* `indexOf?` and `get?` — from a value to its number and back; the two are inverse to each other
  (`indexOf?_eq_some_iff`), as every registry carries a proof.
-/

namespace ModalMu

/-- **Distinct values, numbered by first appearance.** -/
structure Registry (α : Type) [Ord α] where
  /-- the values by number -/
  items : Array α
  /-- the numbers by value -/
  numbers : Std.TreeMap α Nat
  /-- looking up a value and looking up a number agree -/
  numbered : ∀ (a : α) (i : Nat), numbers[a]? = some i ↔ items[i]? = some a

namespace Registry

variable {α : Type} [Ord α]

/-- How many values are registered. -/
def size (r : Registry α) : Nat := r.items.size

/-- The values in the order of their numbers. -/
def toList (r : Registry α) : List α := r.items.toList

/-- The number of a value, if it is registered. -/
def indexOf? (r : Registry α) (a : α) : Option Nat := r.numbers[a]?

/-- The value with a number, if there is one. -/
def get? (r : Registry α) (i : Nat) : Option α := r.items[i]?

/-- **The value with a number**, which must have been given. -/
def fetch (r : Registry α) (i : Nat) : Except Fault α :=
  match r.get? i with
  | some a => .ok a
  | none => .error .outOfRange

/-- **A value's number leads back to the value, and to no other number.** -/
theorem indexOf?_eq_some_iff (r : Registry α) (a : α) (i : Nat) :
    r.indexOf? a = some i ↔ r.get? i = some a := r.numbered a i

variable [Std.TransOrd α] [Std.LawfulEqOrd α]

/-- The registry without a value. -/
def empty : Registry α := ⟨#[], ∅, by simp⟩

/-- Registers a value that is not there yet, under the next number. -/
def register (r : Registry α) (a : α) (h : r.indexOf? a = none) : Registry α where
  items := r.items.push a
  numbers := r.numbers.insert a r.items.size
  numbered := by
    intro b i
    have hb := r.numbered b i
    have ha := r.numbered a i
    have hsize : ∀ j, r.items[j]? = some b → j ≠ r.items.size := by
      rintro j hj rfl
      simp at hj
    rw [Std.TreeMap.getElem?_insert, Array.getElem?_push]
    by_cases hab : a = b
    · subst hab
      have hnone : r.items[i]? ≠ some a := fun he => by
        rw [← ha] at he
        exact absurd (h.symm.trans he) (by simp)
      simp only [Std.compare_self, if_true, Option.some.injEq]
      constructor
      · rintro rfl; simp
      · intro he
        split at he
        · rename_i hi; exact hi.symm
        · exact absurd he hnone
    · have hne : compare a b ≠ .eq := fun he => hab (Std.compare_eq_iff_eq.1 he)
      rw [if_neg hne, hb]
      constructor
      · intro he
        rw [if_neg (hsize i he)]
        exact he
      · intro he
        split at he
        · exact absurd (Option.some.inj he) hab
        · exact he

/-- **Inserts a value.** The answer is its number, whether it is new, and the registry. -/
def insert (r : Registry α) (a : α) : (Nat × Bool) × Registry α :=
  match h : r.indexOf? a with
  | some i => ((i, false), r)
  | none => ((r.size, true), r.register a h)

/-- A registry of texts, shown in curly brackets. -/
def render (r : Registry String) : String := "\x7b" ++ Text.quoteAll r.toList ++ "\x7d"

/-- What `insert` does to the values: a new one goes to the end. -/
theorem toList_insert (r : Registry α) (a : α) :
    (r.insert a).2.toList = if (r.indexOf? a).isSome then r.toList else r.toList ++ [a] := by
  unfold insert
  split <;> rename_i h <;> simp [h, register, toList]

end Registry

end ModalMu
