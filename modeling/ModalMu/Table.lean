import ModalMu.Fault
import ModalMu.Text.Quoted

/-!
# Tables

A table holds values at the places `0, 1, 2, …` and grows at its end only, so that the place of a
value never changes.

* `push` appends and tells the new place;
* `get?` asks for a place that may be missing, `fetch` and `put` insist on one that is there;
* `entries`, `entriesDown` — the places with their values, in either direction.
-/

namespace ModalMu

/-- Values at the places `0, 1, 2, …`. -/
structure Table (α : Type) where
  /-- the values in the order of their places -/
  rows : Array α

namespace Table

variable {α : Type}

/-- The table without a value. -/
def empty : Table α := ⟨#[]⟩

/-- The table of the values of a list, in its order. -/
def ofList (as : List α) : Table α := ⟨as.toArray⟩

/-- The number of places. -/
def size (t : Table α) : Nat := t.rows.size

/-- Appends a value; the answer is its place and the longer table. -/
def push (t : Table α) (a : α) : Nat × Table α := (t.rows.size, ⟨t.rows.push a⟩)

/-- The value at a place, if the table has it. -/
def get? (t : Table α) (i : Nat) : Option α := t.rows[i]?

/-- **The value at a place**, which the table must have. -/
def fetch (t : Table α) (i : Nat) : Except Fault α :=
  match t.get? i with
  | some a => .ok a
  | none => .error .outOfRange

/-- **Writes the value at a place**, which the table must have. -/
def put (t : Table α) (i : Nat) (a : α) : Except Fault (Table α) :=
  if i < t.size then .ok ⟨t.rows.setIfInBounds i a⟩ else .error .outOfRange

/-- The places with their values, ascending. -/
def entries (t : Table α) : List (Nat × α) := t.rows.toList.zipIdx.map fun (a, i) => (i, a)

/-- The places with their values, descending. -/
def entriesDown (t : Table α) : List (Nat × α) := t.entries.reverse

/-- A table of texts, shown in square brackets. -/
def render (t : Table String) : String := "[" ++ Text.quoteAll t.rows.toList ++ "]"

theorem get?_push (t : Table α) (a : α) (i : Nat) :
    (t.push a).2.get? i = if i = t.size then some a else t.get? i :=
  Array.getElem?_push

theorem get?_put {t t' : Table α} {i : Nat} {a : α} (h : t.put i a = .ok t') (j : Nat) :
    t'.get? j = if i = j then some a else t.get? j := by
  unfold put at h
  split at h
  · rename_i hi
    obtain rfl := Except.ok.inj h
    simp only [get?, Array.getElem?_setIfInBounds]
    split
    · exact if_pos hi
    · rfl
  · cases h

end Table

end ModalMu
