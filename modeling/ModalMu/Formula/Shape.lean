import ModalMu.Formula.Basic
import ModalMu.Text.Blank

/-!
# The outermost shape of a formula text

A text without blanks at its ends has at most one shape, which can be told without reading the
parts:

* between round brackets, the leftmost `&` outside of any inner round brackets decides, then the
  leftmost `|`; either has to be doubled. Without one of them the brackets only group;
* otherwise the text is a constant, a variable, a modality in front of a formula, or a fixpoint in
  front of its body.

`length_lt_of_mem_parts` says that the parts are shorter than the text, so that reading them by
recursion ends.
-/

namespace ModalMu

/-- **The outermost shape of a formula text**, with the texts of its parts. -/
inductive Shape where
  /-- the constant that holds everywhere -/
  | tt
  /-- the constant that holds nowhere -/
  | ff
  /-- a variable -/
  | var (x : Var)
  /-- a conjunction -/
  | and (l r : List Char)
  /-- a disjunction -/
  | or (l r : List Char)
  /-- some step -/
  | dia (action rest : List Char)
  /-- every step -/
  | box (action rest : List Char)
  /-- a fixpoint -/
  | fix (k : Kind) (x : Var) (body : List Char)
  /-- brackets that only group -/
  | group (inner : List Char)
  /-- none of these -/
  | unmatched
  deriving DecidableEq, Repr

/-- Where an operator was found. -/
inductive Split where
  /-- nowhere -/
  | absent
  /-- it stands alone, not doubled -/
  | single
  /-- doubled, between two operands -/
  | double (l r : List Char)
  deriving DecidableEq, Repr

namespace Shape

/-- The text up to the first `op` at bracket depth zero, and the text after it. The depth counts
round brackets only, and a closing one without its opening makes it negative. -/
def cut (op : Char) : Int → List Char → Option (List Char × List Char)
  | _, [] => none
  | depth, c :: cs =>
    if c = '(' then (cut op (depth + 1) cs).map fun (l, r) => (c :: l, r)
    else if c = ')' then (cut op (depth - 1) cs).map fun (l, r) => (c :: l, r)
    else if c = op ∧ depth = 0 then some ([], cs)
    else (cut op depth cs).map fun (l, r) => (c :: l, r)

/-- The operands of a doubled operator. -/
def split (op : Char) (cs : List Char) : Split :=
  match cut op 0 cs with
  | none => .absent
  | some (l, c :: r) => if c = op then .double l r else .single
  | some (_, []) => .single

/-- The text between the round brackets at its ends. -/
def unwrap? : List Char → Option (List Char)
  | '(' :: cs => if cs.getLast? = some ')' then some cs.dropLast else none
  | _ => none

/-- **Whether a text names an action**: a lower-case letter, then lower-case letters, digits and
low lines. -/
def isAction : List Char → Bool
  | [] => false
  | c :: cs => c.isLower && cs.all fun d => d.isLower || d.isDigit || d == '_'

/-- A modality, from the text after its opening bracket: the action ends at the first closing
bracket. -/
def modality (close : Char) (make : List Char → List Char → Shape) (cs : List Char) : Shape :=
  match cs.dropWhile (· ≠ close) with
  | [] => unmatched
  | _ :: rest =>
    let action := cs.takeWhile (· ≠ close)
    if isAction action then make action rest else unmatched

/-- A fixpoint, from the text after its keyword: one blank, the variable, a dot, the body. -/
def fixpoint (k : Kind) : List Char → Shape
  | blank :: x :: '.' :: body =>
    if Text.isBlank blank && x.isUpper then fix k x body else unmatched
  | _ => unmatched

/-- The shape of a text that is not wrapped in round brackets. -/
def ofBare (cs : List Char) : Shape :=
  if cs = "true".toList then tt
  else if cs = "false".toList then ff
  else match cs with
    | [c] => if c.isUpper then var c else unmatched
    | '<' :: rest => modality '>' dia rest
    | '[' :: rest => modality ']' box rest
    | 'n' :: 'u' :: rest => fixpoint .greatest rest
    | 'm' :: 'u' :: rest => fixpoint .least rest
    | _ => unmatched

/-- The shape of what stands between round brackets. -/
def ofWrapped (inner : List Char) : Shape :=
  match split '&' inner with
  | .double l r => and l r
  | .single => unmatched
  | .absent =>
    match split '|' inner with
    | .double l r => or l r
    | .single => unmatched
    | .absent => group inner

/-- **The outermost shape of a text without blanks at its ends.** -/
def of (cs : List Char) : Shape :=
  match unwrap? cs with
  | some inner => ofWrapped inner
  | none => ofBare cs

/-- The texts that remain to be read. -/
def parts : Shape → List (List Char)
  | tt | ff | var _ | unmatched => []
  | and l r | or l r => [l, r]
  | dia _ rest | box _ rest => [rest]
  | fix _ _ body => [body]
  | group inner => [inner]

/-! ### Parts are shorter than the whole -/

theorem length_cut {op : Char} {depth : Int} {cs l r : List Char}
    (h : cut op depth cs = some (l, r)) : l.length + r.length + 1 = cs.length := by
  induction cs generalizing depth l with
  | nil => cases h
  | cons c cs ih =>
    have step : ∀ {d : Int}, (cut op d cs).map (fun (l, r) => (c :: l, r)) = some (l, r) →
        l.length + r.length + 1 = (c :: cs).length := by
      intro d hd
      obtain ⟨⟨l', r'⟩, hcut, heq⟩ := Option.map_eq_some_iff.1 hd
      cases heq
      have := ih hcut
      simp only [List.length_cons]
      omega
    unfold cut at h
    split at h
    · exact step h
    · split at h
      · exact step h
      · split at h
        · cases h
          simp
        · exact step h

theorem length_split {op : Char} {cs l r : List Char} (h : split op cs = .double l r) :
    l.length + r.length + 2 = cs.length := by
  unfold split at h
  split at h
  · cases h
  · rename_i l' c r' hcut
    split at h
    · cases h
      have := length_cut hcut
      simp only [List.length_cons] at this
      omega
    · cases h
  · cases h

theorem length_unwrap? {cs inner : List Char} (h : unwrap? cs = some inner) :
    inner.length < cs.length := by
  unfold unwrap? at h
  split at h
  · split at h
    · cases h
      simp only [List.length_dropLast, List.length_cons]
      omega
    · cases h
  · cases h

theorem length_modality {close : Char} {make : List Char → List Char → Shape} {cs p : List Char}
    (hmake : ∀ action rest, (make action rest).parts = [rest])
    (h : p ∈ (modality close make cs).parts) : p.length < cs.length := by
  unfold modality at h
  split at h
  · cases h
  · rename_i c rest hdrop
    dsimp only at h
    split at h
    · rw [hmake, List.mem_singleton] at h
      have := (List.dropWhile_sublist (· ≠ close) (l := cs)).length_le
      rw [hdrop, ← h] at this
      exact this
    · cases h

theorem length_fixpoint {k : Kind} {cs p : List Char} (h : p ∈ (fixpoint k cs).parts) :
    p.length < cs.length := by
  unfold fixpoint at h
  split at h
  · split at h
    · simp only [parts, List.mem_singleton] at h
      subst h
      simp only [List.length_cons]
      omega
    · cases h
  · cases h

theorem length_ofBare {cs p : List Char} (h : p ∈ (ofBare cs).parts) : p.length < cs.length := by
  unfold ofBare at h
  split at h
  · cases h
  split at h
  · cases h
  split at h
  · split at h <;> cases h
  · exact Nat.lt_succ_of_lt (length_modality (fun _ _ => rfl) h)
  · exact Nat.lt_succ_of_lt (length_modality (fun _ _ => rfl) h)
  · exact Nat.lt_succ_of_lt (Nat.lt_succ_of_lt (length_fixpoint h))
  · exact Nat.lt_succ_of_lt (Nat.lt_succ_of_lt (length_fixpoint h))
  · cases h

theorem length_ofWrapped {inner p : List Char} (h : p ∈ (ofWrapped inner).parts) :
    p.length ≤ inner.length := by
  have pair : ∀ {op : Char} {l r : List Char}, split op inner = .double l r → p ∈ [l, r] →
      p.length ≤ inner.length := by
    intro op l r hs hp
    have := length_split hs
    simp only [List.mem_cons, List.not_mem_nil, or_false] at hp
    rcases hp with rfl | rfl <;> omega
  unfold ofWrapped at h
  split at h
  · rename_i hs
    exact pair hs h
  · cases h
  · split at h
    · rename_i hs
      exact pair hs h
    · cases h
    · simp only [parts, List.mem_singleton] at h
      exact Nat.le_of_eq (congrArg List.length h)

/-- **The parts of a text are shorter than the text.** -/
theorem length_lt_of_mem_parts {cs p : List Char} (h : p ∈ (of cs).parts) :
    p.length < cs.length := by
  unfold of at h
  split at h
  · rename_i inner hwrap
    exact Nat.lt_of_le_of_lt (length_ofWrapped h) (length_unwrap? hwrap)
  · exact length_ofBare h

end Shape

end ModalMu
