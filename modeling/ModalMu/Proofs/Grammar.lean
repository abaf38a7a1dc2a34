import Mathlib.Data.List.DropRight
import ModalMu.Formula.Printer
import ModalMu.Formula.Shape

/-!
# The grammar of formula text

A formula may have blanks around it; from its first character on it is a constant, a variable, two
formulas with a doubled operator between them in round brackets, a modality or a fixpoint in front
of a formula, or a formula in round brackets:

    F ::= blank* C blank*
    C ::= true | false | V | (F&&F) | (F||F) | <L>F | [L]F | mu blank V.F | nu blank V.F | (F)

* `Derives` — the texts of the two symbols, with the formulas that they stand for. Round brackets
  around a formula leave no trace, and the grammar says nothing about the numbers of fixpoints;
* `derives_formula_iff` — **a text is a formula exactly when it is one without the blanks at its
  ends**, although the blanks at its right end may belong to a formula inside.
-/

namespace ModalMu

namespace Text

/-! ### Blanks at the ends of a text -/

/-- A text of blanks only. -/
def AllBlank (cs : List Char) : Prop := ∀ c ∈ cs, isBlank c = true

theorem allBlank_takeWhile (cs : List Char) : AllBlank (cs.takeWhile isBlank) :=
  fun _ hc => (List.all_eq_true.1 List.all_takeWhile) _ hc

theorem exists_eq_trimRight (cs : List Char) :
    ∃ post, AllBlank post ∧ cs = trimRight cs ++ post := by
  refine ⟨(cs.reverse.takeWhile isBlank).reverse, ?_, ?_⟩
  · intro c hc
    exact allBlank_takeWhile _ c (List.mem_reverse.1 hc)
  · rw [trimRight, ← List.reverse_append, List.takeWhile_append_dropWhile, List.reverse_reverse]

/-- **Trimming takes blanks off both ends, and nothing else.** -/
theorem exists_eq_trim (cs : List Char) :
    ∃ pre post, AllBlank pre ∧ AllBlank post ∧ cs = pre ++ trim cs ++ post := by
  obtain ⟨post, hpost, hright⟩ := exists_eq_trimRight (trimLeft cs)
  refine ⟨cs.takeWhile isBlank, post, allBlank_takeWhile cs, hpost, ?_⟩
  rw [List.append_assoc, trim, ← hright]
  exact List.takeWhile_append_dropWhile.symm

theorem trimLeft_append {pre cs : List Char} (hpre : AllBlank pre) :
    trimLeft (pre ++ cs) = trimLeft cs :=
  List.dropWhile_append_of_pos hpre

theorem trimRight_append {cs post : List Char} (hpost : AllBlank post) :
    trimRight (cs ++ post) = trimRight cs := by
  rw [trimRight, List.reverse_append, List.dropWhile_append_of_pos, trimRight]
  exact fun c hc => hpost c (List.mem_reverse.1 hc)

/-- Only the blanks after the last other character are taken off. -/
theorem trimRight_append_of_ne_nil (pre : List Char) {cs : List Char} (h : trimRight cs ≠ []) :
    trimRight (pre ++ cs) = pre ++ trimRight cs := by
  have hne : (cs.reverse.dropWhile isBlank).isEmpty = false := by
    rw [List.isEmpty_eq_false_iff]
    exact fun hnil => h (by rw [trimRight, hnil, List.reverse_nil])
  rw [trimRight, List.reverse_append, List.dropWhile_append, hne, trimRight]
  simp

theorem trimRight_ne_nil {cs : List Char} {c : Char} (hmem : c ∈ cs) (hc : isBlank c = false) :
    trimRight cs ≠ [] := by
  intro hnil
  rw [List.rdropWhile_eq_nil_iff.1 hnil c hmem] at hc
  cases hc

theorem trimRight_append_singleton (cs : List Char) {c : Char} (hc : isBlank c = false) :
    trimRight (cs ++ [c]) = cs ++ [c] :=
  List.rdropWhile_concat_neg _ _ _ (by rw [hc]; decide)

theorem trimLeft_cons {c : Char} (cs : List Char) (hc : isBlank c = false) :
    trimLeft (c :: cs) = c :: cs := by
  simp [trimLeft, hc]

theorem trimLeft_trimLeft (cs : List Char) : trimLeft (trimLeft cs) = trimLeft cs :=
  List.dropWhile_idempotent ..

/-- Only the blanks before the first other character are taken off. -/
theorem trimLeft_append_of_ne_nil {cs : List Char} (h : trimLeft cs ≠ []) (post : List Char) :
    trimLeft (cs ++ post) = trimLeft cs ++ post := by
  have hne : (cs.dropWhile isBlank).isEmpty = false := List.isEmpty_eq_false_iff.2 h
  rw [trimLeft, List.dropWhile_append, hne, trimLeft]
  simp

theorem trim_blank_append {pre cs : List Char} (hpre : AllBlank pre) :
    trim (pre ++ cs) = trim cs := by
  rw [trim, trimLeft_append hpre, trim]

/-- Blanks at the right end do not matter, also where the text has nothing else. -/
theorem trim_append {cs post : List Char} (hpost : AllBlank post) :
    trim (cs ++ post) = trim cs := by
  by_cases htrim : trimLeft cs = []
  · have hcs : AllBlank cs := List.dropWhile_eq_nil_iff.1 htrim
    rw [trim, trim, htrim, trimLeft_append hcs, trimLeft, List.dropWhile_eq_nil_iff.2 hpost]
  · rw [trim, trim, trimLeft_append_of_ne_nil htrim, trimRight_append hpost]

theorem trim_trimRight (cs : List Char) : trim (trimRight cs) = trim cs := by
  obtain ⟨post, hpost, hcs⟩ := exists_eq_trimRight cs
  conv_rhs => rw [hcs, trim_append hpost]

/-- A text is trimmed when neither of its ends is blank. -/
theorem trim_eq_self {cs : List Char} (hhead : ∀ c, cs.head? = some c → isBlank c = false)
    (hlast : ∀ c, cs.getLast? = some c → isBlank c = false) : trim cs = cs := by
  have hleft : trimLeft cs = cs := by
    cases cs with
    | nil => rfl
    | cons c cs => exact trimLeft_cons cs (hhead c rfl)
  rw [trim, hleft]
  rcases List.eq_nil_or_concat cs with rfl | ⟨pre, c, rfl⟩
  · rfl
  · rw [List.concat_eq_append] at hlast ⊢
    exact trimRight_append_singleton pre (hlast c (by simp))

theorem isBlank_getLast?_trim {cs : List Char} {c : Char} (h : (trim cs).getLast? = some c) :
    isBlank c = false := by
  rw [trim, trimRight, List.getLast?_reverse] at h
  have hnot := List.head?_dropWhile_not isBlank (trimLeft cs).reverse
  rw [h] at hnot
  exact hnot

theorem isBlank_head?_trim {cs : List Char} {c : Char} (h : (trim cs).head? = some c) :
    isBlank c = false := by
  have hhead : (trimLeft cs).head? = some c := by
    obtain ⟨post, hpost⟩ : trim cs <+: trimLeft cs := List.rdropWhile_prefix isBlank _
    rw [← hpost, List.head?_append, h]
    rfl
  have hnot := List.head?_dropWhile_not isBlank cs
  rw [trimLeft] at hhead
  rw [hhead] at hnot
  exact hnot

theorem trim_trim (cs : List Char) : trim (trim cs) = trim cs :=
  trim_eq_self (fun _ => isBlank_head?_trim) fun _ => isBlank_getLast?_trim

end Text

namespace Grammar

open Text (AllBlank isBlank trimLeft trimRight trim)

/-! ### Derivations -/

/-- **A variable is an upper-case letter.** -/
def IsVariable (c : Char) : Prop := 'A' ≤ c ∧ c ≤ 'Z'
  deriving Decidable

/-- A character of a label: a lower-case letter, a digit or a low line. -/
def IsLabelChar (c : Char) : Prop := ('a' ≤ c ∧ c ≤ 'z') ∨ ('0' ≤ c ∧ c ≤ '9') ∨ c = '_'
  deriving Decidable

/-- **A label begins with a lower-case letter.** -/
def IsLabel : List Char → Prop
  | [] => False
  | c :: cs => ('a' ≤ c ∧ c ≤ 'z') ∧ ∀ d ∈ cs, IsLabelChar d

instance : DecidablePred IsLabel
  | [] => inferInstanceAs (Decidable False)
  | _ :: cs =>
    have := List.decidableBAll IsLabelChar cs
    inferInstanceAs (Decidable (_ ∧ ∀ d ∈ cs, IsLabelChar d))

/-- The two symbols of the grammar. -/
inductive Symbol where
  /-- a formula, possibly with blanks around it -/
  | formula
  /-- a formula from its first character on -/
  | core

/-- **The text is derived from the symbol, and stands for the formula.** -/
inductive Derives : Symbol → List Char → Formula → Prop where
  /-- blanks around a formula -/
  | padded {pre cs post : List Char} {f : Formula} (hpre : AllBlank pre)
      (h : Derives .core cs f) (hpost : AllBlank post) : Derives .formula (pre ++ cs ++ post) f
  /-- `true` -/
  | tt : Derives .core "true".toList .tt
  /-- `false` -/
  | ff : Derives .core "false".toList .ff
  /-- `V` -/
  | var {x : Char} (hx : IsVariable x) : Derives .core [x] (.var x)
  /-- `(F&&F)` -/
  | and {l r : List Char} {f g : Formula} (hl : Derives .formula l f) (hr : Derives .formula r g) :
      Derives .core ('(' :: l ++ ['&', '&'] ++ r ++ [')']) (.and f g)
  /-- `(F||F)` -/
  | or {l r : List Char} {f g : Formula} (hl : Derives .formula l f) (hr : Derives .formula r g) :
      Derives .core ('(' :: l ++ ['|', '|'] ++ r ++ [')']) (.or f g)
  /-- `<L>F` -/
  | dia {a cs : List Char} {f : Formula} (ha : IsLabel a) (h : Derives .formula cs f) :
      Derives .core ('<' :: a ++ ['>'] ++ cs) (.dia (String.ofList a) f)
  /-- `[L]F` -/
  | box {a cs : List Char} {f : Formula} (ha : IsLabel a) (h : Derives .formula cs f) :
      Derives .core ('[' :: a ++ [']'] ++ cs) (.box (String.ofList a) f)
  /-- `mu V.F` and `nu V.F`, with any number for the fixpoint -/
  | fix {k : Kind} {blank x : Char} {id : Nat} {cs : List Char} {f : Formula}
      (hblank : isBlank blank = true) (hx : IsVariable x) (h : Derives .formula cs f) :
      Derives .core (k.keyword.toList ++ [blank, x, '.'] ++ cs) (.fix k ⟨id, x⟩ f)
  /-- `(F)` -/
  | group {cs : List Char} {f : Formula} (h : Derives .formula cs f) :
      Derives .core ('(' :: cs ++ [')']) f

/-! ### Characters -/

theorem isUpper_iff {c : Char} : c.isUpper = true ↔ IsVariable c := by
  change decide (c.val ≥ 'A'.val ∧ c.val ≤ 'Z'.val) = true ↔ _
  rw [decide_eq_true_iff, IsVariable, Char.le_def, Char.le_def]

theorem isLower_iff {c : Char} : c.isLower = true ↔ 'a' ≤ c ∧ c ≤ 'z' := by
  change (decide (c.val ≥ 'a'.val) && decide (c.val ≤ 'z'.val)) = true ↔ _
  rw [Bool.and_eq_true, decide_eq_true_iff, decide_eq_true_iff, Char.le_def, Char.le_def]

theorem isDigit_iff {c : Char} : c.isDigit = true ↔ '0' ≤ c ∧ c ≤ '9' := by
  change (decide (c.val ≥ '0'.val) && decide (c.val ≤ '9'.val)) = true ↔ _
  rw [Bool.and_eq_true, decide_eq_true_iff, decide_eq_true_iff, Char.le_def, Char.le_def]

theorem isAction_iff {cs : List Char} : Shape.isAction cs = true ↔ IsLabel cs := by
  cases cs with
  | nil => simp [Shape.isAction, IsLabel]
  | cons c cs =>
    simp only [Shape.isAction, IsLabel, IsLabelChar, isLower_iff, isDigit_iff, Bool.and_eq_true,
      Bool.or_eq_true, List.all_eq_true, beq_iff_eq, or_assoc]

theorem IsLabel.isLabelChar {cs : List Char} (h : IsLabel cs) : ∀ c ∈ cs, IsLabelChar c := by
  cases cs with
  | nil => cases h
  | cons c cs =>
    intro d hd
    rcases List.mem_cons.1 hd with rfl | hd
    · exact Or.inl h.1
    · exact h.2 d hd

theorem IsVariable.not_isBlank {c : Char} (h : IsVariable c) : isBlank c = false := by
  obtain ⟨hlow, hhigh⟩ := h
  rw [Char.le_def, UInt32.le_iff_toNat_le] at hlow hhigh
  have hlow' : 65 ≤ c.toNat := hlow
  have hhigh' : c.toNat ≤ 90 := hhigh
  simp only [isBlank, Bool.or_eq_false_iff, Bool.and_eq_false_iff, decide_eq_false_iff_not,
    beq_eq_false_iff_ne]
  omega

/-! ### Blanks around a formula -/

/-- Nothing begins with a blank from its first character on. -/
theorem Derives.exists_cons {cs : List Char} {f : Formula} (h : Derives .core cs f) :
    ∃ c rest, cs = c :: rest ∧ isBlank c = false := by
  cases h with
  | tt | ff => exact ⟨_, _, rfl, rfl⟩
  | var hx => exact ⟨_, _, rfl, hx.not_isBlank⟩
  | and _ _ | or _ _ | dia _ _ | box _ _ | group _ => exact ⟨_, _, rfl, rfl⟩
  | @fix k => cases k <;> exact ⟨_, _, rfl, rfl⟩

/-- There need not be any blanks. -/
theorem Derives.formula {cs : List Char} {f : Formula} (h : Derives .core cs f) :
    Derives .formula cs f := by
  have hpadded : Derives .formula ([] ++ cs ++ []) f :=
    .padded (by simp [AllBlank]) h (by simp [AllBlank])
  rwa [List.nil_append, List.append_nil] at hpadded

theorem Derives.trimRight_ne_nil {cs : List Char} {f : Formula} (h : Derives .formula cs f) :
    trimRight cs ≠ [] := by
  obtain ⟨hpre, hcore, hpost⟩ := h
  obtain ⟨c, rest, rfl, hc⟩ := hcore.exists_cons
  exact Text.trimRight_ne_nil (by simp) hc

/-- **Blanks at the right end can be left out**, wherever they belong. -/
theorem Derives.trimRight {s : Symbol} {cs : List Char} {f : Formula} (h : Derives s cs f) :
    Derives s (trimRight cs) f := by
  -- the text ends in a character that is not blank, or in a formula that is trimmed in its turn
  induction h with
  | @padded pre cs post f hpre h hpost ih =>
    obtain ⟨c, rest, rfl, hc⟩ := h.exists_cons
    rw [Text.trimRight_append hpost, Text.trimRight_append_of_ne_nil pre
      (Text.trimRight_ne_nil List.mem_cons_self hc), ← List.append_nil (Text.trimRight _),
      ← List.append_assoc]
    exact .padded hpre ih (by simp [AllBlank])
  | tt => exact .tt
  | ff => exact .ff
  | var hx =>
    rw [← List.nil_append [_], Text.trimRight_append_singleton _ hx.not_isBlank]
    exact .var hx
  | and hl hr _ _ =>
    rw [Text.trimRight_append_singleton _ rfl]
    exact .and hl hr
  | or hl hr _ _ =>
    rw [Text.trimRight_append_singleton _ rfl]
    exact .or hl hr
  | group h _ =>
    rw [Text.trimRight_append_singleton _ rfl]
    exact .group h
  | dia ha h ih =>
    rw [Text.trimRight_append_of_ne_nil _ h.trimRight_ne_nil]
    exact .dia ha ih
  | box ha h ih =>
    rw [Text.trimRight_append_of_ne_nil _ h.trimRight_ne_nil]
    exact .box ha ih
  | fix hblank hx h ih =>
    rw [Text.trimRight_append_of_ne_nil _ h.trimRight_ne_nil]
    exact .fix hblank hx ih

/-- **The blanks at the ends of a text do not matter.** -/
theorem derives_formula_iff {cs : List Char} {f : Formula} :
    Derives .formula cs f ↔ Derives .core (trim cs) f := by
  refine ⟨?_, ?_⟩
  · rintro ⟨hpre, h, hpost⟩
    obtain ⟨c, rest, rfl, hc⟩ := h.exists_cons
    rw [trim, List.append_assoc, Text.trimLeft_append hpre, List.cons_append,
      Text.trimLeft_cons _ hc, ← List.cons_append, Text.trimRight_append hpost]
    exact h.trimRight
  · intro h
    obtain ⟨pre, post, hpre, hpost, hcs⟩ := Text.exists_eq_trim cs
    rw [hcs]
    exact .padded hpre h hpost

end Grammar

end ModalMu
