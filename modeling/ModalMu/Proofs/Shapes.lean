import ModalMu.Proofs.Grammar

/-!
# Shapes and derivations

The reader tells the outermost shape of a text from its ends and from operators outside of any inner
brackets. That this is the last step of a derivation rests on two facts:

* `Derives.skips` — a formula has its brackets paired and no operator outside of them, so whoever
  looks for an operator passes over it as a whole;
* labels and variables have no character in common with the brackets and operators around them.

Conversely `layout_of` says that **every text is written the way its shape says**, in the grammar or
not. `derives_core_iff` puts them together: **a text is derived exactly when its shape has derived
parts.**
-/

namespace ModalMu

namespace Grammar

open Text (AllBlank isBlank)

/-! ### Looking for an operator -/

/-- **A text is passed over** when looking for `op` from a bracket depth of at least `low`. -/
def Skips (op : Char) (low : Int) (cs : List Char) : Prop :=
  ∀ (depth : Int) (tail : List Char), low ≤ depth →
    Shape.cut op depth (cs ++ tail) = (Shape.cut op depth tail).map fun (l, r) => (cs ++ l, r)

namespace Skips

variable {op : Char} {low low' : Int} {cs cs' : List Char}

theorem mono (h : Skips op low cs) (hle : low ≤ low') : Skips op low' cs :=
  fun depth tail hdepth => h depth tail (Int.le_trans hle hdepth)

theorem nil : Skips op low [] := by
  intro depth tail _
  rw [List.nil_append]
  rcases Shape.cut op depth tail with _ | ⟨l, r⟩ <;> rfl

theorem append (h : Skips op low cs) (h' : Skips op low cs') : Skips op low (cs ++ cs') := by
  intro depth tail hdepth
  rw [List.append_assoc, h depth _ hdepth, h' depth tail hdepth, Option.map_map]
  congr 1
  funext ⟨l, r⟩
  exact congrArg (·, r) (List.append_assoc cs cs' l).symm

/-- A character other than a round bracket is passed over, unless it is the operator at depth
zero. -/
theorem singleton {c : Char} (hopen : c ≠ '(') (hclose : c ≠ ')') (hop : c ≠ op ∨ 0 < low) :
    Skips op low [c] := by
  intro depth tail hdepth
  have hcut : ¬ (c = op ∧ depth = 0) := by
    rintro ⟨hc, hzero⟩
    rcases hop with hop | hop
    · exact hop hc
    · omega
  rw [List.singleton_append, Shape.cut, if_neg hopen, if_neg hclose, if_neg hcut]
  rfl

/-- Brackets are passed over when what is between them is, one level deeper. -/
theorem brackets (h : Skips op (low + 1) cs) : Skips op low ('(' :: cs ++ [')']) := by
  intro depth tail hdepth
  rw [List.append_assoc, List.cons_append, Shape.cut, if_pos rfl, h (depth + 1) _ (by omega),
    List.singleton_append, Shape.cut, if_neg (by decide), if_pos rfl, Option.map_map,
    Option.map_map, Int.add_sub_cancel]
  congr 1
  funext ⟨l, r⟩
  simp

end Skips

/-- Neither a round bracket nor an operator. -/
def Plain (c : Char) : Prop := c ≠ '(' ∧ c ≠ ')' ∧ c ≠ '&' ∧ c ≠ '|'
  deriving Decidable

/-- The two operators. -/
def IsOperator (op : Char) : Prop := op = '&' ∨ op = '|'

theorem Plain.ne {c op : Char} (hc : Plain c) (hop : IsOperator op) : c ≠ op := by
  rcases hop with rfl | rfl
  · exact hc.2.2.1
  · exact hc.2.2.2

theorem skips_of_plain {op : Char} (hop : IsOperator op) {low : Int} {cs : List Char}
    (h : ∀ c ∈ cs, Plain c) : Skips op low cs := by
  induction cs with
  | nil => exact Skips.nil
  | cons c cs ih =>
    have hc := h c List.mem_cons_self
    have hfirst : Skips op low [c] := Skips.singleton hc.1 hc.2.1 (Or.inl (hc.ne hop))
    exact hfirst.append (ih fun d hd => h d (List.mem_cons_of_mem _ hd))

theorem plain_of_isBlank {c : Char} (h : isBlank c = true) : Plain c := by
  refine ⟨?_, ?_, ?_, ?_⟩ <;> rintro rfl <;> revert h <;> decide

theorem IsVariable.plain {c : Char} (h : IsVariable c) : Plain c := by
  refine ⟨?_, ?_, ?_, ?_⟩ <;> rintro rfl <;> revert h <;> decide

theorem IsLabelChar.plain {c : Char} (h : IsLabelChar c) : Plain c := by
  refine ⟨?_, ?_, ?_, ?_⟩ <;> rintro rfl <;> revert h <;> decide

/-- An operator inside of brackets is passed over. -/
theorem skips_operators {op op' : Char} (hop' : IsOperator op') {low : Int} (hlow : 0 < low) :
    Skips op low [op', op'] := by
  have hfirst : Skips op low [op'] := by
    rcases hop' with rfl | rfl <;> exact Skips.singleton (by decide) (by decide) (Or.inr hlow)
  exact hfirst.append hfirst

/-- **A formula is passed over** when looking for an operator. -/
theorem Derives.skips {op : Char} (hop : IsOperator op) {s : Symbol} {cs : List Char} {f : Formula}
    (h : Derives s cs f) : Skips op 0 cs := by
  -- two formulas in brackets with an operator between them, which is not at depth zero
  have hpair : ∀ {op' : Char} {l r : List Char}, IsOperator op' → Skips op 0 l → Skips op 0 r →
      Skips op 0 ('(' :: l ++ [op', op'] ++ r ++ [')']) := by
    intro op' l r hop' hl hr
    have hinner : Skips op (0 + 1) (l ++ [op', op'] ++ r) :=
      ((hl.mono (by omega)).append (skips_operators hop' (by omega))).append (hr.mono (by omega))
    exact hinner.brackets
  have hmodality : ∀ {left right : Char} {a cs : List Char}, Plain left → Plain right → IsLabel a →
      Skips op 0 cs → Skips op 0 (left :: a ++ [right] ++ cs) := by
    intro left right a cs hleft hright ha hcs
    refine Skips.append (skips_of_plain hop fun c hc => ?_) hcs
    simp only [List.cons_append, List.mem_cons, List.mem_append, List.not_mem_nil, or_false] at hc
    rcases hc with rfl | hc | rfl
    · exact hleft
    · exact (ha.isLabelChar c hc).plain
    · exact hright
  induction h with
  | padded hpre _ hpost ih =>
    have hblanks : ∀ {bs : List Char}, AllBlank bs → Skips op 0 bs :=
      fun hbs => skips_of_plain hop fun c hc => plain_of_isBlank (hbs c hc)
    exact ((hblanks hpre).append ih).append (hblanks hpost)
  | tt | ff => exact skips_of_plain hop (by simp [Plain])
  | var hx => exact skips_of_plain hop (by simpa using hx.plain)
  | and _ _ ihl ihr => exact hpair (Or.inl rfl) ihl ihr
  | or _ _ ihl ihr => exact hpair (Or.inr rfl) ihl ihr
  | dia ha _ ih => exact hmodality (by decide) (by decide) ha ih
  | box ha _ ih => exact hmodality (by decide) (by decide) ha ih
  | @fix k blank x id cs f hblank hx _ ih =>
    refine ((skips_of_plain hop ?_).append (skips_of_plain hop ?_)).append ih
    · cases k <;> simp [Plain, Kind.keyword]
    · intro c hc
      simp only [List.mem_cons, List.not_mem_nil, or_false] at hc
      rcases hc with rfl | rfl | rfl
      · exact plain_of_isBlank hblank
      · exact hx.plain
      · decide
  | group _ ih => exact (ih.mono (by omega)).brackets

/-! ### Operators between two formulas -/

theorem cut_eq_some {op : Char} {depth : Int} {cs l r : List Char}
    (h : Shape.cut op depth cs = some (l, r)) : cs = l ++ op :: r := by
  induction cs generalizing depth l with
  | nil => cases h
  | cons c cs ih =>
    have hstep : ∀ {depth' : Int},
        (Shape.cut op depth' cs).map (fun (l, r) => (c :: l, r)) = some (l, r) →
          c :: cs = l ++ op :: r := by
      intro depth' hcut
      obtain ⟨⟨l', r'⟩, hcut, heq⟩ := Option.map_eq_some_iff.1 hcut
      cases heq
      rw [ih hcut]
      rfl
    rw [Shape.cut] at h
    split at h
    · exact hstep h
    split at h
    · exact hstep h
    split at h
    · rename_i hop
      cases h
      rw [hop.1]
      rfl
    · exact hstep h

theorem split_eq_double {op : Char} {cs l r : List Char} (h : Shape.split op cs = .double l r) :
    cs = l ++ [op, op] ++ r := by
  rw [Shape.split] at h
  split at h
  · cases h
  · rename_i l' c r' hcut
    split at h
    · rename_i hc
      cases h
      rw [cut_eq_some hcut, hc]
      simp
    · cases h
  · cases h

/-- The operator after a formula is found. -/
theorem split_append {op : Char} (hop : IsOperator op) {l : List Char} (hl : Skips op 0 l)
    (r : List Char) : Shape.split op (l ++ [op, op] ++ r) = .double l r := by
  have hcut : Shape.cut op 0 ([op, op] ++ r) = some ([], op :: r) := by
    rcases hop with rfl | rfl <;> simp [Shape.cut]
  rw [Shape.split, List.append_assoc, hl 0 _ (Int.le_refl 0), hcut]
  simp

theorem split_of_skips {op : Char} {cs : List Char} (h : Skips op 0 cs) :
    Shape.split op cs = .absent := by
  have hcut := h 0 [] (Int.le_refl 0)
  rw [List.append_nil] at hcut
  rw [Shape.split, hcut]
  rfl

/-! ### Brackets and labels -/

theorem unwrap?_eq_some {cs inner : List Char} :
    Shape.unwrap? cs = some inner ↔ cs = '(' :: inner ++ [')'] := by
  refine ⟨?_, ?_⟩
  · intro h
    rw [Shape.unwrap?.eq_def] at h
    split at h
    · rename_i rest
      split at h
      · rename_i hlast
        cases h
        rw [List.cons_append, List.dropLast_append_getLast? ')' hlast]
      · cases h
    · cases h
  · rintro rfl
    simp [Shape.unwrap?]

/-- A modality is told by its label, which ends at the first closing bracket. -/
theorem modality_append {close : Char} (make : List Char → List Char → Shape) {a : List Char}
    (ha : IsLabel a) (hclose : ¬ IsLabelChar close) (rest : List Char) :
    Shape.modality close make (a ++ [close] ++ rest) = make a rest := by
  have hne : ∀ c ∈ a, decide (c ≠ close) = true := by
    intro c hc
    rw [decide_eq_true_iff]
    rintro rfl
    exact hclose (ha.isLabelChar c hc)
  rw [Shape.modality, List.append_assoc, List.dropWhile_append_of_pos hne,
    List.takeWhile_append_of_pos hne]
  simp [isAction_iff.2 ha]

theorem modality_eq (close : Char) (make : List Char → List Char → Shape) (cs : List Char) :
    Shape.modality close make cs = .unmatched ∨
      ∃ a rest, IsLabel a ∧ cs = a ++ [close] ++ rest ∧
        Shape.modality close make cs = make a rest := by
  rw [Shape.modality]
  split
  · exact Or.inl rfl
  · rename_i c rest hdrop
    dsimp only
    split
    · rename_i ha
      refine Or.inr ⟨_, rest, isAction_iff.1 ha, ?_, rfl⟩
      have hc : c = close := by
        have := List.head?_dropWhile_not (fun c => decide (c ≠ close)) cs
        rw [hdrop] at this
        simpa using this
      rw [← hc, List.append_assoc, List.singleton_append, ← hdrop]
      subst hc
      exact List.takeWhile_append_dropWhile.symm
    · exact Or.inl rfl

/-! ### Shapes of texts -/

theorem of_wrapped (inner : List Char) :
    Shape.of ('(' :: inner ++ [')']) = Shape.ofWrapped inner := by
  rw [Shape.of, unwrap?_eq_some.2 rfl]

theorem of_cons {c : Char} (hc : c ≠ '(') (cs : List Char) :
    Shape.of (c :: cs) = Shape.ofBare (c :: cs) := by
  have hunwrap : Shape.unwrap? (c :: cs) = none := by
    rw [Shape.unwrap?.eq_def]
    split
    · rename_i heq
      cases heq
      exact absurd rfl hc
    · rfl
  rw [Shape.of, hunwrap]

theorem ofBare_dia {cs : List Char} (hcs : cs ≠ []) :
    Shape.ofBare ('<' :: cs) = Shape.modality '>' .dia cs := by
  obtain ⟨c, cs, rfl⟩ := List.exists_cons_of_ne_nil hcs
  rw [Shape.ofBare.eq_def, if_neg (by simp), if_neg (by simp)]
  rfl

theorem ofBare_box {cs : List Char} (hcs : cs ≠ []) :
    Shape.ofBare ('[' :: cs) = Shape.modality ']' .box cs := by
  obtain ⟨c, cs, rfl⟩ := List.exists_cons_of_ne_nil hcs
  rw [Shape.ofBare.eq_def, if_neg (by simp), if_neg (by simp)]
  rfl

theorem of_keyword (k : Kind) {blank x : Char} (hblank : isBlank blank = true) (hx : IsVariable x)
    (cs : List Char) :
    Shape.of (k.keyword.toList ++ [blank, x, '.'] ++ cs) = .fix k x cs := by
  have hfix : Shape.fixpoint k (blank :: x :: '.' :: cs) = .fix k x cs := by
    rw [Shape.fixpoint, hblank, isUpper_iff.2 hx]
    rfl
  cases k <;> exact hfix

/-! ### The last step of a derivation -/

/-- **What a shape stands for**, when its parts are formulas. -/
def Yields : Shape → Formula → Prop
  | .tt, f => f = .tt
  | .ff, f => f = .ff
  | .var x, f => f = .var x
  | .and l r, f => ∃ g h, Derives .formula l g ∧ Derives .formula r h ∧ f = .and g h
  | .or l r, f => ∃ g h, Derives .formula l g ∧ Derives .formula r h ∧ f = .or g h
  | .dia a rest, f => ∃ g, Derives .formula rest g ∧ f = .dia (String.ofList a) g
  | .box a rest, f => ∃ g, Derives .formula rest g ∧ f = .box (String.ofList a) g
  | .fix k x body, f => ∃ id g, Derives .formula body g ∧ f = .fix k ⟨id, x⟩ g
  | .group inner, f => Derives .formula inner f
  | .unmatched, _ => False

variable {cs : List Char} {f : Formula}

theorem Derives.yields (h : Derives .core cs f) : Yields (Shape.of cs) f := by
  have hand : IsOperator '&' := Or.inl rfl
  have hor : IsOperator '|' := Or.inr rfl
  cases h with
  | tt | ff => exact rfl
  | @var x hx =>
    have hbare : Shape.ofBare [x] = .var x := by
      rw [Shape.ofBare.eq_def, if_neg (by simp), if_neg (by simp)]
      exact if_pos (isUpper_iff.2 hx)
    rw [of_cons hx.plain.1, hbare]
    exact rfl
  | @and l r g h hl hr =>
    rw [List.cons_append, List.cons_append, of_wrapped, Shape.ofWrapped,
      split_append hand (hl.skips hand)]
    exact ⟨g, h, hl, hr, rfl⟩
  | @or l r g h hl hr =>
    -- neither formula has a conjunction to show
    have hskips : Skips '&' 0 (l ++ ['|', '|'] ++ r) := by
      have hbar : Skips '&' 0 ['|'] :=
        Skips.singleton (by decide) (by decide) (Or.inl (by decide))
      exact ((hl.skips hand).append (hbar.append hbar)).append (hr.skips hand)
    rw [List.cons_append, List.cons_append, of_wrapped, Shape.ofWrapped, split_of_skips hskips,
      split_append hor (hl.skips hor)]
    exact ⟨g, h, hl, hr, rfl⟩
  | @dia a rest g ha h =>
    rw [List.cons_append, List.cons_append, of_cons (by decide), ofBare_dia (by simp),
      modality_append _ ha (by decide)]
    exact ⟨g, h, rfl⟩
  | @box a rest g ha h =>
    rw [List.cons_append, List.cons_append, of_cons (by decide), ofBare_box (by simp),
      modality_append _ ha (by decide)]
    exact ⟨g, h, rfl⟩
  | @fix k blank x id rest g hblank hx h =>
    rw [of_keyword k hblank hx]
    exact ⟨id, g, h, rfl⟩
  | group h =>
    rw [of_wrapped, Shape.ofWrapped, split_of_skips (h.skips hand), split_of_skips (h.skips hor)]
    exact h

/-! ### How a shape is written -/

/-- **How a shape is written**, given the texts of its parts. -/
def Layout : Shape → List Char → Prop
  | .tt, cs => cs = "true".toList
  | .ff, cs => cs = "false".toList
  | .var x, cs => IsVariable x ∧ cs = [x]
  | .and l r, cs => cs = '(' :: l ++ ['&', '&'] ++ r ++ [')']
  | .or l r, cs => cs = '(' :: l ++ ['|', '|'] ++ r ++ [')']
  | .dia a rest, cs => IsLabel a ∧ cs = '<' :: a ++ ['>'] ++ rest
  | .box a rest, cs => IsLabel a ∧ cs = '[' :: a ++ [']'] ++ rest
  | .fix k x body, cs => ∃ blank, isBlank blank = true ∧ IsVariable x ∧
      cs = k.keyword.toList ++ [blank, x, '.'] ++ body
  | .group inner, cs => cs = '(' :: inner ++ [')']
  | .unmatched, _ => True

theorem layout_ofWrapped (inner : List Char) :
    Layout (Shape.ofWrapped inner) ('(' :: inner ++ [')']) := by
  rw [Shape.ofWrapped]
  split
  · rename_i hsplit
    rw [split_eq_double hsplit]
    exact rfl
  · trivial
  · split
    · rename_i hsplit
      rw [split_eq_double hsplit]
      exact rfl
    · trivial
    · exact rfl

theorem layout_modality {left right : Char} {make : List Char → List Char → Shape}
    (hmake : ∀ {a cs}, IsLabel a → Layout (make a cs) (left :: a ++ [right] ++ cs))
    (rest : List Char) : Layout (Shape.modality right make rest) (left :: rest) := by
  rcases modality_eq right make rest with hnone | ⟨a, cs, ha, rfl, hshape⟩
  · rw [hnone]
    trivial
  · rw [hshape]
    exact hmake ha

theorem layout_fixpoint (k : Kind) (rest : List Char) :
    Layout (Shape.fixpoint k rest) (k.keyword.toList ++ rest) := by
  rw [Shape.fixpoint.eq_def]
  split
  · split
    · rename_i hchars
      rw [Bool.and_eq_true] at hchars
      exact ⟨_, hchars.1, isUpper_iff.1 hchars.2, by simp⟩
    · trivial
  · trivial

theorem layout_ofBare (cs : List Char) : Layout (Shape.ofBare cs) cs := by
  rw [Shape.ofBare.eq_def]
  split
  · assumption
  split
  · assumption
  split
  · split
    · rename_i hx
      exact ⟨isUpper_iff.1 hx, rfl⟩
    · trivial
  · apply layout_modality
    exact fun ha => ⟨ha, rfl⟩
  · apply layout_modality
    exact fun ha => ⟨ha, rfl⟩
  · exact layout_fixpoint .greatest _
  · exact layout_fixpoint .least _
  · trivial

/-- **A text is written the way its shape says.** -/
theorem layout_of (cs : List Char) : Layout (Shape.of cs) cs := by
  rw [Shape.of]
  split
  · rename_i inner hunwrap
    rw [unwrap?_eq_some.1 hunwrap]
    exact layout_ofWrapped inner
  · exact layout_ofBare cs

theorem derives_of_layout {shape : Shape} (hlayout : Layout shape cs) (h : Yields shape f) :
    Derives .core cs f := by
  cases shape with
  | tt =>
    cases h
    exact hlayout ▸ .tt
  | ff =>
    cases h
    exact hlayout ▸ .ff
  | var x =>
    cases h
    obtain ⟨hx, rfl⟩ := hlayout
    exact .var hx
  | and l r =>
    obtain ⟨g, g', hl, hr, rfl⟩ := h
    exact hlayout ▸ .and hl hr
  | or l r =>
    obtain ⟨g, g', hl, hr, rfl⟩ := h
    exact hlayout ▸ .or hl hr
  | dia a rest =>
    obtain ⟨g, hg, rfl⟩ := h
    exact hlayout.2 ▸ .dia hlayout.1 hg
  | box a rest =>
    obtain ⟨g, hg, rfl⟩ := h
    exact hlayout.2 ▸ .box hlayout.1 hg
  | fix k x body =>
    obtain ⟨id, g, hg, rfl⟩ := h
    obtain ⟨blank, hblank, hx, rfl⟩ := hlayout
    exact .fix hblank hx hg
  | group inner => exact hlayout ▸ .group h
  | unmatched => cases h

/-- **A text is derived exactly when its shape has derived parts.** -/
theorem derives_core_iff : Derives .core cs f ↔ Yields (Shape.of cs) f :=
  ⟨Derives.yields, derives_of_layout (layout_of cs)⟩

end Grammar

end ModalMu
