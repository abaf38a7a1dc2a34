import ModalMu.Proofs.Occurrences
import ModalMu.Proofs.RoundTrip

/-!
# What the reader says about a text that it refuses

A report names a piece of the text, without blanks at its ends. Which one is said in terms of the
grammar alone:

* `Lead`, `Opening` — a text that leads up to the place of a formula, with the variables of the
  fixpoints that it stands in and the number of fixpoints that have begun before it; `Piece` — a
  piece of a text at such a place;
* `located_of_read_error` — **every report names a piece at the place of a formula**, whatever text
  is read: one without a shape, or a fixpoint on a variable that is bound around it. So an unmatched
  piece is refused for itself (`parse_unmatched`);
* `FirstRebinding` — the first fixpoint that binds the variable of one around it;
  `answers_read` — **a text of the grammar is refused exactly if there is such a fixpoint**, and the
  report names the piece that derives it (`parse_shadowed`).
-/

namespace ModalMu

namespace Grammar

open Text (AllBlank isBlank trim)

/-! ### Places of formulas -/

/-- **The beginning of a fixpoint** that binds `x`: `mu V.` or `nu V.`. -/
def BinderText (x : Var) (cs : List Char) : Prop :=
  ∃ (k : Kind) (blank : Char), isBlank blank = true ∧ IsVariable x ∧
    cs = k.keyword.toList ++ [blank, x, '.']

/-- **What may stand in front of a formula** as a part of another one, with the variable that it
binds, if any, and the number of fixpoints that begin in it. -/
inductive Lead : List Var → Nat → List Char → Prop where
  /-- a blank -/
  | blank {c : Char} (hc : isBlank c = true) : Lead [] 0 [c]
  /-- `(`, whatever it belongs to -/
  | bracket : Lead [] 0 ['(']
  /-- `(F&&` and `(F||` -/
  | operand {op : Char} {l : List Char} {f : Formula} (hop : IsOperator op)
      (hl : Derives .formula l f) : Lead [] f.nestings.length ('(' :: l ++ [op, op])
  /-- `<L>` -/
  | dia {a : List Char} (ha : IsLabel a) : Lead [] 0 ('<' :: a ++ ['>'])
  /-- `[L]` -/
  | box {a : List Char} (ha : IsLabel a) : Lead [] 0 ('[' :: a ++ [']'])
  /-- `mu V.` and `nu V.` -/
  | fix {x : Var} {cs : List Char} (h : BinderText x cs) : Lead [x] 1 cs

/-- **The text leads up to the place of a formula**, inside the fixpoints that bind the variables of
`scope`, outermost first, and after `n` fixpoints have begun. -/
inductive Opening : List Var → Nat → List Char → Prop where
  /-- the place is right here -/
  | here : Opening [] 0 []
  /-- one thing more stands in front of it -/
  | step {scope scope' : List Var} {n n' : Nat} {cs cs' : List Char} (hlead : Lead scope n cs)
      (h : Opening scope' n' cs') : Opening (scope ++ scope') (n + n') (cs ++ cs')

namespace Opening

theorem of_allBlank {cs : List Char} (h : AllBlank cs) : Opening [] 0 cs := by
  induction cs with
  | nil => exact .here
  | cons c cs ih =>
    have hrest : Opening [] 0 cs := ih fun d hd => h d (List.mem_cons_of_mem c hd)
    exact .step (.blank (h c List.mem_cons_self)) hrest

theorem append {scope scope' : List Var} {n n' : Nat} {cs cs' : List Char}
    (h : Opening scope n cs) (h' : Opening scope' n' cs') :
    Opening (scope ++ scope') (n + n') (cs ++ cs') := by
  induction h with
  | here => simpa using h'
  | step hlead _ ih =>
    rw [List.append_assoc, List.append_assoc, Nat.add_assoc]
    exact .step hlead ih

/-- **A place is inside the fixpoints of its variables**: each of them begins on the way to the
place, and what is left of the way starts in its body. -/
theorem exists_binder {scope : List Var} {n : Nat} {cs : List Char} {x : Var}
    (h : Opening scope n cs) (hx : x ∈ scope) :
    ∃ outer binder inner, cs = outer ++ binder ++ inner ∧ BinderText x binder ∧
      (∃ scope n, Opening scope n outer) ∧ ∃ scope n, Opening scope n inner := by
  induction h with
  | here => cases hx
  | @step _ _ _ _ front rest hlead hrest ih =>
    rcases List.mem_append.1 hx with hx | hx
    · cases hlead with
      | fix hbinder =>
        obtain rfl := List.mem_singleton.1 hx
        exact ⟨[], front, rest, rfl, hbinder, ⟨_, _, .here⟩, _, _, hrest⟩
      | _ => cases hx
    · obtain ⟨outer, binder, inner, rfl, hbinder, ⟨_, _, houter⟩, hinner⟩ := ih hx
      exact ⟨front ++ outer, binder, inner, by simp, hbinder, ⟨_, _, .step hlead houter⟩, hinner⟩

end Opening

/-- **A piece of a text**, without blanks at its ends, that stands at the place of a formula. -/
structure Piece (cs : List Char) (scope : List Var) (n : Nat) (piece : List Char) : Prop where
  /-- its ends are not blank -/
  trimmed : trim piece = piece
  /-- what comes before it leads up to a formula -/
  place : ∃ before after, Opening scope n before ∧ cs = before ++ piece ++ after

namespace Piece

variable {cs piece : List Char} {scope : List Var} {n : Nat}

theorem isInfix (h : Piece cs scope n piece) : piece <:+: cs := by
  obtain ⟨before, after, -, rfl⟩ := h.place
  exact ⟨before, after, rfl⟩

/-- The whole text is a piece of itself. -/
theorem whole (cs : List Char) : Piece cs [] 0 (trim cs) := by
  obtain ⟨pre, post, hpre, -, hcs⟩ := Text.exists_eq_trim cs
  exact ⟨Text.trim_trim cs, pre, post, .of_allBlank hpre, hcs⟩

/-- A piece of a part is one of the whole. -/
theorem within {front part back : List Char} {scope' : List Var} {n' : Nat}
    (h : Piece part scope n piece) (hlead : Lead scope' n' front)
    (hcs : trim cs = front ++ part ++ back) : Piece cs (scope' ++ scope) (n' + n) piece := by
  obtain ⟨before, after, hbefore, rfl⟩ := h.place
  obtain ⟨pre, post, hpre, -, hpad⟩ := Text.exists_eq_trim cs
  refine ⟨h.trimmed, pre ++ (front ++ before), after ++ back ++ post, ?_, ?_⟩
  · simpa using (Opening.of_allBlank hpre).append (.step hlead hbefore)
  · rw [hpad, hcs]
    simp

end Piece

end Grammar

namespace Formula

open Grammar
open Text (isBlank trim)

/-! ### What a report names -/

/-- **The report names the piece for a reason**: the piece has none of the shapes of a formula, or
it is a fixpoint on a variable of `scope`. -/
inductive Blames (scope : List Var) (piece : List Char) : SyntaxError → Prop where
  /-- no shape -/
  | unmatched (h : Shape.of piece = .unmatched) :
      Blames scope piece (.unmatched (String.ofList piece))
  /-- a variable that is bound already -/
  | shadowed {k : Kind} {x : Var} {body : List Char} (h : Shape.of piece = .fix k x body)
      (hx : x ∈ scope) : Blames scope piece (.shadowed x (String.ofList piece))

theorem Blames.mono {scope scope' : List Var} {piece : List Char} {e : SyntaxError}
    (h : Blames scope piece e) (hsub : scope ⊆ scope') : Blames scope' piece e := by
  cases h with
  | unmatched h => exact .unmatched h
  | shadowed h hx => exact .shadowed h (hsub hx)

theorem bind_eq_error {ε α β : Type} {m : Except ε α} {k : α → Except ε β} {e : ε} :
    (m >>= k) = .error e ↔ m = .error e ∨ ∃ a, m = .ok a ∧ k a = .error e := by
  cases m <;> simp [bind, Except.bind]

/-- What is done with a formula that was read does not fail. -/
theorem wrap_eq_error {m : Except SyntaxError (Formula × Nat)} {wrap : Formula × Nat → Formula × Nat}
    {e : SyntaxError} : (do let r ← m; return wrap r) = Except.error e ↔ m = .error e := by
  rw [bind_eq_error]
  refine or_iff_left ?_
  rintro ⟨_, -, hpure⟩
  cases hpure

/-- The report names a piece of the text, which was read below the binders of `scope`. -/
def Located (scope : List Var) (cs : List Char) (e : SyntaxError) : Prop :=
  ∃ inner n piece, Piece cs inner n piece ∧ Blames (inner ++ scope) piece e

theorem located_within {scope inner : List Var} {n : Nat} {cs front part back : List Char}
    {e : SyntaxError} (hlead : Lead inner n front) (hcs : trim cs = front ++ part ++ back)
    (h : Located (inner ++ scope) part e) : Located scope cs e := by
  obtain ⟨inner', n', piece, hpiece, hblames⟩ := h
  refine ⟨inner ++ inner', n + n', piece, hpiece.within hlead hcs, hblames.mono ?_⟩
  intro x hx
  simp only [List.mem_append] at hx ⊢
  tauto

/-- Of two formulas that are read one after the other, the second one comes after the operator. -/
theorem located_operands {scope : List Var} {next : Nat} {op : Char} {cs l r : List Char}
    {join : Formula → Formula → Formula} {e : SyntaxError} (hop : IsOperator op)
    (hcs : trim cs = '(' :: l ++ [op, op] ++ r ++ [')'])
    (hl : read scope next l = .error e → Located scope l e)
    (hr : ∀ mid, read scope mid r = .error e → Located scope r e)
    (h : (do
      let (f, mid) ← read scope next l
      let (g, after) ← read scope mid r
      return (join f g, after)) = Except.error e) : Located scope cs e := by
  rcases bind_eq_error.1 h with hfail | ⟨⟨f, mid⟩, hok, hrest⟩
  · apply located_within .bracket _ (hl hfail)
    · exact [op, op] ++ r ++ [')']
    · rw [hcs]
      simp
  · have hlead := Lead.operand hop (read_eq_ok_iff.1 hok).derives
    exact located_within hlead hcs (hr mid (wrap_eq_error.1 hrest))

/-- **A report names a piece at the place of a formula**, and for a reason. -/
theorem located_of_read_error {scope : List Var} {next : Nat} {cs : List Char} {e : SyntaxError}
    (h : read scope next cs = .error e) : Located scope cs e := by
  fun_induction read scope next cs with
  | case1 | case2 | case3 => cases h
  | case4 scope next cs l r hshape ihl ihr =>
    have hcs : Layout (.and l r) (trim cs) := hshape ▸ layout_of (trim cs)
    exact located_operands (Or.inl rfl) hcs ihl ihr h
  | case5 scope next cs l r hshape ihl ihr =>
    have hcs : Layout (.or l r) (trim cs) := hshape ▸ layout_of (trim cs)
    exact located_operands (Or.inr rfl) hcs ihl ihr h
  | case6 scope next cs a rest hshape ih =>
    obtain ⟨ha, hcs⟩ : Layout (.dia a rest) (trim cs) := hshape ▸ layout_of (trim cs)
    exact located_within (.dia ha) (by rw [hcs, List.append_nil]) (ih (wrap_eq_error.1 h))
  | case7 scope next cs a rest hshape ih =>
    obtain ⟨ha, hcs⟩ : Layout (.box a rest) (trim cs) := hshape ▸ layout_of (trim cs)
    exact located_within (.box ha) (by rw [hcs, List.append_nil]) (ih (wrap_eq_error.1 h))
  | case8 scope next cs k x body hshape hx =>
    cases h
    exact ⟨[], 0, trim cs, Piece.whole cs, .shadowed hshape hx⟩
  | case9 scope next cs k x body hshape hx ih =>
    obtain ⟨blank, hblank, hvar, hcs⟩ : Layout (.fix k x body) (trim cs) :=
      hshape ▸ layout_of (trim cs)
    exact located_within (.fix ⟨k, blank, hblank, hvar, rfl⟩) (by rw [hcs, List.append_nil])
      (ih (wrap_eq_error.1 h))
  | case10 scope next cs inner hshape ih =>
    have hcs : Layout (.group inner) (trim cs) := hshape ▸ layout_of (trim cs)
    exact located_within .bracket hcs (ih h)
  | case11 scope next cs hshape =>
    cases h
    exact ⟨[], 0, trim cs, Piece.whole cs, .unmatched hshape⟩

theorem read_eq_error_of_parse {s : String} {e : SyntaxError} (h : parse s = .error e) :
    read [] 0 s.toList = .error e := by
  rw [parse] at h
  cases hread : read [] 0 s.toList with
  | error e' =>
    rw [hread] at h
    cases h
    rfl
  | ok r =>
    rw [hread] at h
    cases h

theorem read_unmatched {cs : List Char} (htrim : trim cs = cs) (h : Shape.of cs = .unmatched)
    (scope : List Var) (next : Nat) :
    read scope next cs = .error (.unmatched (String.ofList cs)) := by
  rw [read]
  -- of all the shapes that the reader asks for, only this one is left
  split <;> rename_i hshape <;> rw [htrim, h] at hshape <;> cases hshape
  rw [htrim]

/-- **An unmatched piece is refused for itself.** It stands in the text and has no blanks at its
ends; read alone it is reported again, whatever is bound around it and however many fixpoints were
numbered before; and it is no formula. -/
theorem parse_unmatched {s t : String} (h : parse s = .error (.unmatched t)) :
    t.toList <:+: s.toList ∧
      (∀ c, t.toList.head? = some c ∨ t.toList.getLast? = some c → isBlank c = false) ∧
      parse t = .error (.unmatched t) ∧
      (∀ scope next, read scope next t.toList = .error (.unmatched t)) ∧
      ∀ f, ¬ Derives .formula t.toList f := by
  obtain ⟨scope, n, piece, hpiece, hblames⟩ := located_of_read_error (read_eq_error_of_parse h)
  cases hblames with
  | unmatched hshape =>
    have hread : ∀ scope next, read scope next piece = .error (.unmatched (String.ofList piece)) :=
      read_unmatched hpiece.trimmed hshape
    rw [String.toList_ofList]
    refine ⟨hpiece.isInfix, ?_, ?_, hread, ?_⟩
    · rintro c (hc | hc)
      · exact Text.isBlank_head?_trim (hpiece.trimmed.symm ▸ hc)
      · exact Text.isBlank_getLast?_trim (hpiece.trimmed.symm ▸ hc)
    · rw [parse, String.toList_ofList, hread]
      rfl
    · intro f hf
      rw [derives_iff_yields (by rw [hpiece.trimmed, hshape])] at hf
      exact hf

/-- An operator that is not doubled, far inside a text that is fine up to there. -/
theorem parse_unmatched_single :
    parse "nu X.(<a>X && [b](true & X) )" = .error (.unmatched "(true & X)") ∧
      parse "(true & X)" = .error (.unmatched "(true & X)") := by
  have hparse : parse "nu X.(<a>X && [b](true & X) )" = .error (.unmatched "(true & X)") := by
    decide +kernel
  exact ⟨hparse, (parse_unmatched hparse).2.2.1⟩

/-! ### Variables that are bound again -/

/-- The innermost fixpoint of a nesting binds a variable of `scope`, or of a fixpoint around it. -/
def Rebinds (scope : List Var) (path : List Fixpoint) : Prop :=
  ∃ above g, path = above ++ [g] ∧ g.binder.var ∈ above.map (·.binder.var) ++ scope

theorem rebinds_concat {scope : List Var} {above : List Fixpoint} {g : Fixpoint} :
    Rebinds scope (above ++ [g]) ↔ g.binder.var ∈ above.map (·.binder.var) ++ scope := by
  refine ⟨?_, fun h => ⟨above, g, rfl, h⟩⟩
  rintro ⟨above', g', heq, h⟩
  obtain ⟨rfl, rfl⟩ := List.append_singleton_inj.1 heq
  exact h

/-- One fixpoint more around a nesting is one variable more around it. -/
theorem rebinds_cons {scope : List Var} {g : Fixpoint} {path : List Fixpoint} (hne : path ≠ []) :
    Rebinds scope (g :: path) ↔ Rebinds (g.binder.var :: scope) path := by
  obtain ⟨above, h, rfl⟩ : ∃ above h, path = above ++ [h] :=
    ⟨_, _, (List.dropLast_append_getLast hne).symm⟩
  rw [← List.cons_append, rebinds_concat, rebinds_concat]
  simp only [List.map_cons, List.mem_append, List.mem_cons]
  tauto

theorem unshadowed_iff {scope : List Var} {f : Formula} :
    f.Unshadowed scope ↔ ∀ path ∈ f.nestings, ¬ Rebinds scope path := by
  induction f generalizing scope with
  | tt | ff | var _ => simp [Unshadowed, nestings]
  | and l r ihl ihr | or l r ihl ihr =>
    rw [Unshadowed, nestings, List.forall_mem_append, ihl, ihr]
  | dia a f ih | box a f ih => exact ih
  | fix k b body ih =>
    rw [Unshadowed, nestings, List.map_cons, List.forall_mem_cons, List.forall_mem_map, ih]
    refine and_congr ?_ (forall₂_congr fun path hpath => ?_)
    · rw [← List.nil_append [_], rebinds_concat, List.map_nil, List.nil_append]
    · rw [rebinds_cons (ne_nil_of_mem_nestings hpath)]

/-- **The first fixpoint that binds a variable again**, in the order in which they begin: `g` inside
the fixpoints `above`, after the fixpoints with the nestings `earlier`. -/
structure FirstRebinding (scope : List Var) (f : Formula) (earlier : List (List Fixpoint))
    (above : List Fixpoint) (g : Fixpoint) : Prop where
  /-- it is one of the fixpoints of the formula -/
  mem : ∃ later, f.nestings = earlier ++ (above ++ [g]) :: later
  /-- its variable is bound around it -/
  rebinds : g.binder.var ∈ above.map (·.binder.var) ++ scope
  /-- this holds of none before it -/
  first : ∀ path ∈ earlier, ¬ Rebinds scope path

namespace FirstRebinding

variable {scope : List Var} {f l r body : Formula} {earlier : List (List Fixpoint)}
  {above : List Fixpoint} {g : Fixpoint} {k : Kind} {b : Binder}

/-- It has as many fixpoints before it as the order says. -/
theorem getElem?_preorder (h : FirstRebinding scope f earlier above g) :
    f.preorder[earlier.length]? = some g := by
  obtain ⟨later, hlater⟩ := h.mem
  have hlast : (f.preorder[earlier.length]?).map some = some (some g) := by
    rw [← List.getElem?_map, ← map_getLast?_nestings, hlater]
    simp
  obtain ⟨_, hget, heq⟩ := Option.map_eq_some_iff.1 hlast
  cases heq
  exact hget

theorem not_unshadowed (h : FirstRebinding scope f earlier above g) : ¬ f.Unshadowed scope := by
  intro hf
  obtain ⟨later, hlater⟩ := h.mem
  apply unshadowed_iff.1 hf (above ++ [g])
  · rw [hlater]
    simp
  · exact rebinds_concat.2 h.rebinds

theorem left (h : FirstRebinding scope l earlier above g)
    (hf : f.nestings = l.nestings ++ r.nestings) : FirstRebinding scope f earlier above g := by
  obtain ⟨later, hlater⟩ := h.mem
  exact ⟨⟨later ++ r.nestings, by simp [hf, hlater]⟩, h.rebinds, h.first⟩

theorem right (h : FirstRebinding scope r earlier above g) (hl : l.Unshadowed scope)
    (hf : f.nestings = l.nestings ++ r.nestings) :
    FirstRebinding scope f (l.nestings ++ earlier) above g := by
  obtain ⟨later, hlater⟩ := h.mem
  refine ⟨⟨later, by simp [hf, hlater]⟩, h.rebinds, ?_⟩
  exact List.forall_mem_append.2 ⟨unshadowed_iff.1 hl, h.first⟩

theorem here (hb : b.var ∈ scope) : FirstRebinding scope (fix k b body) [] [] ⟨k, b, body⟩ :=
  ⟨⟨_, rfl⟩, hb, by simp⟩

theorem inside (h : FirstRebinding (b.var :: scope) body earlier above g) (hb : b.var ∉ scope) :
    FirstRebinding scope (fix k b body) (([] :: earlier).map (⟨k, b, body⟩ :: ·))
      (⟨k, b, body⟩ :: above) g := by
  obtain ⟨later, hlater⟩ := h.mem
  refine ⟨⟨later.map (⟨k, b, body⟩ :: ·), by simp [nestings, hlater]⟩, ?_, ?_⟩
  · have hrebinds := h.rebinds
    simp only [List.map_cons, List.mem_append, List.mem_cons] at hrebinds ⊢
    tauto
  · rw [List.map_cons, List.forall_mem_cons, List.forall_mem_map]
    refine ⟨?_, fun path hpath => ?_⟩
    · rwa [← List.nil_append [_], rebinds_concat, List.map_nil, List.nil_append]
    · have hmem : path ∈ body.nestings := hlater ▸ List.mem_append_left _ hpath
      rw [rebinds_cons (ne_nil_of_mem_nestings hmem)]
      exact h.first path hpath

end FirstRebinding

/-- **The report names the first fixpoint that binds a variable again**, with its own text. -/
def NamesFirst (scope : List Var) (cs : List Char) (f : Formula) (e : SyntaxError) : Prop :=
  ∃ earlier above g piece, FirstRebinding scope f earlier above g ∧
    Piece cs (above.map (·.binder.var)) earlier.length piece ∧
    Derives .core piece g.toFormula ∧ e = .shadowed g.binder.var (String.ofList piece)

theorem namesFirst_within {scope scope' inner : List Var} {n : Nat} {cs front part back : List Char}
    {f g : Formula} {e : SyntaxError} (hlead : Lead inner n front)
    (hcs : trim cs = front ++ part ++ back) (h : NamesFirst scope' part g e)
    (hfirst : ∀ {earlier above b}, FirstRebinding scope' g earlier above b →
      ∃ earlier' above', FirstRebinding scope f earlier' above' b ∧
        earlier'.length = n + earlier.length ∧
        above'.map (·.binder.var) = inner ++ above.map (·.binder.var)) : NamesFirst scope cs f e := by
  obtain ⟨earlier, above, b, piece, hb, hpiece, hderives, rfl⟩ := h
  obtain ⟨earlier', above', hb', hlength, hvars⟩ := hfirst hb
  refine ⟨earlier', above', b, piece, hb', ?_, hderives, rfl⟩
  rw [hlength, hvars]
  exact hpiece.within hlead hcs

/-- Nothing is bound by what stands in front of the part, and nothing begins in it. -/
theorem namesFirst_behind {scope : List Var} {cs front part back : List Char} {f g : Formula}
    {e : SyntaxError} (hlead : Lead [] 0 front) (hcs : trim cs = front ++ part ++ back)
    (hf : f.nestings = g.nestings) (h : NamesFirst scope part g e) : NamesFirst scope cs f e := by
  apply namesFirst_within hlead hcs h
  intro earlier above b hb
  exact ⟨earlier, above, ⟨hf ▸ hb.mem, hb.rebinds, hb.first⟩, (Nat.zero_add _).symm, rfl⟩

/-- **What the reader answers about a text that derives `f`.** -/
def Answers (scope : List Var) (cs : List Char) (f : Formula) :
    Except SyntaxError (Formula × Nat) → Prop
  | .ok _ => f.Unshadowed scope
  | .error e => NamesFirst scope cs f e

section

variable {scope scope' : List Var} {cs part : List Char} {f g : Formula}
  {m : Except SyntaxError (Formula × Nat)}

theorem Answers.imp (h : Answers scope' part g m) (hok : g.Unshadowed scope' → f.Unshadowed scope)
    (herror : ∀ e, NamesFirst scope' part g e → NamesFirst scope cs f e) : Answers scope cs f m := by
  cases m with
  | ok r => exact hok h
  | error e => exact herror e h

/-- A formula that is read as the last part of another one. -/
theorem Answers.wrap {wrap : Formula × Nat → Formula × Nat} (h : Answers scope' part g m)
    (hok : g.Unshadowed scope' → f.Unshadowed scope)
    (herror : ∀ e, NamesFirst scope' part g e → NamesFirst scope cs f e) :
    Answers scope cs f (do let r ← m; return wrap r) := by
  cases m with
  | ok r => exact hok h
  | error e => exact herror e h

end

theorem answers_operands {scope : List Var} {next : Nat} {op : Char} {cs l r : List Char}
    {f g h : Formula} {join : Formula → Formula → Formula} (hop : IsOperator op)
    (hcs : trim cs = '(' :: l ++ [op, op] ++ r ++ [')']) (hg : Derives .formula l g)
    (hunshadowed : f.Unshadowed scope ↔ g.Unshadowed scope ∧ h.Unshadowed scope)
    (hnestings : f.nestings = g.nestings ++ h.nestings)
    (hl : Answers scope l g (read scope next l))
    (hr : ∀ mid, Answers scope r h (read scope mid r)) :
    Answers scope cs f (do
      let (g', mid) ← read scope next l
      let (h', after) ← read scope mid r
      return (join g' h', after)) := by
  cases hread : read scope next l with
  | error e =>
    rw [hread] at hl
    apply namesFirst_within .bracket _ hl
    · exact fun hb => ⟨_, _, hb.left hnestings, (Nat.zero_add _).symm, rfl⟩
    · exact [op, op] ++ r ++ [')']
    · rw [hcs]
      simp
  | ok result =>
    obtain ⟨g', mid⟩ := result
    rw [hread] at hl
    refine (hr mid).wrap (fun hh => hunshadowed.2 ⟨hl, hh⟩) fun e he => ?_
    refine namesFirst_within (.operand hop hg) hcs he fun hb => ?_
    exact ⟨_, _, hb.right hl hnestings, List.length_append, rfl⟩

/-- **A text of the grammar is refused only for a variable that is bound again**, and the report
names the first fixpoint that does it. -/
theorem answers_read {scope : List Var} {next : Nat} {cs : List Char} {f : Formula}
    (h : Derives .formula cs f) : Answers scope cs f (read scope next cs) := by
  fun_induction read scope next cs generalizing f with
  | case1 scope next cs hshape =>
    obtain rfl := (derives_iff_yields hshape).1 h
    trivial
  | case2 scope next cs hshape =>
    obtain rfl := (derives_iff_yields hshape).1 h
    trivial
  | case3 scope next cs x hshape =>
    obtain rfl := (derives_iff_yields hshape).1 h
    trivial
  | case4 scope next cs l r hshape ihl ihr =>
    have hcs : Layout (.and l r) (trim cs) := hshape ▸ layout_of (trim cs)
    obtain ⟨g, g', hg, hg', rfl⟩ := (derives_iff_yields hshape).1 h
    exact answers_operands (Or.inl rfl) hcs hg Iff.rfl rfl (ihl hg) fun mid => ihr mid hg'
  | case5 scope next cs l r hshape ihl ihr =>
    have hcs : Layout (.or l r) (trim cs) := hshape ▸ layout_of (trim cs)
    obtain ⟨g, g', hg, hg', rfl⟩ := (derives_iff_yields hshape).1 h
    exact answers_operands (Or.inr rfl) hcs hg Iff.rfl rfl (ihl hg) fun mid => ihr mid hg'
  | case6 scope next cs a rest hshape ih =>
    obtain ⟨ha, hcs⟩ : Layout (.dia a rest) (trim cs) := hshape ▸ layout_of (trim cs)
    obtain ⟨g, hg, rfl⟩ := (derives_iff_yields hshape).1 h
    refine (ih hg).wrap id fun e => ?_
    exact namesFirst_behind (.dia ha) (by rw [hcs, List.append_nil]) rfl
  | case7 scope next cs a rest hshape ih =>
    obtain ⟨ha, hcs⟩ : Layout (.box a rest) (trim cs) := hshape ▸ layout_of (trim cs)
    obtain ⟨g, hg, rfl⟩ := (derives_iff_yields hshape).1 h
    refine (ih hg).wrap id fun e => ?_
    exact namesFirst_behind (.box ha) (by rw [hcs, List.append_nil]) rfl
  | case8 scope next cs k x body hshape hx =>
    obtain ⟨id, g, hg, rfl⟩ := (derives_iff_yields hshape).1 h
    refine ⟨[], [], _, trim cs, .here hx, Piece.whole cs, ?_, rfl⟩
    exact derives_formula_iff.1 h
  | case9 scope next cs k x body hshape hx ih =>
    obtain ⟨blank, hblank, hvar, hcs⟩ : Layout (.fix k x body) (trim cs) :=
      hshape ▸ layout_of (trim cs)
    obtain ⟨id, g, hg, rfl⟩ := (derives_iff_yields hshape).1 h
    refine (ih hg).wrap (fun hu => ⟨hx, hu⟩) fun e he => ?_
    apply namesFirst_within (.fix ⟨k, blank, hblank, hvar, rfl⟩) (by rw [hcs, List.append_nil]) he
    intro earlier above b hb
    exact ⟨_, _, hb.inside hx, by simp [Nat.add_comm], rfl⟩
  | case10 scope next cs inner hshape ih =>
    have hcs : Layout (.group inner) (trim cs) := hshape ▸ layout_of (trim cs)
    have hinner : Derives .formula inner f := (derives_iff_yields hshape).1 h
    exact (ih hinner).imp id fun e => namesFirst_behind .bracket hcs rfl
  | case11 scope next cs hshape => exact ((derives_iff_yields hshape).1 h).elim

/-- A fixpoint that is named begins with its variable. -/
theorem exists_binderText {k : Kind} {x : Var} {piece body : List Char}
    (h : Shape.of piece = .fix k x body) :
    ∃ binder rest, BinderText x binder ∧ piece = binder ++ rest := by
  obtain ⟨blank, hblank, hx, hpiece⟩ : Layout (.fix k x body) piece := h ▸ layout_of piece
  exact ⟨_, body, ⟨k, blank, hblank, hx, rfl⟩, hpiece⟩

/-- **Shadowing is reported exactly.**

* Of a text that derives a formula in which some variable is bound again, the report names the first
  fixpoint that does it, in the order in which they begin, and the piece is the text that derives
  this fixpoint: it stands after as many others have begun, and inside the same ones.
* Whatever the text, a report names a fixpoint on the variable in the body of another one.
* Of a text that derives a formula in which no variable is bound again inside its scope, there is no
  such report, also where separate fixpoints share a variable. -/
theorem parse_shadowed (s : String) :
    (∀ f, Derives .formula s.toList f → ¬ f.Unshadowed [] →
      ∃ earlier above g piece, FirstRebinding [] f earlier above g ∧
        f.preorder[earlier.length]? = some g ∧
        Piece s.toList (above.map (·.binder.var)) earlier.length piece ∧
        Derives .core piece g.toFormula ∧
        parse s = .error (.shadowed g.binder.var (String.ofList piece))) ∧
    (∀ x input, parse s = .error (.shadowed x input) →
      ∃ outer binder body, s.toList = outer ++ binder ++ body ∧
        (∃ scope n, Opening scope n outer) ∧ BinderText x binder ∧
        (∃ scope n, Piece body scope n input.toList) ∧
        ∃ binder' rest, BinderText x binder' ∧ input.toList = binder' ++ rest) ∧
    ∀ f, Derives .formula s.toList f → f.Unshadowed [] → ∀ x input,
      parse s ≠ .error (.shadowed x input) := by
  refine ⟨fun f hf hshadowed => ?_, fun x input h => ?_, fun f hf hunshadowed x input h => ?_⟩
  · have hanswers : Answers [] s.toList f (read [] 0 s.toList) := answers_read hf
    cases hread : read [] 0 s.toList with
    | ok r =>
      rw [hread] at hanswers
      exact absurd hanswers hshadowed
    | error e =>
      rw [hread] at hanswers
      obtain ⟨earlier, above, g, piece, hfirst, hpiece, hderives, rfl⟩ := hanswers
      refine ⟨earlier, above, g, piece, hfirst, hfirst.getElem?_preorder, hpiece, hderives, ?_⟩
      rw [parse, hread]
      rfl
  · obtain ⟨scope, n, piece, hpiece, hblames⟩ := located_of_read_error (read_eq_error_of_parse h)
    cases hblames with
    | shadowed hshape hx =>
      rw [List.append_nil] at hx
      obtain ⟨before, after, hbefore, hs⟩ := hpiece.place
      obtain ⟨outer, binder, inner, rfl, hbinder, houter, scope', n', hinner⟩ :=
        hbefore.exists_binder hx
      rw [String.toList_ofList]
      refine ⟨outer, binder, inner ++ piece ++ after, ?_, houter, hbinder,
        ⟨scope', n', hpiece.trimmed, inner, after, hinner, rfl⟩, exists_binderText hshape⟩
      rw [hs]
      simp
  · have hanswers : Answers [] s.toList f (read [] 0 s.toList) := answers_read hf
    rw [read_eq_error_of_parse h] at hanswers
    obtain ⟨_, _, _, _, hfirst, _⟩ := hanswers
    exact hfirst.not_unshadowed hunshadowed

/-- In the second operand a variable is bound again; in the other text its two binders stand side by
side. -/
theorem parse_shadowed_operand :
    (∃ f earlier above g, Derives .formula "nu X.(<a>X && mu X.X)".toList f ∧
      FirstRebinding [] f earlier above g ∧ Derives .core "mu X.X".toList g.toFormula ∧
      Piece "nu X.(<a>X && mu X.X)".toList (above.map (·.binder.var)) earlier.length
        "mu X.X".toList) ∧
    (∃ outer binder body, "nu X.(<a>X && mu X.X)".toList = outer ++ binder ++ body ∧
      BinderText 'X' binder ∧ ∃ scope n, Piece body scope n "mu X.X".toList) ∧
    ∀ x input, parse "(mu X.<a>X || nu X.<a>X)" ≠ .error (.shadowed x input) := by
  have hparse : parse "nu X.(<a>X && mu X.X)" = .error (.shadowed 'X' "mu X.X") := by
    decide +kernel
  have hnested := (derives_render (f := fix .greatest ⟨0, 'X'⟩
    (and (dia "a" (var 'X')) (fix .least ⟨1, 'X'⟩ (var 'X')))) (by decide)).formula
  have hapart := (derives_render (f := or (fix .least ⟨0, 'X'⟩ (dia "a" (var 'X')))
    (fix .greatest ⟨1, 'X'⟩ (dia "a" (var 'X')))) (by decide)).formula
  refine ⟨?_, ?_, (parse_shadowed _).2.2 _ hapart (by decide)⟩
  · obtain ⟨earlier, above, g, piece, hfirst, -, hpiece, hderives, hreport⟩ :=
      (parse_shadowed "nu X.(<a>X && mu X.X)").1 _ hnested (by decide)
    obtain rfl : piece = "mu X.X".toList := by
      rw [hparse] at hreport
      injection hreport with hreport
      injection hreport with _ htext
      rw [htext, String.toList_ofList]
    exact ⟨_, earlier, above, g, hnested, hfirst, hderives, hpiece⟩
  · obtain ⟨outer, binder, body, hs, -, hbinder, hpiece, -⟩ := (parse_shadowed _).2.1 _ _ hparse
    exact ⟨outer, binder, body, hs, hbinder, hpiece⟩

end Formula

end ModalMu
