import ModalMu.Formula.Parser
import ModalMu.Proofs.Shapes

/-!
# The reader accepts exactly the grammar

* `Formula.Unshadowed`, `Formula.Numbered` — what the reader asks and promises beyond the grammar:
  no fixpoint binds the variable of an enclosing one, and fixpoints are numbered in the order in
  which they begin;
* `read_eq_ok_iff` — **reading succeeds exactly on derived texts** with these two properties, below
  any binders and from any number on. The induction is on the reader's own recursion, and each step
  is one of `derives_core_iff`;
* `eraseIds_eq_of_derives` — **the grammar is unambiguous**, also where a variable is shadowed.
-/

namespace ModalMu

namespace Formula

/-! ### Numbers and scopes -/

/-- **No fixpoint binds the variable of an enclosing one**, nor one of `scope`. -/
def Unshadowed (scope : List Var) : Formula → Prop
  | tt | ff | var _ => True
  | and l r | or l r => l.Unshadowed scope ∧ r.Unshadowed scope
  | dia _ f | box _ f => f.Unshadowed scope
  | fix _ b body => b.var ∉ scope ∧ body.Unshadowed (b.var :: scope)

instance decidableUnshadowed : (scope : List Var) → (f : Formula) → Decidable (f.Unshadowed scope)
  | _, tt | _, ff | _, var _ => inferInstanceAs (Decidable True)
  | scope, and l r | scope, or l r =>
    have := decidableUnshadowed scope l
    have := decidableUnshadowed scope r
    inferInstanceAs (Decidable (l.Unshadowed scope ∧ r.Unshadowed scope))
  | scope, dia _ f | scope, box _ f => decidableUnshadowed scope f
  | scope, fix _ b body =>
    have := decidableUnshadowed (b.var :: scope) body
    inferInstanceAs (Decidable (b.var ∉ scope ∧ body.Unshadowed (b.var :: scope)))

/-- The numbers of all fixpoint nodes, each before those inside it. -/
def preorderIds (f : Formula) : List Nat := (f.subformulas.filterMap asFixpoint?).map (·.binder.id)

/-- **The fixpoints are numbered from `next` on**, in the order in which they begin. -/
def Numbered (next : Nat) (f : Formula) : Prop :=
  f.preorderIds = List.range' next f.preorderIds.length
  deriving Decidable

/-- The formula with all numbers forgotten. -/
def eraseIds : Formula → Formula
  | tt => tt
  | ff => ff
  | var x => var x
  | and l r => and l.eraseIds r.eraseIds
  | or l r => or l.eraseIds r.eraseIds
  | dia a f => dia a f.eraseIds
  | box a f => box a f.eraseIds
  | fix k b body => fix k ⟨0, b.var⟩ body.eraseIds

section

variable {l r f : Formula} {k : Kind} {b : Binder} {next : Nat}

theorem preorderIds_and : (l.and r).preorderIds = l.preorderIds ++ r.preorderIds := by
  rw [preorderIds, subformulas, List.filterMap_cons_none rfl, List.filterMap_append,
    List.map_append]
  rfl

theorem preorderIds_fix : (fix k b f).preorderIds = b.id :: f.preorderIds := rfl

theorem numbered_append (h : f.preorderIds = l.preorderIds ++ r.preorderIds) :
    f.Numbered next ↔ l.Numbered next ∧ r.Numbered (next + l.preorderIds.length) := by
  rw [Numbered, h, List.length_append, ← List.range'_append_1]
  refine ⟨?_, ?_⟩
  · intro h
    exact List.append_inj h (by rw [List.length_range'])
  · rintro ⟨hl, hr⟩
    rw [Numbered] at hl hr
    rw [← hl, ← hr]

theorem numbered_fix : (fix k b f).Numbered next ↔ b.id = next ∧ f.Numbered (next + 1) := by
  rw [Numbered, preorderIds_fix, List.length_cons, List.range'_succ, List.cons.injEq, Numbered]

end

/-! ### What the reader accepts -/

open Grammar

/-- **What reading a piece of text should give**: the formula that it derives, if nothing is
shadowed below the binders of `scope`, numbered from `next` on; `after` is the first number left. -/
structure Accepted (scope : List Var) (next : Nat) (cs : List Char) (f : Formula) (after : Nat) :
    Prop where
  /-- the text is a formula -/
  derives : Derives .formula cs f
  /-- no variable is bound again -/
  unshadowed : f.Unshadowed scope
  /-- the numbers are as they should be -/
  numbered : f.Numbered next
  /-- all of them are used -/
  after : after = next + f.preorderIds.length

section

variable {scope : List Var} {next after : Nat} {cs l r rest : List Char} {f g h : Formula}

theorem derives_iff_yields {shape : Shape} (hshape : Shape.of (Text.trim cs) = shape) :
    Derives .formula cs f ↔ Yields shape f := by
  rw [derives_formula_iff, derives_core_iff, hshape]

/-- Two formulas that are read one after the other. -/
theorem accepted_pair {join : Formula → Formula → Formula}
    (hyields : Derives .formula cs f ↔
      ∃ g h, Derives .formula l g ∧ Derives .formula r h ∧ f = join g h)
    (hscope : ∀ g h, (join g h).Unshadowed scope ↔ g.Unshadowed scope ∧ h.Unshadowed scope)
    (hids : ∀ g h, (join g h).preorderIds = g.preorderIds ++ h.preorderIds) :
    Accepted scope next cs f after ↔
      ∃ g mid h, Accepted scope next l g mid ∧ Accepted scope mid r h after ∧ f = join g h := by
  have hafter : ∀ g h, next + g.preorderIds.length + h.preorderIds.length =
      next + (join g h).preorderIds.length := by
    intro g h
    rw [hids, List.length_append, Nat.add_assoc]
  refine ⟨?_, ?_⟩
  · rintro ⟨hderives, hunshadowed, hnumbered, rfl⟩
    obtain ⟨g, h, hg, hh, rfl⟩ := hyields.1 hderives
    rw [hscope] at hunshadowed
    rw [numbered_append (hids g h)] at hnumbered
    exact ⟨g, _, h, ⟨hg, hunshadowed.1, hnumbered.1, rfl⟩,
      ⟨hh, hunshadowed.2, hnumbered.2, (hafter g h).symm⟩, rfl⟩
  · rintro ⟨g, _, h, ⟨hg, hgu, hgn, rfl⟩, ⟨hh, hhu, hhn, rfl⟩, rfl⟩
    exact ⟨hyields.2 ⟨g, h, hg, hh, rfl⟩, (hscope g h).2 ⟨hgu, hhu⟩,
      (numbered_append (hids g h)).2 ⟨hgn, hhn⟩, hafter g h⟩

/-- A formula with something in front of it that binds nothing. -/
theorem accepted_single {wrap : Formula → Formula}
    (hyields : Derives .formula cs f ↔ ∃ g, Derives .formula rest g ∧ f = wrap g)
    (hscope : ∀ g, (wrap g).Unshadowed scope ↔ g.Unshadowed scope)
    (hids : ∀ g, (wrap g).preorderIds = g.preorderIds) :
    Accepted scope next cs f after ↔ ∃ g, Accepted scope next rest g after ∧ f = wrap g := by
  have hnumbered : ∀ g, (wrap g).Numbered next ↔ g.Numbered next := by
    intro g
    rw [Numbered, hids, Numbered]
  refine ⟨?_, ?_⟩
  · rintro ⟨hderives, hu, hn, rfl⟩
    obtain ⟨g, hg, rfl⟩ := hyields.1 hderives
    exact ⟨g, ⟨hg, (hscope g).1 hu, (hnumbered g).1 hn, by rw [hids]⟩, rfl⟩
  · rintro ⟨g, ⟨hg, hu, hn, rfl⟩, rfl⟩
    exact ⟨hyields.2 ⟨g, hg, rfl⟩, (hscope g).2 hu, (hnumbered g).2 hn, by rw [hids]⟩

/-- A fixpoint takes the next number, and what is inside it the ones after that. -/
theorem accepted_fix {k : Kind} {x : Var} (hshape : Shape.of (Text.trim cs) = .fix k x rest) :
    Accepted scope next cs f after ↔
      x ∉ scope ∧ ∃ g, Accepted (x :: scope) (next + 1) rest g after ∧ f = .fix k ⟨next, x⟩ g := by
  refine ⟨?_, ?_⟩
  · rintro ⟨hderives, hu, hn, rfl⟩
    obtain ⟨id, g, hg, rfl⟩ := (derives_iff_yields hshape).1 hderives
    obtain ⟨rfl, hn⟩ := numbered_fix.1 hn
    refine ⟨hu.1, g, ⟨hg, hu.2, hn, ?_⟩, rfl⟩
    rw [preorderIds_fix, List.length_cons]
    omega
  · rintro ⟨hx, g, ⟨hg, hu, hn, rfl⟩, rfl⟩
    refine ⟨(derives_iff_yields hshape).2 ⟨next, g, hg, rfl⟩, ⟨hx, hu⟩,
      numbered_fix.2 ⟨rfl, hn⟩, ?_⟩
    rw [preorderIds_fix, List.length_cons]
    omega

/-- A formula without parts. -/
theorem accepted_leaf {g : Formula} (hyields : Derives .formula cs f ↔ f = g)
    (hscope : g.Unshadowed scope) (hids : g.preorderIds = []) :
    Accepted scope next cs f after ↔ f = g ∧ after = next := by
  refine ⟨?_, ?_⟩
  · rintro ⟨hderives, -, -, hafter⟩
    obtain rfl := hyields.1 hderives
    exact ⟨rfl, by rw [hafter, hids, List.length_nil, Nat.add_zero]⟩
  · rintro ⟨rfl, rfl⟩
    refine ⟨hyields.2 rfl, hscope, ?_, by rw [hids, List.length_nil, Nat.add_zero]⟩
    rw [Numbered, hids]
    rfl

end

/-! ### The reader -/

theorem bind_eq_ok {ε α β : Type} {m : Except ε α} {k : α → Except ε β} {b : β} :
    (m >>= k) = .ok b ↔ ∃ a, m = .ok a ∧ k a = .ok b := by
  cases m <;> simp [bind, Except.bind]

/-- What is read last passes its number on. -/
theorem wrap_eq_ok {m : Except SyntaxError (Formula × Nat)} {wrap : Formula → Formula}
    {f : Formula} {after : Nat} :
    (do let (g, n) ← m; return (wrap g, n)) = Except.ok (f, after) ↔
      ∃ g, m = .ok (g, after) ∧ f = wrap g := by
  rw [bind_eq_ok]
  refine ⟨?_, ?_⟩
  · rintro ⟨⟨g, n⟩, hm, heq⟩
    cases heq
    exact ⟨g, hm, rfl⟩
  · rintro ⟨g, hm, rfl⟩
    exact ⟨(g, after), hm, rfl⟩

/-- **Reading accepts exactly the derived texts**, below any binders and from any number on. -/
theorem read_eq_ok_iff {scope : List Var} {next after : Nat} {cs : List Char} {f : Formula} :
    read scope next cs = .ok (f, after) ↔ Accepted scope next cs f after := by
  fun_induction read scope next cs generalizing f after with
  | case1 scope next cs hshape =>
    rw [accepted_leaf (derives_iff_yields hshape) trivial rfl]
    simp [eq_comm]
  | case2 scope next cs hshape =>
    rw [accepted_leaf (derives_iff_yields hshape) trivial rfl]
    simp [eq_comm]
  | case3 scope next cs x hshape =>
    rw [accepted_leaf (derives_iff_yields hshape) trivial rfl]
    simp [eq_comm]
  | case4 scope next cs l r hshape ihl ihr =>
    rw [accepted_pair (derives_iff_yields hshape) (fun _ _ => Iff.rfl) fun _ _ => preorderIds_and,
      bind_eq_ok, Prod.exists]
    simp only [wrap_eq_ok, ihl, ihr, exists_and_left]
  | case5 scope next cs l r hshape ihl ihr =>
    rw [accepted_pair (derives_iff_yields hshape) (fun _ _ => Iff.rfl) fun _ _ => preorderIds_and,
      bind_eq_ok, Prod.exists]
    simp only [wrap_eq_ok, ihl, ihr, exists_and_left]
  | case6 scope next cs a rest hshape ih =>
    rw [accepted_single (derives_iff_yields hshape) (fun _ => Iff.rfl) fun _ => rfl, wrap_eq_ok]
    simp only [ih]
  | case7 scope next cs a rest hshape ih =>
    rw [accepted_single (derives_iff_yields hshape) (fun _ => Iff.rfl) fun _ => rfl, wrap_eq_ok]
    simp only [ih]
  | case8 scope next cs k x body hshape hx =>
    -- a shadowed variable is refused before the body is read
    rw [accepted_fix hshape]
    simp [hx]
  | case9 scope next cs k x body hshape hx ih =>
    rw [accepted_fix hshape, wrap_eq_ok]
    simp only [ih, hx, not_false_iff, true_and]
  | case10 scope next cs inner hshape ih =>
    rw [ih]
    refine ⟨?_, ?_⟩
    · rintro ⟨hderives, hu, hn, hafter⟩
      exact ⟨(derives_iff_yields hshape).2 hderives, hu, hn, hafter⟩
    · rintro ⟨hderives, hu, hn, hafter⟩
      exact ⟨(derives_iff_yields hshape).1 hderives, hu, hn, hafter⟩
  | case11 scope next cs hshape =>
    refine ⟨?_, ?_⟩
    · intro h
      cases h
    · intro h
      exact ((derives_iff_yields hshape).1 h.derives).elim

/-! ### The grammar -/

/-- **A text derives at most one formula**, apart from the numbers of its fixpoints. The two
derivations end in the same step, since the shape of the text tells which, and the parts are
shorter. -/
theorem eraseIds_eq_of_derives {cs : List Char} {f g : Formula} (hf : Derives .formula cs f)
    (hg : Derives .formula cs g) : f.eraseIds = g.eraseIds := by
  induction hn : cs.length using Nat.strong_induction_on generalizing cs f g with
  | h n ih =>
    have hpart : ∀ {p : List Char} {f g : Formula}, p ∈ (Shape.of (Text.trim cs)).parts →
        Derives .formula p f → Derives .formula p g → f.eraseIds = g.eraseIds :=
      fun hp hf hg => ih _ (hn ▸ length_part_lt rfl hp) hf hg rfl
    rw [derives_iff_yields rfl] at hf hg
    generalize Shape.of (Text.trim cs) = shape at hf hg hpart
    cases shape with
    | tt | ff | var _ => rw [hf, hg]
    | and l r =>
      obtain ⟨f₁, f₂, hf₁, hf₂, rfl⟩ := hf
      obtain ⟨g₁, g₂, hg₁, hg₂, rfl⟩ := hg
      rw [eraseIds, eraseIds, hpart (by simp [Shape.parts]) hf₁ hg₁,
        hpart (by simp [Shape.parts]) hf₂ hg₂]
    | or l r =>
      obtain ⟨f₁, f₂, hf₁, hf₂, rfl⟩ := hf
      obtain ⟨g₁, g₂, hg₁, hg₂, rfl⟩ := hg
      rw [eraseIds, eraseIds, hpart (by simp [Shape.parts]) hf₁ hg₁,
        hpart (by simp [Shape.parts]) hf₂ hg₂]
    | dia a rest | box a rest =>
      obtain ⟨f', hf', rfl⟩ := hf
      obtain ⟨g', hg', rfl⟩ := hg
      rw [eraseIds, eraseIds, hpart (List.mem_singleton_self _) hf' hg']
    | fix k x body =>
      obtain ⟨i, f', hf', rfl⟩ := hf
      obtain ⟨j, g', hg', rfl⟩ := hg
      rw [eraseIds, eraseIds, hpart (List.mem_singleton_self _) hf' hg']
    | group inner => exact hpart (List.mem_singleton_self _) hf hg
    | unmatched => exact hf.elim

theorem parse_eq_ok {s : String} {f : Formula} :
    parse s = .ok f ↔ ∃ after, Accepted [] 0 s.toList f after := by
  simp only [← read_eq_ok_iff, parse]
  rcases read [] 0 s.toList with e | ⟨g, n⟩
  · simp [Except.map]
  · simp [Except.map]

/-- **The reader accepts exactly its grammar.** It returns a formula exactly when the text derives
it, no fixpoint binds the variable of an enclosing one, and the fixpoints are numbered `0`, `1`,
`2`, … in the order in which they begin. The grammar gives each text at most one tree, shadowed
variables or not. -/
theorem parse_eq_ok_iff (s : String) :
    (∀ f, parse s = .ok f ↔
      Derives .formula s.toList f ∧ f.Unshadowed [] ∧ f.Numbered 0) ∧
    ∀ f g, Derives .formula s.toList f → Derives .formula s.toList g →
      f.eraseIds = g.eraseIds := by
  refine ⟨fun f => ?_, fun f g => eraseIds_eq_of_derives⟩
  rw [parse_eq_ok]
  refine ⟨?_, ?_⟩
  · rintro ⟨after, hderives, hunshadowed, hnumbered, -⟩
    exact ⟨hderives, hunshadowed, hnumbered⟩
  · rintro ⟨hderives, hunshadowed, hnumbered⟩
    exact ⟨_, hderives, hunshadowed, hnumbered, rfl⟩

/-- A shadowed variable: two trees that differ in their numbers only, and neither is read. -/
theorem parse_eq_ok_iff_shadowed :
    ∃ f g, Derives .formula "mu X.(mu X.X)".toList f ∧ Derives .formula "mu X.(mu X.X)".toList g ∧
      f ≠ g ∧ f.eraseIds = g.eraseIds ∧ parse "mu X.(mu X.X)" ≠ .ok f := by
  have hx : IsVariable 'X' := by decide
  have hfix : ∀ {cs : List Char} {f : Formula} (id : Nat), Derives .formula cs f →
      Derives .formula (Kind.least.keyword.toList ++ [' ', 'X', '.'] ++ cs)
        (.fix .least ⟨id, 'X'⟩ f) :=
    fun id h => (Derives.fix rfl hx h).formula
  have htext : ∀ i j, Derives .formula "mu X.(mu X.X)".toList
      (.fix .least ⟨i, 'X'⟩ (.fix .least ⟨j, 'X'⟩ (.var 'X'))) :=
    fun i j => hfix i (Derives.group (hfix j (Derives.var hx).formula)).formula
  refine ⟨_, _, htext 0 1, htext 1 0, by decide, ?_, ?_⟩
  · exact (parse_eq_ok_iff _).2 _ _ (htext 0 1) (htext 1 0)
  · rw [ne_eq, (parse_eq_ok_iff _).1]
    rintro ⟨-, hunshadowed, -⟩
    exact hunshadowed.2.1 (List.mem_singleton_self _)

end Formula

end ModalMu
