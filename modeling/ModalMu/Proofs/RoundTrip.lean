import ModalMu.Proofs.Reading

/-!
# Writing a formula and reading it again

* `Formula.Writable` — the variables and labels are ones that the grammar knows;
* `derives_render` — **what is written derives the formula**, with a blank on each side of an
  operator;
* `writable_of_derives` — conversely, every formula that a text derives can be written.

With the right numbers and no shadowed variable, reading therefore undoes writing.
-/

namespace ModalMu

namespace Formula

open Grammar

/-- **The formula can be written**: its variables are upper-case letters and its actions labels. -/
def Writable : Formula → Prop
  | tt | ff => True
  | var x => IsVariable x
  | and l r | or l r => l.Writable ∧ r.Writable
  | dia a f | box a f => IsLabel a.toList ∧ f.Writable
  | fix _ b body => IsVariable b.var ∧ body.Writable

instance decidableWritable : DecidablePred Writable
  | tt | ff => inferInstanceAs (Decidable True)
  | var x => inferInstanceAs (Decidable (IsVariable x))
  | and l r | or l r =>
    have := decidableWritable l
    have := decidableWritable r
    inferInstanceAs (Decidable (l.Writable ∧ r.Writable))
  | dia a f | box a f =>
    have := decidableWritable f
    inferInstanceAs (Decidable (IsLabel a.toList ∧ f.Writable))
  | fix _ b body =>
    have := decidableWritable body
    inferInstanceAs (Decidable (IsVariable b.var ∧ body.Writable))

/-- The operands of an operator have a blank on the side of the operator. -/
theorem derives_operands {l r : List Char} {f g : Formula} (hl : Derives .core l f)
    (hr : Derives .core r g) :
    Derives .formula (l ++ [' ']) f ∧ Derives .formula (' ' :: r) g := by
  have hblank : Text.AllBlank [' '] := by
    intro c hc
    rw [List.mem_singleton.1 hc]
    rfl
  have hnone : Text.AllBlank [] := by simp [Text.AllBlank]
  refine ⟨?_, ?_⟩
  · exact .padded hnone hl hblank
  · have hpadded : Derives .formula ([' '] ++ r ++ []) g := .padded hblank hr hnone
    rwa [List.append_nil] at hpadded

/-- **What is written derives the formula.** -/
theorem derives_render {f : Formula} (h : f.Writable) : Derives .core f.render.toList f := by
  induction f with
  | tt => exact .tt
  | ff => exact .ff
  | var x =>
    rw [render, String.toList_singleton]
    exact .var h
  | and l r ihl ihr =>
    obtain ⟨hl, hr⟩ := derives_operands (ihl h.1) (ihr h.2)
    have htext : (l.and r).render.toList =
        '(' :: (l.render.toList ++ [' ']) ++ ['&', '&'] ++ (' ' :: r.render.toList) ++ [')'] := by
      simp [render, String.toList_append]
    rw [htext]
    exact .and hl hr
  | or l r ihl ihr =>
    obtain ⟨hl, hr⟩ := derives_operands (ihl h.1) (ihr h.2)
    have htext : (l.or r).render.toList =
        '(' :: (l.render.toList ++ [' ']) ++ ['|', '|'] ++ (' ' :: r.render.toList) ++ [')'] := by
      simp [render, String.toList_append]
    rw [htext]
    exact .or hl hr
  | dia a f ih =>
    have htext : (dia a f).render.toList = '<' :: a.toList ++ ['>'] ++ f.render.toList := by
      simp [render, String.toList_append]
    have hderives := Derives.dia h.1 (ih h.2).formula
    rw [String.ofList_toList] at hderives
    rwa [htext]
  | box a f ih =>
    have htext : (box a f).render.toList = '[' :: a.toList ++ [']'] ++ f.render.toList := by
      simp [render, String.toList_append]
    have hderives := Derives.box h.1 (ih h.2).formula
    rw [String.ofList_toList] at hderives
    rwa [htext]
  | fix k b body ih =>
    have htext : (fix k b body).render.toList =
        k.keyword.toList ++ [' ', b.var, '.'] ++ body.render.toList := by
      simp [render, String.toList_append]
    rw [htext]
    exact .fix rfl h.1 (ih h.2).formula

/-- **What a text derives can be written.** -/
theorem writable_of_derives {s : Symbol} {cs : List Char} {f : Formula} (h : Derives s cs f) :
    f.Writable := by
  induction h with
  | padded _ _ _ ih | group _ ih => exact ih
  | tt | ff => trivial
  | var hx => exact hx
  | and _ _ ihl ihr | or _ _ ihl ihr => exact ⟨ihl, ihr⟩
  | dia ha _ ih | box ha _ ih => exact ⟨by rwa [String.toList_ofList], ih⟩
  | fix _ hx _ ih => exact ⟨hx, ih⟩

/-- Reading what was written. -/
theorem parse_render_of_writable {f : Formula} (hwritable : f.Writable)
    (hunshadowed : f.Unshadowed []) (hnumbered : f.Numbered 0) : parse f.render = .ok f :=
  parse_eq_ok.2 ⟨_, (derives_render hwritable).formula, hunshadowed, hnumbered, rfl⟩

/-- **Reading undoes writing**, numbers included: for every formula that can be written, in which no
fixpoint binds the variable of an enclosing one and whose fixpoints are numbered `0`, `1`, `2`, … in
the order in which they begin; and so for every formula that was read. -/
theorem parse_render :
    (∀ f : Formula, f.Writable → f.Unshadowed [] → f.Numbered 0 → parse f.render = .ok f) ∧
      ∀ (s : String) (f : Formula), parse s = .ok f → parse f.render = .ok f := by
  refine ⟨fun f => parse_render_of_writable, fun s f h => ?_⟩
  obtain ⟨after, hderives, hunshadowed, hnumbered, -⟩ := parse_eq_ok.1 h
  exact parse_render_of_writable (writable_of_derives hderives) hunshadowed hnumbered

theorem parse_render_nested :
    parse "nu X.(<a_1>X && mu Y.(Y || [b]X))" = .ok
      (.fix .greatest ⟨0, 'X'⟩ (.and (.dia "a_1" (.var 'X'))
        (.fix .least ⟨1, 'Y'⟩ (.or (.var 'Y') (.box "b" (.var 'X')))))) :=
  parse_render.1 (.fix .greatest ⟨0, 'X'⟩ (.and (.dia "a_1" (.var 'X'))
    (.fix .least ⟨1, 'Y'⟩ (.or (.var 'Y') (.box "b" (.var 'X')))))) (by decide) (by decide)
    (by decide)

end Formula

end ModalMu
