import ModalMu.Proofs.RoundTrip

/-!
# Typeset formulas can be told apart

A typeset formula has brackets around operators and around the body of a fixpoint, but none around a
modality with its formula, and no mark at its end. It needs none:

* `eq_var_of_latex` — a variable is told by its first character from everything else;
* `label_append` — a label ends at the first character that is none of a label;
* `eraseIds_eq_of_latex_append` — **a formula is told from the beginning of a text**, whatever
  follows it. The induction is on one of two formulas that begin the same text, for all texts that
  may follow;
* `latex_unambiguous` — so two formulas that look the same differ at most in the numbers of their
  fixpoints, and none looks like the beginning of another.
-/

namespace ModalMu

namespace Formula

open Grammar

/-- The numbers of fixpoints are not shown. -/
theorem latex_eraseIds (f : Formula) : f.eraseIds.latex = f.latex := by
  induction f with
  | tt | ff | var _ => rfl
  | and l r ihl ihr | or l r ihl ihr => simp [eraseIds, latex, ihl, ihr]
  | dia a f ih | box a f ih => simp [eraseIds, latex, ih]
  | fix k b body ih => simp [eraseIds, latex, ih]

/-! ### First characters -/

theorem symbol_append {k k' : Kind} {u v : List Char}
    (h : k.symbol.toList ++ u = k'.symbol.toList ++ v) : k = k' ∧ u = v := by
  have hkind : k = k' := by
    cases k <;> cases k' <;> first | rfl | simp [Kind.symbol] at h
  subst hkind
  exact ⟨rfl, List.append_cancel_left h⟩

/-- **A variable is told by its first character** from everything else. -/
theorem eq_var_of_latex {x : Var} {g : Formula} {u v : List Char} (hx : IsVariable x)
    (h : x :: u = g.latex.toList ++ v) : g = var x ∧ u = v := by
  have hother : ∀ {c : Char}, ¬ IsVariable c → x ≠ c := by
    rintro c hc rfl
    exact hc hx
  cases g with
  | var y =>
    simp only [latex, String.toList_singleton, List.cons_append, List.nil_append,
      List.cons.injEq] at h
    obtain ⟨rfl, rfl⟩ := h
    exact ⟨rfl, rfl⟩
  | tt | ff | dia _ _ =>
    have hc : x ≠ '\\' := hother (by decide)
    simp [latex, hc] at h
  | fix k b body =>
    have hc : x ≠ '\\' := hother (by decide)
    cases k <;> simp [latex, Kind.symbol, hc] at h
  | and l r | or l r =>
    have hc : x ≠ '(' := hother (by decide)
    simp [latex, hc] at h
  | box a g =>
    have hc : x ≠ '[' := hother (by decide)
    simp [latex, hc] at h

/-- The other way round: what is no variable does not begin like one. -/
theorem latex_append_ne_var {f : Formula} {y : Var} {u v : List Char} (hy : IsVariable y)
    (hf : f ≠ var y) : f.latex.toList ++ u ≠ (var y).latex.toList ++ v := by
  intro h
  apply hf
  apply (eq_var_of_latex hy _).1
  · exact v
  · exact u
  · simpa [latex] using h.symm

/-- **A label ends at the first character that is none of a label.** -/
theorem label_append {stop : Char} (hstop : ¬ IsLabelChar stop) {a b u v : List Char}
    (ha : IsLabel a) (hb : IsLabel b) (h : a ++ stop :: u = b ++ stop :: v) : a = b ∧ u = v := by
  have hlabel : ∀ {cs : List Char}, IsLabel cs → ∀ c ∈ cs, decide (c ≠ stop) = true := by
    intro cs hcs c hc
    rw [decide_eq_true_iff]
    rintro rfl
    exact hstop (hcs.isLabelChar c hc)
  have htake := congrArg (List.takeWhile (· ≠ stop)) h
  rw [List.takeWhile_append_of_pos (hlabel ha), List.takeWhile_append_of_pos (hlabel hb)] at htake
  obtain rfl : a = b := by simpa using htake
  exact ⟨rfl, by simpa using h⟩

/-! ### Formulas at the beginning of a text -/

/-- **A formula is told from the beginning of a text**, and so is what follows it. -/
theorem eraseIds_eq_of_latex_append {f g : Formula} {u v : List Char} (hf : f.Writable)
    (hg : g.Writable) (h : f.latex.toList ++ u = g.latex.toList ++ v) :
    f.eraseIds = g.eraseIds ∧ u = v := by
  -- different nodes differ in one of their first two characters, but for the two operators
  induction f generalizing g u v with
  | tt =>
    cases g with
    | tt => exact ⟨rfl, List.append_cancel_left h⟩
    | var y => exact absurd h (latex_append_ne_var hg (by simp))
    | fix k b body => cases k <;> simp [latex, Kind.symbol] at h
    | _ => simp [latex] at h
  | ff =>
    cases g with
    | ff => exact ⟨rfl, List.append_cancel_left h⟩
    | var y => exact absurd h (latex_append_ne_var hg (by simp))
    | fix k b body => cases k <;> simp [latex, Kind.symbol] at h
    | _ => simp [latex] at h
  | var x =>
    obtain ⟨rfl, rfl⟩ := eq_var_of_latex hf (by simpa [latex] using h)
    exact ⟨rfl, rfl⟩
  | and l r ihl ihr =>
    cases g with
    | and l' r' =>
      simp only [latex, String.toList_append, List.append_assoc] at h
      obtain ⟨hl, hrest⟩ := ihl hf.1 hg.1 (List.append_cancel_left h)
      obtain ⟨hr, hend⟩ := ihr hf.2 hg.2 (List.append_cancel_left hrest)
      exact ⟨by rw [eraseIds, eraseIds, hl, hr], List.append_cancel_left hend⟩
    | or l' r' =>
      -- the operators differ, and both come right after the first formula
      simp only [latex, String.toList_append, List.append_assoc] at h
      obtain ⟨-, hrest⟩ := ihl hf.1 hg.1 (List.append_cancel_left h)
      simp at hrest
    | var y => exact absurd h (latex_append_ne_var hg (by simp))
    | fix k b body => cases k <;> simp [latex, Kind.symbol] at h
    | _ => simp [latex] at h
  | or l r ihl ihr =>
    cases g with
    | or l' r' =>
      simp only [latex, String.toList_append, List.append_assoc] at h
      obtain ⟨hl, hrest⟩ := ihl hf.1 hg.1 (List.append_cancel_left h)
      obtain ⟨hr, hend⟩ := ihr hf.2 hg.2 (List.append_cancel_left hrest)
      exact ⟨by rw [eraseIds, eraseIds, hl, hr], List.append_cancel_left hend⟩
    | and l' r' =>
      simp only [latex, String.toList_append, List.append_assoc] at h
      obtain ⟨-, hrest⟩ := ihl hf.1 hg.1 (List.append_cancel_left h)
      simp at hrest
    | var y => exact absurd h (latex_append_ne_var hg (by simp))
    | fix k b body => cases k <;> simp [latex, Kind.symbol] at h
    | _ => simp [latex] at h
  | dia a f ih =>
    cases g with
    | dia a' g =>
      have htext : a.toList ++ ' ' :: ("\\rangle ".toList ++ (f.latex.toList ++ u)) =
          a'.toList ++ ' ' :: ("\\rangle ".toList ++ (g.latex.toList ++ v)) := by
        simpa [latex] using h
      obtain ⟨ha, hrest⟩ := label_append (by decide) hf.1 hg.1 htext
      obtain ⟨hbody, hend⟩ := ih hf.2 hg.2 (List.append_cancel_left hrest)
      exact ⟨by rw [eraseIds, eraseIds, String.toList_injective ha, hbody], hend⟩
    | var y => exact absurd h (latex_append_ne_var hg (by simp))
    | fix k b body => cases k <;> simp [latex, Kind.symbol] at h
    | _ => simp [latex] at h
  | box a f ih =>
    cases g with
    | box a' g =>
      have htext : a.toList ++ ']' :: (' ' :: (f.latex.toList ++ u)) =
          a'.toList ++ ']' :: (' ' :: (g.latex.toList ++ v)) := by
        simpa [latex] using h
      obtain ⟨ha, hrest⟩ := label_append (by decide) hf.1 hg.1 htext
      obtain ⟨hbody, hend⟩ := ih hf.2 hg.2 (List.cons.inj hrest).2
      exact ⟨by rw [eraseIds, eraseIds, String.toList_injective ha, hbody], hend⟩
    | var y => exact absurd h (latex_append_ne_var hg (by simp))
    | fix k b body => cases k <;> simp [latex, Kind.symbol] at h
    | _ => simp [latex] at h
  | fix k b body ih =>
    cases g with
    | fix k' b' body' =>
      simp only [latex, String.toList_append, List.append_assoc] at h
      obtain ⟨rfl, htext⟩ := symbol_append h
      obtain ⟨hvar, hrest⟩ : b.var = b'.var ∧
          body.latex.toList ++ ')' :: u = body'.latex.toList ++ ')' :: v := by
        simpa using htext
      obtain ⟨hbody, hend⟩ := ih hf.2 hg.2 hrest
      exact ⟨by rw [eraseIds, eraseIds, hvar, hbody], (List.cons.inj hend).2⟩
    | var y => exact absurd h (latex_append_ne_var hg (by simp))
    | _ => cases k <;> simp [latex, Kind.symbol] at h

/-- **Typeset formulas can be told apart.** Two formulas that can be written look the same exactly
when they differ at most in the numbers of their fixpoints, and if one looks like the beginning of
the other, then they look the same. -/
theorem latex_unambiguous (f g : Formula) (hf : f.Writable) (hg : g.Writable) :
    (f.latex = g.latex ↔ f.eraseIds = g.eraseIds) ∧
      (f.latex.toList <+: g.latex.toList → f.latex = g.latex) := by
  refine ⟨⟨?_, ?_⟩, ?_⟩
  · intro h
    apply (eraseIds_eq_of_latex_append (u := []) (v := []) hf hg _).1
    rw [h]
  · intro h
    rw [← latex_eraseIds f, h, latex_eraseIds]
  · rintro ⟨rest, hrest⟩
    have herase : f.eraseIds = g.eraseIds := by
      apply (eraseIds_eq_of_latex_append (v := []) hf hg _).1
      · exact rest
      · rw [hrest, List.append_nil]
    rw [← latex_eraseIds f, herase, latex_eraseIds]

/-- Numbers are not seen, and a longer label is. -/
theorem latex_unambiguous_labels :
    (fix .least ⟨0, 'X'⟩ (dia "a" (var 'X'))).latex =
        (fix .least ⟨3, 'X'⟩ (dia "a" (var 'X'))).latex ∧
      ¬ (box "a" (or tt ff)).latex.toList <+: (box "a1" (or tt ff)).latex.toList := by
  have hlabels := latex_unambiguous (box "a" (or tt ff)) (box "a1" (or tt ff)) (by decide)
    (by decide)
  refine ⟨?_, ?_⟩
  · exact (latex_unambiguous _ _ (by decide) (by decide)).1.2 rfl
  · intro hprefix
    have herase := hlabels.1.1 (hlabels.2 hprefix)
    revert herase
    decide

end Formula

end ModalMu
