import Mathlib.Logic.Relation
import ModalMu.Formula.Comment
import ModalMu.Proofs.Lines
import ModalMu.Proofs.Reading

/-!
# Comments do not change a formula

Without its comment lines a text is put together from lines, which may change it in two ways: the
carriage returns of its line ends are gone, and so is the last line feed. Neither matters to the
reader:

* `Derives.withoutReturns` — **a formula may lose the carriage returns of its line ends.** A single blank
  that matters, the one after `mu` or `nu`, is never one of them, since a variable follows it;
* `Insertion` — a comment line more, at any place where a line begins, or a line end more after the
  last line; `trimRight_uncommented` — **an insertion changes nothing** but blanks at the end of what
  is left without comments;
* `parse_stripComments` — so a formula is read the same with any number of comments.
-/

namespace ModalMu

open Text (AllBlank isBlank trim trimLeft trimRight lines dropReturn dropReturns joinLines AtLineStart)

namespace Grammar

/-! ### Line ends in a formula -/

theorem IsVariable.ne {c d : Char} (hc : IsVariable c) (hd : ¬ IsVariable d) : c ≠ d := by
  rintro rfl
  exact hd hc

/-- A label keeps all of its characters. -/
theorem IsLabel.dropReturns_append {a : List Char} (ha : IsLabel a) {stop : Char}
    (hstop : stop ≠ '\n') (hstop' : stop ≠ '\r') (cs : List Char) :
    dropReturns (a ++ [stop] ++ cs) = a ++ [stop] ++ dropReturns cs := by
  have hlabel : dropReturns a = a := by
    apply Text.dropReturns_of_notMem
    exact fun hmem => absurd (ha.isLabelChar _ hmem) (by decide)
  rw [List.append_assoc, Text.dropReturns_append (by simpa using fun _ => hstop), hlabel,
    List.singleton_append, Text.dropReturns_cons hstop', List.append_assoc, List.singleton_append]

/-- Two formulas in brackets keep the brackets and the operator. -/
theorem dropReturns_operands {op : Char} (hop : IsOperator op) (l r : List Char) :
    dropReturns ('(' :: l ++ [op, op] ++ r ++ [')']) =
      '(' :: dropReturns l ++ [op, op] ++ dropReturns r ++ [')'] := by
  obtain ⟨hreturn, hfeed⟩ : op ≠ '\r' ∧ op ≠ '\n' := by
    rcases hop with rfl | rfl <;> decide
  have hright : dropReturns (r ++ [')']) = dropReturns r ++ [')'] :=
    Text.dropReturns_append (by simp)
  have hleft : dropReturns (l ++ op :: op :: (r ++ [')'])) =
      dropReturns l ++ op :: op :: (dropReturns r ++ [')']) := by
    rw [Text.dropReturns_append (by simpa using fun _ => hfeed), Text.dropReturns_cons hreturn,
      Text.dropReturns_cons hreturn, hright]
  simpa [Text.dropReturns_cons] using hleft

/-- The blank after a keyword stays, since a variable follows it and no line feed. -/
theorem dropReturns_binder (k : Kind) {blank x : Char} (hx : IsVariable x) (cs : List Char) :
    dropReturns (k.keyword.toList ++ [blank, x, '.'] ++ cs) =
      k.keyword.toList ++ [blank, x, '.'] ++ dropReturns cs := by
  have hfeed : ¬ (blank = '\r' ∧ (x :: '.' :: cs).head? = some '\n') := by
    rintro ⟨-, hhead⟩
    exact hx.ne (by decide) (Option.some.inj hhead)
  have hkeep : dropReturns (blank :: x :: '.' :: cs) = blank :: x :: '.' :: dropReturns cs := by
    rw [dropReturns, if_neg hfeed, Text.dropReturns_cons (hx.ne (by decide)),
      Text.dropReturns_cons (by decide)]
  cases k <;> simp [Kind.keyword, Text.dropReturns_cons, hkeep]

/-- **A formula may lose the carriage returns of its line ends.** -/
theorem Derives.withoutReturns {s : Symbol} {cs : List Char} {f : Formula} (h : Derives s cs f) :
    Derives s (dropReturns cs) f := by
  induction h with
  | padded hpre h hpost ih =>
    rw [derives_formula_iff, Text.trim_dropReturns, Text.trim_append hpost,
      Text.trim_blank_append hpre, ← Text.trim_dropReturns, ← derives_formula_iff]
    exact ih.formula
  | tt => exact .tt
  | ff => exact .ff
  | var hx =>
    rw [Text.dropReturns_cons (hx.ne (by decide))]
    exact .var hx
  | and _ _ ihl ihr =>
    rw [dropReturns_operands (Or.inl rfl)]
    exact .and ihl ihr
  | or _ _ ihl ihr =>
    rw [dropReturns_operands (Or.inr rfl)]
    exact .or ihl ihr
  | dia ha _ ih =>
    rw [List.cons_append, List.cons_append, Text.dropReturns_cons (by decide),
      ha.dropReturns_append (by decide) (by decide)]
    exact .dia ha ih
  | box ha _ ih =>
    rw [List.cons_append, List.cons_append, Text.dropReturns_cons (by decide),
      ha.dropReturns_append (by decide) (by decide)]
    exact .box ha ih
  | @fix k _ _ _ _ _ hblank hx _ ih =>
    rw [dropReturns_binder k hx]
    exact .fix hblank hx ih
  | group _ ih =>
    rw [List.cons_append, Text.dropReturns_cons (by decide), Text.dropReturns_append (by simp)]
    exact .group ih

/-- A comment never looks like a formula. -/
theorem Derives.percent_notMem {s : Symbol} {cs : List Char} {f : Formula} (h : Derives s cs f) :
    '%' ∉ cs := by
  have hblanks : ∀ {bs : List Char}, AllBlank bs → '%' ∉ bs := by
    intro bs hbs hmem
    have := hbs _ hmem
    revert this
    decide
  have hlabel : ∀ {a : List Char}, IsLabel a → '%' ∉ a :=
    fun ha hmem => absurd (ha.isLabelChar _ hmem) (by decide)
  have hvar : ∀ {x : Char}, IsVariable x → '%' ≠ x := fun hx => (hx.ne (by decide)).symm
  induction h with
  | padded hpre _ hpost ih => simp [hblanks hpre, ih, hblanks hpost]
  | tt | ff => decide
  | var hx => simp [hvar hx]
  | and _ _ ihl ihr | or _ _ ihl ihr => simp [ihl, ihr]
  | dia ha _ ih | box ha _ ih => simp [hlabel ha, ih]
  | @fix k blank x id cs f hblank hx _ ih =>
    have hb : '%' ≠ blank := by
      rintro rfl
      cases hblank
    cases k <;> simp [Kind.keyword, hb, hvar hx, ih]
  | group _ ih => simp [ih]

end Grammar

/-! ### Comment lines -/

/-- **A comment line**: its first character that is not blank is `%`. -/
def IsCommentLine (line : List Char) : Prop :=
  '\n' ∉ line ∧ ∃ blanks text, AllBlank blanks ∧ line = blanks ++ '%' :: text

/-- **One insertion** into a text. -/
inductive Insertion : List Char → List Char → Prop where
  /-- a comment line, where another line begins or after the last one -/
  | line (before line after : List Char) (hbefore : AtLineStart before)
      (hline : IsCommentLine line) : Insertion (before ++ after) (before ++ line ++ '\n' :: after)
  /-- a comment line at the end of the text, which no line end follows -/
  | last (before line : List Char) (hbefore : AtLineStart before) (hline : IsCommentLine line) :
      Insertion before (before ++ line)
  /-- a line end at the end of the text -/
  | lineEnd (cs : List Char) {ending : List Char} (h : ending = ['\n'] ∨ ending = ['\r', '\n']) :
      Insertion cs (cs ++ ending)

/-- The lines of a text that are no comments. -/
def keptLines (cs : List Char) : List (List Char) := (lines cs).filter (!isComment ·)

/-- What is left of a text without its comments. -/
def uncommented (cs : List Char) : List Char := joinLines (keptLines cs)

theorem toList_stripComments (s : String) : (stripComments s).toList = uncommented s.toList := by
  rw [stripComments, String.toList_ofList, uncommented, keptLines]

theorem keptLines_append {a : List Char} (ha : AtLineStart a) (b : List Char) :
    keptLines (a ++ b) = keptLines a ++ keptLines b := by
  rw [keptLines, Text.lines_append ha, List.filter_append, keptLines, keptLines]

theorem isComment_of_isCommentLine {line : List Char} (h : IsCommentLine line) :
    isComment line = true := by
  obtain ⟨-, blanks, text, hblanks, rfl⟩ := h
  rw [isComment, Text.trimLeft_append hblanks, Text.trimLeft_cons _ rfl]
  rfl

/-- Blanks at the right end of a line do not make it a comment. -/
theorem isComment_append {line post : List Char} (hpost : AllBlank post) :
    isComment (line ++ post) = isComment line := by
  rw [isComment, isComment]
  by_cases htrim : trimLeft line = []
  · have hline : AllBlank line := List.dropWhile_eq_nil_iff.1 htrim
    rw [htrim, Text.trimLeft_append hline, trimLeft, List.dropWhile_eq_nil_iff.2 hpost]
  · rw [Text.trimLeft_append_of_ne_nil htrim, List.head?_append_of_ne_nil _ htrim]

/-! ### Insertions -/

/-- The last line may get or lose blanks at its end. -/
theorem trimRight_joinLines_last {ls : List (List Char)} {l l' post : List Char}
    (hpost : AllBlank post) (h : l = l' ++ post ∨ l' = l ++ post) :
    trimRight (joinLines (ls ++ [l].filter (!isComment ·))) =
      trimRight (joinLines (ls ++ ([l'].filter (!·.isEmpty)).filter (!isComment ·))) := by
  have hcomment : isComment l = isComment l' := by
    rcases h with rfl | rfl
    · exact isComment_append hpost
    · exact (isComment_append hpost).symm
  have hlast : trimRight (joinLines (ls ++ [l])) = trimRight (joinLines (ls ++ [l'])) := by
    rcases h with rfl | rfl <;> rw [Text.joinLines_concat_append, Text.trimRight_append hpost]
  have hempty : trimRight (joinLines (ls ++ [[]])) = trimRight (joinLines ls) := by
    obtain ⟨blanks, hblanks, hls⟩ := Text.exists_joinLines_concat_nil ls
    rw [hls, Text.trimRight_append hblanks]
  rw [List.filter_filter]
  cases hl' : isComment l' with
  | true => simp [hcomment, hl']
  | false =>
    rw [hl'] at hcomment
    rcases l' with _ | ⟨c, rest⟩
    · simpa [hcomment] using hlast.trans hempty
    · simpa [hcomment, hl'] using hlast

/-- **A blank at the end of a text** adds nothing but blanks, whether it goes on with the last line,
ends it or is an empty line. -/
theorem trimRight_uncommented_concat (cs : List Char) {c : Char} (hc : isBlank c = true) :
    trimRight (uncommented (cs ++ [c])) = trimRight (uncommented cs) := by
  obtain ⟨front, last, hfront, hlast, rfl⟩ := Text.exists_lastLine cs
  have hkept : keptLines last = ([last].filter (!·.isEmpty)).filter (!isComment ·) := by
    rw [keptLines, Text.lines_of_notMem hlast]
  rw [List.append_assoc, uncommented, uncommented, keptLines_append hfront,
    keptLines_append hfront, hkept]
  by_cases hfeed : c = '\n'
  · obtain ⟨post, hpost, hreturn⟩ := Text.exists_dropReturn_append last
    have hline : keptLines (last ++ [c]) = [dropReturn last].filter (!isComment ·) := by
      rw [keptLines, hfeed, Text.lines_append_lineFeed, Text.segments_of_notMem hlast]
      rfl
    rw [hline]
    exact trimRight_joinLines_last hpost (Or.inr hreturn)
  · have hline : keptLines (last ++ [c]) = [last ++ [c]].filter (!isComment ·) := by
      rw [keptLines, Text.lines_of_notMem (by simp [hlast, Ne.symm hfeed])]
      simp
    rw [hline]
    exact trimRight_joinLines_last (by simpa [AllBlank] using hc) (Or.inl rfl)

/-- **An insertion changes nothing** but blanks at the end of what is left without comments. -/
theorem trimRight_uncommented {cs cs' : List Char} (h : Insertion cs cs') :
    trimRight (uncommented cs') = trimRight (uncommented cs) := by
  cases h with
  | line before line after hbefore hline =>
    obtain ⟨post, hpost, hreturn⟩ := Text.exists_dropReturn_append line
    have hcomment : isComment (dropReturn line) = true := by
      rw [← isComment_append hpost, ← hreturn]
      exact isComment_of_isCommentLine hline
    have hkept : keptLines (line ++ '\n' :: after) = keptLines after := by
      rw [keptLines, Text.lines_append_lineFeed, Text.segments_of_notMem hline.1, keptLines]
      simp [hcomment]
    rw [List.append_assoc, uncommented, uncommented, keptLines_append hbefore,
      keptLines_append hbefore, hkept]
  | last before line hbefore hline =>
    have hkept : keptLines line = [] := by
      rw [keptLines, Text.lines_of_notMem hline.1]
      simp [isComment_of_isCommentLine hline]
    rw [uncommented, keptLines_append hbefore, hkept, List.append_nil, uncommented]
  | lineEnd cs hending =>
    rcases hending with rfl | rfl
    · exact trimRight_uncommented_concat cs rfl
    · rw [← List.singleton_append, ← List.append_assoc, trimRight_uncommented_concat _ rfl,
        trimRight_uncommented_concat _ rfl]

theorem trimRight_uncommented_of_insertions {cs cs' : List Char}
    (h : Relation.ReflTransGen Insertion cs cs') :
    trimRight (uncommented cs') = trimRight (uncommented cs) := by
  induction h with
  | refl => rfl
  | tail _ hstep ih => rw [trimRight_uncommented hstep, ih]

namespace Formula

open Grammar

/-! ### Formulas -/

/-- A formula has no comments to lose. -/
theorem keptLines_of_derives {cs : List Char} {f : Formula} (h : Derives .formula cs f) :
    keptLines cs = lines cs := by
  rw [keptLines, List.filter_eq_self]
  intro l hl
  have hpercent : '%' ∉ l := fun hmem => h.percent_notMem (Text.subset_of_mem_lines hl hmem)
  have hhead : (trimLeft l).head? ≠ some '%' := by
    intro hhead
    exact hpercent ((List.dropWhile_sublist isBlank).subset (List.mem_of_head? hhead))
  simpa [isComment] using hhead

/-- **A formula is one without its comments, too.** -/
theorem derives_uncommented {cs : List Char} {f : Formula} (h : Derives .formula cs f) :
    Derives .formula (uncommented cs) f := by
  obtain ⟨post, hpost, hlines⟩ := Text.dropReturns_eq_joinLines cs
  have hreturns := h.withoutReturns
  rw [derives_formula_iff, hlines, Text.trim_append hpost, ← derives_formula_iff] at hreturns
  rwa [uncommented, keptLines_of_derives h]

/-- **Comments and line ends do not change a formula.** A text that is read as a formula is read as
the same one, numbers included, without the comment lines that it does not have, though its line
ends are written anew; and so is any text that comes from it by inserting comment lines. -/
theorem parse_stripComments {s : String} {f : Formula} (h : parse s = .ok f) :
    parse (stripComments s) = .ok f ∧
      ∀ s' : String, Relation.ReflTransGen Insertion s.toList s'.toList →
        parse (stripComments s') = .ok f := by
  obtain ⟨after, hderives, hunshadowed, hnumbered, hafter⟩ := parse_eq_ok.1 h
  have hany : ∀ s' : String, Relation.ReflTransGen Insertion s.toList s'.toList →
      parse (stripComments s') = .ok f := by
    intro s' hs'
    have hsame := derives_uncommented hderives
    refine parse_eq_ok.2 ⟨after, ?_, hunshadowed, hnumbered, hafter⟩
    rw [derives_formula_iff, ← Text.trim_trimRight] at hsame
    rw [toList_stripComments, derives_formula_iff, ← Text.trim_trimRight,
      trimRight_uncommented_of_insertions hs']
    exact hsame
  exact ⟨hany s .refl, hany⟩

/-- Comments before, inside and after a formula with both kinds of line end. -/
theorem parse_stripComments_everywhere :
    parse (stripComments "% first\nnu X.\r\n  % second\r\n<a>X\n% last") =
      .ok (.fix .greatest ⟨0, 'X'⟩ (.dia "a" (.var 'X'))) := by
  have hparse : parse "nu X.\r\n<a>X" = .ok (.fix .greatest ⟨0, 'X'⟩ (.dia "a" (.var 'X'))) := by
    decide +kernel
  have hfirst : IsCommentLine "% first".toList :=
    ⟨by decide, [], " first".toList, by simp [AllBlank], rfl⟩
  have hsecond : IsCommentLine "  % second\r".toList :=
    ⟨by decide, "  ".toList, " second\r".toList, by simp [AllBlank, isBlank], rfl⟩
  have hlast : IsCommentLine "% last".toList :=
    ⟨by decide, [], " last".toList, by simp [AllBlank], rfl⟩
  have hone := Insertion.line [] "% first".toList "nu X.\r\n<a>X".toList (Or.inl rfl) hfirst
  have htwo := Insertion.line "% first\nnu X.\r\n".toList "  % second\r".toList "<a>X".toList
    (Or.inr ⟨"% first\nnu X.\r".toList, rfl⟩) hsecond
  have hthree := Insertion.lineEnd "% first\nnu X.\r\n  % second\r\n<a>X".toList (Or.inl rfl)
  have hfour := Insertion.last "% first\nnu X.\r\n  % second\r\n<a>X\n".toList "% last".toList
    (Or.inr ⟨"% first\nnu X.\r\n  % second\r\n<a>X".toList, rfl⟩) hlast
  apply (parse_stripComments hparse).2
  exact (((Relation.ReflTransGen.single hone).tail htwo).tail hthree).tail hfour

end Formula

end ModalMu
