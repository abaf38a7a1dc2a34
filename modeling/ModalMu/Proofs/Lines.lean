import Mathlib.Data.List.Basic
import ModalMu.Proofs.Grammar
import ModalMu.Text.Lines

/-!
# Lines, and how they are put together again

* `lines_append` — **the lines of two texts**, one after the other, where the second one begins a
  line;
* `dropReturns` — a text without the carriage returns that belong to the ends of its lines;
  `dropReturns_eq_joinLines` — **lines that are put together again** are this text, but for a line
  feed at its end.
-/

namespace ModalMu

namespace Text

/-! ### Pieces between line feeds -/

theorem segments_cons {c : Char} (hc : c ≠ '\n') (cs : List Char) :
    segments (c :: cs) = consFirst c (segments cs) :=
  if_neg hc

theorem segments_cons_lineFeed (cs : List Char) : segments ('\n' :: cs) = [] :: segments cs := rfl

theorem segments_ne_nil (cs : List Char) : segments cs ≠ [] := by
  induction cs with
  | nil => exact List.cons_ne_nil _ _
  | cons c cs ih =>
    by_cases hc : c = '\n'
    · subst hc
      exact List.cons_ne_nil _ _
    · rw [segments_cons hc]
      cases segments cs <;> exact List.cons_ne_nil _ _

theorem segments_of_notMem {cs : List Char} (h : '\n' ∉ cs) : segments cs = [cs] := by
  induction cs with
  | nil => rfl
  | cons c cs ih =>
    rw [List.mem_cons, not_or] at h
    rw [segments_cons (Ne.symm h.1), ih h.2]
    rfl

/-- A line feed ends one piece and begins another. -/
theorem segments_append (a b : List Char) :
    segments (a ++ '\n' :: b) = segments a ++ segments b := by
  induction a with
  | nil => rfl
  | cons c a ih =>
    by_cases hc : c = '\n'
    · subst hc
      rw [List.cons_append, segments_cons_lineFeed, segments_cons_lineFeed, ih, List.cons_append]
    · rw [List.cons_append, segments_cons hc, segments_cons hc, ih]
      obtain ⟨piece, rest, hrest⟩ := List.exists_cons_of_ne_nil (segments_ne_nil a)
      rw [hrest]
      rfl

/-! ### Lines -/

/-- What is before a line feed is a row of whole lines. -/
theorem lines_append_lineFeed (a b : List Char) :
    lines (a ++ '\n' :: b) = (segments a).map dropReturn ++ lines b := by
  have hb := segments_ne_nil b
  rw [lines, lines, segments_append, List.dropLast_append_of_ne_nil hb, List.map_append, List.append_assoc,
    List.getLast?_append_of_ne_nil _ hb]

theorem lines_of_notMem {cs : List Char} (h : '\n' ∉ cs) :
    lines cs = [cs].filter (!·.isEmpty) := by
  rw [lines, segments_of_notMem h]
  rfl

/-- **The text ends where a line begins.** -/
def AtLineStart (cs : List Char) : Prop := cs = [] ∨ ∃ front, cs = front ++ ['\n']

/-- **The lines of two texts**, one after the other. -/
theorem lines_append {a : List Char} (ha : AtLineStart a) (b : List Char) :
    lines (a ++ b) = lines a ++ lines b := by
  rcases ha with rfl | ⟨front, rfl⟩
  · rfl
  · rw [List.append_assoc, List.singleton_append, lines_append_lineFeed, lines_append_lineFeed,
      List.append_assoc]
    rfl

/-- All but the last line of a text, which is the one that goes on when something is added. -/
theorem exists_lastLine (cs : List Char) :
    ∃ front last, AtLineStart front ∧ '\n' ∉ last ∧ cs = front ++ last := by
  induction cs with
  | nil => exact ⟨[], [], Or.inl rfl, List.not_mem_nil, rfl⟩
  | cons c cs ih =>
    obtain ⟨front, last, hfront, hlast, rfl⟩ := ih
    rcases hfront with rfl | ⟨front, rfl⟩
    · by_cases hc : c = '\n'
      · exact ⟨[c], last, Or.inr ⟨[], by rw [hc]; rfl⟩, hlast, rfl⟩
      · exact ⟨[], c :: last, Or.inl rfl, by simp [Ne.symm hc, hlast], rfl⟩
    · exact ⟨c :: front ++ ['\n'], last, Or.inr ⟨c :: front, rfl⟩, hlast, by simp⟩

theorem exists_dropReturn_append (cs : List Char) :
    ∃ post, AllBlank post ∧ cs = dropReturn cs ++ post := by
  unfold dropReturn
  split
  · rename_i hlast
    obtain ⟨pre, rfl⟩ := List.getLast?_eq_some_iff.1 hlast
    exact ⟨['\r'], by simp [AllBlank, isBlank], by rw [List.dropLast_concat]⟩
  · exact ⟨[], by simp [AllBlank], by rw [List.append_nil]⟩

theorem trim_dropReturn (cs : List Char) : trim (dropReturn cs) = trim cs := by
  obtain ⟨post, hpost, hcs⟩ := exists_dropReturn_append cs
  conv_rhs => rw [hcs, trim_append hpost]

theorem subset_of_mem_segments {cs l : List Char} (h : l ∈ segments cs) : l ⊆ cs := by
  induction cs generalizing l with
  | nil =>
    obtain rfl := List.mem_singleton.1 h
    exact List.Subset.refl _
  | cons c cs ih =>
    have hrest : ∀ {l'}, l' ∈ segments cs → l' ⊆ c :: cs :=
      fun hl' => List.Subset.trans (ih hl') (List.subset_cons_self c cs)
    by_cases hc : c = '\n'
    · subst hc
      rcases List.mem_cons.1 h with rfl | h
      · exact List.nil_subset _
      · exact hrest h
    · obtain ⟨piece, rest, hpieces⟩ := List.exists_cons_of_ne_nil (segments_ne_nil cs)
      rw [segments_cons hc, hpieces] at h
      rw [hpieces] at hrest
      rcases List.mem_cons.1 h with rfl | h
      · exact List.cons_subset.2 ⟨List.mem_cons_self, hrest List.mem_cons_self⟩
      · exact hrest (List.mem_cons_of_mem _ h)

/-- A line has no characters but those of the text. -/
theorem subset_of_mem_lines {cs l : List Char} (h : l ∈ lines cs) : l ⊆ cs := by
  rcases List.mem_append.1 h with h | h
  · obtain ⟨piece, hpiece, rfl⟩ := List.mem_map.1 h
    obtain ⟨post, -, hreturn⟩ := exists_dropReturn_append piece
    have hsub : dropReturn piece ⊆ piece := by
      intro c hc
      rw [hreturn]
      exact List.mem_append_left _ hc
    exact List.Subset.trans hsub (subset_of_mem_segments (List.dropLast_subset _ hpiece))
  · have hlast : l ∈ (segments cs).getLast? := by
      simpa using (List.mem_filter.1 h).1
    exact subset_of_mem_segments (List.mem_of_getLast? hlast)

/-! ### Carriage returns -/

/-- **The text without the carriage returns of its line ends**: before each line feed, one of them
is left out. -/
def dropReturns : List Char → List Char
  | [] => []
  | c :: cs => if c = '\r' ∧ cs.head? = some '\n' then dropReturns cs else c :: dropReturns cs

theorem dropReturns_cons {c : Char} (hc : c ≠ '\r') (cs : List Char) :
    dropReturns (c :: cs) = c :: dropReturns cs :=
  if_neg fun h => hc h.1

/-- Two texts can be treated apart unless a line end is divided between them. -/
theorem dropReturns_append {a b : List Char} (h : a.getLast? = some '\r' → b.head? ≠ some '\n') :
    dropReturns (a ++ b) = dropReturns a ++ dropReturns b := by
  induction a with
  | nil => rfl
  | cons c a ih =>
    rcases a with _ | ⟨d, a⟩
    · have hc : ¬ (c = '\r' ∧ b.head? = some '\n') := by
        rintro ⟨rfl, hb⟩
        exact h rfl hb
      rw [List.singleton_append, dropReturns, if_neg hc]
      simp [dropReturns]
    · rw [List.getLast?_cons_cons] at h
      by_cases hc : c = '\r' ∧ d = '\n'
      · have hdrop : ∀ cs, dropReturns (c :: d :: cs) = dropReturns (d :: cs) :=
          fun cs => if_pos (by simpa using hc)
        calc dropReturns (c :: d :: (a ++ b)) = dropReturns (d :: (a ++ b)) := hdrop _
          _ = dropReturns (d :: a) ++ dropReturns b := ih h
          _ = dropReturns (c :: d :: a) ++ dropReturns b := by rw [hdrop]
      · have hkeep : ∀ cs, dropReturns (c :: d :: cs) = c :: dropReturns (d :: cs) :=
          fun cs => if_neg (by simpa using hc)
        calc dropReturns (c :: d :: (a ++ b)) = c :: dropReturns (d :: (a ++ b)) := hkeep _
          _ = c :: (dropReturns (d :: a) ++ dropReturns b) := congrArg _ (ih h)
          _ = dropReturns (c :: d :: a) ++ dropReturns b := by rw [hkeep, List.cons_append]

theorem dropReturns_of_notMem {cs : List Char} (h : '\n' ∉ cs) : dropReturns cs = cs := by
  induction cs with
  | nil => rfl
  | cons c cs ih =>
    rw [List.mem_cons, not_or] at h
    have hhead : cs.head? ≠ some '\n' := fun hhead => h.2 (List.mem_of_head? hhead)
    rw [dropReturns, if_neg fun hc => hhead hc.2, ih h.2]

theorem AllBlank.dropReturns {cs : List Char} (h : AllBlank cs) : AllBlank (dropReturns cs) := by
  induction cs with
  | nil => exact h
  | cons c cs ih =>
    have hrest := ih (List.forall_mem_cons.1 h).2
    rw [Text.dropReturns]
    split
    · exact hrest
    · exact List.forall_mem_cons.2 ⟨h c List.mem_cons_self, hrest⟩

/-- **Carriage returns at the ends of a text do not matter**: they are blank, and so are line
feeds. -/
theorem trim_dropReturns (cs : List Char) : trim (dropReturns cs) = dropReturns (trim cs) := by
  obtain ⟨pre, post, hpre, hpost, hcs⟩ := exists_eq_trim cs
  rcases htrim : trim cs with _ | ⟨c, rest⟩
  · have hblank : AllBlank cs := by
      rw [hcs, htrim, List.append_nil]
      exact List.forall_mem_append.2 ⟨hpre, hpost⟩
    have hnil : trim ([] ++ dropReturns cs) = trim [] := trim_append hblank.dropReturns
    exact hnil
  · have hc : isBlank c = false := isBlank_head?_trim (by rw [htrim]; rfl)
    obtain ⟨front, d, hd⟩ : ∃ front d, c :: rest = front ++ [d] :=
      ⟨_, _, (List.dropLast_append_getLast (List.cons_ne_nil c rest)).symm⟩
    have hdblank : isBlank d = false := isBlank_getLast?_trim (by rw [htrim, hd]; simp)
    have hhead : dropReturns (c :: rest) = c :: dropReturns rest :=
      dropReturns_cons (by rintro rfl; cases hc) rest
    have hlast : dropReturns (c :: rest) = dropReturns front ++ [d] := by
      rw [hd, dropReturns_append fun _ => ?_]
      · simp [dropReturns]
      · rintro ⟨rfl⟩
        cases hdblank
    have htext : dropReturns cs = dropReturns pre ++ dropReturns (c :: rest) ++ dropReturns post := by
      rw [hcs, htrim, dropReturns_append fun h => ?_, dropReturns_append fun _ => ?_]
      · rintro ⟨rfl⟩
        cases hc
      · rw [hd, ← List.append_assoc, List.getLast?_append] at h
        cases h
        cases hdblank
    rw [htext, trim_append hpost.dropReturns, trim_blank_append hpre.dropReturns]
    refine trim_eq_self (fun e he => ?_) fun e he => ?_
    · rw [hhead] at he
      cases he
      exact hc
    · rw [hlast, List.getLast?_append] at he
      cases he
      exact hdblank

/-! ### Lines put together again -/

theorem joinLines_cons (l : List Char) {ls : List (List Char)} (h : ls ≠ []) :
    joinLines (l :: ls) = l ++ '\n' :: joinLines ls := by
  obtain ⟨l', ls, rfl⟩ := List.exists_cons_of_ne_nil h
  simp [joinLines]

/-- What is added to the last line is added to the text. -/
theorem joinLines_concat_append (ls : List (List Char)) (l post : List Char) :
    joinLines (ls ++ [l ++ post]) = joinLines (ls ++ [l]) ++ post := by
  induction ls with
  | nil => simp [joinLines]
  | cons l' ls ih =>
    rw [List.cons_append, joinLines_cons _ (by simp), ih, List.cons_append,
      joinLines_cons _ (by simp), List.append_assoc, List.cons_append]

/-- An empty line at the end adds nothing but a line feed. -/
theorem exists_joinLines_concat_nil (ls : List (List Char)) :
    ∃ post, AllBlank post ∧ joinLines (ls ++ [[]]) = joinLines ls ++ post := by
  induction ls with
  | nil => exact ⟨[], by simp [AllBlank], rfl⟩
  | cons l ls ih =>
    rcases ls with _ | ⟨l', ls⟩
    · exact ⟨['\n'], by simp [AllBlank, isBlank], by simp [joinLines]⟩
    · obtain ⟨post, hpost, hls⟩ := ih
      refine ⟨post, hpost, ?_⟩
      rw [List.cons_append, joinLines_cons l (by simp), hls, joinLines_cons l (by simp),
        List.append_assoc, List.cons_append]

theorem dropReturns_line {l : List Char} (hl : '\n' ∉ l) (rest : List Char) :
    dropReturns (l ++ '\n' :: rest) = dropReturn l ++ '\n' :: dropReturns rest := by
  have hfeed : dropReturns ('\n' :: rest) = '\n' :: dropReturns rest :=
    dropReturns_cons (by decide) rest
  unfold dropReturn
  split
  · rename_i hlast
    obtain ⟨pre, rfl⟩ := List.getLast?_eq_some_iff.1 hlast
    have hpre : '\n' ∉ pre := fun h => hl (List.mem_append_left _ h)
    have hreturn : dropReturns ('\r' :: '\n' :: rest) = dropReturns ('\n' :: rest) := if_pos ⟨rfl, rfl⟩
    rw [List.dropLast_concat, List.append_assoc, List.singleton_append,
      dropReturns_append (by simp), hreturn, hfeed, dropReturns_of_notMem hpre]
  · rename_i hlast
    rw [dropReturns_append fun h => absurd h hlast, hfeed, dropReturns_of_notMem hl]

/-- **Lines that are put together again** are the text without the carriage returns of its line
ends, and perhaps without the last line feed. -/
theorem dropReturns_eq_joinLines (cs : List Char) :
    ∃ post, AllBlank post ∧ dropReturns cs = joinLines (lines cs) ++ post := by
  induction hn : cs.length using Nat.strong_induction_on generalizing cs with
  | h n ih =>
    by_cases hcs : '\n' ∈ cs
    · obtain ⟨l, rest, rfl, hl⟩ := List.eq_append_cons_of_mem hcs
      obtain ⟨post, hpost, hrest⟩ := ih rest.length (by simp [← hn]; omega) rest rfl
      rw [dropReturns_line hl, lines_append_lineFeed, segments_of_notMem hl]
      rcases hlines : lines rest with _ | ⟨l', ls⟩
      · -- nothing but blanks follows the last line
        refine ⟨'\n' :: post, List.forall_mem_cons.2 ⟨rfl, hpost⟩, ?_⟩
        rw [hrest, hlines]
        simp [joinLines]
      · refine ⟨post, hpost, ?_⟩
        rw [hrest, List.map_singleton, List.singleton_append, hlines,
          joinLines_cons _ (List.cons_ne_nil _ _)]
        simp
    · refine ⟨[], by simp [AllBlank], ?_⟩
      rw [dropReturns_of_notMem hcs, lines_of_notMem hcs]
      cases cs <;> simp [joinLines]

end Text

end ModalMu
