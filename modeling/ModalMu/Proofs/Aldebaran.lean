import Mathlib.Data.Nat.Digits.Defs
import ModalMu.Lts.Aldebaran
import ModalMu.Proofs.Grammar

/-!
# The grammar of Aldebaran text

A transition system is written as a header and any number of transitions, with blanks between their
parts:

    document ::= blank* [des blank*] ( num , num , num ) blank* (blank* arrow blank*)*
    arrow    ::= ( num , blank* label blank* , num )
    num      ::= blank* (0 | [1-9][0-9]*) blank*
    label    ::= " [^"]* "

* `Numeral`, `Num`, `Label`, `Head`, `Arrow`, `Document` — the texts of each symbol, with what they
  stand for. A number lies below `2 ^ 64`, and a label is kept as it is;
* `number_append`, `label_append`, … — a reader passes over a text of its symbol, if what follows
  cannot belong to it;
* `number_eq_ok`, `label_eq_ok`, … — a reader that succeeds has passed over a text of its symbol;
* `readChars_eq_ok_iff` — **reading succeeds exactly on the texts of the grammar**;
* `parse_iff_document` — the whole reader, with what it does next.
-/

namespace ModalMu

namespace Aldebaran

open Text (AllBlank isBlank trimLeft)

/-! ### The grammar -/

/-- The value of a row of decimal digits, the last one counting least. -/
def numeralValue (ds : List Char) : Nat :=
  Nat.ofDigits 10 (ds.reverse.map fun d => d.toNat - '0'.toNat)

/-- **A numeral** is a zero, or a row of digits that begins with another one. -/
inductive Numeral : List Char → Nat → Prop where
  /-- `0` -/
  | zero : Numeral ['0'] 0
  /-- `[1-9][0-9]*` -/
  | row {d : Char} {ds : List Char} (hd : '1' ≤ d ∧ d ≤ '9') (hds : ∀ c ∈ ds, '0' ≤ c ∧ c ≤ '9') :
      Numeral (d :: ds) (numeralValue (d :: ds))

/-- **A number** fits into 64 bits and may have blanks around it. -/
inductive Num : List Char → Nat → Prop where
  /-- a numeral between blanks -/
  | padded {pre ds post : List Char} {n : Nat} (hpre : AllBlank pre) (h : Numeral ds n)
      (hn : n < numberBound) (hpost : AllBlank post) : Num (pre ++ ds ++ post) n

/-- **A label** is whatever stands between two quotes. -/
inductive Label : List Char → String → Prop where
  /-- the characters between the quotes, as they are -/
  | quoted {cs : List Char} (h : '"' ∉ cs) : Label ('"' :: cs ++ ['"']) (String.ofList cs)

/-- The word in front of the header may be missing. -/
inductive Keyword : List Char → Prop where
  /-- no word -/
  | none : Keyword []
  /-- the word, with blanks after it -/
  | des {post : List Char} (hpost : AllBlank post) : Keyword ("des".toList ++ post)

/-- **The three numbers of the header**, in round brackets. -/
inductive Head : List Char → Header → Prop where
  /-- the first state, the number of transitions and the number of states -/
  | numbers {a b c : List Char} {first transitions states : Nat} (ha : Num a first)
      (hb : Num b transitions) (hc : Num c states) :
      Head ('(' :: a ++ ',' :: b ++ ',' :: c ++ [')']) ⟨first, transitions, states⟩

/-- **A transition** in round brackets. -/
inductive Arrow : List Char → Transition → Prop where
  /-- the start, the label and the target -/
  | parts {a pre l post b : List Char} {start target : Nat} {label : String} (ha : Num a start)
      (hpre : AllBlank pre) (hl : Label l label) (hpost : AllBlank post) (hb : Num b target) :
      Arrow ('(' :: a ++ ',' :: pre ++ l ++ post ++ ',' :: b ++ [')']) ⟨start, label, target⟩

/-- **Any number of transitions**, each with blanks around it. -/
inductive Arrows : List Char → List Transition → Prop where
  /-- none -/
  | nil : Arrows [] []
  /-- one more in front -/
  | cons {pre cs post rest : List Char} {t : Transition} {ts : List Transition}
      (hpre : AllBlank pre) (h : Arrow cs t) (hpost : AllBlank post) (hrest : Arrows rest ts) :
      Arrows (pre ++ cs ++ post ++ rest) (t :: ts)

/-- **A whole text.** -/
inductive Document : List Char → Header → List Transition → Prop where
  /-- a header and transitions -/
  | text {pre word head post rest : List Char} {h : Header} {ts : List Transition}
      (hpre : AllBlank pre) (hword : Keyword word) (hhead : Head head h) (hpost : AllBlank post)
      (hrest : Arrows rest ts) : Document (pre ++ word ++ head ++ post ++ rest) h ts

/-! ### Sequencing readers -/

section

variable {α β : Type} {r : Reader α} {f : α → Reader β} {cs mid rest : List Char} {a : α} {b : β}

theorem bind_of_ok (h : r cs = .ok (a, mid)) : (r >>= f) cs = f a mid := by
  simp [Bind.bind, StateT.bind, Except.bind, h]

theorem bind_eq_ok (h : (r >>= f) cs = .ok (b, rest)) :
    ∃ a mid, r cs = .ok (a, mid) ∧ f a mid = .ok (b, rest) := by
  cases hr : r cs with
  | error e => simp [Bind.bind, StateT.bind, Except.bind, hr] at h
  | ok v => exact ⟨v.1, v.2, rfl, by rwa [bind_of_ok hr] at h⟩

end

/-! ### Characters -/

theorem expect_cons (c : Char) (rest : List Char) : expect c (c :: rest) = .ok ((), rest) :=
  if_pos rfl

theorem expect_eq_ok {c : Char} {cs rest : List Char} {u : Unit} (h : expect c cs = .ok (u, rest)) :
    cs = c :: rest := by
  unfold expect at h
  split at h
  · split at h
    · rename_i hd
      cases h
      rw [hd]
    · cases h
  · cases h

theorem blanks_append {pre rest : List Char} (hpre : AllBlank pre) :
    blanks (pre ++ rest) = .ok ((), trimLeft rest) := by
  rw [blanks, Text.trimLeft_append hpre]

/-- Blanks in front of a text that begins with none. -/
theorem blanks_append_trimmed {pre rest : List Char} (hpre : AllBlank pre)
    (hrest : trimLeft rest = rest) : blanks (pre ++ rest) = .ok ((), rest) := by
  rw [blanks_append hpre, hrest]

theorem blanks_append_cons {pre rest : List Char} {c : Char} (hpre : AllBlank pre)
    (hc : isBlank c = false) : blanks (pre ++ c :: rest) = .ok ((), c :: rest) :=
  blanks_append_trimmed hpre (Text.trimLeft_cons rest hc)

theorem blanks_eq_ok {cs rest : List Char} {u : Unit} (h : blanks cs = .ok (u, rest)) :
    ∃ pre, AllBlank pre ∧ cs = pre ++ rest := by
  cases h
  exact ⟨cs.takeWhile isBlank, Text.allBlank_takeWhile cs, List.takeWhile_append_dropWhile.symm⟩

/-- No blank is a digit. -/
theorem not_isDigit_of_isBlank {c : Char} (h : isBlank c = true) : c.isDigit = false := by
  rw [Bool.eq_false_iff]
  intro hdigit
  obtain ⟨hlow, hhigh⟩ := Grammar.isDigit_iff.1 hdigit
  rw [Char.le_def, UInt32.le_iff_toNat_le] at hlow hhigh
  have hlow' : 48 ≤ c.toNat := hlow
  have hhigh' : c.toNat ≤ 57 := hhigh
  simp only [isBlank, Bool.or_eq_true, Bool.and_eq_true, decide_eq_true_eq, beq_iff_eq] at h
  omega

/-- A row of digits is cut off where it ends. -/
theorem span_digits {ds rest : List Char} (hds : ∀ c ∈ ds, '0' ≤ c ∧ c ≤ '9')
    (hrest : ∀ c ∈ rest.head?, c.isDigit = false) :
    (ds ++ rest).takeWhile Char.isDigit = ds ∧ (ds ++ rest).dropWhile Char.isDigit = rest := by
  have hall : ∀ c ∈ ds, c.isDigit = true := fun c hc => Grammar.isDigit_iff.2 (hds c hc)
  rw [List.takeWhile_append_of_pos hall, List.dropWhile_append_of_pos hall]
  cases rest with
  | nil => simp
  | cons c rest => simp [hrest c rfl]

/-! ### Numbers -/

theorem decimal_eq_numeralValue (ds : List Char) : decimal ds = numeralValue ds := by
  induction ds using List.reverseRecOn with
  | nil => rfl
  | append_singleton ds d ih =>
    rw [numeralValue, List.reverse_concat, List.map_cons, Nat.ofDigits_cons, ← numeralValue, ← ih,
      decimal, List.foldl_concat, Nat.add_comm]
    rfl

/-- What stands in front of a numeral other than zero is a digit. -/
theorem isDigit_of_one_le {d : Char} (h : '1' ≤ d ∧ d ≤ '9') : d.isDigit = true :=
  Grammar.isDigit_iff.2 ⟨Std.le_trans (by decide) h.1, h.2⟩

/-- Any other digit is a zero. -/
theorem eq_zero_or_one_le {d : Char} (h : d.isDigit = true) : d = '0' ∨ '1' ≤ d ∧ d ≤ '9' := by
  obtain ⟨hlow, hhigh⟩ := Grammar.isDigit_iff.1 h
  rw [Char.le_def, UInt32.le_iff_toNat_le] at hlow
  rcases Nat.eq_or_lt_of_le hlow with heq | hlt
  · exact .inl (Char.toNat_inj.1 heq.symm)
  · exact .inr ⟨hlt, hhigh⟩

/-- **A numeral is passed over** when no digit follows. -/
theorem digits_append {ds rest : List Char} {n : Nat} (h : Numeral ds n) (hn : n < numberBound)
    (hrest : ∀ c ∈ rest.head?, c.isDigit = false) : digits (ds ++ rest) = .ok (n, rest) := by
  cases h with
  | zero => rfl
  | @row d ds hd hds =>
    obtain ⟨htake, hdrop⟩ := span_digits hds hrest
    rw [List.cons_append]
    unfold digits
    split
    · rename_i heq
      cases heq
      exact absurd hd.1 (by decide)
    · rename_i heq
      cases heq
      rw [htake, hdrop, decimal_eq_numeralValue, if_pos (isDigit_of_one_le hd)]
      exact if_pos hn
    · rename_i heq
      cases heq

/-- **What was passed over as a numeral is one.** -/
theorem digits_eq_ok {cs rest : List Char} {n : Nat} (h : digits cs = .ok (n, rest)) :
    ∃ ds, Numeral ds n ∧ n < numberBound ∧ cs = ds ++ rest := by
  unfold digits at h
  split at h
  · cases h
    exact ⟨['0'], .zero, by decide, rfl⟩
  · rename_i d tail hzero
    split at h
    · rename_i hdigit
      dsimp only at h
      split at h
      · rename_i hlt
        cases h
        refine ⟨d :: tail.takeWhile Char.isDigit, ?_, hlt, ?_⟩
        · rw [decimal_eq_numeralValue]
          exact .row ((eq_zero_or_one_le hdigit).resolve_left hzero) fun c hc =>
            Grammar.isDigit_iff.1 (List.mem_takeWhile_imp hc)
        · rw [List.cons_append, List.takeWhile_append_dropWhile]
      · cases h
    · cases h
  · cases h

/-- A numeral begins with a digit, so not with a blank. -/
theorem Numeral.exists_cons {ds : List Char} {n : Nat} (h : Numeral ds n) :
    ∃ d tail, ds = d :: tail ∧ isBlank d = false := by
  cases h with
  | zero => exact ⟨'0', [], rfl, rfl⟩
  | @row d ds hd hds =>
    refine ⟨d, ds, rfl, ?_⟩
    rw [Bool.eq_false_iff]
    intro hblank
    have hdigit := isDigit_of_one_le hd
    rw [not_isDigit_of_isBlank hblank] at hdigit
    cases hdigit

/-- **A number is passed over**, up to a character that is neither a blank nor a digit. -/
theorem number_append {cs rest : List Char} {n : Nat} {c : Char} (h : Num cs n)
    (hblank : isBlank c = false) (hdigit : c.isDigit = false) :
    number (cs ++ c :: rest) = .ok (n, c :: rest) := by
  obtain @⟨pre, ds, post, _, hpre, hds, hn, hpost⟩ := h
  obtain ⟨d, tail, rfl, hd⟩ := hds.exists_cons
  -- the numeral ends at a blank, or at `c` if no blank follows
  have hfollow : ∀ e ∈ (post ++ c :: rest).head?, e.isDigit = false := by
    intro e he
    cases post with
    | nil =>
      cases he
      exact hdigit
    | cons e post =>
      cases he
      exact not_isDigit_of_isBlank (hpost _ List.mem_cons_self)
  have hsplit : pre ++ (d :: tail) ++ post ++ c :: rest =
      pre ++ d :: (tail ++ (post ++ c :: rest)) := by simp
  rw [hsplit, number, bind_of_ok (blanks_append_cons hpre hd), ← List.cons_append,
    bind_of_ok (digits_append hds hn hfollow), bind_of_ok (blanks_append_cons hpost hblank)]
  rfl

/-- **What was passed over as a number is one.** -/
theorem number_eq_ok {cs rest : List Char} {n : Nat} (h : number cs = .ok (n, rest)) :
    ∃ num, Num num n ∧ cs = num ++ rest := by
  obtain ⟨_, cs₁, rpre, h⟩ := bind_eq_ok h
  obtain ⟨m, cs₂, rdigits, h⟩ := bind_eq_ok h
  obtain ⟨_, cs₃, rpost, h⟩ := bind_eq_ok h
  cases h
  obtain ⟨pre, hpre, rfl⟩ := blanks_eq_ok rpre
  obtain ⟨ds, hds, hn, rfl⟩ := digits_eq_ok rdigits
  obtain ⟨post, hpost, rfl⟩ := blanks_eq_ok rpost
  exact ⟨pre ++ ds ++ post, .padded hpre hds hn hpost, by simp⟩

/-! ### Labels and the keyword -/

/-- **A label is passed over**, whatever follows. -/
theorem label_append {cs : List Char} {l : String} (h : Label cs l) (rest : List Char) :
    label (cs ++ rest) = .ok (l, rest) := by
  obtain @⟨cs, hcs⟩ := h
  have hsplit : '"' :: cs ++ ['"'] ++ rest = '"' :: (cs ++ '"' :: rest) := by simp
  have hall : ∀ c ∈ cs, (decide (c ≠ '"')) = true := by
    intro c hc
    rw [decide_eq_true_iff]
    rintro rfl
    exact hcs hc
  have hspan : takeWhile (· ≠ '"') (cs ++ '"' :: rest) = .ok (cs, '"' :: rest) := by
    rw [takeWhile, List.takeWhile_append_of_pos hall, List.dropWhile_append_of_pos hall]
    simp
  rw [hsplit, label, bind_of_ok (expect_cons _ _), bind_of_ok hspan, bind_of_ok (expect_cons _ _)]
  rfl

/-- A label does not begin with a blank. -/
theorem Label.trimLeft_append {cs : List Char} {l : String} (h : Label cs l) (rest : List Char) :
    trimLeft (cs ++ rest) = cs ++ rest := by
  cases h
  exact Text.trimLeft_cons _ rfl

/-- **What was passed over as a label is one.** -/
theorem label_eq_ok {cs rest : List Char} {l : String} (h : label cs = .ok (l, rest)) :
    ∃ quoted, Label quoted l ∧ cs = quoted ++ rest := by
  obtain ⟨_, cs₁, ropen, h⟩ := bind_eq_ok h
  obtain ⟨text, cs₂, rtext, h⟩ := bind_eq_ok h
  obtain ⟨_, cs₃, rclose, h⟩ := bind_eq_ok h
  cases h
  cases rtext
  obtain rfl := expect_eq_ok ropen
  have hclose := expect_eq_ok rclose
  refine ⟨'"' :: cs₁.takeWhile (· ≠ '"') ++ ['"'], .quoted ?_, ?_⟩
  · intro hmem
    have hne := List.mem_takeWhile_imp hmem
    simp at hne
  · rw [List.cons_append, List.cons_append, List.append_assoc, List.singleton_append, ← hclose,
      List.takeWhile_append_dropWhile]

/-- The keyword is passed over in front of a bracket. -/
theorem keyword_append {word : List Char} (h : Keyword word) (rest : List Char) :
    keyword (word ++ '(' :: rest) = .ok ((), '(' :: rest) := by
  cases h with
  | none => rfl
  | @des post hpost =>
    have hsplit : "des".toList ++ post ++ '(' :: rest =
        'd' :: 'e' :: 's' :: (post ++ '(' :: rest) := rfl
    rw [hsplit]
    change (do expect 'e'; expect 's'; blanks : Reader Unit) _ = _
    rw [bind_of_ok (expect_cons _ _), bind_of_ok (expect_cons _ _)]
    exact blanks_append_cons hpost rfl

theorem keyword_eq_ok {cs rest : List Char} {u : Unit} (h : keyword cs = .ok (u, rest)) :
    ∃ word, Keyword word ∧ cs = word ++ rest := by
  unfold keyword at h
  split at h
  · obtain ⟨_, cs₁, he, h⟩ := bind_eq_ok h
    obtain ⟨_, cs₂, hs, h⟩ := bind_eq_ok h
    obtain rfl := expect_eq_ok he
    obtain rfl := expect_eq_ok hs
    obtain ⟨post, hpost, rfl⟩ := blanks_eq_ok h
    exact ⟨_, .des hpost, rfl⟩
  · cases h
    exact ⟨[], .none, rfl⟩

/-- Nor does a header, with or without the word. -/
theorem Keyword.trimLeft_append {word : List Char} (h : Keyword word) (rest : List Char) :
    trimLeft (word ++ '(' :: rest) = word ++ '(' :: rest := by
  cases h with
  | none => exact Text.trimLeft_cons _ rfl
  | des _ => exact Text.trimLeft_cons _ rfl

/-! ### The header -/

/-- **A header is passed over**, with the blanks around it. -/
theorem header_append {pre word head post rest : List Char} {h : Header} (hpre : AllBlank pre)
    (hword : Keyword word) (hhead : Head head h) (hpost : AllBlank post) :
    header (pre ++ word ++ head ++ post ++ rest) = .ok (h, trimLeft rest) := by
  obtain @⟨a, b, c, first, transitions, states, ha, hb, hc⟩ := hhead
  have hsplit : pre ++ word ++ ('(' :: a ++ ',' :: b ++ ',' :: c ++ [')']) ++ post ++ rest =
      pre ++ (word ++ '(' :: (a ++ ',' :: (b ++ ',' :: (c ++ ')' :: (post ++ rest))))) := by simp
  rw [hsplit, header, bind_of_ok (blanks_append_trimmed hpre (hword.trimLeft_append _)),
    bind_of_ok (keyword_append hword _), bind_of_ok (expect_cons _ _),
    bind_of_ok (number_append ha rfl rfl), bind_of_ok (expect_cons _ _),
    bind_of_ok (number_append hb rfl rfl), bind_of_ok (expect_cons _ _),
    bind_of_ok (number_append hc rfl rfl), bind_of_ok (expect_cons _ _),
    bind_of_ok (blanks_append hpost)]
  rfl

/-- **What was passed over as a header is one.** -/
theorem header_eq_ok {cs rest : List Char} {h : Header} (hcs : header cs = .ok (h, rest)) :
    ∃ pre word head post, AllBlank pre ∧ Keyword word ∧ Head head h ∧ AllBlank post ∧
      cs = pre ++ word ++ head ++ post ++ rest := by
  obtain ⟨_, cs₁, rpre, hcs⟩ := bind_eq_ok hcs
  obtain ⟨_, cs₂, rword, hcs⟩ := bind_eq_ok hcs
  obtain ⟨_, cs₃, ropen, hcs⟩ := bind_eq_ok hcs
  obtain ⟨first, cs₄, rfirst, hcs⟩ := bind_eq_ok hcs
  obtain ⟨_, cs₅, rcomma, hcs⟩ := bind_eq_ok hcs
  obtain ⟨transitions, cs₆, rtransitions, hcs⟩ := bind_eq_ok hcs
  obtain ⟨_, cs₇, rcomma', hcs⟩ := bind_eq_ok hcs
  obtain ⟨states, cs₈, rstates, hcs⟩ := bind_eq_ok hcs
  obtain ⟨_, cs₉, rclose, hcs⟩ := bind_eq_ok hcs
  obtain ⟨_, cs₁₀, rpost, hcs⟩ := bind_eq_ok hcs
  cases hcs
  obtain ⟨pre, hpre, rfl⟩ := blanks_eq_ok rpre
  obtain ⟨word, hword, rfl⟩ := keyword_eq_ok rword
  obtain rfl := expect_eq_ok ropen
  obtain ⟨a, ha, rfl⟩ := number_eq_ok rfirst
  obtain rfl := expect_eq_ok rcomma
  obtain ⟨b, hb, rfl⟩ := number_eq_ok rtransitions
  obtain rfl := expect_eq_ok rcomma'
  obtain ⟨c, hc, rfl⟩ := number_eq_ok rstates
  obtain rfl := expect_eq_ok rclose
  obtain ⟨post, hpost, rfl⟩ := blanks_eq_ok rpost
  exact ⟨pre, word, _, post, hpre, hword, .numbers ha hb hc, hpost, by simp⟩

/-! ### Transitions -/

/-- **A transition is passed over**, with the blanks after it. -/
theorem transition_append {cs post rest : List Char} {t : Transition} (h : Arrow cs t)
    (hpost : AllBlank post) : transition (cs ++ post ++ rest) = .ok (t, trimLeft rest) := by
  obtain @⟨a, blank, l, blank', b, start, target, label, ha, hblank, hl, hblank', hb⟩ := h
  have hsplit : '(' :: a ++ ',' :: blank ++ l ++ blank' ++ ',' :: b ++ [')'] ++ post ++ rest =
      '(' :: (a ++ ',' :: (blank ++ (l ++ (blank' ++ ',' :: (b ++ ')' :: (post ++ rest)))))) := by
    simp
  rw [hsplit, transition, bind_of_ok (expect_cons _ _), transitionBody,
    bind_of_ok (number_append ha rfl rfl), bind_of_ok (expect_cons _ _),
    bind_of_ok (blanks_append_trimmed hblank (hl.trimLeft_append _)),
    bind_of_ok (label_append hl _), bind_of_ok (blanks_append_cons hblank' rfl),
    bind_of_ok (expect_cons _ _), bind_of_ok (number_append hb rfl rfl),
    bind_of_ok (expect_cons _ _), bind_of_ok (blanks_append hpost)]
  rfl

/-- **What was passed over as a transition is one.** -/
theorem transition_eq_ok {cs rest : List Char} {t : Transition}
    (h : transition cs = .ok (t, rest)) :
    ∃ arrow post, Arrow arrow t ∧ AllBlank post ∧ cs = arrow ++ post ++ rest := by
  obtain ⟨_, cs₁, ropen, h⟩ := bind_eq_ok h
  obtain ⟨start, cs₂, rstart, h⟩ := bind_eq_ok h
  obtain ⟨_, cs₃, rcomma, h⟩ := bind_eq_ok h
  obtain ⟨_, cs₄, rblank, h⟩ := bind_eq_ok h
  obtain ⟨label, cs₅, rlabel, h⟩ := bind_eq_ok h
  obtain ⟨_, cs₆, rblank', h⟩ := bind_eq_ok h
  obtain ⟨_, cs₇, rcomma', h⟩ := bind_eq_ok h
  obtain ⟨target, cs₈, rtarget, h⟩ := bind_eq_ok h
  obtain ⟨_, cs₉, rclose, h⟩ := bind_eq_ok h
  obtain ⟨_, cs₁₀, rpost, h⟩ := bind_eq_ok h
  cases h
  obtain rfl := expect_eq_ok ropen
  obtain ⟨a, ha, rfl⟩ := number_eq_ok rstart
  obtain rfl := expect_eq_ok rcomma
  obtain ⟨blank, hblank, rfl⟩ := blanks_eq_ok rblank
  obtain ⟨l, hl, rfl⟩ := label_eq_ok rlabel
  obtain ⟨blank', hblank', rfl⟩ := blanks_eq_ok rblank'
  obtain rfl := expect_eq_ok rcomma'
  obtain ⟨b, hb, rfl⟩ := number_eq_ok rtarget
  obtain rfl := expect_eq_ok rclose
  obtain ⟨post, hpost, rfl⟩ := blanks_eq_ok rpost
  exact ⟨_, post, .parts ha hblank hl hblank' hb, hpost, by simp⟩

/-! ### Whole texts -/

theorem transitions_cons {c : Char} {cs rest : List Char} {t : Transition}
    (h : transition (c :: cs) = .ok (t, rest)) (seen : Array Transition) :
    transitions seen (c :: cs) = transitions (seen.push t) rest := by
  rw [transitions]
  split
  · rename_i heq
    rw [h] at heq
    cases heq
  · rename_i heq
    rw [h] at heq
    cases heq
    rfl

/-- **Transitions are read up to the end of the text.** -/
theorem transitions_of_arrows {cs : List Char} {ts : List Transition} (h : Arrows cs ts)
    (seen : Array Transition) : transitions seen (trimLeft cs) = .ok (seen.toList ++ ts) := by
  induction h generalizing seen with
  | nil => simp [trimLeft, transitions]
  | @cons pre cs post rest t ts hpre h hpost hrest ih =>
    obtain ⟨tail, rfl⟩ : ∃ tail, cs = '(' :: tail := by
      cases h
      exact ⟨_, rfl⟩
    have hread : transition ('(' :: (tail ++ post ++ rest)) = .ok (t, trimLeft rest) :=
      transition_append h hpost
    have hsplit : trimLeft (pre ++ '(' :: tail ++ post ++ rest) =
        '(' :: (tail ++ post ++ rest) := by
      rw [List.append_assoc, List.append_assoc, Text.trimLeft_append hpre, List.cons_append,
        Text.trimLeft_cons _ rfl, List.append_assoc]
    rw [hsplit, transitions_cons hread, ih]
    simp

/-- **What was read as transitions is a row of them.** -/
theorem arrows_of_transitions {seen : Array Transition} {cs : List Char} {ts : List Transition}
    (h : transitions seen cs = .ok ts) : ∃ ts', ts = seen.toList ++ ts' ∧ Arrows cs ts' := by
  fun_induction transitions seen cs with
  | case1 seen =>
    cases h
    exact ⟨[], by simp, .nil⟩
  | case2 seen c cs s heq => cases h
  | case3 seen c cs t rest heq ih =>
    obtain ⟨ts', rfl, harrows⟩ := ih h
    obtain ⟨arrow, post, harrow, hpost, hcs⟩ := transition_eq_ok heq
    refine ⟨t :: ts', by simp, ?_⟩
    rw [hcs, ← List.nil_append (arrow ++ post ++ rest), ← List.append_assoc, ← List.append_assoc]
    exact .cons (by simp [AllBlank]) harrow hpost harrows

theorem readChars_of_ok {cs rest : List Char} {h : Header} (hheader : header cs = .ok (h, rest)) :
    readChars cs = (transitions #[] rest).map fun ts => (h, ts) := by
  rw [readChars, hheader]
  change (transitions #[] rest >>= fun ts => .ok (h, ts)) = _
  cases transitions #[] rest <;> rfl

/-- **Reading succeeds exactly on the texts of the grammar**, and gives what they stand for. -/
theorem readChars_eq_ok_iff {cs : List Char} {h : Header} {ts : List Transition} :
    readChars cs = .ok (h, ts) ↔ Document cs h ts := by
  refine ⟨?_, ?_⟩
  · intro hread
    rcases hheader : header cs with stopped | ⟨h', rest⟩
    · rw [readChars, hheader] at hread
      cases hread
    · rw [readChars_of_ok hheader] at hread
      rcases hts : transitions #[] rest with stopped | ts' <;> rw [hts] at hread <;> cases hread
      obtain ⟨pre, word, head, post, hpre, hword, hhead, hpost, rfl⟩ := header_eq_ok hheader
      obtain ⟨ts', rfl, harrows⟩ := arrows_of_transitions hts
      exact .text hpre hword hhead hpost harrows
  · rintro ⟨hpre, hword, hhead, hpost, hrest⟩
    rw [readChars_of_ok (header_append hpre hword hhead hpost), transitions_of_arrows hrest]
    rfl

section

variable {s : String} {h h' : Header} {ts ts' : List Transition}

/-- **A text has one reading.** -/
theorem Document.unique {cs : List Char} (hdoc : Document cs h ts) (hdoc' : Document cs h' ts') :
    h = h' ∧ ts = ts' := by
  have heq := (readChars_eq_ok_iff.2 hdoc).symm.trans (readChars_eq_ok_iff.2 hdoc')
  cases heq
  exact ⟨rfl, rfl⟩

theorem Document.read_eq (hdoc : Document s.toList h ts) : read s = .ok (h, ts) := by
  rw [read, readChars_eq_ok_iff.2 hdoc]
  rfl

/-- What becomes of a reading. -/
theorem Document.parseWithin_eq (fits : Nat → Bool) (hdoc : Document s.toList h ts) :
    parseWithin fits s = if ts.length = h.transitions
      then (Lts.build fits h.first h.states ts).mapError .build
      else .error (.transitionCount h.transitions ts.length) := by
  rw [parseWithin, hdoc.read_eq]
  rfl

theorem Document.parse_eq (hdoc : Document s.toList h ts) :
    parse s = if ts.length = h.transitions
      then (Lts.ofTransitions h.first h.states ts).mapError .build
      else .error (.transitionCount h.transitions ts.length) :=
  hdoc.parseWithin_eq _

/-- Nothing after the reading calls a text malformed. -/
theorem Document.not_malformed (hdoc : Document s.toList h ts) (place : Malformed) :
    parse s ≠ .error (.malformed place) := by
  rw [hdoc.parse_eq]
  split
  · cases Lts.ofTransitions h.first h.states ts <;> simp [Except.mapError]
  · simp

theorem exists_document (hwell : ∀ place, parse s ≠ .error (.malformed place)) :
    ∃ h ts, Document s.toList h ts := by
  rcases hread : readChars s.toList with stopped | ⟨h, ts⟩
  · refine absurd ?_ (hwell (locate s.toList stopped))
    rw [parse, parseWithin, read, hread]
    rfl
  · exact ⟨h, ts, readChars_eq_ok_iff.1 hread⟩

end

/-- **The reader accepts exactly the grammar.** A text is refused as malformed unless it has a
reading; it has at most one; and the header and the transitions of that reading are what is compared
and built. -/
theorem parse_iff_document (s : String) :
    ((∀ place, parse s ≠ .error (.malformed place)) ↔ ∃ h ts, Document s.toList h ts) ∧
    (∀ h ts h' ts', Document s.toList h ts → Document s.toList h' ts' → h = h' ∧ ts = ts') ∧
    ∀ h ts, Document s.toList h ts →
      read s = .ok (h, ts) ∧
      parse s = if ts.length = h.transitions
        then (Lts.ofTransitions h.first h.states ts).mapError .build
        else .error (.transitionCount h.transitions ts.length) := by
  refine ⟨⟨exists_document, ?_⟩, ?_, ?_⟩
  · rintro ⟨h, ts, hdoc⟩
    exact hdoc.not_malformed
  · intro h ts h' ts' hdoc hdoc'
    exact hdoc.unique hdoc'
  · intro h ts hdoc
    exact ⟨hdoc.read_eq, hdoc.parse_eq⟩

end Aldebaran

end ModalMu
