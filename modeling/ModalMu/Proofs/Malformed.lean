import Mathlib.Data.List.Infix
import ModalMu.Proofs.Aldebaran
import ModalMu.Proofs.Lines

/-!
# Where a text stops being Aldebaran text

A text that is refused is at fault at its first character that no text of the grammar could have
there, or at its end if it only needs to be continued.

* `Viable`, `FaultAt` — a text that some text of the grammar begins with, and the one place after
  which a text is no longer viable;
* `Scans` — **what a reader does when it stops**: what it has passed over can be completed, and what
  comes after the next character does not matter. It is closed under sequencing;
* `readChars_faultAt` — reading stops at the place at fault, unless a number is too large;
* `lineAt` — the line around a place, and `trim_lines_eq` — the lines of the text hold it;
* `parse_malformed_at` — what is reported about a text that is refused.
-/

namespace ModalMu

namespace Aldebaran

open Text (AllBlank isBlank trimLeft)

/-! ### Viable texts -/

/-- **A text that some text of the grammar begins with.** -/
def Viable (cs : List Char) : Prop := ∃ ext h ts, Document (cs ++ ext) h ts

/-- **The place at fault** in a text: what stands before it is viable, but not with the character
at it. If there is none, the place is the end of the text. -/
structure FaultAt (cs : List Char) (p : Nat) : Prop where
  /-- it is a place in the text -/
  le : p ≤ cs.length
  /-- what stands before it can be continued -/
  before : Viable (cs.take p)
  /-- but not with the character at it -/
  after : p < cs.length → ¬Viable (cs.take (p + 1))

/-- No row of digits in the text stands for a number that is too large. -/
def Bounded (cs : List Char) : Prop :=
  ∀ ds, ds <:+: cs → (∀ c ∈ ds, '0' ≤ c ∧ c ≤ '9') → numeralValue ds < numberBound

theorem Viable.take {cs : List Char} {p q : Nat} (h : Viable (cs.take q)) (hpq : p ≤ q) :
    Viable (cs.take p) := by
  obtain ⟨ext, head, ts, hdoc⟩ := h
  obtain ⟨mid, hmid⟩ : cs.take p <+: cs.take q := List.take_prefix_take_left hpq
  refine ⟨mid ++ ext, head, ts, ?_⟩
  rwa [← List.append_assoc, hmid]

/-- **A text is at fault in one place only.** -/
theorem FaultAt.unique {cs : List Char} {p q : Nat} (hp : FaultAt cs p) (hq : FaultAt cs q) :
    p = q := by
  rcases Nat.lt_trichotomy p q with hlt | heq | hlt
  · exact absurd (hq.before.take hlt) (hp.after (Nat.lt_of_lt_of_le hlt hq.le))
  · exact heq
  · exact absurd (hp.before.take hlt) (hq.after (Nat.lt_of_lt_of_le hlt hp.le))

theorem Bounded.suffix {cs rest : List Char} (h : Bounded cs) (hrest : rest <:+ cs) :
    Bounded rest :=
  fun ds hds hdigits => h ds (hds.trans hrest.isInfix) hdigits

/-! ### Readers that stop -/

section

variable {α β : Type} {r : Reader α} {f : α → Reader β} {L : List Char → α → Prop}
  {M : α → List Char → β → Prop} {cs : List Char}

theorem bind_of_error {s : Stop} (h : r cs = .error s) : (r >>= f) cs = .error s := by
  simp [Bind.bind, StateT.bind, Except.bind, h]

theorem bind_eq_error {s : Stop} (h : (r >>= f) cs = .error s) :
    r cs = .error s ∨ ∃ a mid, r cs = .ok (a, mid) ∧ f a mid = .error s := by
  cases hr : r cs with
  | error e =>
    rw [bind_of_error hr] at h
    cases h
    exact .inl rfl
  | ok v => exact .inr ⟨v.1, v.2, rfl, by rwa [bind_of_ok hr] at h⟩

/-- The texts of one reader, each followed by one of the next. -/
def Sequence (L : List Char → α → Prop) (M : α → List Char → β → Prop) (cs : List Char) (b : β) :
    Prop :=
  ∃ u v a, L u a ∧ M a v b ∧ cs = u ++ v

/-- **A reader of the texts in `L` that looks one character ahead.** -/
structure Scans (r : Reader α) (L : List Char → α → Prop) : Prop where
  /-- there is a text to read -/
  inhabited : ∃ u a, L u a
  /-- what is left is the end of what was given -/
  suffix {cs rest : List Char} {a : α} : r cs = .ok (a, rest) → rest <:+ cs
  /-- where it stops, what was passed over can be completed -/
  stopped {cs : List Char} {s : Stop} : r cs = .error s →
    ∃ u, cs = u ++ s.rest ∧ (Bounded cs → s.found = s.rest.head? ∧ ∃ ext a, L (u ++ ext) a)
  /-- what comes after the next character does not matter where it succeeds -/
  ok_ahead {u w t : List Char} {c : Char} {a : α} (v : List Char) :
    r (u ++ c :: t) = .ok (a, w ++ c :: t) → r (u ++ c :: v) = .ok (a, w ++ c :: v)
  /-- nor where it stops at a character -/
  error_ahead {u w t : List Char} {c d : Char} (v : List Char) :
    r (u ++ c :: t) = .error ⟨w ++ c :: t, some d⟩ →
      r (u ++ c :: v) = .error ⟨w ++ c :: v, some d⟩

namespace Scans

theorem mono {M : List Char → α → Prop} (h : Scans r L) (hLM : ∀ u a, L u a → M u a) :
    Scans r M where
  inhabited := by
    obtain ⟨u, a, hu⟩ := h.inhabited
    exact ⟨u, a, hLM u a hu⟩
  suffix := h.suffix
  stopped hcs := by
    obtain ⟨u, hu, hbounded⟩ := h.stopped hcs
    refine ⟨u, hu, fun hb => ?_⟩
    obtain ⟨hfound, ext, a, hext⟩ := hbounded hb
    exact ⟨hfound, ext, a, hLM _ _ hext⟩
  ok_ahead := h.ok_ahead
  error_ahead := h.error_ahead

/-- What the next reader leaves still has the next character, so the first one did not pass it. -/
theorem bind (hr : Scans r L)
    (hpassed : ∀ {cs rest a}, r cs = .ok (a, rest) → ∃ u, L u a ∧ cs = u ++ rest)
    (hf : ∀ a, Scans (f a) (M a)) : Scans (r >>= f) (Sequence L M) where
  inhabited := by
    obtain ⟨u, a, hu⟩ := hr.inhabited
    obtain ⟨v, b, hv⟩ := (hf a).inhabited
    exact ⟨u ++ v, b, u, v, a, hu, hv, rfl⟩
  suffix hcs := by
    obtain ⟨a, mid, hmid, hrest⟩ := bind_eq_ok hcs
    exact ((hf a).suffix hrest).trans (hr.suffix hmid)
  stopped {cs s} hcs := by
    rcases bind_eq_error hcs with hstop | ⟨a, mid, hmid, hstop⟩
    · obtain ⟨u, hu, hbounded⟩ := hr.stopped hstop
      refine ⟨u, hu, fun hb => ?_⟩
      obtain ⟨hfound, ext, a, hext⟩ := hbounded hb
      obtain ⟨v, b, hv⟩ := (hf a).inhabited
      exact ⟨hfound, ext ++ v, b, u ++ ext, v, a, hext, hv, by simp⟩
    · obtain ⟨u, hu, rfl⟩ := hpassed hmid
      obtain ⟨v, rfl, hbounded⟩ := (hf a).stopped hstop
      refine ⟨u ++ v, by simp, fun hb => ?_⟩
      obtain ⟨hfound, ext, b, hext⟩ := hbounded (hb.suffix (List.suffix_append _ _))
      exact ⟨hfound, ext, b, u, v ++ ext, a, hu, hext, by simp⟩
  ok_ahead v hcs := by
    obtain ⟨a, mid, hmid, hrest⟩ := bind_eq_ok hcs
    obtain ⟨x, rfl⟩ := (hf a).suffix hrest
    rw [← List.append_assoc] at hmid hrest
    rw [bind_of_ok (hr.ok_ahead v hmid), (hf a).ok_ahead v hrest]
  error_ahead v hcs := by
    rcases bind_eq_error hcs with hstop | ⟨a, mid, hmid, hstop⟩
    · exact bind_of_error (hr.error_ahead v hstop)
    · obtain ⟨x, rfl, -⟩ := (hf a).stopped hstop
      dsimp only at hmid hstop
      rw [← List.append_assoc] at hmid hstop
      rw [bind_of_ok (hr.ok_ahead v hmid), (hf a).error_ahead v hstop]

end Scans

end

/-! ### Characters -/

theorem scans_pure {α : Type} (a : α) :
    Scans (pure a : Reader α) fun u b => u = [] ∧ b = a where
  inhabited := ⟨[], a, rfl, rfl⟩
  suffix h := by
    cases h
    exact List.suffix_rfl
  stopped h := by cases h
  ok_ahead v h := by
    injection h with h
    injection h with ha hu
    rw [ha, List.append_cancel_right hu]
    rfl
  error_ahead v h := by cases h

/-- A row of characters of one sort that ends before the next character ends there whatever comes
after it. -/
theorem span_ahead {p : Char → Bool} {u w t : List Char} {c : Char}
    (h : (u ++ c :: t).dropWhile p = w ++ c :: t) (v : List Char) :
    (u ++ c :: v).dropWhile p = w ++ c :: v ∧
      (u ++ c :: v).takeWhile p = (u ++ c :: t).takeWhile p := by
  induction u with
  | nil =>
    by_cases hc : p c = true
    · -- the row would have to pass the next character and keep it
      rw [List.nil_append, List.dropWhile_cons_of_pos hc] at h
      have hle := (List.dropWhile_sublist p (l := t)).length_le
      rw [h, List.length_append, List.length_cons] at hle
      omega
    · rw [List.nil_append, List.dropWhile_cons_of_neg hc] at h
      obtain rfl : [] = w := List.append_cancel_right h
      simp [hc]
  | cons d u ih =>
    by_cases hd : p d = true
    · simp only [List.cons_append, List.dropWhile_cons_of_pos hd,
        List.takeWhile_cons_of_pos hd] at h ⊢
      rw [(ih h).1, (ih h).2]
      exact ⟨rfl, rfl⟩
    · rw [List.cons_append, List.dropWhile_cons_of_neg hd, ← List.cons_append] at h
      obtain rfl := List.append_cancel_right h
      simp [hd]

theorem scans_blanks : Scans blanks fun u _ => AllBlank u where
  inhabited := ⟨[], (), by simp [AllBlank]⟩
  suffix h := by
    cases h
    exact List.dropWhile_suffix _
  stopped h := by cases h
  ok_ahead v h := by
    injection h with h
    injection h with _ hrest
    rw [blanks, trimLeft, (span_ahead hrest v).1]
  error_ahead v h := by cases h

theorem scans_takeWhile (p : Char → Bool) :
    Scans (takeWhile p) fun u x => u = x ∧ ∀ c ∈ u, p c = true where
  inhabited := ⟨[], [], rfl, by simp⟩
  suffix h := by
    cases h
    exact List.dropWhile_suffix _
  stopped h := by cases h
  ok_ahead v h := by
    injection h with h
    injection h with ha hrest
    rw [takeWhile, (span_ahead hrest v).1, (span_ahead hrest v).2, ha]
  error_ahead v h := by cases h

theorem takeWhile_eq_ok {p : Char → Bool} {cs rest x : List Char}
    (h : takeWhile p cs = .ok (x, rest)) : ∃ u, (u = x ∧ ∀ c ∈ u, p c = true) ∧ cs = u ++ rest := by
  cases h
  exact ⟨_, ⟨rfl, fun c hc => List.mem_takeWhile_imp hc⟩, List.takeWhile_append_dropWhile.symm⟩

/-- Whoever stops at once sees the next character and nothing else. -/
theorem expect_cons_of_ne {c d : Char} (h : d ≠ c) (rest : List Char) :
    expect c (d :: rest) = .error ⟨d :: rest, some d⟩ :=
  if_neg h

theorem scans_expect (c : Char) : Scans (expect c) fun u _ => u = [c] where
  inhabited := ⟨[c], (), rfl⟩
  suffix h := by
    rw [expect_eq_ok h]
    exact List.suffix_cons _ _
  stopped {cs s} h := by
    refine ⟨[], ?_, fun _ => ⟨?_, [c], (), rfl⟩⟩
    all_goals
      rcases cs with _ | ⟨d, rest⟩
      · cases h
        rfl
      · by_cases hd : d = c
        · rw [hd, expect_cons] at h
          cases h
        · rw [expect_cons_of_ne hd] at h
          cases h
          rfl
  ok_ahead {u w t d a} v h := by
    have hcs := expect_eq_ok h
    rcases u with _ | ⟨e, u⟩
    · -- the character was passed over, and cannot be left as well
      have hlen := congrArg List.length hcs
      simp only [List.nil_append, List.length_cons, List.length_append] at hlen
      omega
    · rw [List.cons_append, List.cons.injEq] at hcs
      obtain ⟨rfl, hcs⟩ := hcs
      obtain rfl := List.append_cancel_right hcs
      exact expect_cons _ _
  error_ahead {u w t d e} v h := by
    obtain ⟨x, rest, hx⟩ : ∃ x rest, u ++ d :: t = x :: rest := by
      cases u <;> exact ⟨_, _, rfl⟩
    by_cases hxc : x = c
    · rw [hx, hxc, expect_cons] at h
      cases h
    · rw [hx, expect_cons_of_ne hxc, ← hx] at h
      injection h with h
      injection h with hrest hfound
      obtain rfl := List.append_cancel_right hrest
      obtain rfl := Option.some.inj hfound
      rcases u with _ | ⟨y, u⟩
      · cases hx
        exact expect_cons_of_ne hxc _
      · cases hx
        exact expect_cons_of_ne hxc _

theorem expect_eq_ok_append {c : Char} {cs rest : List Char} {u : Unit}
    (h : expect c cs = .ok (u, rest)) : ∃ v, v = [c] ∧ cs = v ++ rest :=
  ⟨[c], rfl, expect_eq_ok h⟩

/-! ### Numbers -/

theorem digits_row {d : Char} (hd : '1' ≤ d ∧ d ≤ '9') (rest : List Char) :
    digits (d :: rest) =
      if decimal (d :: rest.takeWhile Char.isDigit) < numberBound
      then .ok (decimal (d :: rest.takeWhile Char.isDigit), rest.dropWhile Char.isDigit)
      else .error ⟨d :: rest, none⟩ := by
  unfold digits
  split
  · rename_i heq
    cases heq
    exact absurd hd.1 (by decide)
  · rename_i heq
    cases heq
    rw [if_pos (isDigit_of_one_le hd)]
  · rename_i heq
    cases heq

theorem digits_other {d : Char} (hd : d.isDigit = false) (rest : List Char) :
    digits (d :: rest) = .error ⟨d :: rest, some d⟩ := by
  unfold digits
  split
  · rename_i heq
    cases heq
    cases hd
  · rename_i heq
    cases heq
    rw [hd]
    rfl
  · rename_i heq
    cases heq

/-- The three ways to go on from the first character of a number. -/
theorem zero_or_row_or_other (d : Char) : d = '0' ∨ ('1' ≤ d ∧ d ≤ '9') ∨ d.isDigit = false := by
  cases hd : d.isDigit
  · exact .inr (.inr rfl)
  · exact (eq_zero_or_one_le hd).imp_right .inl

theorem scans_digits : Scans digits fun u n => Numeral u n ∧ n < numberBound where
  inhabited := ⟨['0'], 0, .zero, by decide⟩
  suffix h := by
    obtain ⟨ds, -, -, rfl⟩ := digits_eq_ok h
    exact List.suffix_append _ _
  stopped {cs s} h := by
    have hzero : Numeral ([] ++ ['0']) 0 ∧ 0 < numberBound := ⟨.zero, by decide⟩
    rcases cs with _ | ⟨d, rest⟩
    · cases h
      exact ⟨[], rfl, fun _ => ⟨rfl, _, _, hzero⟩⟩
    · rcases zero_or_row_or_other d with rfl | hd | hd
      · cases h
      · rw [digits_row hd] at h
        split at h
        · cases h
        · -- the row of digits is too large, so the text is not bounded
          rename_i hlarge
          cases h
          refine ⟨[], rfl, fun hb => absurd ?_ hlarge⟩
          rw [decimal_eq_numeralValue]
          refine hb _ (List.prefix_cons_inj d |>.2 (List.takeWhile_prefix _)).isInfix fun c hc => ?_
          rcases List.mem_cons.1 hc with rfl | hc
          · exact ⟨Std.le_trans (by decide) hd.1, hd.2⟩
          · exact Grammar.isDigit_iff.1 (List.mem_takeWhile_imp hc)
      · rw [digits_other hd] at h
        cases h
        exact ⟨[], rfl, fun _ => ⟨rfl, _, _, hzero⟩⟩
  ok_ahead {u w t c n} v h := by
    rcases u with _ | ⟨d, u⟩
    · -- the numeral would have to pass the next character and keep it
      obtain ⟨ds, hds, -, hcs⟩ := digits_eq_ok h
      obtain ⟨d, tail, rfl, -⟩ := hds.exists_cons
      have hlen := congrArg List.length hcs
      simp only [List.nil_append, List.length_cons, List.length_append] at hlen
      omega
    · rcases zero_or_row_or_other d with rfl | hd | hd
      · injection h with h
        injection h with hn hrest
        rw [← hn, ← List.append_cancel_right hrest]
        rfl
      · rw [List.cons_append, digits_row hd] at h
        split at h
        · rename_i hlt
          injection h with h
          injection h with hn hrest
          obtain ⟨hdrop, htake⟩ := span_ahead hrest v
          rw [List.cons_append, digits_row hd, htake, hdrop, if_pos hlt, hn]
        · cases h
      · rw [List.cons_append, digits_other hd] at h
        cases h
  error_ahead {u w t c e} v h := by
    obtain ⟨d, rest, hcs, hcs'⟩ : ∃ d rest, u ++ c :: t = d :: rest ∧
        ∃ rest', u ++ c :: v = d :: rest' := by
      cases u <;> exact ⟨_, _, rfl, _, rfl⟩
    rcases zero_or_row_or_other d with rfl | hd | hd
    · rw [hcs] at h
      cases h
    · rw [hcs, digits_row hd] at h
      split at h
      · cases h
      · injection h with h
        injection h with _ hfound
        cases hfound
    · rw [hcs, digits_other hd, ← hcs] at h
      injection h with h
      injection h with hrest hfound
      obtain ⟨rest', hcs'⟩ := hcs'
      rw [← List.append_cancel_right hrest, hcs', digits_other hd, hfound]

theorem scans_number : Scans number Num := by
  refine Scans.mono (scans_blanks.bind blanks_eq_ok fun _ => scans_digits.bind ?_ fun n =>
    scans_blanks.bind blanks_eq_ok fun _ => scans_pure n) ?_
  · intro cs rest n h
    obtain ⟨ds, hds, hn, hcs⟩ := digits_eq_ok h
    exact ⟨ds, ⟨hds, hn⟩, hcs⟩
  · rintro _ n ⟨pre, _, _, hpre, ⟨ds, _, m, ⟨hds, hm⟩, hrest, rfl⟩, rfl⟩
    obtain ⟨post, _, _, hpost, ⟨rfl, rfl⟩, rfl⟩ := hrest
    rw [List.append_nil, ← List.append_assoc]
    exact .padded hpre hds hm hpost

/-! ### Labels and the keyword -/

theorem scans_label : Scans label Label := by
  refine Scans.mono ((scans_expect '"').bind expect_eq_ok_append fun _ =>
    (scans_takeWhile _).bind takeWhile_eq_ok fun cs =>
    (scans_expect '"').bind expect_eq_ok_append fun _ => scans_pure (String.ofList cs)) ?_
  rintro _ l ⟨_, _, _, rfl, ⟨cs, _, _, ⟨rfl, hcs⟩, ⟨_, _, _, rfl, ⟨rfl, rfl⟩, rfl⟩, rfl⟩, rfl⟩
  refine .quoted fun hmem => ?_
  simpa using hcs _ hmem

/-- The word in front of the header, where it has to stand. -/
def word : Reader Unit := do
  expect 'd'
  expect 'e'
  expect 's'
  blanks

theorem keyword_eq (cs : List Char) :
    keyword cs = if cs.head? = some 'd' then word cs else .ok ((), cs) := by
  unfold keyword
  split
  · rfl
  · rename_i hcs
    rw [if_neg]
    intro hhead
    obtain ⟨rest, rfl⟩ := List.head?_eq_some_iff.1 hhead
    exact hcs rest rfl

theorem scans_word : Scans word fun u _ => Keyword u := by
  refine Scans.mono ((scans_expect 'd').bind expect_eq_ok_append fun _ =>
    (scans_expect 'e').bind expect_eq_ok_append fun _ =>
    (scans_expect 's').bind expect_eq_ok_append fun _ => scans_blanks) ?_
  rintro _ _ ⟨_, _, _, rfl, ⟨_, _, _, rfl, ⟨_, post, _, rfl, hpost, rfl⟩, rfl⟩, rfl⟩
  exact .des hpost

theorem scans_keyword : Scans keyword fun u _ => Keyword u where
  inhabited := ⟨[], (), .none⟩
  suffix h := by
    obtain ⟨word, -, rfl⟩ := keyword_eq_ok h
    exact List.suffix_append _ _
  stopped h := by
    rw [keyword_eq] at h
    split at h
    · exact scans_word.stopped h
    · cases h
  ok_ahead {u w t c a} v h := by
    have hhead : (u ++ c :: v).head? = (u ++ c :: t).head? := by cases u <;> rfl
    rw [keyword_eq] at h ⊢
    rw [hhead]
    split at h
    · rename_i hd
      rw [if_pos hd]
      exact scans_word.ok_ahead v h
    · rename_i hd
      injection h with h
      injection h with _ hrest
      rw [if_neg hd, List.append_cancel_right hrest]
  error_ahead {u w t c d} v h := by
    have hhead : (u ++ c :: v).head? = (u ++ c :: t).head? := by cases u <;> rfl
    rw [keyword_eq] at h ⊢
    rw [hhead]
    split at h
    · rename_i hd
      rw [if_pos hd]
      exact scans_word.error_ahead v h
    · cases h

/-! ### The header and the transitions -/

/-- A header with the blanks around it. -/
def HeadLine (cs : List Char) (h : Header) : Prop :=
  ∃ pre word head post, AllBlank pre ∧ Keyword word ∧ Head head h ∧ AllBlank post ∧
    cs = pre ++ word ++ head ++ post

theorem scans_header : Scans header HeadLine := by
  refine Scans.mono (scans_blanks.bind blanks_eq_ok fun _ =>
    scans_keyword.bind keyword_eq_ok fun _ =>
    (scans_expect '(').bind expect_eq_ok_append fun _ =>
    scans_number.bind number_eq_ok fun first =>
    (scans_expect ',').bind expect_eq_ok_append fun _ =>
    scans_number.bind number_eq_ok fun count =>
    (scans_expect ',').bind expect_eq_ok_append fun _ =>
    scans_number.bind number_eq_ok fun states =>
    (scans_expect ')').bind expect_eq_ok_append fun _ => scans_blanks.bind blanks_eq_ok fun _ =>
    scans_pure (⟨first, count, states⟩ : Header)) ?_
  rintro _ h ⟨pre, _, _, hpre, ⟨word, _, _, hword, hrest, rfl⟩, rfl⟩
  obtain ⟨_, _, _, rfl, ⟨a, _, first, ha, ⟨_, _, _, rfl, hrest, rfl⟩, rfl⟩, rfl⟩ := hrest
  obtain ⟨b, _, count, hb, ⟨_, _, _, rfl, hrest, rfl⟩, rfl⟩ := hrest
  obtain ⟨c, _, states, hc, ⟨_, _, _, rfl, hrest, rfl⟩, rfl⟩ := hrest
  obtain ⟨post, _, _, hpost, ⟨rfl, rfl⟩, rfl⟩ := hrest
  exact ⟨pre, word, _, post, hpre, hword, .numbers ha hb hc, hpost, by simp⟩

/-- A transition with the blanks after it. -/
def ArrowLine (cs : List Char) (t : Transition) : Prop :=
  ∃ arrow post, Arrow arrow t ∧ AllBlank post ∧ cs = arrow ++ post

theorem scans_transition : Scans transition ArrowLine := by
  refine Scans.mono ((scans_expect '(').bind expect_eq_ok_append fun _ =>
    scans_number.bind number_eq_ok fun start =>
    (scans_expect ',').bind expect_eq_ok_append fun _ =>
    scans_blanks.bind blanks_eq_ok fun _ => scans_label.bind label_eq_ok fun label =>
    scans_blanks.bind blanks_eq_ok fun _ => (scans_expect ',').bind expect_eq_ok_append fun _ =>
    scans_number.bind number_eq_ok fun target =>
    (scans_expect ')').bind expect_eq_ok_append fun _ =>
    scans_blanks.bind blanks_eq_ok fun _ =>
    scans_pure (⟨start, label, target⟩ : Transition)) ?_
  rintro _ t ⟨_, _, _, rfl, ⟨a, _, start, ha, ⟨_, _, _, rfl, hrest, rfl⟩, rfl⟩, rfl⟩
  obtain ⟨pre, _, _, hpre, ⟨l, _, label, hl, ⟨post, _, _, hpost, hrest, rfl⟩, rfl⟩, rfl⟩ := hrest
  obtain ⟨_, _, _, rfl, ⟨b, _, target, hb, ⟨_, _, _, rfl, hrest, rfl⟩, rfl⟩, rfl⟩ := hrest
  obtain ⟨blank, _, _, hblank, ⟨rfl, rfl⟩, rfl⟩ := hrest
  exact ⟨_, blank, .parts ha hpre hl hpost hb, hblank, by simp⟩

theorem transition_eq_ok_append {cs rest : List Char} {t : Transition}
    (h : transition cs = .ok (t, rest)) : ∃ u, ArrowLine u t ∧ cs = u ++ rest := by
  obtain ⟨arrow, post, harrow, hpost, hcs⟩ := transition_eq_ok h
  exact ⟨arrow ++ post, ⟨arrow, post, harrow, hpost, rfl⟩, hcs⟩

/-- One more transition in front of others. -/
theorem ArrowLine.cons {cs rest : List Char} {t : Transition} {ts : List Transition}
    (h : ArrowLine cs t) (hrest : Arrows rest ts) : Arrows (cs ++ rest) (t :: ts) := by
  obtain ⟨arrow, post, harrow, hpost, rfl⟩ := h
  have hnil : AllBlank [] := by simp [AllBlank]
  exact .cons hnil harrow hpost hrest

theorem transitions_of_error {c : Char} {cs : List Char} {s : Stop}
    (h : transition (c :: cs) = .error s) (seen : Array Transition) :
    transitions seen (c :: cs) = .error s := by
  rw [transitions]
  split
  · rename_i heq
    rw [h] at heq
    cases heq
    rfl
  · rename_i heq
    rw [h] at heq
    cases heq

/-- **Where the transitions stop**, those passed over can be completed. -/
theorem transitions_stopped {seen : Array Transition} {cs : List Char} {s : Stop}
    (h : transitions seen cs = .error s) :
    ∃ u, cs = u ++ s.rest ∧
      (Bounded cs → s.found = s.rest.head? ∧ ∃ ext ts, Arrows (u ++ ext) ts) := by
  fun_induction transitions seen cs with
  | case1 seen => cases h
  | case2 seen c cs s' heq =>
    cases h
    obtain ⟨u, hu, hbounded⟩ := scans_transition.stopped heq
    refine ⟨u, hu, fun hb => ?_⟩
    obtain ⟨hfound, ext, t, hext⟩ := hbounded hb
    exact ⟨hfound, ext, [t], List.append_nil (u ++ ext) ▸ hext.cons .nil⟩
  | case3 seen c cs t rest heq ih =>
    obtain ⟨v, hv, hcs⟩ := transition_eq_ok_append heq
    obtain ⟨u, rfl, hbounded⟩ := ih h
    refine ⟨v ++ u, by rw [hcs, List.append_assoc], fun hb => ?_⟩
    obtain ⟨hfound, ext, ts, hext⟩ := hbounded (hb.suffix ⟨v, hcs.symm⟩)
    exact ⟨hfound, ext, t :: ts, List.append_assoc v u ext ▸ hv.cons hext⟩

/-- **What comes after the character at which they stop does not matter.** -/
theorem transitions_ahead {seen : Array Transition} {u w t : List Char} {c d : Char}
    (h : transitions seen (u ++ c :: t) = .error ⟨w ++ c :: t, some d⟩) (v : List Char) :
    transitions seen (u ++ c :: v) = .error ⟨w ++ c :: v, some d⟩ := by
  induction hlen : u.length using Nat.strongRecOn generalizing seen u with
  | ind k ih =>
    obtain ⟨x, rest, hcs, rest', hcs'⟩ : ∃ x rest, u ++ c :: t = x :: rest ∧
        ∃ rest', u ++ c :: v = x :: rest' := by
      cases u <;> exact ⟨_, _, rfl, _, rfl⟩
    cases hread : transition (u ++ c :: t) with
    | error s =>
      rw [hcs, transitions_of_error (hcs ▸ hread)] at h
      cases h
      rw [hcs', transitions_of_error (hcs' ▸ scans_transition.error_ahead v hread)]
    | ok p =>
      obtain ⟨a, left⟩ := p
      rw [hcs, transitions_cons (hcs ▸ hread)] at h
      obtain ⟨y, rfl, -⟩ := transitions_stopped h
      have hshort := length_transition hread
      dsimp only at h hread hshort
      rw [← List.append_assoc] at h hread
      rw [hcs', transitions_cons (hcs' ▸ scans_transition.ok_ahead v hread)]
      refine ih _ ?_ h rfl
      simp only [List.length_append, List.length_cons] at hshort ⊢
      omega

/-! ### Whole texts -/

theorem readChars_of_error {cs : List Char} {s : Stop} (h : header cs = .error s) :
    readChars cs = .error s := by
  rw [readChars, h]
  rfl

/-- The header or the transitions are at fault. -/
theorem readChars_eq_error {cs : List Char} {s : Stop} (h : readChars cs = .error s) :
    header cs = .error s ∨
      ∃ head rest, header cs = .ok (head, rest) ∧ transitions #[] rest = .error s := by
  rcases hheader : header cs with s' | ⟨head, rest⟩
  · rw [readChars_of_error hheader] at h
    cases h
    exact .inl rfl
  · rw [readChars_of_ok hheader] at h
    rcases hts : transitions #[] rest with s' | ts <;> rw [hts] at h <;> cases h
    exact .inr ⟨head, rest, rfl, hts⟩

theorem readChars_stopped {cs : List Char} {s : Stop} (h : readChars cs = .error s)
    (hb : Bounded cs) : s.found = s.rest.head? ∧ ∃ u, cs = u ++ s.rest ∧ Viable u := by
  rcases readChars_eq_error h with hstop | ⟨head, rest, hhead, hstop⟩
  · obtain ⟨u, hu, hbounded⟩ := scans_header.stopped hstop
    obtain ⟨hfound, ext, head, pre, word, hd, post, hpre, hword, hhd, hpost, hext⟩ := hbounded hb
    refine ⟨hfound, u, hu, ext, head, [], ?_⟩
    rw [hext, ← List.append_nil (pre ++ word ++ hd ++ post)]
    exact .text hpre hword hhd hpost .nil
  · obtain ⟨pre, word, hd, post, hpre, hword, hhd, hpost, rfl⟩ := header_eq_ok hhead
    obtain ⟨u, rfl, hbounded⟩ := transitions_stopped hstop
    obtain ⟨hfound, ext, ts, hext⟩ := hbounded (hb.suffix (List.suffix_append _ _))
    refine ⟨hfound, pre ++ word ++ hd ++ post ++ u, by simp, ext, head, ts, ?_⟩
    rw [List.append_assoc _ u ext]
    exact .text hpre hword hhd hpost hext

theorem readChars_ahead {u t : List Char} {c : Char}
    (h : readChars (u ++ c :: t) = .error ⟨c :: t, some c⟩) (v : List Char) :
    readChars (u ++ c :: v) = .error ⟨c :: v, some c⟩ := by
  rcases readChars_eq_error h with hstop | ⟨head, rest, hhead, hstop⟩
  · exact readChars_of_error (scans_header.error_ahead (w := []) v hstop)
  · obtain ⟨x, rfl, -⟩ := transitions_stopped hstop
    rw [readChars_of_ok (scans_header.ok_ahead v hhead),
      transitions_ahead (w := []) hstop v]
    rfl

/-- **Reading stops at the place at fault.** -/
theorem readChars_faultAt {cs : List Char} {s : Stop} (h : readChars cs = .error s)
    (hb : Bounded cs) :
    FaultAt cs (cs.length - s.rest.length) ∧ s.found = cs[cs.length - s.rest.length]? := by
  obtain ⟨hfound, u, rfl, hviable⟩ := readChars_stopped h hb
  have hlen : (u ++ s.rest).length - s.rest.length = u.length := by simp
  rw [hlen]
  refine ⟨⟨by simp, by rwa [List.take_left], fun hlt => ?_⟩, ?_⟩
  · rintro ⟨ext, head, ts, hdoc⟩
    obtain ⟨rest, found⟩ := s
    dsimp only at *
    rcases rest with _ | ⟨c, rest⟩
    · simp at hlt
    · subst hfound
      have hstop := readChars_ahead h ext
      have htake : (u ++ c :: rest).take (u.length + 1) ++ ext = u ++ c :: ext := by
        rw [List.take_append]
        simp
      rw [htake, ← readChars_eq_ok_iff, hstop] at hdoc
      cases hdoc
  · rw [hfound, List.getElem?_append_right (Nat.le_refl _), Nat.sub_self, List.head?_eq_getElem?]

end Aldebaran

/-! ### Lines -/

namespace Text

/-- **The line around a place** of a text: all characters up to the line feeds on either side. -/
def lineAt (cs : List Char) (p : Nat) : List Char :=
  (cs.take p).rtakeWhile (· ≠ '\n') ++ (cs.drop p).takeWhile (· ≠ '\n')

theorem getElem?_consFirst_zero (c : Char) (ls : List (List Char)) :
    (consFirst c ls)[0]? = some (c :: ls.headD []) := by
  cases ls <;> rfl

theorem getElem?_consFirst_succ (c : Char) (ls : List (List Char)) (i : Nat) :
    (consFirst c ls)[i + 1]? = ls[i + 1]? := by
  cases ls <;> rfl

/-- A character in front of others does not matter if one of them all ends the row. -/
theorem rtakeWhile_cons {p : Char → Bool} {c : Char} {cs : List Char}
    (hall : ¬∀ d ∈ c :: cs, p d = true) : (c :: cs).rtakeWhile p = cs.rtakeWhile p := by
  rw [List.rtakeWhile, List.reverse_cons, List.takeWhile_append]
  split
  · rename_i hlen
    have hcs : ∀ d ∈ cs, p d = true := by
      have heq := (List.takeWhile_prefix p (l := cs.reverse)).eq_of_length hlen
      exact fun d hd => List.mem_takeWhile_imp (heq ▸ List.mem_reverse.2 hd)
    have hc : ¬p c = true := fun hc => hall (List.forall_mem_cons.2 ⟨hc, hcs⟩)
    rw [List.takeWhile_cons_of_neg hc, List.append_nil, List.reverse_reverse]
    exact (List.rtakeWhile_eq_self_iff.2 hcs).symm
  · rfl

/-- The piece around a place is the one with as many line feeds before it. -/
theorem getElem?_segments (pre rest : List Char) :
    (segments (pre ++ rest))[lineFeeds pre]? =
      some (pre.rtakeWhile (· ≠ '\n') ++ rest.takeWhile (· ≠ '\n')) := by
  induction pre with
  | nil =>
    rw [List.nil_append, List.rtakeWhile_nil, List.nil_append]
    change (segments rest)[0]? = _
    induction rest with
    | nil => rfl
    | cons c rest ih =>
      by_cases hc : c = '\n'
      · subst hc
        rw [segments_cons_lineFeed]
        rfl
      · have hhead : (segments rest).headD [] = rest.takeWhile (· ≠ '\n') := by
          rw [List.headD_eq_head?_getD, List.head?_eq_getElem?, ih]
          rfl
        rw [segments_cons hc, getElem?_consFirst_zero, hhead,
          List.takeWhile_cons_of_pos (by simpa using hc)]
  | cons c pre ih =>
    by_cases hc : c = '\n'
    · subst hc
      have hfeeds : lineFeeds ('\n' :: pre) = lineFeeds pre + 1 := List.count_cons_self
      rw [List.cons_append, segments_cons_lineFeed, hfeeds, List.getElem?_cons_succ, ih,
        rtakeWhile_cons]
      exact fun hall => by simpa using hall '\n' List.mem_cons_self
    · have hfeeds : lineFeeds (c :: pre) = lineFeeds pre := List.count_cons_of_ne hc
      rw [List.cons_append, segments_cons hc, hfeeds]
      cases hcount : lineFeeds pre with
      | zero =>
        -- no line feed so far, so the character belongs to the piece
        have hpre : ∀ d ∈ pre, decide (d ≠ '\n') = true := by
          intro d hd
          rw [decide_eq_true_iff]
          rintro rfl
          exact List.count_eq_zero.1 hcount hd
        rw [hcount] at ih
        have hhead : (segments (pre ++ rest)).headD [] = pre ++ rest.takeWhile (· ≠ '\n') := by
          rw [List.headD_eq_head?_getD, List.head?_eq_getElem?, ih,
            List.rtakeWhile_eq_self_iff.2 hpre]
          rfl
        rw [getElem?_consFirst_zero, hhead,
          List.rtakeWhile_eq_self_iff.2 (List.forall_mem_cons.2 ⟨by simpa using hc, hpre⟩)]
        rfl
      | succ i =>
        rw [getElem?_consFirst_succ, ← hcount, ih, rtakeWhile_cons]
        intro hall
        have hmem : '\n' ∈ pre := List.count_pos_iff.1 (by rw [← lineFeeds, hcount]; omega)
        simpa using hall '\n' (List.mem_cons_of_mem _ hmem)

/-- **The lines of a text hold the line around a place**, but for blanks at its ends; where there is
no such line, it is empty. -/
theorem trim_lines_eq {cs : List Char} (p : Nat) :
    trim ((lines cs)[lineFeeds (cs.take p)]?.getD []) = trim (lineAt cs p) := by
  have hseg := getElem?_segments (cs.take p) (cs.drop p)
  rw [List.take_append_drop, ← lineAt] at hseg
  obtain ⟨hlt, hget⟩ := List.getElem?_eq_some_iff.1 hseg
  generalize lineFeeds (cs.take p) = i at *
  rw [lines]
  rcases Nat.lt_or_ge i ((segments cs).length - 1) with hi | hi
  · rw [List.getElem?_append_left (by simpa using hi), List.getElem?_map,
      List.getElem?_dropLast, if_pos hi, hseg]
    exact trim_dropReturn _
  · have hlast : (segments cs).getLast? = some (lineAt cs p) := by
      rw [List.getLast?_eq_getElem?, ← hseg]
      congr 1
      omega
    rw [List.getElem?_append_right (by simpa using hi), hlast, List.length_map,
      List.length_dropLast, Nat.sub_eq_zero_of_le (by omega)]
    cases lineAt cs p <;> rfl

end Text

namespace Aldebaran

/-! ### What is reported -/

/-- A text with few characters has small numbers only. -/
theorem bounded_of_length_le {cs : List Char} (h : cs.length ≤ 19) : Bounded cs := by
  intro ds hds hdigits
  have hlt : numeralValue ds < 10 ^ ds.length := by
    have hbase := Nat.ofDigits_lt_base_pow_length
      (b := 10) (l := ds.reverse.map fun d => d.toNat - '0'.toNat) (by decide) ?_
    · simpa [numeralValue] using hbase
    · intro n hn
      obtain ⟨d, hd, rfl⟩ := List.mem_map.1 hn
      have hhigh := (hdigits d (List.mem_reverse.1 hd)).2
      rw [Char.le_def, UInt32.le_iff_toNat_le] at hhigh
      have hle : d.toNat ≤ 57 := hhigh
      have hzero : '0'.toNat = 48 := rfl
      omega
  calc numeralValue ds < 10 ^ ds.length := hlt
    _ ≤ 10 ^ 19 := Nat.pow_le_pow_right (by decide) (hds.length_le.trans h)
    _ ≤ numberBound := by decide

theorem parse_of_error {s : String} {stop : Stop} (h : readChars s.toList = .error stop) :
    parse s = .error (.malformed (locate s.toList stop)) := by
  rw [parse, parseWithin, read, h]
  rfl

/-- **A text that is refused is reported at its first character that cannot be continued**: a text
without a reading, and with small numbers only, is at fault in exactly one place, and the report
tells the line around that place, with its number, and the character there. -/
theorem parse_malformed_at {s : String} (hdoc : ∀ h ts, ¬Document s.toList h ts)
    (hb : Bounded s.toList) :
    ∃ p, FaultAt s.toList p ∧ (∀ q, FaultAt s.toList q → q = p) ∧
      Text.trim ((Text.lines s.toList)[(s.toList.take p).count '\n']?.getD []) =
        Text.trim (Text.lineAt s.toList p) ∧
      parse s = .error (.malformed
        { line := 1 + (s.toList.take p).count '\n'
          text := String.ofList (Text.trim (Text.lineAt s.toList p))
          found := s.toList[p]? }) := by
  rcases hread : readChars s.toList with stop | ⟨h, ts⟩
  · obtain ⟨hfault, hfound⟩ := readChars_faultAt hread hb
    refine ⟨_, hfault, fun q hq => hq.unique hfault, Text.trim_lines_eq _, ?_⟩
    rw [parse_of_error hread, locate, Text.trim_lines_eq, hfound, Nat.add_comm]
    rfl
  · exact absurd (readChars_eq_ok_iff.1 hread) (hdoc h ts)

/-- A label without its quotes, on the second line. -/
theorem parse_malformed_at_label :
    FaultAt "des (0,1,2)\n(0,x".toList 15 ∧
      parse "des (0,1,2)\n(0,x" = .error (.malformed ⟨2, "(0,x", some 'x'⟩) := by
  have hheader : header "des (0,1,2)\n(0,x".toList = .ok (⟨0, 1, 2⟩, "(0,x".toList) := rfl
  have hread : readChars "des (0,1,2)\n(0,x".toList = .error ⟨['x'], some 'x'⟩ := by
    rw [readChars_of_ok hheader]
    exact congrArg _ (transitions_of_error rfl #[])
  have hb : Bounded "des (0,1,2)\n(0,x".toList := bounded_of_length_le (by decide)
  have hfault : FaultAt "des (0,1,2)\n(0,x".toList 15 := (readChars_faultAt hread hb).1
  obtain ⟨p, -, hunique, -, hparse⟩ := parse_malformed_at (s := "des (0,1,2)\n(0,x") (by
    intro h ts hdoc
    rw [← readChars_eq_ok_iff, hread] at hdoc
    cases hdoc) hb
  obtain rfl := hunique 15 hfault
  exact ⟨hfault, hparse⟩

end Aldebaran

end ModalMu
