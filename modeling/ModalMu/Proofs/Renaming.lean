import Mathlib.Data.List.Forall2
import Mathlib.Logic.Relator
import ModalMu.Proofs.EmersonLei
import ModalMu.Proofs.Lockstep
import ModalMu.Proofs.Occurrences

/-!
# Names and numbers of binders

Which variable a fixpoint binds and which number it has does not matter, as long as every occurrence
of a variable refers to the same fixpoint as before. The solvers keep values by name, by number, or
by a search through the enclosing fixpoints; they take the same rounds all the same.

* `Reference`, `Occurrence.reference` — what an occurrence refers to: the innermost fixpoint above
  it on its variable, given by how far away it is, or else the variable itself;
* `Formula.AlphaEq` — two formulas of one shape whose occurrences have the same references;
* `Renamed` — the same as a relation on formulas inside fixpoints, construct by construct, with the
  numbers of corresponding fixpoints related as well;
* `Renamed.freeOccurrences`, `Renamed.fixpoints` — corresponding formulas have corresponding free
  variables, and **the dependency analysis sees the same in both**;
* `Naive.eval_renamed`, `EmersonLei.eval_renamed` — **the evaluation of one formula follows that of
  the other**, round by round;
* `solve_renamed` — the whole runs.
-/

namespace ModalMu

/-! ### References -/

/-- **What an occurrence of a variable refers to.** -/
inductive Reference where
  /-- the fixpoint above it that has so many others in between -/
  | bound (distance : Nat)
  /-- no fixpoint; what the variable stands for comes from outside -/
  | free (x : Var)
  deriving DecidableEq, Repr

/-- **The innermost fixpoint on the variable**, among fixpoints on the variables of `scope`,
innermost first. -/
def resolve (scope : List Var) (x : Var) : Reference :=
  match scope.findIdx? (· == x) with
  | some distance => .bound distance
  | none => .free x

theorem resolve_nil_inj {x y : Var} : resolve [] x = resolve [] y ↔ x = y := by
  rw [resolve, resolve, List.findIdx?_nil, List.findIdx?_nil, Reference.free.injEq]

/-- Two references inside one more fixpoint are the same if both are to this one, or neither is and
they are the same outside. -/
theorem resolve_cons_eq_iff {scope scope' : List Var} {v v' x y : Var} :
    resolve (v :: scope) x = resolve (v' :: scope') y ↔
      (v = x ∧ v' = y) ∨ (v ≠ x ∧ v' ≠ y ∧ resolve scope x = resolve scope' y) := by
  simp only [resolve, List.findIdx?_cons]
  by_cases hx : v = x <;> by_cases hy : v' = y <;>
    rcases scope.findIdx? (· == x) with _ | i <;> rcases scope'.findIdx? (· == y) with _ | j <;>
    simp [hx, hy]

namespace Occurrence

/-- What the occurrence refers to when its formula stands inside fixpoints on the variables of
`scope`. -/
def referenceIn (scope : List Var) (o : Occurrence) : Reference :=
  resolve ((o.above.map (·.var)).reverse ++ scope) o.var

/-- **What the occurrence refers to.** -/
def reference (o : Occurrence) : Reference := resolve (o.above.map (·.var)).reverse o.var

theorem referenceIn_nil (o : Occurrence) : o.referenceIn [] = o.reference := by
  rw [referenceIn, List.append_nil, reference]

theorem referenceIn_under (b : Binder) (scope : List Var) (o : Occurrence) :
    (o.under b).referenceIn scope = o.referenceIn (b.var :: scope) := by
  simp [referenceIn, under]

end Occurrence

namespace Formula

/-- The formula with all its variables and numbers made the same. -/
def skeleton : Formula → Formula
  | tt => tt
  | ff => ff
  | var _ => var 'X'
  | and l r => and l.skeleton r.skeleton
  | or l r => or l.skeleton r.skeleton
  | dia a f => dia a f.skeleton
  | box a f => box a f.skeleton
  | fix k _ body => fix k ⟨0, 'X'⟩ body.skeleton

/-- **Two formulas differ in names and numbers of binders only**: they have the same shape, and each
occurrence of a variable refers to the fixpoint at the same position, or to the same variable. -/
def AlphaEq (f f' : Formula) : Prop :=
  f.skeleton = f'.skeleton ∧ f.occurrences.map (·.reference) = f'.occurrences.map (·.reference)
  deriving Decidable

/-- The outer fixpoint cannot take the name of the inner one, which would capture the occurrence. -/
example : ¬ AlphaEq (fix .least ⟨0, 'X'⟩ (fix .greatest ⟨1, 'Y'⟩ (var 'X')))
    (fix .least ⟨0, 'Y'⟩ (fix .greatest ⟨1, 'Y'⟩ (var 'Y'))) := by decide

theorem length_occurrences_skeleton (f : Formula) :
    f.skeleton.occurrences.length = f.occurrences.length := by
  induction f with
  | tt | ff | var _ => rfl
  | and l r ihl ihr | or l r ihl ihr =>
    simp only [skeleton, occurrences, List.length_append, ihl, ihr]
  | dia a f ih | box a f ih => exact ih
  | fix k b body ih => simp only [skeleton, occurrences, List.length_map, ih]

theorem length_fixpoints_skeleton (f : Formula) :
    f.skeleton.fixpoints.length = f.fixpoints.length := by
  induction f with
  | tt | ff | var _ => rfl
  | and l r ihl ihr | or l r ihl ihr =>
    simp only [skeleton, fixpoints, List.length_append, ihl, ihr]
  | dia a f ih | box a f ih => exact ih
  | fix k b body ih => simp only [skeleton, fixpoints, List.length_append, List.length_cons, ih]

theorem length_fixpoints_eq {f f' : Formula} (h : f.skeleton = f'.skeleton) :
    f.fixpoints.length = f'.fixpoints.length := by
  rw [← f.length_fixpoints_skeleton, h, f'.length_fixpoints_skeleton]

end Formula

/-! ### Corresponding formulas -/

/-- **Two formulas correspond** inside fixpoints on the given variables, innermost first: they have
the same shape, occurrences at the same place have the same reference, and the numbers of fixpoints
at the same place are related by `R`. -/
inductive Renamed (R : Nat → Nat → Prop) : List Var → List Var → Formula → Formula → Prop
  | tt {scope scope' : List Var} : Renamed R scope scope' .tt .tt
  | ff {scope scope' : List Var} : Renamed R scope scope' .ff .ff
  | var {scope scope' : List Var} {x y : Var} (h : resolve scope x = resolve scope' y) :
    Renamed R scope scope' (.var x) (.var y)
  | and {scope scope' : List Var} {l l' r r' : Formula} (hl : Renamed R scope scope' l l')
    (hr : Renamed R scope scope' r r') : Renamed R scope scope' (.and l r) (.and l' r')
  | or {scope scope' : List Var} {l l' r r' : Formula} (hl : Renamed R scope scope' l l')
    (hr : Renamed R scope scope' r r') : Renamed R scope scope' (.or l r) (.or l' r')
  | dia {scope scope' : List Var} {a : String} {f f' : Formula} (h : Renamed R scope scope' f f') :
    Renamed R scope scope' (.dia a f) (.dia a f')
  | box {scope scope' : List Var} {a : String} {f f' : Formula} (h : Renamed R scope scope' f f') :
    Renamed R scope scope' (.box a f) (.box a f')
  | fix {scope scope' : List Var} {k : Kind} {b b' : Binder} {body body' : Formula}
    (hid : R b.id b'.id) (h : Renamed R (b.var :: scope) (b'.var :: scope') body body') :
    Renamed R scope scope' (.fix k b body) (.fix k b' body')

section

variable {R : Nat → Nat → Prop} {scope scope' : List Var} {f f' l l' r r' : Formula}

/-- The references and the fixpoints of two sides belong together side by side. -/
theorem split_sides (hl : l.skeleton = l'.skeleton)
    (hrefs : (l.occurrences ++ r.occurrences).map (·.referenceIn scope) =
      (l'.occurrences ++ r'.occurrences).map (·.referenceIn scope'))
    (hids : ∀ e ∈ (l.fixpoints ++ r.fixpoints).zip (l'.fixpoints ++ r'.fixpoints),
      R e.1.binder.id e.2.binder.id) :
    (l.occurrences.map (·.referenceIn scope) = l'.occurrences.map (·.referenceIn scope') ∧
      ∀ e ∈ l.fixpoints.zip l'.fixpoints, R e.1.binder.id e.2.binder.id) ∧
    r.occurrences.map (·.referenceIn scope) = r'.occurrences.map (·.referenceIn scope') ∧
      ∀ e ∈ r.fixpoints.zip r'.fixpoints, R e.1.binder.id e.2.binder.id := by
  have hoccurrences : l.occurrences.length = l'.occurrences.length := by
    rw [← l.length_occurrences_skeleton, hl, l'.length_occurrences_skeleton]
  rw [List.map_append, List.map_append] at hrefs
  obtain ⟨hleft, hright⟩ := List.append_inj hrefs (by simpa using hoccurrences)
  rw [List.zip_append (Formula.length_fixpoints_eq hl)] at hids
  exact ⟨⟨hleft, fun e he => hids e (List.mem_append_left _ he)⟩, hright,
    fun e he => hids e (List.mem_append_right _ he)⟩

/-- **Formulas with the same shape and the same references correspond.** -/
theorem renamed_of_references (hshape : f.skeleton = f'.skeleton)
    (hrefs : f.occurrences.map (·.referenceIn scope) = f'.occurrences.map (·.referenceIn scope'))
    (hids : ∀ e ∈ f.fixpoints.zip f'.fixpoints, R e.1.binder.id e.2.binder.id) :
    Renamed R scope scope' f f' := by
  induction f generalizing f' scope scope' with
  | tt => cases f' <;> cases hshape; exact .tt
  | ff => cases f' <;> cases hshape; exact .ff
  | var x =>
    cases f' with
    | var y => exact .var (List.cons.inj hrefs).1
    | _ => cases hshape
  | and l r ihl ihr =>
    cases f' with
    | and l' r' =>
      obtain ⟨hl, hr⟩ := Formula.and.inj hshape
      obtain ⟨hleft, hright⟩ := split_sides hl hrefs hids
      exact .and (ihl hl hleft.1 hleft.2) (ihr hr hright.1 hright.2)
    | _ => cases hshape
  | or l r ihl ihr =>
    cases f' with
    | or l' r' =>
      obtain ⟨hl, hr⟩ := Formula.or.inj hshape
      obtain ⟨hleft, hright⟩ := split_sides hl hrefs hids
      exact .or (ihl hl hleft.1 hleft.2) (ihr hr hright.1 hright.2)
    | _ => cases hshape
  | dia a f ih =>
    cases f' with
    | dia a' f' =>
      obtain ⟨rfl, hf⟩ := Formula.dia.inj hshape
      exact .dia (ih hf hrefs hids)
    | _ => cases hshape
  | box a f ih =>
    cases f' with
    | box a' f' =>
      obtain ⟨rfl, hf⟩ := Formula.box.inj hshape
      exact .box (ih hf hrefs hids)
    | _ => cases hshape
  | fix k b body ih =>
    cases f' with
    | fix k' b' body' =>
      obtain ⟨rfl, -, hbody⟩ := Formula.fix.inj hshape
      rw [Formula.fixpoints, Formula.fixpoints,
        List.zip_append (Formula.length_fixpoints_eq hbody)] at hids
      refine .fix (hids _ (List.mem_append_right _ List.mem_cons_self)) (ih hbody ?_ fun e he =>
        hids e (List.mem_append_left _ he))
      simpa only [Formula.occurrences, List.map_map, Function.comp_def,
        Occurrence.referenceIn_under] using hrefs
    | _ => cases hshape

end

/-! ### What the analysis sees -/

/-- Lists that belong together place by place still do after corresponding choices. -/
theorem forall₂_filter {α β : Type} {P Q : α → β → Prop} {p : α → Bool} {q : β → Bool}
    {as : List α} {bs : List β} (h : List.Forall₂ P as bs) (hchoice : ∀ a b, P a b → p a = q b)
    (hkept : ∀ a b, P a b → p a = true → Q a b) : List.Forall₂ Q (as.filter p) (bs.filter q) := by
  induction h with
  | nil => exact .nil
  | @cons a b _ _ hab _ ih =>
    rw [List.filter_cons, List.filter_cons, ← hchoice a b hab]
    split
    · rename_i hpa
      exact .cons (hkept a b hab hpa) ih
    · exact ih

/-- A fixpoint is open when it has a free occurrence. -/
theorem Fixpoint.isOpen_iff_length_pos {g : Fixpoint} :
    g.isOpen = true ↔ 0 < g.toFormula.freeOccurrences.length := by
  rw [isOpen, Formula.freeVars_eq, Bool.not_eq_true', List.isEmpty_eq_false_iff_exists_mem,
    List.length_pos_iff_exists_mem]
  exact exists_congr fun _ => mem_distinct

/-- **What the analysis sees of two nodes is the same**, and their numbers are related. -/
structure Fixpoint.Counterpart (R : Nat → Nat → Prop) (g g' : Fixpoint) : Prop where
  /-- they have the same kind -/
  kind : g.kind = g'.kind
  /-- both are open, or none is -/
  isOpen : g.isOpen = g'.isOpen
  /-- the numbers -/
  ids : R g.binder.id g'.binder.id

namespace Renamed

variable {R : Nat → Nat → Prop} {scope scope' : List Var} {f f' body body' : Formula} {k : Kind}
  {b b' : Binder}

/-- **Free occurrences at the same place** have the same reference outside the formula. -/
theorem freeOccurrences (h : Renamed R scope scope' f f') :
    List.Forall₂ (fun x y => resolve scope x = resolve scope' y) f.freeOccurrences
      f'.freeOccurrences := by
  induction h with
  | tt | ff => exact .nil
  | var h => exact .cons h .nil
  | and _ _ ihl ihr | or _ _ ihl ihr => exact List.rel_append ihl ihr
  | dia _ ih | box _ ih => exact ih
  | fix _ _ ih =>
    -- an occurrence refers to this fixpoint if its counterpart does
    refine forall₂_filter ih (fun x y hxy => ?_) fun x y hxy hx => ?_
    · rcases resolve_cons_eq_iff.1 hxy with ⟨rfl, rfl⟩ | ⟨hx, hy, -⟩
      · simp
      · simp [Ne.symm hx, Ne.symm hy]
    · rcases resolve_cons_eq_iff.1 hxy with ⟨rfl, -⟩ | ⟨-, -, houtside⟩
      · simp at hx
      · exact houtside

theorem freeOccurrences_eq (h : Renamed R [] [] f f') : f.freeOccurrences = f'.freeOccurrences := by
  have hsame : List.Forall₂ Eq f.freeOccurrences f'.freeOccurrences :=
    h.freeOccurrences.imp fun _ _ => resolve_nil_inj.1
  rwa [List.forall₂_eq_eq_eq] at hsame

/-- Corresponding fixpoints are both open, or none is. -/
theorem isOpen_eq (h : Renamed R scope scope' (.fix k b body) (.fix k b' body')) :
    Fixpoint.isOpen ⟨k, b, body⟩ = Fixpoint.isOpen ⟨k, b', body'⟩ := by
  rw [Bool.eq_iff_iff, Fixpoint.isOpen_iff_length_pos, Fixpoint.isOpen_iff_length_pos,
    Fixpoint.toFormula, Fixpoint.toFormula, h.freeOccurrences.length_eq]

/-- **The nodes of corresponding formulas are counterparts**, one by one. -/
theorem fixpoints (h : Renamed R scope scope' f f') :
    List.Forall₂ (Fixpoint.Counterpart R) f.fixpoints f'.fixpoints := by
  induction h with
  | tt | ff | var _ => exact .nil
  | and _ _ ihl ihr | or _ _ ihl ihr => exact List.rel_append ihl ihr
  | dia _ ih | box _ ih => exact ih
  | fix hid hbody ih =>
    exact List.rel_append ih (.cons ⟨rfl, (Renamed.fix hid hbody).isOpen_eq, hid⟩ .nil)

/-- **The same fixpoints are stale** on entering corresponding ones. -/
theorem stale (h : Renamed R scope scope' (.fix k b body) (.fix k b' body')) :
    List.Forall₂ R (Solver.EmersonLei.stale b (Fixpoint.info ⟨k, b, body⟩))
      (Solver.EmersonLei.stale b' (Fixpoint.info ⟨k, b', body'⟩)) := by
  have hopen : (Fixpoint.info ⟨k, b, body⟩).isOpen = (Fixpoint.info ⟨k, b', body'⟩).isOpen :=
    h.isOpen_eq
  obtain _ | _ | _ | _ | _ | _ | _ | ⟨hid, hbody⟩ := h
  refine List.rel_append ?_ ?_
  · rw [hopen]
    split
    · exact .cons hid .nil
    · exact .nil
  · simp only [Fixpoint.info, List.forall₂_map_left_iff, List.forall₂_map_right_iff]
    refine forall₂_filter hbody.fixpoints (fun g g' hg => ?_) fun g g' hg _ => hg.ids
    rw [hg.kind, hg.isOpen]

end Renamed

/-! ### Numbers at the same place -/

/-- The numbers of the fixpoints at the same place of two formulas. -/
def Formula.Matched (f f' : Formula) (i j : Nat) : Prop :=
  ∃ e ∈ f.fixpoints.zip f'.fixpoints, e.1.binder.id = i ∧ e.2.binder.id = j

/-- **Formulas that differ in names and numbers only correspond**, outside all fixpoints and with
the numbers at the same place related. -/
theorem Formula.AlphaEq.renamed {f f' : Formula} (h : f.AlphaEq f') :
    Renamed (f.Matched f') [] [] f f' := by
  refine renamed_of_references h.1 ?_ fun e he => ⟨e, he, rfl, rfl⟩
  simp only [Occurrence.referenceIn_nil]
  exact h.2

/-- Distinct numbers are related one to one. -/
theorem Renamed.biUnique_matched {R : Nat → Nat → Prop} {scope scope' : List Var} {f f' : Formula}
    (h : Renamed R scope scope' f f') (hids : f.binderIds.Nodup) (hids' : f'.binderIds.Nodup) :
    Relator.BiUnique (f.Matched f') := by
  have hlength : f.fixpoints.length = f'.fixpoints.length := h.fixpoints.length_eq
  rw [Formula.binderIds, ← List.map_fst_zip hlength.le, List.map_map] at hids
  rw [Formula.binderIds, ← List.map_snd_zip hlength.ge, List.map_map] at hids'
  refine ⟨?_, ?_⟩
  · rintro _ _ _ ⟨e₁, he₁, rfl, hsame₁⟩ ⟨e₂, he₂, rfl, hsame₂⟩
    rw [List.inj_on_of_nodup_map hids' he₁ he₂ (hsame₁.trans hsame₂.symm)]
  · rintro _ _ _ ⟨e₁, he₁, hsame₁, rfl⟩ ⟨e₂, he₂, hsame₂, rfl⟩
    rw [List.inj_on_of_nodup_map hids he₁ he₂ (hsame₁.trans hsame₂.symm)]

namespace Solver

variable {R : Nat → Nat → Prop} {fits : Nat → Bool} {first n limit : Nat}
  {ts : List Transition} {lts : Lts} {f f' : Formula}

/-! ### Naive evaluation -/

/-- **Values by name that agree**: variables with the same reference have the same value. -/
def Agree (scope scope' : List Var) (env env' : Bindings) : Prop :=
  ∀ x y, resolve scope x = resolve scope' y → env[x]? = env'[y]?

theorem agree_nil (env : Bindings) : Agree [] [] env env := by
  intro x y hxy
  rw [resolve_nil_inj.1 hxy]

theorem Agree.insert {scope scope' : List Var} {env env' : Bindings}
    (h : Agree scope scope' env env') (v v' : Var) (s : StateSet) :
    Agree (v :: scope) (v' :: scope') (env.insert v s) (env'.insert v' s) := by
  intro x y hxy
  simp only [Std.TreeMap.getElem?_insert, Std.compare_eq_iff_eq]
  rcases resolve_cons_eq_iff.1 hxy with ⟨hx, hy⟩ | ⟨hx, hy, houtside⟩
  · rw [if_pos hx, if_pos hy]
  · rw [if_neg hx, if_neg hy, h x y houtside]

/-- **Naive evaluation of a corresponding formula** takes the same rounds. -/
theorem Naive.eval_renamed {scope scope' : List Var} (h : Renamed R scope scope' f f')
    {env env' : Bindings} (henv : Agree scope scope' env env') :
    Follows (Alike fun _ _ => True) Eq (Naive.eval lts limit f env)
      (Naive.eval lts limit f' env') := by
  induction h generalizing env env' with
  | tt | ff => exact .pure rfl
  | var h =>
    rw [Naive.eval, Naive.eval, henv _ _ h]
    exact .require fun s hs => ⟨s, hs, rfl⟩
  | and _ _ ihl ihr | or _ _ ihl ihr =>
    refine (ihl henv).bind ?_
    rintro a _ rfl
    refine (ihr henv).bind ?_
    rintro b _ rfl
    exact .combine fun s hs => ⟨s, hs, rfl⟩
  | dia _ ih | box _ ih =>
    refine (ih henv).bind ?_
    rintro s _ rfl
    exact .pure rfl
  | @fix _ _ _ b b' _ _ _ _ ih =>
    refine (follows_countResets 1).bind fun _ _ _ => (follows_note _ _).bind fun _ _ _ => ?_
    refine settle_follows ?_ ?_ ?_ ?_ limit 1 rfl
    · exact fun p q round s t hpq _ => hpq.endRound b b' round s t
    · rintro s _ s' _ rfl rfl
      rfl
    · rintro s _ rfl
      exact ih (henv.insert b.var b'.var s)
    · exact fun s t _ => .pure trivial

/-! ### Emerson-Lei evaluation -/

namespace EmersonLei

variable {analysis analysis' : Analysis} {bindings : Bindings} {scope scope' : Scope} {k : Kind}
  {b b' : Binder} {m m' : Approximations}

/-- **What is remembered under related numbers is the same.** -/
def Paired (R : Nat → Nat → Prop) (m m' : Approximations) : Prop :=
  ∀ i j, R i j → m[i]? = m'[j]?

theorem Paired.insert (hR : Relator.BiUnique R) (h : Paired R m m') {i j : Nat} (hij : R i j)
    (s : StateSet) : Paired R (m.insert i s) (m'.insert j s) := by
  intro i' j' hij'
  simp only [Std.TreeMap.getElem?_insert, Std.compare_eq_iff_eq]
  have hsame : i = i' ↔ j = j' := Relator.rel_eq hR hij hij'
  by_cases hi : i = i'
  · rw [if_pos hi, if_pos (hsame.1 hi)]
  · rw [if_neg hi, if_neg fun hj => hi (hsame.2 hj), h i' j' hij']

/-- Several approximations set back at once. -/
theorem Paired.foldl_insert (hR : Relator.BiUnique R) {ids ids' : List Nat}
    (hids : List.Forall₂ R ids ids') (s : StateSet) (h : Paired R m m') :
    Paired R (ids.foldl (fun m id => m.insert id s) m)
      (ids'.foldl (fun m id => m.insert id s) m') := by
  induction hids generalizing m m' with
  | nil => exact h
  | cons hij _ ih => exact ih (h.insert hR hij s)

/-- Corresponding enclosing fixpoints: of the same kinds, with related numbers. -/
def Scope.Paired (R : Nat → Nat → Prop) (scope scope' : Scope) : Prop :=
  List.Forall₂ (fun e e' => R e.1.id e'.1.id ∧ e.2 = e'.2) scope scope'

/-- **Variables with the same reference have the same value.** -/
theorem lookup_renamed (hscope : Scope.Paired R scope scope') {x y : Var}
    (hxy : resolve (scope.map (·.1.var)) x = resolve (scope'.map (·.1.var)) y) :
    Follows (Alike (Paired R)) Eq (lookup bindings scope x) (lookup bindings scope' y) := by
  induction hscope with
  | nil =>
    obtain rfl := resolve_nil_inj.1 hxy
    exact .require fun s hs => ⟨s, hs, rfl⟩
  | cons he _ ih =>
    rcases resolve_cons_eq_iff.1 hxy with ⟨hx, hy⟩ | ⟨hx, hy, houtside⟩
    · rw [lookup, lookup, List.find?_cons_of_pos (by simpa using hx),
        List.find?_cons_of_pos (by simpa using hy)]
      refine (Follows.memory (A := Paired R) fun _ _ h => h.memory).bind fun m m' hm => ?_
      rw [hm _ _ he.1]
      exact .require fun s hs => ⟨s, hs, rfl⟩
    · rw [lookup, lookup, List.find?_cons_of_neg (by simpa using hx),
        List.find?_cons_of_neg (by simpa using hy)]
      exact ih houtside

/-- **Corresponding fixpoints are set back** on entering corresponding ones. -/
theorem refresh_renamed (hR : Relator.BiUnique R) (hscope : Scope.Paired R scope scope')
    {info info' : BinderInfo} (hstale : List.Forall₂ R (stale b info) (stale b' info')) :
    Follows (Alike (Paired R)) (fun _ _ => True) (refresh lts scope k b info)
      (refresh lts scope' k b' info') := by
  have hkind : scope.head?.any (·.2 ≠ k) = scope'.head?.any (·.2 ≠ k) := by
    cases hscope with
    | nil => rfl
    | cons he _ => simp only [List.head?_cons, Option.any_some, he.2]
  have hnone : stale b info = [] ↔ stale b' info' = [] := by
    rw [← List.length_eq_zero_iff, ← List.length_eq_zero_iff, hstale.length_eq]
  rw [refresh, refresh, hkind]
  split
  · rw [reset, reset, hstale.length_eq]
    refine (follows_remember ?_).bind fun _ _ _ => (follows_countResets _).bind fun _ _ _ => ?_
    · exact fun m m' hm => hm.foldl_insert hR hstale (startValue lts k)
    · by_cases hempty : stale b info = []
      · rw [if_pos hempty, if_pos (hnone.1 hempty)]
        exact .pure trivial
      · rw [if_neg hempty, if_neg fun he => hempty (hnone.2 he)]
        exact follows_note _ _
  · exact .pure trivial

/-- **Emerson-Lei evaluation of a corresponding formula** takes the same rounds and sets back
corresponding fixpoints. -/
theorem eval_renamed (hR : Relator.BiUnique R) (hf : analysis.Describes f)
    (hf' : analysis'.Describes f') (hscope : Scope.Paired R scope scope')
    (h : Renamed R (scope.map (·.1.var)) (scope'.map (·.1.var)) f f') :
    Follows (Alike (Paired R)) Eq (eval lts limit analysis bindings f scope)
      (eval lts limit analysis' bindings f' scope') := by
  generalize hvars : scope.map (·.1.var) = vars at h
  generalize hvars' : scope'.map (·.1.var) = vars' at h
  induction h generalizing scope scope' with
  | tt | ff => exact .pure rfl
  | var h =>
    subst hvars hvars'
    exact lookup_renamed hscope h
  | and _ _ ihl ihr | or _ _ ihl ihr =>
    refine (ihl (hf.mono (List.subset_append_left _ _)) (hf'.mono (List.subset_append_left _ _))
      hscope hvars hvars').bind ?_
    rintro a _ rfl
    refine (ihr (hf.mono (List.subset_append_right _ _)) (hf'.mono (List.subset_append_right _ _))
      hscope hvars hvars').bind ?_
    rintro b _ rfl
    exact .combine fun s hs => ⟨s, hs, rfl⟩
  | dia _ ih | box _ ih =>
    refine (ih hf hf' hscope hvars hvars').bind ?_
    rintro s _ rfl
    exact .pure rfl
  | @fix _ _ k b b' _ _ hid hbody ih =>
    have hstale := (Renamed.fix (k := k) hid hbody).stale
    rw [eval, eval, annotation?_of_describes hf, annotation?_of_describes hf']
    refine (refresh_renamed hR hscope hstale).bind fun _ _ _ => ?_
    refine (Follows.memory (A := Paired R) fun _ _ h => h.memory).bind fun m m' hm => ?_
    rw [hm _ _ hid]
    refine (Follows.require (A := Eq) fun s hs => ⟨s, hs, rfl⟩).bind fun start start' hstart => ?_
    refine (follows_note _ _).bind fun _ _ _ => ?_
    refine settle_follows ?_ ?_ ?_ ?_ limit 1 hstart
    · exact fun p q round s t hpq _ => hpq.endRound b b' round s t
    · rintro s _ s' _ rfl rfl
      rfl
    · intro s t _
      refine ih (hf.mono (List.subset_append_left _ _)) (hf'.mono (List.subset_append_left _ _))
        (.cons ⟨hid, rfl⟩ hscope) ?_ ?_
      · rw [List.map_cons, hvars]
      · rw [List.map_cons, hvars']
    · rintro s _ rfl
      exact follows_remember fun m m' hm => hm.insert hR hid s

/-- At the beginning fixpoints at the same place are at the same start. -/
theorem paired_initial (hids : f.binderIds.Nodup) (hids' : f'.binderIds.Nodup)
    (h : Renamed (f.Matched f') [] [] f f') :
    Paired (f.Matched f') (initial lts f.scoping.binders) (initial lts f'.scoping.binders) := by
  rintro _ _ ⟨⟨g, g'⟩, he, rfl, rfl⟩
  obtain ⟨hg, hg'⟩ := List.of_mem_zip he
  have hkind : g.kind = g'.kind := (List.forall₂_zip h.fixpoints he).kind
  rw [getElem?_initial_scoping hids hg, getElem?_initial_scoping hids' hg', hkind]

end EmersonLei

/-! ### Whole runs -/

/-- **Names and numbers of binders do not matter.** Two formulas that differ in these only are
solved alike by each solver: both runs return the same states and have counted the same rounds and
resets, or both fail with the same variable. Each formula is solved with its own analysis. -/
theorem solve_renamed (hlts : Lts.build fits first n ts = .ok lts) (h : f.AlphaEq f')
    (hids : f.binderIds.Nodup) (hids' : f'.binderIds.Nodup) {bindings : Bindings}
    (hover : Bindings.Over n bindings) (logging logging' : Bool) :
    (Naive.solve lts f bindings logging).result = (Naive.solve lts f' bindings logging').result ∧
      (EmersonLei.solve lts f f.analyze bindings logging).result =
        (EmersonLei.solve lts f' f'.analyze bindings logging').result := by
  have hrenamed := h.renamed
  have hfree : f.freeOccurrences = f'.freeOccurrences := hrenamed.freeOccurrences_eq
  rcases hx : Bindings.missing? bindings f.freeOccurrences with _ | x
  · have hx' : Bindings.missing? bindings f'.freeOccurrences = none := hfree ▸ hx
    refine ⟨?_, ?_⟩
    · obtain ⟨states, p', hrun, hresult, -⟩ :=
        Naive.solve_returns hlts f hover (Bindings.missing?_eq_none.1 hx) logging
      obtain ⟨states', q', hresult', rfl, halike⟩ := report_follows .naive
        (Naive.eval_renamed hrenamed (agree_nil bindings)) (Alike.initial trivial logging logging')
        hrun
      rw [hresult, Naive.solve, hresult', halike.counters]
    · obtain ⟨states, p', hrun, hresult, -⟩ :=
        EmersonLei.run_returns hlts hids hover hx logging
      obtain ⟨states', q', hresult', rfl, halike⟩ := report_follows .emersonLei
        (EmersonLei.eval_renamed (hrenamed.biUnique_matched hids hids')
          (Analysis.describes_analyze hids) (Analysis.describes_analyze hids') .nil hrenamed)
        (Alike.initial (EmersonLei.paired_initial hids hids' hrenamed) logging logging') hrun
      rw [hresult, EmersonLei.solve, EmersonLei.find?_scoping_free, hx']
      exact (hresult'.trans (by rw [halike.counters])).symm
  · have hx' : Bindings.missing? bindings f'.freeOccurrences = some x := hfree ▸ hx
    rw [Naive.solve_fails hlts f hover hx, Naive.solve_fails hlts f' hover hx',
      EmersonLei.solve_fails lts f.analyze hx, EmersonLei.solve_fails lts f'.analyze hx']
    exact ⟨rfl, rfl⟩

/-- Numbers are exchanged, and one variable is bound twice, once below itself; the caller gives it a
value as well. -/
theorem solve_renamed_shadowed :
    ∃ lts f f' bindings, Lts.ofTransitions 0 2 [⟨0, "a", 1⟩, ⟨1, "a", 0⟩] = .ok lts ∧
      f = .fix .least ⟨0, 'X'⟩ (.or
        (.fix .greatest ⟨1, 'Y'⟩
          (.or (.dia "a" (.var 'X')) (.and (.var 'Z') (.box "a" (.var 'Y')))))
        (.fix .greatest ⟨2, 'V'⟩ (.and (.var 'Z') (.dia "a" (.var 'V'))))) ∧
      f' = .fix .least ⟨1, 'W'⟩ (.or
        (.fix .greatest ⟨0, 'X'⟩
          (.or (.dia "a" (.var 'W')) (.and (.var 'Z') (.box "a" (.var 'X')))))
        (.fix .greatest ⟨7, 'W'⟩ (.and (.var 'Z') (.dia "a" (.var 'W'))))) ∧
      bindings = ((∅ : Bindings).insert 'Z' ((StateSet.empty 2).insert 1)).insert 'W'
        (StateSet.full 2) ∧
      f.AlphaEq f' ∧
      (Naive.solve lts f bindings false).result = (Naive.solve lts f' bindings false).result ∧
      (EmersonLei.solve lts f f.analyze bindings false).result =
        (EmersonLei.solve lts f' f'.analyze bindings false).result := by
  obtain ⟨lts, hlts⟩ :
    ∃ lts, Lts.ofTransitions 0 2 [⟨0, "a", 1⟩, ⟨1, "a", 0⟩] = .ok lts := ⟨_, rfl⟩
  refine ⟨lts, _, _, _, hlts, rfl, rfl, rfl, by decide,
    solve_renamed hlts (by decide) (by decide) (by decide) ?_ false false⟩
  exact ((Bindings.over_empty 2).insert 'Z' rfl).insert 'W' rfl

end Solver

end ModalMu
