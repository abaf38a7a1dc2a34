import ModalMu.Formula.Dependency
import ModalMu.Proofs.FreeVariables

/-!
# What the dependency analysis records

When the numbers of its fixpoint nodes are distinct, the analysis of a formula records for each node
what can be said of the node by itself:

* `Fixpoint.info` — the variable, the kind, the open flag and the open nodes of its kind inside;
* `get?_analyze` — the analysis holds this for every node;
* `Analysis.Describes` — an analysis that does so for a formula, and hence for its parts.
-/

namespace ModalMu

/-- The record of a node before the nodes inside it are known. -/
def Fixpoint.outline (g : Fixpoint) : BinderInfo := ⟨g.binder.var, g.kind, g.isOpen, []⟩

/-- **What is to be recorded about a node.** -/
def Fixpoint.info (g : Fixpoint) : BinderInfo :=
  { g.outline with
    openInside :=
      (g.body.fixpoints.filter fun h => h.isOpen && h.kind == g.kind).map (·.binder.id) }

namespace Formula

/-- The nodes inside a node of a formula are nodes of the formula. -/
theorem fixpoints_subset {f : Formula} {g h : Fixpoint} (hg : g ∈ f.fixpoints)
    (hh : h ∈ g.body.fixpoints) : h ∈ f.fixpoints := by
  induction f with
  | tt | ff | var _ => cases hg
  | and l r ihl ihr | or l r ihl ihr =>
    rcases List.mem_append.1 hg with hg | hg
    · exact List.mem_append_left _ (ihl hg)
    · exact List.mem_append_right _ (ihr hg)
  | dia a f ih | box a f ih => exact ih hg
  | fix k b body ih =>
    rcases List.mem_append.1 hg with hg | hg
    · exact List.mem_append_left _ (ih hg)
    · rw [List.mem_singleton] at hg
      subst hg
      exact List.mem_append_left _ hh

section

variable {l r body : Formula} {k : Kind} {b : Binder} {id : Nat}

theorem binderIds_and : (l.and r).binderIds = l.binderIds ++ r.binderIds := by
  rw [binderIds, fixpoints, List.map_append]
  rfl

theorem mem_binderIds_left (h : id ∈ l.binderIds) : id ∈ (l.and r).binderIds := by
  rw [binderIds_and]
  exact List.mem_append_left _ h

theorem mem_binderIds_right (h : id ∈ r.binderIds) : id ∈ (l.and r).binderIds := by
  rw [binderIds_and]
  exact List.mem_append_right _ h

theorem binderIds_fix : (fix k b body).binderIds = body.binderIds ++ [b.id] := by
  rw [binderIds, fixpoints, List.map_append]
  rfl

theorem mem_binderIds_body (h : id ∈ body.binderIds) : id ∈ (fix k b body).binderIds := by
  rw [binderIds_fix]
  exact List.mem_append_left _ h

theorem self_mem_binderIds : b.id ∈ (fix k b body).binderIds := by
  rw [binderIds_fix]
  exact List.mem_append_right _ (List.mem_singleton_self _)

theorem self_mem_fixpoints : ⟨k, b, body⟩ ∈ (fix k b body).fixpoints :=
  List.mem_append_right _ (List.mem_singleton_self _)

theorem nodup_binderIds_and :
    (l.and r).binderIds.Nodup ↔
      l.binderIds.Nodup ∧ r.binderIds.Nodup ∧ ∀ id ∈ l.binderIds, id ∉ r.binderIds := by
  rw [binderIds_and, List.nodup_append]
  refine and_congr_right' (and_congr_right' ⟨fun h id hl hr => h id hl id hr rfl, ?_⟩)
  rintro h i hi _ hj rfl
  exact h i hi hj

theorem nodup_binderIds_fix :
    (fix k b body).binderIds.Nodup ↔ body.binderIds.Nodup ∧ b.id ∉ body.binderIds := by
  rw [binderIds_fix, ← List.concat_eq_append, List.nodup_concat, and_comm]

end

/-- Nodes with distinct numbers are told apart by their numbers. -/
theorem eq_of_id_eq {f : Formula} (hids : f.binderIds.Nodup) {g h : Fixpoint}
    (hg : g ∈ f.fixpoints) (hh : h ∈ f.fixpoints) (hid : g.binder.id = h.binder.id) : g = h :=
  List.inj_on_of_nodup_map hids hg hh hid

end Formula

namespace Analysis

/-! ### Folding over nodes with distinct numbers -/

section

variable {step : Analysis → Fixpoint → Analysis} {gs : List Fixpoint} {a : Analysis}

/-- Steps that change only what is recorded under their node's number leave the rest alone. -/
theorem get?_foldl_of_not_mem
    (hstep : ∀ a g id, g.binder.id ≠ id → (step a g).get? id = a.get? id) {id : Nat}
    (h : id ∉ gs.map (·.binder.id)) : (gs.foldl step a).get? id = a.get? id := by
  induction gs generalizing a with
  | nil => rfl
  | cons g gs ih =>
    rw [List.map_cons, List.mem_cons, not_or] at h
    rw [List.foldl_cons, ih h.2, hstep a g id (Ne.symm h.1)]

/-- With distinct numbers, what is recorded of a node in the end is what its own step made of what
was there in the beginning. -/
theorem get?_foldl_of_mem
    (hstep : ∀ a g id, g.binder.id ≠ id → (step a g).get? id = a.get? id)
    (hids : (gs.map (·.binder.id)).Nodup) {g : Fixpoint} (hg : g ∈ gs) :
    ∃ a', a'.get? g.binder.id = a.get? g.binder.id ∧
      (gs.foldl step a).get? g.binder.id = (step a' g).get? g.binder.id := by
  induction gs generalizing a with
  | nil => cases hg
  | cons h gs ih =>
    rw [List.map_cons, List.nodup_cons] at hids
    rw [List.foldl_cons]
    rcases List.mem_cons.1 hg with rfl | hg
    · exact ⟨a, rfl, get?_foldl_of_not_mem hstep hids.1⟩
    · obtain ⟨a', ha', hfold⟩ := ih (a := step a h) hids.2 hg
      have hne : h.binder.id ≠ g.binder.id := fun he =>
        hids.1 (he ▸ List.mem_map_of_mem hg)
      exact ⟨a', ha'.trans (hstep a h _ hne), hfold⟩

end

/-! ### The two passes -/

theorem get?_record (a : Analysis) (g : Fixpoint) (id : Nat) :
    (a.record g).get? id = if g.binder.id = id then some g.outline else a.get? id := by
  simp [record, get?, Std.TreeMap.getElem?_insert, Fixpoint.outline]

theorem get?_link (flags a : Analysis) (g : Fixpoint) (id : Nat) :
    (link flags a g).get? id =
      if g.binder.id = id then
        (a.get? id).map fun info =>
          { info with openInside := (flags.openIds g.body).filter (flags.hasKind g.kind) }
      else a.get? id := by
  simp only [link, get?, Std.TreeMap.getElem?_modify, Std.compare_eq_iff_eq]
  split
  · rename_i hid
    rw [hid]
  · rfl

/-- After the first pass every node has its outline. -/
theorem get?_foldl_record {f : Formula} (hids : f.binderIds.Nodup) {g : Fixpoint}
    (hg : g ∈ f.fixpoints) :
    (f.fixpoints.foldl record empty).get? g.binder.id = some g.outline := by
  obtain ⟨a', -, hfold⟩ := get?_foldl_of_mem (a := empty)
    (fun a h id hne => by rw [get?_record, if_neg hne]) hids hg
  rw [hfold, get?_record, if_pos rfl]

/-- The nodes recorded as open are the open nodes. -/
theorem openIds_eq {flags : Analysis} {f : Formula}
    (h : ∀ g ∈ f.fixpoints, flags.get? g.binder.id = some g.outline) :
    flags.openIds f = (f.fixpoints.filter (·.isOpen)).map (·.binder.id) := by
  induction f with
  | tt | ff | var _ => rfl
  | and l r ihl ihr | or l r ihl ihr =>
    rw [openIds, ihl fun g hg => h g (List.mem_append_left _ hg),
      ihr fun g hg => h g (List.mem_append_right _ hg), Formula.fixpoints, List.filter_append,
      List.map_append]
  | dia a f ih | box a f ih => exact ih h
  | fix k b body ih =>
    have hself : flags.isOpen b.id = Fixpoint.isOpen ⟨k, b, body⟩ := by
      rw [isOpen, h ⟨k, b, body⟩ Formula.self_mem_fixpoints]
      rfl
    rw [openIds, ih fun g hg => h g (List.mem_append_left _ hg), Formula.fixpoints,
      List.filter_append, List.map_append, hself]
    cases hopen : Fixpoint.isOpen ⟨k, b, body⟩ <;> simp [hopen]

/-- **The analysis of a formula describes each of its nodes.** -/
theorem get?_analyze {f : Formula} (hids : f.binderIds.Nodup) {g : Fixpoint}
    (hg : g ∈ f.fixpoints) : f.analyze.get? g.binder.id = some g.info := by
  have hflags : ∀ h ∈ f.fixpoints,
      (f.fixpoints.foldl record empty).get? h.binder.id = some h.outline :=
    fun h hh => get?_foldl_record hids hh
  have hinside : ∀ h ∈ g.body.fixpoints,
      (f.fixpoints.foldl record empty).get? h.binder.id = some h.outline :=
    fun h hh => hflags h (Formula.fixpoints_subset hg hh)
  obtain ⟨a', ha', hfold⟩ := get?_foldl_of_mem (a := f.fixpoints.foldl record empty)
    (fun a h id hne => by rw [get?_link, if_neg hne]) hids hg
  rw [Formula.analyze, hfold, get?_link, if_pos rfl, ha', hflags g hg, openIds_eq hinside]
  -- the kind of a node inside is looked up in the outlines
  have hkind : ∀ h ∈ g.body.fixpoints,
      (f.fixpoints.foldl record empty).hasKind g.kind h.binder.id = (h.kind == g.kind) := by
    intro h hh
    rw [hasKind, hinside h hh]
    rfl
  simp only [Option.map_some, Fixpoint.info, List.filter_map, List.filter_filter]
  congr 3
  refine List.filter_congr fun h hh => ?_
  rw [Function.comp_apply, hkind h hh, Bool.and_comm]

/-- The flags of the analysis are those of the nodes. -/
theorem isOpen_analyze {f : Formula} (hids : f.binderIds.Nodup) {g : Fixpoint}
    (hg : g ∈ f.fixpoints) : f.analyze.isOpen g.binder.id = g.isOpen := by
  rw [isOpen, get?_analyze hids hg]
  rfl

/-! ### Descriptions -/

/-- An analysis describes a formula when it holds the right record for each of its nodes. -/
def Describes (a : Analysis) (f : Formula) : Prop :=
  ∀ g ∈ f.fixpoints, a.get? g.binder.id = some g.info

theorem Describes.mono {a : Analysis} {f g : Formula} (h : a.Describes f)
    (hparts : g.fixpoints ⊆ f.fixpoints) : a.Describes g := fun e he => h e (hparts he)

theorem describes_analyze {f : Formula} (hids : f.binderIds.Nodup) : f.analyze.Describes f :=
  fun _ hg => get?_analyze hids hg

end Analysis

end ModalMu
