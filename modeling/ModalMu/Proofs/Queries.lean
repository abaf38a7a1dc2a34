import ModalMu.Proofs.Interning

/-!
# Queries as scans of the list

A system answers from indexes that were made once. Each answer is what a look through the list of
transitions would find.

* `getElem?_groupEdges` — what grouping files under a number: the places of the edges with that
  part, in order;
* `pick_groupEdges` — picking them again is filtering the edges. It needs that no edge was dropped
  for being out of range;
* `queries_scan` — **every query agrees with a scan of the list.**
-/

namespace ModalMu

namespace Lts

variable {fits : Nat → Bool} {first n : Nat} {ts : List Transition} {lts : Lts}

/-! ### Groups of edges -/

section

variable {k i : Nat} {part : Edge → Nat}

/-- Filing numbered edges one after the other. -/
theorem getElem?_foldl_push (hi : i < k) (pairs : List (Edge × Nat)) :
    (pairs.foldl (fun rows (e, j) => rows.modify (part e) (·.push j)) (Array.replicate k #[]))[i]? =
      some ((pairs.filter fun x => part x.1 = i).map (·.2)).toArray := by
  -- from the right, since the last pair is filed last
  induction pairs using List.reverseRecOn with
  | nil => simp [hi]
  | append_singleton pairs x ih =>
    obtain ⟨e, j⟩ := x
    rw [List.foldl_append, List.foldl_cons, List.foldl_nil, Array.getElem?_modify, ih,
      List.filter_append]
    by_cases he : part e = i <;> simp [he]

/-- **Under a number stand the places of the edges with that part**, in order. -/
theorem getElem?_groupEdges (hi : i < k) (edges : List Edge) :
    (groupEdges k part edges)[i]? =
      some ((edges.zipIdx.filter fun x => part x.1 = i).map (·.2)).toArray :=
  getElem?_foldl_push hi edges.zipIdx

theorem size_groupEdges (edges : List Edge) : (groupEdges k part edges).size = k := by
  rw [groupEdges]
  generalize edges.zipIdx = pairs
  induction pairs using List.reverseRecOn with
  | nil => simp
  | append_singleton pairs x ih => simpa [List.foldl_append] using ih

/-- **Picking a group is filtering the edges**, if no edge was out of range. -/
theorem pick_groupEdges (hrange : ∀ e ∈ lts.edges.rows.toList, part e < k) (i : Nat) :
    lts.pick (groupEdges k part lts.edges.rows.toList)[i]? =
      lts.edges.rows.toList.filter fun e => part e = i := by
  rcases Nat.lt_or_ge i k with hi | hi
  · -- what stands at the place of an edge is the edge
    have hplace : ∀ x ∈ lts.edges.rows.toList.zipIdx, lts.edges.get? x.2 = some x.1 := by
      rintro ⟨e, j⟩ hx
      rw [List.mk_mem_zipIdx_iff_getElem?, Array.getElem?_toList] at hx
      exact hx
    rw [getElem?_groupEdges hi, pick, Option.getD_some, List.filterMap_map]
    calc (lts.edges.rows.toList.zipIdx.filter fun x => part x.1 = i).filterMap
          (lts.edges.get? ∘ (·.2))
        = (lts.edges.rows.toList.zipIdx.filter fun x => part x.1 = i).filterMap
          (some ∘ (·.1)) :=
          List.filterMap_congr fun x hx => hplace x (List.mem_of_mem_filter hx)
      _ = (lts.edges.rows.toList.zipIdx.map (·.1)).filter fun e => part e = i := by
          rw [List.filterMap_eq_map, List.filter_map]
          rfl
      _ = lts.edges.rows.toList.filter fun e => part e = i := by rw [List.zipIdx_map_fst]
  · have hnone : (groupEdges k part lts.edges.rows.toList)[i]? = none :=
      Array.getElem?_eq_none (size_groupEdges _ ▸ hi)
    rw [hnone]
    symm
    rw [pick, List.filter_eq_nil_iff.2]
    · rfl
    · intro e he
      have := hrange e he
      simp only [decide_eq_true_eq]
      omega

end

/-! ### Edges by one of their parts -/

theorem edgesFrom_eq_filter (h : build fits first n ts = .ok lts) (s : Nat) :
    lts.edgesFrom s = lts.edges.rows.toList.filter fun e => e.start = s := by
  have hrange : ∀ e ∈ lts.edges.rows.toList, e.start < n := fun e he => (lt_of_mem_edges h he).1
  obtain ⟨-, -, labels, edges, -, rfl⟩ := build_eq_ok h
  exact pick_groupEdges hrange s

theorem edgesTo_eq_filter (h : build fits first n ts = .ok lts) (s : Nat) :
    lts.edgesTo s = lts.edges.rows.toList.filter fun e => e.target = s := by
  have hrange : ∀ e ∈ lts.edges.rows.toList, e.target < n := fun e he => (lt_of_mem_edges h he).2.2
  obtain ⟨-, -, labels, edges, -, rfl⟩ := build_eq_ok h
  exact pick_groupEdges hrange s

theorem edgesLabelled_eq_filter (h : build fits first n ts = .ok lts) {a : String} {l : Nat}
    (ha : lts.labelId? a = some l) :
    lts.edgesLabelled a = lts.edges.rows.toList.filter fun e => e.label = l := by
  have hrange : ∀ e ∈ lts.edges.rows.toList, e.label < lts.labels.size :=
    fun e he => (lt_of_mem_edges h he).2.1
  rw [edgesLabelled, ha, Option.bind_some]
  obtain ⟨-, -, labels, edges, -, rfl⟩ := build_eq_ok h
  exact pick_groupEdges hrange l

/-- **The edges with a label are the listed transitions with it.** -/
theorem registered_edgesLabelled (h : build fits first n ts = .ok lts) (a : String) :
    List.Forall₂ (Registered lts.labels) (ts.filter fun t => t.label = a)
      (lts.edgesLabelled a) := by
  have hall := registered_edges h
  rcases hid : lts.labelId? a with _ | l
  · -- a label without a number occurs nowhere
    have hnone : (ts.filter fun t => t.label = a) = [] := by
      refine List.filter_eq_nil_iff.2 fun t ht => ?_
      simp only [decide_eq_true_eq]
      intro hta
      obtain ⟨l, hl⟩ := (exists_labelId?_iff h a).2 ⟨t, ht, hta⟩
      rw [hid] at hl
      cases hl
    rw [hnone, edgesLabelled, hid]
    exact .nil
  · have hl : lts.labels.get? l = some a := (Registry.indexOf?_eq_some_iff _ _ _).1 hid
    rw [edgesLabelled_eq_filter h hid]
    refine List.rel_filter (fun t e ⟨_, _, hte⟩ => ?_) hall
    simp only [decide_eq_true_eq]
    exact (Registry.get?_inj hte hl).symm

/-! ### Successors -/

/-- **Where a step leads**, over the states of the system. -/
theorem mem_successors (h : build fits first n ts = .ok lts) (a : String) (s : Nat) :
    (lts.successors a s).univ = n ∧ ∀ t, t ∈ lts.successors a s ↔ ⟨s, a, t⟩ ∈ ts := by
  have hcollects := collects_successorMap h a
  rw [successors, Std.TreeMap.getD_eq_getD_getElem?]
  rcases hS : (lts.successorMap a)[s]? with _ | S
  · refine ⟨stateCount_eq h, fun t => iff_of_false (by simp [emptySet, StateSet.mem_iff]) ?_⟩
    intro ht
    obtain ⟨S, hS'⟩ := hcollects.entry_of_step ht
    rw [hS] at hS'
    cases hS'
  · exact ⟨hcollects.univ hS, hcollects.mem_iff hS⟩

/-- **The states with a step are listed, each once**, with where the step leads. -/
theorem mem_successorSets_iff (h : build fits first n ts = .ok lts) (a : String) :
    ((lts.successorSets a).map Prod.fst).Nodup ∧ ∀ s S,
      (s, S) ∈ lts.successorSets a ↔ (∃ t, ⟨s, a, t⟩ ∈ ts) ∧ S = lts.successors a s := by
  have hcollects := collects_successorMap h a
  refine ⟨?_, fun s S => ?_⟩
  · rw [successorSets, Std.TreeMap.map_fst_toList_eq_keys]
    exact Std.TreeMap.nodup_keys
  · rw [mem_successorSets, successors, Std.TreeMap.getD_eq_getD_getElem?]
    refine ⟨fun hS => ⟨hcollects.step_of_entry hS, ?_⟩, ?_⟩
    · rw [hS]
      rfl
    · rintro ⟨⟨t, ht⟩, rfl⟩
      obtain ⟨S, hS⟩ := hcollects.entry_of_step ht
      rw [hS]
      rfl

/-! ### All queries -/

/-- **Every query agrees with a scan of the list of transitions**, for every state and every label,
also for those that the system does not have. Edges are found once for each transition, in the order
of the list. -/
theorem queries_scan (h : build fits first n ts = .ok lts) :
    (∀ s, List.Forall₂ (Registered lts.labels) (ts.filter fun t => t.start = s)
      (lts.edgesFrom s)) ∧
    (∀ s, List.Forall₂ (Registered lts.labels) (ts.filter fun t => t.target = s)
      (lts.edgesTo s)) ∧
    (∀ a, List.Forall₂ (Registered lts.labels) (ts.filter fun t => t.label = a)
      (lts.edgesLabelled a)) ∧
    (∀ a s, (lts.successors a s).univ = n ∧ ∀ t, t ∈ lts.successors a s ↔ ⟨s, a, t⟩ ∈ ts) ∧
    ∀ a, ((lts.successorSets a).map Prod.fst).Nodup ∧ ∀ s S,
      (s, S) ∈ lts.successorSets a ↔ (∃ t, ⟨s, a, t⟩ ∈ ts) ∧ S = lts.successors a s := by
  have hall := registered_edges h
  refine ⟨fun s => ?_, fun s => ?_, registered_edgesLabelled h, mem_successors h,
    mem_successorSets_iff h⟩
  · rw [edgesFrom_eq_filter h]
    exact List.rel_filter (fun t e ⟨hs, _, _⟩ => by simp [hs]) hall
  · rw [edgesTo_eq_filter h]
    exact List.rel_filter (fun t e ⟨_, ht, _⟩ => by simp [ht]) hall

/-- A transition that is listed twice, a loop, and a label that does not occur. -/
theorem queries_scan_repeated :
    ∃ lts, ofTransitions 1 3 [⟨0, "a", 1⟩, ⟨2, "b", 2⟩, ⟨0, "a", 1⟩, ⟨0, "a", 2⟩] = .ok lts ∧
      List.Forall₂ (Registered lts.labels) [⟨0, "a", 1⟩, ⟨0, "a", 1⟩, ⟨0, "a", 2⟩]
        (lts.edgesFrom 0) ∧
      List.Forall₂ (Registered lts.labels) [⟨2, "b", 2⟩, ⟨0, "a", 2⟩] (lts.edgesTo 2) ∧
      List.Forall₂ (Registered lts.labels) [] (lts.edgesLabelled "c") ∧
      2 ∈ lts.successors "a" 0 ∧ (2, lts.successors "b" 2) ∈ lts.successorSets "b" := by
  obtain ⟨lts, hlts⟩ : ∃ lts, ofTransitions 1 3
    [⟨0, "a", 1⟩, ⟨2, "b", 2⟩, ⟨0, "a", 1⟩, ⟨0, "a", 2⟩] = .ok lts := ⟨_, rfl⟩
  obtain ⟨hfrom, hto, hlabelled, hsuccessors, hsets⟩ := queries_scan hlts
  exact ⟨lts, hlts, hfrom 0, hto 2, hlabelled "c", ((hsuccessors "a" 0).2 2).2 (by decide),
    ((hsets "b").2 2 _).2 ⟨⟨2, by decide⟩, rfl⟩⟩

end Lts

end ModalMu
