import ModalMu.Proofs.Steps

/-!
# Numbered labels

The labels of a system are numbered while its transitions are taken in, and the indexes are made
afterwards, from the final count.

* `Registry.insertAll` — values registered one after the other. **A number that was given stays**
  (`indexOf?_insertAll`), and starting from nothing the values are listed by first appearance
  (`toList_insertAll_empty`);
* `registered_edges`, `labels_eq` — what construction leaves behind: the edges under the numbers of
  their labels, and the labels of the list, registered in turn;
* `Numbering`, `numbering_build` — **nothing is lost by numbering the labels.**
-/

namespace ModalMu

namespace Registry

variable {α : Type} [Ord α] {r : Registry α} {a : α} {i : Nat}

theorem fetch_eq_ok_iff : r.fetch i = .ok a ↔ r.get? i = some a := by
  rw [fetch]
  cases r.get? i <;> simp

theorem lt_size_iff : i < r.size ↔ ∃ a, r.get? i = some a := by
  refine ⟨fun hi => ⟨r.items[i], ?_⟩, fun ⟨_, ha⟩ => lt_size_of_get? ha⟩
  exact Array.getElem?_eq_getElem hi

/-- Numbers and values determine each other. -/
theorem get?_inj {b : α} {j : Nat} (ha : r.get? i = some a) (hb : r.get? j = some b) :
    i = j ↔ a = b := by
  refine ⟨fun hij => ?_, fun hab => ?_⟩
  · rw [hij, hb] at ha
    exact (Option.some.inj ha).symm
  · rw [hab, ← indexOf?_eq_some_iff] at ha
    rw [← indexOf?_eq_some_iff, ha] at hb
    exact Option.some.inj hb

theorem mem_toList_iff : a ∈ r.toList ↔ (r.indexOf? a).isSome = true := by
  rw [toList, Array.mem_toList_iff, Array.mem_iff_getElem?, Option.isSome_iff_exists]
  exact exists_congr fun i => (r.indexOf?_eq_some_iff a i).symm

variable [Std.TransOrd α] [Std.LawfulEqOrd α]

/-- **Inserts values one after the other.** -/
def insertAll (r : Registry α) (as : List α) : Registry α :=
  as.foldl (fun r a => (r.insert a).2) r

/-- **A number that was given stays**, whatever is inserted afterwards. -/
theorem indexOf?_insertAll (h : r.indexOf? a = some i) (as : List α) :
    (r.insertAll as).indexOf? a = some i := by
  induction as generalizing r with
  | nil => exact h
  | cons b as ih =>
    refine ih ((indexOf?_eq_some_iff _ _ _).2 ?_)
    exact get?_insert_of_get? ((indexOf?_eq_some_iff _ _ _).1 h)

/-- **The values are listed by first appearance.** -/
theorem toList_insertAll_empty [BEq α] [LawfulBEq α] (as : List α) :
    (empty.insertAll as).toList = as.eraseDups := by
  induction as using List.reverseRecOn with
  | nil => rfl
  | append_singleton as a ih =>
    have hlast : empty.insertAll (as ++ [a]) = ((empty.insertAll as).insert a).2 := by
      rw [insertAll, List.foldl_append]
      rfl
    have hmem : ((empty.insertAll as).indexOf? a).isSome = true ↔ a ∈ as := by
      rw [← mem_toList_iff, ih, List.mem_eraseDups]
    rw [hlast, toList_insert, ih, List.eraseDups_append]
    by_cases ha : a ∈ as
    · rw [if_pos (hmem.2 ha)]
      simp [List.removeAll, ha]
    · rw [if_neg fun hsome => ha (hmem.1 hsome)]
      simp [List.removeAll, List.eraseDups_cons, ha]

end Registry

namespace Lts

variable {fits : Nat → Bool} {first n : Nat} {ts : List Transition} {lts : Lts}

/-! ### What construction leaves behind -/

/-- The labels are those of the list, registered in turn. -/
theorem labels_of_foldlM {acc acc' : Registry String × Table Edge}
    (h : ts.foldlM (takeIn n) acc = .ok acc') :
    acc'.1 = acc.1.insertAll (ts.map (·.label)) := by
  induction ts generalizing acc with
  | nil =>
    cases h
    rfl
  | cons t ts ih =>
    rw [List.foldlM_cons] at h
    rcases hstep : takeIn n acc t with _ | acc₁
    · rw [hstep] at h
      cases h
    · rw [hstep] at h
      obtain ⟨-, -, hlabels, -⟩ := takeIn_eq_ok hstep
      rw [ih h, hlabels]
      rfl

theorem labels_eq (h : build fits first n ts = .ok lts) :
    lts.labels = Registry.empty.insertAll (ts.map (·.label)) := by
  obtain ⟨-, -, acc, hfold, rfl⟩ := foldlM_of_build h
  exact labels_of_foldlM hfold

/-- The edges are those of the list, under the numbers of their labels. -/
theorem registered_edges (h : build fits first n ts = .ok lts) :
    List.Forall₂ (Registered lts.labels) ts lts.edges.rows.toList := by
  obtain ⟨-, -, labels, edges, hall, rfl⟩ := build_eq_ok h
  exact hall

/-! ### The numbering of a system -/

theorem labelId?_eq_some_iff {a : String} {i : Nat} :
    lts.labelId? a = some i ↔ lts.label i = .ok a := by
  rw [labelId?, label, Registry.indexOf?_eq_some_iff, Registry.fetch_eq_ok_iff]

/-- **A stored edge has the number of its label.** -/
theorem Registered.labelId? {t : Transition} {e : Edge} (h : Registered lts.labels t e) :
    lts.labelId? t.label = some e.label :=
  (Registry.indexOf?_eq_some_iff _ _ _).2 h.2.2

theorem exists_labelId?_iff (h : build fits first n ts = .ok lts) (a : String) :
    (∃ i, lts.labelId? a = some i) ↔ ∃ t ∈ ts, t.label = a := by
  rw [Lts.labelId?, ← Option.isSome_iff_exists, ← Registry.mem_toList_iff, labels_eq h,
    Registry.toList_insertAll_empty, List.mem_eraseDups, List.mem_map]

/-- **Each number is in use**: its label occurs, and the edge of that occurrence has it. -/
theorem exists_edge_of_lt (h : build fits first n ts = .ok lts) {i : Nat}
    (hi : i < lts.labels.size) : ∃ e ∈ lts.edges.rows.toList, e.label = i := by
  obtain ⟨a, ha⟩ := Registry.lt_size_iff.1 hi
  have hid : lts.labelId? a = some i := (Registry.indexOf?_eq_some_iff _ _ _).2 ha
  obtain ⟨t, ht, rfl⟩ := (exists_labelId?_iff h a).1 ⟨i, hid⟩
  obtain ⟨e, he, hte⟩ := exists_registered (registered_edges h) ht
  exact ⟨e, he, Option.some.inj (hte.labelId?.symm.trans hid)⟩

/-- **How a system numbers the labels of its transitions.** -/
structure Numbering (ts : List Transition) (lts : Lts) : Prop where
  /-- the stored edges are the transitions in order, once their labels are looked up -/
  stored : List.Forall₂ (fun t e =>
    e.start = t.start ∧ lts.label e.label = .ok t.label ∧ e.target = t.target)
    ts lts.edges.rows.toList
  /-- by number, the labels are those of the list in the order in which they first appear -/
  labels : lts.labels.toList = (ts.map (·.label)).eraseDups
  /-- the numbers in use are those below the number of labels -/
  used : ∀ i, (∃ e ∈ lts.edges.rows.toList, e.label = i) ↔ i < lts.labels.size
  /-- two edges have one number exactly when their transitions have one label -/
  same : ∀ p ∈ ts.zip lts.edges.rows.toList, ∀ q ∈ ts.zip lts.edges.rows.toList,
    (p.2.label = q.2.label ↔ p.1.label = q.1.label)
  /-- the labels with a number are those that occur -/
  occurs : ∀ a, (∃ i, lts.labelId? a = some i) ↔ ∃ t ∈ ts, t.label = a
  /-- a number leads back to its label -/
  label : ∀ {a i}, lts.labelId? a = some i → lts.label i = .ok a
  /-- each number below the number of labels has a label, which leads back to it -/
  labelId : ∀ i < lts.labels.size, ∃ a, lts.label i = .ok a ∧ lts.labelId? a = some i

/-- **Numbering the labels loses nothing**, and a number that was given stays. -/
theorem numbering_build (h : build fits first n ts = .ok lts) :
    Numbering ts lts ∧
      ∀ (r : Registry String) (a : String) (i : Nat), r.indexOf? a = some i →
        ∀ more, (r.insertAll more).indexOf? a = some i := by
  have hall := registered_edges h
  refine ⟨⟨?_, ?_, fun i => ⟨?_, exists_edge_of_lt h⟩, ?_, exists_labelId?_iff h,
    labelId?_eq_some_iff.1, fun i hi => ?_⟩, ?_⟩
  · refine hall.imp fun t e ⟨hs, ht, hl⟩ => ⟨hs, ?_, ht⟩
    exact Registry.fetch_eq_ok_iff.2 hl
  · rw [labels_eq h, Registry.toList_insertAll_empty]
  · rintro ⟨e, he, rfl⟩
    exact (lt_of_mem_edges h he).2.1
  · intro p hp q hq
    obtain ⟨-, -, hl⟩ := List.forall₂_zip hall hp
    obtain ⟨-, -, hl'⟩ := List.forall₂_zip hall hq
    exact Registry.get?_inj hl hl'
  · obtain ⟨a, ha⟩ := Registry.lt_size_iff.1 hi
    have hlabel : lts.label i = .ok a := Registry.fetch_eq_ok_iff.2 ha
    exact ⟨a, hlabel, labelId?_eq_some_iff.2 hlabel⟩
  · intro r a i hi more
    exact Registry.indexOf?_insertAll hi more

/-- Three labels, one of them twice and one of them empty. -/
theorem numbering_build_repeated :
    ∃ lts, ofTransitions 1 3 [⟨0, "a", 1⟩, ⟨1, "", 2⟩, ⟨2, "a", 2⟩, ⟨2, "b", 0⟩] = .ok lts ∧
      Numbering [⟨0, "a", 1⟩, ⟨1, "", 2⟩, ⟨2, "a", 2⟩, ⟨2, "b", 0⟩] lts ∧
      lts.labels.toList = ["a", "", "b"] := by
  obtain ⟨lts, hlts⟩ : ∃ lts, ofTransitions 1 3
    [⟨0, "a", 1⟩, ⟨1, "", 2⟩, ⟨2, "a", 2⟩, ⟨2, "b", 0⟩] = .ok lts := ⟨_, rfl⟩
  have hnumbering := (numbering_build hlts).1
  exact ⟨lts, hlts, hnumbering, hnumbering.labels.trans (by decide)⟩

end Lts

end ModalMu
