import ModalMu.Proofs.Aldebaran
import ModalMu.Proofs.Steps

/-!
# Construction and its failures

A system is refused for one reason only, and the reasons have an order: the announced number of
transitions, the first state that is out of range, the room for the states.

* `namedStates` — the states in the order in which they are checked; `build_unknown` and
  `build_known` say what becomes of them;
* `foldlM_eq_ok` — **a loop with checks returns what the loop without them computes**, if an
  invariant makes every check succeed;
* `ofEdges?`, `diamond?`, `box?` — construction and the two modalities with every place and every
  new member checked, so that one out of range is refused;
* `InRange`, `inRange_of_build` — in a system that was built, no check ever fails;
* `parse_outcome` — what becomes of a text of the grammar.
-/

namespace ModalMu

namespace Lts

variable {fits : Nat → Bool} {first n : Nat} {ts : List Transition} {lts : Lts}

/-! ### The order of the checks -/

/-- **The states that are checked**, in this order: the first one, then the start and the target of
each transition. -/
def namedStates (first : Nat) (ts : List Transition) : List Nat :=
  first :: ts.flatMap fun t => [t.start, t.target]

theorem checkState_of_le {s : Nat} (hs : n ≤ s) : checkState n s = .error (.unknownState s n) :=
  if_neg (Nat.not_lt.2 hs)

theorem checkState_of_lt {s : Nat} (hs : s < n) : checkState n s = .ok () := if_pos hs

/-- A transition is refused for its start, or else for its target. -/
theorem takeIn_unknown {acc : Registry String × Table Edge} {t : Transition} {s : Nat}
    (h : [t.start, t.target].find? (n ≤ ·) = some s) :
    takeIn n acc t = .error (.unknownState s n) := by
  rw [takeIn]
  rcases Nat.lt_or_ge t.start n with hstart | hstart
  · rcases Nat.lt_or_ge t.target n with htarget | htarget
    · simp [Nat.not_le.2 hstart, Nat.not_le.2 htarget] at h
    · obtain rfl : t.target = s := by simpa [Nat.not_le.2 hstart, htarget] using h
      rw [checkState_of_lt hstart, checkState_of_le htarget]
      rfl
  · obtain rfl : t.start = s := by simpa [hstart] using h
    rw [checkState_of_le hstart]
    rfl

theorem takeIn_known (acc : Registry String × Table Edge) {t : Transition}
    (h : [t.start, t.target].find? (n ≤ ·) = none) : ∃ acc', takeIn n acc t = .ok acc' := by
  have hlt : t.start < n ∧ t.target < n := by simpa using h
  rw [takeIn, checkState_of_lt hlt.1, checkState_of_lt hlt.2]
  exact ⟨_, rfl⟩

/-- **The first state out of range is the one reported.** -/
theorem foldlM_takeIn_unknown {acc : Registry String × Table Edge} {s : Nat}
    (h : (ts.flatMap fun t => [t.start, t.target]).find? (n ≤ ·) = some s) :
    ts.foldlM (takeIn n) acc = .error (.unknownState s n) := by
  induction ts generalizing acc with
  | nil => cases h
  | cons t ts ih =>
    rw [List.flatMap_cons, List.find?_append] at h
    rw [List.foldlM_cons]
    rcases ht : [t.start, t.target].find? (n ≤ ·) with _ | s'
    · obtain ⟨acc', hacc'⟩ := takeIn_known acc ht
      rw [ht, Option.none_or] at h
      rw [hacc']
      exact ih h
    · rw [ht, Option.some_or] at h
      cases h
      rw [takeIn_unknown ht]
      rfl

/-- With all states in range every transition is taken in. -/
theorem foldlM_takeIn_known (acc : Registry String × Table Edge)
    (h : (ts.flatMap fun t => [t.start, t.target]).find? (n ≤ ·) = none) :
    ∃ acc', ts.foldlM (takeIn n) acc = .ok acc' := by
  induction ts generalizing acc with
  | nil => exact ⟨acc, rfl⟩
  | cons t ts ih =>
    rw [List.flatMap_cons, List.find?_append, Option.or_eq_none_iff] at h
    obtain ⟨acc₁, hacc₁⟩ := takeIn_known acc h.1
    obtain ⟨acc', hacc'⟩ := ih acc₁ h.2
    refine ⟨acc', ?_⟩
    rw [List.foldlM_cons, hacc₁]
    exact hacc'

/-- **A state out of range comes before anything else**, and it is the first one. -/
theorem build_unknown {s : Nat} (h : (namedStates first ts).find? (n ≤ ·) = some s) :
    build fits first n ts = .error (.unknownState s n) := by
  rw [namedStates, List.find?_cons] at h
  rw [build]
  rcases Nat.lt_or_ge first n with hfirst | hfirst
  · simp only [Nat.not_le.2 hfirst, decide_false] at h
    rw [checkState_of_lt hfirst, foldlM_takeIn_unknown h]
    rfl
  · obtain rfl : first = s := by simpa [hfirst] using h
    rw [checkState_of_le hfirst]
    rfl

/-- With all states in range, it is the room that decides. -/
theorem build_known (fits : Nat → Bool) (h : (namedStates first ts).find? (n ≤ ·) = none) :
    if fits n then ∃ lts, build fits first n ts = .ok lts
    else build fits first n ts = .error (.tooManyStates n) := by
  rw [namedStates, List.find?_cons] at h
  rcases Nat.lt_or_ge first n with hfirst | hfirst
  · simp only [Nat.not_le.2 hfirst, decide_false] at h
    obtain ⟨⟨labels, edges⟩, hfold⟩ := foldlM_takeIn_known (Registry.empty, Table.empty) h
    have hbuild : build fits first n ts =
        if fits n then .ok (ofEdges first n labels edges) else .error (.tooManyStates n) := by
      rw [build, checkState_of_lt hfirst, hfold]
      rfl
    rw [hbuild]
    split
    · exact ⟨_, rfl⟩
    · rfl
  · simp [hfirst] at h

/-! ### Loops with checks -/

/-- **A loop with checks returns what the loop without them computes**, if the checks succeed
wherever the invariant `I` holds. -/
theorem foldlM_eq_ok {α β : Type} {f : β → α → Except Fault β} {g : β → α → β} {I : β → Prop}
    {as : List α} (hstep : ∀ b, I b → ∀ a ∈ as, f b a = .ok (g b a) ∧ I (g b a)) {b : β}
    (hb : I b) : as.foldlM f b = .ok (as.foldl g b) := by
  induction as generalizing b with
  | nil => rfl
  | cons a as ih =>
    obtain ⟨hf, hg⟩ := hstep b hb a List.mem_cons_self
    rw [List.foldlM_cons, hf]
    exact ih (fun b hb a ha => hstep b hb a (List.mem_cons_of_mem _ ha)) hg

/-- Changes the row at a place, which must be there. -/
def modifyRow {α : Type} (rows : Array α) (i : Nat) (f : α → Except Fault α) :
    Except Fault (Array α) :=
  match rows[i]? with
  | some row => (f row).map (rows.setIfInBounds i)
  | none => .error .outOfRange

theorem modifyRow_eq_ok {α : Type} {rows : Array α} {i : Nat} {row : α} {f : α → Except Fault α}
    {g : α → α} (hi : rows[i]? = some row) (hf : f row = .ok (g row)) :
    modifyRow rows i f = .ok (rows.modify i g) := by
  simp only [modifyRow, hi, hf]
  refine congrArg Except.ok (Array.ext_getElem? fun j => ?_)
  rw [Array.getElem?_setIfInBounds, Array.getElem?_modify]
  by_cases hij : i = j
  · subst hij
    obtain ⟨hlt, -⟩ := Array.getElem?_eq_some_iff.1 hi
    simp only [hi, hlt, if_true, Option.map_some]
  · rw [if_neg hij, if_neg hij]

/-- `groupEdges` with every place checked. -/
def groupEdges? (n : Nat) (part : Edge → Nat) (edges : List Edge) :
    Except Fault (Array (Array Nat)) :=
  edges.zipIdx.foldlM (fun rows (e, i) => modifyRow rows (part e) fun row => .ok (row.push i))
    (Array.replicate n #[])

/-- `addSuccessor` with the new member checked. -/
def addSuccessor? (stateCount : Nat) (successors : Std.TreeMap Nat StateSet) (e : Edge) :
    Except Fault (Std.TreeMap Nat StateSet) :=
  let known := successors.getD e.start (StateSet.empty stateCount)
  (known.add e.target).map (successors.insert e.start)

/-- `groupSuccessors` with every place and every new member checked. -/
def groupSuccessors? (n stateCount : Nat) (edges : List Edge) :
    Except Fault (Array (Std.TreeMap Nat StateSet)) :=
  edges.foldlM (fun maps e => modifyRow maps e.label (addSuccessor? stateCount · e))
    (Array.replicate n ∅)

/-- **`ofEdges` with every place and every new member checked.** -/
def ofEdges? (first stateCount : Nat) (labels : Registry String) (edges : Table Edge) :
    Except Fault Lts := do
  let list := edges.rows.toList
  let byLabel ← groupEdges? labels.size (·.label) list
  let byStart ← groupEdges? stateCount (·.start) list
  let byTarget ← groupEdges? stateCount (·.target) list
  let successorMaps ← groupSuccessors? labels.size stateCount list
  return { first, stateCount, labels, edges, byLabel, byStart, byTarget, successorMaps }

/-- `successorSets` with the place of the label checked. -/
def successorSets? (lts : Lts) (label : String) : Except Fault (List (Nat × StateSet)) :=
  match lts.labelId? label with
  | none => .ok []
  | some l =>
    match lts.successorMaps[l]? with
    | some successors => .ok successors.toList
    | none => .error .outOfRange

/-- **`diamond` with every place and every new member checked.** -/
def diamond? (lts : Lts) (action : String) (target : StateSet) : Except Fault StateSet := do
  let rows ← lts.successorSets? action
  rows.foldlM
    (fun found (state, successors) =>
      if successors.intersects target then found.add state else .ok found)
    lts.emptySet

/-- **`box` with every place checked.** Members are only removed, which needs no check. -/
def box? (lts : Lts) (action : String) (target : StateSet) : Except Fault StateSet := do
  let rows ← lts.successorSets? action
  return rows.foldl
    (fun left (state, successors) =>
      if successors.subset target then left else left.erase state)
    lts.fullSet

/-! ### No check fails -/

theorem groupEdges?_eq_ok {k : Nat} {part : Edge → Nat} {edges : List Edge}
    (hrange : ∀ e ∈ edges, part e < k) :
    groupEdges? k part edges = .ok (groupEdges k part edges) := by
  refine foldlM_eq_ok (I := fun rows => rows.size = k) ?_ Array.size_replicate
  rintro rows hsize ⟨e, i⟩ he
  have hlt : part e < rows.size := hsize ▸ hrange e (List.fst_mem_of_mem_zipIdx he)
  refine ⟨modifyRow_eq_ok (Array.getElem?_eq_getElem hlt) rfl, ?_⟩
  rw [Array.size_modify, hsize]

/-- The sets that a loop over edges has collected are over the states of the system. -/
def SetsOver (n : Nat) (m : Std.TreeMap Nat StateSet) : Prop :=
  ∀ (s : Nat) (S : StateSet), m[s]? = some S → S.univ = n

theorem SetsOver.getD {m : Std.TreeMap Nat StateSet} (h : SetsOver n m) (s : Nat) :
    (m.getD s (StateSet.empty n)).univ = n := by
  rw [Std.TreeMap.getD_eq_getD_getElem?]
  rcases hS : m[s]? with _ | S
  · rfl
  · exact h s S hS

theorem SetsOver.addSuccessor {m : Std.TreeMap Nat StateSet} (h : SetsOver n m) (e : Edge) :
    SetsOver n (Lts.addSuccessor n m e) := by
  intro s S hS
  simp only [Lts.addSuccessor, Std.TreeMap.getElem?_insert] at hS
  split at hS
  · cases hS
    rw [StateSet.univ_insert, h.getD]
  · exact h s S hS

theorem addSuccessor?_eq_ok {m : Std.TreeMap Nat StateSet} (h : SetsOver n m) {e : Edge}
    (he : e.target < n) : addSuccessor? n m e = .ok (Lts.addSuccessor n m e) := by
  have hlt : e.target < (m.getD e.start (StateSet.empty n)).univ := (h.getD e.start).symm ▸ he
  rw [addSuccessor?, StateSet.add, if_pos hlt]
  rfl

theorem groupSuccessors?_eq_ok {k : Nat} {edges : List Edge}
    (hrange : ∀ e ∈ edges, e.label < k ∧ e.target < n) :
    groupSuccessors? k n edges = .ok (groupSuccessors k n edges) := by
  refine foldlM_eq_ok
    (I := fun maps => maps.size = k ∧ ∀ (l : Nat) m, maps[l]? = some m → SetsOver n m) ?_ ?_
  · rintro maps ⟨hsize, hover⟩ e he
    obtain ⟨hlabel, htarget⟩ := hrange e he
    have hget : maps[e.label]? = some maps[e.label] := Array.getElem?_eq_getElem (hsize ▸ hlabel)
    refine ⟨modifyRow_eq_ok hget (addSuccessor?_eq_ok (hover _ _ hget) htarget), ?_, ?_⟩
    · rw [Array.size_modify, hsize]
    · intro l m hm
      rw [Array.getElem?_modify] at hm
      split at hm
      · obtain ⟨m', hm', rfl⟩ := Option.map_eq_some_iff.1 hm
        exact (hover l m' hm').addSuccessor e
      · exact hover l m hm
  · refine ⟨Array.size_replicate, fun l m hm s S hS => ?_⟩
    rw [Array.getElem?_replicate] at hm
    split at hm
    · cases hm
      simp at hS
    · cases hm

/-- **No check fails while the indexes are made**, if the parts of all edges are in range. -/
theorem ofEdges?_eq_ok {labels : Registry String} {edges : Table Edge}
    (hrange : ∀ e ∈ edges.rows.toList, e.start < n ∧ e.label < labels.size ∧ e.target < n) :
    ofEdges? first n labels edges = .ok (ofEdges first n labels edges) := by
  rw [ofEdges?, groupEdges?_eq_ok fun e he => (hrange e he).2.1,
    groupEdges?_eq_ok fun e he => (hrange e he).1,
    groupEdges?_eq_ok fun e he => (hrange e he).2.2,
    groupSuccessors?_eq_ok fun e he => (hrange e he).2]
  rfl

/-- **Nothing about a system is out of range.** -/
structure InRange (lts : Lts) : Prop where
  /-- the first state is a state -/
  first_lt : lts.first < lts.stateCount
  /-- edges lead from states to states -/
  edges_lt : ∀ e ∈ lts.edges.rows.toList, e.start < lts.stateCount ∧ e.target < lts.stateCount
  /-- no check fails while the indexes are made -/
  ofEdges? : Lts.ofEdges? lts.first lts.stateCount lts.labels lts.edges = .ok lts
  /-- no check fails in a diamond, whatever the label and the target -/
  diamond? : ∀ action target, lts.diamond? action target = .ok (lts.diamond action target)
  /-- no check fails in a box -/
  box? : ∀ action target, lts.box? action target = .ok (lts.box action target)

/-- A label with a number has its place. -/
theorem successorSets?_eq_ok (h : build fits first n ts = .ok lts) (a : String) :
    lts.successorSets? a = .ok (lts.successorSets a) := by
  rw [successorSets?, successorSets, successorMap]
  rcases hid : lts.labelId? a with _ | l
  · rfl
  · have htarget : ∀ e ∈ lts.edges.rows.toList, e.target < n :=
      fun e he => (lt_of_mem_edges h he).2.2
    obtain ⟨-, -, labels, edges, -, rfl⟩ := build_eq_ok h
    have hl : l < labels.size :=
      Registry.lt_size_of_get? ((labels.indexOf?_eq_some_iff a l).1 hid)
    obtain ⟨m, hm, -⟩ := collects_groupSuccessors htarget hl
    have hget : (ofEdges first n labels edges).successorMaps[l]? = some m := hm
    simp only [hget, Option.bind_some, Option.getD_some]

theorem diamond?_eq_ok (h : build fits first n ts = .ok lts) (a : String) (target : StateSet) :
    lts.diamond? a target = .ok (lts.diamond a target) := by
  rw [diamond?, successorSets?_eq_ok h]
  refine foldlM_eq_ok (I := fun found => found.univ = n) ?_ (stateCount_eq h)
  rintro found huniv ⟨state, successors⟩ hrow
  have hlt : state < found.univ := huniv ▸ lt_of_mem_successorSets h hrow
  dsimp only
  split
  · refine ⟨if_pos hlt, ?_⟩
    rw [StateSet.univ_insert, huniv]
  · exact ⟨rfl, huniv⟩

/-- **In a system that was built nothing is out of range.** -/
theorem inRange_of_build (h : build fits first n ts = .ok lts) : InRange lts := by
  have hdiamond := diamond?_eq_ok h
  have hbox : ∀ a target, lts.box? a target = .ok (lts.box a target) := by
    intro a target
    rw [box?, successorSets?_eq_ok h]
    rfl
  have hedges : ∀ e ∈ lts.edges.rows.toList,
      e.start < n ∧ e.label < lts.labels.size ∧ e.target < n := fun e he => lt_of_mem_edges h he
  obtain ⟨hfirst, -, labels, edges, -, rfl⟩ := build_eq_ok h
  exact ⟨hfirst, fun e he => ⟨(hedges e he).1, (hedges e he).2.2⟩, ofEdges?_eq_ok hedges, hdiamond,
    hbox⟩

end Lts

/-! ### Texts -/

namespace Aldebaran

/-- **What becomes of a text of the grammar**, where `fits` tells whether there is room for so many
states. The number of transitions is compared before any state is looked at; then the first state
out of range is reported; then the room decides, and in a system that is returned nothing is out of
range. -/
theorem parse_outcome (fits : Nat → Bool) {s : String} {h : Header} {ts : List Transition}
    (hdoc : Document s.toList h ts) :
    if ts.length ≠ h.transitions then
      parseWithin fits s = .error (.transitionCount h.transitions ts.length)
    else
      match (Lts.namedStates h.first ts).find? (h.states ≤ ·) with
      | some state => parseWithin fits s = .error (.build (.unknownState state h.states))
      | none =>
        if fits h.states then
          ∃ lts, parseWithin fits s = .ok lts ∧ lts.stateCount = h.states ∧ lts.InRange
        else parseWithin fits s = .error (.build (.tooManyStates h.states)) := by
  rw [hdoc.parseWithin_eq]
  by_cases hcount : ts.length = h.transitions
  · rw [if_neg (not_not.2 hcount), if_pos hcount]
    rcases hfind : (Lts.namedStates h.first ts).find? (h.states ≤ ·) with _ | state
    · have hbuild := Lts.build_known fits hfind
      dsimp only
      split
      · rename_i hfits
        rw [if_pos hfits] at hbuild
        obtain ⟨lts, hlts⟩ := hbuild
        rw [hlts]
        exact ⟨lts, rfl, Lts.stateCount_eq hlts, Lts.inRange_of_build hlts⟩
      · rename_i hfits
        rw [if_neg hfits] at hbuild
        rw [hbuild]
        rfl
    · dsimp only
      rw [Lts.build_unknown hfind]
      rfl
  · rw [if_pos hcount, if_neg hcount]

/-- Two states are out of range, the first of them as the target of a transition. -/
theorem parse_outcome_two_unknown :
    Document "des (0,2,2)\n(0,\"a\",5)\n(9,\"b\",1)".toList ⟨0, 2, 2⟩
        [⟨0, "a", 5⟩, ⟨9, "b", 1⟩] ∧
      parse "des (0,2,2)\n(0,\"a\",5)\n(9,\"b\",1)" =
        .error (.build (.unknownState 5 2)) := by
  have hdoc : Document "des (0,2,2)\n(0,\"a\",5)\n(9,\"b\",1)".toList ⟨0, 2, 2⟩
      [⟨0, "a", 5⟩, ⟨9, "b", 1⟩] := readChars_eq_ok_iff.1 (by decide +kernel)
  exact ⟨hdoc, parse_outcome (· ≤ Lts.capacity) hdoc⟩

end Aldebaran

end ModalMu
