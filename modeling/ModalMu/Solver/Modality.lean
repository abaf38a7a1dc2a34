import ModalMu.Lts.Basic

/-!
# The two modalities

Both look only at the states that have a step with the action:

* `Lts.diamond` — the states with some step into a set;
* `Lts.box` — the states all of whose steps lead into a set, those without a step included.

The set may be over another universe than the system's; then the words that both have decide.
-/

namespace ModalMu

namespace Lts

/-- **The states with a step into `target`.** -/
def diamond (lts : Lts) (action : String) (target : StateSet) : StateSet :=
  (lts.successorSets action).foldl
    (fun found (state, successors) =>
      if successors.intersects target then found.insert state else found)
    lts.emptySet

/-- **The states whose steps all lead into `target`.** -/
def box (lts : Lts) (action : String) (target : StateSet) : StateSet :=
  (lts.successorSets action).foldl
    (fun left (state, successors) =>
      if successors.subset target then left else left.erase state)
    lts.fullSet

end Lts

end ModalMu
