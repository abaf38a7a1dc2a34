import ModalMu.Text.Blank
import ModalMu.Text.Lines
import ModalMu.Text.Visible
import ModalMu.Text.Quoted
import ModalMu.Fault
import ModalMu.Index
import ModalMu.Table
import ModalMu.Registry
import ModalMu.Level
import ModalMu.StateSet.Word
import ModalMu.StateSet.Basic
import ModalMu.StateSet.Members
import ModalMu.StateSet.Registers
import ModalMu.Formula.Basic
import ModalMu.Formula.Comment
import ModalMu.Formula.Depth
import ModalMu.Formula.Scoping
import ModalMu.Formula.Dependency
import ModalMu.Formula.Printer
import ModalMu.Formula.Shape
import ModalMu.Formula.Parser
import ModalMu.Lts.Basic
import ModalMu.Lts.Aldebaran
import ModalMu.Solver.Run
import ModalMu.Solver.Modality
import ModalMu.Solver.Solution
import ModalMu.Solver.Naive
import ModalMu.Solver.EmersonLei
import ModalMu.Folder
import ModalMu.Cli
import ModalMu.Main
import ModalMu.Proofs.Sets
import ModalMu.Proofs.Steps
import ModalMu.Proofs.Fixpoint
import ModalMu.Proofs.FreeVariables
import ModalMu.Proofs.Denotation
import ModalMu.Proofs.Loop
import ModalMu.Proofs.Naive
import ModalMu.Proofs.Dependency
import ModalMu.Proofs.Occurrences
import ModalMu.Proofs.Approximations
import ModalMu.Proofs.EmersonLei
import ModalMu.Proofs.IncompleteAnalysis
import ModalMu.Proofs.Grammar
import ModalMu.Proofs.Shapes
import ModalMu.Proofs.Reading
import ModalMu.Proofs.RoundTrip
import ModalMu.Proofs.Depth
import ModalMu.Proofs.Registers
import ModalMu.Proofs.Listing
import ModalMu.Proofs.Lockstep
import ModalMu.Proofs.Duality
import ModalMu.Proofs.Bisimulation
import ModalMu.Proofs.Aldebaran
import ModalMu.Proofs.Malformed
import ModalMu.Proofs.Combinators
import ModalMu.Proofs.Construction
import ModalMu.Proofs.InPlace
import ModalMu.Proofs.Trace
import ModalMu.Proofs.OneWay
import ModalMu.Proofs.RoundBound
import ModalMu.Proofs.StrictAlternation
import ModalMu.Proofs.Interning
import ModalMu.Proofs.Queries
import ModalMu.Proofs.Reordering
import ModalMu.Proofs.Alternation
import ModalMu.Proofs.Renaming
import ModalMu.Proofs.Monotonicity
import ModalMu.Proofs.Typesetting
import ModalMu.Proofs.SyntaxErrors
import ModalMu.Proofs.Comments
