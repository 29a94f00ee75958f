import CellForth.Inspect
import CellForth.Main
import CellForth.Session
import CellForth.Proofs.Composition
import CellForth.Proofs.Discipline
import CellForth.Proofs.Termination
import CellForth.Proofs.Nesting
import CellForth.Proofs.Breakage
import CellForth.Proofs.Rules
import CellForth.Proofs.Calls
import CellForth.Proofs.Dialogue
import CellForth.Proofs.Sessions
import CellForth.Proofs.Extension
import CellForth.Proofs.Exit
import CellForth.Proofs.Positions
import CellForth.Proofs.Resources
import CellForth.Proofs.Reading
import CellForth.Proofs.Routes
import CellForth.Proofs.Frame
import CellForth.Proofs.Reporting
import CellForth.Proofs.Room
import CellForth.Proofs.Evaluation
import CellForth.Proofs.Casing
import CellForth.Proofs.Naming
import CellForth.Proofs.Storage
import CellForth.Proofs.Provenance
import CellForth.Proofs.Confinement
import CellForth.Proofs.Scanning
import CellForth.Proofs.Words
import CellForth.Proofs.Likeness
import CellForth.Proofs.Spacing
import CellForth.Proofs.Loading
import CellForth.Proofs.Failure
import CellForth.Proofs.Numerals
import CellForth.Proofs.Quoting
import CellForth.Proofs.Printing
import CellForth.Proofs.Decoding
import CellForth.Proofs.SourceLines
import CellForth.Proofs.StackEffects
import CellForth.Proofs.CellArithmetic
import CellForth.Proofs.Emission
