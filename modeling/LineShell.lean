import LineShell.Editing.Assistant
import LineShell.Editing.Overlay
import LineShell.Evaluator.Drill
import LineShell.Main
import LineShell.Shell.Script
import LineShell.Proofs.Shell.Transcript
import LineShell.Proofs.Calculator.Levels
import LineShell.Proofs.Calculator.Completeness
import LineShell.Proofs.Calculator.Concatenation
import LineShell.Proofs.Calculator.Traversal
import LineShell.Proofs.Calculator.RoundTrip
import LineShell.Proofs.Shell.Preload
import LineShell.Proofs.Shell.Reach
import LineShell.Proofs.Shell.Signal
import LineShell.Proofs.Shell.Cutoff
import LineShell.Proofs.Calculator.Keywords
import LineShell.Proofs.Shell.Piping
import LineShell.Proofs.Calculator.Law
import LineShell.Proofs.Calculator.Locality
import LineShell.Proofs.Calculator.Course
import LineShell.Proofs.Calculator.Depth
import LineShell.Proofs.Calculator.Growth
import LineShell.Proofs.Calculator.Phase
import LineShell.Proofs.Calculator.Overflow
import LineShell.Proofs.Calculator.ReadBack
import LineShell.Proofs.Editing.Recognition
import LineShell.Proofs.Statement.Adding
import LineShell.Proofs.Statement.Occurrence
import LineShell.Proofs.Calculator.Precedence
import LineShell.Proofs.Shell.Garbling
import LineShell.Proofs.Shell.Framing
import LineShell.Proofs.Shell.Closing
import LineShell.Proofs.Calculator.Division
import LineShell.Proofs.Editing.Colouring
import LineShell.Proofs.Editing.Emphasis
import LineShell.Proofs.Editing.Completing
import LineShell.Proofs.Text.Cutting
import LineShell.Proofs.Calculator.Canonical
import LineShell.Proofs.Calculator.Literal
import LineShell.Proofs.Calculator.Discipline
