import Walkthrough.Main
import Walkthrough.Player
import Walkthrough.Proofs.Congruence
import Walkthrough.Proofs.Invariants
import Walkthrough.Proofs.Balance
import Walkthrough.Proofs.Limits
import Walkthrough.Proofs.Maps
import Walkthrough.Proofs.Points
import Walkthrough.Proofs.Parts
import Walkthrough.Proofs.Preservation
import Walkthrough.Proofs.Results
import Walkthrough.Proofs.Stages
import Walkthrough.Proofs.Replay
import Walkthrough.Proofs.Log
import Walkthrough.Proofs.Ownership
import Walkthrough.Proofs.Places
import Walkthrough.Proofs.Decimals
import Walkthrough.Proofs.Spelling
import Walkthrough.Proofs.Printing
import Walkthrough.Proofs.Grammar
import Walkthrough.Proofs.RoundTrip
import Walkthrough.Proofs.Vocabulary
import Walkthrough.Proofs.Substitution
import Walkthrough.Proofs.Replacement
import Walkthrough.Proofs.Plain
import Walkthrough.Proofs.Transparency
import Walkthrough.Proofs.Course
import Walkthrough.Proofs.Brackets
import Walkthrough.Proofs.Identity
import Walkthrough.Proofs.Unwinding
import Walkthrough.Proofs.Frames
import Walkthrough.Proofs.Nesting
import Walkthrough.Proofs.Functions
import Walkthrough.Proofs.Termination
import Walkthrough.Proofs.Derivations
import Walkthrough.Proofs.Outlines
import Walkthrough.Proofs.Recognition
import Walkthrough.Proofs.Positions
import Walkthrough.Proofs.Emitters
import Walkthrough.Proofs.Lines
import Walkthrough.Proofs.Cursor
import Walkthrough.Proofs.Scanning
import Walkthrough.Proofs.BlankLines
import Walkthrough.Proofs.Blocks
import Walkthrough.Proofs.LineBreaks
import Walkthrough.Proofs.Ranges
import Walkthrough.Proofs.Wording
import Walkthrough.Proofs.Comparison
import Walkthrough.Proofs.Presentations
import Walkthrough.Proofs.Exactness
import Walkthrough.Proofs.Indentation
import Walkthrough.Proofs.ValueTexts
import Walkthrough.Proofs.Equality
import Walkthrough.Proofs.Coverage
import Walkthrough.Proofs.Depths
import Walkthrough.Proofs.Operands
import Walkthrough.Proofs.Derivable
import Walkthrough.Proofs.Parentheses
import Walkthrough.Proofs.Characters
import Walkthrough.Proofs.Definitions
import Walkthrough.Proofs.ClearLog
import Walkthrough.Proofs.Segments
import Walkthrough.Proofs.MarkedText
import Walkthrough.Proofs.ScopeChanges
import Walkthrough.Proofs.Requests
import Walkthrough.Proofs.FinishedCalls
import Walkthrough.Proofs.Progress
import Walkthrough.Proofs.Coloring
