import Edict.Interpreter
import Edict.SampleHost
import Edict.Proofs.TypedStack
import Edict.Proofs.Discipline
import Edict.Proofs.HostCalls
import Edict.Proofs.Folding
import Edict.Proofs.Meaning
import Edict.Proofs.Refinement
import Edict.Proofs.Building
import Edict.Proofs.Inertness
import Edict.Proofs.FoldedForm
import Edict.Proofs.Caching
import Edict.Proofs.Atomicity
import Edict.Proofs.Grammar
import Edict.Proofs.Slots
import Edict.Proofs.Reading
import Edict.Proofs.Contexts
import Edict.Proofs.Placement
import Edict.Proofs.Partition
import Edict.Proofs.Indexing
import Edict.Proofs.Tally
import Edict.Proofs.Journal
import Edict.Proofs.Handles
import Edict.Proofs.Spans
import Edict.Proofs.Cutting
import Edict.Proofs.DirectEvaluation
import Edict.Proofs.Words
import Edict.Proofs.Printing
import Edict.Proofs.Quotation
import Edict.Proofs.Parsed
import Edict.Proofs.ClosedExpressions
import Edict.Proofs.ClosedParts
import Edict.Proofs.StrictConstants
import Edict.Proofs.Rounding
import Edict.Proofs.FloatText
import Edict.Proofs.Shown
import Edict.Proofs.Clear
import Edict.Proofs.Eviction
import Edict.Proofs.Joining
import Edict.Proofs.Rebuilding
import Edict.Proofs.NativeCalls
import Edict.Proofs.Arithmetic
import Edict.Proofs.OperandKinds
import Edict.Proofs.ListElements
import Edict.Proofs.Assignment
import Edict.Proofs.Containment
import Edict.Proofs.Failures
import Edict.Proofs.Literals
import Edict.Proofs.Respacing
import Edict.Proofs.FloatEquality
import Edict.Proofs.Equality
import Edict.Proofs.ErrorPlaces
import Edict.Proofs.Nesting
import Edict.Proofs.IndexedReading
