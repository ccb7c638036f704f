import Polytype.Inference
import Polytype.Proofs.Accounts
import Polytype.Proofs.Annotations
import Polytype.Proofs.Assignments
import Polytype.Proofs.Chapters
import Polytype.Proofs.Collapse
import Polytype.Tree.Build
import Polytype.Tree.Nodes
import Polytype.Unify.Levels
import Polytype.Proofs.Commitments
import Polytype.Proofs.Composition
import Polytype.Proofs.Conflicts
import Polytype.Proofs.Equivalence
import Polytype.Proofs.ErrorOrder
import Polytype.Proofs.Failures
import Polytype.Proofs.FaultOrder
import Polytype.Proofs.Flags
import Polytype.Proofs.Folding
import Polytype.Proofs.Hygiene
import Polytype.Proofs.Independence
import Polytype.Proofs.Truthful
import Polytype.Proofs.UnboundNames
import Polytype.Proofs.Unification
import Polytype.Proofs.MostGeneral
import Polytype.Proofs.Sites
import Polytype.Proofs.Slots
import Polytype.Proofs.Solutions
import Polytype.Proofs.Steps
import Polytype.Proofs.Notes
import Polytype.Proofs.Walk.Trace
import Polytype.Proofs.Renaming.Types
import Polytype.Proofs.Renaming.Walk
import Polytype.Proofs.Renaming.Contexts
import Polytype.Proofs.Renaming.Texts
import Polytype.Proofs.Renaming.Unification
import Polytype.Proofs.Schemes
import Polytype.Proofs.Scopes
import Polytype.Proofs.Walk.Bare
import Polytype.Proofs.Walk.Clean
import Polytype.Proofs.Typing.Rules
import Polytype.Proofs.Prelude
import Polytype.Proofs.Walk.Contexts
import Polytype.Proofs.Walk.Course
import Polytype.Proofs.Walk.Findings
import Polytype.Proofs.Walk.Moments
import Polytype.Proofs.Walk.Upkeep
import Polytype.Proofs.Typing.Models
import Polytype.Proofs.Typing.Checks
import Polytype.Proofs.Typing.Sound
import Polytype.Proofs.Flat
import Polytype.Proofs.Typing.Follows
import Polytype.Proofs.Typing.Tracks
import Polytype.Proofs.Typing.Complete
import Polytype.Proofs.Typing.Principal
import Polytype.Proofs.WellFormed
import Polytype.Proofs.Symmetry
import Polytype.Proofs.Termination
import Polytype.Proofs.Traversal
import Polytype.Proofs.Trials
import Polytype.Proofs.Variants
import Polytype.Proofs.Placement
import Polytype.Proofs.Restoration
import Polytype.Proofs.Printing.Expressions
import Polytype.Proofs.Printing.Types
