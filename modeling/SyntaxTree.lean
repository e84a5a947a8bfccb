import SyntaxTree.Action
import SyntaxTree.Main
import SyntaxTree.Proofs.Run
import SyntaxTree.Proofs.Resemblance
import SyntaxTree.Proofs.Index
import SyntaxTree.Proofs.Neighbours
import SyntaxTree.Proofs.Climbing
import SyntaxTree.Proofs.Forest
import SyntaxTree.Proofs.Successor
import SyntaxTree.Proofs.Grafting
import SyntaxTree.Proofs.Adjacency
import SyntaxTree.Proofs.Construction
import SyntaxTree.Proofs.Refused
import SyntaxTree.Proofs.Congruence
import SyntaxTree.Proofs.Twins
import SyntaxTree.Proofs.Lockstep
import SyntaxTree.Proofs.TwinCopies
import SyntaxTree.Proofs.Calls
import SyntaxTree.Proofs.History
import SyntaxTree.Proofs.Liveness
import SyntaxTree.Proofs.Trimming
import SyntaxTree.Proofs.Cloning
import SyntaxTree.Proofs.Making
import SyntaxTree.Proofs.Grown
import SyntaxTree.Proofs.Removal
import SyntaxTree.Proofs.Absence
import SyntaxTree.Proofs.Attachment
import SyntaxTree.Proofs.Ancestry
import SyntaxTree.Proofs.Comparison
import SyntaxTree.Proofs.Contents
import SyntaxTree.Proofs.CopiedContents
import SyntaxTree.Proofs.Duplicates
import SyntaxTree.Proofs.EqualEntries
import SyntaxTree.Proofs.Outlines
import SyntaxTree.Proofs.FreshCopies
import SyntaxTree.Proofs.Divergence
import SyntaxTree.Proofs.ConfinedCopies
import SyntaxTree.Proofs.Independence
import SyntaxTree.Proofs.Depth
import SyntaxTree.Proofs.Compilation
import SyntaxTree.Proofs.WaysUp
import SyntaxTree.Proofs.Searching
import SyntaxTree.Proofs.Places
import SyntaxTree.Proofs.Spans
import SyntaxTree.Proofs.Nesting
import SyntaxTree.Proofs.ReadingOrder
import SyntaxTree.Proofs.Rendering
import SyntaxTree.Proofs.Pictures
import SyntaxTree.Proofs.Rebuilding
import SyntaxTree.Proofs.Surplus
import SyntaxTree.Proofs.Extraction
import SyntaxTree.Proofs.Custody
import SyntaxTree.Proofs.LeadingBack
import SyntaxTree.Proofs.Vacancy
import SyntaxTree.Proofs.FieldOrder
import SyntaxTree.Proofs.OwnNames
import SyntaxTree.Proofs.Building
import SyntaxTree.Proofs.Positions
