import Wildcard.Glob.Span
import Wildcard.Session
import Wildcard.Proofs.Regex.Reach
import Wildcard.Proofs.Regex.Spans
import Wildcard.Proofs.Glob.Reading
import Wildcard.Proofs.Glob.Translation
import Wildcard.Proofs.Segmentation
import Wildcard.Proofs.Glob.Class
import Wildcard.Proofs.Glob.Denotation
import Wildcard.Proofs.Glob.Locality
import Wildcard.Proofs.Glob.Alignment
import Wildcard.Proofs.Glob.Literal
import Wildcard.Proofs.Session
import Wildcard.Proofs.Shortcut
import Wildcard.Proofs.Regex.Spots
import Wildcard.Proofs.Glob.Dotfiles
import Wildcard.Proofs.Predicate
import Wildcard.Proofs.Transparency
import Wildcard.Proofs.Selection
import Wildcard.Proofs.Glob.Order
import Wildcard.Proofs.Glob.Bounds
import Wildcard.Proofs.Compilation
import Wildcard.Proofs.Glob.Pairing
import Wildcard.Proofs.Glob.Negation
import Wildcard.Proofs.Subtraction
import Wildcard.Proofs.Irrelevance
import Wildcard.Proofs.Composition
import Wildcard.Proofs.Glob.Boundary
import Wildcard.Proofs.Glob.Relaxation
import Wildcard.Proofs.Complement
import Wildcard.Proofs.Contents
import Wildcard.Proofs.Registration
import Wildcard.Proofs.PatternSet
import Wildcard.Proofs.Document
import Wildcard.Proofs.Backslash
import Wildcard.Proofs.ClassPattern
import Wildcard.Proofs.Regex.Groups
import Wildcard.Proofs.Glob.Pieces
import Wildcard.Proofs.Insertion
import Wildcard.Proofs.Exclusion
import Wildcard.Proofs.LeadingDot
import Wildcard.Proofs.Glob.Balanced
import Wildcard.Proofs.Distribution
import Wildcard.Proofs.LiteralPattern
import Wildcard.Proofs.Omission
import Wildcard.Proofs.Glob.Scan
import Wildcard.Proofs.Glob.WellNested
import Wildcard.Proofs.Glob.Grammar
import Wildcard.Proofs.Glob.DeepGroups
import Wildcard.Proofs.Glob.Splitting
import Wildcard.Proofs.Glob.Progression
import Wildcard.Proofs.Eviction
import Wildcard.Proofs.Glob.Lookahead
import Wildcard.Proofs.Glob.Jumps
import Wildcard.Proofs.Glob.Recognition
import Wildcard.Proofs.Glob.Length
import Wildcard.Proofs.Length
import Wildcard.Proofs.Glob.Places
import Wildcard.Proofs.Parsing
