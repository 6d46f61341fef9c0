import MuLang.Analysis
import MuLang.Settings.Reader
import MuLang.Token.Lexer
import MuLang.Proofs.Check
import MuLang.Proofs.Agreement
import MuLang.Proofs.Raises
import MuLang.Proofs.Ordinary
import MuLang.Proofs.Passes
import MuLang.Proofs.Braces
import MuLang.Proofs.Definable
import MuLang.Proofs.Placement
import MuLang.Proofs.Image
import MuLang.Proofs.WellDefined
import MuLang.Proofs.Relaxation
import MuLang.Proofs.Assignment
import MuLang.Proofs.Fault
import MuLang.Proofs.Located
import MuLang.Proofs.Reached
import MuLang.Proofs.Drawn
import MuLang.Proofs.Position
import MuLang.Proofs.Independence
import MuLang.Proofs.Inventory
import MuLang.Proofs.Course
import MuLang.Proofs.Host
import MuLang.Proofs.Parameters
import MuLang.Proofs.Nullability
import MuLang.Proofs.Trees
import MuLang.Proofs.Exchange
import MuLang.Proofs.Order
import MuLang.Proofs.Overloading
import MuLang.Proofs.Effects
import MuLang.Proofs.Places.Definitions
import MuLang.Proofs.Places.Readings
import MuLang.Proofs.Places.Sameness
import MuLang.Proofs.Parts
import MuLang.Proofs.Rewording
import MuLang.Proofs.Increments
import MuLang.Proofs.Compound
import MuLang.Proofs.Arrow
import MuLang.Proofs.Limits
import MuLang.Proofs.Grouping
import MuLang.Proofs.Run
import MuLang.Proofs.Void
import MuLang.Proofs.Guarded.Parse
import MuLang.Proofs.Inference
import MuLang.Proofs.Nearest
import MuLang.Proofs.Locals
import MuLang.Proofs.Signatures
import MuLang.Proofs.Branches
import MuLang.Proofs.Lexer.Tokens
import MuLang.Proofs.Lexer.Seam
import MuLang.Proofs.Lexer.Literals
import MuLang.Proofs.Lexer.Decimals
