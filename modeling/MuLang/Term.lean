import MuLang.Diagnostic.Error
import MuLang.Expr

/-!
# Terms

Expressions as they are written, before names are resolved and types are known. Where the tokens
stop making sense the term holds the error at that place, after everything that was read before it,
so that a check from left to right comes upon the errors of a program in the order of its text.
-/
namespace MuLang

/-- An expression as it is written. -/
inductive Term where
  | literal (kind : Literal) (value : Token)
  | read (identifier : Token)
  | binary (left : Term) (op : BinaryOp) (operator : Token) (right : Term)
  | unary (op : UnaryOp) (operator : Token) (right : Term)
  | cast (type : TypeName) (target : Token) (value : Term)
  | assign (assignee operator : Token) (value : Term)
  | call (callee : Token) (arguments : List Term)
  /-- What was read before a fault, and the fault. -/
  | broken (parts : List Term) (error : Error)
  deriving Inhabited

end MuLang
