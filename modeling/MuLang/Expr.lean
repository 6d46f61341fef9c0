import MuLang.Token

/-!
# Expressions

Expressions whose names are resolved and whose types are known. Each node carries the type of its
value.
-/
namespace MuLang

/-- A typed expression. -/
inductive Expr where
  | literal (type : Datatype) (value : Token)
  /-- A read of a local or global variable. -/
  | read (type : Datatype) (identifier : Token)
  | binary (type : Datatype) (left : Expr) (operator : Token) (right : Expr)
  | unary (type : Datatype) (operator : Token) (right : Expr)
  | cast (type : Datatype) (target : Token) (value : Expr)
  /-- An assignment used as a value, which has the type of the variable. -/
  | assign (type : Datatype) (assignee operator : Token) (value : Expr)
  | call (type : Datatype) (callee : Token) (arguments : List Expr)
  deriving Inhabited

namespace Expr

/-- The type of an expression's value. -/
def type : Expr → Datatype
  | .literal type _ => type
  | .read type _ => type
  | .binary type _ _ _ => type
  | .unary type _ _ => type
  | .cast type _ _ => type
  | .assign type _ _ _ => type
  | .call type _ _ => type

/-- The span of the token that an expression starts with; a cast starts with its type name. -/
def span : Expr → Span
  | .literal _ value => value.span
  | .read _ identifier => identifier.span
  | .binary _ left _ _ => left.span
  | .unary _ operator _ => operator.span
  | .cast _ target _ => target.span
  | .assign _ assignee _ _ => assignee.span
  | .call _ callee _ => callee.span

mutual

/-- Whether two expressions are the same but for the places of their tokens. -/
def same : Expr → Expr → Bool
  | .literal t a, .literal u b => t == u && a.same b
  | .read t a, .read u b => t == u && a.same b
  | .binary t l a r, .binary u m b s => t == u && l.same m && a.same b && r.same s
  | .unary t a r, .unary u b s => t == u && a.same b && r.same s
  | .cast t a v, .cast u b w => t == u && a.same b && v.same w
  | .assign t a o v, .assign u b p w => t == u && a.same b && o.same p && v.same w
  | .call t a vs, .call u b ws => t == u && a.same b && sameAll vs ws
  | _, _ => false

/-- Whether two lists of expressions are the same but for the places of their tokens. -/
def sameAll : List Expr → List Expr → Bool
  | [], [] => true
  | v :: vs, w :: ws => v.same w && sameAll vs ws
  | _, _ => false

end

end Expr

end MuLang
