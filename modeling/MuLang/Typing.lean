import MuLang.Resolve
import MuLang.Term.Reader
import MuLang.Text.Numeral

/-!
# Typing of terms

Resolves the names of a term and finds the types of its parts, from left to right, up to the first
error. All that a check changes is which locals count as initialized, since an assignment inside an
expression gives its variable a value.
-/
namespace MuLang

/-- A check against the scopes of a point. What it has marked as initialized stays so when it
fails. -/
abbrev Check := ExceptT Error (StateM ScopeStack)

/-- Whether a text is in the range of a kind of literal. -/
def Literal.accepts (kind : Literal) (text : String) : Bool :=
  match kind with
  | .integer => Text.isSignedInteger 32 text
  | .long => Text.isSignedInteger 64 text
  | .double | .float => Text.isFloatingPoint text
  | .char => text.toList.length = 1
  | .bool | .string | .null => true

namespace Env

/-- A literal whose text is in range. -/
def literal (kind : Literal) (value : Token) : Except Error Expr :=
  if kind.accepts value.text then .ok (.literal kind.datatype value)
  else .error (.atToken (.malformedNumber value.text) value)

/-- A read of a variable. A local must have been given a value before. -/
def read (env : Env) (scopes : ScopeStack) (identifier : Token) : Except Error Expr :=
  match env.resolve scopes identifier with
  | .error error => .error error
  | .ok ⟨.localAt _, v⟩ =>
    if v.initialized then .ok (.read v.datatype identifier)
    else .error (.atToken (.variableNotInitialized identifier.text) identifier)
  | .ok ⟨.globalOf _, v⟩ => .ok (.read v.datatype identifier)

/-- A binary operation on two typed operands. -/
def binary (left : Expr) (op : BinaryOp) (operator : Token) (right : Expr) : Except Error Expr :=
  match Datatype.binary op left.type right.type with
  | some type => .ok (.binary type left operator right)
  | none => .error (.atToken (.operatorMismatch operator.text
      (left.type.describe ++ " and " ++ right.type.describe)) operator)

/-- A unary operation on a typed operand. -/
def unary (op : UnaryOp) (operator : Token) (right : Expr) : Except Error Expr :=
  match Datatype.unary op right.type with
  | some type => .ok (.unary type operator right)
  | none => .error (.atToken (.operatorMismatch operator.text right.type.describe) operator)

/-- A cast of a typed value. Nothing is cast to `void`. -/
def cast (name : TypeName) (target : Token) (value : Expr) : Except Error Expr :=
  let type := Datatype.plain (.ofTypeName name)
  if name = .void then
    .error (.atToken (.unexpectedTokenDetailed target.text "cannot cast to void") target)
  else if value.type.castsTo type then .ok (.cast type target value)
  else .error ⟨.typeMismatch ("a value castable to " ++ type.describe) value.type.describe,
    value.span.start, []⟩

/-- Carries out an assignment, which has the type of the variable. -/
def store (env : Env) (identifier operator : Token) (value : Expr) : Check Datatype := do
  let (type, scopes) ← ofExcept (env.assign (← get) identifier operator value)
  set scopes
  return type

end Env

namespace Term

mutual

/-- The typed expression that a term stands for. -/
def check (env : Env) : Term → Check Expr
  | .literal kind value => ofExcept (Env.literal kind value)
  | .read identifier => do ofExcept (env.read (← get) identifier)
  | .binary left op operator right => do
    let left ← check env left
    let right ← check env right
    ofExcept (Env.binary left op operator right)
  | .unary op operator right => do
    let right ← check env right
    ofExcept (Env.unary op operator right)
  | .cast type target value => do
    let value ← check env value
    ofExcept (Env.cast type target value)
  | .assign assignee operator value => do
    let value ← check env value
    let type ← env.store assignee operator value
    return .assign type assignee operator value
  | .call callee arguments => do
    let arguments ← checkAll env arguments
    let type ← ofExcept (env.call (← get).currentModule callee (arguments.map Expr.type))
    return .call type callee arguments
  | .broken parts error => do
    let _ ← checkAll env parts
    throw error

/-- The typed expressions that some terms stand for, checked one after the other. -/
def checkAll (env : Env) : List Term → Check (List Expr)
  | [] => return []
  | term :: rest => do
    let first ← check env term
    let others ← checkAll env rest
    return first :: others

end

end Term

/-- Reads and types the tokens of an expression, which is missing after `context` where there are
none. -/
def Env.expression (env : Env) (tokens : List Token) (context : Token) : Check Expr :=
  (Term.ofTokens tokens context).check env

end MuLang
