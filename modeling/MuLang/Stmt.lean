import MuLang.Expr

/-!
# Statements

The statements of a checked program, as a tree of nested blocks.
-/
namespace MuLang

/-- A parameter of a function: its modifiers, the name of its type and its own name. -/
structure Parameter where
  modifiers : List Token
  datatype : Token
  identifier : Token
  deriving DecidableEq, Inhabited

/-- What a function declaration says before its body. A function without a return type has a
synthetic `void`. -/
structure FunctionHeader where
  modifiers : List Token
  identifier : Token
  returnType : Token
  parameters : List Parameter
  deriving DecidableEq, Inhabited

/-- What a variable declaration says before its value. Where the type was inferred, the type name
is synthetic. -/
structure VariableHeader where
  modifiers : List Token
  identifier : Token
  datatype : Token
  deriving DecidableEq, Inhabited

/-- A statement that may also be the step of a `for` loop. `++` and `--` are assignments. -/
inductive Action where
  | assign (identifier operator : Token) (value : Expr)
  | call (identifier : Token) (arguments : List Expr)
  deriving Inhabited

mutual

/-- A statement. -/
inductive Stmt where
  | module (identifier : Token) (body : List Stmt)
  | function (header : FunctionHeader) (body : List Stmt)
  /-- A function that the host provides under the namespace `binding`. -/
  | native (header : FunctionHeader) (binding : Token)
  | declare (header : VariableHeader)
  | define (header : VariableHeader) (value : Expr)
  | action (action : Action)
  | ifElse (keyword : Token) (condition : Expr) (body : List Stmt) (otherwise : Else)
  | whileLoop (keyword : Token) (condition : Expr) (body : List Stmt)
  /-- A loop whose variable is visible in its condition, step and body. -/
  | forLoop (keyword : Token) (header : VariableHeader) (value condition : Expr) (step : Action)
      (body : List Stmt)
  | returning (keyword : Token) (value : Option Expr)
  /-- The end of standard-library mode. -/
  | stdlibFinish (keyword : Token)

/-- What follows the block of an `if`. -/
inductive Else where
  | absent
  | block (body : List Stmt)
  | elseIf (keyword : Token) (condition : Expr) (body : List Stmt) (otherwise : Else)

end

instance : Inhabited Stmt := ⟨.stdlibFinish default⟩
instance : Inhabited Else := ⟨.absent⟩

/-- The name a native function is looked up under: the namespace, a dot and its own name. -/
def nativeName (header : FunctionHeader) (binding : Token) : String :=
  binding.text ++ "." ++ header.identifier.text

namespace Else

/-- Extends a chain at its end by a branch, unless the chain already ends in an `else` block. -/
def attach (chain branch : Else) : Option Else :=
  match chain with
  | .absent => some branch
  | .block _ => none
  | .elseIf keyword condition body rest =>
    (rest.attach branch).map (.elseIf keyword condition body ·)

end Else

namespace Stmt

/-- The span of the token that names or introduces a statement. -/
def span : Stmt → Span
  | .module identifier _ => identifier.span
  | .function header _ => header.identifier.span
  | .native header _ => header.identifier.span
  | .declare header => header.identifier.span
  | .define header _ => header.identifier.span
  | .action (.assign identifier _ _) => identifier.span
  | .action (.call identifier _) => identifier.span
  | .ifElse keyword _ _ _ => keyword.span
  | .whileLoop keyword _ _ => keyword.span
  | .forLoop keyword _ _ _ _ _ => keyword.span
  | .returning keyword _ => keyword.span
  | .stdlibFinish keyword => keyword.span

/-- The name of a kind of statement. -/
def kindName : Stmt → String
  | .module .. => "CREATE_MODULE"
  | .function .. => "FUNCTION_DEFINITION"
  | .native .. => "NATIVE_FUNCTION_DEFINITION"
  | .declare .. => "VAR_DEFINITION"
  | .define .. => "VAR_DEF_AND_SET_VALUE"
  | .action (.assign ..) => "VAR_SET_VALUE"
  | .action (.call ..) => "FUNCTION_CALL"
  | .ifElse .. => "IF"
  | .whileLoop .. => "WHILE"
  | .forLoop .. => "FOR_FAKE_SCOPE"
  | .returning .. => "RETURN"
  | .stdlibFinish .. => "STANDARDLIB_FINISH"

/-- A block statement with its body filled in. -/
def withBody (body : List Stmt) : Stmt → Stmt
  | .module identifier _ => .module identifier body
  | .function header _ => .function header body
  | .ifElse keyword condition _ otherwise => .ifElse keyword condition body otherwise
  | .whileLoop keyword condition _ => .whileLoop keyword condition body
  | .forLoop keyword header value condition step _ =>
    .forLoop keyword header value condition step body
  | stmt => stmt

def isIf : Stmt → Bool
  | .ifElse .. => true
  | _ => false

end Stmt

/-! ## Sameness but for places -/

/-- Whether two lists of tokens are the same but for their places. -/
def Token.sameAll (left right : List Token) : Bool :=
  left.map Token.toLexeme = right.map Token.toLexeme

def Parameter.same (left right : Parameter) : Bool :=
  Token.sameAll left.modifiers right.modifiers && left.datatype.same right.datatype &&
    left.identifier.same right.identifier

def Parameter.sameAll : List Parameter → List Parameter → Bool
  | [], [] => true
  | p :: ps, q :: qs => p.same q && sameAll ps qs
  | _, _ => false

def FunctionHeader.same (left right : FunctionHeader) : Bool :=
  Token.sameAll left.modifiers right.modifiers && left.identifier.same right.identifier &&
    left.returnType.same right.returnType && Parameter.sameAll left.parameters right.parameters

def VariableHeader.same (left right : VariableHeader) : Bool :=
  Token.sameAll left.modifiers right.modifiers && left.identifier.same right.identifier &&
    left.datatype.same right.datatype

def Action.same : Action → Action → Bool
  | .assign a o v, .assign b p w => a.same b && o.same p && v.same w
  | .call a vs, .call b ws => a.same b && Expr.sameAll vs ws
  | _, _ => false

mutual

/-- Whether two statements are the same but for the places of their tokens. -/
def Stmt.same : Stmt → Stmt → Bool
  | .module a xs, .module b ys => a.same b && Stmt.sameAll xs ys
  | .function a xs, .function b ys => a.same b && Stmt.sameAll xs ys
  | .native a s, .native b t => a.same b && s.same t
  | .declare a, .declare b => a.same b
  | .define a v, .define b w => a.same b && v.same w
  | .action a, .action b => a.same b
  | .ifElse a c xs e, .ifElse b d ys f =>
    a.same b && c.same d && Stmt.sameAll xs ys && Else.same e f
  | .whileLoop a c xs, .whileLoop b d ys => a.same b && c.same d && Stmt.sameAll xs ys
  | .forLoop a h v c s xs, .forLoop b i w d t ys =>
    a.same b && h.same i && v.same w && c.same d && s.same t && Stmt.sameAll xs ys
  | .returning a none, .returning b none => a.same b
  | .returning a (some v), .returning b (some w) => a.same b && v.same w
  | .stdlibFinish a, .stdlibFinish b => a.same b
  | _, _ => false

/-- Whether two branches are the same but for the places of their tokens. -/
def Else.same : Else → Else → Bool
  | .absent, .absent => true
  | .block xs, .block ys => Stmt.sameAll xs ys
  | .elseIf a c xs e, .elseIf b d ys f =>
    a.same b && c.same d && Stmt.sameAll xs ys && Else.same e f
  | _, _ => false

/-- Whether two blocks are the same but for the places of their tokens. -/
def Stmt.sameAll : List Stmt → List Stmt → Bool
  | [], [] => true
  | x :: xs, y :: ys => x.same y && Stmt.sameAll xs ys
  | _, _ => false

end

end MuLang
