import MuLang.Statement.Declaration

/-!
# Statements of function bodies

Assignments, calls, control flow and `return`. A loop in either of its two forms has the same
shape; `for INIT, NAME -> LIMIT` means `for INIT, NAME < (LIMIT), NAME++`, and `++` and `--` are
assignments.
-/
namespace MuLang

namespace Step

/-! ## Assignments and calls -/

/-- Assigns a value in the second pass. -/
def assignStatement (identifier operator : Token) (value : Expr) : Step (Option Action) := do
  if ← isSkimming then return none
  let _ ← check fun env => env.store identifier operator value
  return some (.assign identifier operator value)

/-- The value that `++` and `--` add or take away. -/
def one : Expr := .literal (.plain .int) (.synthetic (.literal .integer) "1")

/-- An action: `NAME OP value;`, `NAME++;`, `NAME--;` or `NAME(ARGS);` -/
def actionStatement (tokens modifiers : List Token) : Step (Option Action) := do
  rejectModifiers modifiers
  let identifier ← ofExcept (Token.tokenAt tokens 0)
  requireFunction identifier "assignments and calls"
  let next ← ofExcept (Token.tokenAt tokens 1)
  match next.kind with
  | .openParen =>
    if ← isSkimming then return none
    match ← expression tokens.dropLast identifier with
    | .call _ callee arguments => return some (.call callee arguments)
    | _ =>
      fail (.unexpectedTokenDetailed identifier.text "expected a function call") identifier
  | .plusPlus =>
    if ← ofExcept (Token.expectEnd tokens 3) then
      assignStatement identifier (.synthetic (.assign .add) "+=") one
    else return none
  | .minusMinus =>
    if ← ofExcept (Token.expectEnd tokens 3) then
      assignStatement identifier (.synthetic (.assign .subtract) "-=") one
    else return none
  | .assign _ =>
    if ← isSkimming then return none
    let value ← expression (← ofExcept (Token.valueFrom tokens 2)) next
    assignStatement identifier next value
  | _ => fail (.unexpectedToken next.text) next

/-! ## Branches and loops -/

/-- A condition that follows a keyword, whose type must be `bool`. -/
def condition (tokens : List Token) (keyword : Token) : Step Expr := do
  let value ← expression tokens keyword
  if value.type ≠ .bool then
    fail (.conditionNotBoolean keyword.text value.type.describe) keyword
  return value

/-- The head `if CONDITION`, up to the brace that opens the block. -/
def ifStatement (tokens modifiers : List Token) : Step (Option (Token × Expr)) := do
  rejectModifiers modifiers
  let keyword ← ofExcept (Token.tokenAt tokens 0)
  requireFunction keyword "if statements"
  changeScopes (·.push .ifBlock)
  if ← isSkimming then return none
  return some (keyword, ← condition (Token.inner tokens) keyword)

/-- The head `while CONDITION`, up to the brace that opens the block. -/
def whileStatement (tokens modifiers : List Token) : Step (Option Stmt) := do
  rejectModifiers modifiers
  let keyword ← ofExcept (Token.tokenAt tokens 0)
  requireFunction keyword "while loops"
  changeScopes (·.push .whileBlock)
  if ← isSkimming then return none
  return some (.whileLoop keyword (← condition (Token.inner tokens) keyword) [])

/-- The parts of a loop's head between the commas outside of parentheses; `depth` parentheses are
open. -/
def headParts (depth : Nat) : List Token → List (List Token)
  | [] => [[]]
  | token :: rest =>
    if token.kind = .comma ∧ depth = 0 then [] :: headParts 0 rest
    else
      let inside := match token.kind with
        | .openParen => depth + 1
        | .closeParen => depth - 1
        | _ => depth
      match headParts inside rest with
      | [] => [[token]]
      | part :: parts => (token :: part) :: parts

/-- Some tokens of a loop's head as a statement of their own. -/
def terminated (tokens : List Token) : List Token := tokens ++ [.synthetic .semicolon ";"]

/-- A part of a loop's head whose first token must be of some kind; without tokens the error stands
at the keyword. -/
def expectStart (tokens : List Token) (keyword : Token) (accepts : Kind → Bool)
    (expected : String) : Step Unit :=
  match tokens.head? with
  | some first =>
    if accepts first.kind then return
    else fail (.expectedToken expected first.text) first
  | none => fail (.expectedToken expected keyword.text) keyword

/-- A loop from the three parts of its head, inside the scope of its variable. -/
def loopStatement (keyword : Token) (init test step : List Token) : Step (Option Stmt) := do
  let modifiers := Token.leadingModifiers init
  let declaration := Token.afterModifiers init
  expectStart declaration keyword (fun kind => kind.isTypeName || kind = .question)
    "a variable declaration"
  expectStart step keyword (· = .identifier) "an assignment or a call"
  if ← isSkimming then
    let _ ← reporting (variableStatement (terminated declaration) modifiers)
    if test.isEmpty then fail (.expectedToken "a loop condition" ",") keyword
    changeScopes (·.push .forBlock)
    return none
  match ← variableStatement (terminated declaration) modifiers with
  | none => return none
  | some (_, none) =>
    fail (.unexpectedTokenDetailed "VAR_DEFINITION" "the loop variable must be given a value")
      keyword
  | some (header, some value) =>
    let test ← condition test keyword
    match ← actionStatement (terminated step) [] with
    | none => return none
    | some action =>
      changeScopes (·.push .forBlock)
      return some (.forLoop keyword header value test action [])

/-- The head `for INIT, CONDITION, STEP` or `for INIT, NAME -> LIMIT`, up to the brace that opens
the block. -/
def forStatement (tokens modifiers : List Token) : Step (Option Stmt) := do
  rejectModifiers modifiers
  let keyword ← ofExcept (Token.tokenAt tokens 0)
  requireFunction keyword "for loops"
  changeScopes (·.push .loopHeader)
  match headParts 0 (Token.inner tokens) with
  | [init, test, step] => loopStatement keyword init test step
  | [init, transition] =>
    match transition with
    | counter :: arrow :: limit =>
      if counter.kind = .identifier ∧ arrow.kind = .arrow ∧ limit ≠ [] then
        let test := counter :: .synthetic (.binary .less) "<" :: .synthetic .openParen "(" ::
          limit ++ [.synthetic .closeParen ")"]
        loopStatement keyword init test [counter, .synthetic .plusPlus "++"]
      else
        fail (.unexpectedTokenDetailed counter.text "expected `NAME -> LIMIT` in for loop") counter
    | _ =>
      let place := transition.headD keyword
      fail (.unexpectedTokenDetailed place.text "expected `NAME -> LIMIT` in for loop") place
  | _ =>
    fail (.unexpectedTokenDetailed keyword.text
      "expected `for INIT, CONDITION, STEP` or `for INIT, NAME -> LIMIT`") keyword

/-! ## Leaving -/

/-- A `return;` in a `void` function and `return value;` in any other. -/
def returnStatement (tokens modifiers : List Token) : Step (Option Stmt) := do
  rejectModifiers modifiers
  let keyword ← ofExcept (Token.tokenAt tokens 0)
  requireFunction keyword "return statements"
  if ← isSkimming then return none
  let value := Token.inner tokens
  match (← get).scopes.returnType? with
  | some expected =>
    if value.isEmpty then
      if expected.kind ≠ .void then
        fail (.invalidReturn ("expected a return value of type " ++ expected.describe)) keyword
      return some (.returning keyword none)
    if expected.kind = .void then
      fail (.invalidReturn "cannot return a value from a void function") keyword
    let typed ← expression value keyword
    if !typed.type.fits expected then
      fail (.typeMismatch expected.describe typed.type.describe) keyword
    return some (.returning keyword (some typed))
  | none =>
    if value.isEmpty then return some (.returning keyword none)
    return some (.returning keyword (some (← expression value keyword)))

/-- The statement `STANDARDLIB_FINISH_CODE;` ends standard-library mode. -/
def finishStatement (tokens modifiers : List Token) : Step (Option Stmt) := do
  rejectModifiers modifiers
  let keyword ← ofExcept (Token.tokenAt tokens 0)
  if !(← ofExcept (Token.expectEnd tokens 2)) then return none
  modify fun session => { session with stdlib := false }
  if ← isSkimming then return none
  return some (.stdlibFinish keyword)

/-! ## Any statement -/

/-- The statement that a declaration of a variable is. -/
def declared : VariableHeader × Option Expr → Stmt
  | (header, none) => .declare header
  | (header, some value) => .define header value

/-- Reads one statement, which is told by its first token after the modifiers. The first pass builds
no statements, and a lone `;` is none. -/
def statement (tokens : List Token) : Step (Option Stmt) := do
  let modifiers := Token.leadingModifiers tokens
  let rest := Token.afterModifiers tokens
  match rest with
  | [] => return none
  | first :: more =>
    match first.kind with
    | .keyword .moduleWord => moduleStatement rest modifiers
    | .keyword .fnWord => functionStatement rest modifiers
    | .keyword .natWord => nativeStatement rest modifiers
    | .keyword .ifWord =>
      return (← ifStatement rest modifiers).map fun head => .ifElse head.1 head.2 [] .absent
    | .keyword .whileWord => whileStatement rest modifiers
    | .keyword .forWord => forStatement rest modifiers
    | .keyword .returnWord => returnStatement rest modifiers
    | .keyword .finishWord => finishStatement rest modifiers
    | .identifier => return (← actionStatement rest modifiers).map .action
    | .question | .typeName _ => return (← variableStatement rest modifiers).map declared
    | .semicolon =>
      if !more.isEmpty then fail (.unexpectedToken first.text) first
      if !modifiers.isEmpty then
        fail (.expectedToken "a declaration after the modifiers" first.text) first
      return none
    | _ => fail (.unexpectedToken first.text) first

end Step

end MuLang
