import MuLang.Block
import MuLang.Statement.Control

/-!
# Reading a program

A pass over the tokens of a program. The tokens are cut into statements at `;` and at braces; a
statement that ends in an opening brace opens a block, and a closing brace closes the innermost one.
The state of the pass is the session, the blocks under way, and the tokens of the statement under
way.
-/
namespace MuLang

/-- A pass at a point of the text. -/
structure Reading where
  session : Session
  /-- The statements at the top level. -/
  program : Body := {}
  /-- The open blocks, innermost first. -/
  blocks : List (Owner × Body) := []
  /-- The tokens of the statement under way. -/
  current : List Token := []
  deriving Inhabited

namespace Step

/-- What an `else` block belongs to, given whether an `else` may follow here. -/
def elseOwner (chain : Chain) (tokens modifiers : List Token) : Step (Option Owner) := do
  rejectModifiers modifiers
  let keyword ← ofExcept (Token.tokenAt tokens 0)
  if chain = .closed then
    fail (.unexpectedTokenDetailed keyword.text "`else` must directly follow an `if` block") keyword
  let next ← ofExcept (Token.tokenAt tokens 1)
  if next.kind = .openCurly ∧ tokens.length = 2 then return some .otherwise
  if next.kind = .keyword .ifWord then
    return (← ifStatement tokens.tail []).map fun head => .elseIf head.1 head.2
  fail (.unexpectedToken next.text) next

/-- What a block belongs to that some tokens open. -/
def owner (chain : Chain) (tokens : List Token) : Step (Option Owner) := do
  match Token.block? tokens with
  | none =>
    let brace ← ofExcept (Token.tokenAt tokens (tokens.length - 1))
    fail (.unexpectedTokenDetailed brace.text
      "only modules, functions and control flow statements open a block") brace
  | some _ =>
    let rest := Token.afterModifiers tokens
    if rest.head?.any (·.kind = .keyword .elseWord) then
      elseOwner chain rest (Token.leadingModifiers tokens)
    else return (← statement tokens).map .statement

/-- A statement that ends in `;`, which a statement with a block must not. -/
def closed (tokens : List Token) : Step (Option Stmt) := do
  match Token.block? tokens with
  | some _ =>
    let last ← ofExcept (Token.tokenAt tokens (tokens.length - 1))
    fail (.expectedToken "`\x7b`" last.text) last
  | none => statement tokens

end Step

namespace Reading

/-- Runs a step on the session and reports its error, if it has one. -/
def run {α : Type} (reading : Reading) (step : Step (Option α)) : Option α × Reading :=
  match step reading.session with
  | (.ok result, session) => (result, { reading with session })
  | (.error error, session) => (none, { reading with session := session.report error })

def report (reading : Reading) (error : Error) : Reading :=
  { reading with session := reading.session.report error }

/-- The body of the innermost block. -/
def body (reading : Reading) : Body :=
  match reading.blocks with
  | [] => reading.program
  | (_, body) :: _ => body

/-- Changes the body of the innermost block. -/
def changeBody (reading : Reading) (change : Body → Body) : Reading :=
  match reading.blocks with
  | [] => { reading with program := change reading.program }
  | (owner, body) :: rest => { reading with blocks := (owner, change body) :: rest }

def changeScopes (reading : Reading) (change : ScopeStack → ScopeStack) : Reading :=
  { reading with session := { reading.session with scopes := change reading.session.scopes } }

/-- Reads the statement under way, which a `;` ends. The scopes that it has entered end with it. -/
def endStatement (reading : Reading) (tokens : List Token) : Reading :=
  let size := reading.session.scopes.size
  let (stmt, after) := reading.run (Step.closed tokens)
  (after.changeScopes (·.truncate size)).changeBody (·.add stmt)

/-- Opens the block of the statement under way, which an opening brace ends. A block has a scope of
its own also where its head is faulty. -/
def openBlock (reading : Reading) (tokens : List Token) : Reading :=
  let size := reading.session.scopes.size
  let (owner, after) := reading.run (Step.owner reading.body.chain tokens)
  let kind := (Token.block? tokens).getD .ifBlock
  let entered := after.changeScopes (·.insideBlock size kind)
  { entered with blocks := (owner.getD (.failed kind), {}) :: entered.blocks }

/-- Closes the innermost block at a closing brace. -/
def closeBlock (reading : Reading) (brace : Token) : Reading :=
  match reading.blocks with
  | [] =>
    reading.report
      (.atToken (.unexpectedTokenDetailed brace.text "there is no open block to close") brace)
  | (owner, body) :: blocks =>
    let rest := { reading with blocks }
    match reading.session.scopes.popBlock? with
    | none =>
      rest.report (.atToken (.internal "scope stack does not match the open blocks") brace)
    | some scopes =>
      (rest.changeScopes fun _ => scopes).changeBody (·.close owner body.statements)

/-- Reads one token. A closing brace ends an unfinished statement with an error. -/
def step (reading : Reading) (token : Token) : Reading :=
  match token.kind with
  | .semicolon => { reading with current := [] }.endStatement (reading.current ++ [token])
  | .openCurly => { reading with current := [] }.openBlock (reading.current ++ [token])
  | .closeCurly =>
    if reading.current.isEmpty then reading.closeBlock token
    else
      ({ reading with current := [] }.report
        (.atToken (.expectedToken "`;`" token.text) token)).closeBlock token
  | _ => { reading with current := reading.current ++ [token] }

/-- Reads tokens up to the end of the file, or until the log takes no more. -/
def steps (reading : Reading) : List Token → Reading
  | [] => reading
  | token :: rest =>
    if reading.session.log.isClosed || token.kind = .endOfFile then reading
    else (reading.step token).steps rest

/-- The start of a pass. Declarations and errors of an earlier pass are kept. -/
def start (session : Session) (pass : Pass) : Reading where
  session := { session with pass, scopes := .initial, stdlib := session.settings.stdlib }

/-- Reports a statement that the end of the input has left unfinished. -/
def reportUnfinished (reading : Reading) : Reading :=
  match reading.current.getLast? with
  | some last => reading.report (.atToken (.expectedToken "`;`" "end of input") last)
  | none => reading

/-- Reports the blocks that the end of the input has left open, unless the analysis has failed
itself. -/
def reportUnclosed (reading : Reading) (tokens : List Token) : Reading :=
  if !reading.blocks.isEmpty && !reading.session.log.hasInternal then
    reading.report ⟨.expectedToken "`\x7d`" "end of input",
      (tokens.getLast?.map (·.span.start)).getD .nowhere, []⟩
  else reading

/-- Reports what the end of the input has left open: a statement, and blocks. -/
def finish (reading : Reading) (tokens : List Token) : Reading :=
  reading.reportUnfinished.reportUnclosed tokens

end Reading

/-- One pass over the tokens of a program: the session after it and the statements at the top
level. -/
def Session.readPass (session : Session) (pass : Pass) (tokens : List Token) :
    Session × List Stmt :=
  let reading := ((Reading.start session pass).steps tokens).finish tokens
  (reading.session, reading.program.statements)

end MuLang
