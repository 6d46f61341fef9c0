import MuLang.Diagnostic.Log
import MuLang.Typing

/-!
# Sessions

What an analysis knows at a point of the text: the declarations seen so far, the scopes around the
point, and the errors reported. Statements are read by steps, which change the session and may fail
with an error; what a step has changed before it fails stays changed.
-/
namespace MuLang

/-- The two readings of a program. -/
inductive Pass where
  /-- Checks where statements stand and registers what they declare. -/
  | skim
  /-- Resolves names, checks types and builds the statements. -/
  | evaluate
  deriving DecidableEq, Inhabited

/-- A global whose type follows from its value and could not be found when the first pass came by,
since the value uses something that is declared further down. -/
structure DeferredGlobal where
  module : ModulePath
  typeKeyword : Token
  identifier : Token
  modifiers : List Token
  value : List Token
  deriving DecidableEq, Inhabited

/-- What an analysis knows at a point of the text. -/
structure Session where
  settings : Settings
  pass : Pass
  table : SymbolTable
  scopes : ScopeStack
  /-- Standard-library mode, until the statement that ends it. -/
  stdlib : Bool
  deferred : List DeferredGlobal
  log : Log
  deriving Inhabited

namespace Session

/-- The session before the first token of the first pass. -/
def initial (settings : Settings) : Session where
  settings
  pass := .skim
  table := .empty
  scopes := .initial
  stdlib := settings.stdlib
  deferred := []
  log := .empty settings.maxErrors

/-- What names are looked up in. -/
def env (session : Session) : Env := ⟨session.table, session.settings.access⟩

def isSkimming (session : Session) : Bool := session.pass = .skim

def report (session : Session) (error : Error) : Session :=
  { session with log := session.log.report error }

/-- Functions and globals may be declared here: in a module, or at the top level of the standard
library. -/
def admitsGlobals (session : Session) : Bool :=
  match session.scopes.currentKind with
  | .module => true
  | .program => session.stdlib
  | _ => false

end Session

/-- A step of an analysis. -/
abbrev Step := ExceptT Error (StateM Session)

namespace Step

/-- Fails with an error at a token. -/
def fail {α : Type} (cause : Cause) (token : Token) : Step α := throw (.atToken cause token)

def changeScopes (change : ScopeStack → ScopeStack) : Step Unit :=
  modify fun session => { session with scopes := change session.scopes }

def isSkimming : Step Bool := return (← get).isSkimming

/-- Runs a check against the scopes of the session. -/
def check {α : Type} (body : Env → Check α) : Step α := fun session =>
  let (result, scopes) := body session.env session.scopes
  (result, { session with scopes })

/-- Reads and types an expression. -/
def expression (tokens : List Token) (context : Token) : Step Expr :=
  check fun env => env.expression tokens context

/-- Runs a step and reports its error, if it has one. -/
def reporting {α : Type} (step : Step (Option α)) : Step (Option α) := fun session =>
  match step session with
  | (.ok result, after) => (.ok result, after)
  | (.error error, after) => (.ok none, after.report error)

/-- Rejects any modifier on a statement that takes none. -/
def rejectModifiers (modifiers : List Token) : Step Unit :=
  match modifiers.head? with
  | some modifier =>
    fail (.unexpectedTokenDetailed modifier.text "this statement takes no modifiers") modifier
  | none => return

/-- Rejects the first modifier that satisfies a condition. -/
def rejectInvalidModifiers (modifiers : List Token) (target : String)
    (invalid : Modifier → Bool) : Step Unit :=
  match Token.firstModifier? invalid modifiers with
  | some modifier => fail (.invalidModifier target modifier.text) modifier
  | none => return

/-- Requires the statement to be inside a function. -/
def requireFunction (token : Token) (what : String) : Step Unit := do
  if !(← get).scopes.inFunction then
    fail (.illegalPlacement (what ++ " must be inside of a function")) token

end Step

/-! ## Tokens at fixed places -/

namespace Token

/-- The token at an index of a statement, if its kind is accepted there. -/
def expectAt (tokens : List Token) (index : Nat) (accepts : Kind → Bool) (expected : String) :
    Except Error Token :=
  match tokens[index]? with
  | some token =>
    if accepts token.kind then .ok token
    else .error (.atToken (.expectedToken expected token.text) token)
  | none =>
    .error ⟨.expectedToken expected "end of statement",
      (tokens.getLast?.map (·.span.stop)).getD .nowhere, []⟩

/-- The identifier at an index of a statement, which may not be qualified. -/
def expectName (tokens : List Token) (index : Nat) (what : String) : Except Error Token :=
  match expectAt tokens index (· = .identifier) what with
  | .error error => .error error
  | .ok identifier =>
    if isDotted identifier.text then
      .error (.atToken (.expectedToken what identifier.text) identifier)
    else .ok identifier

/-- Whether a statement has exactly `length` tokens; a longer one has an unexpected token. -/
def expectEnd (tokens : List Token) (length : Nat) : Except Error Bool :=
  if tokens.length = length then .ok true
  else match tokens[length - 1]? with
    | some extra => .error (.atToken (.unexpectedToken extra.text) extra)
    | none => .ok false

/-- The tokens between the first and the last one of a statement. -/
def inner (tokens : List Token) : List Token := tokens.tail.dropLast

/-- The token at an index where a statement is known to have one. -/
def tokenAt (tokens : List Token) (index : Nat) : Except Error Token :=
  match tokens[index]? with
  | some token => .ok token
  | none =>
    .error ⟨.outOfRange index, (tokens.getLast?.map (·.span.stop)).getD .nowhere, []⟩

/-- The tokens from an index up to the last one, exclusively, of a statement that is known to
be long enough. -/
def valueFrom (tokens : List Token) (index : Nat) : Except Error (List Token) :=
  if index < tokens.length then .ok (tokens.drop index).dropLast
  else .error ⟨.outOfRange index, (tokens.getLast?.map (·.span.stop)).getD .nowhere, []⟩

end Token

end MuLang
