import MuLang.Stmt
import MuLang.Scope

/-!
# Blocks under way

The statements of a block are collected while the block is open, and handed to the statement that
opened it when its brace closes. An `else` belongs to the `if` whose block has just closed.
-/
namespace MuLang

/-- Whether an `else` may follow the last statement of a block. -/
inductive Chain where
  | closed
  /-- The last statement is an `if` whose chain can still take an `else`. -/
  | unfinished
  /-- The last block was that of an `if` with a faulty head. An `else` is accepted, and has nothing
  to belong to. -/
  | detached
  deriving DecidableEq, Inhabited

/-- The statements collected so far. -/
structure Body where
  statements : List Stmt := []
  chain : Chain := .closed
  deriving Inhabited

/-- What an open block belongs to. -/
inductive Owner where
  | statement (stmt : Stmt)
  | elseIf (keyword : Token) (condition : Expr)
  | otherwise
  /-- A statement whose head is faulty, with the kind of its block. -/
  | failed (kind : ScopeKind)
  deriving Inhabited

/-- The kind of scope of a block whose statement starts with a token of some kind. -/
def Kind.block? : Kind → Option ScopeKind
  | .keyword .moduleWord => some .module
  | .keyword .fnWord => some .function
  | .keyword .ifWord => some .ifBlock
  | .keyword .elseWord => some .ifBlock
  | .keyword .whileWord => some .whileBlock
  | .keyword .forWord => some .forBlock
  | _ => none

/-- The kind of the block that a statement has, by its first token after the modifiers. -/
def Token.block? (tokens : List Token) : Option ScopeKind :=
  (afterModifiers tokens).head?.bind (·.kind.block?)

namespace Body

/-- Adds a statement after which no `else` may follow. -/
def add (body : Body) (stmt : Option Stmt) : Body :=
  ⟨body.statements ++ stmt.toList, .closed⟩

/-- Attaches a branch to the chain of the last statement, if that still takes one. -/
def attach? (body : Body) (branch : Else) : Option (List Stmt) :=
  match body.chain, body.statements.getLast? with
  | .unfinished, some (.ifElse keyword condition block otherwise) =>
    (otherwise.attach branch).map fun extended =>
      body.statements.dropLast ++ [.ifElse keyword condition block extended]
  | _, _ => none

/-- Hands a closed block to what it belongs to, inside the block around it. -/
def close (parent : Body) (owner : Owner) (body : List Stmt) : Body :=
  match owner with
  | .statement stmt =>
    ⟨parent.statements ++ [stmt.withBody body], if stmt.isIf then .unfinished else .closed⟩
  | .elseIf keyword condition =>
    match parent.attach? (.elseIf keyword condition body .absent) with
    | some statements => ⟨statements, .unfinished⟩
    | none => ⟨parent.statements, .detached⟩
  | .otherwise => ⟨(parent.attach? (.block body)).getD parent.statements, .closed⟩
  | .failed kind => ⟨parent.statements, if kind = .ifBlock then .detached else .closed⟩

end Body

end MuLang
