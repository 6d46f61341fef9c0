import MuLang.Symbol.Table

/-!
# Scopes

The blocks around a point of the program, innermost first, with the local variables that they
declare. Locals are visible up to the function they belong to and never beyond it.
-/
namespace MuLang

/-- The kinds of scope. -/
inductive ScopeKind where
  /-- The whole program, which owns the top-level modules. -/
  | program
  | module
  | function
  | ifBlock
  | whileBlock
  | forBlock
  /-- Holds the variable of a `for` loop, around the loop's block. -/
  | loopHeader
  deriving DecidableEq, Inhabited

/-- One block: the module its statements belong to, the locals it declares, and for a function the
type it returns. -/
structure Scope where
  kind : ScopeKind
  module : ModulePath
  locals : List Variable := []
  returnType : Option Datatype := none
  deriving DecidableEq, Inhabited

/-- Where a local is found: its scope, counted from the outermost one, and its place among the
locals of that scope. -/
structure LocalSlot where
  scope : Nat
  index : Nat
  deriving DecidableEq, Inhabited

/-- The scopes around a point of the program. The outermost scope is the program and stays; the
others are listed innermost first. -/
structure ScopeStack where
  nested : List Scope
  outermost : Scope
  deriving DecidableEq, Inhabited

namespace ScopeStack

/-- The scopes at the top level of a program. -/
def initial : ScopeStack := ⟨[], ⟨.program, [], [], none⟩⟩

/-- The innermost scope. -/
def current (scopes : ScopeStack) : Scope := scopes.nested.headD scopes.outermost

def currentKind (scopes : ScopeStack) : ScopeKind := scopes.current.kind

def currentModule (scopes : ScopeStack) : ModulePath := scopes.current.module

def size (scopes : ScopeStack) : Nat := scopes.nested.length + 1

/-- Enters a scope. -/
def enter (scopes : ScopeStack) (scope : Scope) : ScopeStack :=
  { scopes with nested := scope :: scopes.nested }

/-- Enters a scope of a kind that stays in the current module. -/
def push (scopes : ScopeStack) (kind : ScopeKind) : ScopeStack :=
  scopes.enter ⟨kind, scopes.currentModule, [], none⟩

def pushIn (scopes : ScopeStack) (kind : ScopeKind) (module : ModulePath) : ScopeStack :=
  scopes.enter ⟨kind, module, [], none⟩

def pushFunction (scopes : ScopeStack) (returnType : Datatype) : ScopeStack :=
  scopes.enter ⟨.function, scopes.currentModule, [], some returnType⟩

/-- Leaves the innermost scope, unless it is the program. -/
def pop? (scopes : ScopeStack) : Option (Scope × ScopeStack) :=
  match scopes.nested with
  | [] => none
  | scope :: rest => some (scope, { scopes with nested := rest })

/-- Leaves the innermost scope where there is one to leave. -/
def pop (scopes : ScopeStack) : ScopeStack := { scopes with nested := scopes.nested.tail }

/-- Leaves the innermost block, together with the loop header around it, if there is one. -/
def popBlock? (scopes : ScopeStack) : Option ScopeStack :=
  scopes.pop?.map fun popped =>
    if popped.2.currentKind = .loopHeader then popped.2.pop else popped.2

/-- Leaves scopes until at most `size` are left. The program is never left. -/
def truncate (scopes : ScopeStack) (size : Nat) : ScopeStack :=
  { scopes with nested := scopes.nested.drop (scopes.nested.length - (size - 1)) }

/-- The scopes inside a block of some kind, after its head, which found `size` scopes and may have
entered that of the block. -/
def insideBlock (scopes : ScopeStack) (size : Nat) (kind : ScopeKind) : ScopeStack :=
  if scopes.size = size ∨ scopes.currentKind ≠ kind then scopes.push kind else scopes

def inFunction (scopes : ScopeStack) : Bool := scopes.nested.any (·.kind = .function)

/-- The return type of the innermost function around. -/
def returnType? (scopes : ScopeStack) : Option Datatype :=
  (scopes.nested.find? (·.kind = .function)).bind (·.returnType)

/-- The first local of a name in a list of scopes, innermost first, up to and including the first
function. -/
def findIn (name : String) : List Scope → Option (LocalSlot × Variable)
  | [] => none
  | scope :: rest =>
    match scope.locals.findIdx? (·.name = name), scope.locals.find? (·.name = name) with
    | some index, some v => some (⟨rest.length + 1, index⟩, v)
    | _, _ => if scope.kind = .function then none else findIn name rest

/-- The local that a name stands for. Outside functions there is none. -/
def findLocal? (scopes : ScopeStack) (name : String) : Option (LocalSlot × Variable) :=
  if scopes.inFunction then findIn name scopes.nested else none

/-- The scope at a place counted from the outermost one. -/
def scope? (scopes : ScopeStack) (place : Nat) : Option Scope :=
  if place = 0 then some scopes.outermost
  else if place ≤ scopes.nested.length then scopes.nested[scopes.nested.length - place]?
  else none

/-- The local in a slot. -/
def local? (scopes : ScopeStack) (slot : LocalSlot) : Option Variable :=
  (scopes.scope? slot.scope).bind (·.locals[slot.index]?)

/-- The scope with the local at a place marked as initialized. -/
def markInitialized (scope : Scope) (index : Nat) : Scope :=
  { scope with locals := scope.locals.modify index ({ · with initialized := true }) }

/-- Marks the local in a slot as initialized. -/
def initializeLocal (scopes : ScopeStack) (slot : LocalSlot) : ScopeStack :=
  if slot.scope = 0 then { scopes with outermost := markInitialized scopes.outermost slot.index }
  else
    { scopes with nested :=
        scopes.nested.modify (scopes.nested.length - slot.scope) (markInitialized · slot.index) }

/-- Declares a local in the innermost scope. A local of its name that is visible there is a
conflict. -/
def addLocal (scopes : ScopeStack) (v : Variable) : Except Conflict ScopeStack :=
  if (scopes.findLocal? v.name).isSome then
    .error (.nameTaken "local variable" v.name "in this function")
  else
    .ok <| match scopes.nested with
      | [] => { scopes with
          outermost := { scopes.outermost with locals := scopes.outermost.locals ++ [v] } }
      | scope :: rest =>
        { scopes with nested := { scope with locals := scope.locals ++ [v] } :: rest }

end ScopeStack

end MuLang
