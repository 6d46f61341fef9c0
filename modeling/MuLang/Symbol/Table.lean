import MuLang.QualifiedName
import MuLang.Symbol.Entry

/-!
# The symbol table

The modules of a program with their variables and functions. A module is addressed by the names that
lead to it from the root. The table holds the modules in the order in which they were added, so the
submodules of each stand in declaration order.
-/
namespace MuLang

/-- The names that lead from the root to a module, outermost first. The root has the empty path. -/
abbrev ModulePath := List String

namespace ModulePath

/-- The name of the root, which owns every top-level module. -/
def rootName : String := "<root>"

/-- A module followed by each module around it, up to the root. -/
def ancestors (path : ModulePath) : List ModulePath :=
  (List.range (path.length + 1)).reverse.map path.take

/-- Whether a module is another one or stands around it. -/
def isAncestorOrSelf (ancestor path : ModulePath) : Bool := path.ancestors.contains ancestor

/-- The module around a module; the root is its own. -/
def parent (path : ModulePath) : ModulePath := path.dropLast

/-- The dotted path of a module from the root. -/
def describe (path : ModulePath) : String := if path.isEmpty then rootName else joinDots path

end ModulePath

/-- A module: its path, and what it declares in the order of declaration. -/
structure Module where
  path : ModulePath
  globals : List Variable
  functions : List Overloads
  deriving Inhabited

namespace Module

def empty (path : ModulePath) : Module := ⟨path, [], []⟩

def global? (module : Module) (name : String) : Option Variable :=
  module.globals.find? (·.name = name)

/-- The first functions of a name, whatever their return type. -/
def overloads? (module : Module) (name : String) : Option Overloads :=
  module.functions.find? (·.name = name)

/-- Every function of a name, across all return types. -/
def definitions (module : Module) (name : String) : List FunctionDefinition :=
  (module.functions.filter (·.name = name)).flatMap (·.definitions)

def sameMembers (left right : Module) : Bool :=
  left.globals = right.globals && Overloads.sameAll left.functions right.functions

/-- Adds a function to the overloads of its name and return type, which it opens if there are
none. -/
def insertOverload (definition : FunctionDefinition) : List Overloads → List Overloads
  | [] => [⟨definition.name, definition.returnType, [definition]⟩]
  | group :: rest =>
    if group.name = definition.name ∧ group.returnType = definition.returnType then
      { group with definitions := group.definitions ++ [definition] } :: rest
    else group :: insertOverload definition rest

/-- Adds a function. One whose parameter types equal those of another function of its name is
refused, whatever its return type. -/
def addFunction (module : Module) (definition : FunctionDefinition) : Except Conflict Module :=
  if (module.definitions definition.name).any
      (·.parameterTypes = definition.parameterTypes) then
    .error (.signatureTaken definition.signature module.path.describe)
  else .ok { module with functions := insertOverload definition module.functions }

end Module

/-- A variable or the functions found under a name. -/
inductive Symbol where
  | variable (v : Variable)
  | functions (overloads : Overloads)
  deriving Inhabited

/-- The modules of a program in the order in which they were added. -/
structure SymbolTable where
  modules : List Module
  deriving Inhabited

namespace SymbolTable

/-- The table that holds the root alone. -/
def empty : SymbolTable := ⟨[.empty []]⟩

def module? (table : SymbolTable) (path : ModulePath) : Option Module :=
  table.modules.find? (·.path = path)

def contains (table : SymbolTable) (path : ModulePath) : Bool := (table.module? path).isSome

/-- What the module at a path declares; nothing where there is no module. -/
def module (table : SymbolTable) (path : ModulePath) : Module :=
  (table.module? path).getD (.empty path)

/-- The paths of a module's submodules, in the order of declaration. -/
def submodules (table : SymbolTable) (path : ModulePath) : List ModulePath :=
  (table.modules.map (·.path)).filter fun other => other ≠ [] ∧ other.parent = path

def submodule? (table : SymbolTable) (parent : ModulePath) (name : String) : Option ModulePath :=
  if table.contains (parent ++ [name]) then some (parent ++ [name]) else none

/-- Changes the module at a path. -/
def modify (table : SymbolTable) (path : ModulePath) (change : Module → Module) : SymbolTable :=
  ⟨table.modules.map fun module => if module.path = path then change module else module⟩

/-- The place of a name conflict inside a module. -/
def locationIn (path : ModulePath) : String := "in module " ++ Text.quote path.describe

/-- Adds a module to another one, unless that has a submodule of this name. -/
def addModule (table : SymbolTable) (parent : ModulePath) (name : String) :
    Except Conflict SymbolTable :=
  if table.contains (parent ++ [name]) then
    .error (.nameTaken "module" name (locationIn parent))
  else .ok ⟨table.modules ++ [.empty (parent ++ [name])]⟩

/-- Adds a variable to a module, unless that has a variable of this name. -/
def addVariable (table : SymbolTable) (path : ModulePath) (v : Variable) :
    Except Conflict SymbolTable :=
  if ((table.module path).global? v.name).isSome then
    .error (.nameTaken "variable" v.name (locationIn path))
  else .ok (table.modify path fun module => { module with globals := module.globals ++ [v] })

/-- Adds a function to a module. -/
def addFunction (table : SymbolTable) (path : ModulePath) (definition : FunctionDefinition) :
    Except Conflict SymbolTable :=
  ((table.module path).addFunction definition).map fun extended =>
    table.modify path fun _ => extended

/-- What a name stands for directly inside a module, a variable before functions. -/
def find? (table : SymbolTable) (path : ModulePath) (name : String) : Option Symbol :=
  let module := table.module path
  match module.global? name with
  | some v => some (.variable v)
  | none => (module.overloads? name).map .functions

/-- Walks down from a module through submodules. -/
def walk? (table : SymbolTable) (start : ModulePath) : List String → Option ModulePath
  | [] => some start
  | name :: rest => (table.submodule? start name).bind fun next => table.walk? next rest

/-- The module that the path of a qualified name stands for: the nearest of the module and those
around it from which the whole path can be walked. -/
def resolveModule? (table : SymbolTable) (start : ModulePath) (path : List String) :
    Option ModulePath :=
  if path.isEmpty then some start
  else start.ancestors.findSome? fun scope => table.walk? scope path

/-- The global variable that a name reaches from a module, with its owner: an unqualified name is
looked up in the module and then in those around it, a qualified one in the module of its path. -/
def resolveGlobal? (table : SymbolTable) (start : ModulePath) (identifier : String) :
    Option (ModulePath × Variable) :=
  let qualified := QualifiedName.split identifier
  if qualified.path.isEmpty then
    start.ancestors.findSome? fun path =>
      ((table.module path).global? qualified.name).map (path, ·)
  else
    (table.resolveModule? start qualified.path).bind fun path =>
      ((table.module path).global? qualified.name).map (path, ·)

/-- A module with everything inside it. -/
inductive Tree where
  | node (module : Module) (submodules : List Tree)
  deriving Inhabited

/-- The module at a path with its submodules, down to a depth. -/
def treeAt (table : SymbolTable) : Nat → ModulePath → Tree
  | 0, path => .node (table.module path) []
  | depth + 1, path => .node (table.module path) ((table.submodules path).map (table.treeAt depth))

/-- The whole table as a tree. No module lies deeper than there are modules. -/
def tree (table : SymbolTable) : Tree := table.treeAt table.modules.length []

/-- How many functions are registered, natives included. -/
def functionCount (table : SymbolTable) : Nat :=
  (table.modules.flatMap fun module =>
    module.functions.flatMap (·.definitions)).length

/-- Whether two tables hold the same modules with the same members and submodules, each in the order
of declaration, however the modules of different parents were interleaved. -/
def same (left right : SymbolTable) : Bool :=
  left.modules.length = right.modules.length &&
    left.modules.all fun module =>
      (right.module? module.path).any module.sameMembers &&
        left.submodules module.path = right.submodules module.path

end SymbolTable

end MuLang
