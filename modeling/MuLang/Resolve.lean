import MuLang.Scope
import MuLang.Settings

/-!
# Resolution of names

What a name means at a point of the program: which variable it reads or writes, and which function a
call runs. Locals come before globals, and globals are looked up from the current module outwards.
-/
namespace MuLang

/-- What names are looked up in, besides the scopes: the declarations of the program and the policy
that restricts who may refer to them. -/
structure Env where
  table : SymbolTable
  access : AccessPolicy
  deriving Inhabited

/-- Where a variable lives. -/
inductive Place where
  | localAt (slot : LocalSlot)
  | globalOf (owner : ModulePath)
  deriving DecidableEq, Inhabited

/-- A variable that a name stands for. -/
structure Resolved where
  place : Place
  entry : Variable
  deriving DecidableEq, Inhabited

namespace Env

/-- Whether code of module `source` may refer to a declaration of module `owner`. -/
def admits (env : Env) (source owner : ModulePath) (modifiers : List Modifier) : Bool :=
  match env.access.boundary? modifiers with
  | none => true
  | some .sameModule => source = owner
  | some .subtree => owner.isAncestorOrSelf source
  | some .siblings => owner.parent.isAncestorOrSelf source

/-- Checks a reference to a declaration of `owner` against the access policy. -/
def checkAccess (env : Env) (source owner : ModulePath) (kind : String)
    (modifiers : List Modifier) (identifier : Token) : Except Error Unit :=
  if env.admits source owner modifiers then .ok ()
  else .error (.atToken (.accessViolation kind identifier.text source.describe) identifier)

/-- The global variable that a name stands for in a module. -/
def global (env : Env) (source : ModulePath) (identifier : Token) : Except Error Resolved :=
  let path := (QualifiedName.split identifier.text).path
  if !path.isEmpty && (env.table.resolveModule? source path).isNone then
    .error (.atToken (.moduleNotFound (joinDots path)) identifier)
  else
    match env.table.resolveGlobal? source identifier.text with
    | none => .error (.atToken (.variableNotDeclared identifier.text) identifier)
    | some (owner, v) =>
      (env.checkAccess source owner "variable" v.modifiers identifier).map
        fun _ => ⟨.globalOf owner, v⟩

/-- The variable that a name stands for: a local of the current function if the name is unqualified
and there is one, otherwise a global. -/
def resolve (env : Env) (scopes : ScopeStack) (identifier : Token) : Except Error Resolved :=
  match if isDotted identifier.text then none else scopes.findLocal? identifier.text with
  | some (slot, v) => .ok ⟨.localAt slot, v⟩
  | none => env.global scopes.currentModule identifier

/-- The type that an assignment stores: that of the value, or for a compound assignment that of the
operator's result. -/
def assigned (v : Variable) (operator : Token) (value : Expr) : Except Error Datatype :=
  match operator.kind.compound? with
  | none => .ok value.type
  | some op =>
    match Datatype.binary op v.datatype value.type with
    | some type => .ok type
    | none => .error (.atToken (.operatorMismatch operator.text
        (v.datatype.describe ++ " and " ++ value.type.describe)) operator)

/-- Checks `identifier operator value`. An `own` global is written by its own module alone, a
compound assignment needs an old value, a constant is given a value once, and the value must fit.
The answer is the variable's type and the scopes in which it is initialized. -/
def assign (env : Env) (scopes : ScopeStack) (identifier operator : Token) (value : Expr) :
    Except Error (Datatype × ScopeStack) := do
  let ⟨place, v⟩ ← env.resolve scopes identifier
  let foreign := match place with
    | .globalOf owner => v.isOwned && owner != scopes.currentModule
    | .localAt _ => false
  if foreign then
    throw (.atToken (.accessViolation "owned variable" identifier.text
      scopes.currentModule.describe) identifier)
  if operator.kind.compound?.isSome && !v.initialized then
    throw (.atToken (.variableNotInitialized identifier.text) identifier)
  if v.isConstant && v.initialized then
    throw (.atToken (.constantReassignment identifier.text) identifier)
  let type ← assigned v operator value
  if !type.fits v.datatype then
    throw ⟨.typeMismatch v.datatype.describe type.describe, value.span.start, []⟩
  match place with
  | .localAt slot => return (v.datatype, scopes.initializeLocal slot)
  | .globalOf _ => return (v.datatype, scopes)

/-- The module in which the functions of a name are looked for: for an unqualified name the nearest
module around that has any, for a qualified one the module of its path. -/
def functionModule (env : Env) (source : ModulePath) (callee : Token) :
    Except Error (Option ModulePath) :=
  let ⟨path, name⟩ := QualifiedName.split callee.text
  if path.isEmpty then
    .ok (source.ancestors.find? fun module => !((env.table.module module).definitions name).isEmpty)
  else
    match env.table.resolveModule? source path with
    | some module => .ok (some module)
    | none => .error (.atToken (.moduleNotFound (joinDots path)) callee)

/-- The type of a call: the return type of the function of this name with exactly the argument
types, of which a module has at most one. -/
def call (env : Env) (source : ModulePath) (callee : Token) (arguments : List Datatype) :
    Except Error Datatype := do
  let name := (QualifiedName.split callee.text).name
  let found ← env.functionModule source callee
  let definitions := match found with
    | some module => (env.table.module module).definitions name
    | none => []
  if definitions.isEmpty then
    throw (.atToken (.functionNotFound name (found.getD source).describe) callee)
  match definitions.find? (·.accepts arguments) with
  | none => throw (.atToken (.noImplementation name (Datatype.describeArguments arguments)) callee)
  | some definition =>
    env.checkAccess source (found.getD source) "function" definition.modifiers callee
    return definition.returnType

end Env

end MuLang
