import MuLang.Diagnostic.Log
import MuLang.Symbol.Table
import MuLang.Settings

/-!
# Defining a program

Registers every module, function and global variable of a finished program in a fresh table. Here
duplicate names, conflicting signatures and wrong combinations of modifiers are found, and native
functions are bound to the host.
-/
namespace MuLang

/-- The declarations registered so far, and the errors found. -/
structure Definer where
  table : SymbolTable
  log : Log
  deriving Inhabited

namespace Definition

/-- Modifiers of which none is of a forbidden sort, repeated, or in conflict with another one on its
axis. -/
def checkModifiers (target : String) (modifiers : List Token) (invalid : Modifier → Bool) :
    Except Error Unit :=
  match Token.firstModifier? invalid modifiers with
  | some token => .error (.atToken (.invalidModifier target token.text) token)
  | none =>
    match Token.firstRepeated? [] modifiers with
    | some token => .error (.atToken (.duplicateModifier target token.text) token)
    | none =>
      match Token.firstClashing? [] modifiers with
      | some token => .error (.atToken (.conflictingModifier target token.text) token)
      | none => .ok ()

/-- The type that a token names. `void` never admits `null`. -/
def datatype (token : Token) (nullable : Bool) : Except Error Datatype :=
  match token.datatype? nullable with
  | some type => .ok (if type.kind = .void then .void else type)
  | none => .error (.atToken (.internal (Text.quote token.text ++ " is not a datatype")) token)

def parameter (parameter : Parameter) : Except Error FunctionParameter := do
  checkModifiers "parameter" parameter.modifiers Modifier.restrictsAccess
  let type ← datatype parameter.datatype (Token.areNullable parameter.modifiers)
  return ⟨parameter.identifier.text, type, Token.modifiers parameter.modifiers⟩

/-- The function that a header declares, without a body. -/
def function (header : FunctionHeader) (body : FunctionBody) : Except Error FunctionDefinition := do
  checkModifiers "function" header.modifiers Modifier.isMutability
  let parameters ← header.parameters.mapM parameter
  let returnType ← datatype header.returnType (Token.areNullable header.modifiers)
  return ⟨header.identifier.text, returnType, parameters, Token.modifiers header.modifiers, body⟩

/-- The host's function for a native declaration: the only one of its name and parameter types, with
the declared return type. -/
def bind (natives : Native.Bindings) (header : FunctionHeader) (binding : Token)
    (definition : FunctionDefinition) : Except Error Native.Descriptor :=
  let name := nativeName header binding
  match natives name definition.parameterTypes with
  | .notFound =>
    .error (.atToken
      (.nativeBindingNotFound name (Datatype.describeAll definition.parameterTypes)) binding)
  | .ambiguous =>
    .error (.atToken
      (.ambiguousCall name (Datatype.describeArguments definition.parameterTypes)) binding)
  | .found descriptor =>
    if descriptor.returnType ≠ definition.returnType then
      .error (.atToken (.typeMismatch definition.returnType.describe
        descriptor.returnType.describe) header.returnType)
    else .ok descriptor

/-- Adds a function to a module; a conflict stands at its name. -/
def addFunction (table : SymbolTable) (module : ModulePath) (identifier : Token)
    (definition : FunctionDefinition) : Except Error SymbolTable :=
  match table.addFunction module definition with
  | .ok extended => .ok extended
  | .error conflict => .error (conflict.toError identifier.span.start)

/-- Defines a native function. -/
def native (natives : Native.Bindings) (table : SymbolTable) (module : ModulePath)
    (header : FunctionHeader) (binding : Token) : Except Error SymbolTable := do
  let name := nativeName header binding
  let definition ← function header (.native name none)
  let descriptor ← bind natives header binding definition
  addFunction table module header.identifier
    { definition with body := .native name (some descriptor) }

/-- Defines a global variable. It is nullable where a modifier or its value says so. -/
def global (table : SymbolTable) (module : ModulePath) (header : VariableHeader)
    (value : Option Datatype) : Except Error SymbolTable := do
  checkModifiers "variable" header.modifiers fun _ => false
  let modifiers := Token.modifiers header.modifiers
  if value.isNone && Modifier.isConstant modifiers then
    throw (.atToken (.uninitializedConstant header.identifier.text) header.identifier)
  let nullable := Token.areNullable header.modifiers || value.any (·.nullable)
  let type ← datatype header.datatype nullable
  match table.addVariable module ⟨header.identifier.text, type, modifiers, true⟩ with
  | .ok extended => return extended
  | .error conflict => throw (conflict.toError header.identifier.span.start)

/-- Errors in the modifiers of a local variable. -/
def localErrors (header : VariableHeader) : List Error :=
  match checkModifiers "variable" header.modifiers Modifier.restrictsAccess with
  | .ok _ => []
  | .error error => [error]

mutual

/-- Errors in the modifiers of the locals that a statement declares, in the order of the text. -/
def errorsOf : Stmt → List Error
  | .declare header => localErrors header
  | .define header _ => localErrors header
  | .ifElse _ _ body otherwise => errorsIn body ++ errorsAfter otherwise
  | .whileLoop _ _ body => errorsIn body
  | .forLoop _ header _ _ _ body => localErrors header ++ errorsIn body
  | _ => []

/-- Errors in the modifiers of the locals that follow an `if`. -/
def errorsAfter : Else → List Error
  | .absent => []
  | .block body => errorsIn body
  | .elseIf _ _ body otherwise => errorsIn body ++ errorsAfter otherwise

/-- Errors in the modifiers of the locals of a block. -/
def errorsIn : List Stmt → List Error
  | [] => []
  | stmt :: rest => errorsOf stmt ++ errorsIn rest

end

end Definition

namespace Definer

open Definition

def initial (settings : Settings) : Definer := ⟨.empty, .empty settings.maxErrors⟩

def report (definer : Definer) (error : Error) : Definer :=
  { definer with log := definer.log.report error }

/-- Takes over a table with a further declaration, or reports why there is none. -/
def accept (definer : Definer) : Except Error SymbolTable → Definer
  | .ok table => { definer with table }
  | .error error => definer.report error

/-- Defines an interpreted function. Its locals are checked if it can be defined but for its
name. -/
def function (definer : Definer) (module : ModulePath) (header : FunctionHeader)
    (body : List Stmt) : Definer :=
  match Definition.function header (.interpreted body) with
  | .error error => definer.report error
  | .ok definition =>
    (errorsIn body).foldl report
      (definer.accept (addFunction definer.table module header.identifier definition))

mutual

/-- Defines what a statement of a module declares. -/
def statement (natives : Native.Bindings) (module : ModulePath) (definer : Definer) :
    Stmt → Definer
  | .module identifier body =>
    match definer.table.addModule module identifier.text with
    | .ok table => block natives (module ++ [identifier.text]) { definer with table } body
    | .error conflict => definer.report (conflict.toError identifier.span.start)
  | .function header body => definer.function module header body
  | .native header binding =>
    definer.accept (Definition.native natives definer.table module header binding)
  | .declare header => definer.accept (Definition.global definer.table module header none)
  | .define header value =>
    definer.accept (Definition.global definer.table module header (some value.type))
  | .stdlibFinish _ => definer
  | other =>
    definer.report ⟨.internal ("unexpected " ++ other.kindName ++
      " statement outside of a function"), other.span.start, []⟩

/-- Defines what the statements of a module declare, until the log takes no more. -/
def block (natives : Native.Bindings) (module : ModulePath) (definer : Definer) :
    List Stmt → Definer
  | [] => definer
  | stmt :: rest =>
    if definer.log.isClosed then definer
    else block natives module (statement natives module definer stmt) rest

end

end Definer

/-- The declarations of a finished program, or everything that is wrong with them. -/
def define (settings : Settings) (natives : Native.Bindings) (program : List Stmt) :
    Except (List Error) SymbolTable :=
  let definer := Definer.block natives [] (.initial settings) program
  if definer.log.errors.isEmpty then .ok definer.table else .error definer.log.errors

end MuLang
