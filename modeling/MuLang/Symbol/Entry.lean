import MuLang.Native
import MuLang.Stmt
import MuLang.Diagnostic.Error

/-!
# Symbols

What a name can stand for: a variable, or functions of one name told apart by their parameter types.
-/
namespace MuLang

/-- A global or local variable. -/
structure Variable where
  name : String
  datatype : Datatype
  modifiers : List Modifier
  /-- False until a value is surely assigned. -/
  initialized : Bool
  deriving DecidableEq, Inhabited

namespace Variable

def isConstant (v : Variable) : Bool := Modifier.isConstant v.modifiers

def isOwned (v : Variable) : Bool := v.modifiers.contains .own

end Variable

/-- A parameter of a registered function. -/
structure FunctionParameter where
  name : String
  datatype : Datatype
  modifiers : List Modifier
  deriving DecidableEq, Inhabited

/-- What a call of a function runs. -/
inductive FunctionBody where
  | interpreted (body : List Stmt)
  /-- A function of the host, described once it has been looked up. -/
  | native (name : String) (descriptor : Option Native.Descriptor)
  deriving Inhabited

def FunctionBody.same : FunctionBody → FunctionBody → Bool
  | .interpreted xs, .interpreted ys => Stmt.sameAll xs ys
  | .native n d, .native m e => n == m && d == e
  | _, _ => false

/-- A registered function. -/
structure FunctionDefinition where
  name : String
  returnType : Datatype
  parameters : List FunctionParameter
  modifiers : List Modifier
  body : FunctionBody
  deriving Inhabited

namespace FunctionDefinition

def parameterTypes (definition : FunctionDefinition) : List Datatype :=
  definition.parameters.map (·.datatype)

/-- Whether a call with these argument types is a call of this function: the types agree one by
one. -/
def accepts (definition : FunctionDefinition) (arguments : List Datatype) : Bool :=
  definition.parameterTypes = arguments

/-- How a diagnostic shows a function. -/
def signature (definition : FunctionDefinition) : String :=
  definition.name ++ "(" ++ Datatype.describeAll definition.parameterTypes ++ ") -> " ++
    definition.returnType.describe

def same (left right : FunctionDefinition) : Bool :=
  left.name = right.name && left.returnType = right.returnType &&
    left.parameters = right.parameters && left.modifiers = right.modifiers &&
    left.body.same right.body

def sameAll : List FunctionDefinition → List FunctionDefinition → Bool
  | [], [] => true
  | f :: fs, g :: gs => f.same g && sameAll fs gs
  | _, _ => false

end FunctionDefinition

/-- Why a declaration cannot be registered. -/
inductive Conflict where
  | nameTaken (kind name location : String)
  | signatureTaken (signature module : String)
  deriving DecidableEq, Inhabited

namespace Conflict

open Text (quote)

def message : Conflict → String
  | .nameTaken kind name location => kind ++ " " ++ quote name ++ " already exists " ++ location
  | .signatureTaken signature module =>
    "function already exists in module " ++ quote module ++ ": " ++ signature

def cause : Conflict → Cause
  | .nameTaken kind name location => .nameConflict kind name location
  | .signatureTaken signature _ => .signatureConflict signature

/-- The conflict as an error of the program. -/
def toError (conflict : Conflict) (position : Position) : Error := ⟨conflict.cause, position, []⟩

end Conflict

/-- The functions of a module that share a name and a return type. -/
structure Overloads where
  name : String
  returnType : Datatype
  definitions : List FunctionDefinition
  deriving Inhabited

namespace Overloads

def empty (name : String) (returnType : Datatype) : Overloads := ⟨name, returnType, []⟩

def byParameters? (overloads : Overloads) (parameters : List Datatype) :
    Option FunctionDefinition :=
  overloads.definitions.find? (·.parameterTypes = parameters)

/-- Adds a function, unless one with the same parameter types is there. -/
def add (overloads : Overloads) (definition : FunctionDefinition) (module : String) :
    Except Conflict Overloads :=
  if (overloads.byParameters? definition.parameterTypes).isSome then
    .error (.signatureTaken definition.signature module)
  else .ok { overloads with definitions := overloads.definitions ++ [definition] }

def same (left right : Overloads) : Bool :=
  left.name = right.name && left.returnType = right.returnType &&
    FunctionDefinition.sameAll left.definitions right.definitions

def sameAll : List Overloads → List Overloads → Bool
  | [], [] => true
  | f :: fs, g :: gs => f.same g && sameAll fs gs
  | _, _ => false

end Overloads

end MuLang
