import MuLang.Token
import MuLang.Text.Quoted

/-!
# Errors

Everything that can be wrong with a program, as a cause with its particulars, and the wording that
tells the author about it.
-/
namespace MuLang

open Text (quote)

/-- What kind of thing is wrong. -/
inductive Severity where
  /-- A token is missing or of the wrong kind at a fixed place of the grammar. -/
  | grammar
  /-- Names, modifiers, types or placement are invalid. -/
  | meaning
  /-- The analysis contradicted its own assumptions. -/
  | internal
  deriving DecidableEq, Inhabited

/-- The name of a severity. -/
def Severity.name : Severity → String
  | .grammar => "Syntax"
  | .meaning => "Semantic"
  | .internal => "Internal"

/-- What is wrong with a program. -/
inductive Cause where
  | unrecognisedToken (token : String)
  | unexpectedToken (token : String)
  | unexpectedTokenDetailed (token message : String)
  | expectedToken (expected found : String)
  | malformedNumber (token : String)
  | nameConflict (kind name location : String)
  | signatureConflict (signature : String)
  | duplicateModifier (target modifier : String)
  | conflictingModifier (target modifier : String)
  | invalidModifier (target modifier : String)
  | illegalPlacement (message : String)
  | typeMismatch (expected received : String)
  | conditionNotBoolean (statement received : String)
  | operatorMismatch (operator operands : String)
  | uninitializedConstant (name : String)
  | variableNotDeclared (name : String)
  | variableNotInitialized (name : String)
  | constantReassignment (name : String)
  | accessViolation (kind name source : String)
  | moduleNotFound (module : String)
  | functionNotFound (function module : String)
  | noImplementation (function arguments : String)
  | ambiguousCall (function arguments : String)
  | nativeBindingNotFound (name parameters : String)
  | invalidReturn (message : String)
  /-- A broken assumption of the analysis. -/
  | internal (message : String)
  /-- A statement has no token at a place where one was taken for granted. -/
  | outOfRange (index : Nat)
  deriving DecidableEq, Inhabited

namespace Cause

def severity : Cause → Severity
  | .unrecognisedToken .. | .unexpectedToken .. | .unexpectedTokenDetailed ..
  | .expectedToken .. | .malformedNumber .. => .grammar
  | .internal .. | .outOfRange .. => .internal
  | _ => .meaning

/-- The name of a kind of error. -/
def name : Cause → String
  | .unrecognisedToken .. => "UnrecognisedToken"
  | .unexpectedToken .. => "UnexpectedToken"
  | .unexpectedTokenDetailed .. => "UnexpectedTokenDetailed"
  | .expectedToken .. => "ExpectedToken"
  | .malformedNumber .. => "NumberParseError"
  | .nameConflict .. => "NameConflict"
  | .signatureConflict .. => "SignatureConflict"
  | .duplicateModifier .. => "DuplicateModifier"
  | .conflictingModifier .. => "ConflictingModifier"
  | .invalidModifier .. => "InvalidModifier"
  | .illegalPlacement .. => "IllegalPlacement"
  | .typeMismatch .. => "TypeMatchError"
  | .conditionNotBoolean .. => "ConditionNotBoolean"
  | .operatorMismatch .. => "OperatorTypeError"
  | .uninitializedConstant .. => "UninitializedConstant"
  | .variableNotDeclared .. => "VariableNotDeclared"
  | .variableNotInitialized .. => "VariableNotInitialized"
  | .constantReassignment .. => "ConstantReassignment"
  | .accessViolation .. => "AccessViolation"
  | .moduleNotFound .. => "ModuleNotFound"
  | .functionNotFound .. => "FunctionNotFound"
  | .noImplementation .. => "NoImplementation"
  | .ambiguousCall .. => "AmbiguousCall"
  | .nativeBindingNotFound .. => "NativeBindingNotFound"
  | .invalidReturn .. => "InvalidReturn"
  | .internal .. => "Internal"
  | .outOfRange .. => "Internal"

/-- The sentence that tells the author what is wrong. -/
def message : Cause → String
  | .unrecognisedToken token => "unrecognised token: " ++ quote token
  | .unexpectedToken token => "unexpected token: " ++ quote token
  | .unexpectedTokenDetailed token message =>
    "unexpected token (" ++ message ++ "): " ++ quote token
  | .expectedToken expected found => "expected " ++ expected ++ ", found " ++ quote found
  | .malformedNumber token => "error parsing number: " ++ quote token
  | .nameConflict kind name location => kind ++ " " ++ quote name ++ " already exists " ++ location
  | .signatureConflict signature => "function already exists in this module: " ++ signature
  | .duplicateModifier target modifier =>
    "duplicate " ++ target ++ " modifier " ++ quote modifier
  | .conflictingModifier target modifier =>
    "conflicting " ++ target ++ " modifier " ++ quote modifier
  | .invalidModifier target modifier => "invalid " ++ target ++ " modifier " ++ quote modifier
  | .illegalPlacement message => message
  | .typeMismatch expected received =>
    "types do not match: expected " ++ expected ++ ", received " ++ received
  | .conditionNotBoolean statement received =>
    "expected boolean condition after " ++ quote statement ++ ", found " ++ received
  | .operatorMismatch operator operands =>
    "operator " ++ quote operator ++ " cannot be applied to " ++ operands
  | .uninitializedConstant name =>
    "global constant " ++ quote name ++ " has no initial value"
  | .variableNotDeclared name => "cannot find any variable called " ++ quote name
  | .variableNotInitialized name =>
    "variable " ++ quote name ++ " is used before it is initialized"
  | .constantReassignment name => "cannot change the value of constant " ++ quote name
  | .accessViolation kind name source =>
    kind ++ " " ++ quote name ++ " is not accessible from module " ++ quote source
  | .moduleNotFound module => "cannot find module " ++ quote module
  | .functionNotFound function module =>
    "cannot find any function called " ++ quote function ++ " in module " ++ quote module
  | .noImplementation function arguments =>
    "cannot find any implementation for function " ++ quote function ++ " with " ++ arguments
  | .ambiguousCall function arguments =>
    "call to " ++ quote function ++ " with " ++ arguments ++
      " matches more than one implementation"
  | .nativeBindingNotFound name parameters =>
    "cannot find native binding " ++ name ++ "(" ++ parameters ++ ")"
  | .invalidReturn message => message
  | .internal message => "unexpected parsing error: " ++ message
  | .outOfRange index =>
    "unexpected parsing error: the statement has no token " ++ toString index

/-- The advice that a cause implies. -/
def tip? : Cause → Option String
  | .unexpectedToken token =>
    some ("Unexpected token: `" ++ token ++ "`, did you miss a semicolon?")
  | .malformedNumber token =>
    some ("Invalid number: `" ++ token ++ "`, is it above the integer limit?")
  | .nameConflict .. => some "Rename the declaration to fix this issue"
  | .signatureConflict .. => some
      "Rename your function, change up the parameters or move the function to another module"
  | .duplicateModifier .. => some "Remove the duplicate modifier"
  | .conflictingModifier .. =>
    some "Remove the conflicting modifier and keep the one you really need"
  | .conditionNotBoolean .. =>
    some "Cast the condition to `bool` or change the condition to be a bool on its own"
  | .uninitializedConstant .. => some
      "Make the variable mutable by adding the `mut` modifier, or give it an initial value"
  | .variableNotDeclared name => some ("Declare `" ++ name ++ "` before using it")
  | .constantReassignment .. => some "Add the `mut` modifier to the variable"
  | _ => none

end Cause

/-- A cause, the place it is found at, and advice beyond what the cause implies. -/
structure Error where
  cause : Cause
  position : Position
  hints : List String := []
  deriving DecidableEq, Inhabited

namespace Error

/-- An error at the start of a token. -/
def atToken (cause : Cause) (token : Token) : Error := ⟨cause, token.span.start, []⟩

def isInternal (error : Error) : Bool := error.cause.severity = .internal

/-- All advice on an error: what its cause implies, then the hints. -/
def tips (error : Error) : List String := error.cause.tip?.toList ++ error.hints

/-- One line with the message and the place. -/
def describe (error : Error) : String :=
  error.cause.message ++ " at " ++ error.position.file ++ ":" ++ toString error.position.offset

end Error

end MuLang
