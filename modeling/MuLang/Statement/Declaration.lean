import MuLang.Statement.Signature

/-!
# Declarations

Modules, functions, native functions and variables. The first pass registers what they declare, so
that code above a declaration can use it; the second pass checks the rest and builds the statement.
-/
namespace MuLang

/-- What the tokens of a variable declaration say, after its modifiers. The mark is what follows the
name: a `;`, or the `=` before the value. -/
structure VariableForm where
  typeKeyword : Token
  identifier : Token
  mark : Token
  value : Option (List Token)
  deriving DecidableEq, Inhabited

/-- Reads `TYPE NAME;`, `TYPE NAME = value;` or `? NAME = value;`. -/
def VariableForm.ofTokens (tokens : List Token) : Except Error VariableForm := do
  let typeKeyword ← Token.tokenAt tokens 0
  if typeKeyword.kind = .typeName .void then
    throw (.atToken (.expectedToken "a variable datatype" typeKeyword.text) typeKeyword)
  let identifier ← Token.expectName tokens 1 "a variable name"
  let mark ← Token.expectAt tokens 2
    (fun kind => kind = .semicolon || kind = .assign .plain) "`=` or `;`"
  let value ← if mark.kind = .assign .plain then some <$> Token.valueFrom tokens 3
    else pure none
  if typeKeyword.kind = .question && value.isNone then
    throw (.atToken (.expectedToken "an initial value to infer the type from" mark.text) mark)
  return ⟨typeKeyword, identifier, mark, value⟩

namespace Step

/-! ## Modules and functions -/

/-- The head `module NAME`, at the top level or inside another module. A module that is already
there is entered again. -/
def moduleStatement (tokens modifiers : List Token) : Step (Option Stmt) := do
  rejectModifiers modifiers
  let identifier ← ofExcept (Token.expectName tokens 1 "a module name")
  let _ ← ofExcept (Token.expectAt tokens 2 (· = .openCurly) "`\x7b`")
  let _ ← ofExcept (Token.expectEnd tokens 3)
  let keyword ← ofExcept (Token.tokenAt tokens 0)
  let scopes := (← get).scopes
  if scopes.currentKind ≠ .program ∧ scopes.currentKind ≠ .module then
    fail (.illegalPlacement
      "modules can only be declared at the top level or inside another module") keyword
  let path := scopes.currentModule ++ [identifier.text]
  if !(← get).table.contains path then
    match (← get).table.addModule scopes.currentModule identifier.text with
    | .ok table => modify fun session => { session with table }
    | .error conflict => throw (conflict.toError identifier.span.start)
  changeScopes (·.pushIn .module path)
  if ← isSkimming then return none
  return some (.module identifier [])

/-- Functions stand where globals may, and take no modifier that speaks of change. -/
def checkFunctionPlacement (keyword : Token) (modifiers : List Token) : Step Unit := do
  if !(← get).admitsGlobals then
    fail (.illegalPlacement "functions can only be declared inside of a module") keyword
  rejectInvalidModifiers modifiers "function" Modifier.isMutability

/-- Registers a function in the current module. The first of two conflicting functions stays; the
conflict is reported when the finished program is defined. -/
def registerFunction (definition : FunctionDefinition) : Step Unit :=
  modify fun session =>
    match session.table.addFunction session.scopes.currentModule definition with
    | .ok table => { session with table }
    | .error _ => session

/-- The place to report a parameter whose name is taken: the last parameter of that name. -/
def parameterPlace (header : FunctionHeader) (name : String) : Position :=
  match header.parameters.reverse.find? (·.identifier.text = name) with
  | some parameter => parameter.identifier.span.start
  | none => header.identifier.span.start

/-- Declares the parameters of a function as locals that have a value. -/
def declareParameters (header : FunctionHeader) : List FunctionParameter → Step Unit
  | [] => return
  | parameter :: rest => do
    let v : Variable := ⟨parameter.name, parameter.datatype, parameter.modifiers, true⟩
    match (← get).scopes.addLocal v with
    | .ok scopes => changeScopes fun _ => scopes
    | .error conflict => throw (conflict.toError (parameterPlace header parameter.name))
    declareParameters header rest

/-- The head of a function, up to the brace that opens its body. -/
def functionStatement (tokens modifiers : List Token) : Step (Option Stmt) := do
  let keyword ← ofExcept (Token.tokenAt tokens 0)
  checkFunctionPlacement keyword modifiers
  let signature ← ofExcept (Signature.ofTokens tokens.dropLast true)
  let header := signature.header modifiers
  let definition ← ofExcept (header.definition (.interpreted []))
  if ← isSkimming then
    registerFunction definition
    changeScopes (·.pushFunction definition.returnType)
    return none
  changeScopes (·.pushFunction definition.returnType)
  declareParameters header definition.parameters
  return some (.function header [])

/-- A native function: `nat fn NAME :: TYPE (PARAMS) -> "namespace";` -/
def nativeStatement (tokens modifiers : List Token) : Step (Option Stmt) := do
  let keyword ← ofExcept (Token.tokenAt tokens 0)
  checkFunctionPlacement keyword modifiers
  let length := tokens.length
  if length < 6 then
    let last ← ofExcept (Token.tokenAt tokens (length - 1))
    fail (.unexpectedTokenDetailed last.text
      "expected `nat fn NAME :: TYPE (PARAMS) -> \"namespace\";`") last
  let _ ← ofExcept (Token.expectAt tokens (length - 3) (· = .arrow) "`->`")
  let binding ← ofExcept
    (Token.expectAt tokens (length - 2) (· = .literal .string) "a binding namespace")
  let signature ← ofExcept (Signature.ofTokens (tokens.take (length - 3)).tail false)
  let header := signature.header modifiers
  let definition ← ofExcept (header.definition (.native (nativeName header binding) none))
  if ← isSkimming then
    registerFunction definition
    return none
  return some (.native header binding)

/-! ## Variables -/

/-- Registers a global found by the first pass. The first of two globals of one name stays. -/
def registerGlobal (module : ModulePath) (identifier : Token) (modifiers : List Token)
    (type : Datatype) : Step Unit :=
  modify fun session =>
    let v : Variable := ⟨identifier.text, type, Token.modifiers modifiers, true⟩
    match session.table.addVariable module v with
    | .ok table => { session with table }
    | .error _ => session

/-- The type of a variable that is declared with `?` and given a value: that of the value, nullable
also where a modifier says so. The type of `null` says too little. -/
def inferredType? (modifiers : List Token) (value : Datatype) : Option Datatype :=
  if value.kind = .null then none
  else some (value.withNullable (Token.areNullable modifiers || value.nullable))

/-- The type of a global that follows from its value, if the value can be typed by now. -/
def inferGlobal? (global : DeferredGlobal) : Step (Option Datatype) := fun session =>
  match expression global.value global.typeKeyword session with
  | (.ok value, after) => (.ok (inferredType? global.modifiers value.type), after)
  | (.error _, after) => (.ok none, after)

/-- Registers a global in the first pass, or defers it until the type of its value is known. -/
def skimGlobal (typeKeyword identifier : Token) (modifiers : List Token)
    (value : Option (List Token)) : Step Unit := do
  let module := (← get).scopes.currentModule
  match if typeKeyword.kind = .question then value else none with
  | some value =>
    let global : DeferredGlobal := ⟨module, typeKeyword, identifier, modifiers, value⟩
    match ← inferGlobal? global with
    | some type => registerGlobal module identifier modifiers type
    | none => modify fun session => { session with deferred := session.deferred ++ [global] }
  | none =>
    match typeKeyword.datatype? (Token.areNullable modifiers) with
    | some type => registerGlobal module identifier modifiers type
    | none => return

/-- The type of a declared variable: as written, or that of its value after `?`. -/
def declaredType (typeKeyword : Token) (modifiers : List Token) (value : Option Expr) :
    Except Error Datatype :=
  match if typeKeyword.kind = .question then value else none with
  | some value =>
    match inferredType? modifiers value.type with
    | some type => .ok type
    | none => .error (.atToken (.unexpectedTokenDetailed typeKeyword.text
        "cannot infer a type from `null`") typeKeyword)
  | none =>
    match typeKeyword.datatype? (Token.areNullable modifiers) with
    | some type => .ok type
    | none => .error (.atToken (.expectedToken "a datatype" typeKeyword.text) typeKeyword)

/-- Declares a variable in the second pass. A global that the first pass has registered stays as it
is. -/
def declareVariable (identifier : Token) (v : Variable) (isGlobal : Bool) : Step Unit := do
  let session ← get
  if isGlobal then
    let module := session.scopes.currentModule
    if ((session.table.module module).global? identifier.text).isNone then
      match session.table.addVariable module v with
      | .ok table => set { session with table }
      | .error conflict => throw (conflict.toError identifier.span.start)
  else
    match session.scopes.addLocal v with
    | .ok scopes => set { session with scopes }
    | .error conflict => throw (conflict.toError identifier.span.start)

/-- The token that spells a type, for a declaration whose type was inferred. -/
def typeToken? (type : Datatype) : Option Token :=
  type.kind.typeName?.map fun name => .synthetic (.typeName name) type.kind.name

/-- Checks that the value of a declaration, if it has one, fits the declared type. -/
def checkInitial (identifier : Token) (type : Datatype) : Option Expr → Except Error Unit
  | none => .ok ()
  | some value =>
    if value.type.fits type then .ok ()
    else .error (.atToken (.typeMismatch type.describe value.type.describe) identifier)

/-- Whether a variable that is declared here is a global. A global constant needs a value, and a
local takes no modifier that restricts who may refer to it. -/
def placeVariable (form : VariableForm) (modifiers : List Token) : Step Bool := do
  let isGlobal := (← get).admitsGlobals
  if !isGlobal && !(← get).scopes.inFunction then
    fail (.illegalPlacement
      "variables can only be declared inside of a module or a function") form.identifier
  if isGlobal then
    if form.value.isNone && Modifier.isConstant (Token.modifiers modifiers) then
      fail (.uninitializedConstant form.identifier.text) form.identifier
  else
    rejectInvalidModifiers modifiers "variable" Modifier.restrictsAccess
  return isGlobal

/-- Declares a variable once its value, if it has one, is typed. The answer is what the declaration
says. -/
def declareTyped (form : VariableForm) (modifiers : List Token) (isGlobal : Bool)
    (typed : Option Expr) : Step (Option (VariableHeader × Option Expr)) := do
  let type ← ofExcept (declaredType form.typeKeyword modifiers typed)
  ofExcept (checkInitial form.identifier type typed)
  let v : Variable :=
    ⟨form.identifier.text, type, Token.modifiers modifiers, isGlobal || typed.isSome⟩
  declareVariable form.identifier v isGlobal
  match if form.typeKeyword.kind = .question then typeToken? type else some form.typeKeyword with
  | some datatype => return some (⟨modifiers, form.identifier, datatype⟩, typed)
  | none => return none

/-- Types the value of a declaration and declares the variable. -/
def evaluateVariable (form : VariableForm) (modifiers : List Token) (isGlobal : Bool) :
    Step (Option (VariableHeader × Option Expr)) :=
  match form.value with
  | some value => do
    let typed ← expression value form.mark
    declareTyped form modifiers isGlobal (some typed)
  | none => declareTyped form modifiers isGlobal none

/-- A declaration: `TYPE NAME;`, `TYPE NAME = value;` or `? NAME = value;`. In the second pass the
answer is what it says, with its value if it has one. -/
def variableStatement (tokens modifiers : List Token) :
    Step (Option (VariableHeader × Option Expr)) := do
  let form ← ofExcept (VariableForm.ofTokens tokens)
  let isGlobal ← placeVariable form modifiers
  if ← isSkimming then
    if isGlobal then skimGlobal form.typeKeyword form.identifier modifiers form.value
    return none
  evaluateVariable form modifiers isGlobal

end Step

end MuLang
