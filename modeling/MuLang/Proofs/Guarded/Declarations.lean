import MuLang.Proofs.Guarded.Terms
import MuLang.Proofs.Lockstep
import MuLang.Proofs.Ordinary

/-!
# Guarded declarations

The heads of modules and functions, native functions and variables, read with every access to their
tokens, to the scopes and to the modules guarded. A statement that ends in the token that a pass cuts
it at is long enough for all of them.
-/
namespace MuLang

namespace Session

/-- The modules that scopes and deferred globals belong to are there, with those around them, and
what is deferred can be read again. -/
structure Anchored (session : Session) : Prop extends Rooted session where
  upward : session.table.Upward
  ordinary : ∀ global ∈ session.deferred, ∀ token ∈ global.value, token.kind ≠ .endOfFile

namespace Anchored

variable {session : Session}

theorem of_bare {scopes : ScopeStack} (h : session.Anchored) (hb : scopes.bare = session.scopes.bare) :
    Anchored { session with scopes } := ⟨h.toRooted.of_bare hb, h.upward, h.ordinary⟩

theorem of_modules {scopes : ScopeStack} (h : session.Anchored)
    (hs : ∀ p ∈ scopes.modules, p ∈ session.scopes.modules) : Anchored { session with scopes } :=
  ⟨⟨fun p hp => h.scopes p (hs p hp), h.deferred⟩, h.upward, h.ordinary⟩

theorem report (h : session.Anchored) (error : Error) : (session.report error).Anchored :=
  ⟨⟨h.scopes, h.deferred⟩, h.upward, h.ordinary⟩

theorem enter {scope : Scope} (h : session.Anchored) (hs : session.table.contains scope.module) :
    Anchored { session with scopes := session.scopes.enter scope } := by
  refine ⟨⟨fun p hp => ?_, h.deferred⟩, h.upward, h.ordinary⟩
  obtain rfl | hp := ScopeStack.mem_modules_enter.1 hp
  · exact hs
  · exact h.scopes p hp

theorem of_table {table : SymbolTable} (h : session.Anchored) (hu : table.Upward)
    (hc : ∀ p, session.table.contains p → table.contains p) : Anchored { session with table } :=
  ⟨h.toRooted.of_table hc, hu, h.ordinary⟩

theorem addModule {name : String} {table : SymbolTable} (h : session.Anchored)
    (ha : session.table.addModule session.scopes.currentModule name = .ok table) :
    Anchored { session with table } ∧
      table.contains (session.scopes.currentModule ++ [name]) :=
  ⟨h.of_table (h.upward.addModule h.toRooted.current ha)
      fun _ hp => (SymbolTable.contains_addModule ha).2 (.inl hp),
    (SymbolTable.contains_addModule ha).2 (.inr rfl)⟩

theorem addVariable {path : ModulePath} {v : Variable} {table : SymbolTable} (h : session.Anchored)
    (ha : session.table.addVariable path v = .ok table) : Anchored { session with table } :=
  h.of_table (h.upward.congr fun _ => SymbolTable.contains_addVariable ha)
    fun _ hp => (SymbolTable.contains_addVariable ha).trans hp

theorem addFunction {path : ModulePath} {definition : FunctionDefinition} {table : SymbolTable}
    (h : session.Anchored) (ha : session.table.addFunction path definition = .ok table) :
    Anchored { session with table } :=
  h.of_table (h.upward.congr fun _ => SymbolTable.contains_addFunction ha)
    fun _ hp => (SymbolTable.contains_addFunction ha).trans hp

end Anchored

end Session

/-- The tokens of a statement: the last one ends it, and none of them ends the file. -/
structure Token.Complete (tokens : List Token) : Prop where
  stopped : Stopped tokens
  ordinary : ∀ token ∈ tokens, token.kind ≠ .endOfFile

/-- The tokens of a value stand among those of its declaration. -/
theorem VariableForm.subset_of_ofTokens {tokens : List Token} {form : VariableForm}
    (h : ofTokens tokens = .ok form) : ∀ value ∈ form.value, value ⊆ tokens := by
  simp [ofTokens] at h
  obtain ⟨_, -, -, _, -, _, -, ⟨-, value, hv, rfl⟩ | ⟨-, -, rfl⟩⟩ := h
  · rintro _ ⟨⟩
    unfold Token.valueFrom at hv
    split at hv <;> cases hv
    exact List.Subset.trans (List.dropLast_subset _) (List.drop_subset _ _)
  · rintro _ ⟨⟩

namespace Guarded

open Watched (access plain)

/-! ## Tokens of a statement -/

/-- Whether a statement has exactly `length` tokens. -/
def expectEnd (tokens : List Token) (length : Nat) : Checked Bool :=
  match tokens[length - 1]? with
  | some _ =>
    if tokens.length = length then return true
    else do
      let extra ← Checked.access (token tokens (length - 1))
      throw (.atToken (.unexpectedToken extra.text) extra)
  | none => return false

/-- What the tokens of a variable declaration say, after its modifiers. -/
def variableForm (tokens : List Token) : Checked VariableForm := do
  let typeKeyword ← Checked.access (token tokens 0)
  if typeKeyword.kind = .typeName .void then
    throw (.atToken (.expectedToken "a variable datatype" typeKeyword.text) typeKeyword)
  let identifier ← Checked.plain (Token.expectName tokens 1 "a variable name")
  let mark ← Checked.plain (Token.expectAt tokens 2
    (fun kind => kind = .semicolon || kind = .assign .plain) "`=` or `;`")
  let value ← if mark.kind = .assign .plain then some <$> Checked.access (between tokens 3 1)
    else pure none
  if typeKeyword.kind = .question && value.isNone then
    throw (.atToken (.expectedToken "an initial value to infer the type from" mark.text) mark)
  return ⟨typeKeyword, identifier, mark, value⟩

/-- One parameter among the tokens of the whole list. -/
def parameter (tokens segment : List Token) : Checked Parameter := do
  let (modifiers, rest) ← Checked.access (splitModifiers segment)
  match Token.firstModifier? Modifier.restrictsAccess modifiers with
  | some invalid => throw (.atToken (.invalidModifier "parameter" invalid.text) invalid)
  | none =>
    match rest with
    | [datatype, identifier] =>
      if !datatype.kind.isTypeName || datatype.kind = .typeName .void then
        throw (.atToken (.expectedToken "a parameter datatype" datatype.text) datatype)
      else if identifier.kind ≠ .identifier ∨ isDotted identifier.text then
        throw (.atToken (.expectedToken "a parameter name" identifier.text) identifier)
      else return ⟨modifiers, datatype, identifier⟩
    | _ => do
      let final ← Checked.access (last tokens)
      let place := (rest[2]? <|> rest.head? <|> segment.getLast?).getD final
      throw (.atToken (.unexpectedTokenDetailed place.text
        "expected `MODIFIERS TYPE NAME` as function parameter") place)

/-- The parameters between the parentheses of a function. -/
def parameters (tokens : List Token) : Checked (List Parameter) :=
  if tokens.isEmpty then return []
  else (fields (·.kind = .comma) tokens).mapM (parameter tokens)

/-- What stands between the parentheses that open at an index of a head and close at its end. -/
def parenthesized (header : List Token) (start : Nat) : Checked (List Token) := do
  let _ ← Checked.plain (Token.expectAt header start (· = .openParen) "`(`")
  let close ← Checked.access (back header 1)
  let final ← Checked.access (token header close)
  if close = start ∨ final.kind ≠ .closeParen then
    throw (.atToken (.expectedToken "`)`" final.text) final)
  Checked.access (slice header (start + 1) close)

/-- The signature that a head spells. -/
def signature (header : List Token) (allowBare : Bool) : Checked Signature := do
  let _ ← Checked.plain (Token.expectAt header 0 (· = .keyword .fnWord) "`fn`")
  let identifier ← Checked.plain (Token.expectName header 1 "a function name")
  if allowBare && header.length = 2 then
    return ⟨identifier, voidToken, []⟩
  let mark ← Checked.plain (Token.expectAt header 2
    (fun kind => kind = .tilde || kind = .doubleColon) "`~` or `::`")
  if mark.kind = .tilde then
    let parameters ← parameters (← parenthesized header 3)
    return ⟨identifier, voidToken, parameters⟩
  else
    let returnType ← Checked.plain (Token.expectAt header 3 (·.isTypeName) "a return type")
    let parameters ← parameters (← parenthesized header 4)
    return ⟨identifier, returnType, parameters⟩

section

open Checked (Agrees)

variable {tokens header : List Token}

theorem agrees_expectEnd {length : Nat} (h : 0 < length) (tokens : List Token) :
    Agrees (expectEnd tokens length) (Token.expectEnd tokens length) := by
  unfold expectEnd Token.expectEnd
  cases hextra : tokens[length - 1]? with
  | none =>
    have hlength := List.getElem?_eq_none_iff.1 hextra
    dsimp only
    rw [if_neg (by omega)]
    exact .pure false
  | some extra =>
    refine .ite (fun _ => .pure _) fun _ => ?_
    exact .access_bind (token_of_getElem? hextra) (.throw _)

theorem agrees_variableForm (h : Token.Stopped tokens) :
    Agrees (variableForm tokens) (VariableForm.ofTokens tokens) := by
  simp only [variableForm, VariableForm.ofTokens, Checked.throw_bind, Except.throw_bind]
  refine .bind (.tokenAt (List.length_pos_iff.2 h.ne_nil)) fun typeKeyword _ => ?_
  refine .ite (fun _ => .throw _) fun _ => .bind (.plain _) fun identifier _ => ?_
  refine .bind (.plain _) fun mark hmark => .ite (fun hp => ?_) fun _ => ?_
  · -- The mark is no `;`, so something follows it.
    have hlength := h.lt_length (Token.getElem?_of_expectAt hmark).1 (by rw [hp]; rfl)
    refine .bind (.fmap (.valueFrom hlength) some) fun value _ => ?_
    exact .ite (fun _ => .throw _) fun _ => .pure _
  · refine .bind (.pure none) fun value _ => ?_
    exact .ite (fun _ => .throw _) fun _ => .pure _

theorem agrees_parameter {final : Token} (h : tokens.getLast? = some final) (segment : List Token) :
    Agrees (parameter tokens segment) (Parameter.ofTokens final segment) := by
  have hlast := last_of_getLast? h
  refine .access_bind (splitModifiers_eq segment) ?_
  unfold Parameter.ofTokens
  dsimp only
  cases Token.firstModifier? Modifier.restrictsAccess (Token.leadingModifiers segment) with
  | some invalid => exact .throw _
  | none =>
    dsimp only
    generalize Token.afterModifiers segment = rest
    rcases rest with _ | ⟨datatype, _ | ⟨identifier, _ | ⟨more, others⟩⟩⟩
    · exact .access_bind hlast (.throw _)
    · exact .access_bind hlast (.throw _)
    · exact .ite (fun _ => .throw _) fun _ => .ite (fun _ => .throw _) fun _ => .pure _
    · exact .access_bind hlast (.throw _)

theorem agrees_mapM {α β : Type} {ask : α → Checked β} {answer : α → Except Error β}
    (h : ∀ a, Agrees (ask a) (answer a)) (list : List α) :
    Agrees (list.mapM ask) (list.mapM answer) := by
  induction list with
  | nil => exact .pure _
  | cons a rest ih =>
    rw [List.mapM_cons, List.mapM_cons]
    exact .bind (h a) fun b _ => .bind ih fun others _ => .pure _

theorem agrees_parameters (tokens : List Token) :
    Agrees (parameters tokens) (Parameter.listOfTokens tokens) := by
  unfold parameters Parameter.listOfTokens
  cases hlast : tokens.getLast? with
  | none =>
    obtain rfl := List.getLast?_eq_none_iff.1 hlast
    exact .pure _
  | some final =>
    have hn : tokens.isEmpty = false := by
      rw [List.isEmpty_eq_false_iff]
      rintro rfl
      cases hlast
    rw [hn]
    exact agrees_mapM (agrees_parameter hlast) _

theorem agrees_parenthesized (header : List Token) (start : Nat) :
    Agrees (parenthesized header start) (Signature.parenthesized header start) := by
  simp only [parenthesized, Signature.parenthesized, Checked.throw_bind, Except.throw_bind]
  refine .bind (.plain _) fun opening hopening => ?_
  have hstart : start < header.length :=
    (List.getElem?_eq_some_iff.1 (Token.getElem?_of_expectAt hopening).1).1
  refine .access_bind (back_of_le (by omega)) (.bind (.tokenAt (by omega)) fun final _ => ?_)
  refine .ite (fun _ => .throw _) fun hclose => ?_
  have hlength : start + 1 ≤ header.length - 1 := by
    obtain ⟨hne, -⟩ := not_or.1 hclose
    omega
  refine .access ?_
  rw [slice_of_le hlength (by omega), List.dropLast_eq_take, List.length_drop, List.drop_take]
  congr 2
  omega

theorem agrees_signature (header : List Token) (allowBare : Bool) :
    Agrees (signature header allowBare) (Signature.ofTokens header allowBare) := by
  unfold signature Signature.ofTokens
  refine .bind (.plain _) fun _ _ => .bind (.plain _) fun identifier _ => ?_
  refine .ite (fun _ => .pure _) fun _ => .bind (.plain _) fun mark _ => .ite (fun _ => ?_) fun _ => ?_
  · refine .bind (agrees_parenthesized _ _) fun _ _ => ?_
    exact .bind (agrees_parameters _) fun _ _ => .pure _
  · refine .bind (.plain _) fun _ _ => .bind (agrees_parenthesized _ _) fun _ _ => ?_
    exact .bind (agrees_parameters _) fun _ _ => .pure _

end

/-! ## Modules and functions -/

/-- Runs a check against the scopes of the session. -/
def within {α : Type} (body : Env → Watched ScopeStack α) : Watched Session α := fun session =>
  (fun outcome => (outcome.1, { session with scopes := outcome.2 })) <$>
    body session.env session.scopes

/-- Reads and types an expression. -/
def typed (tokens : List Token) (context : Token) : Watched Session Expr :=
  within fun env => expression env tokens context

/-- Enters a scope that stays in the current module. -/
def enterHere (kind : ScopeKind) (returnType : Option Datatype) : Watched Session Unit := do
  let inner ← access (current (← get).scopes)
  plain (Step.changeScopes (·.enter ⟨kind, inner.module, [], returnType⟩))

/-- Whether functions and globals may be declared here. -/
def admitsGlobals : Watched Session Bool := fun session =>
  (fun inner => (.ok (match inner.kind with
    | .module => true
    | .program => session.stdlib
    | _ => false), session)) <$> current session.scopes

/-- The head `module NAME`. -/
def moduleStatement (tokens modifiers : List Token) : Watched Session (Option Stmt) := do
  plain (Step.rejectModifiers modifiers)
  let identifier ← plain (ofExcept (Token.expectName tokens 1 "a module name"))
  let _ ← plain (ofExcept (Token.expectAt tokens 2 (· = .openCurly) "`\x7b`"))
  let _ ← Watched.check (expectEnd tokens 3)
  let keyword ← access (token tokens 0)
  let inner ← access (current (← get).scopes)
  if inner.kind ≠ .program ∧ inner.kind ≠ .module then
    throw (.atToken (.illegalPlacement
      "modules can only be declared at the top level or inside another module") keyword)
  let path := inner.module ++ [identifier.text]
  let _ ← access (submodule? (← get).table inner.module identifier.text)
  if !(← get).table.contains path then
    match ← access (addModule (← get).table inner.module identifier.text) with
    | .ok table => modify fun session => { session with table }
    | .error conflict => throw (conflict.toError identifier.span.start)
  plain (Step.changeScopes (·.pushIn .module path))
  if ← plain Step.isSkimming then return none
  return some (.module identifier [])

/-- Functions stand where globals may. -/
def checkFunctionPlacement (keyword : Token) (modifiers : List Token) : Watched Session Unit := do
  if !(← admitsGlobals) then
    throw (.atToken (.illegalPlacement "functions can only be declared inside of a module") keyword)
  plain (Step.rejectInvalidModifiers modifiers "function" Modifier.isMutability)

/-- Registers a function in the current module. -/
def registerFunction (definition : FunctionDefinition) : Watched Session Unit := do
  let session ← get
  let inner ← access (current session.scopes)
  match ← access (addFunction session.table inner.module definition) with
  | .ok table => set { session with table }
  | .error _ => return

/-- Declares a local, whose name is looked for among those that are visible. -/
def addLocal (v : Variable) : Watched Session (Except Conflict ScopeStack) := fun session =>
  (fun _ => (.ok (session.scopes.addLocal v), session)) <$> findLocal? session.scopes v.name

/-- Declares the parameters of a function as locals that have a value. -/
def declareParameters (header : FunctionHeader) : List FunctionParameter → Watched Session Unit
  | [] => return
  | parameter :: rest => do
    match ← addLocal ⟨parameter.name, parameter.datatype, parameter.modifiers, true⟩ with
    | .ok scopes => plain (Step.changeScopes fun _ => scopes)
    | .error conflict => throw (conflict.toError (Step.parameterPlace header parameter.name))
    declareParameters header rest

/-- The head of a function. -/
def functionStatement (tokens modifiers : List Token) : Watched Session (Option Stmt) := do
  let keyword ← access (token tokens 0)
  checkFunctionPlacement keyword modifiers
  let signature ← Watched.check (signature (← access (between tokens 0 1)) true)
  let header := signature.header modifiers
  let definition ← plain (ofExcept (header.definition (.interpreted [])))
  if ← plain Step.isSkimming then
    registerFunction definition
    enterHere .function (some definition.returnType)
    return none
  enterHere .function (some definition.returnType)
  declareParameters header definition.parameters
  return some (.function header [])

/-- A native function. -/
def nativeStatement (tokens modifiers : List Token) : Watched Session (Option Stmt) := do
  let keyword ← access (token tokens 0)
  checkFunctionPlacement keyword modifiers
  if tokens.length < 6 then
    let final ← access (last tokens)
    throw (.atToken (.unexpectedTokenDetailed final.text
      "expected `nat fn NAME :: TYPE (PARAMS) -> \"namespace\";`") final)
  let arrow ← access (back tokens 3)
  let _ ← plain (ofExcept (Token.expectAt tokens arrow (· = .arrow) "`->`"))
  let namespaced ← access (back tokens 2)
  let binding ← plain (ofExcept
    (Token.expectAt tokens namespaced (· = .literal .string) "a binding namespace"))
  let signature ← Watched.check (signature (← access (between tokens 1 3)) false)
  let header := signature.header modifiers
  let definition ← plain (ofExcept (header.definition (.native (nativeName header binding) none)))
  if ← plain Step.isSkimming then
    registerFunction definition
    return none
  return some (.native header binding)

/-! ## Variables -/

/-- Registers a global found by the first pass. -/
def registerGlobal (module : ModulePath) (identifier : Token) (modifiers : List Token)
    (type : Datatype) : Watched Session Unit := do
  let session ← get
  match ← access (addVariable session.table module
    ⟨identifier.text, type, Token.modifiers modifiers, true⟩) with
  | .ok table => set { session with table }
  | .error _ => return

/-- The type of a global that follows from its value, if the value can be typed by now. -/
def inferGlobal? (global : DeferredGlobal) : Watched Session (Option Datatype) := fun session => do
  match ← typed global.value global.typeKeyword session with
  | (.ok value, after) => return (.ok (Step.inferredType? global.modifiers value.type), after)
  | (.error _, after) => return (.ok none, after)

/-- Registers a global in the first pass, or defers it until the type of its value is known. -/
def skimGlobal (typeKeyword identifier : Token) (modifiers : List Token)
    (value : Option (List Token)) : Watched Session Unit := do
  let inner ← access (current (← get).scopes)
  match if typeKeyword.kind = .question then value else none with
  | some value =>
    let global : DeferredGlobal := ⟨inner.module, typeKeyword, identifier, modifiers, value⟩
    match ← inferGlobal? global with
    | some type => registerGlobal inner.module identifier modifiers type
    | none => modify fun session => { session with deferred := session.deferred ++ [global] }
  | none =>
    match typeKeyword.datatype? (Token.areNullable modifiers) with
    | some type => registerGlobal inner.module identifier modifiers type
    | none => return

/-- Declares a variable in the second pass. -/
def declareVariable (identifier : Token) (v : Variable) (isGlobal : Bool) : Watched Session Unit := do
  let session ← get
  if isGlobal then
    let inner ← access (current session.scopes)
    let owner ← access (module session.table inner.module)
    if (owner.global? identifier.text).isNone then
      match ← access (addVariable session.table inner.module v) with
      | .ok table => set { session with table }
      | .error conflict => throw (conflict.toError identifier.span.start)
  else
    match ← addLocal v with
    | .ok scopes => set { session with scopes }
    | .error conflict => throw (conflict.toError identifier.span.start)

/-- Whether a variable that is declared here is a global. -/
def placeVariable (form : VariableForm) (modifiers : List Token) : Watched Session Bool := do
  let isGlobal ← admitsGlobals
  if !isGlobal && !(← get).scopes.inFunction then
    throw (.atToken (.illegalPlacement
      "variables can only be declared inside of a module or a function") form.identifier)
  if isGlobal then
    if form.value.isNone && Modifier.isConstant (Token.modifiers modifiers) then
      throw (.atToken (.uninitializedConstant form.identifier.text) form.identifier)
  else
    plain (Step.rejectInvalidModifiers modifiers "variable" Modifier.restrictsAccess)
  return isGlobal

/-- Declares a variable once its value, if it has one, is typed. -/
def declareTyped (form : VariableForm) (modifiers : List Token) (isGlobal : Bool)
    (value : Option Expr) : Watched Session (Option (VariableHeader × Option Expr)) := do
  let type ← plain (ofExcept (Step.declaredType form.typeKeyword modifiers value))
  plain (ofExcept (Step.checkInitial form.identifier type value))
  let v : Variable :=
    ⟨form.identifier.text, type, Token.modifiers modifiers, isGlobal || value.isSome⟩
  declareVariable form.identifier v isGlobal
  match if form.typeKeyword.kind = .question then Step.typeToken? type else some form.typeKeyword with
  | some datatype => return some (⟨modifiers, form.identifier, datatype⟩, value)
  | none => return none

/-- Types the value of a declaration and declares the variable. -/
def evaluateVariable (form : VariableForm) (modifiers : List Token) (isGlobal : Bool) :
    Watched Session (Option (VariableHeader × Option Expr)) :=
  match form.value with
  | some value => do
    let value ← typed value form.mark
    declareTyped form modifiers isGlobal (some value)
  | none => declareTyped form modifiers isGlobal none

/-- A declaration of a variable. -/
def variableStatement (tokens modifiers : List Token) :
    Watched Session (Option (VariableHeader × Option Expr)) := do
  let form ← Watched.check (variableForm tokens)
  let isGlobal ← placeVariable form modifiers
  if ← plain Step.isSkimming then
    if isGlobal then skimGlobal form.typeKeyword form.identifier modifiers form.value
    return none
  evaluateVariable form modifiers isGlobal

/-! ## Every access is in range -/

section

open Watched (Agrees)
open Session (Anchored)

variable {session : Session} {tokens : List Token}

/-- A check that changes at most which locals have a value. -/
theorem agrees_within {α : Type} {body : Env → Watched ScopeStack α} {f : Env → Check α}
    (h : session.Anchored)
    (hb : Agrees (Houses session.env) (body session.env) (f session.env) session.scopes)
    (hk : Fallible.Keeps ScopeStack.unmarked (f session.env)) :
    Agrees Anchored (within body) (Step.check f) session := by
  refine ⟨?_, h.of_bare (ScopeStack.bare_eq_of_unmarked_eq (hk session.scopes))⟩
  rw [within, hb.run_eq]
  rfl

theorem agrees_typed (h : session.Anchored) (ht : ∀ token ∈ tokens, token.kind ≠ .endOfFile)
    (context : Token) :
    Agrees Anchored (typed tokens context) (Step.expression tokens context) session :=
  agrees_within h (@agrees_expression session.env _ h.upward _ ht h.toRooted.current context)
    (Env.keeps_expression _ tokens context)

theorem agrees_rejectModifiers (h : session.Anchored) (modifiers : List Token) :
    Agrees Anchored (plain (Step.rejectModifiers modifiers)) (Step.rejectModifiers modifiers)
      session := by
  refine .plain ?_
  unfold Step.rejectModifiers
  cases modifiers.head? <;> exact h

theorem agrees_rejectInvalidModifiers (h : session.Anchored) (modifiers : List Token)
    (target : String) (invalid : Modifier → Bool) :
    Agrees Anchored (plain (Step.rejectInvalidModifiers modifiers target invalid))
      (Step.rejectInvalidModifiers modifiers target invalid) session := by
  refine .plain ?_
  unfold Step.rejectInvalidModifiers
  cases Token.firstModifier? invalid modifiers <;> exact h

theorem agrees_isSkimming (h : session.Anchored) :
    Agrees Anchored (plain Step.isSkimming) Step.isSkimming session := .plain h

theorem agrees_enter {change : ScopeStack → ScopeStack} {scope : Scope} (h : session.Anchored)
    (hc : change session.scopes = session.scopes.enter scope)
    (hs : session.table.contains scope.module) :
    Agrees Anchored (plain (Step.changeScopes change)) (Step.changeScopes change) session := by
  refine .plain ?_
  change Anchored { session with scopes := change session.scopes }
  rw [hc]
  exact h.enter hs

theorem agrees_enterHere {change : ScopeStack → ScopeStack} {kind : ScopeKind}
    {returnType : Option Datatype} (h : session.Anchored)
    (hc : change session.scopes =
      session.scopes.enter ⟨kind, session.scopes.currentModule, [], returnType⟩) :
    Agrees Anchored (enterHere kind returnType) (Step.changeScopes change) session := by
  refine .read_bind (.access_bind (current_eq _) ⟨?_, ?_⟩)
  · change Except.ok _ = Except.ok (_, { session with scopes := change session.scopes })
    rw [hc]
    rfl
  · change Anchored { session with scopes := change session.scopes }
    rw [hc]
    exact h.enter h.toRooted.current

theorem admitsGlobals_apply (session : Session) :
    admitsGlobals session = .ok (.ok session.admitsGlobals, session) := by
  rw [admitsGlobals, current_eq]
  rfl

theorem agrees_moduleStatement (h : session.Anchored) (hn : tokens ≠ []) (modifiers : List Token) :
    Agrees Anchored (moduleStatement tokens modifiers) (Step.moduleStatement tokens modifiers)
      session := by
  have enter {s : Session} {path : ModulePath} (identifier : Token) (h : s.Anchored)
      (hp : s.table.contains path) : Agrees Anchored (do
        plain (Step.changeScopes (·.pushIn ScopeKind.module path))
        if ← plain Step.isSkimming then return none
        return some (Stmt.module identifier [])) (do
        Step.changeScopes (·.pushIn ScopeKind.module path)
        if ← Step.isSkimming then return none
        return some (Stmt.module identifier [])) s := by
    refine .bind (agrees_enter h rfl hp) fun _ t _ h => .bind (agrees_isSkimming h) fun _ u _ h => ?_
    exact .ite (fun _ => .pure h _) fun _ => .pure h _
  simp only [moduleStatement, Step.moduleStatement, Step.fail, Watched.throw_bind,
    Fallible.throw_bind]
  refine .bind (agrees_rejectModifiers h _) fun _ s _ h => ?_
  refine .bind (.answer h _) fun identifier s _ h => .bind (.answer h _) fun _ s _ h => ?_
  refine .bind (.check h (agrees_expectEnd (by decide) tokens)) fun _ s _ h => ?_
  refine .bind (.tokenAt h (List.length_pos_iff.2 hn)) fun keyword s _ h => ?_
  refine .get_bind (.access_bind (current_eq _) (.ite (fun _ => .throw h _) fun _ => ?_))
  refine .read_bind (.access_bind (submodule?_eq h.toRooted.current _) (.get_bind ?_))
  refine .ite (fun _ => .get_bind (.access_bind (addModule_eq h.upward h.toRooted.current _) ?_))
    fun hc => ?_
  · cases ha : s.table.addModule s.scopes.currentModule identifier.text with
    | error conflict =>
      exact .throw h _
    | ok table =>
      obtain ⟨hanchored, hpath⟩ := h.addModule ha
      refine .bind (.modify hanchored) fun _ t ht _ => ?_
      obtain rfl := Fallible.modify_eq_ok.1 ht
      exact enter identifier hanchored hpath
  · exact enter identifier h (by simpa using hc)

theorem agrees_checkFunctionPlacement (h : session.Anchored) (keyword : Token)
    (modifiers : List Token) :
    Agrees Anchored (checkFunctionPlacement keyword modifiers)
      (Step.checkFunctionPlacement keyword modifiers) session := by
  simp only [checkFunctionPlacement, Step.checkFunctionPlacement, Step.fail, Watched.throw_bind,
    Fallible.throw_bind]
  refine .look_bind (admitsGlobals_apply session) (.reads ?_)
  exact .ite (fun _ => .throw h _) fun _ => agrees_rejectInvalidModifiers h _ _ _

theorem agrees_registerFunction (h : session.Anchored) (definition : FunctionDefinition) :
    Agrees Anchored (registerFunction definition) (Step.registerFunction definition) session := by
  refine .read_bind (.access_bind (current_eq _) (.access_bind
    (addFunction_eq h.upward h.toRooted.current definition) ?_))
  refine ⟨?_, ?_⟩
  · unfold Step.registerFunction
    rw [Fallible.modify_apply]
    cases session.table.addFunction session.scopes.currentModule definition <;> rfl
  · unfold Step.registerFunction
    rw [Fallible.modify_apply]
    cases ha : session.table.addFunction session.scopes.currentModule definition with
    | error conflict => exact h
    | ok table => exact h.addFunction ha

theorem addLocal_apply (session : Session) (v : Variable) :
    addLocal v session = .ok (.ok (session.scopes.addLocal v), session) := by
  rw [addLocal, (findLocal?_eq session.scopes v.name).1]
  rfl

theorem agrees_declareParameters (header : FunctionHeader) (parameters : List FunctionParameter)
    (h : session.Anchored) :
    Agrees Anchored (declareParameters header parameters) (Step.declareParameters header parameters)
      session := by
  induction parameters generalizing session with
  | nil => exact .pure h _
  | cons parameter rest ih =>
    rw [declareParameters, Step.declareParameters]
    refine .look_bind (addLocal_apply session _) (.reads ?_)
    cases hadd : session.scopes.addLocal
      ⟨parameter.name, parameter.datatype, parameter.modifiers, true⟩ with
    | error conflict => exact .throw h _
    | ok scopes =>
      have hscopes : Agrees Anchored (plain (Step.changeScopes fun _ => scopes))
          (Step.changeScopes fun _ => scopes) session :=
        .plain (h.of_bare (ScopeStack.bare_of_addLocal hadd))
      exact .bind hscopes fun _ _ _ h => ih h

theorem agrees_functionStatement (h : session.Anchored) (hn : tokens ≠ []) (modifiers : List Token) :
    Agrees Anchored (functionStatement tokens modifiers) (Step.functionStatement tokens modifiers)
      session := by
  have hlength := List.length_pos_iff.2 hn
  simp only [functionStatement, Step.functionStatement]
  refine .bind (.tokenAt h hlength) fun keyword s _ h => ?_
  refine .bind (agrees_checkFunctionPlacement h _ _) fun _ s _ h => ?_
  refine .access_bind (between_one hlength) ?_
  refine .bind (.check h (agrees_signature _ _)) fun signature s _ h => ?_
  refine .bind (.answer h _) fun definition s _ h => .bind (agrees_isSkimming h) fun _ s _ h => ?_
  refine .ite (fun _ => ?_) fun _ => ?_
  · refine .bind (agrees_registerFunction h _) fun _ s _ h => ?_
    exact .bind (agrees_enterHere h rfl) fun _ s _ h => .pure h _
  · refine .bind (agrees_enterHere h rfl) fun _ s _ h => ?_
    exact .bind (agrees_declareParameters _ _ h) fun _ s _ h => .pure h _

theorem agrees_nativeStatement (h : session.Anchored) (hn : tokens ≠ []) (modifiers : List Token) :
    Agrees Anchored (nativeStatement tokens modifiers) (Step.nativeStatement tokens modifiers)
      session := by
  have hlength := List.length_pos_iff.2 hn
  simp only [nativeStatement, Step.nativeStatement, Step.fail, Watched.throw_bind, Fallible.throw_bind]
  refine .bind (.tokenAt h hlength) fun keyword s _ h => ?_
  refine .bind (agrees_checkFunctionPlacement h _ _) fun _ s _ h => .ite (fun _ => ?_) fun hc => ?_
  · exact .bind (.last h hn) fun final s _ h => .throw h _
  · refine .access_bind (back_of_le (by omega)) (.bind (.answer h _) fun _ s _ h => ?_)
    refine .access_bind (back_of_le (by omega)) (.bind (.answer h _) fun binding s _ h => ?_)
    refine .access_bind (between_of_le (by omega)) ?_
    rw [List.drop_one]
    refine .bind (.check h (agrees_signature _ _)) fun signature s _ h => ?_
    refine .bind (.answer h _) fun definition s _ h => .bind (agrees_isSkimming h) fun _ s _ h => ?_
    refine .ite (fun _ => ?_) fun _ => .pure h _
    exact .bind (agrees_registerFunction h _) fun _ s _ h => .pure h _

theorem agrees_registerGlobal {module : ModulePath} (h : session.Anchored)
    (hm : session.table.contains module) (identifier : Token) (modifiers : List Token)
    (type : Datatype) :
    Agrees Anchored (registerGlobal module identifier modifiers type)
      (Step.registerGlobal module identifier modifiers type) session := by
  refine .read_bind (.access_bind (addVariable_eq h.upward hm _) ⟨?_, ?_⟩)
  · unfold Step.registerGlobal
    rw [Fallible.modify_apply]
    dsimp only
    cases session.table.addVariable module
      ⟨identifier.text, type, Token.modifiers modifiers, true⟩ <;> rfl
  · unfold Step.registerGlobal
    rw [Fallible.modify_apply]
    dsimp only
    cases ha : session.table.addVariable module
      ⟨identifier.text, type, Token.modifiers modifiers, true⟩ with
    | error conflict => exact h
    | ok table => exact h.addVariable ha

theorem agrees_inferGlobal? {global : DeferredGlobal} (h : session.Anchored)
    (hg : ∀ token ∈ global.value, token.kind ≠ .endOfFile) :
    Agrees Anchored (inferGlobal? global) (Step.inferGlobal? global) session := by
  obtain ⟨hrun, hkept⟩ := agrees_typed h hg global.typeKeyword
  have hguarded : inferGlobal? global session = typed global.value global.typeKeyword session >>= fun
      | (.ok value, after) => .ok (.ok (Step.inferredType? global.modifiers value.type), after)
      | (.error _, after) => .ok (.ok none, after) := rfl
  rcases hx : Step.expression global.value global.typeKeyword session with ⟨error | value, after⟩
  · have hmodel : Step.inferGlobal? global session = (.ok none, after) := by
      rw [Step.inferGlobal?, hx]
    rw [hx] at hrun hkept
    exact ⟨by rw [hguarded, hrun, hmodel]; rfl, by rwa [hmodel]⟩
  · have hmodel : Step.inferGlobal? global session =
        (.ok (Step.inferredType? global.modifiers value.type), after) := by
      rw [Step.inferGlobal?, hx]
    rw [hx] at hrun hkept
    exact ⟨by rw [hguarded, hrun, hmodel]; rfl, by rwa [hmodel]⟩

theorem agrees_skimGlobal {value : Option (List Token)} (h : session.Anchored)
    (hv : ∀ tokens ∈ value, ∀ token ∈ tokens, token.kind ≠ .endOfFile)
    (typeKeyword identifier : Token) (modifiers : List Token) :
    Agrees Anchored (skimGlobal typeKeyword identifier modifiers value)
      (Step.skimGlobal typeKeyword identifier modifiers value) session := by
  have hmodule := h.toRooted.current
  refine .get_bind (.access_bind (current_eq _) ?_)
  generalize hw : (if typeKeyword.kind = .question then value else none) = written
  cases written with
  | some tokens =>
    have htokens : ∀ token ∈ tokens, token.kind ≠ .endOfFile := by
      refine hv tokens ?_
      split at hw
      · exact hw
      · cases hw
    refine .bind (agrees_inferGlobal? h htokens) fun type? t ht h => ?_
    -- Scopes change while a value is typed, and nothing else.
    obtain ⟨result, scopes, -, rfl, -⟩ := Step.inferGlobal?_eq_ok ht
    cases type? with
    | some type => exact agrees_registerGlobal h hmodule _ _ _
    | none =>
      refine .modify ⟨⟨h.scopes, fun global hg => ?_⟩, h.upward, fun global hg => ?_⟩
      · obtain hg | hg := List.mem_append.1 hg
        · exact h.deferred global hg
        · obtain rfl := List.mem_singleton.1 hg
          exact hmodule
      · obtain hg | hg := List.mem_append.1 hg
        · exact h.ordinary global hg
        · obtain rfl := List.mem_singleton.1 hg
          exact htokens
  | none =>
    cases typeKeyword.datatype? (Token.areNullable modifiers) with
    | some type => exact agrees_registerGlobal h hmodule _ _ _
    | none => exact .pure h _

theorem agrees_declareVariable (h : session.Anchored) (identifier : Token) (v : Variable)
    (isGlobal : Bool) :
    Agrees Anchored (declareVariable identifier v isGlobal)
      (Step.declareVariable identifier v isGlobal) session := by
  unfold declareVariable Step.declareVariable
  refine .get_bind (.ite (fun _ => ?_) fun _ => ?_)
  · refine .access_bind (current_eq _) (.access_bind (module_of_contains h.toRooted.current) ?_)
    refine .ite (fun _ => .access_bind (addVariable_eq h.upward h.toRooted.current v) ?_)
      fun _ => .pure h _
    cases ha : session.table.addVariable session.scopes.currentModule v with
    | error conflict => exact .throw h _
    | ok table => exact .set (h.addVariable ha)
  · refine .look_bind (addLocal_apply session v) ?_
    cases ha : session.scopes.addLocal v with
    | error conflict => exact .throw h _
    | ok scopes => exact .set (h.of_bare (ScopeStack.bare_of_addLocal ha))

theorem agrees_placeVariable (h : session.Anchored) (form : VariableForm) (modifiers : List Token) :
    Agrees Anchored (placeVariable form modifiers) (Step.placeVariable form modifiers) session := by
  simp only [placeVariable, Step.placeVariable, Step.fail, Watched.throw_bind, Fallible.throw_bind]
  refine .look_bind (admitsGlobals_apply session) (.reads (.get_bind ?_))
  refine .ite (fun _ => .throw h _) fun _ => .ite (fun _ => ?_) fun _ => ?_
  · exact .ite (fun _ => .throw h _) fun _ => .pure h _
  · exact .bind (agrees_rejectInvalidModifiers h _ _ _) fun _ _ _ h => .pure h _

theorem agrees_declareTyped (h : session.Anchored) (form : VariableForm) (modifiers : List Token)
    (isGlobal : Bool) (value : Option Expr) :
    Agrees Anchored (declareTyped form modifiers isGlobal value)
      (Step.declareTyped form modifiers isGlobal value) session := by
  unfold declareTyped Step.declareTyped
  refine .bind (.answer h _) fun type s _ h => .bind (.answer h _) fun _ s _ h => ?_
  refine .bind (agrees_declareVariable h _ _ _) fun _ s _ h => ?_
  cases (if form.typeKeyword.kind = .question then Step.typeToken? type
    else some form.typeKeyword) with
  | some datatype => exact .pure h _
  | none => exact .pure h _

theorem agrees_evaluateVariable {form : VariableForm} (h : session.Anchored)
    (hv : ∀ tokens ∈ form.value, ∀ token ∈ tokens, token.kind ≠ .endOfFile)
    (modifiers : List Token) (isGlobal : Bool) :
    Agrees Anchored (evaluateVariable form modifiers isGlobal)
      (Step.evaluateVariable form modifiers isGlobal) session := by
  unfold evaluateVariable Step.evaluateVariable
  cases hvalue : form.value with
  | none => exact agrees_declareTyped h _ _ _ _
  | some tokens =>
    refine .bind (agrees_typed h (hv tokens hvalue) _) fun value s _ h => ?_
    exact agrees_declareTyped h _ _ _ _

theorem agrees_variableStatement (h : session.Anchored) (ht : Token.Complete tokens)
    (modifiers : List Token) :
    Agrees Anchored (variableStatement tokens modifiers) (Step.variableStatement tokens modifiers)
      session := by
  refine .bind (.check h (agrees_variableForm ht.stopped)) fun form s hform h => ?_
  have hv : ∀ value ∈ form.value, ∀ token ∈ value, token.kind ≠ .endOfFile :=
    fun value hvalue token hm => ht.ordinary token
      (VariableForm.subset_of_ofTokens (Fallible.ofExcept_eq_ok.1 hform).1 value hvalue hm)
  refine .bind (agrees_placeVariable h _ _) fun isGlobal s _ h => ?_
  refine .bind (agrees_isSkimming h) fun _ s _ h => .ite (fun _ => ?_) fun _ => ?_
  · refine .ite (fun _ => ?_) fun _ => .pure h _
    exact .bind (agrees_skimGlobal h hv _ _ _) fun _ s _ h => .pure h _
  · exact agrees_evaluateVariable h hv _ _

end

end Guarded

end MuLang
