import MuLang.Proofs.Places.Terms
import MuLang.Proofs.Steady

/-!
# Statements read without places

No statement is read differently for where its tokens stand. From stripped tokens, and in a session
whose errors and deferred globals are stripped, a step does what it does otherwise, but for places.
-/
namespace MuLang

/-! ## Tokens at fixed places -/

theorem fields_map {α β : Type} (f : α → β) {isSeparator : β → Bool} (list : List α) :
    fields isSeparator (list.map f) =
      (fields (fun a => isSeparator (f a)) list).map (List.map f) := by
  induction list with
  | nil => rfl
  | cons a rest ih =>
    rw [List.map_cons, fields, fields, ih]
    split
    · rfl
    · cases fields (fun a => isSeparator (f a)) rest <;> rfl

namespace Token

variable (tokens : List Token) (index : Nat)

theorem leadingModifiers_stripped :
    leadingModifiers (tokens.map stripped) = (leadingModifiers tokens).map stripped := by
  rw [leadingModifiers, List.takeWhile_map]
  rfl

theorem afterModifiers_stripped :
    afterModifiers (tokens.map stripped) = (afterModifiers tokens).map stripped := by
  rw [afterModifiers, List.dropWhile_map]
  rfl

theorem inner_stripped : inner (tokens.map stripped) = (inner tokens).map stripped := by
  rw [inner, inner, List.map_dropLast, List.map_tail]

/-- The end of a statement is nowhere once its tokens are. -/
theorem end_stripped :
    ((tokens.map stripped).getLast?.map (·.span.stop)).getD .nowhere = .nowhere := by
  rw [List.getLast?_map]
  cases tokens.getLast? <;> rfl

theorem expectAt_stripped (accepts : Kind → Bool) (expected : String) :
    expectAt (tokens.map stripped) index accepts expected =
      Except.stripped stripped (expectAt tokens index accepts expected) := by
  rw [expectAt, end_stripped, List.getElem?_map, expectAt]
  cases tokens[index]? with
  | none => rfl
  | some token => exact Except.stripped_ite rfl rfl

theorem expectName_stripped (what : String) : expectName (tokens.map stripped) index what =
    Except.stripped stripped (expectName tokens index what) := by
  rw [expectName, expectAt_stripped, expectName]
  cases expectAt tokens index (· = .identifier) what with
  | error error => rfl
  | ok identifier => exact Except.stripped_ite rfl rfl

theorem expectEnd_stripped (length : Nat) :
    expectEnd (tokens.map stripped) length = Except.stripped id (expectEnd tokens length) := by
  rw [expectEnd, List.length_map, List.getElem?_map, expectEnd]
  refine Except.stripped_ite rfl ?_
  cases tokens[length - 1]? <;> rfl

theorem tokenAt_stripped :
    tokenAt (tokens.map stripped) index = Except.stripped stripped (tokenAt tokens index) := by
  rw [tokenAt, end_stripped, List.getElem?_map, tokenAt]
  cases tokens[index]? <;> rfl

theorem valueFrom_stripped : valueFrom (tokens.map stripped) index =
    Except.stripped (List.map stripped) (valueFrom tokens index) := by
  rw [valueFrom, end_stripped, List.length_map, valueFrom]
  refine Except.stripped_ite ?_ rfl
  rw [Except.stripped_ok, List.map_dropLast, List.map_drop]

end Token

/-! ## Signatures -/

namespace Parameter

theorem ofTokens_stripped (last : Token) (segment : List Token) :
    ofTokens last.stripped (segment.map Token.stripped) =
      Except.stripped stripped (ofTokens last segment) := by
  unfold ofTokens
  simp only [Token.leadingModifiers_stripped, Token.afterModifiers_stripped,
    Token.firstModifier?_stripped, List.getLast?_map]
  cases Token.firstModifier? Modifier.restrictsAccess (Token.leadingModifiers segment) with
  | some invalid => rfl
  | none =>
    obtain _ | ⟨datatype, _ | ⟨identifier, _ | ⟨extra, rest⟩⟩⟩ := Token.afterModifiers segment
    · cases segment.getLast? <;> rfl
    · rfl
    · exact Except.stripped_ite rfl (Except.stripped_ite rfl rfl)
    · rfl

theorem listOfTokens_stripped (tokens : List Token) :
    listOfTokens (tokens.map Token.stripped) =
      Except.stripped (List.map stripped) (listOfTokens tokens) := by
  rw [listOfTokens, List.getLast?_map, listOfTokens]
  cases tokens.getLast? with
  | none => rfl
  | some last =>
    dsimp only [Option.map_some]
    rw [fields_map]
    exact Except.stripped_mapM (ofTokens_stripped last) _

theorem registered?_stripped (parameter : Parameter) :
    parameter.stripped.registered? = parameter.registered? := by
  rw [registered?, stripped, Token.areNullable_stripped, Token.modifiers_stripped]
  rfl

end Parameter

namespace Signature

def stripped (signature : Signature) : Signature :=
  ⟨signature.identifier.stripped, signature.returnType.stripped,
    signature.parameters.map Parameter.stripped⟩

theorem header_stripped (signature : Signature) (modifiers : List Token) :
    signature.stripped.header (modifiers.map Token.stripped) =
      (signature.header modifiers).stripped := rfl

theorem parenthesized_stripped (header : List Token) (start : Nat) :
    parenthesized (header.map Token.stripped) start =
      Except.stripped (List.map Token.stripped) (parenthesized header start) := by
  simp only [parenthesized, Token.expectAt_stripped, Token.tokenAt_stripped, List.length_map]
  refine Except.stripped_bind fun _ => Except.stripped_bind fun last => ?_
  refine Except.stripped_ite rfl ?_
  rw [← List.map_drop, ← List.map_dropLast]
  rfl

theorem ofTokens_stripped (header : List Token) (allowBare : Bool) :
    ofTokens (header.map Token.stripped) allowBare =
      Except.stripped stripped (ofTokens header allowBare) := by
  simp only [ofTokens, Token.expectAt_stripped, Token.expectName_stripped, List.length_map,
    parenthesized_stripped]
  refine Except.stripped_bind fun _ => Except.stripped_bind fun identifier => ?_
  refine Except.stripped_ite rfl (Except.stripped_bind fun mark => Except.stripped_ite ?_ ?_)
  · refine Except.stripped_bind fun tokens => ?_
    rw [Parameter.listOfTokens_stripped]
    exact Except.stripped_bind fun _ => rfl
  · refine Except.stripped_bind fun type => Except.stripped_bind fun tokens => ?_
    rw [Parameter.listOfTokens_stripped]
    exact Except.stripped_bind fun _ => rfl

end Signature

theorem FunctionHeader.definition_stripped (header : FunctionHeader) (body : FunctionBody) :
    header.stripped.definition body = Except.stripped id (header.definition body) := by
  rw [definition, stripped, Token.areNullable_stripped, Token.datatype?_stripped,
    List.filterMap_map, Token.modifiers_stripped, definition]
  cases header.returnType.datatype? (Token.areNullable header.modifiers) with
  | none => rfl
  | some type =>
    have hp : (Parameter.registered? ∘ Parameter.stripped) = Parameter.registered? :=
      funext Parameter.registered?_stripped
    rw [hp]
    rfl

/-! ## Forms of declarations -/

namespace VariableForm

def stripped (form : VariableForm) : VariableForm :=
  ⟨form.typeKeyword.stripped, form.identifier.stripped, form.mark.stripped,
    form.value.map (List.map Token.stripped)⟩

theorem ofTokens_stripped (tokens : List Token) : ofTokens (tokens.map Token.stripped) =
    Except.stripped stripped (ofTokens tokens) := by
  simp only [ofTokens, Token.tokenAt_stripped, Token.expectName_stripped, Token.expectAt_stripped,
    Token.valueFrom_stripped]
  refine Except.stripped_bind fun typeKeyword => Except.stripped_ite rfl ?_
  refine Except.stripped_bind fun identifier => Except.stripped_bind fun mark => ?_
  refine Except.stripped_ite ?_ (Except.stripped_ite rfl rfl)
  have hvalue : some <$> Except.stripped (List.map Token.stripped) (Token.valueFrom tokens 3) =
      Except.stripped (Option.map (List.map Token.stripped)) (some <$> Token.valueFrom tokens 3) :=
    Except.stripped_map fun _ => rfl
  rw [hvalue]
  refine Except.stripped_bind fun value => ?_
  rw [Option.isNone_map]
  exact Except.stripped_ite rfl rfl

end VariableForm

/-! ## Sessions -/

def DeferredGlobal.stripped (global : DeferredGlobal) : DeferredGlobal :=
  ⟨global.module, global.typeKeyword.stripped, global.identifier.stripped,
    global.modifiers.map Token.stripped, global.value.map Token.stripped⟩

namespace Session

/-- A session without places. Its table has none, since the functions in it have no bodies yet. -/
def stripped (session : Session) : Session :=
  { session with
    deferred := session.deferred.map DeferredGlobal.stripped
    log := session.log.stripped }

@[simp] theorem scopes_stripped (session : Session) : session.stripped.scopes = session.scopes :=
  rfl

@[simp] theorem table_stripped (session : Session) : session.stripped.table = session.table := rfl

theorem report_stripped (session : Session) (error : Error) :
    session.stripped.report error.stripped = (session.report error).stripped := by
  rw [report, report]
  simp [stripped]

end Session

namespace Step

variable {α β γ δ : Type} {view : α → β} {look : γ → δ}

/-- In a stripped session the second step does what the first one does in the session itself, but
for places. -/
abbrev Shadows (view : α → β) (step : Step α) (other : Step β) : Prop :=
  Fallible.Shadows Session.stripped view step other

namespace Shadows

theorem fail (cause : Cause) (token : Token) :
    Shadows view (fail cause token : Step α) (fail cause token.stripped : Step β) :=
  .throw (.atToken cause token)

theorem isSkimming : Shadows id isSkimming isSkimming := .get_bind fun _ => .pure _

theorem changeScopes (change : ScopeStack → ScopeStack) :
    Shadows (fun _ => ()) (changeScopes change) (changeScopes change) := .modify fun _ => rfl

/-- Where the passes part, they part in both sessions. -/
theorem fork {first second : Step α} {other last : Step β} (h : Shadows view first other)
    (h' : Shadows view second last) :
    Shadows view (Step.isSkimming >>= fun skimming => if skimming then first else second)
      (Step.isSkimming >>= fun skimming => if skimming then other else last) :=
  .bind isSkimming fun _ => .ite h h'

theorem check {body : Env → Check α} {other : Env → Check β}
    (h : ∀ env, Fallible.Shadows id view (body env) (other env)) :
    Shadows view (check body) (check other) := by
  intro s
  unfold Step.check
  rw [show s.stripped.env = s.env from rfl, Session.scopes_stripped,
    show other s.env s.scopes = _ from h s.env s.scopes]
  rfl

theorem expression (tokens : List Token) (context : Token) :
    Shadows Expr.stripped (expression tokens context)
      (expression (tokens.map Token.stripped) context.stripped) :=
  .check fun env => env.shadows_expression tokens context

theorem condition (tokens : List Token) (keyword : Token) :
    Shadows Expr.stripped (condition tokens keyword)
      (condition (tokens.map Token.stripped) keyword.stripped) := by
  simp only [Step.condition, fail_bind]
  refine .bind (expression tokens keyword) fun value => ?_
  rw [Expr.type_stripped]
  exact .ite (fail _ _) (.pure _)

theorem reporting {step : Step (Option α)} {other : Step (Option β)}
    (h : Shadows (Option.map view) step other) :
    Shadows (Option.map view) (reporting step) (reporting other) := by
  intro s
  unfold Step.reporting
  rw [h s]
  rcases step s with ⟨error | result, after⟩
  · exact Prod.ext rfl (Session.report_stripped _ _)
  · rfl

theorem rejectModifiers (modifiers : List Token) : Shadows (fun _ => ())
    (rejectModifiers modifiers) (rejectModifiers (modifiers.map Token.stripped)) := by
  cases modifiers with
  | nil => exact .pure _
  | cons modifier rest => exact fail _ _

theorem rejectInvalidModifiers (modifiers : List Token) (target : String)
    (invalid : Modifier → Bool) : Shadows (fun _ => ())
      (rejectInvalidModifiers modifiers target invalid)
      (rejectInvalidModifiers (modifiers.map Token.stripped) target invalid) := by
  rw [Step.rejectInvalidModifiers, Step.rejectInvalidModifiers, Token.firstModifier?_stripped]
  cases Token.firstModifier? invalid modifiers with
  | none => exact .pure _
  | some modifier => exact fail _ _

theorem requireFunction (token : Token) (what : String) : Shadows (fun _ => ())
    (requireFunction token what) (requireFunction token.stripped what) :=
  .get_bind fun _ => .ite (fail _ _) (.pure _)

theorem checkFunctionPlacement (keyword : Token) (modifiers : List Token) : Shadows (fun _ => ())
    (checkFunctionPlacement keyword modifiers)
    (checkFunctionPlacement keyword.stripped (modifiers.map Token.stripped)) := by
  simp only [Step.checkFunctionPlacement, fail_bind]
  exact .get_bind fun _ => .ite (fail _ _) (rejectInvalidModifiers _ _ _)

/-! ## Modules and functions -/

theorem moduleStatement (tokens modifiers : List Token) : Shadows (Option.map Stmt.stripped)
    (moduleStatement tokens modifiers)
    (moduleStatement (tokens.map Token.stripped) (modifiers.map Token.stripped)) := by
  simp only [Step.moduleStatement, fail_bind, Fallible.throw_bind]
  refine .bind (rejectModifiers _) fun _ => ?_
  refine .bind (.ofExcept (Token.expectName_stripped _ _ _)) fun identifier => ?_
  refine .bind (.ofExcept (Token.expectAt_stripped _ _ _ _)) fun _ => ?_
  refine .bind (.ofExcept (Token.expectEnd_stripped _ _)) fun _ => ?_
  refine .bind (.ofExcept (Token.tokenAt_stripped _ _)) fun keyword => .get_bind fun s => ?_
  have entered : Shadows (Option.map Stmt.stripped)
      (Step.changeScopes (·.pushIn .module (s.scopes.currentModule ++ [identifier.text])) >>=
        fun _ => Step.isSkimming >>= fun skimming =>
          if skimming then Pure.pure none else Pure.pure (some (Stmt.module identifier [])))
      (Step.changeScopes (·.pushIn .module (s.scopes.currentModule ++ [identifier.text])) >>=
        fun _ => Step.isSkimming >>= fun skimming => if skimming then Pure.pure none
          else Pure.pure (some (Stmt.module identifier.stripped []))) :=
    .bind (changeScopes _) fun _ => fork (.pure _) (.pure _)
  refine .ite (fail _ _) (.get_bind fun t => .ite (.get_bind fun u => ?_) entered)
  dsimp only [Session.scopes_stripped, Session.table_stripped, Token.text_stripped]
  cases u.table.addModule s.scopes.currentModule identifier.text with
  | error conflict => exact .throw _
  | ok table => exact .bind (.modify fun _ => rfl) fun _ => entered

theorem registerFunction (definition : FunctionDefinition) : Shadows (fun _ => ())
    (registerFunction definition) (registerFunction definition) := by
  refine .modify fun s => ?_
  dsimp only [Session.scopes_stripped, Session.table_stripped]
  split <;> rfl

theorem parameterPlace_stripped (header : FunctionHeader) (name : String) :
    parameterPlace header.stripped name = .nowhere := by
  rw [parameterPlace, FunctionHeader.stripped, ← List.map_reverse, List.find?_map]
  cases header.parameters.reverse.find? _ <;> rfl

theorem declareParameters (header : FunctionHeader) (parameters : List FunctionParameter) :
    Shadows (fun _ => ()) (declareParameters header parameters)
      (declareParameters header.stripped parameters) := by
  induction parameters with
  | nil => exact .pure _
  | cons parameter rest ih =>
    simp only [Step.declareParameters, Fallible.throw_bind]
    refine .get_bind fun s => ?_
    dsimp only [Session.scopes_stripped]
    cases s.scopes.addLocal ⟨parameter.name, parameter.datatype, parameter.modifiers, true⟩ with
    | error conflict =>
      dsimp only
      rw [parameterPlace_stripped]
      exact .throw (conflict.toError _)
    | ok scopes => exact .bind (changeScopes _) fun _ => ih

theorem functionStatement (tokens modifiers : List Token) : Shadows (Option.map Stmt.stripped)
    (functionStatement tokens modifiers)
    (functionStatement (tokens.map Token.stripped) (modifiers.map Token.stripped)) := by
  simp only [Step.functionStatement, ← List.map_dropLast]
  refine .bind (.ofExcept (Token.tokenAt_stripped _ _)) fun _ => ?_
  refine .bind (checkFunctionPlacement _ _) fun _ => ?_
  refine .bind (.ofExcept (Signature.ofTokens_stripped _ _)) fun signature => ?_
  rw [Signature.header_stripped]
  refine .bind (.ofExcept (FunctionHeader.definition_stripped _ _)) fun definition => ?_
  refine fork (.bind (registerFunction _) fun _ => .bind (changeScopes _) fun _ => .pure _) ?_
  exact .bind (changeScopes _) fun _ => .bind (declareParameters _ _) fun _ => .pure _

theorem nativeStatement (tokens modifiers : List Token) : Shadows (Option.map Stmt.stripped)
    (nativeStatement tokens modifiers)
    (nativeStatement (tokens.map Token.stripped) (modifiers.map Token.stripped)) := by
  simp only [Step.nativeStatement, fail_bind, List.length_map, ← List.map_take, ← List.map_tail]
  refine .bind (.ofExcept (Token.tokenAt_stripped _ _)) fun _ => ?_
  refine .bind (checkFunctionPlacement _ _) fun _ => .ite ?_ ?_
  · exact .bind (.ofExcept (Token.tokenAt_stripped _ _)) fun _ => fail _ _
  · refine .bind (.ofExcept (Token.expectAt_stripped _ _ _ _)) fun _ => ?_
    refine .bind (.ofExcept (Token.expectAt_stripped _ _ _ _)) fun binding => ?_
    refine .bind (.ofExcept (Signature.ofTokens_stripped _ _)) fun signature => ?_
    rw [Signature.header_stripped]
    refine .bind (.ofExcept (FunctionHeader.definition_stripped _ _)) fun definition => ?_
    exact fork (.bind (registerFunction _) fun _ => .pure _) (.pure _)

/-! ## Variables -/

theorem registerGlobal (module : ModulePath) (identifier : Token) (modifiers : List Token)
    (type : Datatype) : Shadows (fun _ => ()) (registerGlobal module identifier modifiers type)
      (registerGlobal module identifier.stripped (modifiers.map Token.stripped) type) := by
  refine .modify fun s => ?_
  dsimp only [Session.table_stripped, Token.text_stripped]
  rw [Token.modifiers_stripped]
  split <;> rfl

theorem inferGlobal? (global : DeferredGlobal) :
    Shadows id (inferGlobal? global) (inferGlobal? global.stripped) := by
  intro s
  have h := expression global.value global.typeKeyword s
  unfold Step.inferGlobal?
  dsimp only [DeferredGlobal.stripped]
  rw [h]
  rcases Step.expression global.value global.typeKeyword s with ⟨error | value, after⟩
  · rfl
  · dsimp only [Except.stripped]
    rw [inferredType?, inferredType?, Token.areNullable_stripped, Expr.type_stripped]
    rfl

/-- Whether the type of a declaration has to be inferred is told by a kind. -/
theorem inferred_stripped (typeKeyword : Token) (value : Option α) (change : α → β) :
    (if typeKeyword.stripped.kind = .question then value.map change else none) =
      (if typeKeyword.kind = .question then value else none).map change := by
  split <;> simp_all

theorem skimGlobal (typeKeyword identifier : Token) (modifiers : List Token)
    (value : Option (List Token)) : Shadows (fun _ => ())
      (skimGlobal typeKeyword identifier modifiers value)
      (skimGlobal typeKeyword.stripped identifier.stripped (modifiers.map Token.stripped)
        (value.map (List.map Token.stripped))) := by
  rw [Step.skimGlobal, Step.skimGlobal]
  refine .get_bind fun s => ?_
  rw [inferred_stripped]
  cases if typeKeyword.kind = .question then value else none with
  | some value =>
    refine .bind (inferGlobal? ⟨s.scopes.currentModule, typeKeyword, identifier, modifiers, value⟩)
      fun type => ?_
    cases type with
    | some type => exact registerGlobal _ _ _ _
    | none => exact .modify fun t => by simp [Session.stripped, DeferredGlobal.stripped]
  | none =>
    dsimp only [Option.map_none]
    rw [Token.datatype?_stripped, Token.areNullable_stripped]
    cases typeKeyword.datatype? (Token.areNullable modifiers) with
    | some type => exact registerGlobal _ _ _ _
    | none => exact .pure _

theorem declaredType_stripped (typeKeyword : Token) (modifiers : List Token)
    (value : Option Expr) : declaredType typeKeyword.stripped (modifiers.map Token.stripped)
      (value.map Expr.stripped) =
        Except.stripped id (declaredType typeKeyword modifiers value) := by
  rw [declaredType, inferred_stripped, Token.datatype?_stripped, Token.areNullable_stripped,
    declaredType]
  cases if typeKeyword.kind = .question then value else none with
  | some value =>
    dsimp only [Option.map_some]
    rw [inferredType?, Token.areNullable_stripped, Expr.type_stripped, ← inferredType?]
    cases Step.inferredType? modifiers value.type <;> rfl
  | none => cases typeKeyword.datatype? (Token.areNullable modifiers) <;> rfl

theorem declareVariable (identifier : Token) (v : Variable) (isGlobal : Bool) :
    Shadows (fun _ => ()) (declareVariable identifier v isGlobal)
      (declareVariable identifier.stripped v isGlobal) := by
  rw [Step.declareVariable, Step.declareVariable]
  refine .get_bind fun s => .ite (.ite ?_ (.pure _)) ?_
  · dsimp only [Session.scopes_stripped, Session.table_stripped]
    cases s.table.addVariable s.scopes.currentModule v with
    | error conflict => exact .throw (conflict.toError _)
    | ok table => exact .set rfl
  · dsimp only [Session.scopes_stripped]
    cases s.scopes.addLocal v with
    | error conflict => exact .throw (conflict.toError _)
    | ok scopes => exact .set rfl

theorem checkInitial_stripped (identifier : Token) (type : Datatype) (value : Option Expr) :
    checkInitial identifier.stripped type (value.map Expr.stripped) =
      Except.stripped id (checkInitial identifier type value) := by
  cases value with
  | none => rfl
  | some value =>
    simp only [Option.map_some, checkInitial, Expr.type_stripped]
    exact Except.stripped_ite rfl rfl

theorem placeVariable (form : VariableForm) (modifiers : List Token) : Shadows id
    (placeVariable form modifiers)
    (placeVariable form.stripped (modifiers.map Token.stripped)) := by
  simp only [Step.placeVariable, fail_bind, Token.modifiers_stripped]
  refine .get_bind fun s => .get_bind fun _ => .ite (fail _ _) (.ite ?_ ?_)
  · rw [VariableForm.stripped, Option.isNone_map]
    exact .ite (fail _ _) (.pure _)
  · exact .bind (rejectInvalidModifiers _ _ _) fun _ => .pure _

theorem typeToken?_stripped (type : Datatype) :
    (typeToken? type).map Token.stripped = typeToken? type := by
  rw [typeToken?, Option.map_map]
  rfl

theorem declareTyped (form : VariableForm) (modifiers : List Token) (isGlobal : Bool)
    (typed : Option Expr) :
    Shadows (Option.map (Prod.map VariableHeader.stripped (Option.map Expr.stripped)))
      (declareTyped form modifiers isGlobal typed)
      (declareTyped form.stripped (modifiers.map Token.stripped) isGlobal
        (typed.map Expr.stripped)) := by
  simp only [Step.declareTyped, Token.modifiers_stripped, Option.isSome_map]
  refine .bind (.ofExcept (declaredType_stripped _ _ _)) fun type => ?_
  refine .bind (.ofExcept (checkInitial_stripped _ _ _)) fun _ => ?_
  refine .bind (declareVariable _ _ _) fun _ => ?_
  have hspelled : (if form.stripped.typeKeyword.kind = .question then typeToken? type
      else some form.stripped.typeKeyword) =
        (if form.typeKeyword.kind = .question then typeToken? type
          else some form.typeKeyword).map Token.stripped := by
    rw [apply_ite (Option.map Token.stripped), typeToken?_stripped]
    rfl
  dsimp only [id]
  rw [hspelled]
  cases if form.typeKeyword.kind = .question then typeToken? type else some form.typeKeyword with
  | some datatype => exact .pure _
  | none => exact .pure _

theorem evaluateVariable (form : VariableForm) (modifiers : List Token) (isGlobal : Bool) :
    Shadows (Option.map (Prod.map VariableHeader.stripped (Option.map Expr.stripped)))
      (evaluateVariable form modifiers isGlobal)
      (evaluateVariable form.stripped (modifiers.map Token.stripped) isGlobal) := by
  obtain ⟨typeKeyword, identifier, mark, value⟩ := form
  cases value with
  | none => exact declareTyped _ _ _ none
  | some value =>
    exact .bind (expression value mark) fun typed => declareTyped _ _ _ (some typed)

theorem variableStatement (tokens modifiers : List Token) :
    Shadows (Option.map (Prod.map VariableHeader.stripped (Option.map Expr.stripped)))
      (variableStatement tokens modifiers)
      (variableStatement (tokens.map Token.stripped) (modifiers.map Token.stripped)) := by
  rw [Step.variableStatement, Step.variableStatement]
  refine .bind (.ofExcept (VariableForm.ofTokens_stripped _)) fun form => ?_
  refine .bind (placeVariable _ _) fun isGlobal => fork (.ite ?_ (.pure _)) (evaluateVariable _ _ _)
  exact .bind (skimGlobal _ _ _ _) fun _ => .pure _

/-! ## Statements of function bodies -/

theorem assignStatement (identifier operator : Token) (value : Expr) :
    Shadows (Option.map Action.stripped) (assignStatement identifier operator value)
      (assignStatement identifier.stripped operator.stripped value.stripped) := by
  rw [Step.assignStatement, Step.assignStatement]
  exact fork (.pure _)
    (.bind (check fun env => env.shadows_store identifier operator value) fun _ => .pure _)

theorem actionStatement (tokens modifiers : List Token) : Shadows (Option.map Action.stripped)
    (actionStatement tokens modifiers)
    (actionStatement (tokens.map Token.stripped) (modifiers.map Token.stripped)) := by
  rw [Step.actionStatement, Step.actionStatement, ← List.map_dropLast]
  refine .bind (rejectModifiers _) fun _ => ?_
  refine .bind (.ofExcept (Token.tokenAt_stripped _ _)) fun identifier => ?_
  refine .bind (requireFunction _ _) fun _ => ?_
  refine .bind (.ofExcept (Token.tokenAt_stripped _ _)) fun next => ?_
  dsimp only [Token.kind_stripped]
  have finish (operator : Token) (h : operator.stripped = operator) :
      Shadows (Option.map Action.stripped)
        (ofExcept (Token.expectEnd tokens 3) >>= fun whole =>
          if whole then Step.assignStatement identifier operator one else Pure.pure none)
        (ofExcept (Token.expectEnd (tokens.map Token.stripped) 3) >>= fun whole =>
          if whole then Step.assignStatement identifier.stripped operator one
          else Pure.pure none) := by
    refine .bind (.ofExcept (Token.expectEnd_stripped _ _)) fun _ => .ite ?_ (.pure _)
    have ha := assignStatement identifier operator one
    rwa [h] at ha
  split
  · refine fork (.pure _) (.bind (expression _ _) fun value => ?_)
    cases value with
    | call => exact .pure _
    | _ => exact fail _ _
  · exact finish _ rfl
  · exact finish _ rfl
  · refine fork (.pure _) (.bind (.ofExcept (Token.valueFrom_stripped _ _)) fun value => ?_)
    exact .bind (expression _ _) fun _ => assignStatement _ _ _
  · exact fail _ _

theorem ifStatement (tokens modifiers : List Token) :
    Shadows (Option.map (Prod.map Token.stripped Expr.stripped)) (ifStatement tokens modifiers)
      (ifStatement (tokens.map Token.stripped) (modifiers.map Token.stripped)) := by
  rw [Step.ifStatement, Step.ifStatement, Token.inner_stripped]
  refine .bind (rejectModifiers _) fun _ => ?_
  refine .bind (.ofExcept (Token.tokenAt_stripped _ _)) fun keyword => ?_
  refine .bind (requireFunction _ _) fun _ => .bind (changeScopes _) fun _ => fork (.pure _) ?_
  exact .bind (condition _ _) fun _ => .pure _

theorem whileStatement (tokens modifiers : List Token) : Shadows (Option.map Stmt.stripped)
    (whileStatement tokens modifiers)
    (whileStatement (tokens.map Token.stripped) (modifiers.map Token.stripped)) := by
  rw [Step.whileStatement, Step.whileStatement, Token.inner_stripped]
  refine .bind (rejectModifiers _) fun _ => ?_
  refine .bind (.ofExcept (Token.tokenAt_stripped _ _)) fun keyword => ?_
  refine .bind (requireFunction _ _) fun _ => .bind (changeScopes _) fun _ => fork (.pure _) ?_
  exact .bind (condition _ _) fun _ => .pure _

theorem returnStatement (tokens modifiers : List Token) : Shadows (Option.map Stmt.stripped)
    (returnStatement tokens modifiers)
    (returnStatement (tokens.map Token.stripped) (modifiers.map Token.stripped)) := by
  simp only [Step.returnStatement, fail_bind, Token.inner_stripped, List.isEmpty_map]
  refine .bind (rejectModifiers _) fun _ => ?_
  refine .bind (.ofExcept (Token.tokenAt_stripped _ _)) fun keyword => ?_
  refine .bind (requireFunction _ _) fun _ => fork (.pure _) (.get_bind fun s => ?_)
  dsimp only [Session.scopes_stripped]
  split
  · refine .ite (.ite (fail _ _) (.pure _)) (.ite (fail _ _) ?_)
    refine .bind (expression _ _) fun value => ?_
    rw [Expr.type_stripped]
    exact .ite (fail _ _) (.pure _)
  · exact .ite (.pure _) (.bind (expression _ _) fun _ => .pure _)

theorem finishStatement (tokens modifiers : List Token) : Shadows (Option.map Stmt.stripped)
    (finishStatement tokens modifiers)
    (finishStatement (tokens.map Token.stripped) (modifiers.map Token.stripped)) := by
  rw [Step.finishStatement, Step.finishStatement]
  refine .bind (rejectModifiers _) fun _ => ?_
  refine .bind (.ofExcept (Token.tokenAt_stripped _ _)) fun keyword => ?_
  refine .bind (.ofExcept (Token.expectEnd_stripped _ _)) fun _ => .ite (.pure _) ?_
  exact .bind (.modify fun _ => rfl) fun _ => fork (.pure _) (.pure _)

/-! ## Loops -/

theorem headParts_stripped (depth : Nat) (tokens : List Token) :
    headParts depth (tokens.map Token.stripped) =
      (headParts depth tokens).map (List.map Token.stripped) := by
  induction tokens generalizing depth with
  | nil => rfl
  | cons token rest ih =>
    rw [List.map_cons, headParts, headParts, Token.kind_stripped]
    by_cases hs : token.kind = .comma ∧ depth = 0
    · rw [if_pos hs, if_pos hs, ih, List.map_cons, List.map_nil]
    · rw [if_neg hs, if_neg hs]
      dsimp only
      rw [ih]
      cases headParts _ rest <;> rfl

theorem terminated_stripped (tokens : List Token) :
    terminated (tokens.map Token.stripped) = (terminated tokens).map Token.stripped := by
  rw [terminated, terminated, List.map_append]
  rfl

theorem expectStart (tokens : List Token) (keyword : Token) (accepts : Kind → Bool)
    (expected : String) : Shadows (fun _ => ()) (expectStart tokens keyword accepts expected)
      (expectStart (tokens.map Token.stripped) keyword.stripped accepts expected) := by
  cases tokens with
  | nil => exact fail _ _
  | cons first rest => exact .ite (.pure _) (fail _ _)

theorem loopStatement (keyword : Token) (init test step : List Token) :
    Shadows (Option.map Stmt.stripped) (loopStatement keyword init test step)
      (loopStatement keyword.stripped (init.map Token.stripped) (test.map Token.stripped)
        (step.map Token.stripped)) := by
  simp only [Step.loopStatement, fail_bind, Token.leadingModifiers_stripped,
    Token.afterModifiers_stripped, terminated_stripped, List.isEmpty_map]
  refine .bind (expectStart _ _ _ _) fun _ => .bind (expectStart _ _ _ _) fun _ => fork ?_ ?_
  · refine .bind (reporting (variableStatement _ _)) fun _ => .ite (fail _ _) ?_
    exact .bind (changeScopes _) fun _ => .pure _
  · refine .bind (variableStatement _ _) fun declared => ?_
    obtain _ | ⟨header, _ | value⟩ := declared
    · exact .pure _
    · exact fail _ _
    · refine .bind (condition _ _) fun _ => .bind (actionStatement _ []) fun action => ?_
      cases action with
      | none => exact .pure _
      | some action => exact .bind (changeScopes _) fun _ => .pure _

theorem forStatement (tokens modifiers : List Token) : Shadows (Option.map Stmt.stripped)
    (forStatement tokens modifiers)
    (forStatement (tokens.map Token.stripped) (modifiers.map Token.stripped)) := by
  rw [Step.forStatement, Step.forStatement, Token.inner_stripped, headParts_stripped]
  refine .bind (rejectModifiers _) fun _ => ?_
  refine .bind (.ofExcept (Token.tokenAt_stripped _ _)) fun keyword => ?_
  refine .bind (requireFunction _ _) fun _ => .bind (changeScopes _) fun _ => ?_
  obtain _ | ⟨init, _ | ⟨second, _ | ⟨third, _ | ⟨fourth, rest⟩⟩⟩⟩ :=
    headParts 0 (Token.inner tokens)
  · exact fail _ _
  · exact fail _ _
  · obtain _ | ⟨counter, _ | ⟨arrow, limit⟩⟩ := second
    · exact fail _ _
    · exact fail _ _
    · refine .ite_of_iff (by simp) ?_ (fail _ _)
      have hl := loopStatement keyword init (counter :: .synthetic (.binary .less) "<" ::
        .synthetic .openParen "(" :: limit ++ [.synthetic .closeParen ")"])
        [counter, .synthetic .plusPlus "++"]
      rw [List.map_append] at hl
      exact hl
  · exact loopStatement _ _ _ _
  · exact fail _ _

/-! ## Any statement -/

theorem declared_stripped (declaration : VariableHeader × Option Expr) :
    declared (Prod.map VariableHeader.stripped (Option.map Expr.stripped) declaration) =
      (declared declaration).stripped := by
  obtain ⟨header, _ | value⟩ := declaration <;> rfl

/-- No statement looks at a place. -/
theorem statement (tokens : List Token) : Shadows (Option.map Stmt.stripped) (statement tokens)
    (statement (tokens.map Token.stripped)) := by
  simp only [Step.statement, fail_bind, Token.leadingModifiers_stripped,
    Token.afterModifiers_stripped, List.isEmpty_map]
  generalize Token.leadingModifiers tokens = modifiers
  generalize Token.afterModifiers tokens = rest
  cases rest with
  | nil => exact .pure _
  | cons first more =>
    rw [List.map_cons]
    dsimp only [Token.kind_stripped]
    split
    · exact moduleStatement (_ :: _) _
    · exact functionStatement (_ :: _) _
    · exact nativeStatement (_ :: _) _
    · exact .map (ifStatement (_ :: _) _) fun head => by cases head <;> rfl
    · exact whileStatement (_ :: _) _
    · exact forStatement (_ :: _) _
    · exact returnStatement (_ :: _) _
    · exact finishStatement (_ :: _) _
    · exact .map (actionStatement (_ :: _) _) fun action => by cases action <;> rfl
    · exact .map (variableStatement (_ :: _) _) fun declaration => by
        cases declaration <;> simp [declared_stripped]
    · exact .map (variableStatement (_ :: _) _) fun declaration => by
        cases declaration <;> simp [declared_stripped]
    · rw [List.isEmpty_map]
      exact .ite (fail _ _) (.ite (fail _ _) (.pure _))
    · exact fail _ _

end Shadows

end Step

end MuLang
