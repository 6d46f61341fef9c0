import MuLang.Proofs.Dispatch
import MuLang.Proofs.Raises

/-!
# Statements fail with ordinary errors

A statement ends in a `;` or an opening brace, and no other of its tokens is one. Hence the tokens
that a statement takes for granted are there, and whatever is wrong with it is an error of the
program.
-/
namespace MuLang

/-! ## Tokens of a statement -/

namespace Kind

/-- The kinds of token that end a statement. -/
def isStop (kind : Kind) : Bool := kind = .semicolon || kind = .openCurly

end Kind

namespace Token

/-- The last token ends a statement. -/
def Stopped (tokens : List Token) : Prop := ∃ stop ∈ tokens.getLast?, stop.kind.isStop

variable {tokens rest : List Token} {first next stop : Token} {index : Nat} {error : Error}

theorem stopped_append (body : List Token) (h : stop.kind.isStop) : Stopped (body ++ [stop]) :=
  ⟨stop, by simp, h⟩

theorem Stopped.ne_nil (h : Stopped tokens) : tokens ≠ [] := by
  obtain ⟨stop, hl, -⟩ := h
  rintro rfl
  cases hl

/-- What follows the modifiers of a statement ends as the statement does. -/
theorem Stopped.afterModifiers (h : Stopped tokens) (hn : afterModifiers tokens = first :: rest) :
    Stopped (first :: rest) := by
  obtain ⟨stop, hl, hk⟩ := h
  refine ⟨stop, ?_, hk⟩
  have hs : (first :: rest) <:+ tokens := hn ▸ List.dropWhile_suffix _
  obtain ⟨before, rfl⟩ := hs
  simpa [List.getLast?_append] using hl

/-- A token that does not end its statement is followed by another one. -/
theorem Stopped.lt_length (h : Stopped tokens) (hi : tokens[index]? = some next)
    (hk : next.kind.isStop = false) : index + 1 < tokens.length := by
  obtain ⟨stop, hl, hs⟩ := h
  have hb := (List.getElem?_eq_some_iff.1 hi).1
  have hne : index ≠ tokens.length - 1 := by
    rintro rfl
    rw [List.getLast?_eq_getElem?, hi] at hl
    cases hl
    rw [hk] at hs
    cases hs
  omega

theorem Stopped.second (h : Stopped (first :: rest)) (hk : first.kind.isStop = false) :
    1 < (first :: rest).length := by
  have hi : (first :: rest)[0]? = some first := rfl
  exact h.lt_length hi hk

theorem tokenAt_of_lt (h : index < tokens.length) : ∃ token, tokenAt tokens index = .ok token := by
  refine ⟨tokens[index], ?_⟩
  rw [tokenAt, List.getElem?_eq_getElem h]

theorem getElem?_of_tokenAt (h : tokenAt tokens index = .ok next) : tokens[index]? = some next := by
  unfold tokenAt at h
  split at h <;> cases h
  assumption

theorem getElem?_of_expectAt {accepts : Kind → Bool} {expected : String}
    (h : expectAt tokens index accepts expected = .ok next) :
    tokens[index]? = some next ∧ accepts next.kind := by
  unfold expectAt at h
  split at h
  · simp only [Except.ite_eq_ok, Except.ok.injEq] at h
    obtain ⟨ha, rfl⟩ | ⟨-, h⟩ := h
    · exact ⟨by assumption, ha⟩
    · cases h
  · cases h

theorem getElem?_of_expectName {what : String} (h : expectName tokens index what = .ok next) :
    tokens[index]? = some next := by
  unfold expectName at h
  split at h
  · cases h
  next he =>
    split at h <;> cases h
    exact (getElem?_of_expectAt he).1

theorem not_error_of_lt (h : index < tokens.length) : tokenAt tokens index ≠ .error error := by
  obtain ⟨token, ht⟩ := tokenAt_of_lt h
  rw [ht]
  exact fun hc => by cases hc

/-- The first token of a statement that has one is there. -/
theorem not_error_of_first {first : Token} {rest : List Token} :
    tokenAt (first :: rest) 0 ≠ .error error :=
  not_error_of_lt (Nat.succ_pos _)

theorem plain_of_expectAt {accepts : Kind → Bool} {expected : String}
    (hb : (Cause.expectedToken expected "").isMissingBrace = false)
    (h : expectAt tokens index accepts expected = .error error) : error.Plain := by
  unfold expectAt at h
  split at h
  · split at h <;> cases h
    exact ⟨⟨Bool.false_ne_true, rfl, hb⟩, rfl⟩
  · cases h
    exact ⟨⟨Bool.false_ne_true, rfl, hb⟩, rfl⟩

theorem plain_of_expectName {what : String}
    (hb : (Cause.expectedToken what "").isMissingBrace = false)
    (h : expectName tokens index what = .error error) : error.Plain := by
  unfold expectName at h
  split at h
  next he =>
    cases h
    exact plain_of_expectAt hb he
  next =>
    split at h <;> cases h
    exact ⟨⟨Bool.false_ne_true, rfl, hb⟩, rfl⟩

theorem plain_of_expectEnd {length : Nat} (h : expectEnd tokens length = .error error) :
    error.Plain := by
  unfold expectEnd at h
  split at h
  · cases h
  · split at h <;> cases h
    exact ⟨⟨Bool.false_ne_true, rfl, rfl⟩, rfl⟩

end Token

/-! ## Signatures and forms -/

open Error (Ordinary Plain)

variable {tokens : List Token} {error : Error}

theorem Parameter.ordinary_of_ofTokens {last : Token} {segment : List Token}
    (h : Parameter.ofTokens last segment = .error error) : error.Ordinary := by
  unfold ofTokens at h
  dsimp only at h
  split at h
  · cases h
    exact ⟨Bool.false_ne_true, rfl, rfl⟩
  · split at h
    · split at h
      · cases h
        exact ⟨Bool.false_ne_true, rfl, rfl⟩
      · split at h <;> cases h
        exact ⟨Bool.false_ne_true, rfl, rfl⟩
    · cases h
      exact ⟨Bool.false_ne_true, rfl, rfl⟩

theorem Parameter.ordinary_of_listOfTokens (h : Parameter.listOfTokens tokens = .error error) :
    error.Ordinary := by
  unfold listOfTokens at h
  split at h
  · cases h
  next last _ =>
    obtain ⟨segment, -, hs⟩ := Except.exists_of_mapM_eq_error h
    exact ordinary_of_ofTokens hs

namespace Signature

theorem plain_of_parenthesized {start : Nat} (h : parenthesized tokens start = .error error) :
    error.Plain := by
  simp only [parenthesized, Except.bind_eq_error, Except.ite_eq_error, Except.throw_eq_error,
    Except.throw_ne_ok, exists_false, or_false, Except.pure_ne_error, and_false] at h
  obtain h | ⟨paren, hp, h | ⟨last, -, -, rfl⟩⟩ := h
  · exact Token.plain_of_expectAt rfl h
  · -- The parenthesis that opens is there, so there is a last token.
    have := (List.getElem?_eq_some_iff.1 (Token.getElem?_of_expectAt hp).1).1
    exact absurd h (Token.not_error_of_lt (by omega))
  · exact ⟨⟨Bool.false_ne_true, rfl, rfl⟩, rfl⟩

theorem ordinary_of_ofTokens {allowBare : Bool} (h : ofTokens tokens allowBare = .error error) :
    error.Ordinary := by
  simp only [ofTokens, Except.bind_eq_error, Except.ite_eq_error, Except.pure_ne_error, and_false,
    exists_false, or_false, false_or] at h
  obtain h | ⟨_, -, h | ⟨_, -, -, h | ⟨mark, -, h⟩⟩⟩ := h
  · exact (Token.plain_of_expectAt rfl h).toOrdinary
  · exact (Token.plain_of_expectName rfl h).toOrdinary
  · exact (Token.plain_of_expectAt rfl h).toOrdinary
  · obtain ⟨-, h | ⟨_, -, h⟩⟩ | ⟨-, h | ⟨_, -, h | ⟨_, -, h⟩⟩⟩ := h
    · exact (plain_of_parenthesized h).toOrdinary
    · exact Parameter.ordinary_of_listOfTokens h
    · exact (Token.plain_of_expectAt rfl h).toOrdinary
    · exact (plain_of_parenthesized h).toOrdinary
    · exact Parameter.ordinary_of_listOfTokens h

end Signature

theorem FunctionHeader.plain_of_definition {header : FunctionHeader} {body : FunctionBody}
    (h : header.definition body = .error error) : error.Plain := by
  unfold definition at h
  split at h <;> cases h
  exact ⟨⟨Bool.false_ne_true, rfl, rfl⟩, rfl⟩

theorem VariableForm.plain_of_ofTokens (hs : Token.Stopped tokens)
    (h : VariableForm.ofTokens tokens = .error error) : error.Plain := by
  simp only [ofTokens, Except.bind_eq_error, Except.ite_eq_error, Except.throw_eq_error,
    Except.throw_ne_ok, false_and, exists_false, or_false, false_or, Except.pure_ne_error, and_false,
    Except.map_eq_error] at h
  obtain h | ⟨first, -, ⟨-, rfl⟩ | ⟨-, h | ⟨identifier, -, h | ⟨mark, hm, h⟩⟩⟩⟩ := h
  · exact absurd h (Token.not_error_of_lt (List.length_pos_iff.2 hs.ne_nil))
  · exact ⟨⟨Bool.false_ne_true, rfl, rfl⟩, rfl⟩
  · exact Token.plain_of_expectName rfl h
  · exact Token.plain_of_expectAt rfl h
  · obtain ⟨hp, h | ⟨value, -, -, rfl⟩⟩ | ⟨-, value, -, -, rfl⟩ := h
    · -- The mark is no `;`, so something follows it.
      have hl := hs.lt_length (Token.getElem?_of_expectAt hm).1 (by rw [hp]; rfl)
      rw [Token.valueFrom, if_pos hl] at h
      cases h
    · exact ⟨⟨Bool.false_ne_true, rfl, rfl⟩, rfl⟩
    · exact ⟨⟨Bool.false_ne_true, rfl, rfl⟩, rfl⟩

theorem Conflict.plain_toError (conflict : Conflict) (position : Position) :
    (conflict.toError position).Plain := by
  cases conflict <;> exact ⟨⟨Bool.false_ne_true, rfl, rfl⟩, rfl⟩

/-! ## Steps -/

theorem Fallible.Raises.isSkimming_bind {α : Type} {allowed : Error → Prop} {next : Bool → Step α}
    (h : ∀ b, Raises (fun session : Session => session.log.errors) allowed (next b)) :
    Raises (fun session : Session => session.log.errors) allowed (Step.isSkimming >>= next) := by
  change Raises _ allowed (get >>= fun s : Session => next s.isSkimming)
  exact .get_bind fun _ => h _

namespace Step

variable {α β : Type} {allowed : Error → Prop} {cause : Cause} {token : Token}

/-- All errors that a step fails with or reports are of a certain sort. -/
abbrev Raises (allowed : Error → Prop) (step : Step α) : Prop :=
  Fallible.Raises (fun session : Session => session.log.errors) allowed step

theorem Raises.ordinary {step : Step α} (h : Raises Plain step) : Raises Ordinary step :=
  h.mono fun _ he => he.toOrdinary

theorem raises_fail (h : allowed (.atToken cause token)) :
    Raises allowed (fail cause token : Step α) := .throw h

theorem raises_check {body : Env → Check α} (h : ∀ env, Check.Raises allowed (body env)) :
    Raises allowed (check body) := by
  refine .of_keeps (fun _ => rfl) fun s error t hs => ?_
  cases hb : body s.env s.scopes with
  | mk result scopes =>
    rw [check, hb] at hs
    cases hs
    exact (h s.env).failed s.scopes error scopes hb

theorem raises_expression (tokens : List Token) (context : Token) :
    Raises Plain (expression tokens context) :=
  raises_check fun env => env.raises_expression tokens context

theorem raises_changeScopes (change : ScopeStack → ScopeStack) :
    Raises allowed (changeScopes change) := .modify fun _ => rfl

theorem raises_rejectModifiers (modifiers : List Token) :
    Raises Plain (rejectModifiers modifiers) := by
  unfold rejectModifiers
  split
  · exact raises_fail ⟨⟨Bool.false_ne_true, rfl, rfl⟩, rfl⟩
  · exact .pure _

theorem raises_rejectInvalidModifiers (modifiers : List Token) (target : String)
    (invalid : Modifier → Bool) :
    Raises Ordinary (rejectInvalidModifiers modifiers target invalid) := by
  unfold rejectInvalidModifiers
  split
  · exact raises_fail ⟨Bool.false_ne_true, rfl, rfl⟩
  · exact .pure _

theorem raises_requireFunction (token : Token) (what : String) :
    Raises Ordinary (requireFunction token what) :=
  .get_bind fun _ => .ite (fun _ => raises_fail ⟨Bool.false_ne_true, rfl, rfl⟩) fun _ => .pure _

theorem raises_checkFunctionPlacement (keyword : Token) (modifiers : List Token) :
    Raises Ordinary (checkFunctionPlacement keyword modifiers) := by
  unfold checkFunctionPlacement
  refine .get_bind fun s => .ite (fun _ => ?_) fun _ => raises_rejectInvalidModifiers _ _ _
  rw [fail_bind]
  exact raises_fail ⟨Bool.false_ne_true, rfl, rfl⟩

theorem raises_registerFunction (definition : FunctionDefinition) :
    Raises allowed (registerFunction definition) := by
  refine .modify fun s => ?_
  split <;> rfl

theorem raises_registerGlobal (module : ModulePath) (identifier : Token) (modifiers : List Token)
    (type : Datatype) : Raises allowed (registerGlobal module identifier modifiers type) := by
  refine .modify fun s => ?_
  dsimp only
  split <;> rfl

/-! ### Declarations -/

variable {first : Token} {rest modifiers : List Token}

theorem raises_moduleStatement (first : Token) (rest modifiers : List Token) :
    Raises Ordinary (moduleStatement (first :: rest) modifiers) := by
  simp only [moduleStatement, fail_bind, Fallible.throw_bind]
  refine .bind (raises_rejectModifiers _).ordinary fun _ _ _ _ => ?_
  refine .ofExcept_bind (fun _ h => (Token.plain_of_expectName rfl h).toOrdinary) fun _ _ => ?_
  refine .ofExcept_bind (fun _ h => (Token.plain_of_expectAt rfl h).toOrdinary) fun _ _ => ?_
  refine .ofExcept_bind (fun _ h => (Token.plain_of_expectEnd h).toOrdinary) fun _ _ => ?_
  refine .ofExcept_bind (fun _ h => absurd h Token.not_error_of_first) fun _ _ => .get_bind fun s => .ite (fun _ => ?_)
    fun _ => .get_bind fun s => .ite (fun _ => .get_bind fun s => ?_) fun _ => ?_
  · exact raises_fail ⟨Bool.false_ne_true, rfl, rfl⟩
  · split
    · refine .bind (.modify fun _ => rfl) fun _ _ _ _ => ?_
      exact .bind (raises_changeScopes _) fun _ _ _ _ => .isSkimming_bind fun _ =>
        .ite (fun _ => .pure _) fun _ => .pure _
    · exact .throw (Conflict.plain_toError _ _).toOrdinary
  · exact .bind (raises_changeScopes _) fun _ _ _ _ => .isSkimming_bind fun _ =>
      .ite (fun _ => .pure _) fun _ => .pure _

theorem raises_declareParameters (header : FunctionHeader) (parameters : List FunctionParameter) :
    Raises Plain (declareParameters header parameters) := by
  induction parameters with
  | nil => exact .pure _
  | cons parameter rest ih =>
    unfold declareParameters
    refine .get_bind fun s => ?_
    dsimp only
    split
    · exact .bind (raises_changeScopes _) fun _ _ _ _ => ih
    · exact .throw (Conflict.plain_toError _ _)

theorem raises_functionStatement (first : Token) (rest modifiers : List Token) :
    Raises Ordinary (functionStatement (first :: rest) modifiers) := by
  unfold functionStatement
  refine .ofExcept_bind (fun _ h => absurd h Token.not_error_of_first) fun _ _ => ?_
  refine .bind (raises_checkFunctionPlacement _ _) fun _ _ _ _ => ?_
  refine .ofExcept_bind (fun _ h => Signature.ordinary_of_ofTokens h) fun _ _ => ?_
  refine .ofExcept_bind (fun _ h => (FunctionHeader.plain_of_definition h).toOrdinary) fun _ _ => ?_
  refine .isSkimming_bind fun _ => .ite (fun _ => ?_) fun _ => ?_
  · exact .bind (raises_registerFunction _) fun _ _ _ _ =>
      .bind (raises_changeScopes _) fun _ _ _ _ => .pure _
  · exact .bind (raises_changeScopes _) fun _ _ _ _ =>
      .bind (raises_declareParameters _ _).ordinary fun _ _ _ _ => .pure _

theorem raises_nativeStatement (first : Token) (rest modifiers : List Token) :
    Raises Ordinary (nativeStatement (first :: rest) modifiers) := by
  simp only [nativeStatement, fail_bind]
  refine .ofExcept_bind (fun _ h => absurd h Token.not_error_of_first) fun _ _ => ?_
  refine .bind (raises_checkFunctionPlacement _ _) fun _ _ _ _ => .ite (fun _ => ?_) fun _ => ?_
  · exact .ofExcept_bind (fun _ h => absurd h (Token.not_error_of_lt (by simp))) fun _ _ =>
      raises_fail ⟨Bool.false_ne_true, rfl, rfl⟩
  · refine .ofExcept_bind (fun _ h => (Token.plain_of_expectAt rfl h).toOrdinary) fun _ _ => ?_
    refine .ofExcept_bind (fun _ h => (Token.plain_of_expectAt rfl h).toOrdinary) fun _ _ => ?_
    refine .ofExcept_bind (fun _ h => Signature.ordinary_of_ofTokens h) fun _ _ => ?_
    refine .ofExcept_bind (fun _ h => (FunctionHeader.plain_of_definition h).toOrdinary)
      fun _ _ => ?_
    refine .isSkimming_bind fun _ => .ite (fun _ => ?_) fun _ => .pure _
    exact .bind (raises_registerFunction _) fun _ _ _ _ => .pure _

theorem raises_placeVariable (form : VariableForm) (modifiers : List Token) :
    Raises Ordinary (placeVariable form modifiers) := by
  simp only [placeVariable, fail_bind]
  refine .get_bind fun s => .get_bind fun _ => .ite (fun _ => ?_) fun _ =>
    .ite (fun _ => .ite (fun _ => ?_) fun _ => .pure _) fun _ => ?_
  · exact raises_fail ⟨Bool.false_ne_true, rfl, rfl⟩
  · exact raises_fail ⟨Bool.false_ne_true, rfl, rfl⟩
  · exact .bind (raises_rejectInvalidModifiers _ _ _) fun _ _ _ _ => .pure _

theorem raises_inferGlobal? (global : DeferredGlobal) :
    Raises allowed (inferGlobal? global) := by
  refine .of_keeps (fun s => ?_) fun s error t h => ?_
  · exact congrArg Log.errors ((steady_inferGlobal? global).log_eq s)
  · unfold inferGlobal? at h
    split at h <;> cases h

theorem raises_skimGlobal (typeKeyword identifier : Token) (modifiers : List Token)
    (value : Option (List Token)) :
    Raises allowed (skimGlobal typeKeyword identifier modifiers value) := by
  unfold skimGlobal
  refine .get_bind fun s => ?_
  dsimp only
  split
  · refine .bind (raises_inferGlobal? _) fun s type? _ _ => ?_
    cases type? with
    | none => exact .modify fun _ => rfl
    | some type => exact raises_registerGlobal _ _ _ _
  · split
    · exact raises_registerGlobal _ _ _ _
    · exact .pure _

theorem raises_declareVariable (identifier : Token) (v : Variable) (isGlobal : Bool) :
    Raises Plain (declareVariable identifier v isGlobal) := by
  refine .of_keeps (fun s => ?_) fun s error t h => ?_
  · exact congrArg Log.errors (log_declareVariable identifier v isGlobal s)
  · rw [declareVariable_apply] at h
    split at h
    · split at h
      · split at h <;> cases h
        exact Conflict.plain_toError _ _
      · cases h
    · split at h <;> cases h
      exact Conflict.plain_toError _ _

theorem plain_of_declaredType {typeKeyword : Token} {typed : Option Expr} {error : Error}
    (h : declaredType typeKeyword modifiers typed = .error error) : error.Plain := by
  unfold declaredType at h
  split at h
  · split at h <;> cases h
    exact ⟨⟨Bool.false_ne_true, rfl, rfl⟩, rfl⟩
  · split at h <;> cases h
    exact ⟨⟨Bool.false_ne_true, rfl, rfl⟩, rfl⟩

theorem plain_of_checkInitial {identifier : Token} {type : Datatype} {typed : Option Expr}
    {error : Error} (h : checkInitial identifier type typed = .error error) : error.Plain := by
  unfold checkInitial at h
  split at h
  · cases h
  · split at h <;> cases h
    exact ⟨⟨Bool.false_ne_true, rfl, rfl⟩, rfl⟩

theorem raises_declareTyped (form : VariableForm) (modifiers : List Token) (isGlobal : Bool)
    (typed : Option Expr) : Raises Plain (declareTyped form modifiers isGlobal typed) := by
  unfold declareTyped
  refine .ofExcept_bind (fun _ h => plain_of_declaredType h) fun _ _ => ?_
  refine .ofExcept_bind (fun _ h => plain_of_checkInitial h) fun _ _ => ?_
  refine .bind (raises_declareVariable _ _ _) fun _ _ _ _ => ?_
  split <;> exact .pure _

theorem raises_evaluateVariable (form : VariableForm) (modifiers : List Token) (isGlobal : Bool) :
    Raises Plain (evaluateVariable form modifiers isGlobal) := by
  unfold evaluateVariable
  split
  · exact .bind (raises_expression _ _) fun _ _ _ _ => raises_declareTyped _ _ _ _
  · exact raises_declareTyped _ _ _ _

theorem raises_variableStatement {tokens : List Token} (hs : Token.Stopped tokens)
    (modifiers : List Token) : Raises Ordinary (variableStatement tokens modifiers) := by
  unfold variableStatement
  refine .ofExcept_bind (fun _ h => (VariableForm.plain_of_ofTokens hs h).toOrdinary) fun _ _ => ?_
  refine .bind (raises_placeVariable _ _) fun _ _ _ _ => .isSkimming_bind fun _ =>
    .ite (fun _ => .ite (fun _ => ?_) fun _ => .pure _) fun _ =>
      (raises_evaluateVariable _ _ _).ordinary
  exact .bind (raises_skimGlobal _ _ _ _) fun _ _ _ _ => .pure _

/-! ### Statements of function bodies -/

theorem raises_assignStatement (identifier operator : Token) (value : Expr) :
    Raises Plain (assignStatement identifier operator value) := by
  unfold assignStatement
  refine .isSkimming_bind fun _ => .ite (fun _ => .pure _) fun _ => ?_
  exact .bind (raises_check fun env => env.raises_store _ _ _) fun _ _ _ _ => .pure _

theorem raises_actionStatement (hs : Token.Stopped (first :: rest))
    (hk : first.kind.isStop = false) (modifiers : List Token) :
    Raises Ordinary (actionStatement (first :: rest) modifiers) := by
  have hl := hs.second hk
  unfold actionStatement
  refine .bind (raises_rejectModifiers _).ordinary fun _ _ _ _ => ?_
  refine .ofExcept_bind (fun _ h => absurd h Token.not_error_of_first) fun identifier _ => ?_
  refine .bind (raises_requireFunction _ _) fun _ _ _ _ => ?_
  refine .ofExcept_bind (fun _ h => absurd h (Token.not_error_of_lt hl)) fun next hn => ?_
  split
  · refine .isSkimming_bind fun _ => .ite (fun _ => .pure _) fun _ => ?_
    refine .bind (raises_expression _ _).ordinary fun value _ _ _ => ?_
    split
    · exact .pure _
    · exact raises_fail ⟨Bool.false_ne_true, rfl, rfl⟩
  · exact .ofExcept_bind (fun _ h => (Token.plain_of_expectEnd h).toOrdinary) fun _ _ =>
      .ite (fun _ => (raises_assignStatement _ _ _).ordinary) fun _ => .pure _
  · exact .ofExcept_bind (fun _ h => (Token.plain_of_expectEnd h).toOrdinary) fun _ _ =>
      .ite (fun _ => (raises_assignStatement _ _ _).ordinary) fun _ => .pure _
  next op ho =>
    refine .isSkimming_bind fun _ => .ite (fun _ => .pure _) fun _ => ?_
    refine .ofExcept_bind (fun _ h => ?_) fun _ _ => .bind (raises_expression _ _).ordinary
      fun _ _ _ _ => (raises_assignStatement _ _ _).ordinary
    have ho : next.kind = .assign op := ho
    have hl := hs.lt_length (Token.getElem?_of_tokenAt hn) (by rw [ho]; rfl)
    rw [Token.valueFrom, if_pos hl] at h
    cases h
  · exact raises_fail ⟨Bool.false_ne_true, rfl, rfl⟩

theorem raises_condition (tokens : List Token) (keyword : Token) :
    Raises Plain (condition tokens keyword) := by
  simp only [condition, fail_bind]
  exact .bind (raises_expression _ _) fun _ _ _ _ =>
    .ite (fun _ => raises_fail ⟨⟨Bool.false_ne_true, rfl, rfl⟩, rfl⟩) fun _ => .pure _

theorem raises_ifStatement (first : Token) (rest modifiers : List Token) :
    Raises Ordinary (ifStatement (first :: rest) modifiers) := by
  unfold ifStatement
  refine .bind (raises_rejectModifiers _).ordinary fun _ _ _ _ => ?_
  refine .ofExcept_bind (fun _ h => absurd h Token.not_error_of_first) fun _ _ => ?_
  refine .bind (raises_requireFunction _ _) fun _ _ _ _ => ?_
  refine .bind (raises_changeScopes _) fun _ _ _ _ => .isSkimming_bind fun _ =>
    .ite (fun _ => .pure _) fun _ => ?_
  exact .bind (raises_condition _ _).ordinary fun _ _ _ _ => .pure _

theorem raises_whileStatement (first : Token) (rest modifiers : List Token) :
    Raises Ordinary (whileStatement (first :: rest) modifiers) := by
  unfold whileStatement
  refine .bind (raises_rejectModifiers _).ordinary fun _ _ _ _ => ?_
  refine .ofExcept_bind (fun _ h => absurd h Token.not_error_of_first) fun _ _ => ?_
  refine .bind (raises_requireFunction _ _) fun _ _ _ _ => ?_
  refine .bind (raises_changeScopes _) fun _ _ _ _ => .isSkimming_bind fun _ =>
    .ite (fun _ => .pure _) fun _ => ?_
  exact .bind (raises_condition _ _).ordinary fun _ _ _ _ => .pure _

theorem raises_expectStart (tokens : List Token) (keyword : Token) (accepts : Kind → Bool)
    {expected : String} (hb : (Cause.expectedToken expected "").isMissingBrace = false) :
    Raises Plain (expectStart tokens keyword accepts expected) := by
  unfold expectStart
  split
  · exact .ite (fun _ => .pure _) fun _ => raises_fail ⟨⟨Bool.false_ne_true, rfl, hb⟩, rfl⟩
  · exact raises_fail ⟨⟨Bool.false_ne_true, rfl, hb⟩, rfl⟩

/-- What a step reports instead of failing is of the same sort. -/
theorem raises_reporting {step : Step (Option α)} (h : Raises allowed step) :
    Raises allowed (reporting step) := by
  refine ⟨fun s error t hs => ?_, fun s => ?_⟩
  · unfold reporting at hs
    split at hs <;> cases hs
  · obtain ⟨more, hm, ha⟩ := h.added s
    unfold reporting
    rcases hs : step s with ⟨error | result, t⟩
    · rw [hs] at hm
      dsimp only [Session.report, Log.report] at hm ⊢
      split
      · exact ⟨more, hm, ha⟩
      · refine ⟨more ++ [error], by simp [hm], List.forall_mem_append.2 ⟨ha, ?_⟩⟩
        simpa using h.failed s error t hs
    · rw [hs] at hm
      exact ⟨more, hm, ha⟩

theorem stopped_terminated (tokens : List Token) : Token.Stopped (terminated tokens) :=
  Token.stopped_append tokens rfl

theorem raises_loopStatement (keyword : Token) (init test step : List Token) :
    Raises Ordinary (loopStatement keyword init test step) := by
  simp only [loopStatement, fail_bind]
  have hd := raises_variableStatement (stopped_terminated (Token.afterModifiers init))
    (Token.leadingModifiers init)
  refine .bind (raises_expectStart _ _ _ rfl).ordinary fun _ _ _ _ => ?_
  refine .bind (raises_expectStart _ _ _ rfl).ordinary fun s _ _ hstep => ?_
  -- The step starts with a name, which is no end of a statement.
  have hs : Raises Ordinary (actionStatement (terminated step) []) := by
    cases step with
    | nil => exact absurd hstep (by simp [expectStart])
    | cons first rest =>
      refine raises_actionStatement (stopped_terminated (first :: rest)) ?_ []
      simp [expectStart] at hstep
      rw [hstep.1]
      rfl
  refine .isSkimming_bind fun _ => .ite (fun _ => ?_) fun _ => ?_
  · refine .bind (raises_reporting hd) fun _ _ _ _ => .ite (fun _ => ?_) fun _ => ?_
    · exact raises_fail ⟨Bool.false_ne_true, rfl, rfl⟩
    · exact .bind (raises_changeScopes _) fun _ _ _ _ => .pure _
  · refine .bind hd fun _ declared _ _ => ?_
    split
    · exact .pure _
    · exact raises_fail ⟨Bool.false_ne_true, rfl, rfl⟩
    · refine .bind (raises_condition _ _).ordinary fun _ _ _ _ => .bind hs fun _ _ _ _ => ?_
      split
      · exact .pure _
      · exact .bind (raises_changeScopes _) fun _ _ _ _ => .pure _

theorem raises_forStatement (first : Token) (rest modifiers : List Token) :
    Raises Ordinary (forStatement (first :: rest) modifiers) := by
  unfold forStatement
  refine .bind (raises_rejectModifiers _).ordinary fun _ _ _ _ => ?_
  refine .ofExcept_bind (fun _ h => absurd h Token.not_error_of_first) fun _ _ => ?_
  refine .bind (raises_requireFunction _ _) fun _ _ _ _ => ?_
  refine .bind (raises_changeScopes _) fun _ _ _ _ => ?_
  split
  · exact raises_loopStatement _ _ _ _
  · split
    · exact .ite (fun _ => raises_loopStatement _ _ _ _) fun _ =>
        raises_fail ⟨Bool.false_ne_true, rfl, rfl⟩
    · exact raises_fail ⟨Bool.false_ne_true, rfl, rfl⟩
  · exact raises_fail ⟨Bool.false_ne_true, rfl, rfl⟩

theorem raises_returnStatement (first : Token) (rest modifiers : List Token) :
    Raises Ordinary (returnStatement (first :: rest) modifiers) := by
  simp only [returnStatement, fail_bind]
  have he := raises_expression (Token.inner (first :: rest))
  refine .bind (raises_rejectModifiers _).ordinary fun _ _ _ _ => ?_
  refine .ofExcept_bind (fun _ h => absurd h Token.not_error_of_first) fun keyword _ => ?_
  refine .bind (raises_requireFunction _ _) fun _ _ _ _ => ?_
  refine .isSkimming_bind fun _ => .ite (fun _ => .pure _) fun _ => .get_bind fun s => ?_
  split
  · refine .ite (fun _ => .ite (fun _ => ?_) fun _ => .pure _) fun _ => .ite (fun _ => ?_) fun _ => ?_
    · exact raises_fail ⟨Bool.false_ne_true, rfl, rfl⟩
    · exact raises_fail ⟨Bool.false_ne_true, rfl, rfl⟩
    · refine .bind (he keyword).ordinary fun _ _ _ _ => .ite (fun _ => ?_) fun _ => .pure _
      exact raises_fail ⟨Bool.false_ne_true, rfl, rfl⟩
  · exact .ite (fun _ => .pure _) fun _ => .bind (he keyword).ordinary fun _ _ _ _ => .pure _

theorem raises_finishStatement (first : Token) (rest modifiers : List Token) :
    Raises Ordinary (finishStatement (first :: rest) modifiers) := by
  unfold finishStatement
  refine .bind (raises_rejectModifiers _).ordinary fun _ _ _ _ => ?_
  refine .ofExcept_bind (fun _ h => absurd h Token.not_error_of_first) fun _ _ => ?_
  refine .ofExcept_bind (fun _ h => (Token.plain_of_expectEnd h).toOrdinary) fun _ _ => ?_
  refine .ite (fun _ => .pure _) fun _ => .bind (.modify fun _ => rfl) fun _ _ _ _ => ?_
  exact .isSkimming_bind fun _ => .ite (fun _ => .pure _) fun _ => .pure _

/-! ### Any statement -/

theorem raises_statement {tokens : List Token} (hs : Token.Stopped tokens) :
    Raises Ordinary (statement tokens) := by
  simp only [statement, fail_bind]
  cases hr : Token.afterModifiers tokens with
  | nil => exact .pure _
  | cons first rest =>
    have hs := hs.afterModifiers hr
    dsimp only
    split
    · exact raises_moduleStatement _ _ _
    · exact raises_functionStatement _ _ _
    · exact raises_nativeStatement _ _ _
    · exact .bind (raises_ifStatement _ _ _) fun _ _ _ _ => .pure _
    · exact raises_whileStatement _ _ _
    · exact raises_forStatement _ _ _
    · exact raises_returnStatement _ _ _
    · exact raises_finishStatement _ _ _
    next hk => exact .bind (raises_actionStatement hs (by rw [hk]; rfl) _) fun _ _ _ _ => .pure _
    · exact .bind (raises_variableStatement hs _) fun _ _ _ _ => .pure _
    · exact .bind (raises_variableStatement hs _) fun _ _ _ _ => .pure _
    · refine .ite (fun _ => ?_) fun _ => .ite (fun _ => ?_) fun _ => .pure _
      · exact raises_fail ⟨Bool.false_ne_true, rfl, rfl⟩
      · exact raises_fail ⟨Bool.false_ne_true, rfl, rfl⟩
    · exact raises_fail ⟨Bool.false_ne_true, rfl, rfl⟩

/-- Whatever is wrong with a statement without a block is an ordinary error. -/
theorem raises_closed {tokens : List Token} (hs : Token.Stopped tokens) :
    Raises Ordinary (closed tokens) := by
  have hl := List.length_pos_iff.2 hs.ne_nil
  unfold closed
  split
  · exact .ofExcept_bind (fun _ h => absurd h (Token.not_error_of_lt (by omega))) fun _ _ =>
      raises_fail ⟨Bool.false_ne_true, rfl, rfl⟩
  · exact raises_statement hs

theorem raises_elseOwner {first : Token} {rest : List Token} (hs : Token.Stopped (first :: rest))
    (hk : first.kind.isStop = false) (chain : Chain) (modifiers : List Token) :
    Raises Ordinary (elseOwner chain (first :: rest) modifiers) := by
  have hl := hs.second hk
  simp only [elseOwner, fail_bind]
  refine .bind (raises_rejectModifiers _).ordinary fun _ _ _ _ => ?_
  refine .ofExcept_bind (fun _ h => absurd h Token.not_error_of_first) fun _ _ => .ite (fun _ => ?_) fun _ => ?_
  · exact raises_fail ⟨Bool.false_ne_true, rfl, rfl⟩
  · refine .ofExcept_bind (fun _ h => absurd h (Token.not_error_of_lt hl)) fun _ _ => ?_
    refine .ite (fun _ => .pure _) fun _ => .ite (fun _ => ?_) fun _ => ?_
    · cases rest with
      | nil => exact absurd hl (by simp)
      | cons next rest => exact .bind (raises_ifStatement _ _ _) fun _ _ _ _ => .pure _
    · exact raises_fail ⟨Bool.false_ne_true, rfl, rfl⟩

/-- Whatever is wrong with the head of a block is an ordinary error. -/
theorem raises_owner {tokens : List Token} (hs : Token.Stopped tokens) (chain : Chain) :
    Raises Ordinary (owner chain tokens) := by
  have hl := List.length_pos_iff.2 hs.ne_nil
  unfold owner
  split
  · exact .ofExcept_bind (fun _ h => absurd h (Token.not_error_of_lt (by omega))) fun _ _ =>
      raises_fail ⟨Bool.false_ne_true, rfl, rfl⟩
  · dsimp only
    split
    next he =>
      cases hr : Token.afterModifiers tokens with
      | nil => simp [hr] at he
      | cons first rest =>
        have hk : first.kind = .keyword .elseWord := by simpa [hr] using he
        exact raises_elseOwner (hs.afterModifiers hr) (by rw [hk]; rfl) chain _
    · exact .bind (raises_statement hs) fun _ _ _ _ => .pure _

end Step

end MuLang
