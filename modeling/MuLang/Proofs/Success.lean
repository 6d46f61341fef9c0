import Mathlib.Logic.Basic
import MuLang.Proofs.Outline
import MuLang.Proofs.Steady

/-!
# Steps that succeed

What is known once a step has succeeded: the checks that it has passed, its answer and the session
after it. The first pass registers and enters scopes; the second one looks at the rest.
-/
namespace MuLang

namespace Session

/-! ## Views of a session -/

variable (session : Session) (table : SymbolTable) (scopes : ScopeStack)

@[simp] theorem isSkimming_scopes : isSkimming { session with scopes } = session.isSkimming := rfl

@[simp] theorem isSkimming_table : isSkimming { session with table } = session.isSkimming := rfl

@[simp] theorem isSkimming_table_scopes :
    isSkimming { session with table, scopes } = session.isSkimming := rfl

@[simp] theorem env_scopes : env { session with scopes } = session.env := rfl

theorem isSkimming_of_frame {session later : Session} (h : later.frame = session.frame) :
    later.isSkimming = session.isSkimming := by
  have hp : later.pass = session.pass := congrArg Frame.pass h
  rw [isSkimming, hp, isSkimming]

end Session

namespace Step

variable {α : Type} {s t : Session}

theorem Moves.frame_eq {step : Step α} {result : Except Error α} (h : Steady step)
    (hr : step s = (result, t)) : t.frame = s.frame := by
  have hm := h.moved s
  rw [hr] at hm
  exact hm.symm

/-! ## Parts of statements -/

@[simp] theorem fail_eq_ok {cause : Cause} {token : Token} {a : α} :
    (fail cause token : Step α) s = (.ok a, t) ↔ False :=
  Fallible.throw_ne_ok

@[simp] theorem isSkimming_eq_ok {b : Bool} :
    isSkimming s = (.ok b, t) ↔ s.isSkimming = b ∧ s = t := by
  change (Except.ok s.isSkimming, s) = (.ok b, t) ↔ _
  rw [Prod.mk.injEq, Except.ok.injEq]

@[simp] theorem changeScopes_eq_ok {change : ScopeStack → ScopeStack} {u : Unit} :
    changeScopes change s = (.ok u, t) ↔ { s with scopes := change s.scopes } = t :=
  Fallible.modify_eq_ok

@[simp] theorem requireFunction_eq_ok {token : Token} {what : String} {u : Unit} :
    requireFunction token what s = (.ok u, t) ↔ s.scopes.inFunction ∧ s = t := by
  simp [requireFunction, and_assoc]

@[simp] theorem rejectModifiers_eq_ok {modifiers : List Token} {u : Unit} :
    rejectModifiers modifiers s = (.ok u, t) ↔ modifiers = [] ∧ s = t := by
  cases modifiers <;> simp [rejectModifiers]

@[simp] theorem rejectInvalidModifiers_eq_ok {modifiers : List Token} {target : String}
    {invalid : Modifier → Bool} {u : Unit} :
    rejectInvalidModifiers modifiers target invalid s = (.ok u, t) ↔
      Token.firstModifier? invalid modifiers = none ∧ s = t := by
  unfold rejectInvalidModifiers
  cases Token.firstModifier? invalid modifiers <;> simp

@[simp] theorem checkFunctionPlacement_eq_ok {keyword : Token} {modifiers : List Token}
    {u : Unit} :
    checkFunctionPlacement keyword modifiers s = (.ok u, t) ↔
      s.admitsGlobals ∧ Token.firstModifier? Modifier.isMutability modifiers = none ∧ s = t := by
  simp [checkFunctionPlacement, and_assoc]

theorem check_eq_ok {body : Env → Check α} {a : α} :
    check body s = (.ok a, t) ↔
      ∃ scopes, body s.env s.scopes = (.ok a, scopes) ∧ { s with scopes } = t := by
  unfold check
  rcases body s.env s.scopes with ⟨result, scopes⟩
  constructor
  · intro h
    cases h
    exact ⟨scopes, rfl, rfl⟩
  · rintro ⟨scopes, h, rfl⟩
    cases h
    rfl

@[simp] theorem expression_eq_ok {tokens : List Token} {context : Token} {value : Expr} :
    expression tokens context s = (.ok value, t) ↔
      ∃ scopes, s.env.expression tokens context s.scopes = (.ok value, scopes) ∧
        { s with scopes } = t :=
  check_eq_ok

@[simp] theorem condition_eq_ok {tokens : List Token} {keyword : Token} {value : Expr} :
    condition tokens keyword s = (.ok value, t) ↔
      expression tokens keyword s = (.ok value, t) ∧ value.type = .bool := by
  simp only [condition, fail_bind, Fallible.bind_eq_ok, Fallible.ite_eq_ok, fail_eq_ok, and_false,
    false_or, Fallible.pure_eq_ok, Decidable.not_not]
  constructor
  · rintro ⟨value, after, h, ht, rfl, rfl⟩
    exact ⟨h, ht⟩
  · rintro ⟨h, ht⟩
    exact ⟨value, t, h, ht, rfl, rfl⟩

/-! ## Modules and functions -/

theorem register_module (table : SymbolTable) (parent : ModulePath) (name : String) :
    (Declaration.module parent name).register table =
      if table.contains (parent ++ [name]) then table
      else ⟨table.modules ++ [.empty (parent ++ [name])]⟩ := by
  simp only [Declaration.register, SymbolTable.addModule]
  split <;> rfl

/-- In both passes the module is there afterwards, and its scope is entered. -/
theorem moduleStatement_ok {tokens modifiers : List Token} {result : Option Stmt}
    (h : moduleStatement tokens modifiers s = (.ok result, t)) :
    ∃ identifier, Token.expectName tokens 1 "a module name" = .ok identifier ∧
      (s.scopes.currentKind = .program ∨ s.scopes.currentKind = .module) ∧
      (result = if s.isSkimming then none else some (.module identifier [])) ∧
      t = { s with
        table := (Declaration.module s.scopes.currentModule identifier.text).register s.table
        scopes := s.scopes.pushIn .module (s.scopes.currentModule ++ [identifier.text]) } := by
  -- Entering the module is the same whether or not it had to be added.
  have enter {path : ModulePath} {identifier : Token} {table : SymbolTable}
      (h : s.isSkimming = true ∧ none = result ∧
          { s with table, scopes := s.scopes.pushIn .module path } = t ∨
        s.isSkimming = false ∧ some (.module identifier []) = result ∧
          { s with table, scopes := s.scopes.pushIn .module path } = t) :
      (result = if s.isSkimming then none else some (.module identifier [])) ∧
        t = { s with table, scopes := s.scopes.pushIn .module path } := by
    obtain ⟨hs, rfl, rfl⟩ | ⟨hs, rfl, rfl⟩ := h <;> simp [hs]
  simp [moduleStatement, and_assoc] at h
  obtain ⟨-, identifier, hi, -, -, -, hk, h⟩ := h
  refine ⟨identifier, hi, Decidable.or_iff_not_imp_left.2 hk, ?_⟩
  obtain ⟨hc, h⟩ | ⟨hc, h⟩ := h
  · simp only [SymbolTable.addModule, hc] at h
    simp [and_assoc] at h
    simpa [register_module, hc] using enter h
  · simpa [register_module, hc] using @enter _ _ s.table h

/-- A function is registered if it is in conflict with no other one. -/
@[simp] theorem registerFunction_eq_ok {definition : FunctionDefinition} {u : Unit} :
    registerFunction definition s = (.ok u, t) ↔ { s with table :=
      (s.table.addFunction s.scopes.currentModule definition).toOption.getD s.table } = t := by
  have hr : registerFunction definition s = (.ok (), { s with table :=
      (s.table.addFunction s.scopes.currentModule definition).toOption.getD s.table }) := by
    rw [registerFunction, Fallible.modify_apply]
    cases s.table.addFunction s.scopes.currentModule definition <;> rfl
  rw [hr, Prod.mk.injEq]
  simp

theorem skim_functionStatement {tokens modifiers : List Token} {result : Option Stmt}
    (hs : s.isSkimming = true) (h : functionStatement tokens modifiers s = (.ok result, t)) :
    ∃ signature definition, Signature.ofTokens tokens.dropLast true = .ok signature ∧
      s.admitsGlobals ∧
      (signature.header modifiers).definition (.interpreted []) = .ok definition ∧
      t = { s with
        table := (s.table.addFunction s.scopes.currentModule definition).toOption.getD s.table
        scopes := s.scopes.pushFunction definition.returnType } := by
  simp [functionStatement, hs, and_assoc] at h
  obtain ⟨-, hg, -, signature, hh, definition, hd, rfl, -⟩ := h
  exact ⟨signature, definition, hh, hg, hd, rfl⟩

theorem evaluate_functionStatement {tokens modifiers : List Token} {result : Option Stmt}
    (hs : s.isSkimming = false) (h : functionStatement tokens modifiers s = (.ok result, t)) :
    ∃ signature definition, Signature.ofTokens tokens.dropLast true = .ok signature ∧
      s.admitsGlobals ∧
      (signature.header modifiers).definition (.interpreted []) = .ok definition ∧
      result = some (.function (signature.header modifiers) []) ∧
      declareParameters (signature.header modifiers) definition.parameters
        { s with scopes := s.scopes.pushFunction definition.returnType } = (.ok (), t) := by
  simp [functionStatement, hs, and_assoc] at h
  obtain ⟨-, hg, -, signature, hh, definition, hd, ⟨_, hp⟩, rfl⟩ := h
  exact ⟨signature, definition, hh, hg, hd, rfl, hp⟩

theorem skim_nativeStatement {tokens modifiers : List Token} {result : Option Stmt}
    (hs : s.isSkimming = true) (h : nativeStatement tokens modifiers s = (.ok result, t)) :
    ∃ signature binding definition,
      Signature.ofTokens (tokens.take (tokens.length - 3)).tail false = .ok signature ∧
      Token.expectAt tokens (tokens.length - 2) (· = .literal .string) "a binding namespace" =
        .ok binding ∧
      s.admitsGlobals ∧ (signature.header modifiers).definition
        (.native (nativeName (signature.header modifiers) binding) none) = .ok definition ∧
      t = { s with table :=
        (s.table.addFunction s.scopes.currentModule definition).toOption.getD s.table } := by
  simp [nativeStatement, hs, and_assoc] at h
  obtain ⟨-, hg, -, -, -, binding, hb, signature, hh, definition, hd, rfl, -⟩ := h
  exact ⟨signature, binding, definition, hh, hb, hg, hd, rfl⟩

theorem evaluate_nativeStatement {tokens modifiers : List Token} {result : Option Stmt}
    (hs : s.isSkimming = false) (h : nativeStatement tokens modifiers s = (.ok result, t)) :
    ∃ signature binding,
      Signature.ofTokens (tokens.take (tokens.length - 3)).tail false = .ok signature ∧
      s.admitsGlobals ∧ result = some (.native (signature.header modifiers) binding) ∧ t = s ∧
      Token.expectAt tokens (tokens.length - 2) (· = .literal .string) "a binding namespace" =
        .ok binding ∧
      ∃ definition, (signature.header modifiers).definition
        (.native (nativeName (signature.header modifiers) binding) none) = .ok definition := by
  simp [nativeStatement, hs, and_assoc] at h
  obtain ⟨-, hg, -, -, -, binding, hb, signature, hh, hd, rfl, rfl⟩ := h
  exact ⟨signature, binding, hh, hg, rfl, rfl, hb, hd⟩

/-! ## Variables -/

theorem typeKeyword_of_ofTokens {first : Token} {rest : List Token} {form : VariableForm}
    (h : VariableForm.ofTokens (first :: rest) = .ok form) :
    form.typeKeyword = first ∧ first.kind ≠ .typeName .void ∧
      (first.kind = .question → form.value.isSome) := by
  simp [VariableForm.ofTokens, Token.tokenAt] at h
  obtain ⟨hv, identifier, -, mark, -, ⟨-, value, -, rfl⟩ | ⟨-, hq, rfl⟩⟩ := h
  · exact ⟨rfl, hv, fun _ => rfl⟩
  · exact ⟨rfl, hv, fun h => absurd h hq⟩

theorem typeKeyword_ne_void {tokens : List Token} {form : VariableForm}
    (h : VariableForm.ofTokens tokens = .ok form) : form.typeKeyword.kind ≠ .typeName .void := by
  cases tokens with
  | nil => cases h
  | cons first rest =>
    obtain ⟨hk, hv, -⟩ := typeKeyword_of_ofTokens h
    rwa [hk]

/-- A variable is a global where globals are admitted, and anywhere else in a function a local. -/
theorem placeVariable_ok {form : VariableForm} {modifiers : List Token} {isGlobal : Bool}
    (h : placeVariable form modifiers s = (.ok isGlobal, t)) :
    isGlobal = s.admitsGlobals ∧ (isGlobal = false → s.scopes.inFunction) ∧ t = s := by
  simp [placeVariable, and_assoc] at h
  obtain ⟨hf, ⟨-, -, rfl, rfl⟩ | ⟨-, -, rfl, rfl⟩⟩ := h <;> exact ⟨rfl, hf, rfl⟩

/-- A global is registered if it is in conflict with no other one. -/
@[simp] theorem registerGlobal_eq_ok {module : ModulePath} {identifier : Token}
    {modifiers : List Token} {type : Datatype} {u : Unit} :
    registerGlobal module identifier modifiers type s = (.ok u, t) ↔
      { s with table := (s.table.addVariable module ⟨identifier.text, type,
        Token.modifiers modifiers, true⟩).toOption.getD s.table } = t := by
  have hr : registerGlobal module identifier modifiers type s =
      (.ok (), { s with table := (s.table.addVariable module ⟨identifier.text, type,
        Token.modifiers modifiers, true⟩).toOption.getD s.table }) := by
    rw [registerGlobal, Fallible.modify_apply]
    cases h : s.table.addVariable module
      ⟨identifier.text, type, Token.modifiers modifiers, true⟩ <;> simp [h, Except.toOption]
  rw [hr, Prod.mk.injEq]
  simp

theorem inferGlobal?_eq_ok {global : DeferredGlobal} {type? : Option Datatype}
    (h : inferGlobal? global s = (.ok type?, t)) :
    ∃ result scopes, s.env.expression global.value global.typeKeyword s.scopes = (result, scopes) ∧
      t = { s with scopes } ∧
      type? = result.toOption.bind fun value => inferredType? global.modifiers value.type := by
  have hx : expression global.value global.typeKeyword s =
      ((s.env.expression global.value global.typeKeyword s.scopes).1,
        { s with scopes := (s.env.expression global.value global.typeKeyword s.scopes).2 }) := rfl
  unfold inferGlobal? at h
  rw [hx] at h
  rcases he : s.env.expression global.value global.typeKeyword s.scopes with ⟨error | value, scopes⟩
  · rw [he] at h
    cases h
    exact ⟨_, _, rfl, rfl, rfl⟩
  · rw [he] at h
    cases h
    exact ⟨_, _, rfl, rfl, rfl⟩

/-- In the first pass a global is registered or deferred; its value may be looked at before. -/
theorem skimGlobal_ok {typeKeyword identifier : Token} {modifiers : List Token}
    {value : Option (List Token)} {u : Unit}
    (hk : typeKeyword.kind = .question ∧ value.isSome ∨ typeKeyword.kind.isTypeName)
    (h : skimGlobal typeKeyword identifier modifiers value s = (.ok u, t)) :
    ∃ scopes, scopes.unmarked = s.scopes.unmarked ∧
      ((∃ v : Variable, v.Registers identifier.text modifiers ∧ (typeKeyword.kind ≠ .question →
        typeKeyword.datatype? (Token.areNullable modifiers) = some v.datatype) ∧ t = { s with
        table := (s.table.addVariable s.scopes.currentModule v).toOption.getD s.table
        scopes }) ∨
      ∃ tokens, typeKeyword.kind = .question ∧ value = some tokens ∧ t = { s with
        deferred := s.deferred ++
          [⟨s.scopes.currentModule, typeKeyword, identifier, modifiers, tokens⟩]
        scopes }) := by
  unfold skimGlobal at h
  rw [Fallible.bind_of_ok (Fallible.get_apply _)] at h
  generalize hv : (if typeKeyword.kind = .question then value else none) = value? at h
  cases value? with
  | some tokens =>
    obtain ⟨hq, rfl⟩ : typeKeyword.kind = .question ∧ value = some tokens := by simpa using hv
    obtain ⟨type?, after, hi, h⟩ := Fallible.bind_eq_ok.1 h
    obtain ⟨result, scopes, hx, rfl, -⟩ := inferGlobal?_eq_ok hi
    have hm := s.env.keeps_expression tokens typeKeyword s.scopes
    rw [hx] at hm
    cases type? with
    | some type =>
      exact ⟨scopes, hm, .inl ⟨_, ⟨rfl, rfl, rfl⟩, fun hn => absurd hq hn,
        (registerGlobal_eq_ok.1 h).symm⟩⟩
    | none => exact ⟨scopes, hm, .inr ⟨tokens, hq, rfl, (Fallible.modify_eq_ok.1 h).symm⟩⟩
  | none =>
    have ht : typeKeyword.kind.isTypeName := hk.resolve_left fun hq => by
      rw [if_pos hq.1] at hv
      simp [hv] at hq
    obtain ⟨name, hn⟩ := Option.isSome_iff_exists.1 ht
    have hd : typeKeyword.datatype? (Token.areNullable modifiers) =
        some ⟨.ofTypeName name, Token.areNullable modifiers⟩ := by
      simp [Token.datatype?, Kind.primitive?, hn]
    simp only [hd] at h
    exact ⟨s.scopes, rfl, .inl ⟨_, ⟨rfl, rfl, rfl⟩, fun _ => hd, (registerGlobal_eq_ok.1 h).symm⟩⟩

/-- In the first pass a declaration is looked at only where it declares a global. -/
theorem skim_variableStatement {tokens modifiers : List Token}
    {result : Option (VariableHeader × Option Expr)} (hs : s.isSkimming = true)
    (h : variableStatement tokens modifiers s = (.ok result, t)) :
    ∃ form, VariableForm.ofTokens tokens = .ok form ∧ ((s.admitsGlobals ∧
        skimGlobal form.typeKeyword form.identifier modifiers form.value s = (.ok (), t)) ∨
      (s.admitsGlobals = false ∧ s.scopes.inFunction ∧ t = s)) := by
  obtain ⟨form, hf, h⟩ := Fallible.ofExcept_bind_eq_ok.1 h
  obtain ⟨isGlobal, _, hp, h⟩ := Fallible.bind_eq_ok.1 h
  obtain ⟨rfl, hl, rfl⟩ := placeVariable_ok hp
  simp [hs, and_assoc] at h
  refine ⟨form, hf, ?_⟩
  obtain ⟨hg, ⟨_, hk⟩, -⟩ | ⟨hg, -, rfl⟩ := h
  · exact .inl ⟨hg, hk⟩
  · exact .inr ⟨hg, hl hg, rfl⟩

theorem evaluate_variableStatement {tokens modifiers : List Token}
    {result : Option (VariableHeader × Option Expr)} (hs : s.isSkimming = false)
    (h : variableStatement tokens modifiers s = (.ok result, t)) :
    ∃ form, VariableForm.ofTokens tokens = .ok form ∧
      (s.admitsGlobals = false → s.scopes.inFunction) ∧
      evaluateVariable form modifiers s.admitsGlobals s = (.ok result, t) := by
  obtain ⟨form, hf, h⟩ := Fallible.ofExcept_bind_eq_ok.1 h
  obtain ⟨isGlobal, _, hp, h⟩ := Fallible.bind_eq_ok.1 h
  obtain ⟨rfl, hl, rfl⟩ := placeVariable_ok hp
  simp [hs] at h
  exact ⟨form, hf, hl, h⟩

/-- A type that has been inferred has a name. -/
theorem exists_typeToken? {modifiers : List Token} {value type : Datatype}
    (h : inferredType? modifiers value = some type) : ∃ token, typeToken? type = some token := by
  unfold inferredType? at h
  split at h
  · cases h
  next hn =>
    cases h
    rcases value with ⟨kind, nullable⟩
    cases kind <;> first | exact absurd rfl hn | exact ⟨_, rfl⟩

theorem exists_datatype {typeKeyword : Token} {modifiers : List Token} {typed : Option Expr}
    {type : Datatype} (h : declaredType typeKeyword modifiers typed = .ok type) :
    ∃ datatype, (if typeKeyword.kind = .question then typeToken? type else some typeKeyword) =
      some datatype := by
  by_cases hq : typeKeyword.kind = .question
  · rw [if_pos hq]
    cases typed with
    | some value =>
      simp only [declaredType, hq, if_true] at h
      split at h
      next hi =>
        cases h
        exact exists_typeToken? hi
      · cases h
    | none => simp [declaredType, hq, Token.datatype?, Kind.primitive?, Kind.typeName?] at h
  · exact ⟨typeKeyword, if_neg hq⟩

/-- Where a type has been written, it is the declared one. -/
theorem written_of_datatype {typeKeyword datatype : Token} {modifiers : List Token}
    {typed : Option Expr} {type : Datatype}
    (ht : declaredType typeKeyword modifiers typed = .ok type)
    (h : (if typeKeyword.kind = .question then typeToken? type else some typeKeyword) =
      some datatype) (hw : datatype.span ≠ .nowhere) :
    typeKeyword.kind ≠ .question ∧ datatype = typeKeyword ∧
      typeKeyword.datatype? (Token.areNullable modifiers) = some type := by
  have hq : typeKeyword.kind ≠ .question := by
    intro hq
    rw [if_pos hq, typeToken?, Option.map_eq_some_iff] at h
    obtain ⟨name, -, rfl⟩ := h
    exact hw rfl
  rw [if_neg hq] at h
  refine ⟨hq, (Option.some.inj h).symm, ?_⟩
  simp only [declaredType, if_neg hq] at ht
  split at ht
  next hd =>
    cases ht
    exact hd
  next => cases ht

/-- A declaration of the second pass that is accepted. Its value, if it has one, is typed first. -/
structure Declared (form : VariableForm) (modifiers : List Token) (isGlobal : Bool)
    (s : Session) (typed : Option Expr) (type : Datatype) (datatype : Token) (scopes : ScopeStack)
    (t : Session) : Prop where
  none_iff : form.value = none ↔ typed = none
  typed_eq : ∀ tokens ∈ form.value, ∀ value ∈ typed,
    s.env.expression tokens form.mark s.scopes = (.ok value, scopes)
  untyped : typed = none → scopes = s.scopes
  type_eq : declaredType form.typeKeyword modifiers typed = .ok type
  fits : ∀ value ∈ typed, value.type.fits type
  datatype_eq : (if form.typeKeyword.kind = .question then typeToken? type
    else some form.typeKeyword) = some datatype
  declared : declareVariable form.identifier ⟨form.identifier.text, type,
    Token.modifiers modifiers, isGlobal || typed.isSome⟩ isGlobal { s with scopes } = (.ok (), t)

/-- Where a type is written, a value that may be `null` is taken only if the modifiers say so. -/
theorem Declared.areNullable_eq {form : VariableForm} {modifiers : List Token} {isGlobal : Bool}
    {typed : Option Expr} {type : Datatype} {datatype : Token} {scopes : ScopeStack}
    (h : Declared form modifiers isGlobal s typed type datatype scopes t)
    (ht : form.typeKeyword.datatype? (Token.areNullable modifiers) = some type) :
    (Token.areNullable modifiers || (typed.map Expr.type).any (·.nullable)) =
      Token.areNullable modifiers := by
  have hn : type.nullable = Token.areNullable modifiers := by
    obtain ⟨kind, -, rfl⟩ := Option.map_eq_some_iff.1 ht
    rfl
  cases typed with
  | none => simp
  | some value =>
    rw [Bool.or_eq_left_iff_imp]
    intro hnull
    rw [← hn]
    exact Datatype.nullable_of_fits (h.fits value rfl) (by simpa using hnull)

/-- A type that is written stays the type of the variable. -/
theorem Declared.decides {form : VariableForm} {modifiers : List Token} {isGlobal : Bool}
    {typed : Option Expr} {type : Datatype} {datatype : Token} {scopes : ScopeStack}
    (h : Declared form modifiers isGlobal s typed type datatype scopes t)
    (hv : form.typeKeyword.kind ≠ .typeName .void) :
    (⟨modifiers, form.identifier, datatype⟩ : VariableHeader).Decides (typed.map Expr.type) := by
  intro hw
  obtain ⟨-, rfl, ht⟩ := written_of_datatype h.type_eq h.datatype_eq hw
  refine ⟨type, ht, ?_⟩
  have hk : type.kind ≠ .void := Token.kind_ne_void_of_datatype? ht hv
  rw [VariableHeader.defined, h.areNullable_eq ht, Definition.datatype, ht]
  simp [hk]

/-- A variable that is declared has the type of a value. -/
theorem Declared.kind_ne_void {form : VariableForm} {modifiers : List Token} {isGlobal : Bool}
    {typed : Option Expr} {type : Datatype} {datatype : Token} {scopes : ScopeStack}
    (h : Declared form modifiers isGlobal s typed type datatype scopes t)
    (hv : form.typeKeyword.kind ≠ .typeName .void) : type.kind ≠ .void := by
  cases typed with
  | some value => exact (Datatype.kinds_of_fits (h.fits value rfl)).2
  | none =>
    have ht := h.type_eq
    simp only [declaredType, ite_self] at ht
    split at ht
    next hd =>
      cases ht
      exact Token.kind_ne_void_of_datatype? hd hv
    next => cases ht

/-- Nor does a declaration name `void` as its type. -/
theorem Declared.datatype_ne_void {form : VariableForm} {modifiers : List Token} {isGlobal : Bool}
    {typed : Option Expr} {type : Datatype} {datatype : Token} {scopes : ScopeStack}
    (h : Declared form modifiers isGlobal s typed type datatype scopes t)
    (hv : form.typeKeyword.kind ≠ .typeName .void) : datatype.kind ≠ .typeName .void := by
  have hk := h.kind_ne_void hv
  have hd := h.datatype_eq
  split at hd
  · obtain ⟨name, hn, rfl⟩ := Option.map_eq_some_iff.1 hd
    rintro ⟨⟩
    exact hk (Primitive.ofTypeName_typeName? hn).symm
  · cases hd
    exact hv

theorem declareTyped_ok {form : VariableForm} {modifiers : List Token} {isGlobal : Bool}
    {typed : Option Expr} {result : Option (VariableHeader × Option Expr)}
    (h : declareTyped form modifiers isGlobal typed s = (.ok result, t)) :
    ∃ type datatype, declaredType form.typeKeyword modifiers typed = .ok type ∧
      (∀ value ∈ typed, value.type.fits type) ∧
      (if form.typeKeyword.kind = .question then typeToken? type
        else some form.typeKeyword) = some datatype ∧
      declareVariable form.identifier ⟨form.identifier.text, type, Token.modifiers modifiers,
        isGlobal || typed.isSome⟩ isGlobal s = (.ok (), t) ∧
      result = some (⟨modifiers, form.identifier, datatype⟩, typed) := by
  obtain ⟨type, ht, h⟩ := Fallible.ofExcept_bind_eq_ok.1 h
  obtain ⟨_, hc, h⟩ := Fallible.ofExcept_bind_eq_ok.1 h
  obtain ⟨_, after, hd, h⟩ := Fallible.bind_eq_ok.1 h
  obtain ⟨datatype, he⟩ := exists_datatype ht
  rw [he] at h
  obtain ⟨rfl, rfl⟩ := Fallible.pure_eq_ok.1 h
  refine ⟨type, datatype, ht, ?_, he, hd, rfl⟩
  rintro value hv
  obtain rfl := Option.mem_def.1 hv
  simpa [checkInitial] using hc

theorem evaluateVariable_ok {form : VariableForm} {modifiers : List Token} {isGlobal : Bool}
    {result : Option (VariableHeader × Option Expr)}
    (h : evaluateVariable form modifiers isGlobal s = (.ok result, t)) :
    ∃ typed type datatype scopes,
      Declared form modifiers isGlobal s typed type datatype scopes t ∧
      result = some (⟨modifiers, form.identifier, datatype⟩, typed) := by
  unfold evaluateVariable at h
  cases hv : form.value with
  | some tokens =>
    simp only [hv] at h
    obtain ⟨value, after, he, h⟩ := Fallible.bind_eq_ok.1 h
    obtain ⟨scopes, hx, rfl⟩ := expression_eq_ok.1 he
    obtain ⟨type, datatype, ht, hf, he, hd, hr⟩ := declareTyped_ok h
    refine ⟨some value, type, datatype, scopes, ⟨by simp [hv], ?_, by simp, ht, hf, he, hd⟩, hr⟩
    rintro other ho typed hy
    rw [hv] at ho
    cases ho
    cases hy
    exact hx
  | none =>
    simp only [hv] at h
    obtain ⟨type, datatype, ht, hf, he, hd, hr⟩ := declareTyped_ok h
    exact ⟨none, type, datatype, s.scopes,
      ⟨by simp [hv], by simp [hv], fun _ => rfl, ht, hf, he, hd⟩, hr⟩

/-! ## Actions -/

/-- An action of the second pass that is accepted, in the scopes before and after it. -/
inductive Acts (env : Env) (scopes : ScopeStack) : Action → ScopeStack → Prop
  | call {tokens : List Token} {context : Token} {type : Datatype} {callee : Token}
      {arguments : List Expr} {after : ScopeStack} :
      env.expression tokens context scopes = (.ok (.call type callee arguments), after) →
      Acts env scopes (.call callee arguments) after
  | assign {identifier operator : Token} {value : Expr} {type : Datatype}
      {between after : ScopeStack} :
      (value = one ∧ between = scopes ∨
        ∃ tokens context, env.expression tokens context scopes = (.ok value, between)) →
      env.assign between identifier operator value = .ok (type, after) →
      Acts env scopes (.assign identifier operator value) after

theorem evaluate_assignStatement {identifier operator : Token} {value : Expr}
    {result : Option Action} (hs : s.isSkimming = false)
    (h : assignStatement identifier operator value s = (.ok result, t)) :
    ∃ type scopes, s.env.assign s.scopes identifier operator value = .ok (type, scopes) ∧
      t = { s with scopes } ∧ result = some (.assign identifier operator value) := by
  simp [assignStatement, hs, check_eq_ok, and_assoc] at h
  obtain ⟨⟨type, scopes, ha, rfl⟩, rfl⟩ := h
  exact ⟨type, scopes, ha, rfl, rfl⟩

/-- The answer of an action in the second pass: an action, unless its end is missing. -/
def ActsOrStops (tokens : List Token) (s : Session) (result : Option Action) (t : Session) : Prop :=
  (∃ action scopes, result = some action ∧ Acts s.env s.scopes action scopes ∧
    t = { s with scopes }) ∨
  (result = none ∧ t = s ∧ tokens.length = 2 ∧
    ∃ next, tokens[1]? = some next ∧ next.kind ≠ .semicolon)

theorem evaluate_counter {tokens : List Token} {identifier next operator : Token}
    {result : Option Action} (hs : s.isSkimming = false)
    (hn : Token.tokenAt tokens 1 = .ok next) (hk : next.kind ≠ .semicolon)
    (h : (ofExcept (Token.expectEnd tokens 3) >>= fun whole =>
      if whole then assignStatement identifier operator one else pure none) s = (.ok result, t)) :
    ActsOrStops tokens s result t := by
  have hi : tokens[1]? = some next := by
    cases hi : tokens[1]? <;> simp [Token.tokenAt, hi] at hn
    rw [hn]
  obtain ⟨whole, he, h⟩ := Fallible.ofExcept_bind_eq_ok.1 h
  cases whole with
  | true =>
    obtain ⟨type, scopes, ha, rfl, rfl⟩ := evaluate_assignStatement hs h
    exact .inl ⟨_, scopes, rfl, .assign (.inl ⟨rfl, rfl⟩) ha, rfl⟩
  | false =>
    obtain ⟨rfl, rfl⟩ := Fallible.pure_eq_ok.1 h
    refine .inr ⟨rfl, rfl, ?_, next, hi, hk⟩
    -- There is no third token, and there is a second one.
    have hl : ¬2 < tokens.length := fun hl => by
      simp [Token.expectEnd, List.getElem?_eq_getElem hl] at he
    have := (List.getElem?_eq_some_iff.1 hi).1
    omega

theorem evaluate_actionStatement {tokens modifiers : List Token} {result : Option Action}
    (hs : s.isSkimming = false) (h : actionStatement tokens modifiers s = (.ok result, t)) :
    s.scopes.inFunction ∧ ActsOrStops tokens s result t := by
  simp [actionStatement, and_assoc] at h
  obtain ⟨-, identifier, -, hf, next, hn, h⟩ := h
  refine ⟨hf, ?_⟩
  generalize hk : next.kind = kind at h
  split at h
  · simp [hs, and_assoc] at h
    obtain ⟨value, scopes, hx, h⟩ := h
    split at h
    · obtain ⟨rfl, rfl⟩ := Fallible.pure_eq_ok.1 h
      exact .inl ⟨_, scopes, rfl, .call hx, rfl⟩
    · exact absurd h (by simp)
  · exact evaluate_counter hs hn (by simp [hk]) h
  · exact evaluate_counter hs hn (by simp [hk]) h
  · simp [hs, and_assoc] at h
    obtain ⟨tokens, -, value, between, hx, h⟩ := h
    obtain ⟨type, scopes, ha, rfl, rfl⟩ := evaluate_assignStatement (by exact hs) h
    exact .inl ⟨_, scopes, rfl, .assign (.inr ⟨_, _, hx⟩) ha, rfl⟩
  · exact absurd h (by simp)

theorem skim_actionStatement {tokens modifiers : List Token} {result : Option Action}
    (hs : s.isSkimming = true) (h : actionStatement tokens modifiers s = (.ok result, t)) :
    t = s := by
  simp [actionStatement, and_assoc] at h
  obtain ⟨-, identifier, -, -, next, -, h⟩ := h
  generalize next.kind = kind at h
  split at h <;> simp [hs, assignStatement, and_assoc] at h
  · exact h.2.symm
  · obtain ⟨-, -, rfl⟩ | ⟨-, -, rfl⟩ := h <;> rfl
  · obtain ⟨-, -, rfl⟩ | ⟨-, -, rfl⟩ := h <;> rfl
  · exact h.2.symm

/-! ## Control flow -/

theorem skim_ifStatement {tokens modifiers : List Token} {result : Option (Token × Expr)}
    (hs : s.isSkimming = true) (h : ifStatement tokens modifiers s = (.ok result, t)) :
    t = { s with scopes := s.scopes.push .ifBlock } := by
  simp [ifStatement, hs, and_assoc] at h
  obtain ⟨-, -, -, -, rfl⟩ := h
  rfl

theorem evaluate_ifStatement {tokens modifiers : List Token} {result : Option (Token × Expr)}
    (hs : s.isSkimming = false) (h : ifStatement tokens modifiers s = (.ok result, t)) :
    s.scopes.inFunction ∧ ∃ keyword value scopes, result = some (keyword, value) ∧
      s.env.expression (Token.inner tokens) keyword (s.scopes.push .ifBlock) =
        (.ok value, scopes) ∧ value.type = .bool ∧ t = { s with scopes } := by
  simp [ifStatement, hs, and_assoc] at h
  obtain ⟨-, keyword, -, hf, value, ⟨scopes, hx, rfl⟩, hb, rfl⟩ := h
  exact ⟨hf, keyword, value, scopes, rfl, hx, hb, rfl⟩

theorem skim_whileStatement {tokens modifiers : List Token} {result : Option Stmt}
    (hs : s.isSkimming = true) (h : whileStatement tokens modifiers s = (.ok result, t)) :
    t = { s with scopes := s.scopes.push .whileBlock } := by
  simp [whileStatement, hs, and_assoc] at h
  obtain ⟨-, -, -, -, rfl⟩ := h
  rfl

theorem evaluate_whileStatement {tokens modifiers : List Token} {result : Option Stmt}
    (hs : s.isSkimming = false) (h : whileStatement tokens modifiers s = (.ok result, t)) :
    s.scopes.inFunction ∧ ∃ keyword value scopes, result = some (.whileLoop keyword value []) ∧
      s.env.expression (Token.inner tokens) keyword (s.scopes.push .whileBlock) =
        (.ok value, scopes) ∧ value.type = .bool ∧ t = { s with scopes } := by
  simp [whileStatement, hs, and_assoc] at h
  obtain ⟨-, keyword, -, hf, value, ⟨scopes, hx, rfl⟩, hb, rfl⟩ := h
  exact ⟨hf, keyword, value, scopes, rfl, hx, hb, rfl⟩

/-- The tokens of a `for` alone decide how its head is cut into parts. -/
theorem forStatement_loops {tokens modifiers : List Token} {result : Option Stmt}
    (h : forStatement tokens modifiers s = (.ok result, t)) :
    s.scopes.inFunction ∧ ∃ keyword init test step, ∀ e : Session, e.scopes.inFunction →
      forStatement tokens modifiers e = loopStatement keyword init test step
        { e with scopes := e.scopes.push .loopHeader } := by
  have enter {next : Token → Step (Option Stmt)} {keyword : Token} (hm : modifiers = [])
      (hk : Token.tokenAt tokens 0 = .ok keyword) (e : Session) (he : e.scopes.inFunction) :
      (rejectModifiers modifiers >>= fun _ => ofExcept (Token.tokenAt tokens 0) >>= fun keyword =>
        requireFunction keyword "for loops" >>= fun _ => changeScopes (·.push .loopHeader) >>=
          fun _ => next keyword) e = next keyword { e with scopes := e.scopes.push .loopHeader } := by
    rw [Fallible.bind_of_ok (a := ()) (rejectModifiers_eq_ok.2 ⟨hm, rfl⟩),
      Fallible.bind_of_ok (Fallible.ofExcept_eq_ok.2 ⟨hk, rfl⟩),
      Fallible.bind_of_ok (a := ()) (requireFunction_eq_ok.2 ⟨he, rfl⟩)]
    rfl
  simp [forStatement, and_assoc] at h
  obtain ⟨hm, keyword, hk, hf, h⟩ := h
  refine ⟨hf, keyword, ?_⟩
  unfold forStatement
  generalize headParts 0 (Token.inner tokens) = parts at h
  split at h
  next init test step => exact ⟨init, test, step, enter hm hk⟩
  next init transition =>
    split at h
    next counter arrow limit =>
      simp at h
      exact ⟨init, _, _, fun e he => (enter hm hk e he).trans (congrFun (if_pos h.1) _)⟩
    next => exact absurd h (by simp)
  next => exact absurd h (by simp)

theorem forStatement_ok {tokens modifiers : List Token} {result : Option Stmt}
    (h : forStatement tokens modifiers s = (.ok result, t)) :
    s.scopes.inFunction ∧ ∃ keyword init test step, loopStatement keyword init test step
      { s with scopes := s.scopes.push .loopHeader } = (.ok result, t) := by
  obtain ⟨hf, keyword, init, test, step, hloop⟩ := forStatement_loops h
  exact ⟨hf, keyword, init, test, step, (hloop s hf).symm.trans h⟩

theorem evaluate_returnStatement {tokens modifiers : List Token} {result : Option Stmt}
    (hs : s.isSkimming = false) (h : returnStatement tokens modifiers s = (.ok result, t)) :
    s.scopes.inFunction ∧ ∃ keyword value scopes, result = some (.returning keyword value) ∧
      t = { s with scopes } ∧
      (∀ typed ∈ value,
        s.env.expression (Token.inner tokens) keyword s.scopes = (.ok typed, scopes)) ∧
      (value = none → scopes = s.scopes ∧ Token.inner tokens = []) ∧
      (∀ expected ∈ s.scopes.returnType?, if expected.kind = .void then value = none
        else ∃ typed, value = some typed ∧ typed.type.fits expected) ∧
      modifiers = [] ∧ Token.tokenAt tokens 0 = .ok keyword := by
  simp [returnStatement, hs, and_assoc] at h
  obtain ⟨hm, keyword, hk, hf, h⟩ := h
  refine ⟨hf, keyword, ?_⟩
  cases hr : s.scopes.returnType? with
  | some expected =>
    simp [hr] at h
    obtain ⟨he, hv, rfl, rfl⟩ | ⟨-, hv, value, scopes, hx, ht, rfl, rfl⟩ := h
    · exact ⟨none, s.scopes, rfl, rfl, by simp, fun _ => ⟨rfl, he⟩, by simp [hv], hm, hk⟩
    · exact ⟨some value, scopes, rfl, rfl, by simp [hx], by simp, by simp [hv, ht], hm, hk⟩
  | none =>
    simp [hr] at h
    obtain ⟨he, rfl, rfl⟩ | ⟨-, value, ⟨scopes, hx, rfl⟩, rfl⟩ := h
    · exact ⟨none, s.scopes, rfl, rfl, by simp, fun _ => ⟨rfl, he⟩, by simp, hm, hk⟩
    · exact ⟨some value, scopes, rfl, rfl, by simp [hx], by simp, by simp, hm, hk⟩

theorem skim_returnStatement {tokens modifiers : List Token} {result : Option Stmt}
    (hs : s.isSkimming = true) (h : returnStatement tokens modifiers s = (.ok result, t)) :
    t = s := by
  simp [returnStatement, hs, and_assoc] at h
  exact h.2.2.2.2.symm

/-- The end of standard-library mode is the same in both passes. -/
theorem finishStatement_ok {tokens modifiers : List Token} {result : Option Stmt}
    (h : finishStatement tokens modifiers s = (.ok result, t)) :
    ∃ whole, Token.expectEnd tokens 2 = .ok whole ∧
      t = (if whole then { s with stdlib := false } else s) ∧
      ∀ stmt ∈ result, ∃ keyword, stmt = .stdlibFinish keyword := by
  simp [finishStatement, and_assoc] at h
  obtain ⟨-, keyword, -, ⟨he, rfl, rfl⟩ | ⟨he, ⟨-, rfl, rfl⟩ | ⟨-, rfl, rfl⟩⟩⟩ := h
  · exact ⟨false, he, rfl, by simp⟩
  · exact ⟨true, he, rfl, by simp⟩
  · refine ⟨true, he, rfl, ?_⟩
    rintro stmt ⟨⟩
    exact ⟨keyword, rfl⟩

/-! ## Loops -/

@[simp] theorem expectStart_eq_ok {tokens : List Token} {keyword : Token} {accepts : Kind → Bool}
    {expected : String} {u : Unit} :
    expectStart tokens keyword accepts expected s = (.ok u, t) ↔
      (∃ first, tokens.head? = some first ∧ accepts first.kind) ∧ s = t := by
  unfold expectStart
  cases tokens.head? <;> simp

/-- Where nothing has been reported a step that reports its error has had none. -/
theorem of_reporting {step : Step (Option α)} {a : Option α}
    (h : reporting step s = (.ok a, t)) (hc : t.log.Clean) : step s = (.ok a, t) := by
  unfold reporting at h
  rcases hs : step s with ⟨error | result, after⟩
  · rw [hs] at h
    cases h
    exact absurd hc (after.log.not_clean_report error)
  · rw [hs] at h
    cases h
    rfl

/-- In the first pass the declaration of a loop only has to be sound, and its scope is entered. -/
theorem skim_loopStatement {keyword : Token} {init test step : List Token} {result : Option Stmt}
    (hs : s.isSkimming = true) (hg : s.admitsGlobals = false) (hc : t.log.Clean)
    (h : loopStatement keyword init test step s = (.ok result, t)) :
    t = { s with scopes := s.scopes.push .forBlock } := by
  simp [loopStatement, hs, and_assoc] at h
  obtain ⟨-, -, declared, after, hr, -, rfl, -⟩ := h
  obtain ⟨form, -, ⟨hg', -⟩ | ⟨-, -, rfl⟩⟩ := skim_variableStatement hs (of_reporting hr hc)
  · rw [hg] at hg'
    cases hg'
  · rfl

/-- In the second pass a loop has a variable with a value, a condition and a step. -/
theorem evaluate_loopStatement {keyword : Token} {init test step : List Token}
    {result : Option Stmt} (hs : s.isSkimming = false)
    (h : loopStatement keyword init test step s = (.ok result, t)) :
    ∃ header value condition action declared tested acted,
      variableStatement (terminated (Token.afterModifiers init)) (Token.leadingModifiers init) s =
        (.ok (some (header, some value)), declared) ∧
      declared.env.expression test keyword declared.scopes = (.ok condition, tested) ∧
      condition.type = .bool ∧ Acts declared.env tested action acted ∧
      t = { declared with scopes := acted.push .forBlock } ∧
      result = some (.forLoop keyword header value condition action []) ∧
      declared.isSkimming = false ∧ ∃ after, actionStatement (terminated step) []
        { declared with scopes := tested } = (.ok (some action), after) := by
  simp [loopStatement, hs, and_assoc] at h
  obtain ⟨-, -, typed, declared, hv, h⟩ := h
  obtain ⟨form, -, -, he⟩ := evaluate_variableStatement hs hv
  obtain ⟨value?, type, datatype, scopes, -, rfl⟩ := evaluateVariable_ok he
  cases value? with
  | none => exact absurd h (by simp)
  | some value =>
    simp only [Fallible.bind_eq_ok, condition_eq_ok, expression_eq_ok] at h
    obtain ⟨condition, tested, ⟨⟨scopes, hx, rfl⟩, hb⟩, action?, acted, ha, h⟩ := h
    have hd : declared.isSkimming = false :=
      Session.isSkimming_of_frame ((steady_variableStatement _ _).frame_eq hv) ▸ hs
    obtain ⟨-, ⟨action, after, rfl, hc, rfl⟩ | ⟨-, -, hl, next, hn, hk⟩⟩ :=
      evaluate_actionStatement (by exact hd) ha
    · simp at h
      obtain ⟨rfl, rfl⟩ := h
      exact ⟨_, value, condition, action, declared, scopes, after, hv, hx, hb, hc, rfl, rfl, hd, _, ha⟩
    · -- The step ends in a semicolon, so its second token can only be that.
      have hs : step.length = 1 := by simpa [terminated] using hl
      have hi : (terminated step)[1]? = some (.synthetic .semicolon ";") := by
        simp [terminated, hs]
      rw [hi] at hn
      cases hn
      exact absurd rfl hk

/-! ## Branches -/

/-- An `else` follows an `if`, and either it is plain or it has a condition of its own. -/
theorem elseOwner_ok {chain : Chain} {tokens modifiers : List Token} {result : Option Owner}
    (h : elseOwner chain tokens modifiers s = (.ok result, t)) :
    chain ≠ .closed ∧ ∃ next, Token.tokenAt tokens 1 = .ok next ∧
      ((next.kind = .openCurly ∧ t = s ∧ result = some .otherwise) ∨
      (next.kind = .keyword .ifWord ∧ ∃ head, ifStatement tokens.tail [] s = (.ok head, t) ∧
        result = head.map fun head => .elseIf head.1 head.2)) := by
  simp [elseOwner, and_assoc] at h
  obtain ⟨-, -, hc, next, hn, ⟨hk, -, rfl, rfl⟩ | ⟨-, hk, head, hi, rfl⟩⟩ := h
  · exact ⟨hc, next, hn, .inl ⟨hk, rfl, rfl⟩⟩
  · exact ⟨hc, next, hn, .inr ⟨hk, head, hi, rfl⟩⟩

end Step

end MuLang
