import MuLang.Proofs.Lockstep
import MuLang.Proofs.Ordinary

/-!
# What the second pass does beside the first

Most of what the second pass does, and the first one does not, is modest: it types values, declares
variables and marks them as initialized. It leaves the modules and functions that are registered, and
it finds nothing wrong with the place at which a statement stands.
-/
namespace MuLang

/-- A module with its functions alone. -/
def Module.withoutGlobals (module : Module) : Module := { module with globals := [] }

/-- The modules of a table with their functions alone. -/
def SymbolTable.withoutGlobals (table : SymbolTable) : SymbolTable :=
  ⟨table.modules.map Module.withoutGlobals⟩

theorem SymbolTable.withoutGlobals_addVariable {table extended : SymbolTable} {path : ModulePath}
    {v : Variable} (h : table.addVariable path v = .ok extended) :
    extended.withoutGlobals = table.withoutGlobals := by
  rw [(of_addVariable h).2, withoutGlobals, modify, List.map_map, withoutGlobals]
  congr 1
  refine List.map_congr_left fun module _ => ?_
  dsimp only [Function.comp_apply]
  split <;> rfl

theorem SymbolTable.module?_withoutGlobals (table : SymbolTable) (p : ModulePath) :
    table.withoutGlobals.module? p = (table.module? p).map Module.withoutGlobals := by
  rw [module?, withoutGlobals, List.find?_map]
  rfl

theorem SymbolTable.contains_withoutGlobals (table : SymbolTable) (p : ModulePath) :
    table.withoutGlobals.contains p = table.contains p := by
  rw [contains, module?_withoutGlobals, Option.isSome_map, contains]

theorem SymbolTable.module_withoutGlobals (table : SymbolTable) (p : ModulePath) :
    table.withoutGlobals.module p = (table.module p).withoutGlobals := by
  simp only [SymbolTable.module, module?_withoutGlobals]
  cases table.module? p <;> rfl

theorem SymbolTable.addModule_withoutGlobals (table : SymbolTable) (parent : ModulePath)
    (name : String) : table.withoutGlobals.addModule parent name =
      (table.addModule parent name).map withoutGlobals := by
  rw [addModule, contains_withoutGlobals, addModule]
  split
  · rfl
  · simp [Except.map, withoutGlobals, Module.withoutGlobals, Module.empty]

theorem SymbolTable.addFunction_withoutGlobals (table : SymbolTable) (path : ModulePath)
    (definition : FunctionDefinition) : table.withoutGlobals.addFunction path definition =
      (table.addFunction path definition).map withoutGlobals := by
  have hm : (table.module path).withoutGlobals.addFunction definition =
      ((table.module path).addFunction definition).map Module.withoutGlobals := by
    simp only [Module.addFunction]
    change (if ((table.module path).definitions definition.name).any
      (·.parameterTypes = definition.parameterTypes) = true then _ else _) = _
    split <;> rfl
  rw [addFunction, module_withoutGlobals, hm, addFunction]
  cases (table.module path).addFunction definition with
  | error conflict => rfl
  | ok extended =>
    simp only [Except.map, withoutGlobals, modify, List.map_map]
    rw [Except.ok.injEq, SymbolTable.mk.injEq]
    refine List.map_congr_left fun m _ => ?_
    dsimp only [Function.comp_apply]
    change (if m.path = path then _ else _) = _
    split <;> rfl

/-- What a session has registered besides variables, and whether it is in standard-library mode. -/
def Session.registered (session : Session) : SymbolTable × Bool :=
  (session.table.withoutGlobals, session.stdlib)

/-- An error that does not concern what may stand where. -/
def Error.Elsewhere (error : Error) : Prop := error.cause.concernsPlacement = false

namespace Step

open Fallible (Keeps)

variable {α β : Type} {holds : Frame → Prop} {s t : Session}

/-- A step that leaves the scopes and what is registered as they are, and wherever the frame is of
some sort, fails only with errors that do not concern placement. -/
structure Modest (holds : Frame → Prop) (step : Step α) : Prop where
  steady : Steady step
  keeps : Keeps Session.registered step
  elsewhere : ∀ s error t, holds s.frame → step s = (.error error, t) → error.Elsewhere

namespace Modest

variable {step : Step α} {next : α → Step β}

theorem of_plain (hs : Steady step) (hk : Keeps Session.registered step)
    (hr : Raises Error.Plain step) : Modest holds step :=
  ⟨hs, hk, fun s error t _ h => (hr.failed s error t h).elsewhere⟩

theorem pure (a : α) : Modest holds (pure a : Step α) :=
  .of_plain (steady_pure a) (.pure a) (.pure a)

theorem fail {cause : Cause} {token : Token} (h : cause.concernsPlacement = false) :
    Modest holds (fail cause token : Step α) := by
  refine ⟨steady_fail _ _, .throw _, fun s error t _ hs => ?_⟩
  cases hs
  exact h

theorem ofExcept {x : Except Error α} (h : ∀ error, x = .error error → error.Elsewhere) :
    Modest holds (ofExcept x : Step α) := by
  refine ⟨steady_ofExcept x, .ofExcept x, fun s error t _ hs => h error ?_⟩
  rw [Fallible.ofExcept_apply] at hs
  exact congrArg Prod.fst hs

theorem bind (h : Modest holds step) (hn : ∀ a, Modest holds (next a)) :
    Modest holds (step >>= next) := by
  refine ⟨.bind h.steady fun a => (hn a).steady, .bind h.keeps fun a => (hn a).keeps,
    fun s error t hf hs => ?_⟩
  rw [Fallible.bind_apply] at hs
  have hm := h.steady.moved s
  rcases hr : step s with ⟨other | a, between⟩
  · rw [hr] at hs
    cases hs
    exact h.elsewhere s _ _ hf hr
  · rw [hr] at hs hm
    exact (hn a).elsewhere between error t (hm ▸ hf) hs

theorem ite {c : Prop} [Decidable c] {other : Step α} (h : Modest holds step)
    (ho : Modest holds other) : Modest holds (if c then step else other) := by
  split
  · exact h
  · exact ho

theorem get_bind {next : Session → Step α}
    (h : ∀ s limit log, next (Session.withLog s limit log) = next s)
    (hn : ∀ s, Modest holds (next s)) : Modest holds (get >>= next) :=
  ⟨.get_bind h fun s => (hn s).steady, .bind .get fun s => (hn s).keeps,
    fun s => (hn s).elsewhere s⟩

theorem isSkimming_bind {next : Bool → Step α} (hn : ∀ b, Modest holds (next b)) :
    Modest holds (isSkimming >>= next) := by
  change Modest holds (get >>= fun s : Session => next s.isSkimming)
  exact .get_bind (fun _ _ _ => rfl) fun _ => hn _

end Modest

/-! ## Values -/

theorem keeps_check (body : Env → Check α) : Keeps Session.registered (check body) := fun _ => rfl

theorem modest_expression (tokens : List Token) (context : Token) :
    Modest holds (expression tokens context) :=
  .of_plain (steady_expression tokens context) (keeps_check _) (raises_expression tokens context)

theorem modest_condition (tokens : List Token) (keyword : Token) :
    Modest holds (condition tokens keyword) := by
  simp only [condition, fail_bind]
  exact .bind (modest_expression _ _) fun _ => .ite (.fail rfl) (.pure _)

theorem modest_rejectModifiers (modifiers : List Token) : Modest holds (rejectModifiers modifiers) := by
  unfold rejectModifiers
  split
  · exact .fail rfl
  · exact .pure _

theorem modest_tokenAt (tokens : List Token) (index : Nat) :
    Modest holds (ofExcept (Token.tokenAt tokens index) : Step Token) := by
  refine .ofExcept fun error h => ?_
  unfold Token.tokenAt at h
  split at h <;> cases h
  rfl

theorem modest_valueFrom (tokens : List Token) (index : Nat) :
    Modest holds (ofExcept (Token.valueFrom tokens index) : Step (List Token)) := by
  refine .ofExcept fun error h => ?_
  unfold Token.valueFrom at h
  split at h <;> cases h
  rfl

theorem modest_expectEnd (tokens : List Token) (length : Nat) :
    Modest holds (ofExcept (Token.expectEnd tokens length) : Step Bool) :=
  .ofExcept fun _ h => (Token.plain_of_expectEnd h).elsewhere

/-! ## Variables -/

theorem keeps_declareVariable (identifier : Token) (v : Variable) (isGlobal : Bool) :
    Keeps Session.registered (declareVariable identifier v isGlobal) := by
  intro s
  rw [declareVariable_apply]
  split
  · split
    · split
      next table h => exact congrArg (·, s.stdlib) (SymbolTable.withoutGlobals_addVariable h)
      next => rfl
    · rfl
  · split <;> rfl

theorem modest_evaluateVariable (form : VariableForm) (modifiers : List Token) (isGlobal : Bool) :
    Modest holds (evaluateVariable form modifiers isGlobal) := by
  have keeps (typed : Option Expr) :
      Keeps Session.registered (declareTyped form modifiers isGlobal typed) := by
    unfold declareTyped
    refine .bind (.ofExcept _) fun type => .bind (.ofExcept _) fun _ => ?_
    refine .bind (keeps_declareVariable _ _ _) fun _ => ?_
    split <;> exact .pure _
  refine .of_plain (steady_evaluateVariable _ _ _) ?_ (raises_evaluateVariable _ _ _)
  unfold evaluateVariable
  split
  · exact .bind (keeps_check _) fun _ => keeps _
  · exact keeps _

theorem modest_declareParameters (header : FunctionHeader) (parameters : List FunctionParameter) :
    Modest holds (declareParameters header parameters) := by
  refine .of_plain (steady_declareParameters _ _) ?_ (raises_declareParameters _ _)
  induction parameters with
  | nil => exact .pure _
  | cons parameter rest ih =>
    unfold declareParameters
    refine .bind .get fun s => ?_
    split
    · exact .bind (.modify fun _ => rfl) fun _ => ih
    · exact .throw _

/-! ## Statements inside functions -/

/-- Points inside of functions. -/
abbrev InFunction (frame : Frame) : Prop := frame.scopes.inFunction

theorem inFunction_frame (s : Session) : InFunction s.frame ↔ s.scopes.inFunction := by
  change s.scopes.bare.inFunction ↔ _
  rw [ScopeStack.inFunction_bare]

theorem modest_requireFunction (token : Token) (what : String) :
    Modest InFunction (requireFunction token what) := by
  refine ⟨steady_requireFunction _ _, .bind .get fun s => .ite (.throw _) (.pure _),
    fun s error t hf h => ?_⟩
  have hok : requireFunction token what s = (.ok (), s) :=
    requireFunction_eq_ok.2 ⟨(inFunction_frame s).1 hf, rfl⟩
  rw [hok] at h
  cases h

theorem modest_assignStatement (identifier operator : Token) (value : Expr) :
    Modest holds (assignStatement identifier operator value) := by
  refine .of_plain (steady_assignStatement _ _ _) ?_ (raises_assignStatement _ _ _)
  unfold assignStatement
  refine .bind (.bind .get fun _ => .pure _) fun _ => .ite (.pure _) ?_
  exact .bind (keeps_check _) fun _ => .pure _

theorem modest_actionStatement (tokens modifiers : List Token) :
    Modest InFunction (actionStatement tokens modifiers) := by
  unfold actionStatement
  refine .bind (modest_rejectModifiers _) fun _ => .bind (modest_tokenAt _ _) fun identifier => ?_
  refine .bind (modest_requireFunction _ _) fun _ => .bind (modest_tokenAt _ _) fun next => ?_
  split
  · refine .isSkimming_bind fun _ => .ite (.pure _) (.bind (modest_expression _ _) fun value => ?_)
    split
    · exact .pure _
    · exact .fail rfl
  · exact .bind (modest_expectEnd _ _) fun _ => .ite (modest_assignStatement _ _ _) (.pure _)
  · exact .bind (modest_expectEnd _ _) fun _ => .ite (modest_assignStatement _ _ _) (.pure _)
  · refine .isSkimming_bind fun _ => .ite (.pure _) (.bind (modest_valueFrom _ _) fun _ => ?_)
    exact .bind (modest_expression _ _) fun _ => modest_assignStatement _ _ _
  · exact .fail rfl

theorem modest_returnStatement (tokens modifiers : List Token) :
    Modest InFunction (returnStatement tokens modifiers) := by
  simp only [returnStatement, fail_bind]
  refine .bind (modest_rejectModifiers _) fun _ => .bind (modest_tokenAt _ _) fun keyword => ?_
  refine .bind (modest_requireFunction _ _) fun _ => .isSkimming_bind fun _ => .ite (.pure _) ?_
  refine .get_bind (fun _ _ _ => rfl) fun s => ?_
  split
  · refine .ite (.ite (.fail rfl) (.pure _)) (.ite (.fail rfl) ?_)
    exact .bind (modest_expression _ _) fun _ => .ite (.fail rfl) (.pure _)
  · exact .ite (.pure _) (.bind (modest_expression _ _) fun _ => .pure _)

end Step

end MuLang
