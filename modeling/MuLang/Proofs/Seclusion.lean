import MuLang.Proofs.Placement

/-!
# What functions keep to themselves

Outside of functions there are no locals, and inside of functions nothing is declared that can be
seen outside. So a function leaves neither a local nor a global behind, whether or not its
statements get through.
-/
namespace MuLang

namespace ScopeStack

/-- None of some scopes, innermost first, declares a local unless it is in a function. -/
def TidyIn : List Scope → Prop
  | [] => True
  | scope :: outer => (scope.locals = [] ∨ (scope :: outer).any (·.kind = .function)) ∧ TidyIn outer

/-- Outside of functions no locals are declared. -/
def Tidy (scopes : ScopeStack) : Prop := TidyIn scopes.nested ∧ scopes.outermost.locals = []

variable {scopes other : ScopeStack} {nested : List Scope}

theorem any_function_unmarked (nested : List Scope) :
    (nested.map Scope.unmarked).any (·.kind = .function) = nested.any (·.kind = .function) := by
  rw [List.any_map]
  rfl

theorem tidyIn_unmarked : TidyIn (nested.map Scope.unmarked) ↔ TidyIn nested := by
  induction nested with
  | nil => rfl
  | cons scope outer ih =>
    have hl : scope.unmarked.locals = [] ↔ scope.locals = [] := List.map_eq_nil_iff
    rw [List.map_cons, TidyIn, TidyIn, ih, hl, ← List.map_cons, any_function_unmarked]

/-- Whether locals have a value does not matter. -/
theorem Tidy.congr (h : scopes.Tidy) (hu : other.unmarked = scopes.unmarked) : other.Tidy := by
  have hnested : other.nested.map Scope.unmarked = scopes.nested.map Scope.unmarked :=
    congrArg ScopeStack.nested hu
  have houter : other.outermost.locals.map Variable.unmarked =
      scopes.outermost.locals.map Variable.unmarked :=
    congrArg (fun scopes => scopes.outermost.locals) hu
  refine ⟨tidyIn_unmarked.1 (hnested ▸ tidyIn_unmarked.2 h.1), ?_⟩
  rwa [h.2, List.map_nil, List.map_eq_nil_iff] at houter

theorem Tidy.enter (h : scopes.Tidy) {scope : Scope} (hs : scope.locals = []) :
    (scopes.enter scope).Tidy :=
  ⟨⟨.inl hs, h.1⟩, h.2⟩

/-- In a function locals may be declared. -/
theorem Tidy.addLocal (h : scopes.Tidy) (hf : scopes.inFunction) {v : Variable}
    (ha : scopes.addLocal v = .ok other) : other.Tidy := by
  unfold ScopeStack.addLocal at ha
  split at ha
  · cases ha
  · cases ha
    rcases scopes with ⟨_ | ⟨scope, outer⟩, outermost⟩
    · cases hf
    · exact ⟨⟨.inr hf, h.1.2⟩, h.2⟩

theorem tidyIn_drop {count : Nat} (h : TidyIn nested) : TidyIn (nested.drop count) := by
  induction nested generalizing count with
  | nil => rwa [List.drop_nil]
  | cons scope outer ih =>
    cases count with
    | zero => exact h
    | succ count => exact ih h.2

theorem Tidy.pop (h : scopes.Tidy) : scopes.pop.Tidy := by
  refine ⟨?_, h.2⟩
  rw [ScopeStack.pop, ← List.drop_one]
  exact tidyIn_drop h.1

theorem Tidy.popBlock? (h : scopes.Tidy) (hp : scopes.popBlock? = some other) : other.Tidy := by
  have hn : scopes.nested ≠ [] := by
    intro hn
    simp [ScopeStack.popBlock?, pop?, hn] at hp
  rw [popBlock?_of_ne_nil hn] at hp
  cases hp
  split
  · exact h.pop.pop
  · exact h.pop

theorem Tidy.insideBlock (h : scopes.Tidy) (size : Nat) (kind : ScopeKind) :
    (scopes.insideBlock size kind).Tidy := by
  unfold ScopeStack.insideBlock
  split
  · exact h.enter rfl
  · exact h

theorem map_bare_of_tidyIn (h : TidyIn nested) (hf : nested.any (·.kind = .function) = false) :
    nested.map Scope.bare = nested := by
  induction nested with
  | nil => rfl
  | cons scope outer ih =>
    obtain ⟨hl, houter⟩ := h
    rw [hf] at hl
    rw [List.any_cons, Bool.or_eq_false_iff] at hf
    have hs : scope.bare = scope := by
      rw [Scope.bare, ← hl.resolve_right Bool.false_ne_true]
    rw [List.map_cons, hs, ih houter hf.2]

/-- Outside of functions the shape of tidy scopes is all there is to them. -/
theorem Tidy.bare_eq (h : scopes.Tidy) (hf : scopes.inFunction = false) : scopes.bare = scopes := by
  have ho : scopes.outermost.bare = scopes.outermost := by
    rw [Scope.bare, ← h.2]
  rw [bare, map_bare_of_tidyIn h.1 hf, ho]

theorem Tidy.eq_of_bare_eq (h : scopes.Tidy) (ho : other.Tidy) (hf : scopes.inFunction = false)
    (hb : scopes.bare = other.bare) : scopes = other := by
  have hof : other.inFunction = false := by
    rw [← inFunction_bare, ← hb, inFunction_bare, hf]
  rw [← h.bare_eq hf, hb, ho.bare_eq hof]

/-- The innermost block can hold statements of a function alone. -/
def Inner (scopes : ScopeStack) : Prop :=
  scopes.currentKind ≠ .program ∧ scopes.currentKind ≠ .module

theorem Inner.congr (h : scopes.Inner) (hb : other.bare = scopes.bare) : other.Inner := by
  unfold Inner at *
  rwa [← currentKind_bare, hb, currentKind_bare]

end ScopeStack

namespace Session

/-- What of a session outlasts a function: the declarations, those whose types are yet to be
inferred, and the mode. -/
def lasting (session : Session) : SymbolTable × List DeferredGlobal × Bool :=
  (session.table, session.deferred, session.stdlib)

/-- From a session to a later one outside of functions no locals have been declared, and inside of
functions nothing else. -/
structure Secludes (s t : Session) : Prop where
  tidy : s.scopes.Tidy → t.scopes.Tidy
  inner : s.scopes.Inner → t.scopes.Inner ∧ t.table = s.table ∧ t.deferred = s.deferred
  stdlib_eq : t.stdlib = s.stdlib

theorem not_inner_of_admits {s : Session} (h : s.admitsGlobals) : ¬s.scopes.Inner := by
  rintro ⟨hp, hm⟩
  unfold admitsGlobals at h
  split at h
  next hk => exact hm hk
  next hk => exact hp hk
  next => cases h

namespace Secludes

variable {s t u : Session}

theorem refl (s : Session) : s.Secludes s := ⟨id, fun h => ⟨h, rfl, rfl⟩, rfl⟩

theorem trans (h : s.Secludes t) (hu : t.Secludes u) : s.Secludes u := by
  refine ⟨fun hs => hu.tidy (h.tidy hs), fun hs => ?_, hu.stdlib_eq.trans h.stdlib_eq⟩
  obtain ⟨ht, htable, hdeferred⟩ := h.inner hs
  obtain ⟨hu, htable', hdeferred'⟩ := hu.inner ht
  exact ⟨hu, htable'.trans htable, hdeferred'.trans hdeferred⟩

instance : Std.Refl Secludes := ⟨refl⟩

instance : Trans Secludes Secludes Secludes := ⟨trans⟩

/-- Scopes may change as long as locals are declared in functions alone. -/
theorem of_scopes {scopes : ScopeStack} (ht : s.scopes.Tidy → scopes.Tidy)
    (hi : s.scopes.Inner → scopes.Inner) : s.Secludes { s with scopes } :=
  ⟨ht, fun h => ⟨hi h, rfl, rfl⟩, rfl⟩

theorem enter {scope : Scope} (hl : scope.locals = []) (hp : scope.kind ≠ .program)
    (hm : scope.kind ≠ .module) : s.Secludes { s with scopes := s.scopes.enter scope } :=
  of_scopes (fun h => h.enter hl) fun _ => ⟨hp, hm⟩

theorem report (s : Session) (error : Error) : s.Secludes (s.report error) :=
  ⟨id, fun h => ⟨h, rfl, rfl⟩, rfl⟩

/-- Outside of functions anything may be declared. -/
theorem of_outer (h : ¬s.scopes.Inner) (ht : s.scopes.Tidy → t.scopes.Tidy)
    (hm : t.stdlib = s.stdlib) : s.Secludes t :=
  ⟨ht, fun hi => absurd hi h, hm⟩

end Secludes

end Session

namespace Step

variable {α β : Type} {holds : Session → Prop} {step : Step α}

/-- However a step ends, it declares locals in functions alone, and nothing else inside of them. -/
def SecludesIf (holds : Session → Prop) (step : Step α) : Prop :=
  ∀ s : Session, holds s → s.Secludes (step s).2

abbrev Secludes (step : Step α) : Prop := SecludesIf (fun _ => True) step

namespace SecludesIf

open Fallible (RelatesIf)

theorem of_secludes (h : Secludes step) : SecludesIf holds step := RelatesIf.of_relates h

theorem pure (a : α) : SecludesIf holds (pure a : Step α) := RelatesIf.pure a

theorem throw {error : Error} : SecludesIf holds (throw error : Step α) := RelatesIf.throw error

theorem fail {cause : Cause} {token : Token} :
    SecludesIf holds (fail cause token : Step α) :=
  .throw

theorem ofExcept (x : Except Error α) : SecludesIf holds (ofExcept x : Step α) :=
  RelatesIf.ofExcept x

/-- What follows a step may rely on what the step finds out. -/
theorem bind_after {p : α → Session → Prop} {next : α → Step β} (h : SecludesIf holds step)
    (ha : ∀ s a t, holds s → step s = (.ok a, t) → p a t) (hn : ∀ a, SecludesIf (p a) (next a)) :
    SecludesIf holds (step >>= next) :=
  RelatesIf.bind_after h ha hn

theorem bind {next : α → Step β} (h : SecludesIf holds step) (hn : ∀ a, Secludes (next a)) :
    SecludesIf holds (step >>= next) :=
  RelatesIf.bind h hn

theorem map (g : α → β) (h : SecludesIf holds step) : SecludesIf holds (g <$> step) :=
  RelatesIf.map g h

theorem ite {c : Prop} [Decidable c] {other : Step α} (h : SecludesIf holds step)
    (ho : SecludesIf holds other) : SecludesIf holds (if c then step else other) :=
  RelatesIf.ite h ho

theorem get_bind {next : Session → Step α} (hn : ∀ s : Session, s.Secludes (next s s).2) :
    SecludesIf holds (get >>= next) :=
  RelatesIf.get_bind fun s _ => hn s

/-- It need not matter that the session is the one that has been read. -/
theorem read_bind {next : Session → Step α} (hn : ∀ s, SecludesIf holds (next s)) :
    SecludesIf holds (get >>= next) :=
  RelatesIf.read_bind hn

theorem fork {first second : Step α} (h : SecludesIf holds first) (ho : SecludesIf holds second) :
    SecludesIf holds (isSkimming >>= fun skimming => if skimming then first else second) := by
  intro s hs
  change s.Secludes ((if s.isSkimming then first else second) s).2
  split
  · exact h s hs
  · exact ho s hs

end SecludesIf

/-! ## Checks

What only looks at the session leaves it as it is, and a report adds an error. -/

section Checks

open Fallible (Relates RelatesIf)

variable {R : Session → Session → Prop}

theorem relates_reporting [Trans R R R] {step : Step (Option α)} (h : RelatesIf holds R step)
    (hr : ∀ s error, R s (s.report error)) : RelatesIf holds R (reporting step) := by
  intro s hs
  have hstep := h s hs
  unfold reporting
  rcases hx : step s with ⟨error | a, t⟩
  · rw [hx] at hstep
    exact Trans.trans hstep (hr t error)
  · rwa [hx] at hstep

variable [Std.Refl R]

theorem relates_rejectModifiers (modifiers : List Token) :
    Relates R (rejectModifiers modifiers) := by
  unfold rejectModifiers
  split
  · exact .throw _
  · exact .pure _

theorem relates_rejectInvalidModifiers (modifiers : List Token) (target : String)
    (invalid : Modifier → Bool) : Relates R (rejectInvalidModifiers modifiers target invalid) := by
  unfold rejectInvalidModifiers
  split
  · exact .throw _
  · exact .pure _

theorem relates_requireFunction (token : Token) (what : String) :
    Relates R (requireFunction token what) :=
  .read_bind fun _ => .ite (.throw _) (.pure _)

theorem relates_checkFunctionPlacement (keyword : Token) (modifiers : List Token) :
    Relates R (checkFunctionPlacement keyword modifiers) := by
  simp only [checkFunctionPlacement, fail_bind]
  exact .read_bind fun _ => .ite (.throw _) (relates_rejectInvalidModifiers _ _ _)

theorem relates_expectStart (tokens : List Token) (keyword : Token) (accepts : Kind → Bool)
    (expected : String) : Relates R (expectStart tokens keyword accepts expected) := by
  rw [expectStart]
  split
  · exact .ite (.pure _) (.throw _)
  · exact .throw _

end Checks

/-! ## Parts of statements -/

theorem secludes_check {body : Env → Check α}
    (h : ∀ env, Fallible.Keeps ScopeStack.unmarked (body env)) : Secludes (check body) := by
  intro s _
  have hk := h s.env s.scopes
  exact .of_scopes (fun ht => ht.congr hk) fun hi =>
    hi.congr (ScopeStack.bare_eq_of_unmarked_eq hk)

theorem secludes_expression (tokens : List Token) (context : Token) :
    Secludes (expression tokens context) :=
  secludes_check fun env => env.keeps_expression tokens context

theorem secludes_condition (tokens : List Token) (keyword : Token) :
    Secludes (condition tokens keyword) := by
  simp only [condition, fail_bind]
  exact .bind (secludes_expression _ _) fun _ => .ite .fail (.pure _)

theorem secludes_push {kind : ScopeKind} (hk : kind ≠ .program ∧ kind ≠ .module) :
    Secludes (changeScopes (·.push kind)) := fun _ _ => .enter rfl hk.1 hk.2

/-! ## Modules and functions -/

/-- Points outside of functions. -/
abbrev Outer (s : Session) : Prop := ¬s.scopes.Inner

theorem secludes_pushIn (path : ModulePath) :
    SecludesIf Outer (changeScopes (·.pushIn .module path)) :=
  fun _ h => .of_outer h (fun ht => ht.enter rfl) rfl

theorem secludes_moduleStatement (tokens modifiers : List Token) :
    Secludes (moduleStatement tokens modifiers) := by
  have enter (path : ModulePath) (identifier : Token) : SecludesIf Outer
      (changeScopes (·.pushIn .module path) >>= fun _ => isSkimming >>= fun skimming =>
        if skimming then pure none else pure (some (Stmt.module identifier []))) :=
    .bind (secludes_pushIn _) fun _ => .fork (.pure _) (.pure _)
  simp only [moduleStatement, fail_bind, Fallible.throw_bind]
  refine .bind (relates_rejectModifiers _) fun _ => .bind (.ofExcept _) fun identifier => ?_
  iterate 3 refine .bind (.ofExcept _) fun _ => ?_
  refine .get_bind fun s => ?_
  split
  · exact .refl s
  next hk =>
    -- The module is added if it is new, and the step goes on inside of it.
    have ho : Outer s := fun hi => hk hi
    refine SecludesIf.read_bind (fun t => .ite (.read_bind fun t => ?_) (enter _ _)) s ho
    split
    · exact .bind_after (p := fun _ => Outer) (fun s h => .of_outer h id rfl)
        (fun s _ t h hs => by obtain rfl := Fallible.modify_eq_ok.1 hs; exact h) fun _ => enter _ _
    · exact .throw

theorem secludes_registerFunction (definition : FunctionDefinition) :
    SecludesIf Outer (registerFunction definition) := by
  intro s ho
  have run : registerFunction definition s = (.ok (), _) := registerFunction_eq_ok.2 rfl
  rw [run]
  exact .of_outer ho id rfl

theorem secludes_declareParameters (header : FunctionHeader) (parameters : List FunctionParameter) :
    SecludesIf (fun s => s.scopes.inFunction) (declareParameters header parameters) := by
  induction parameters with
  | nil => exact .pure _
  | cons parameter rest ih =>
    rw [declareParameters]
    intro s hf
    rw [Fallible.bind_of_ok (Fallible.get_apply _)]
    cases hadd : s.scopes.addLocal
      ⟨parameter.name, parameter.datatype, parameter.modifiers, true⟩ with
    | error conflict => exact .refl s
    | ok scopes =>
      have hb := ScopeStack.bare_of_addLocal hadd
      have hadded : s.Secludes { s with scopes } :=
        .of_scopes (fun ht => ht.addLocal hf hadd) fun hi => hi.congr hb
      refine hadded.trans (ih { s with scopes } ?_)
      dsimp only
      rwa [← ScopeStack.inFunction_bare, hb, ScopeStack.inFunction_bare]

/-- What is worked out from the tokens alone changes nothing. -/
theorem outer_of_ofExcept (x : Except Error α) (s : Session) (a : α) (t : Session) (ho : Outer s)
    (h : (ofExcept x : Step α) s = (.ok a, t)) : Outer t := by
  obtain ⟨-, rfl⟩ := Fallible.ofExcept_eq_ok.1 h
  exact ho

theorem outer_of_checkFunctionPlacement (keyword : Token) (modifiers : List Token) (s : Session)
    (u : Unit) (t : Session) (h : checkFunctionPlacement keyword modifiers s = (.ok u, t)) :
    Outer t := by
  obtain ⟨hg, -, rfl⟩ := checkFunctionPlacement_eq_ok.1 h
  exact Session.not_inner_of_admits hg

theorem secludes_functionStatement (tokens modifiers : List Token) :
    Secludes (functionStatement tokens modifiers) := by
  have enter (type : Datatype) : Secludes (changeScopes (·.pushFunction type)) :=
    fun _ _ => .enter rfl nofun nofun
  rw [functionStatement]
  refine .bind (.ofExcept _) fun _ => ?_
  refine .bind_after (relates_checkFunctionPlacement _ _)
    (fun s u t _ h => outer_of_checkFunctionPlacement _ _ s u t h) fun _ => ?_
  refine .bind_after (.ofExcept _) (outer_of_ofExcept _) fun signature => ?_
  refine .bind_after (.ofExcept _) (outer_of_ofExcept _) fun definition => .fork ?_ ?_
  · refine .bind (secludes_registerFunction _) fun _ => .bind (enter _) fun _ => .pure _
  · refine .bind_after (p := fun _ s => s.scopes.inFunction) (.of_secludes (enter _))
      (fun s _ t _ h => ?_) fun _ => .bind (secludes_declareParameters _ _) fun _ => .pure _
    obtain rfl := changeScopes_eq_ok.1 h
    rfl

theorem secludes_nativeStatement (tokens modifiers : List Token) :
    Secludes (nativeStatement tokens modifiers) := by
  simp only [nativeStatement, fail_bind]
  refine .bind (.ofExcept _) fun _ => ?_
  refine .bind_after (relates_checkFunctionPlacement _ _)
    (fun s u t _ h => outer_of_checkFunctionPlacement _ _ s u t h) fun _ => .ite ?_ ?_
  · exact .bind (.ofExcept _) fun _ => .fail
  · iterate 4 refine .bind_after (.ofExcept _) (outer_of_ofExcept _) fun _ => ?_
    exact .fork (.bind (secludes_registerFunction _) fun _ => .pure _) (.pure _)

/-! ## Variables -/

theorem secludes_registerGlobal (module : ModulePath) (identifier : Token) (modifiers : List Token)
    (type : Datatype) : SecludesIf Outer (registerGlobal module identifier modifiers type) := by
  intro s ho
  have run : registerGlobal module identifier modifiers type s = (.ok (), _) :=
    registerGlobal_eq_ok.2 rfl
  rw [run]
  exact .of_outer ho id rfl

theorem secludes_skimGlobal (typeKeyword identifier : Token) (modifiers : List Token)
    (value : Option (List Token)) :
    SecludesIf Outer (skimGlobal typeKeyword identifier modifiers value) := by
  rw [skimGlobal]
  refine .read_bind fun s => ?_
  dsimp only
  split
  next value _ =>
    refine .bind_after (p := fun _ => Outer) (fun s ho => ?_) (fun s type? t ho h => ?_) fun _ => ?_
    · have he := secludes_expression value typeKeyword s trivial
      unfold inferGlobal?
      rcases hr : expression value typeKeyword s with ⟨error | typed, after⟩ <;> rwa [hr] at he
    · have hs : t.frame = s.frame := (steady_inferGlobal? _).frame_eq h
      have hb : t.scopes.bare = s.scopes.bare := congrArg Frame.scopes hs
      exact fun hi => ho (hi.congr hb.symm)
    · split
      · exact secludes_registerGlobal _ _ _ _
      · exact fun s ho => .of_outer ho id rfl
  · split
    · exact secludes_registerGlobal _ _ _ _
    · exact .pure _

/-- Where a variable is declared: a global outside of functions, and a local inside. -/
abbrev Places (isGlobal : Bool) (s : Session) : Prop :=
  (isGlobal → Outer s) ∧ (isGlobal = false → s.scopes.inFunction)

theorem Places.congr {isGlobal : Bool} {s t : Session} (h : Places isGlobal s)
    (hs : t.frame = s.frame) : Places isGlobal t := by
  have hb : t.scopes.bare = s.scopes.bare := congrArg Frame.scopes hs
  refine ⟨fun hg hi => h.1 hg (hi.congr hb.symm), fun hg => ?_⟩
  rw [← ScopeStack.inFunction_bare, hb, ScopeStack.inFunction_bare]
  exact h.2 hg

theorem secludes_declareVariable (identifier : Token) (v : Variable) (isGlobal : Bool) :
    SecludesIf (Places isGlobal) (declareVariable identifier v isGlobal) := by
  intro s hp
  rw [declareVariable_apply]
  split
  next hg =>
    have ho := hp.1 hg
    split
    · split <;> exact .of_outer ho id rfl
    · exact .refl s
  next hg =>
    split
    next scopes hadd =>
      exact .of_scopes (fun ht => ht.addLocal (hp.2 (Bool.eq_false_iff.2 hg)) hadd) fun hi =>
        hi.congr (ScopeStack.bare_of_addLocal hadd)
    next => exact .refl s

theorem secludes_evaluateVariable (form : VariableForm) (modifiers : List Token) (isGlobal : Bool) :
    SecludesIf (Places isGlobal) (evaluateVariable form modifiers isGlobal) := by
  have keep {α : Type} {step : Step α} (hs : Steady step) (s : Session) (a : α) (t : Session)
      (hp : Places isGlobal s) (h : step s = (.ok a, t)) : Places isGlobal t :=
    Places.congr hp (hs.frame_eq h)
  have typed (value : Option Expr) :
      SecludesIf (Places isGlobal) (declareTyped form modifiers isGlobal value) := by
    rw [declareTyped]
    refine .bind_after (.ofExcept _) (keep (steady_ofExcept _)) fun type => ?_
    refine .bind_after (.ofExcept _) (keep (steady_ofExcept _)) fun _ => ?_
    refine .bind (secludes_declareVariable _ _ _) fun _ => ?_
    split <;> exact .pure _
  rw [evaluateVariable]
  split
  · exact .bind_after (.of_secludes (secludes_expression _ _)) (keep (steady_expression _ _))
      fun _ => typed _
  · exact typed _

theorem secludes_variableStatement (tokens modifiers : List Token) :
    Secludes (variableStatement tokens modifiers) := by
  rw [variableStatement]
  refine .bind (.ofExcept _) fun form => ?_
  have place : Secludes (placeVariable form modifiers) := by
    simp only [placeVariable, fail_bind]
    refine .read_bind fun s => .read_bind fun _ => .ite .fail (.ite (.ite .fail (.pure _)) ?_)
    exact .bind (relates_rejectInvalidModifiers _ _ _) fun _ => .pure _
  refine .bind_after (p := Places) place (fun s isGlobal t _ h => ?_) fun isGlobal => .fork ?_ ?_
  · obtain ⟨hg, hf, rfl⟩ := placeVariable_ok h
    exact ⟨fun ht => Session.not_inner_of_admits (hg ▸ ht), hf⟩
  · split
    next hg =>
      refine .bind (fun s hp => ?_) fun _ => .pure _
      exact secludes_skimGlobal _ _ _ _ s (hp.1 hg)
    next => exact .pure _
  · exact secludes_evaluateVariable _ _ _

/-! ## Statements of function bodies -/

theorem secludes_assignStatement (identifier operator : Token) (value : Expr) :
    Secludes (assignStatement identifier operator value) := by
  rw [assignStatement]
  refine .fork (.pure _) (.bind ?_ fun _ => .pure _)
  exact secludes_check fun env => env.keeps_store identifier operator value

theorem secludes_actionStatement (tokens modifiers : List Token) :
    Secludes (actionStatement tokens modifiers) := by
  rw [actionStatement]
  refine .bind (relates_rejectModifiers _) fun _ => .bind (.ofExcept _) fun identifier => ?_
  refine .bind (relates_requireFunction _ _) fun _ => .bind (.ofExcept _) fun next => ?_
  split
  · refine .fork (.pure _) (.bind (secludes_expression _ _) fun value => ?_)
    split
    · exact .pure _
    · exact .fail
  · exact .bind (.ofExcept _) fun _ => .ite (secludes_assignStatement _ _ _) (.pure _)
  · exact .bind (.ofExcept _) fun _ => .ite (secludes_assignStatement _ _ _) (.pure _)
  · refine .fork (.pure _) (.bind (.ofExcept _) fun _ => ?_)
    exact .bind (secludes_expression _ _) fun _ => secludes_assignStatement _ _ _
  · exact .fail

theorem secludes_ifStatement (tokens modifiers : List Token) :
    Secludes (ifStatement tokens modifiers) := by
  rw [ifStatement]
  refine .bind (relates_rejectModifiers _) fun _ => .bind (.ofExcept _) fun keyword => ?_
  refine .bind (relates_requireFunction _ _) fun _ => .bind (secludes_push (by decide)) fun _ => ?_
  exact .fork (.pure _) (.bind (secludes_condition _ _) fun _ => .pure _)

theorem secludes_whileStatement (tokens modifiers : List Token) :
    Secludes (whileStatement tokens modifiers) := by
  rw [whileStatement]
  refine .bind (relates_rejectModifiers _) fun _ => .bind (.ofExcept _) fun keyword => ?_
  refine .bind (relates_requireFunction _ _) fun _ => .bind (secludes_push (by decide)) fun _ => ?_
  exact .fork (.pure _) (.bind (secludes_condition _ _) fun _ => .pure _)

theorem secludes_returnStatement (tokens modifiers : List Token) :
    Secludes (returnStatement tokens modifiers) := by
  simp only [returnStatement, fail_bind]
  refine .bind (relates_rejectModifiers _) fun _ => .bind (.ofExcept _) fun keyword => ?_
  refine .bind (relates_requireFunction _ _) fun _ => .fork (.pure _) (.read_bind fun s => ?_)
  split
  · refine .ite (.ite .fail (.pure _)) (.ite .fail ?_)
    exact .bind (secludes_expression _ _) fun _ => .ite .fail (.pure _)
  · exact .ite (.pure _) (.bind (secludes_expression _ _) fun _ => .pure _)

theorem secludes_loopStatement (keyword : Token) (init test step : List Token) :
    Secludes (loopStatement keyword init test step) := by
  simp only [loopStatement, fail_bind]
  refine .bind (relates_expectStart _ _ _ _) fun _ => .bind (relates_expectStart _ _ _ _) fun _ =>
    .fork ?_ ?_
  · refine .bind (relates_reporting (secludes_variableStatement _ _) .report) fun _ => .ite .fail ?_
    exact .bind (secludes_push (by decide)) fun _ => .pure _
  · refine .bind (secludes_variableStatement _ _) fun declared => ?_
    split
    · exact .pure _
    · exact .fail
    · refine .bind (secludes_condition _ _) fun _ =>
        .bind (secludes_actionStatement _ _) fun _ => ?_
      split
      · exact .pure _
      · exact .bind (secludes_push (by decide)) fun _ => .pure _

theorem secludes_forStatement (tokens modifiers : List Token) :
    Secludes (forStatement tokens modifiers) := by
  simp only [forStatement]
  refine .bind (relates_rejectModifiers _) fun _ => .bind (.ofExcept _) fun keyword => ?_
  refine .bind (relates_requireFunction _ _) fun _ => .bind (secludes_push (by decide)) fun _ => ?_
  split
  · exact secludes_loopStatement _ _ _ _
  · split
    · exact .ite (secludes_loopStatement _ _ _ _) .fail
    · exact .fail
  · exact .fail

/-! ## Any statement -/

/-- The statement that ends standard-library mode does nothing else. -/
theorem finishStatement_cases (tokens modifiers : List Token) (s : Session) :
    (finishStatement tokens modifiers s).2 = s ∨
      (finishStatement tokens modifiers s).2 = { s with stdlib := false } := by
  unfold finishStatement
  cases modifiers with
  | cons modifier rest => exact .inl rfl
  | nil =>
    rw [Fallible.bind_of_ok (a := ()) (rejectModifiers_eq_ok.2 ⟨rfl, rfl⟩), Fallible.bind_apply,
      Fallible.ofExcept_apply]
    cases Token.tokenAt tokens 0 with
    | error error => exact .inl rfl
    | ok keyword =>
      dsimp only
      rw [Fallible.bind_apply, Fallible.ofExcept_apply]
      rcases Token.expectEnd tokens 2 with error | _ | _
      · exact .inl rfl
      · exact .inl rfl
      · refine .inr ?_
        change ((if s.isSkimming then pure none else pure (some (Stmt.stdlibFinish keyword)) :
          Step (Option Stmt)) { s with stdlib := false }).2 = _
        split <;> rfl

/-- Only the statement that ends standard-library mode has an effect outside of functions. -/
theorem secludes_statement (tokens : List Token) : Secludes (statement tokens) ∨
    ∃ first rest, Token.afterModifiers tokens = first :: rest ∧
      first.kind = .keyword .finishWord ∧
      statement tokens = finishStatement (first :: rest) (Token.leadingModifiers tokens) := by
  simp only [statement, fail_bind]
  split
  next => exact .inl (.pure _)
  next first more hr =>
    split
    · exact .inl (secludes_moduleStatement _ _)
    · exact .inl (secludes_functionStatement _ _)
    · exact .inl (secludes_nativeStatement _ _)
    · exact .inl (.map _ (secludes_ifStatement _ _))
    · exact .inl (secludes_whileStatement _ _)
    · exact .inl (secludes_forStatement _ _)
    · exact .inl (secludes_returnStatement _ _)
    next hk => exact .inr ⟨first, more, hr, hk, by rw [hr]⟩
    · exact .inl (.map _ (secludes_actionStatement _ _))
    · exact .inl (.map _ (secludes_variableStatement _ _))
    · exact .inl (.map _ (secludes_variableStatement _ _))
    · exact .inl (.ite .fail (.ite .fail (.pure _)))
    · exact .inl .fail

theorem secludes_closed (tokens : List Token) : Secludes (closed tokens) ∨
    ∃ first rest, Token.afterModifiers tokens = first :: rest ∧
      first.kind = .keyword .finishWord ∧
      closed tokens = finishStatement (first :: rest) (Token.leadingModifiers tokens) := by
  simp only [closed]
  split
  · exact .inl (.bind (.ofExcept _) fun _ => .fail)
  · exact secludes_statement tokens

theorem secludes_elseOwner (chain : Chain) (tokens modifiers : List Token) :
    Secludes (elseOwner chain tokens modifiers) := by
  simp only [elseOwner, fail_bind]
  refine .bind (relates_rejectModifiers _) fun _ => .bind (.ofExcept _) fun keyword => ?_
  refine .ite .fail (.bind (.ofExcept _) fun next => .ite (.pure _) (.ite ?_ .fail))
  exact .map _ (secludes_ifStatement _ _)

theorem secludes_owner (chain : Chain) (tokens : List Token) : Secludes (owner chain tokens) := by
  simp only [owner]
  split
  · exact .bind (.ofExcept _) fun _ => .fail
  next kind hb =>
    refine .ite (secludes_elseOwner _ _ _) (.map _ ((secludes_statement tokens).resolve_right ?_))
    rintro ⟨first, rest, hr, hk, -⟩
    simp [Token.block?, hr, hk, Kind.block?] at hb

end Step

namespace Reading

variable {reading later : Reading} {tokens : List Token} {token : Token}

/-- Locals are declared in functions alone. -/
abbrev Tidy (reading : Reading) : Prop := reading.session.scopes.Tidy

theorem tidy_run {α : Type} {step : Step (Option α)} (hs : (step reading.session).2.scopes.Tidy) :
    (reading.run step).2.Tidy := by
  rw [run_eq]
  rcases hr : step reading.session with ⟨error | result, session⟩ <;> rwa [hr] at hs

theorem tidy_closeBlock (h : reading.Tidy) (brace : Token) : (reading.closeBlock brace).Tidy := by
  unfold closeBlock
  split
  · exact h
  · dsimp only
    split
    · exact h
    next hp =>
      rw [Tidy, session_changeBody]
      exact ScopeStack.Tidy.popBlock? h hp

theorem tidy_step (h : reading.Tidy) (token : Token) : (reading.step token).Tidy := by
  unfold step
  split
  next =>
    rw [endStatement_eq, Tidy, session_changeBody]
    refine @tidy_run { reading with current := [] } _ _ ?_
    obtain hs | ⟨first, rest, -, -, hf⟩ := Step.secludes_closed (reading.current ++ [token])
    · exact (hs reading.session trivial).tidy h
    · rw [hf]
      obtain hs | hs := Step.finishStatement_cases (first :: rest) _ reading.session <;> rwa [hs]
  next =>
    refine ScopeStack.Tidy.insideBlock (@tidy_run { reading with current := [] } _ _ ?_) _ _
    exact (Step.secludes_owner _ _ reading.session trivial).tidy h
  next =>
    split
    · exact tidy_closeBlock h token
    · exact @tidy_closeBlock (report { reading with current := [] } _) h token
  next => exact h

theorem tidy_of_passes {session : Session} {pass : Pass} {read : List Token}
    (h : (start session pass).Passes read later) : later.Tidy :=
  @Passes.preserves _ _ _ Tidy h (fun _ _ ht _ => tidy_step ht _) ⟨trivial, rfl⟩

theorem lasting_run {α : Type} {step : Step (Option α)} (h : step.Secludes)
    (hi : reading.session.scopes.Inner) :
    (reading.run step).2.session.lasting = reading.session.lasting := by
  have hs := h reading.session trivial
  obtain ⟨-, ht, hd⟩ := hs.inner hi
  have hm := hs.stdlib_eq
  rw [run_eq]
  rcases hr : step reading.session with ⟨error | result, session⟩ <;> rw [hr] at ht hd hm <;>
    exact congrArg₂ Prod.mk ht (congrArg₂ Prod.mk hd hm)

theorem lasting_closeBlock (reading : Reading) (brace : Token) :
    (reading.closeBlock brace).session.lasting = reading.session.lasting := by
  unfold closeBlock
  split
  · rfl
  · dsimp only
    split
    · rfl
    · rw [session_changeBody]
      rfl

/-- Inside of a function nothing changes that lasts, but where standard-library mode ends. -/
theorem lasting_step (hi : reading.session.scopes.Inner)
    (hf : ∀ word ∈ reading.current ++ [token], word.kind ≠ .keyword .finishWord) :
    (reading.step token).session.lasting = reading.session.lasting := by
  unfold step
  split
  next =>
    rw [endStatement_eq, session_changeBody]
    refine @lasting_run { reading with current := [] } _ _
      ((Step.secludes_closed _).resolve_right ?_) hi
    rintro ⟨first, rest, hr, hk, -⟩
    have hm : first ∈ Token.afterModifiers (reading.current ++ [token]) := hr ▸ .head _
    exact hf first ((List.dropWhile_suffix _).subset hm) hk
  next =>
    exact @lasting_run { reading with current := [] } _ _ (Step.secludes_owner _ _) hi
  next =>
    split
    · exact lasting_closeBlock reading token
    · exact lasting_closeBlock (report { reading with current := [] } _) token
  next => rfl

end Reading

end MuLang
