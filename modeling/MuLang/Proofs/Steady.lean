import MuLang.Program
import MuLang.Proofs.Check
import MuLang.Proofs.Log
import MuLang.Proofs.Resolution

/-!
# What a step leaves alone

However a step ends, the pass and the settings stay, of the scopes at most the block that it opens is
new, and nothing that has been declared is forgotten. Nor does a step look at the log: it does the
same whatever has been reported before, and whatever more may be. Only the head of a `for` loop writes
to the log in the first pass, at most once, and what it may report after that is never a fault of the
analysis itself.
-/
namespace MuLang

namespace Session

/-- The session with another budget and another log. -/
def withLog (session : Session) (limit : Option Nat) (log : Log) : Session :=
  { session with settings := { session.settings with maxErrors := limit }, log }

/-- The session as it is under a budget. -/
def within (budget : Nat) (session : Session) : Session :=
  session.withLog (some budget) (session.log.within budget)

end Session

/-- What no step changes but by opening a block. -/
structure Frame where
  pass : Pass
  settings : Settings
  scopes : ScopeStack

def Session.frame (session : Session) : Frame :=
  ⟨session.pass, session.settings, session.scopes.bare⟩

/-- A session at a later time: what was declared or deferred still is, globals that are new count as
initialized, and functions of one name still differ in their parameters. -/
structure Session.Grows (session later : Session) : Prop where
  settings_eq : later.settings = session.settings
  contains : ∀ p, session.table.contains p → later.table.contains p
  hasGlobal : ∀ p name, session.table.HasGlobal p name → later.table.HasGlobal p name
  deferred : session.deferred ⊆ later.deferred
  initialized : ∀ p name v, (later.table.module p).global? name = some v →
    (session.table.module p).global? name = some v ∨ v.initialized
  distinct : session.table.Distinct → later.table.Distinct

namespace Session.Grows

variable {session later last : Session}

/-- What declares nothing makes a later session. -/
theorem of_table_eq (hs : later.settings = session.settings) (ht : later.table = session.table)
    (hd : session.deferred ⊆ later.deferred) : session.Grows later where
  settings_eq := hs
  contains _ h := ht ▸ h
  hasGlobal _ _ h := ht ▸ h
  deferred := hd
  initialized _ _ _ h := .inl (ht ▸ h)
  distinct h := ht ▸ h

theorem refl (session : Session) : session.Grows session := of_table_eq rfl rfl fun _ h => h

theorem trans (h : session.Grows later) (hl : later.Grows last) : session.Grows last where
  settings_eq := hl.settings_eq.trans h.settings_eq
  contains p hp := hl.contains p (h.contains p hp)
  hasGlobal p name hg := hl.hasGlobal p name (h.hasGlobal p name hg)
  deferred _ hd := hl.deferred (h.deferred hd)
  initialized p name v hv := (hl.initialized p name v hv).elim (h.initialized p name v) .inr
  distinct hd := hl.distinct (h.distinct hd)

theorem of_scopes (session : Session) (scopes : ScopeStack) :
    session.Grows { session with scopes } :=
  of_table_eq rfl rfl fun _ h => h

theorem of_report (session : Session) (error : Error) : session.Grows (session.report error) :=
  of_table_eq rfl rfl fun _ h => h

/-- A table that holds more makes a later session. -/
theorem of_table {table : SymbolTable}
    (hc : ∀ p, session.table.contains p → table.contains p)
    (hg : ∀ p name, session.table.HasGlobal p name → table.HasGlobal p name)
    (hi : ∀ p name v, (table.module p).global? name = some v →
      (session.table.module p).global? name = some v ∨ v.initialized)
    (hd : session.table.Distinct → table.Distinct) : session.Grows { session with table } :=
  ⟨rfl, hc, hg, fun _ h => h, hi, hd⟩

theorem of_addModule {table : SymbolTable} {parent : ModulePath} {name : String}
    (h : session.table.addModule parent name = .ok table) : session.Grows { session with table } :=
  of_table (fun _ hp => (SymbolTable.contains_addModule h).2 (.inl hp))
    (fun p name hg => by rwa [SymbolTable.HasGlobal, SymbolTable.module_addModule h])
    (fun p name v hv => by
      rw [SymbolTable.module_addModule h] at hv
      exact .inl hv)
    (·.addModule h)

theorem of_addFunction {table : SymbolTable} {path : ModulePath} {definition : FunctionDefinition}
    (h : session.table.addFunction path definition = .ok table) :
    session.Grows { session with table } :=
  of_table (fun _ hp => (SymbolTable.contains_addFunction h).trans hp)
    (fun _ _ hg => (SymbolTable.hasGlobal_addFunction h).2 hg)
    (fun p name v hv => by
      rw [SymbolTable.global?_addFunction h] at hv
      exact .inl hv)
    (·.addFunction h)

theorem of_addVariable {table : SymbolTable} {path : ModulePath} {v : Variable}
    (hv : v.initialized) (h : session.table.addVariable path v = .ok table) :
    session.Grows { session with table } :=
  of_table (fun _ hp => (SymbolTable.contains_addVariable h).trans hp)
    (fun _ _ hg => (SymbolTable.hasGlobal_addVariable h).2 (.inl hg))
    (fun p name found hf => by
      rw [SymbolTable.global?_addVariable h] at hf
      split at hf
      · obtain rfl := Option.some.inj hf
        exact .inr hv
      · exact .inl hf)
    (·.addVariable h)

end Session.Grows

namespace Step

open Fallible (Commutes)

variable {α β : Type} {R : Frame → Frame → Prop}

/-- A step that does not look at the log, forgets no declaration and changes the frame in a certain
way at most. -/
structure Moves (R : Frame → Frame → Prop) (step : Step α) : Prop where
  blind : ∀ limit log, Commutes (·.withLog limit log) step
  moved : ∀ session, R session.frame (step session).2.frame
  grows : ∀ session : Session, session.Grows (step session).2

/-- A step that does not look at the log and leaves the frame as it is. -/
abbrev Steady (step : Step α) : Prop := Moves Eq step

instance : Std.Refl (Eq : Frame → Frame → Prop) := ⟨fun _ => rfl⟩

theorem Moves.ofSteady [Std.Refl R] {step : Step α} (h : Steady step) : Moves R step :=
  ⟨h.blind, fun s => h.moved s ▸ Std.Refl.refl _, h.grows⟩

theorem steady_pure (a : α) : Steady (pure a : Step α) :=
  ⟨fun _ _ => .pure a, fun _ => rfl, .refl⟩

theorem steady_throw (error : Error) : Steady (throw error : Step α) :=
  ⟨fun _ _ => .throw error, fun _ => rfl, .refl⟩

theorem steady_fail (cause : Cause) (token : Token) : Steady (fail cause token : Step α) :=
  steady_throw _

theorem steady_ofExcept (x : Except Error α) : Steady (ofExcept x : Step α) :=
  ⟨fun _ _ => .ofExcept x, fun s => by rw [Fallible.ofExcept_apply], fun s => by
    rw [Fallible.ofExcept_apply]
    exact .refl s⟩

theorem grows_bind {step : Step α} {next : α → Step β} (h : ∀ s : Session, s.Grows (step s).2)
    (hn : ∀ a, ∀ s : Session, s.Grows (next a s).2) (s : Session) :
    s.Grows ((step >>= next) s).2 := by
  have hs := h s
  rw [Fallible.bind_apply]
  rcases hr : step s with ⟨error | a, t⟩
  · rwa [hr] at hs
  · rw [hr] at hs
    exact hs.trans (hn a t)

/-- Before a step that moves the frame, others may come that do not. -/
theorem Moves.bind [Std.Refl R] {step : Step α} {next : α → Step β} (h : Steady step)
    (hn : ∀ a, Moves R (next a)) : Moves R (step >>= next) := by
  refine ⟨fun limit log => .bind (h.blind limit log) fun a => (hn a).blind limit log, fun s => ?_,
    grows_bind h.grows fun a => (hn a).grows⟩
  have hs := h.moved s
  rw [Fallible.bind_apply]
  rcases hr : step s with ⟨error | a, t⟩
  · rw [hr] at hs
    exact hs ▸ Std.Refl.refl _
  · rw [hr] at hs
    exact hs ▸ (hn a).moved t

/-- After a step that moves the frame, others may come that do not. -/
theorem Moves.andThen {step : Step α} {next : α → Step β} (h : Moves R step)
    (hn : ∀ a, Steady (next a)) : Moves R (step >>= next) := by
  refine ⟨fun limit log => .bind (h.blind limit log) fun a => (hn a).blind limit log, fun s => ?_,
    grows_bind h.grows fun a => (hn a).grows⟩
  have hs := h.moved s
  rw [Fallible.bind_apply]
  rcases hr : step s with ⟨error | a, t⟩
  · rwa [hr] at hs
  · rw [hr] at hs
    exact (hn a).moved t ▸ hs

theorem Moves.map {step : Step α} (g : α → β) (h : Moves R step) : Moves R (g <$> step) :=
  ⟨fun limit log => .map g (h.blind limit log), fun s => by
    rw [Fallible.map_apply]
    exact h.moved s, fun s => by
    rw [Fallible.map_apply]
    exact h.grows s⟩

/-- A step may read everything but the log. -/
theorem Moves.get_bind {next : Session → Step α}
    (h : ∀ s limit log, next (Session.withLog s limit log) = next s) (hn : ∀ s, Moves R (next s)) :
    Moves R (get >>= next) :=
  ⟨fun limit log => .get_bind (fun s => h s limit log) fun s => (hn s).blind limit log,
    fun s => (hn s).moved s, fun s => (hn s).grows s⟩

/-- What a step has read of the declarations still holds where it goes on. -/
theorem Moves.read_bind {next : Session → Step α}
    (h : ∀ s limit log, next (Session.withLog s limit log) = next s)
    (hb : ∀ s limit log, Commutes (·.withLog limit log) (next s))
    (hm : ∀ s : Session, R s.frame (next s s).2.frame)
    (hg : ∀ s : Session, s.Grows (next s s).2) : Moves R (get >>= next) :=
  ⟨fun limit log => .get_bind (fun s => h s limit log) fun s => hb s limit log, hm, hg⟩

theorem Moves.isSkimming_bind {next : Bool → Step α} (hn : ∀ b, Moves R (next b)) :
    Moves R (isSkimming >>= next) := by
  change Moves R (get >>= fun s : Session => next s.isSkimming)
  exact Moves.get_bind (fun _ _ _ => rfl) fun _ => hn _

theorem Moves.ite {c : Prop} [Decidable c] {step other : Step α} (h : Moves R step)
    (ho : Moves R other) : Moves R (if c then step else other) := by
  split
  · exact h
  · exact ho

theorem Moves.modify {change : Session → Session}
    (hb : ∀ s limit log, change (Session.withLog s limit log) = (change s).withLog limit log)
    (hc : ∀ s, R s.frame (change s).frame) (hg : ∀ s, Session.Grows s (change s)) :
    Moves R (modify change : Step PUnit) :=
  ⟨fun limit log => .modify fun s => hb s limit log, hc, hg⟩

/-! ## Steps that leave the frame as it is -/

theorem fail_bind (cause : Cause) (token : Token) (next : α → Step β) :
    (fail cause token >>= next) = fail cause token := rfl

theorem steady_check {body : Env → Check α}
    (h : ∀ env, Fallible.Keeps ScopeStack.unmarked (body env)) : Steady (check body) := by
  refine ⟨fun _ _ _ => rfl, fun s => ?_, fun s => .of_scopes s _⟩
  have hk := ScopeStack.bare_eq_of_unmarked_eq (h s.env s.scopes)
  exact congrArg (Frame.mk s.pass s.settings) hk.symm

theorem steady_expression (tokens : List Token) (context : Token) :
    Steady (expression tokens context) :=
  steady_check fun env => env.keeps_expression tokens context

theorem steady_rejectModifiers (modifiers : List Token) : Steady (rejectModifiers modifiers) := by
  unfold rejectModifiers
  split
  · exact steady_fail _ _
  · exact steady_pure _

theorem steady_rejectInvalidModifiers (modifiers : List Token) (target : String)
    (invalid : Modifier → Bool) : Steady (rejectInvalidModifiers modifiers target invalid) := by
  unfold rejectInvalidModifiers
  split
  · exact steady_fail _ _
  · exact steady_pure _

theorem steady_requireFunction (token : Token) (what : String) :
    Steady (requireFunction token what) :=
  .get_bind (fun _ _ _ => rfl) fun _ => .ite (steady_fail _ _) (steady_pure _)

theorem steady_checkFunctionPlacement (keyword : Token) (modifiers : List Token) :
    Steady (checkFunctionPlacement keyword modifiers) := by
  unfold checkFunctionPlacement
  refine .get_bind (fun _ _ _ => rfl) fun s => ?_
  exact .ite (steady_fail _ _) (steady_rejectInvalidModifiers _ _ _)

theorem steady_registerFunction (definition : FunctionDefinition) :
    Steady (registerFunction definition) := by
  refine .modify (fun s limit log => ?_) (fun s => ?_) fun s => ?_
  · dsimp only [Session.withLog]
    split <;> rfl
  · split <;> rfl
  · split
    next h => exact .of_addFunction h
    next => exact .refl s

theorem steady_registerGlobal (module : ModulePath) (identifier : Token) (modifiers : List Token)
    (type : Datatype) : Steady (registerGlobal module identifier modifiers type) := by
  refine .modify (fun s limit log => ?_) (fun s => ?_) fun s => ?_
  · dsimp only [Session.withLog]
    split <;> rfl
  · dsimp only
    split <;> rfl
  · dsimp only
    split
    next h => exact .of_addVariable rfl h
    next => exact .refl s

theorem steady_inferGlobal? (global : DeferredGlobal) : Steady (inferGlobal? global) := by
  have he := steady_expression global.value global.typeKeyword
  refine ⟨fun limit log s => ?_, fun s => ?_, fun s => ?_⟩
  · have hb := he.blind limit log s
    unfold inferGlobal?
    rw [hb]
    rcases expression global.value global.typeKeyword s with ⟨error | value, after⟩ <;> rfl
  · have hm := he.moved s
    unfold inferGlobal?
    rw [hm]
    rcases expression global.value global.typeKeyword s with ⟨error | value, after⟩ <;> rfl
  · have hg := he.grows s
    unfold inferGlobal?
    rcases hr : expression global.value global.typeKeyword s with ⟨error | value, after⟩ <;>
      rwa [hr] at hg

theorem steady_skimGlobal (typeKeyword identifier : Token) (modifiers : List Token)
    (value : Option (List Token)) :
    Steady (skimGlobal typeKeyword identifier modifiers value) := by
  unfold skimGlobal
  refine .get_bind (fun _ _ _ => rfl) fun s => ?_
  dsimp only
  split
  · refine .bind (steady_inferGlobal? _) fun type? => ?_
    cases type? with
    | none =>
      exact .modify (fun _ _ _ => rfl) (fun _ => rfl) fun s =>
        .of_table_eq rfl rfl (List.subset_append_left s.deferred _)
    | some type => exact steady_registerGlobal _ _ _ _
  · split
    · exact steady_registerGlobal _ _ _ _
    · exact steady_pure _

theorem declareVariable_apply (identifier : Token) (v : Variable) (isGlobal : Bool) (s : Session) :
    declareVariable identifier v isGlobal s =
      if isGlobal then
        if ((s.table.module s.scopes.currentModule).global? identifier.text).isNone then
          match s.table.addVariable s.scopes.currentModule v with
          | .ok table => (.ok (), { s with table })
          | .error conflict => (.error (conflict.toError identifier.span.start), s)
        else (.ok (), s)
      else match s.scopes.addLocal v with
        | .ok scopes => (.ok (), { s with scopes })
        | .error conflict => (.error (conflict.toError identifier.span.start), s) := by
  rw [declareVariable, Fallible.bind_of_ok (Fallible.get_apply _)]
  split
  · rw [Fallible.ite_apply]
    split
    · cases s.table.addVariable s.scopes.currentModule v <;> rfl
    · rfl
  · cases s.scopes.addLocal v <;> rfl

theorem log_declareVariable (identifier : Token) (v : Variable) (isGlobal : Bool) (s : Session) :
    (declareVariable identifier v isGlobal s).2.log = s.log := by
  rw [declareVariable_apply]
  split
  · split
    · cases s.table.addVariable s.scopes.currentModule v <;> rfl
    · rfl
  · cases s.scopes.addLocal v <;> rfl

theorem steady_declareVariable (identifier : Token) {v : Variable} {isGlobal : Bool}
    (hv : isGlobal → v.initialized) : Steady (declareVariable identifier v isGlobal) := by
  refine ⟨fun limit log s => ?_, fun s => ?_, fun s => ?_⟩
  · rw [declareVariable_apply, declareVariable_apply]
    by_cases hd : ((s.table.module s.scopes.currentModule).global? identifier.text).isNone
    · cases isGlobal with
      | true =>
        simp only [Session.withLog, hd, if_true]
        cases s.table.addVariable s.scopes.currentModule v <;> rfl
      | false => cases h : s.scopes.addLocal v <;> simp [Session.withLog, h]
    · cases isGlobal with
      | true => simp [Session.withLog, hd]
      | false => cases h : s.scopes.addLocal v <;> simp [Session.withLog, h]
  · rw [declareVariable_apply]
    split
    · split
      · cases s.table.addVariable s.scopes.currentModule v <;> rfl
      · rfl
    · cases h : s.scopes.addLocal v with
      | ok scopes => exact congrArg (Frame.mk s.pass s.settings) (ScopeStack.bare_of_addLocal h).symm
      | error conflict => rfl
  · rw [declareVariable_apply]
    split
    next hg =>
      split
      · split
        next h => exact .of_addVariable (hv hg) h
        next => exact .refl s
      · exact .refl s
    · split
      · exact .of_scopes s _
      · exact .refl s

/-! ## Steps that open a block -/

/-- Nothing happens to the frame, or a scope of some kind is entered. -/
inductive Enters (kind : ScopeKind) (frame : Frame) : Frame → Prop
  | nothing : Enters kind frame frame
  | scope {scope : Scope} : scope.kind = kind →
      Enters kind frame { frame with scopes := frame.scopes.enter scope }

/-- What a statement whose block is of some kind does to the frame: nothing, or it enters the scope
of its block. Around the block of a `for` loop there is that of its header. -/
inductive Opens : Option ScopeKind → Frame → Frame → Prop
  | nothing {kind? frame} : Opens kind? frame frame
  | block {kind frame after} : kind ≠ .forBlock → Enters kind frame after →
      Opens (some kind) frame after
  | loop {frame after header} : header.kind = .loopHeader →
      Enters .forBlock { frame with scopes := frame.scopes.enter header } after →
      Opens (some .forBlock) frame after

instance {kind : ScopeKind} : Std.Refl (Enters kind) := ⟨fun _ => .nothing⟩

instance {kind? : Option ScopeKind} : Std.Refl (Opens kind?) := ⟨fun _ => .nothing⟩

theorem enters_changeScopes {kind : ScopeKind} {change : ScopeStack → ScopeStack}
    (h : ∀ scopes, ∃ scope : Scope, scope.kind = kind ∧
      (change scopes).bare = scopes.bare.enter scope) :
    Moves (Enters kind) (changeScopes change) := by
  refine .modify (fun _ _ _ => rfl) (fun s => ?_) fun s => .of_scopes s _
  obtain ⟨scope, hk, hb⟩ := h s.scopes
  simp only [Session.frame, hb]
  exact .scope hk

theorem enters_push (kind : ScopeKind) : Moves (Enters kind) (changeScopes (·.push kind)) :=
  enters_changeScopes fun scopes => ⟨⟨kind, scopes.currentModule, [], none⟩, rfl, rfl⟩

theorem enters_moduleStatement (tokens modifiers : List Token) :
    Moves (Enters .module) (moduleStatement tokens modifiers) := by
  -- Entering the module is the same whether or not it had to be added.
  have enter (path : ModulePath) (identifier : Token) :
      Moves (Enters .module) (changeScopes (·.pushIn .module path) >>= fun _ =>
        isSkimming >>= fun skimming =>
          if skimming then pure none else pure (some (Stmt.module identifier []))) :=
    (enters_changeScopes fun scopes => ⟨⟨.module, path, [], none⟩, rfl, rfl⟩).andThen fun _ =>
      .isSkimming_bind fun _ => .ite (steady_pure _) (steady_pure _)
  simp only [moduleStatement, fail_bind, Fallible.throw_bind]
  refine .bind (steady_rejectModifiers _) fun _ => ?_
  iterate 4 refine .bind (steady_ofExcept _) fun _ => ?_
  refine .get_bind (fun _ _ _ => rfl) fun s => .ite (.ofSteady <| steady_fail _ _) ?_
  refine .get_bind (fun _ _ _ => rfl) fun s => .ite ?_ (enter _ _)
  refine .read_bind (fun _ _ _ => rfl) (fun s limit log => ?_) (fun s => ?_) fun s => ?_
  · split
    · exact .bind (.modify fun _ => rfl) fun _ => (enter _ _).blind limit log
    · exact .throw _
  · cases s.table.addModule _ _ with
    | ok table => exact (enter _ _).moved { s with table }
    | error conflict => exact .nothing
  · cases h : s.table.addModule _ _ with
    | ok table => exact (Session.Grows.of_addModule h).trans ((enter _ _).grows { s with table })
    | error conflict => exact .refl s

theorem steady_declareParameters (header : FunctionHeader) (parameters : List FunctionParameter) :
    Steady (declareParameters header parameters) := by
  induction parameters with
  | nil => exact steady_pure _
  | cons parameter rest ih =>
    unfold declareParameters
    refine ⟨fun limit log s => ?_, fun s => ?_, fun s => ?_⟩
    · simp only [Fallible.bind_of_ok (Fallible.get_apply _)]
      cases h : s.scopes.addLocal ⟨parameter.name, parameter.datatype, parameter.modifiers, true⟩ with
      | ok scopes =>
        simp only [Session.withLog, h]
        exact ih.blind limit log { s with scopes }
      | error conflict =>
        simp only [Session.withLog, h]
        rfl
    · simp only [Fallible.bind_of_ok (Fallible.get_apply _)]
      cases h : s.scopes.addLocal ⟨parameter.name, parameter.datatype, parameter.modifiers, true⟩ with
      | ok scopes =>
        have hb : s.frame = Session.frame { s with scopes } :=
          congrArg (Frame.mk s.pass s.settings) (ScopeStack.bare_of_addLocal h).symm
        exact hb.trans (ih.moved { s with scopes })
      | error conflict => rfl
    · simp only [Fallible.bind_of_ok (Fallible.get_apply _)]
      cases h : s.scopes.addLocal ⟨parameter.name, parameter.datatype, parameter.modifiers, true⟩ with
      | ok scopes => exact (Session.Grows.of_scopes s scopes).trans (ih.grows { s with scopes })
      | error conflict => exact .refl s

theorem enters_functionStatement (tokens modifiers : List Token) :
    Moves (Enters .function) (functionStatement tokens modifiers) := by
  have enter (type : Datatype) :
      Moves (Enters .function) (changeScopes (·.pushFunction type)) :=
    enters_changeScopes fun scopes =>
      ⟨⟨.function, scopes.currentModule, [], some type⟩, rfl, rfl⟩
  unfold functionStatement
  refine .bind (steady_ofExcept _) fun _ => ?_
  refine .bind (steady_checkFunctionPlacement _ _) fun _ => ?_
  iterate 2 refine .bind (steady_ofExcept _) fun _ => ?_
  refine .isSkimming_bind fun _ => .ite ?_ ?_
  · exact .bind (steady_registerFunction _) fun _ => (enter _).andThen fun _ => steady_pure _
  · exact (enter _).andThen fun _ => .bind (steady_declareParameters _ _) fun _ => steady_pure _

theorem steady_nativeStatement (tokens modifiers : List Token) :
    Steady (nativeStatement tokens modifiers) := by
  simp only [nativeStatement, fail_bind]
  refine .bind (steady_ofExcept _) fun _ => ?_
  refine .bind (steady_checkFunctionPlacement _ _) fun _ => .ite ?_ ?_
  · exact .bind (steady_ofExcept _) fun _ => steady_fail _ _
  · iterate 4 refine .bind (steady_ofExcept _) fun _ => ?_
    refine .isSkimming_bind fun _ => .ite ?_ (steady_pure _)
    exact .bind (steady_registerFunction _) fun _ => steady_pure _

theorem steady_placeVariable (form : VariableForm) (modifiers : List Token) :
    Steady (placeVariable form modifiers) := by
  simp only [placeVariable, fail_bind]
  refine .get_bind (fun _ _ _ => rfl) fun s => ?_
  refine .get_bind (fun _ _ _ => rfl) fun _ => .ite (steady_fail _ _) (.ite ?_ ?_)
  · exact .ite (steady_fail _ _) (steady_pure _)
  · exact .bind (steady_rejectInvalidModifiers _ _ _) fun _ => steady_pure _

theorem steady_declareTyped (form : VariableForm) (modifiers : List Token) (isGlobal : Bool)
    (typed : Option Expr) : Steady (declareTyped form modifiers isGlobal typed) := by
  unfold declareTyped
  refine .bind (steady_ofExcept _) fun type => .bind (steady_ofExcept _) fun _ => ?_
  refine .bind (steady_declareVariable _ (by simp +contextual)) fun _ => ?_
  split <;> exact steady_pure _

theorem steady_evaluateVariable (form : VariableForm) (modifiers : List Token) (isGlobal : Bool) :
    Steady (evaluateVariable form modifiers isGlobal) := by
  unfold evaluateVariable
  cases form.value with
  | some value =>
    exact .bind (steady_expression _ _) fun _ => steady_declareTyped _ _ _ _
  | none => exact steady_declareTyped _ _ _ _

theorem steady_variableStatement (tokens modifiers : List Token) :
    Steady (variableStatement tokens modifiers) := by
  unfold variableStatement
  refine .bind (steady_ofExcept _) fun form => ?_
  refine .bind (steady_placeVariable _ _) fun isGlobal => ?_
  refine .isSkimming_bind fun _ => .ite (.ite ?_ (steady_pure _)) (steady_evaluateVariable _ _ _)
  exact .bind (steady_skimGlobal _ _ _ _) fun _ => steady_pure _

theorem steady_assignStatement (identifier operator : Token) (value : Expr) :
    Steady (assignStatement identifier operator value) := by
  unfold assignStatement
  refine .isSkimming_bind fun _ => .ite (steady_pure _) ?_
  exact .bind (steady_check fun env => env.keeps_store _ _ _) fun _ => steady_pure _

theorem steady_actionStatement (tokens modifiers : List Token) :
    Steady (actionStatement tokens modifiers) := by
  unfold actionStatement
  refine .bind (steady_rejectModifiers _) fun _ => .bind (steady_ofExcept _) fun identifier => ?_
  refine .bind (steady_requireFunction _ _) fun _ => .bind (steady_ofExcept _) fun next => ?_
  split
  · refine .isSkimming_bind fun _ => .ite (steady_pure _) ?_
    refine .bind (steady_expression _ _) fun value => ?_
    split
    · exact steady_pure _
    · exact steady_fail _ _
  · exact .bind (steady_ofExcept _) fun _ => .ite (steady_assignStatement _ _ _) (steady_pure _)
  · exact .bind (steady_ofExcept _) fun _ => .ite (steady_assignStatement _ _ _) (steady_pure _)
  · refine .isSkimming_bind fun _ => .ite (steady_pure _) ?_
    refine .bind (steady_ofExcept _) fun _ => .bind (steady_expression _ _) fun value => ?_
    exact steady_assignStatement _ _ _
  · exact steady_fail _ _

theorem steady_condition (tokens : List Token) (keyword : Token) :
    Steady (condition tokens keyword) := by
  simp only [condition, fail_bind]
  exact .bind (steady_expression _ _) fun _ => .ite (steady_fail _ _) (steady_pure _)

theorem enters_ifStatement (tokens modifiers : List Token) :
    Moves (Enters .ifBlock) (ifStatement tokens modifiers) := by
  unfold ifStatement
  refine .bind (steady_rejectModifiers _) fun _ => .bind (steady_ofExcept _) fun keyword => ?_
  refine .bind (steady_requireFunction _ _) fun _ => (enters_push _).andThen fun _ => ?_
  refine .isSkimming_bind fun _ => .ite (steady_pure _) ?_
  exact .bind (steady_condition _ _) fun _ => steady_pure _

theorem enters_whileStatement (tokens modifiers : List Token) :
    Moves (Enters .whileBlock) (whileStatement tokens modifiers) := by
  unfold whileStatement
  refine .bind (steady_rejectModifiers _) fun _ => .bind (steady_ofExcept _) fun keyword => ?_
  refine .bind (steady_requireFunction _ _) fun _ => (enters_push _).andThen fun _ => ?_
  refine .isSkimming_bind fun _ => .ite (steady_pure _) ?_
  exact .bind (steady_condition _ _) fun _ => steady_pure _

theorem steady_returnStatement (tokens modifiers : List Token) :
    Steady (returnStatement tokens modifiers) := by
  simp only [returnStatement, fail_bind]
  refine .bind (steady_rejectModifiers _) fun _ => .bind (steady_ofExcept _) fun keyword => ?_
  refine .bind (steady_requireFunction _ _) fun _ => ?_
  refine .isSkimming_bind fun _ => .ite (steady_pure _) ?_
  refine .get_bind (fun _ _ _ => rfl) fun s => ?_
  split
  · refine .ite (.ite (steady_fail _ _) (steady_pure _)) (.ite (steady_fail _ _) ?_)
    refine .bind (steady_expression _ _) fun _ => .ite (steady_fail _ _) (steady_pure _)
  · exact .ite (steady_pure _) (.bind (steady_expression _ _) fun _ => steady_pure _)

theorem steady_finishStatement (tokens modifiers : List Token) :
    Steady (finishStatement tokens modifiers) := by
  unfold finishStatement
  refine .bind (steady_rejectModifiers _) fun _ => .bind (steady_ofExcept _) fun keyword => ?_
  refine .bind (steady_ofExcept _) fun _ => .ite (steady_pure _) ?_
  refine .bind (.modify (fun _ _ _ => rfl) (fun _ => rfl) fun _ =>
    .of_table_eq rfl rfl fun _ h => h) fun _ => ?_
  exact .isSkimming_bind fun _ => .ite (steady_pure _) (steady_pure _)

theorem steady_expectStart (tokens : List Token) (keyword : Token) (accepts : Kind → Bool)
    (expected : String) : Steady (expectStart tokens keyword accepts expected) := by
  unfold expectStart
  split
  · exact .ite (steady_pure _) (steady_fail _ _)
  · exact steady_fail _ _

/-! ## Steps that may report on their way -/

/-- A step that moves the frame in a certain way at most, and writes to the log only what may as
well be written under a budget: that cuts off at most, and what it cuts off is no fault of the
analysis. -/
structure Commits (R : Frame → Frame → Prop) (step : Step α) : Prop where
  moved : ∀ session, R session.frame (step session).2.frame
  limited : ∀ budget (session : Session), session.log.limit = none →
    session.log.errors.length < budget →
    step (session.within budget) = ((step session).1, (step session).2.within budget)
  extends_log : ∀ session : Session, session.log.Extends (step session).2.log
  grows : ∀ session : Session, session.Grows (step session).2
  internal : ∀ session error, (step session).1 = .error error → error.isInternal →
    (step session).2.log = session.log

theorem Moves.log_eq {step : Step α} (h : Moves R step) (s : Session) :
    (step s).2.log = s.log := by
  have hb := h.blind s.settings.maxErrors s.log s
  exact congrArg (fun result => result.2.log) hb

theorem Moves.commits {step : Step α} (h : Moves R step) : Commits R step where
  moved := h.moved
  limited budget s _ _ := by
    have hb := h.blind (some budget) (s.log.within budget) s
    rw [Session.within, hb, Session.within, h.log_eq]
  extends_log s := (h.log_eq s).symm ▸ .refl _
  grows := h.grows
  internal s _ _ _ := h.log_eq s

theorem Moves.mono {S : Frame → Frame → Prop} {step : Step α} (h : Moves R step)
    (hs : ∀ before after, R before after → S before after) : Moves S step :=
  ⟨h.blind, fun s => hs _ _ (h.moved s), h.grows⟩

theorem Commits.bind [Std.Refl R] {step : Step α} {next : α → Step β} (h : Steady step)
    (hn : ∀ a, Commits R (next a)) : Commits R (step >>= next) := by
  -- Where the first step fails, the whole is that step; otherwise the second one goes on from there.
  have run (s : Session) : (∃ error t, step s = (.error error, t) ∧
      (step >>= next) s = (.error error, t)) ∨
      ∃ a t, step s = (.ok a, t) ∧ (step >>= next) s = next a t := by
    rw [Fallible.bind_apply]
    rcases step s with ⟨error | a, t⟩
    · exact .inl ⟨error, t, rfl, rfl⟩
    · exact .inr ⟨a, t, rfl, rfl⟩
  have kept {s t : Session} {result : Except Error α} (hs : step s = (result, t)) :
      t.frame = s.frame ∧ t.log = s.log := by
    have hf := h.moved s
    have hl := h.log_eq s
    rw [hs] at hf hl
    exact ⟨hf.symm, hl⟩
  have limited (budget : Nat) {s t : Session} {result : Except Error α}
      (hs : step s = (result, t)) : step (s.within budget) = (result, t.within budget) := by
    have hb := h.blind (some budget) (s.log.within budget) s
    rw [Session.within, hb, hs, Session.within, (kept hs).2]
  refine ⟨fun s => ?_, fun budget s hl hr => ?_, fun s => ?_,
    grows_bind h.grows fun a => (hn a).grows, fun s error he hi => ?_⟩
  · obtain ⟨error, t, hs, hb⟩ | ⟨a, t, hs, hb⟩ := run s
    · rw [hb, (kept hs).1]
      exact Std.Refl.refl _
    · rw [hb, ← (kept hs).1]
      exact (hn a).moved t
  · obtain ⟨error, t, hs, hb⟩ | ⟨a, t, hs, hb⟩ := run s
    · rw [hb, Fallible.bind_of_error (limited budget hs)]
    · rw [hb, Fallible.bind_of_ok (limited budget hs)]
      exact (hn a).limited budget t ((kept hs).2 ▸ hl) ((kept hs).2 ▸ hr)
  · obtain ⟨error, t, hs, hb⟩ | ⟨a, t, hs, hb⟩ := run s
    · rw [hb, (kept hs).2]
      exact .refl _
    · rw [hb, ← (kept hs).2]
      exact (hn a).extends_log t
  · obtain ⟨error, t, hs, hb⟩ | ⟨a, t, hs, hb⟩ := run s
    · rw [hb, (kept hs).2]
    · rw [hb] at he ⊢
      rw [(hn a).internal t error he hi, (kept hs).2]

theorem Commits.map {step : Step α} (g : α → β) (h : Commits R step) : Commits R (g <$> step) := by
  refine ⟨fun s => ?_, fun budget s hl hr => ?_, fun s => ?_, fun s => ?_,
    fun s error he hi => ?_⟩
  · rw [Fallible.map_apply]
    exact h.moved s
  · rw [Fallible.map_apply, Fallible.map_apply, h.limited budget s hl hr]
  · rw [Fallible.map_apply]
    exact h.extends_log s
  · rw [Fallible.map_apply]
    exact h.grows s
  · rw [Fallible.map_apply] at he ⊢
    refine h.internal s error ?_ hi
    cases hs : (step s).1 with
    | error other =>
      rw [hs] at he
      cases he
      rfl
    | ok a =>
      rw [hs] at he
      cases he

theorem Commits.mono {S : Frame → Frame → Prop} {step : Step α} (h : Commits R step)
    (hs : ∀ before after, R before after → S before after) : Commits S step :=
  { h with moved := fun s => hs _ _ (h.moved s) }

theorem Commits.ite {c : Prop} [Decidable c] {step other : Step α} (h : Commits R step)
    (ho : Commits R other) : Commits R (if c then step else other) := by
  split
  · exact h
  · exact ho

theorem steady_isSkimming : Steady isSkimming := .get_bind (fun _ _ _ => rfl) fun _ => steady_pure _

end Step

theorem Session.report_within {session : Session} {budget : Nat} {error : Error}
    (h : session.log.limit = none)
    (hroom : session.log.errors.length < budget ∨ ¬error.isInternal) :
    (session.within budget).report error = (session.report error).within budget := by
  simp only [report, within, withLog, Log.report_within h hroom]

namespace Step

variable {α β : Type} {R : Frame → Frame → Prop}

/-- After a step whose error is reported only, another one may follow that never fails for a fault
of the analysis. -/
theorem Commits.reporting_bind {step : Step (Option α)} {next : Option α → Step β}
    (h : Steady step) (hn : ∀ a, Moves R (next a))
    (hi : ∀ a s error, (next a s).1 = .error error → ¬error.isInternal) :
    Commits R (reporting step >>= next) := by
  have run (s : Session) : ∃ a t, (reporting step >>= next) s = next a t ∧
      t.frame = s.frame ∧ s.log.Extends t.log ∧ s.Grows t ∧
      ∀ budget, s.log.limit = none → s.log.errors.length < budget →
        (reporting step >>= next) (s.within budget) = next a (t.within budget) := by
    have hf := h.moved s
    have hl := h.log_eq s
    have hg := h.grows s
    rcases hs : step s with ⟨error | a, t⟩
    · rw [hs] at hf hl hg
      have ht : s.log.Extends (t.report error).log := hl ▸ t.log.extends_report error
      have hr : s.Grows (t.report error) := hg.trans (.of_report t error)
      refine ⟨none, t.report error, ?_, hf.symm, ht, hr, fun budget hn hr => ?_⟩
      · exact Fallible.bind_of_ok (by rw [reporting, hs])
      · refine Fallible.bind_of_ok ?_
        rw [reporting, h.commits.limited budget s hn hr, hs,
          ← Session.report_within (hl ▸ hn) (.inl (hl ▸ hr))]
    · rw [hs] at hf hl hg
      refine ⟨a, t, ?_, hf.symm, hl.symm ▸ .refl _, hg, fun budget hn hr => ?_⟩
      · exact Fallible.bind_of_ok (by rw [reporting, hs])
      · exact Fallible.bind_of_ok (by rw [reporting, h.commits.limited budget s hn hr, hs])
  refine ⟨fun s => ?_, fun budget s hl hr => ?_, fun s => ?_, fun s => ?_, fun s error he hr => ?_⟩
  · obtain ⟨a, t, hb, hf, -, -, -⟩ := run s
    rw [hb, ← hf]
    exact (hn a).moved t
  · obtain ⟨a, t, hb, -, -, -, hw⟩ := run s
    have hc := (hn a).blind (some budget) (t.log.within budget) t
    rw [hw budget hl hr, hb, Session.within, hc, Session.within, (hn a).log_eq]
  · obtain ⟨a, t, hb, -, ht, -, -⟩ := run s
    rw [hb, (hn a).log_eq]
    exact ht
  · obtain ⟨a, t, hb, -, -, hg, -⟩ := run s
    rw [hb]
    exact hg.trans ((hn a).grows t)
  · obtain ⟨a, t, hb, -, -, -, -⟩ := run s
    rw [hb] at he
    exact absurd hr (hi a t error he)

/-- The head of a loop lies in a scope of its own. -/
theorem Commits.header {step : Step α} (h : Commits (Enters .forBlock) step) :
    Commits (Opens (some .forBlock)) (changeScopes (·.push .loopHeader) >>= fun _ => step) := by
  have run (s : Session) : (changeScopes (·.push .loopHeader) >>= fun _ => step) s =
      step { s with scopes := s.scopes.push .loopHeader } := rfl
  refine ⟨fun s => ?_, fun budget s hl hr => ?_, fun s => ?_, fun s => ?_,
    fun s error he hi => ?_⟩
  · rw [run]
    have hm := h.moved { s with scopes := s.scopes.push .loopHeader }
    exact Opens.loop rfl hm
  · rw [run, run]
    exact h.limited budget { s with scopes := s.scopes.push .loopHeader } hl hr
  · rw [run]
    exact h.extends_log { s with scopes := s.scopes.push .loopHeader }
  · rw [run]
    exact (Session.Grows.of_scopes s _).trans (h.grows _)
  · rw [run] at he ⊢
    exact h.internal _ error he hi

/-- Both forms of a loop enter the scope of the block last. -/
theorem commits_loopStatement (keyword : Token) (init test step : List Token) :
    Commits (Enters .forBlock) (loopStatement keyword init test step) := by
  simp only [loopStatement, fail_bind]
  refine .bind (steady_expectStart _ _ _ _) fun _ => .bind (steady_expectStart _ _ _ _) fun _ => ?_
  refine .bind steady_isSkimming fun _ => .ite ?_ (Moves.commits ?_)
  · refine .reporting_bind (steady_variableStatement _ _) (fun _ => ?_) fun _ s error he => ?_
    · exact .ite (.ofSteady <| steady_fail _ _) ((enters_push _).andThen fun _ => steady_pure _)
    · rw [Fallible.ite_apply] at he
      split at he <;> cases he
      exact Bool.false_ne_true
  · refine .bind (steady_variableStatement _ _) fun declared => ?_
    split
    · exact .ofSteady <| steady_pure _
    · exact .ofSteady <| steady_fail _ _
    · refine .bind (steady_condition _ _) fun _ => .bind (steady_actionStatement _ _) fun _ => ?_
      split
      · exact .ofSteady <| steady_pure _
      · exact (enters_push _).andThen fun _ => steady_pure _

theorem Steady.commits [Std.Refl R] {step : Step α} (h : Steady step) : Commits R step :=
  (Moves.ofSteady h).commits

theorem commits_forStatement (tokens modifiers : List Token) :
    Commits (Opens (some .forBlock)) (forStatement tokens modifiers) := by
  unfold forStatement
  refine .bind (steady_rejectModifiers _) fun _ => .bind (steady_ofExcept _) fun keyword => ?_
  refine .bind (steady_requireFunction _ _) fun _ => .header ?_
  split
  · exact commits_loopStatement _ _ _ _
  · split
    · exact .ite (commits_loopStatement _ _ _ _) (Steady.commits <| steady_fail _ _)
    · exact Steady.commits <| steady_fail _ _
  · exact Steady.commits <| steady_fail _ _

theorem Moves.commits_block {kind : ScopeKind} {step : Step α} (hk : kind ≠ .forBlock)
    (h : Moves (Enters kind) step) : Commits (Opens (some kind)) step :=
  (h.mono fun _ _ => .block hk).commits

theorem commits_statement (tokens : List Token) :
    Commits (Opens (Token.block? tokens)) (statement tokens) := by
  unfold statement Token.block?
  dsimp only
  cases Token.afterModifiers tokens with
  | nil => exact Steady.commits <| steady_pure _
  | cons first more =>
    dsimp only [List.head?_cons, Option.bind_some]
    split
    next h =>
      rw [h]
      exact (enters_moduleStatement _ _).commits_block (by decide)
    next h =>
      rw [h]
      exact (enters_functionStatement _ _).commits_block (by decide)
    next => exact (steady_nativeStatement _ _).commits
    next h =>
      rw [h]
      exact ((enters_ifStatement _ _).commits_block (by decide)).map _
    next h =>
      rw [h]
      exact (enters_whileStatement _ _).commits_block (by decide)
    next h =>
      rw [h]
      exact commits_forStatement _ _
    next => exact (steady_returnStatement _ _).commits
    next => exact (steady_finishStatement _ _).commits
    next => exact .map _ (steady_actionStatement _ _).commits
    next => exact .map _ (steady_variableStatement _ _).commits
    next => exact .map _ (steady_variableStatement _ _).commits
    next =>
      exact .ite (.bind (steady_fail _ _) fun _ =>
          .ite (.bind (steady_fail _ _) fun _ => (steady_pure _).commits) (steady_pure _).commits)
        (.ite (.bind (steady_fail _ _) fun _ => (steady_pure _).commits) (steady_pure _).commits)
    next => exact (steady_fail _ _).commits

end Step

end MuLang
