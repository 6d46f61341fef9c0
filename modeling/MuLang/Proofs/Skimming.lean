import MuLang.Proofs.Guarded.Parse
import MuLang.Proofs.Seclusion

/-!
# The globals of the first pass

The first pass declares no locals, and of all statements only the declarations of variables outside
of functions register or defer a global. So the globals that it comes upon can be listed, and all
other statements may be passed over where only globals matter.
-/
namespace MuLang

/-- Whether a statement starts like the declaration of a variable. -/
def Token.declares (words : List Token) : Bool :=
  (afterModifiers words).head?.any fun first => first.kind = .question || first.kind.isTypeName

theorem Token.exists_of_declares {words : List Token} (h : declares words) :
    ∃ first rest, afterModifiers words = first :: rest ∧
      (first.kind = .question ∨ ∃ name, first.kind = .typeName name) := by
  unfold declares at h
  cases hr : afterModifiers words with
  | nil =>
    rw [hr] at h
    cases h
  | cons first rest =>
    rw [hr, List.head?_cons, Option.any_some, Bool.or_eq_true, decide_eq_true_eq] at h
    refine ⟨first, rest, rfl, h.imp_right fun ht => ?_⟩
    cases hk : first.kind <;> rw [hk] at ht <;> first | exact ⟨_, rfl⟩ | cases ht

/-- Such a statement opens no block. -/
theorem Token.block?_of_declares {words : List Token} (h : declares words) :
    block? words = none := by
  obtain ⟨first, rest, hr, hk | ⟨name, hk⟩⟩ := exists_of_declares h <;>
    rw [block?, hr, List.head?_cons, Option.bind_some, hk] <;> rfl

/-- Where no scope has any local, no name stands for one. -/
theorem ScopeStack.vacant_of_bare {scopes : ScopeStack} (h : scopes.bare = scopes) :
    scopes.Vacant := by
  intro name
  cases hf : scopes.findLocal? name with
  | none => rfl
  | some found =>
    unfold findLocal? at hf
    split at hf
    · obtain ⟨scope, hm, hv⟩ := mem_of_findIn hf
      rw [← h] at hm
      obtain ⟨inner, -, rfl⟩ := List.mem_map.1 hm
      cases hv
    · cases hf

/-- A global that the first pass comes upon: the module that it belongs to, the words of its
declaration, and what these say after the modifiers. -/
structure SkimmedGlobal where
  module : ModulePath
  words : List Token
  form : VariableForm
  form_eq : VariableForm.ofTokens (Token.afterModifiers words) = .ok form

namespace SkimmedGlobal

def name (global : SkimmedGlobal) : String := global.form.identifier.text

def modifiers (global : SkimmedGlobal) : List Token := Token.leadingModifiers global.words

/-- What is deferred where the type of the global has to follow from a value that has no type yet. -/
def deferral? (global : SkimmedGlobal) : Option DeferredGlobal :=
  (if global.form.typeKeyword.kind = .question then global.form.value else none).map
    (⟨global.module, global.form.typeKeyword, global.form.identifier, global.modifiers, ·⟩)

/-- The step that registers or defers the global. -/
def skim (global : SkimmedGlobal) : Step Unit :=
  Step.skimGlobal global.form.typeKeyword global.form.identifier global.modifiers global.form.value

end SkimmedGlobal

namespace Reading

/-- The global that a token completes the declaration of. -/
def global? (reading : Reading) (token : Token) : Option SkimmedGlobal :=
  if token.kind = .semicolon ∧ reading.session.admitsGlobals then
    let words := reading.current ++ [token]
    if Token.declares words then
      match h : VariableForm.ofTokens (Token.afterModifiers words) with
      | .ok form => some ⟨reading.session.scopes.currentModule, words, form, h⟩
      | .error _ => none
    else none
  else none

/-- The globals that a pass over some tokens comes upon. -/
def globals (reading : Reading) : List Token → List SkimmedGlobal
  | [] => []
  | token :: rest =>
    if reading.session.log.isClosed || token.kind = .endOfFile then []
    else (reading.global? token).toList ++ (reading.step token).globals rest

end Reading

namespace Session

/-- From a session of the first pass to a later one no local has been declared, and no global
declared or deferred. -/
structure Spared (s t : Session) : Prop where
  skimming : t.isSkimming
  bare : s.scopes.bare = s.scopes → t.scopes.bare = t.scopes
  global?_eq : ∀ p name, (t.table.module p).global? name = (s.table.module p).global? name
  deferred_eq : t.deferred = s.deferred

/-- In the second pass anything may happen. -/
def Spares (s t : Session) : Prop := s.isSkimming → s.Spared t

namespace Spares

variable {s t u : Session}

theorem refl (s : Session) : s.Spares s := fun hs => ⟨hs, id, fun _ _ => rfl, rfl⟩

theorem trans (h : s.Spares t) (hu : t.Spares u) : s.Spares u := fun hs => by
  have ht := h hs
  have hafter := hu ht.skimming
  exact ⟨hafter.skimming, fun hb => hafter.bare (ht.bare hb),
    fun p name => (hafter.global?_eq p name).trans (ht.global?_eq p name),
    hafter.deferred_eq.trans ht.deferred_eq⟩

instance : Std.Refl Spares := ⟨refl⟩

instance : Trans Spares Spares Spares := ⟨trans⟩

/-- Scopes may be entered and left. -/
theorem of_scopes {scopes : ScopeStack} (h : s.scopes.bare = s.scopes → scopes.bare = scopes) :
    s.Spares { s with scopes } :=
  fun hs => ⟨hs, h, fun _ _ => rfl, rfl⟩

theorem of_table {table : SymbolTable}
    (h : ∀ p name, (table.module p).global? name = (s.table.module p).global? name) :
    s.Spares { s with table } :=
  fun hs => ⟨hs, id, h, rfl⟩

theorem report (s : Session) (error : Error) : s.Spares (s.report error) :=
  fun hs => ⟨hs, id, fun _ _ => rfl, rfl⟩

end Spares

end Session

namespace Step

open Fallible (RelatesIf Relates)

variable {α β : Type} {holds : Session → Prop}

/-- A step that spares the globals, however it ends, from sessions where a condition holds. -/
abbrev SparesIf (holds : Session → Prop) (step : Step α) : Prop :=
  RelatesIf holds Session.Spares step

abbrev Spares (step : Step α) : Prop := Relates Session.Spares step

/-! ## Parts of statements -/

/-- Of two ways to go on, the first pass takes the first. -/
theorem spares_fork {first second : Step α} (h : SparesIf holds first) :
    SparesIf holds (isSkimming >>= fun skimming => if skimming then first else second) := by
  intro s hs hk
  have he : (isSkimming >>= fun skimming => if skimming then first else second) s =
      (if s.isSkimming then first else second) s := rfl
  rw [he, if_pos hk]
  exact h s hs hk

theorem spares_enter {scope : ScopeStack → Scope} (h : ∀ scopes, (scope scopes).locals = []) :
    Spares (changeScopes fun scopes => scopes.enter (scope scopes)) := by
  refine .modify fun s _ => .of_scopes fun hb => ?_
  have hscope : (scope s.scopes).bare = scope s.scopes := by
    rw [Scope.bare, ← h s.scopes]
  rw [ScopeStack.bare_enter, hb, hscope]

theorem spares_push (kind : ScopeKind) : Spares (changeScopes (·.push kind)) :=
  spares_enter fun _ => rfl

/-! ## Modules and functions -/

theorem spares_moduleStatement (tokens modifiers : List Token) :
    Spares (moduleStatement tokens modifiers) := by
  have enter (path : ModulePath) (identifier : Token) :
      Spares (changeScopes (·.pushIn .module path) >>= fun _ => isSkimming >>= fun skimming =>
        if skimming then pure none else pure (some (Stmt.module identifier []))) :=
    .bind (spares_enter fun _ => rfl) fun _ => spares_fork (.pure _)
  simp only [moduleStatement, fail_bind, Fallible.throw_bind]
  refine .bind (relates_rejectModifiers _) fun _ => .bind (.ofExcept _) fun identifier => ?_
  iterate 3 refine .bind (.ofExcept _) fun _ => ?_
  refine .read_bind fun s => .ite (.throw _) (.read_bind fun _ => .ite ?_ (enter _ _))
  refine .get_bind fun t _ => ?_
  cases ha : t.table.addModule s.scopes.currentModule identifier.text with
  | ok table =>
    have hadd : t.Spares { t with table } :=
      .of_table fun p _ => by rw [SymbolTable.module_addModule ha]
    exact hadd.trans (enter _ _ _ trivial)
  | error => exact .refl t

theorem spares_registerFunction (definition : FunctionDefinition) :
    Spares (registerFunction definition) := by
  refine .modify fun s _ => ?_
  cases ha : s.table.addFunction s.scopes.currentModule definition with
  | ok table => exact .of_table fun _ _ => SymbolTable.global?_addFunction ha
  | error => exact .refl s

theorem spares_functionStatement (tokens modifiers : List Token) :
    Spares (functionStatement tokens modifiers) := by
  rw [functionStatement]
  refine .bind (.ofExcept _) fun _ => .bind (relates_checkFunctionPlacement _ _) fun _ => ?_
  iterate 2 refine .bind (.ofExcept _) fun _ => ?_
  refine spares_fork (.bind (spares_registerFunction _) fun _ => ?_)
  exact .bind (spares_enter fun _ => rfl) fun _ => .pure _

theorem spares_nativeStatement (tokens modifiers : List Token) :
    Spares (nativeStatement tokens modifiers) := by
  simp only [nativeStatement, fail_bind]
  refine .bind (.ofExcept _) fun _ => .bind (relates_checkFunctionPlacement _ _) fun _ => ?_
  refine .ite (.bind (.ofExcept _) fun _ => .throw _) ?_
  iterate 4 refine .bind (.ofExcept _) fun _ => ?_
  exact spares_fork (.bind (spares_registerFunction _) fun _ => .pure _)

/-! ## Variables -/

theorem spares_placeVariable (form : VariableForm) (modifiers : List Token) :
    Spares (placeVariable form modifiers) := by
  simp only [placeVariable, fail_bind]
  refine .read_bind fun s => .read_bind fun _ => .ite (.throw _) (.ite ?_ ?_)
  · exact .ite (.throw _) (.pure _)
  · exact .bind (relates_rejectInvalidModifiers _ _ _) fun _ => .pure _

/-- A declaration that is not that of a global is only looked at. -/
theorem spares_variableStatement (tokens modifiers : List Token) :
    SparesIf (fun s => s.admitsGlobals = false) (variableStatement tokens modifiers) := by
  rw [variableStatement]
  refine .bind_after (p := fun _ s => s.admitsGlobals = false) (.ofExcept _)
    (fun s _ t hs h => by obtain ⟨-, rfl⟩ := Fallible.ofExcept_eq_ok.1 h; exact hs) fun form => ?_
  refine .bind_after (p := fun isGlobal _ => isGlobal = false)
    (.of_relates (spares_placeVariable _ _))
    (fun s isGlobal t hs h => (placeVariable_ok h).1.trans hs) fun isGlobal => ?_
  refine spares_fork fun s hs => ?_
  rw [hs]
  exact .refl s

/-! ## Statements of function bodies -/

theorem spares_assignStatement (identifier operator : Token) (value : Expr) :
    Spares (assignStatement identifier operator value) :=
  spares_fork (.pure _)

theorem spares_actionStatement (tokens modifiers : List Token) :
    Spares (actionStatement tokens modifiers) := by
  rw [actionStatement]
  refine .bind (relates_rejectModifiers _) fun _ => .bind (.ofExcept _) fun identifier => ?_
  refine .bind (relates_requireFunction _ _) fun _ => .bind (.ofExcept _) fun next => ?_
  split
  · exact spares_fork (.pure _)
  · exact .bind (.ofExcept _) fun _ => .ite (spares_assignStatement _ _ _) (.pure _)
  · exact .bind (.ofExcept _) fun _ => .ite (spares_assignStatement _ _ _) (.pure _)
  · exact spares_fork (.pure _)
  · exact .throw _

theorem spares_ifStatement (tokens modifiers : List Token) :
    Spares (ifStatement tokens modifiers) := by
  rw [ifStatement]
  refine .bind (relates_rejectModifiers _) fun _ => .bind (.ofExcept _) fun keyword => ?_
  refine .bind (relates_requireFunction _ _) fun _ => .bind (spares_push _) fun _ => ?_
  exact spares_fork (.pure _)

theorem spares_whileStatement (tokens modifiers : List Token) :
    Spares (whileStatement tokens modifiers) := by
  rw [whileStatement]
  refine .bind (relates_rejectModifiers _) fun _ => .bind (.ofExcept _) fun keyword => ?_
  refine .bind (relates_requireFunction _ _) fun _ => .bind (spares_push _) fun _ => ?_
  exact spares_fork (.pure _)

theorem spares_returnStatement (tokens modifiers : List Token) :
    Spares (returnStatement tokens modifiers) := by
  simp only [returnStatement, fail_bind]
  refine .bind (relates_rejectModifiers _) fun _ => .bind (.ofExcept _) fun keyword => ?_
  exact .bind (relates_requireFunction _ _) fun _ => spares_fork (.pure _)

/-- In the head of a loop a variable is no global. -/
theorem spares_loopStatement (keyword : Token) (init test step : List Token) :
    SparesIf (fun s => s.admitsGlobals = false) (loopStatement keyword init test step) := by
  have keep (tokens : List Token) (accepts : Kind → Bool) (expected : String) (s : Session)
      (u : Unit) (t : Session) (hs : s.admitsGlobals = false)
      (h : expectStart tokens keyword accepts expected s = (.ok u, t)) :
      t.admitsGlobals = false := by
    obtain ⟨-, rfl⟩ := expectStart_eq_ok.1 h
    exact hs
  simp only [loopStatement, fail_bind]
  refine .bind_after (.of_relates (relates_expectStart _ _ _ _)) (keep _ _ _) fun _ => ?_
  refine .bind_after (.of_relates (relates_expectStart _ _ _ _)) (keep _ _ _) fun _ =>
    spares_fork ?_
  refine .bind (relates_reporting (spares_variableStatement _ _) .report) fun _ =>
    .ite (.throw _) ?_
  exact .bind (spares_push _) fun _ => .pure _

theorem spares_forStatement (tokens modifiers : List Token) :
    Spares (forStatement tokens modifiers) := by
  simp only [forStatement]
  refine .bind (relates_rejectModifiers _) fun _ => .bind (.ofExcept _) fun keyword => ?_
  refine .bind (relates_requireFunction _ _) fun _ => ?_
  refine .bind_after (p := fun _ s => s.admitsGlobals = false) (spares_push _)
    (fun s _ t _ h => by obtain rfl := changeScopes_eq_ok.1 h; rfl) fun _ => ?_
  split
  · exact spares_loopStatement _ _ _ _
  · split
    · exact .ite (spares_loopStatement _ _ _ _) (.throw _)
    · exact .throw _
  · exact .throw _

theorem spares_finishStatement (tokens modifiers : List Token) :
    Spares (finishStatement tokens modifiers) := by
  intro s _
  obtain h | h := finishStatement_cases tokens modifiers s <;> rw [h]
  · exact .refl s
  · exact fun hs => ⟨hs, id, fun _ _ => rfl, rfl⟩

/-! ## Any statement -/

/-- Only declarations of variables register or defer a global. -/
theorem spares_statement {tokens : List Token} (h : Token.declares tokens = false) :
    Spares (statement tokens) := by
  simp only [statement, fail_bind]
  split
  next => exact .pure _
  next first more hr =>
    have hfirst : ¬(first.kind = .question ∨ first.kind.isTypeName) := by
      simpa [Token.declares, hr] using h
    split
    · exact spares_moduleStatement _ _
    · exact spares_functionStatement _ _
    · exact spares_nativeStatement _ _
    · exact .bind (spares_ifStatement _ _) fun _ => .pure _
    · exact spares_whileStatement _ _
    · exact spares_forStatement _ _
    · exact spares_returnStatement _ _
    · exact spares_finishStatement _ _
    · exact .bind (spares_actionStatement _ _) fun _ => .pure _
    next hk => exact absurd (.inl hk) hfirst
    next hk => exact absurd (.inr (by rw [hk]; rfl)) hfirst
    · exact .ite (.throw _) (.ite (.throw _) (.pure _))
    · exact .throw _

theorem spares_elseOwner (chain : Chain) (tokens modifiers : List Token) :
    Spares (elseOwner chain tokens modifiers) := by
  simp only [elseOwner, fail_bind]
  refine .bind (relates_rejectModifiers _) fun _ => .bind (.ofExcept _) fun keyword => ?_
  refine .ite (.throw _) (.bind (.ofExcept _) fun next => .ite (.pure _) (.ite ?_ (.throw _)))
  exact .bind (spares_ifStatement _ _) fun _ => .pure _

theorem spares_owner (chain : Chain) (tokens : List Token) : Spares (owner chain tokens) := by
  simp only [owner]
  split
  · exact .bind (.ofExcept _) fun _ => .throw _
  next kind hb =>
    have hd : Token.declares tokens = false := Bool.eq_false_iff.2 fun hd => by
      cases hb.symm.trans (Token.block?_of_declares hd)
    exact .ite (spares_elseOwner _ _ _) (.bind (spares_statement hd) fun _ => .pure _)

theorem spares_closed {tokens : List Token} (h : Token.declares tokens = false) :
    Spares (closed tokens) := by
  simp only [closed]
  split
  · exact .bind (.ofExcept _) fun _ => .throw _
  · exact spares_statement h

/-- A statement that starts like the declaration of a variable is read as one. -/
theorem closed_of_declares {tokens : List Token} (h : Token.declares tokens) :
    closed tokens = (do return (← variableStatement (Token.afterModifiers tokens)
      (Token.leadingModifiers tokens)).map declared) := by
  rw [closed, Token.block?_of_declares h]
  obtain ⟨first, rest, hr, hk | ⟨name, hk⟩⟩ := Token.exists_of_declares h <;>
    simp only [statement, hr, hk]

end Step

/-! ## Declarations of globals -/

namespace SkimmedGlobal

variable {s : Session}

/-- A global is registered, with the type that follows from its value where none is written, or it
is deferred, or it has no type at all. -/
theorem skim_cases (global : SkimmedGlobal) (hv : s.scopes.Vacant)
    (hm : global.module = s.scopes.currentModule) :
    (∃ v : Variable, v.Registers global.name global.modifiers ∧
      (∀ deferred ∈ global.deferral?,
        Step.inferGlobal? deferred s = (.ok (some v.datatype), s)) ∧
      global.skim s = (.ok (), { s with
        table := (s.table.addVariable global.module v).toOption.getD s.table })) ∨
    (∃ deferred ∈ global.deferral?, Step.inferGlobal? deferred s = (.ok none, s) ∧
      global.skim s = (.ok (), { s with deferred := s.deferred ++ [deferred] })) ∨
    global.deferral? = none ∧ global.skim s = (.ok (), s) := by
  have hregister (type : Datatype) : Step.registerGlobal s.scopes.currentModule
      global.form.identifier global.modifiers type s = (.ok (), _) :=
    Step.registerGlobal_eq_ok.2 rfl
  unfold skim deferral? Step.skimGlobal
  rw [Fallible.bind_of_ok (Fallible.get_apply _), hm]
  cases if global.form.typeKeyword.kind = .question then global.form.value else none with
  | some value =>
    dsimp only
    obtain ⟨_ | type, hi⟩ : ∃ type?, Step.inferGlobal? ⟨s.scopes.currentModule,
        global.form.typeKeyword, global.form.identifier, global.modifiers, value⟩ s =
          (.ok type?, s) := ⟨_, Session.inferGlobal?_eq hv _⟩
    · rw [Fallible.bind_of_ok hi]
      exact .inr (.inl ⟨_, rfl, hi, rfl⟩)
    · rw [Fallible.bind_of_ok hi]
      refine .inl ⟨⟨global.name, type, Token.modifiers global.modifiers, true⟩, ⟨rfl, rfl, rfl⟩,
        fun deferred hd => ?_, hregister type⟩
      obtain rfl := Option.some.inj (Option.mem_def.1 hd)
      exact hi
  | none =>
    rw [Option.map_none]
    cases global.form.typeKeyword.datatype? (Token.areNullable global.modifiers) with
    | some type =>
      exact .inl ⟨⟨global.name, type, Token.modifiers global.modifiers, true⟩, ⟨rfl, rfl, rfl⟩,
        fun deferred hd => absurd hd (Option.not_mem_none deferred), hregister type⟩
    | none => exact .inr (.inr ⟨rfl, rfl⟩)

/-- To register or defer a global enters no scope. -/
theorem skim_keeps (global : SkimmedGlobal) (hv : s.scopes.Vacant)
    (hm : global.module = s.scopes.currentModule) :
    (global.skim s).2.scopes = s.scopes ∧ (global.skim s).2.isSkimming = s.isSkimming := by
  obtain ⟨v, -, -, h⟩ | ⟨deferred, -, -, h⟩ | ⟨-, h⟩ := global.skim_cases hv hm <;>
    rw [h] <;> exact ⟨rfl, rfl⟩

/-- The declaration of a global is refused, if the global is given no value, or the global is
registered or deferred. -/
theorem variableStatement_cases (global : SkimmedGlobal) (hs : s.isSkimming) (hg : s.admitsGlobals)
    (hv : s.scopes.Vacant) (hm : global.module = s.scopes.currentModule) :
    (global.form.value = none ∧ ∃ error, Step.variableStatement
      (Token.afterModifiers global.words) global.modifiers s = (.error error, s)) ∨
    Step.variableStatement (Token.afterModifiers global.words) global.modifiers s =
      (.ok none, (global.skim s).2) := by
  have hskim : global.skim s = (.ok (), (global.skim s).2) := by
    obtain ⟨v, -, -, h⟩ | ⟨deferred, -, -, h⟩ | ⟨-, h⟩ := global.skim_cases hv hm <;> rw [h]
  rw [Step.variableStatement, Fallible.bind_of_ok (Fallible.ofExcept_eq_ok.2 ⟨global.form_eq, rfl⟩)]
  have hplace : Step.placeVariable global.form global.modifiers s = (.ok true, s) ∨
      global.form.value = none ∧
        ∃ error, Step.placeVariable global.form global.modifiers s = (.error error, s) := by
    unfold Step.placeVariable
    simp only [Fallible.bind_of_ok (Fallible.get_apply s), hg, Bool.not_true, Bool.false_and,
      Bool.false_eq_true, if_false, if_true]
    split
    next hn =>
      rw [Bool.and_eq_true, Option.isNone_iff_eq_none] at hn
      exact .inr ⟨hn.1, _, rfl⟩
    next => exact .inl rfl
  obtain hp | ⟨hn, error, hp⟩ := hplace
  · rw [Fallible.bind_of_ok hp]
    have hskimming : Step.isSkimming s = (.ok true, s) := by rw [← hs]; rfl
    rw [Fallible.bind_of_ok hskimming, if_pos rfl, if_pos rfl]
    exact .inr (Fallible.bind_of_ok hskim)
  · rw [Fallible.bind_of_error hp]
    exact .inl ⟨hn, error, rfl⟩

end SkimmedGlobal

namespace Reading

variable {reading : Reading} {token : Token} {global : SkimmedGlobal}

theorem spares_run {α : Type} {step : Step (Option α)}
    (h : reading.session.Spares (step reading.session).2) :
    reading.session.Spares (reading.run step).2.session := by
  rw [run_eq]
  rcases hr : step reading.session with ⟨error | result, after⟩
  · rw [hr] at h
    exact h.trans (.report _ error)
  · rwa [hr] at h

theorem spares_closeBlock (reading : Reading) (brace : Token) :
    reading.session.Spares (reading.closeBlock brace).session := by
  unfold closeBlock
  split
  · exact .report _ _
  · dsimp only
    split
    · exact .report _ _
    next scopes hp =>
      rw [session_changeBody]
      refine .of_scopes fun hb => ?_
      have hpopped := reading.session.scopes.bare_popBlock?
      rw [hb, hp] at hpopped
      exact Option.some.inj hpopped

theorem spares_openBlock (reading : Reading) (tokens : List Token) :
    reading.session.Spares (reading.openBlock tokens).session := by
  have hrun : reading.session.Spares
      (reading.run (Step.owner reading.body.chain tokens)).2.session :=
    spares_run (Step.spares_owner _ _ _ trivial)
  rw [openBlock]
  generalize reading.run (Step.owner reading.body.chain tokens) = ran at hrun ⊢
  obtain ⟨result, after⟩ := ran
  refine hrun.trans (.of_scopes fun hb => ?_)
  dsimp only
  rw [ScopeStack.bare_insideBlock, hb]

/-- What completes the declaration of a global is a `;` outside of functions. -/
theorem global?_eq_some : reading.global? token = some global ↔
    token.kind = .semicolon ∧ reading.session.admitsGlobals ∧ Token.declares global.words ∧
      global.module = reading.session.scopes.currentModule ∧
      global.words = reading.current ++ [token] := by
  unfold global?
  constructor
  · intro h
    split at h
    next hk =>
      dsimp only at h
      split at h
      next hd =>
        split at h
        · obtain rfl := Option.some.inj h
          exact ⟨hk.1, hk.2, hd, rfl, rfl⟩
        · cases h
      next => cases h
    next => cases h
  · rintro ⟨hk, hg, hd, hm, hw⟩
    obtain ⟨module, words, form, hf⟩ := global
    obtain rfl : module = _ := hm
    obtain rfl : words = _ := hw
    rw [if_pos ⟨hk, hg⟩]
    dsimp only at hd ⊢
    rw [if_pos hd]
    split
    next other ho =>
      obtain rfl : other = form := Except.ok.inj (ho.symm.trans hf)
      rfl
    next error he => cases he.symm.trans hf

/-- A statement that is no declaration of a global spares the globals. -/
theorem spares_endStatement (hk : token.kind = .semicolon) (h : reading.global? token = none) :
    reading.session.Spares
      (endStatement { reading with current := [] } (reading.current ++ [token])).session := by
  rw [endStatement_eq, session_changeBody]
  refine @spares_run { reading with current := [] } _ _ ?_
  change reading.session.Spares (Step.closed (reading.current ++ [token]) reading.session).2
  -- A declaration that is not that of a global cannot be read, or it stands inside of a function.
  by_cases hd : Token.declares (reading.current ++ [token])
  · rw [Step.closed_of_declares hd]
    cases hf : VariableForm.ofTokens (Token.afterModifiers (reading.current ++ [token])) with
    | error error =>
      rw [Step.variableStatement, hf]
      exact .refl _
    | ok form =>
      have hg : reading.session.admitsGlobals = false := Bool.eq_false_iff.2 fun hg => by
        have hglobal : reading.global? token = some ⟨reading.session.scopes.currentModule,
            reading.current ++ [token], form, hf⟩ :=
          global?_eq_some.2 ⟨hk, hg, hd, rfl, rfl⟩
        cases h.symm.trans hglobal
      exact (Step.spares_variableStatement _ _).bind (fun _ => .pure _) _ hg
  · exact Step.spares_closed (Bool.eq_false_iff.2 hd) _ trivial

/-- Every token but those that complete the declaration of a global spares the globals. -/
theorem spares_step (h : reading.global? token = none) :
    reading.session.Spares (reading.step token).session := by
  unfold step
  split
  next hk => exact spares_endStatement hk h
  next => exact spares_openBlock { reading with current := [] } _
  next =>
    split
    · exact spares_closeBlock reading token
    · exact (Session.Spares.report _ _).trans
        (spares_closeBlock (report { reading with current := [] } _) token)
  next => exact .refl _

end Reading

/-! ## All globals of a pass -/

namespace Session

/-- From a session of the first pass to a later one some globals have been come upon. A declaration
without a value may have been refused. -/
inductive Skims : Session → List SkimmedGlobal → Session → Prop
  | done (s : Session) : s.Skims [] s
  | spared {s t u : Session} {globals : List SkimmedGlobal} (h : s.Spared t)
      (hn : t.Skims globals u) : s.Skims globals u
  | refused {s u : Session} {global : SkimmedGlobal} {globals : List SkimmedGlobal}
      (hv : global.form.value = none) (hn : s.Skims globals u) : s.Skims (global :: globals) u
  | skimmed {s u : Session} {global : SkimmedGlobal} {globals : List SkimmedGlobal}
      (hs : s.scopes.Vacant) (hm : global.module = s.scopes.currentModule)
      (hc : s.table.contains global.module) (hn : (global.skim s).2.Skims globals u) :
      s.Skims (global :: globals) u

end Session

namespace Session

variable {s t u : Session} {global : SkimmedGlobal} {globals : List SkimmedGlobal}

/-- What is declared or deferred stays so. -/
structure Keeps (s t : Session) : Prop where
  hasGlobal : ∀ p name, s.table.HasGlobal p name → t.table.HasGlobal p name
  deferred : s.deferred ⊆ t.deferred

namespace Keeps

theorem refl (s : Session) : s.Keeps s := ⟨fun _ _ => id, List.Subset.refl _⟩

theorem trans (h : s.Keeps t) (hu : t.Keeps u) : s.Keeps u :=
  ⟨fun p name hg => hu.hasGlobal p name (h.hasGlobal p name hg),
    fun _ hd => hu.deferred (h.deferred hd)⟩

end Keeps

theorem Spared.keeps (h : s.Spared t) : s.Keeps t := by
  refine ⟨fun p name hg => ?_, h.deferred_eq ▸ List.Subset.refl _⟩
  rwa [SymbolTable.HasGlobal, h.global?_eq]

/-- A global whose type has to follow from its value is declared or deferred. -/
theorem keeps_skim (hv : s.scopes.Vacant) (hm : global.module = s.scopes.currentModule)
    (hc : s.table.contains global.module) :
    s.Keeps (global.skim s).2 ∧ ∀ deferred ∈ global.deferral?,
      (global.skim s).2.table.HasGlobal global.module global.name ∨
        deferred ∈ (global.skim s).2.deferred := by
  obtain ⟨v, hr, -, h⟩ | ⟨deferred, hd, -, h⟩ | ⟨hn, h⟩ := global.skim_cases hv hm <;> rw [h]
  · refine ⟨⟨(grows_register hr.initialized).hasGlobal, List.Subset.refl _⟩, fun _ _ => .inl ?_⟩
    rw [← hr.name_eq]
    exact hasGlobal_register hc
  · refine ⟨⟨fun _ _ => id, List.subset_append_left _ _⟩, fun other ho => .inr ?_⟩
    obtain rfl : other = deferred := Option.mem_unique ho hd
    exact List.mem_append_right _ (List.mem_singleton_self _)
  · exact ⟨.refl s, by simp [hn]⟩

namespace Skims

theorem spared_after (h : s.Skims globals t) (hu : t.Spared u) : s.Skims globals u := by
  induction h with
  | done s => exact .spared hu (.done u)
  | spared h _ ih => exact .spared h (ih hu)
  | refused hv _ ih => exact .refused hv (ih hu)
  | skimmed hs hm hc _ ih => exact .skimmed hs hm hc (ih hu)

theorem keeps (h : s.Skims globals t) : s.Keeps t := by
  induction h with
  | done s => exact .refl s
  | spared h _ ih => exact h.keeps.trans ih
  | refused _ _ ih => exact ih
  | skimmed hs hm hc _ ih => exact (keeps_skim hs hm hc).1.trans ih

theorem isSkimming (h : s.Skims globals t) (hs : s.isSkimming) : t.isSkimming := by
  induction h with
  | done s => exact hs
  | spared h _ ih => exact ih h.skimming
  | refused _ _ ih => exact ih hs
  | skimmed hv hm _ _ ih => exact ih ((SkimmedGlobal.skim_keeps _ hv hm).2 ▸ hs)

/-- Of the globals that have been come upon each one whose type has to follow from its value is
declared or deferred. -/
theorem declared_or_deferred (h : s.Skims globals t) :
    ∀ global ∈ globals, ∀ deferred ∈ global.deferral?,
      t.table.HasGlobal global.module global.name ∨ deferred ∈ t.deferred := by
  induction h with
  | done s => exact List.forall_mem_nil _
  | spared _ _ ih => exact ih
  | refused hv _ ih => exact List.forall_mem_cons.2 ⟨by simp [SkimmedGlobal.deferral?, hv], ih⟩
  | skimmed hs hm hc hn ih =>
    refine List.forall_mem_cons.2 ⟨fun deferred hd => ?_, ih⟩
    exact ((keeps_skim hs hm hc).2 deferred hd).imp (hn.keeps.hasGlobal _ _)
      fun hd => hn.keeps.deferred hd

end Skims

end Session

namespace Reading

variable {reading : Reading} {token : Token} {global : SkimmedGlobal}

/-- A token that completes the declaration of a global has the global registered or deferred, unless
the declaration is refused. -/
theorem session_step_of_global (h : reading.global? token = some global)
    (hs : reading.session.isSkimming) (hv : reading.session.scopes.Vacant) :
    (global.form.value = none ∧ reading.session.Spared (reading.step token).session) ∨
      (reading.step token).session = (global.skim reading.session).2 := by
  obtain ⟨hk, hg, hd, hm, hw⟩ := global?_eq_some.1 h
  have hstep : (reading.step token).session =
      Session.after (Step.closed global.words reading.session) := by
    rw [step, hk, hw]
    dsimp only
    rw [endStatement_eq, session_changeBody, run_eq]
  rw [hstep, Step.closed_of_declares hd]
  have hcases := global.variableStatement_cases hs hg hv hm
  rw [SkimmedGlobal.modifiers] at hcases
  obtain ⟨hn, error, he⟩ | he := hcases
  · rw [Fallible.bind_of_error he]
    exact .inl ⟨hn, Session.Spares.report _ error hs⟩
  · rw [Fallible.bind_of_ok he]
    exact .inr rfl

/-- The first pass comes upon the globals of its tokens, in this order, and declares no local. -/
theorem skims_steps (ha : reading.session.Anchored) (hu : Token.Unbroken reading.current)
    (hs : reading.session.isSkimming)
    (hb : reading.session.scopes.bare = reading.session.scopes) (tokens : List Token) :
    reading.session.Skims (reading.globals tokens) (reading.steps tokens).session ∧
      (reading.steps tokens).session.scopes.bare = (reading.steps tokens).session.scopes := by
  induction tokens generalizing reading with
  | nil => exact ⟨.done _, hb⟩
  | cons token rest ih =>
    unfold globals steps
    split
    next => exact ⟨.done _, hb⟩
    next hgo =>
      have hk : token.kind ≠ .endOfFile := fun hk => hgo (by simp [hk])
      have hnext (hs : (reading.step token).session.isSkimming)
          (hb : (reading.step token).session.scopes.bare = (reading.step token).session.scopes) :=
        ih (Guarded.step_eq ha hu token).2 (unbroken_step hu hk) hs hb
      cases hglobal : reading.global? token with
      | none =>
        have hspared := spares_step hglobal hs
        obtain ⟨hskims, hlast⟩ := hnext hspared.skimming (hspared.bare hb)
        exact ⟨.spared hspared hskims, hlast⟩
      | some global =>
        have hv := ScopeStack.vacant_of_bare hb
        obtain ⟨hn, hspared⟩ | hstep := session_step_of_global hglobal hs hv
        · obtain ⟨hskims, hlast⟩ := hnext hspared.skimming (hspared.bare hb)
          exact ⟨.refused hn (.spared hspared hskims), hlast⟩
        · obtain ⟨-, -, -, hm, -⟩ := global?_eq_some.1 hglobal
          obtain ⟨hscopes, hskimming⟩ := global.skim_keeps hv hm
          rw [hstep, hscopes, hskimming] at hnext
          obtain ⟨hskims, hlast⟩ := hnext hs hb
          exact ⟨.skimmed hv hm (hm ▸ ha.toRooted.current) hskims, hlast⟩

theorem spares_finish (reading : Reading) (tokens : List Token) :
    reading.session.Spares (reading.finish tokens).session := by
  have hu : reading.session.Spares reading.reportUnfinished.session := by
    unfold reportUnfinished
    split
    · exact .report _ _
    · exact .refl _
  unfold finish reportUnclosed
  split
  · exact hu.trans (.report _ _)
  · exact hu

end Reading

/-- The first pass comes upon the globals of a program, declares no local, and defers only globals
of modules that are there. -/
theorem Session.skims_readPass (settings : Settings) (tokens : List Token) :
    (initial settings).Skims ((Reading.start (initial settings) .skim).globals tokens)
        ((initial settings).readPass .skim tokens).1 ∧
      ((initial settings).readPass .skim tokens).1.scopes.Vacant ∧
      ((initial settings).readPass .skim tokens).1.Anchored := by
  have ha := Guarded.anchored_start (Guarded.anchored_initial settings) .skim
  obtain ⟨hskims, hb⟩ := Reading.skims_steps ha Token.unbroken_nil rfl rfl tokens
  have hs : ((Reading.start (initial settings) .skim).steps tokens).session.isSkimming :=
    hskims.isSkimming rfl
  have hfinish := Reading.spares_finish ((Reading.start (initial settings) .skim).steps tokens)
    tokens hs
  exact ⟨hskims.spared_after hfinish, ScopeStack.vacant_of_bare (hfinish.bare hb),
    (Guarded.readPass_eq (Guarded.anchored_initial settings) .skim tokens).2⟩

end MuLang
