import MuLang.Proofs.Beside
import MuLang.Proofs.Policy

/-!
# One statement under a wider policy

What a pass gets through, it gets through under a wider policy too, with the same answer. In the
first pass the policy decides only which globals get a type on the spot, and nothing else that the
pass does depends on their types. In the second one names are looked up with the same results, if
the first one has found the same globals.
-/
namespace MuLang

/-- A session, and one under a wider policy at the same point of the same pass. Their globals are the
same in the second pass; in the first one they may differ. -/
structure Session.Eased (pass : Pass) (strict wide : Session) : Prop where
  strict_pass : strict.pass = pass
  wide_pass : wide.pass = pass
  settings : wide.settings.Relaxes strict.settings
  registered_eq : strict.registered = wide.registered
  bare_eq : strict.scopes.bare = wide.scopes.bare
  log_eq : strict.log = wide.log
  scopes_eq : pass = .evaluate → strict.scopes = wide.scopes
  global?_eq : pass = .evaluate → ∀ p name,
    (strict.table.module p).global? name = (wide.table.module p).global? name

namespace Session.Eased

variable {pass : Pass} {s e : Session}

theorem lookups (h : Eased .evaluate s e) : s.table.SameLookups e.table :=
  ⟨congrArg Prod.fst h.registered_eq, h.global?_eq rfl⟩

theorem env (h : Eased .evaluate s e) : e.env.Eases s.env := ⟨h.lookups, h.settings.access⟩

theorem contains_eq (h : Eased pass s e) (p : ModulePath) :
    s.table.contains p = e.table.contains p := by
  have ht : s.table.withoutGlobals = e.table.withoutGlobals := congrArg Prod.fst h.registered_eq
  rw [← SymbolTable.contains_withoutGlobals, ht, SymbolTable.contains_withoutGlobals]

theorem currentModule_eq (h : Eased pass s e) :
    s.scopes.currentModule = e.scopes.currentModule := by
  rw [← ScopeStack.currentModule_bare, h.bare_eq, ScopeStack.currentModule_bare]

theorem currentKind_eq (h : Eased pass s e) : s.scopes.currentKind = e.scopes.currentKind := by
  rw [← ScopeStack.currentKind_bare, h.bare_eq, ScopeStack.currentKind_bare]

theorem inFunction_eq (h : Eased pass s e) : s.scopes.inFunction = e.scopes.inFunction := by
  rw [← ScopeStack.inFunction_bare, h.bare_eq, ScopeStack.inFunction_bare]

theorem admitsGlobals_eq (h : Eased pass s e) : s.admitsGlobals = e.admitsGlobals := by
  have hs : s.stdlib = e.stdlib := congrArg Prod.snd h.registered_eq
  rw [admitsGlobals, admitsGlobals, h.currentKind_eq, hs]

theorem isSkimming_eq (h : Eased pass s e) :
    s.isSkimming = decide (pass = .skim) ∧ e.isSkimming = decide (pass = .skim) := by
  rw [isSkimming, isSkimming, h.strict_pass, h.wide_pass]
  exact ⟨rfl, rfl⟩

/-- Both may enter or leave scopes of one shape. -/
theorem withScopes (h : Eased pass s e) {inner outer : ScopeStack} (hb : inner.bare = outer.bare)
    (he : pass = .evaluate → inner = outer) :
    Eased pass { s with scopes := inner } { e with scopes := outer } :=
  ⟨h.strict_pass, h.wide_pass, h.settings, h.registered_eq, hb, h.log_eq, he, h.global?_eq⟩

/-- Both may register the same. -/
theorem withTable (h : Eased pass s e) {table other : SymbolTable}
    (ht : table.withoutGlobals = other.withoutGlobals)
    (hg : pass = .evaluate → ∀ p name,
      (table.module p).global? name = (other.module p).global? name) :
    Eased pass { s with table } { e with table := other } :=
  ⟨h.strict_pass, h.wide_pass, h.settings, congrArg₂ Prod.mk ht (congrArg Prod.snd h.registered_eq),
    h.bare_eq, h.log_eq, h.scopes_eq, hg⟩

end Session.Eased

namespace Step

open Session (Eased)

variable {α β : Type} {pass : Pass} {holds : Session → Prop} {s e s' t : Session}

/-- Wherever a pass gets through a step, to a session of some sort, it does so under a wider
policy. -/
def CarriesIf (holds : Session → Prop) (pass : Pass) (step : Step α) : Prop :=
  ∀ (s e : Session) (a : α) (s' : Session), Eased pass s e → holds s' → step s = (.ok a, s') →
    ∃ e', step e = (.ok a, e') ∧ Eased pass s' e'

/-- Wherever a pass gets through a step, it does so under a wider policy. -/
abbrev Carries (pass : Pass) (step : Step α) : Prop := CarriesIf (fun _ => True) pass step

namespace CarriesIf

variable {step : Step α}

theorem of_carries (h : Carries pass step) : CarriesIf holds pass step :=
  fun s e a s' ha _ hs => h s e a s' ha trivial hs

theorem pure (a : α) : CarriesIf holds pass (pure a : Step α) := by
  intro s e b s' h _ hs
  obtain ⟨rfl, rfl⟩ := Fallible.pure_eq_ok.1 hs
  exact ⟨e, rfl, h⟩

theorem of_fails (h : Fails step) : CarriesIf holds pass step :=
  fun _ _ _ _ _ _ hs => absurd hs (h _ _ _)

theorem throw {error : Error} : CarriesIf holds pass (throw error : Step α) :=
  of_fails fun _ _ _ h => Fallible.throw_ne_ok.1 h

theorem fail {cause : Cause} {token : Token} : CarriesIf holds pass (fail cause token : Step α) :=
  of_fails (fails_fail cause token)

theorem ofExcept (x : Except Error α) : CarriesIf holds pass (ofExcept x : Step α) := by
  intro s e a s' h _ hs
  obtain ⟨rfl, rfl⟩ := Fallible.ofExcept_eq_ok.1 hs
  exact ⟨e, rfl, h⟩

theorem bind {next : α → Step β} (h : Carries pass step)
    (hn : ∀ a, CarriesIf holds pass (next a)) : CarriesIf holds pass (step >>= next) := by
  intro s e b s' ha hh hs
  obtain ⟨a, between, hfirst, hs⟩ := Fallible.bind_eq_ok.1 hs
  obtain ⟨u, hu, hb⟩ := h s e a between ha trivial hfirst
  obtain ⟨e', he, hl⟩ := hn a between u b s' hb hh hs
  exact ⟨e', Fallible.bind_eq_ok.2 ⟨a, u, hu, he⟩, hl⟩

theorem map (g : α → β) (h : CarriesIf holds pass step) : CarriesIf holds pass (g <$> step) := by
  intro s e b s' ha hh hs
  obtain ⟨a, hf, rfl⟩ := Fallible.map_eq_ok.1 hs
  obtain ⟨e', he, hl⟩ := h s e a s' ha hh hf
  exact ⟨e', Fallible.map_eq_ok.2 ⟨a, he, rfl⟩, hl⟩

theorem ite {c : Prop} [Decidable c] {other : Step α} (h : CarriesIf holds pass step)
    (ho : CarriesIf holds pass other) : CarriesIf holds pass (if c then step else other) := by
  split
  · exact h
  · exact ho

/-- What is read in the same way from both sessions does not tell them apart. -/
theorem get_bind {next : Session → Step α}
    (h : ∀ s e : Session, Eased pass s e → next s = next e)
    (hn : ∀ s, CarriesIf holds pass (next s)) : CarriesIf holds pass (get >>= next) := by
  intro s e a s' ha hh hs
  rw [Fallible.bind_of_ok (Fallible.get_apply _)] at hs ⊢
  rw [← h s e ha]
  exact hn s s e a s' ha hh hs

/-- Where the passes part, only the one that is under way matters. -/
theorem fork {first second : Step α} (h : CarriesIf holds .skim first)
    (ho : CarriesIf holds .evaluate second) :
    CarriesIf holds pass
      (isSkimming >>= fun skimming => if skimming then first else second) := by
  have part (u : Session) : (isSkimming >>= fun skimming => if skimming then first else second) u =
      if u.isSkimming then first u else second u := by
    change (if u.isSkimming then first else second) u = _
    split <;> rfl
  intro s e a s' ha hh hs
  obtain ⟨hskim, hwide⟩ := ha.isSkimming_eq
  rw [part, hskim] at hs
  rw [part, hwide]
  cases pass with
  | skim => exact h s e a s' ha hh hs
  | evaluate => exact ho s e a s' ha hh hs

theorem changeScopes {change : ScopeStack → ScopeStack}
    (h : ∀ inner outer : ScopeStack, inner.bare = outer.bare →
      (change inner).bare = (change outer).bare) :
    CarriesIf holds pass (changeScopes change) := by
  intro s e a s' ha _ hs
  obtain rfl := changeScopes_eq_ok.1 hs
  exact ⟨_, changeScopes_eq_ok.2 rfl, ha.withScopes (h _ _ ha.bare_eq) fun hp => by
    rw [ha.scopes_eq hp]⟩

/-- In the second pass what is accepted has the same type under the wider policy. -/
theorem check {body : Env → Check α}
    (h : ∀ wide narrow : Env, wide.Eases narrow → Fallible.Below (body narrow) (body wide)) :
    CarriesIf holds .evaluate (check body) := by
  intro s e a s' ha _ hs
  obtain ⟨scopes, hx, rfl⟩ := check_eq_ok.1 hs
  have hx := h e.env s.env ha.env _ _ _ hx
  rw [ha.scopes_eq rfl] at hx
  exact ⟨_, check_eq_ok.2 ⟨scopes, hx, rfl⟩, ha.withScopes rfl fun _ => rfl⟩

end CarriesIf

/-! ## Parts of statements -/

theorem carries_expression (tokens : List Token) (context : Token) :
    Carries .evaluate (expression tokens context) :=
  .check fun _ _ h => h.expression tokens context

theorem carries_condition (tokens : List Token) (keyword : Token) :
    Carries .evaluate (condition tokens keyword) := by
  simp only [condition, fail_bind]
  exact .bind (carries_expression _ _) fun _ => .ite .fail (.pure _)

theorem carries_push (kind : ScopeKind) : Carries pass (changeScopes (·.push kind)) := by
  refine .changeScopes fun inner outer hb => ?_
  rw [ScopeStack.bare_push, ScopeStack.bare_push, hb]

theorem carries_rejectModifiers (modifiers : List Token) :
    Carries pass (rejectModifiers modifiers) := by
  rw [rejectModifiers]
  split
  · exact .fail
  · exact .pure _

theorem carries_rejectInvalidModifiers (modifiers : List Token) (target : String)
    (invalid : Modifier → Bool) :
    Carries pass (rejectInvalidModifiers modifiers target invalid) := by
  rw [rejectInvalidModifiers]
  split
  · exact .fail
  · exact .pure _

theorem carries_requireFunction (token : Token) (what : String) :
    Carries pass (requireFunction token what) :=
  .get_bind (fun s e ha => by rw [ha.inFunction_eq]) fun _ => .ite .fail (.pure _)

theorem carries_checkFunctionPlacement (keyword : Token) (modifiers : List Token) :
    Carries pass (checkFunctionPlacement keyword modifiers) := by
  simp only [checkFunctionPlacement, fail_bind]
  refine .get_bind (fun s e ha => by rw [ha.admitsGlobals_eq]) fun _ => .ite .fail ?_
  exact carries_rejectInvalidModifiers _ _ _

theorem carries_placeVariable (form : VariableForm) (modifiers : List Token) :
    Carries pass (placeVariable form modifiers) := by
  simp only [placeVariable, fail_bind]
  refine .get_bind (fun s e ha => by rw [ha.admitsGlobals_eq]) fun s => ?_
  refine .get_bind (fun s e ha => by rw [ha.inFunction_eq]) fun _ => .ite .fail (.ite ?_ ?_)
  · exact .ite .fail (.pure _)
  · exact .bind (carries_rejectInvalidModifiers _ _ _) fun _ => .pure _

/-! ## Modules and functions -/

theorem carries_moduleStatement (tokens modifiers : List Token) :
    Carries pass (moduleStatement tokens modifiers) := by
  simp only [moduleStatement, fail_bind, Fallible.throw_bind]
  refine .bind (carries_rejectModifiers _) fun _ => .bind (.ofExcept _) fun identifier => ?_
  iterate 3 refine .bind (.ofExcept _) fun _ => ?_
  have enter (path : ModulePath) : Carries pass (changeScopes (·.pushIn .module path) >>= fun _ =>
      isSkimming >>= fun skimming => if skimming then pure none
        else pure (some (Stmt.module identifier []))) := by
    refine .bind (.changeScopes fun inner outer hb => ?_) fun _ => .fork (.pure _) (.pure _)
    rw [ScopeStack.bare_pushIn, ScopeStack.bare_pushIn, hb]
  refine .get_bind (fun s e ha => by rw [ha.currentKind_eq, ha.currentModule_eq]) fun s => ?_
  refine .ite .fail (.get_bind (fun s e ha => by rw [ha.contains_eq]) fun t => .ite ?_ (enter _))
  -- The module is new to both tables, and both get it.
  intro u e a u' ha _ hs
  rw [Fallible.bind_of_ok (Fallible.get_apply _)] at hs ⊢
  cases hadd : u.table.addModule s.scopes.currentModule identifier.text with
  | error conflict =>
    simp only [hadd] at hs
    exact absurd hs (by simp)
  | ok extended =>
    obtain ⟨other, hother, htable⟩ := SymbolTable.exists_addModule
      (congrArg Prod.fst ha.registered_eq) hadd
    have hglobals (hp : pass = .evaluate) (p : ModulePath) (name : String) :
        (extended.module p).global? name = (other.module p).global? name := by
      rw [SymbolTable.module_addModule hadd, SymbolTable.module_addModule hother,
        ha.global?_eq hp]
    simp only [hadd, hother] at hs ⊢
    exact enter _ _ _ _ _ (ha.withTable htable hglobals) trivial hs

/-- In the first pass a function is registered if it is in conflict with no other one. -/
theorem carries_registerFunction (definition : FunctionDefinition) :
    Carries .skim (registerFunction definition) := by
  intro s e a s' ha _ hs
  obtain rfl := registerFunction_eq_ok.1 hs
  refine ⟨_, registerFunction_eq_ok.2 rfl, ha.withTable ?_ nofun⟩
  have hw (u : Session) : ((u.table.addFunction u.scopes.currentModule definition).toOption.getD
      u.table).withoutGlobals = ((u.table.withoutGlobals.addFunction u.scopes.currentModule
        definition).toOption.getD u.table.withoutGlobals) := by
    rw [SymbolTable.addFunction_withoutGlobals]
    cases u.table.addFunction u.scopes.currentModule definition <;> rfl
  have ht : s.table.withoutGlobals = e.table.withoutGlobals := congrArg Prod.fst ha.registered_eq
  rw [hw, hw, ht, ha.currentModule_eq]

theorem carries_pushFunction (type : Datatype) :
    Carries pass (changeScopes (·.pushFunction type)) := by
  refine .changeScopes fun inner outer hb => ?_
  rw [ScopeStack.bare_pushFunction, ScopeStack.bare_pushFunction, hb]

theorem carries_declareParameters (header : FunctionHeader) (parameters : List FunctionParameter) :
    Carries .evaluate (declareParameters header parameters) := by
  induction parameters with
  | nil => exact .pure _
  | cons parameter rest ih =>
    rw [declareParameters]
    refine .get_bind (fun s e ha => by rw [ha.scopes_eq rfl]) fun s => ?_
    split
    · -- Both stacks become the one that has been extended.
      refine .bind ?_ fun _ => ih
      intro u e a u' ha _ hs
      obtain rfl := changeScopes_eq_ok.1 hs
      exact ⟨_, changeScopes_eq_ok.2 rfl, ha.withScopes rfl fun _ => rfl⟩
    · exact .throw

theorem carries_functionStatement (tokens modifiers : List Token) :
    Carries pass (functionStatement tokens modifiers) := by
  rw [functionStatement]
  refine .bind (.ofExcept _) fun _ => .bind (carries_checkFunctionPlacement _ _) fun _ => ?_
  refine .bind (.ofExcept _) fun signature => .bind (.ofExcept _) fun definition => .fork ?_ ?_
  · refine .bind (carries_registerFunction _) fun _ => ?_
    exact .bind (carries_pushFunction _) fun _ => .pure _
  · refine .bind (carries_pushFunction _) fun _ => ?_
    exact .bind (carries_declareParameters _ _) fun _ => .pure _

theorem carries_nativeStatement (tokens modifiers : List Token) :
    Carries pass (nativeStatement tokens modifiers) := by
  simp only [nativeStatement, fail_bind]
  refine .bind (.ofExcept _) fun _ => .bind (carries_checkFunctionPlacement _ _) fun _ => .ite ?_ ?_
  · exact .of_fails (fails_ofExcept_bind_fail _ _ _)
  · iterate 4 refine .bind (.ofExcept _) fun _ => ?_
    exact .fork (.bind (carries_registerFunction _) fun _ => .pure _) (.pure _)

/-! ## Variables -/

/-- In the first pass a global is registered or deferred, which may depend on the policy. -/
theorem carries_skimGlobal (typeKeyword identifier : Token) (modifiers : List Token)
    (value : Option (List Token)) :
    Carries .skim (skimGlobal typeKeyword identifier modifiers value) := by
  intro s e a s' ha _ hs
  have hsteady := steady_skimGlobal typeKeyword identifier modifiers value
  have hkeeps := keeps_skimGlobal typeKeyword identifier modifiers value
  -- Nothing but the globals, those that are deferred, and the marks on locals changes.
  have stays {u u' : Session} {result : Except Error Unit}
      (hu : skimGlobal typeKeyword identifier modifiers value u = (result, u')) :
      u'.frame = u.frame ∧ u'.log = u.log ∧ u'.registered = u.registered := by
    refine ⟨hsteady.frame_eq hu, ?_, ?_⟩
    · simpa [hu] using hsteady.log_eq u
    · simpa [hu] using hkeeps u
  obtain ⟨hframe, hlog, hregistered⟩ := stays hs
  cases hwide : skimGlobal typeKeyword identifier modifiers value e with
  | mk result e' =>
    obtain ⟨hframe', hlog', hregistered'⟩ := stays hwide
    cases result with
    | error error =>
      have hr : Raises (fun _ => False) (skimGlobal typeKeyword identifier modifiers value) :=
        raises_skimGlobal _ _ _ _
      exact absurd (hr.failed e error e' hwide) not_false
    | ok u =>
      refine ⟨e', rfl, ?_, ?_, ?_, ?_, ?_, ?_, nofun, nofun⟩
      · exact (congrArg Frame.pass hframe).trans ha.strict_pass
      · exact (congrArg Frame.pass hframe').trans ha.wide_pass
      · have hsettings : s'.settings = s.settings := congrArg Frame.settings hframe
        have hsettings' : e'.settings = e.settings := congrArg Frame.settings hframe'
        rw [hsettings, hsettings']
        exact ha.settings
      · rw [hregistered, hregistered', ha.registered_eq]
      · exact (congrArg Frame.scopes hframe).trans
          (ha.bare_eq.trans (congrArg Frame.scopes hframe').symm)
      · rw [hlog, hlog', ha.log_eq]

theorem carries_declareVariable (identifier : Token) (v : Variable) (isGlobal : Bool) :
    Carries .evaluate (declareVariable identifier v isGlobal) := by
  intro s e a s' ha _ hs
  rw [declareVariable_apply] at hs ⊢
  split at hs
  next hg =>
    rw [ha.currentModule_eq, ha.lookups.global?_eq] at hs
    rw [if_pos hg]
    split at hs
    next hn =>
      rw [if_pos hn]
      split at hs
      next table hadd =>
        cases hs
        obtain ⟨other, hother, hlookups⟩ := ha.lookups.addVariable hadd
        simp only [hother]
        exact ⟨_, rfl, ha.withTable hlookups.withoutGlobals_eq fun _ => hlookups.global?_eq⟩
      next => cases hs
    next hn =>
      rw [if_neg hn]
      cases hs
      exact ⟨e, rfl, ha⟩
  next hg =>
    rw [ha.scopes_eq rfl] at hs
    rw [if_neg hg]
    split at hs
    next scopes hadd =>
      cases hs
      exact ⟨_, rfl, ha.withScopes rfl fun _ => rfl⟩
    next => cases hs

theorem carries_evaluateVariable (form : VariableForm) (modifiers : List Token) (isGlobal : Bool) :
    Carries .evaluate (evaluateVariable form modifiers isGlobal) := by
  have typed (value : Option Expr) :
      Carries .evaluate (declareTyped form modifiers isGlobal value) := by
    rw [declareTyped]
    refine .bind (.ofExcept _) fun type => .bind (.ofExcept _) fun _ => ?_
    refine .bind (carries_declareVariable _ _ _) fun _ => ?_
    split <;> exact .pure _
  rw [evaluateVariable]
  split
  · exact .bind (carries_expression _ _) fun _ => typed _
  · exact typed _

theorem carries_variableStatement (tokens modifiers : List Token) :
    Carries pass (variableStatement tokens modifiers) := by
  rw [variableStatement]
  refine .bind (.ofExcept _) fun form => .bind (carries_placeVariable _ _) fun isGlobal => ?_
  refine .fork (.ite ?_ (.pure _)) (carries_evaluateVariable _ _ _)
  exact .bind (carries_skimGlobal _ _ _ _) fun _ => .pure _

/-! ## Statements of function bodies -/

theorem carries_assignStatement (identifier operator : Token) (value : Expr) :
    Carries pass (assignStatement identifier operator value) := by
  rw [assignStatement]
  exact .fork (.pure _) (.bind (.check fun _ _ h => h.store _ _ _) fun _ => .pure _)

theorem carries_actionStatement (tokens modifiers : List Token) :
    Carries pass (actionStatement tokens modifiers) := by
  rw [actionStatement]
  refine .bind (carries_rejectModifiers _) fun _ => .bind (.ofExcept _) fun identifier => ?_
  refine .bind (carries_requireFunction _ _) fun _ => .bind (.ofExcept _) fun next => ?_
  split
  · refine .fork (.pure _) (.bind (carries_expression _ _) fun value => ?_)
    split
    · exact .pure _
    · exact .fail
  · exact .bind (.ofExcept _) fun _ => .ite (carries_assignStatement _ _ _) (.pure _)
  · exact .bind (.ofExcept _) fun _ => .ite (carries_assignStatement _ _ _) (.pure _)
  · refine .fork (.pure _) (.bind (.ofExcept _) fun _ => ?_)
    exact .bind (carries_expression _ _) fun _ => carries_assignStatement _ _ _
  · exact .fail

theorem carries_ifStatement (tokens modifiers : List Token) :
    Carries pass (ifStatement tokens modifiers) := by
  rw [ifStatement]
  refine .bind (carries_rejectModifiers _) fun _ => .bind (.ofExcept _) fun keyword => ?_
  refine .bind (carries_requireFunction _ _) fun _ => .bind (carries_push _) fun _ => ?_
  exact .fork (.pure _) (.bind (carries_condition _ _) fun _ => .pure _)

theorem carries_whileStatement (tokens modifiers : List Token) :
    Carries pass (whileStatement tokens modifiers) := by
  rw [whileStatement]
  refine .bind (carries_rejectModifiers _) fun _ => .bind (.ofExcept _) fun keyword => ?_
  refine .bind (carries_requireFunction _ _) fun _ => .bind (carries_push _) fun _ => ?_
  exact .fork (.pure _) (.bind (carries_condition _ _) fun _ => .pure _)

theorem carries_returnStatement (tokens modifiers : List Token) :
    Carries pass (returnStatement tokens modifiers) := by
  simp only [returnStatement, fail_bind]
  refine .bind (carries_rejectModifiers _) fun _ => .bind (.ofExcept _) fun keyword => ?_
  refine .bind (carries_requireFunction _ _) fun _ => .fork (.pure _) ?_
  refine .get_bind (fun s e ha => by rw [ha.scopes_eq rfl]) fun s => ?_
  split
  · refine .ite (.ite .fail (.pure _)) (.ite .fail ?_)
    exact .bind (carries_expression _ _) fun _ => .ite .fail (.pure _)
  · exact .ite (.pure _) (.bind (carries_expression _ _) fun _ => .pure _)

theorem carries_finishStatement (tokens modifiers : List Token) :
    Carries pass (finishStatement tokens modifiers) := by
  have finish : Carries pass (modify fun session : Session => { session with stdlib := false }) := by
    intro s e a s' ha _ hs
    obtain rfl := Fallible.modify_eq_ok.1 hs
    have ht : s.table.withoutGlobals = e.table.withoutGlobals := congrArg Prod.fst ha.registered_eq
    exact ⟨_, Fallible.modify_eq_ok.2 rfl, ha.strict_pass, ha.wide_pass, ha.settings,
      congrArg (·, false) ht, ha.bare_eq, ha.log_eq, ha.scopes_eq, ha.global?_eq⟩
  rw [finishStatement]
  refine .bind (carries_rejectModifiers _) fun _ => .bind (.ofExcept _) fun keyword => ?_
  refine .bind (.ofExcept _) fun _ => .ite (.pure _) (.bind finish fun _ => ?_)
  exact .fork (.pure _) (.pure _)

/-- What a `;` ends is carried over. -/
theorem carries_closed (tokens : List Token) : Carries pass (closed tokens) := by
  have hr := reader_closed tokens
  generalize closed tokens = step at hr
  cases hr with
  | nothing => exact .pure _
  | native => exact carries_nativeStatement _ _
  | returning => exact carries_returnStatement _ _
  | finish => exact carries_finishStatement _ _
  | action => exact .map _ (carries_actionStatement _ _)
  | declaration => exact .map _ (carries_variableStatement _ _)
  | fails hf => exact .of_fails hf

/-! ## Heads of blocks -/

theorem carries_expectStart (tokens : List Token) (keyword : Token) (accepts : Kind → Bool)
    (expected : String) : Carries pass (expectStart tokens keyword accepts expected) := by
  rw [expectStart]
  split
  · exact .ite (.pure _) .fail
  · exact .fail

/-- A pass that has reported nothing so far. -/
abbrev Unreported (session : Session) : Prop := session.log.Clean

/-- In the first pass the declaration of a loop is read apart, and an error in it is reported. -/
theorem carries_loopStatement (keyword : Token) (init test step : List Token) :
    CarriesIf Unreported pass (loopStatement keyword init test step) := by
  simp only [loopStatement, fail_bind]
  refine .bind (carries_expectStart _ _ _ _) fun _ => .bind (carries_expectStart _ _ _ _) fun _ => ?_
  have enter : Carries .skim (if test.isEmpty then fail (.expectedToken "a loop condition" ",") keyword
      else changeScopes (·.push .forBlock) >>= fun _ => pure (none : Option Stmt)) :=
    .ite .fail (.bind (carries_push _) fun _ => .pure _)
  refine .fork ?_ (.bind (carries_variableStatement _ _) fun declared => ?_)
  · intro s e a s' ha hc hs
    obtain ⟨found, between, hr, hs⟩ := Fallible.bind_eq_ok.1 hs
    -- What follows the declaration reports nothing, so the declaration has not either.
    have hclean : between.log.Clean := by
      simp at hs
      obtain ⟨-, rfl, -⟩ := hs
      exact hc
    obtain ⟨e₁, he, hl⟩ := carries_variableStatement _ _ s e found between ha trivial
      (of_reporting hr hclean)
    have hreporting : reporting (variableStatement (terminated (Token.afterModifiers init))
        (Token.leadingModifiers init)) e = (.ok found, e₁) := by
      rw [reporting, he]
    rw [Fallible.bind_of_ok hreporting]
    exact enter between e₁ a s' hl trivial hs
  · split
    · exact .pure _
    · exact .fail
    · refine .bind (carries_condition _ _) fun _ => .bind (carries_actionStatement _ _) fun _ => ?_
      split
      · exact .pure _
      · exact .bind (carries_push _) fun _ => .pure _

theorem carries_forStatement (tokens modifiers : List Token) :
    CarriesIf Unreported pass (forStatement tokens modifiers) := by
  simp only [forStatement]
  refine .bind (carries_rejectModifiers _) fun _ => .bind (.ofExcept _) fun keyword => ?_
  refine .bind (carries_requireFunction _ _) fun _ => .bind (carries_push _) fun _ => ?_
  split
  · exact carries_loopStatement _ _ _ _
  · split
    · exact .ite (carries_loopStatement _ _ _ _) .fail
    · exact .fail
  · exact .fail

theorem carries_head {kind : ScopeKind} {step : Step (Option Stmt)} (h : HeadReader kind step) :
    CarriesIf Unreported pass step := by
  cases h with
  | module => exact .of_carries (carries_moduleStatement _ _)
  | function => exact .of_carries (carries_functionStatement _ _)
  | ifElse => exact .of_carries (.map _ (carries_ifStatement _ _))
  | whileLoop => exact .of_carries (carries_whileStatement _ _)
  | forLoop => exact carries_forStatement _ _
  | fails hf => exact .of_fails hf

theorem carries_elseOwner (chain : Chain) (tokens modifiers : List Token) :
    Carries pass (elseOwner chain tokens modifiers) := by
  simp only [elseOwner, fail_bind]
  refine .bind (carries_rejectModifiers _) fun _ => .bind (.ofExcept _) fun keyword => ?_
  refine .ite .fail (.bind (.ofExcept _) fun next => .ite (.pure _) (.ite ?_ .fail))
  exact .map _ (carries_ifStatement _ _)

/-- What an opening brace ends is carried over. -/
theorem carries_owner (chain : Chain) (tokens : List Token) :
    CarriesIf Unreported pass (owner chain tokens) := by
  have hr := ownerReader_owner tokens
  change CarriesIf _ _ ((fun chain => owner chain tokens) chain)
  generalize (fun chain => owner chain tokens) = step, (Token.block? tokens).getD .ifBlock = kind
    at hr
  cases hr with
  | branch => exact .of_carries (carries_elseOwner _ _ _)
  | statement hr => exact .map _ (carries_head hr)
  | fails hf => exact .of_fails hf

end Step

end MuLang
