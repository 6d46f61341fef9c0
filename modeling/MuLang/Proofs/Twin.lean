import MuLang.Proofs.Answers
import MuLang.Proofs.Beside
import MuLang.Proofs.Reached

/-!
# Statements read side by side

A statement does the same in two sessions that look alike from where it stands, whether or not it
gets through: both are in the same pass and in the same scopes, and what names are looked up in
answers alike. Their logs may differ in what has been reported before, and inside of modules one of
them may be in standard-library mode and the other one not.
-/
namespace MuLang

/-- A table with one more entry, unless it cannot be added. -/
theorem SymbolTable.register_eq (table : SymbolTable) (entry : Entry) :
    table.register entry = (entry.add table).toOption.getD table := by
  unfold register
  cases entry.add table <;> rfl

/-! ## Sessions that look alike -/

/-- How two sessions may differ. -/
structure Likeness where
  pass : Pass
  /-- How the tables are related. -/
  kin : SymbolTable → SymbolTable → Prop
  /-- Whether one of them alone may be in standard-library mode. -/
  lax : Prop
  /-- What has been reported to each of them before. -/
  early : List Error
  others : List Error

/-- Tables stay related when something is registered in both, and in the second pass they answer
alike. -/
structure Likeness.Lawful (like : Likeness) : Prop where
  register : ∀ table other entry, like.kin table other →
    like.kin (table.register entry) (other.register entry)
  answers : like.pass = .evaluate → ∀ table other, like.kin table other → table.Answers other

/-- Two sessions that differ as far as a likeness allows. -/
structure Session.Twin (like : Likeness) (s e : Session) : Prop where
  pass_eq : s.pass = like.pass
  other_pass : e.pass = like.pass
  settings_eq : s.settings = e.settings
  scopes_eq : s.scopes = e.scopes
  kin : like.kin s.table e.table
  stdlib_eq : like.lax ∨ s.stdlib = e.stdlib
  inside : like.lax → s.scopes.currentKind ≠ .program
  unlimited : s.log.limit = none ∧ e.log.limit = none
  logs : ∃ late, s.log.errors = like.early ++ late ∧ e.log.errors = like.others ++ late

namespace Session.Twin

variable {like : Likeness} {s e : Session}

theorem isSkimming_eq (h : Twin like s e) : s.isSkimming = e.isSkimming := by
  rw [isSkimming, h.pass_eq, isSkimming, h.other_pass]

/-- Inside of modules it does not matter whether this is the standard library. -/
theorem admitsGlobals_eq (h : Twin like s e) : s.admitsGlobals = e.admitsGlobals := by
  obtain hl | hs := h.stdlib_eq
  · have hk := h.inside hl
    unfold admitsGlobals
    rw [← h.scopes_eq]
    split
    · rfl
    next hp => exact absurd hp hk
    · rfl
  · rw [admitsGlobals, admitsGlobals, h.scopes_eq, hs]

theorem env_answers (hl : like.Lawful) (h : Twin like s e) (hp : like.pass = .evaluate) :
    s.table.Answers e.table ∧ s.settings.access = e.settings.access :=
  ⟨hl.answers hp _ _ h.kin, congrArg Settings.access h.settings_eq⟩

theorem report (h : Twin like s e) (error : Error) :
    Twin like (s.report error) (e.report error) := by
  obtain ⟨late, hs, he⟩ := h.logs
  refine ⟨h.pass_eq, h.other_pass, h.settings_eq, h.scopes_eq, h.kin, h.stdlib_eq,
    h.inside, ⟨?_, ?_⟩, late ++ [error], ?_, ?_⟩
  · exact (Log.extends_report _ _).limit_eq.trans h.unlimited.1
  · exact (Log.extends_report _ _).limit_eq.trans h.unlimited.2
  · rw [Session.report, Log.errors_report h.unlimited.1, hs, List.append_assoc]
  · rw [Session.report, Log.errors_report h.unlimited.2, he, List.append_assoc]

theorem withScopes (h : Twin like s e) {inner outer : ScopeStack} (hs : inner = outer)
    (hi : like.lax → inner.currentKind ≠ .program) :
    Twin like { s with scopes := inner } { e with scopes := outer } :=
  ⟨h.pass_eq, h.other_pass, h.settings_eq, hs, h.kin, h.stdlib_eq, hi, h.unlimited,
    h.logs⟩

/-- A local may be declared in both. -/
theorem withLocal (h : Twin like s e) {v : Variable} {scopes : ScopeStack}
    (hadd : s.scopes.addLocal v = .ok scopes) :
    Twin like { s with scopes } { e with scopes } := by
  refine h.withScopes rfl fun hl => ?_
  rw [← ScopeStack.currentKind_bare, ScopeStack.bare_of_addLocal hadd, ScopeStack.currentKind_bare]
  exact h.inside hl

theorem withTable (h : Twin like s e) {table other : SymbolTable} (hk : like.kin table other) :
    Twin like { s with table } { e with table := other } :=
  ⟨h.pass_eq, h.other_pass, h.settings_eq, h.scopes_eq, hk, h.stdlib_eq, h.inside,
    h.unlimited, h.logs⟩

/-- Both logs take more, or neither does. -/
theorem isClosed_eq (h : Twin like s e) (he : ∀ error ∈ like.early, ¬error.isInternal)
    (ho : ∀ error ∈ like.others, ¬error.isInternal) : s.log.isClosed = e.log.isClosed := by
  have none {errors : List Error} (h : ∀ error ∈ errors, ¬error.isInternal) :
      errors.any (·.isInternal) = false := by simpa using h
  obtain ⟨late, hs, hl⟩ := h.logs
  simp [Log.isClosed, Log.isExhausted, Log.hasInternal, h.unlimited.1, h.unlimited.2, hs, hl,
    none he, none ho]

end Session.Twin

namespace Step

open Session (Twin)

variable {α β : Type} {like : Likeness} {holds : Session → Prop} {s e : Session}

/-- In sessions that look alike, the first of them of some sort, a step has the same answer and
leaves them alike. -/
def TwinsIf (holds : Session → Prop) (like : Likeness) (step : Step α) : Prop :=
  ∀ s e : Session, Twin like s e → holds s →
    (step s).1 = (step e).1 ∧ Twin like (step s).2 (step e).2

/-- In sessions that look alike a step has the same answer and leaves them alike. -/
abbrev Twins (like : Likeness) (step : Step α) : Prop := TwinsIf (fun _ => True) like step

namespace TwinsIf

variable {step : Step α}

theorem of_twins (h : Twins like step) : TwinsIf holds like step :=
  fun s e ha _ => h s e ha trivial

/-- Where a step succeeds in one session, it does so in the other one as well. -/
theorem exists_ok {a : α} {t : Session} (h : TwinsIf holds like step) (ha : Twin like s e)
    (hh : holds s) (hr : step s = (.ok a, t)) :
    ∃ t', step e = (.ok a, t') ∧ Twin like t t' := by
  obtain ⟨hresult, htwin⟩ := h s e ha hh
  rw [hr] at hresult htwin
  exact ⟨(step e).2, Prod.ext hresult.symm rfl, htwin⟩

theorem pure (a : α) : TwinsIf holds like (pure a : Step α) := fun _ _ h _ => ⟨rfl, h⟩

theorem throw {error : Error} : TwinsIf holds like (throw error : Step α) := fun _ _ h _ => ⟨rfl, h⟩

theorem fail {cause : Cause} {token : Token} : TwinsIf holds like (fail cause token : Step α) :=
  .throw

theorem ofExcept (x : Except Error α) : TwinsIf holds like (ofExcept x : Step α) := by
  intro s e h _
  rw [Fallible.ofExcept_apply, Fallible.ofExcept_apply]
  exact ⟨rfl, h⟩

/-- What follows a step may rely on what the step finds out. -/
theorem bind_after {p : α → Session → Prop} {next : α → Step β} (h : TwinsIf holds like step)
    (ha : ∀ s a t, holds s → step s = (.ok a, t) → p a t)
    (hn : ∀ a, TwinsIf (p a) like (next a)) : TwinsIf holds like (step >>= next) := by
  intro s e htwin hh
  obtain ⟨hr, hl⟩ := h s e htwin hh
  rw [Fallible.bind_apply, Fallible.bind_apply]
  rcases hs : step s with ⟨result, s'⟩
  rcases he : step e with ⟨other, e'⟩
  rw [hs, he] at hr hl
  obtain rfl : result = other := hr
  cases result with
  | error error => exact ⟨rfl, hl⟩
  | ok a => exact hn a s' e' hl (ha s a s' hh hs)

theorem bind {next : α → Step β} (h : TwinsIf holds like step) (hn : ∀ a, Twins like (next a)) :
    TwinsIf holds like (step >>= next) :=
  bind_after h (fun _ _ _ _ _ => trivial) hn

theorem mono {other : Session → Prop} (h : TwinsIf holds like step)
    (hm : ∀ s : Session, s.pass = like.pass → other s → holds s) : TwinsIf other like step :=
  fun s e ha ho => h s e ha (hm s ha.pass_eq ho)

theorem map (g : α → β) (h : TwinsIf holds like step) : TwinsIf holds like (g <$> step) := by
  intro s e ha hh
  obtain ⟨hr, hl⟩ := h s e ha hh
  rw [Fallible.map_apply, Fallible.map_apply, hr]
  exact ⟨rfl, hl⟩

theorem ite {c : Prop} [Decidable c] {other : Step α} (h : TwinsIf holds like step)
    (ho : TwinsIf holds like other) : TwinsIf holds like (if c then step else other) := by
  split
  · exact h
  · exact ho

/-- What is read in the same way from both sessions does not tell them apart. -/
theorem get_bind {next : Session → Step α} (h : ∀ s e : Session, Twin like s e → next s = next e)
    (hn : ∀ s, TwinsIf holds like (next s)) : TwinsIf holds like (get >>= next) := by
  intro s e ha hh
  rw [Fallible.bind_of_ok (Fallible.get_apply _), Fallible.bind_of_ok (Fallible.get_apply _),
    ← h s e ha]
  exact hn s s e ha hh

/-- Where the passes part, only the one that is under way matters. -/
theorem fork {first second : Step α} (h : like.pass = .skim → TwinsIf holds like first)
    (ho : like.pass = .evaluate → TwinsIf holds like second) : TwinsIf holds like
      (isSkimming >>= fun skimming => if skimming then first else second) := by
  have part (u : Session) : (isSkimming >>= fun skimming => if skimming then first else second) u =
      if u.isSkimming then first u else second u := by
    change (if u.isSkimming then first else second) u = _
    split <;> rfl
  intro s e ha hh
  rw [part, part, ← ha.isSkimming_eq]
  cases hp : like.pass with
  | skim =>
    have hs : s.isSkimming = true := by simp [Session.isSkimming, ha.pass_eq, hp]
    rw [if_pos hs, if_pos hs]
    exact h hp s e ha hh
  | evaluate =>
    have hs : ¬s.isSkimming = true := by simp [Session.isSkimming, ha.pass_eq, hp]
    rw [if_neg hs, if_neg hs]
    exact ho hp s e ha hh

theorem changeScopes {change : ScopeStack → ScopeStack}
    (h : ∀ scopes, scopes.currentKind ≠ .program → (change scopes).currentKind ≠ .program) :
    TwinsIf holds like (changeScopes change) :=
  fun _ _ ha _ => ⟨rfl, ha.withScopes (congrArg change ha.scopes_eq) fun hl => h _ (ha.inside hl)⟩

/-- Entering a block is not leaving to the top level. -/
theorem enter {change : ScopeStack → Scope} (h : ∀ scopes, (change scopes).kind ≠ .program) :
    TwinsIf holds like (Step.changeScopes fun scopes => scopes.enter (change scopes)) :=
  .changeScopes fun scopes _ => h scopes

end TwinsIf

theorem twins_push {kind : ScopeKind} (h : kind ≠ .program) :
    Twins like (changeScopes (·.push kind)) := .enter fun _ => h

/-- In the second pass a check does the same in tables that answer alike. -/
theorem twins_check {body : Env → Check α} (hl : like.Lawful) (hp : like.pass = .evaluate)
    (hk : ∀ env, Fallible.Keeps ScopeStack.unmarked (body env))
    (h : ∀ table other access, SymbolTable.Answers table other →
      body ⟨table, access⟩ = body ⟨other, access⟩) : Twins like (check body) := by
  intro s e ha _
  have hsteady : (check body s).2.frame = s.frame := ((steady_check hk).moved s).symm
  have hb : (check body s).2.scopes.bare = s.scopes.bare := congrArg Frame.scopes hsteady
  have hbody : body s.env = body e.env := by
    obtain ⟨htable, haccess⟩ := ha.env_answers hl hp
    rw [Session.env, haccess]
    exact h _ _ _ htable
  have hsame : body s.env s.scopes = body e.env e.scopes := by rw [hbody, ha.scopes_eq]
  have h1 : (body s.env s.scopes).1 = (body e.env e.scopes).1 := by rw [hsame]
  have h2 : (body s.env s.scopes).2 = (body e.env e.scopes).2 := by rw [hsame]
  refine ⟨h1, ha.withScopes h2 fun hx => ?_⟩
  have hi := ha.inside hx
  rw [← ScopeStack.currentKind_bare, ← hb, ScopeStack.currentKind_bare] at hi
  exact hi

theorem twins_expression (hl : like.Lawful) (hp : like.pass = .evaluate) (tokens : List Token)
    (context : Token) : Twins like (expression tokens context) :=
  twins_check hl hp (fun env => env.keeps_expression tokens context) fun _ _ _ h =>
    Term.check_eq_of_answers h _

theorem twins_condition (hl : like.Lawful) (hp : like.pass = .evaluate) (tokens : List Token)
    (keyword : Token) : Twins like (condition tokens keyword) := by
  simp only [condition, fail_bind]
  exact .bind (twins_expression hl hp _ _) fun _ => .ite .fail (.pure _)

theorem twins_rejectModifiers (modifiers : List Token) :
    Twins like (rejectModifiers modifiers) := by
  unfold rejectModifiers
  split
  · exact .fail
  · exact .pure _

theorem twins_rejectInvalidModifiers (modifiers : List Token) (target : String)
    (invalid : Modifier → Bool) :
    Twins like (rejectInvalidModifiers modifiers target invalid) := by
  unfold rejectInvalidModifiers
  split
  · exact .fail
  · exact .pure _

theorem twins_requireFunction (token : Token) (what : String) :
    Twins like (requireFunction token what) :=
  .get_bind (fun s e ha => by rw [ha.scopes_eq]) fun _ => .ite .fail (.pure _)

theorem twins_checkFunctionPlacement (keyword : Token) (modifiers : List Token) :
    Twins like (checkFunctionPlacement keyword modifiers) := by
  simp only [checkFunctionPlacement, fail_bind]
  refine .get_bind (fun s e ha => by rw [ha.admitsGlobals_eq]) fun _ => .ite .fail ?_
  exact twins_rejectInvalidModifiers _ _ _

theorem twins_placeVariable (form : VariableForm) (modifiers : List Token) :
    Twins like (placeVariable form modifiers) := by
  simp only [placeVariable, fail_bind]
  refine .get_bind (fun s e ha => by rw [ha.admitsGlobals_eq]) fun s => ?_
  refine .get_bind (fun s e ha => by rw [ha.scopes_eq]) fun _ => .ite .fail (.ite ?_ ?_)
  · exact .ite .fail (.pure _)
  · exact .bind (twins_rejectInvalidModifiers _ _ _) fun _ => .pure _

/-! ## Modules and functions -/

/-- Whether or not a module is there before it is entered, it is there afterwards. -/
theorem twins_addModule (hl : like.Lawful) {enter : Step α} (h : Twins like enter)
    (parent : ModulePath) (name : String) (place : Position) :
    Twins like (get >>= fun s : Session => if !s.table.contains (parent ++ [name]) then
      get >>= fun s : Session => match s.table.addModule parent name with
        | .ok table => modify (fun s : Session => { s with table }) >>= fun _ => enter
        | .error conflict => throw (conflict.toError place)
      else enter) := by
  have run (u : Session) : (get >>= fun s : Session => if !s.table.contains (parent ++ [name]) then
      get >>= fun s : Session => match s.table.addModule parent name with
        | .ok table => modify (fun s : Session => { s with table }) >>= fun _ => enter
        | .error conflict => throw (conflict.toError place)
      else enter) u = enter { u with table := u.table.register (.module parent name) } := by
    rw [Fallible.bind_of_ok (Fallible.get_apply _)]
    by_cases hc : u.table.contains (parent ++ [name])
    · have hr : u.table.register (.module parent name) = u.table := by
        simp [SymbolTable.register, Entry.add, SymbolTable.addModule, hc]
      rw [hr, if_neg (by simp [hc])]
    · rw [if_pos (by simp [hc]), Fallible.bind_of_ok (Fallible.get_apply _)]
      simp only [SymbolTable.register, Entry.add, SymbolTable.addModule, hc]
      rfl
  intro s e ha _
  rw [run, run]
  exact h _ _ (ha.withTable (hl.register _ _ _ ha.kin)) trivial

theorem twins_moduleStatement (hl : like.Lawful) (tokens modifiers : List Token) :
    Twins like (moduleStatement tokens modifiers) := by
  simp only [moduleStatement, fail_bind, Fallible.throw_bind]
  refine .bind (twins_rejectModifiers _) fun _ => .bind (.ofExcept _) fun identifier => ?_
  iterate 3 refine .bind (.ofExcept _) fun _ => ?_
  refine .get_bind (fun s e ha => by rw [ha.scopes_eq]) fun s => .ite .fail ?_
  have enter (path : ModulePath) : Twins like (changeScopes (·.pushIn .module path)) :=
    .enter fun _ => nofun
  refine twins_addModule hl (.bind (enter _) fun _ => ?_) _ _ _
  exact .fork (fun _ => .pure _) fun _ => .pure _

theorem twins_registerFunction (hl : like.Lawful) (definition : FunctionDefinition) :
    Twins like (registerFunction definition) := by
  have run (u : Session) : registerFunction definition u = (.ok (), { u with
      table := u.table.register (.function u.scopes.currentModule definition) }) :=
    registerFunction_eq_ok.2 (by rw [SymbolTable.register_eq]; rfl)
  intro s e ha _
  rw [run, run, ← congrArg ScopeStack.currentModule ha.scopes_eq]
  exact ⟨rfl, ha.withTable (hl.register _ _ _ ha.kin)⟩

theorem twins_declareParameters (header : FunctionHeader) (parameters : List FunctionParameter) :
    Twins like (declareParameters header parameters) := by
  induction parameters with
  | nil => exact .pure _
  | cons parameter rest ih =>
    rw [declareParameters]
    intro s e ha _
    rw [Fallible.bind_of_ok (Fallible.get_apply _), Fallible.bind_of_ok (Fallible.get_apply _),
      ← ha.scopes_eq]
    cases hadd : s.scopes.addLocal
      ⟨parameter.name, parameter.datatype, parameter.modifiers, true⟩ with
    | error conflict => exact ⟨rfl, ha⟩
    | ok scopes => exact ih _ _ (ha.withLocal hadd) trivial

theorem twins_functionStatement (hl : like.Lawful) (tokens modifiers : List Token) :
    Twins like (functionStatement tokens modifiers) := by
  have enter (type : Datatype) : Twins like (changeScopes (·.pushFunction type)) :=
    .enter fun _ => nofun
  rw [functionStatement]
  refine .bind (.ofExcept _) fun _ => .bind (twins_checkFunctionPlacement _ _) fun _ => ?_
  refine .bind (.ofExcept _) fun signature => .bind (.ofExcept _) fun definition => ?_
  refine .fork (fun _ => ?_) fun _ => ?_
  · refine .bind (twins_registerFunction hl _) fun _ => .bind (enter _) fun _ => .pure _
  · exact .bind (enter _) fun _ => .bind (twins_declareParameters _ _) fun _ => .pure _

theorem twins_nativeStatement (hl : like.Lawful) (tokens modifiers : List Token) :
    Twins like (nativeStatement tokens modifiers) := by
  simp only [nativeStatement, fail_bind]
  refine .bind (.ofExcept _) fun _ => .bind (twins_checkFunctionPlacement _ _) fun _ => .ite ?_ ?_
  · exact .bind (.ofExcept _) fun _ => .fail
  · iterate 4 refine .bind (.ofExcept _) fun _ => ?_
    exact .fork (fun _ => .bind (twins_registerFunction hl _) fun _ => .pure _) fun _ => .pure _

/-! ## Variables -/

theorem twins_registerGlobal (hl : like.Lawful) (module : ModulePath) (identifier : Token)
    (modifiers : List Token) (type : Datatype) :
    Twins like (registerGlobal module identifier modifiers type) := by
  have run (u : Session) : registerGlobal module identifier modifiers type u = (.ok (), { u with
      table := u.table.register (.global module
        ⟨identifier.text, type, Token.modifiers modifiers, true⟩) }) :=
    registerGlobal_eq_ok.2 (by rw [SymbolTable.register_eq]; rfl)
  intro s e ha _
  rw [run, run]
  exact ⟨rfl, ha.withTable (hl.register _ _ _ ha.kin)⟩

/-- A global of a written type is registered without a look at any other one. -/
theorem twins_skimGlobal (hl : like.Lawful) {typeKeyword : Token}
    (hk : typeKeyword.kind ≠ .question) (identifier : Token) (modifiers : List Token)
    (value : Option (List Token)) :
    Twins like (skimGlobal typeKeyword identifier modifiers value) := by
  rw [skimGlobal]
  refine .get_bind (fun s e ha => by rw [ha.scopes_eq]) fun s => ?_
  simp only [if_neg hk]
  split
  · exact twins_registerGlobal hl _ _ _ _
  · exact .pure _

theorem twins_declareVariable (hl : like.Lawful) {identifier : Token} {v : Variable}
    (hv : v.name = identifier.text) (isGlobal : Bool) :
    Twins like (declareVariable identifier v isGlobal) := by
  intro s e ha _
  cases isGlobal with
  | true =>
    -- A global that is registered already stays as it is.
    have run (u : Session) : declareVariable identifier v true u = (.ok (), { u with
        table := u.table.register (.global u.scopes.currentModule v) }) := by
      rw [declareVariable_apply, if_pos rfl, ← hv]
      cases hg : (u.table.module u.scopes.currentModule).global? v.name <;>
        simp [SymbolTable.register, Entry.add, SymbolTable.addVariable, hg]
    rw [run, run, ← congrArg ScopeStack.currentModule ha.scopes_eq]
    exact ⟨rfl, ha.withTable (hl.register _ _ _ ha.kin)⟩
  | false =>
    rw [declareVariable_apply, declareVariable_apply, ← ha.scopes_eq, if_neg Bool.false_ne_true,
      if_neg Bool.false_ne_true]
    cases hadd : s.scopes.addLocal v with
    | error conflict => exact ⟨rfl, ha⟩
    | ok scopes => exact ⟨rfl, ha.withLocal hadd⟩

theorem twins_evaluateVariable (hl : like.Lawful) (hp : like.pass = .evaluate)
    (form : VariableForm) (modifiers : List Token) (isGlobal : Bool) :
    Twins like (evaluateVariable form modifiers isGlobal) := by
  have typed (value : Option Expr) : Twins like (declareTyped form modifiers isGlobal value) := by
    rw [declareTyped]
    refine .bind (.ofExcept _) fun type => .bind (.ofExcept _) fun _ => ?_
    refine .bind (twins_declareVariable hl rfl _) fun _ => ?_
    split <;> exact .pure _
  rw [evaluateVariable]
  split
  · exact .bind (twins_expression hl hp _ _) fun _ => typed _
  · exact typed _

/-- Where globals may be declared, what a statement of the first pass starts with is not the `?` of
a global whose type has to be inferred. -/
abbrev Written (first? : Option Token) (s : Session) : Prop :=
  s.pass = .skim → s.admitsGlobals → ∀ first ∈ first?, first.kind ≠ .question

theorem twins_variableStatement (hl : like.Lawful) (tokens modifiers : List Token) :
    TwinsIf (Written tokens.head?) like (variableStatement tokens modifiers) := by
  rw [variableStatement]
  refine .bind_after (p := fun form s => s.pass = .skim → s.admitsGlobals →
    form.typeKeyword.kind ≠ .question) (.ofExcept _) (fun s form t hw h => ?_) fun form => ?_
  · obtain ⟨hform, rfl⟩ := Fallible.ofExcept_eq_ok.1 h
    cases tokens with
    | nil => cases hform
    | cons first rest =>
      rw [(typeKeyword_of_ofTokens hform).1]
      exact fun hp hg => hw hp hg first rfl
  refine .bind_after (p := fun (isGlobal : Bool) s => s.pass = .skim → isGlobal →
    form.typeKeyword.kind ≠ .question) (.of_twins (twins_placeVariable form modifiers))
    (fun s isGlobal t hw h => ?_) fun isGlobal => ?_
  · obtain ⟨rfl, -, rfl⟩ := placeVariable_ok h
    exact hw
  refine .fork (fun hp => ?_) fun hp => .of_twins (twins_evaluateVariable hl hp _ _ _)
  cases isGlobal with
  | false => exact .pure _
  | true =>
    intro s e ha hw
    have hk := hw (ha.pass_eq.trans hp) rfl
    exact TwinsIf.bind (twins_skimGlobal hl hk _ _ _) (fun _ => .pure _) s e ha trivial

/-! ## Statements of function bodies -/

theorem twins_assignStatement (hl : like.Lawful) (identifier operator : Token) (value : Expr) :
    Twins like (assignStatement identifier operator value) := by
  rw [assignStatement]
  refine .fork (fun _ => .pure _) fun hp => .bind ?_ fun _ => .pure _
  exact twins_check hl hp (fun env => env.keeps_store identifier operator value) fun _ _ _ h =>
    Env.store_eq_of_answers h _ _ _

theorem twins_actionStatement (hl : like.Lawful) (tokens modifiers : List Token) :
    Twins like (actionStatement tokens modifiers) := by
  rw [actionStatement]
  refine .bind (twins_rejectModifiers _) fun _ => .bind (.ofExcept _) fun identifier => ?_
  refine .bind (twins_requireFunction _ _) fun _ => .bind (.ofExcept _) fun next => ?_
  split
  · refine .fork (fun _ => .pure _) fun hp => .bind (twins_expression hl hp _ _) fun value => ?_
    split
    · exact .pure _
    · exact .fail
  · exact .bind (.ofExcept _) fun _ => .ite (twins_assignStatement hl _ _ _) (.pure _)
  · exact .bind (.ofExcept _) fun _ => .ite (twins_assignStatement hl _ _ _) (.pure _)
  · refine .fork (fun _ => .pure _) fun hp => .bind (.ofExcept _) fun _ => ?_
    exact .bind (twins_expression hl hp _ _) fun _ => twins_assignStatement hl _ _ _
  · exact .fail

theorem twins_ifStatement (hl : like.Lawful) (tokens modifiers : List Token) :
    Twins like (ifStatement tokens modifiers) := by
  rw [ifStatement]
  refine .bind (twins_rejectModifiers _) fun _ => .bind (.ofExcept _) fun keyword => ?_
  refine .bind (twins_requireFunction _ _) fun _ => .bind (twins_push (by decide)) fun _ => ?_
  exact .fork (fun _ => .pure _) fun hp => .bind (twins_condition hl hp _ _) fun _ => .pure _

theorem twins_whileStatement (hl : like.Lawful) (tokens modifiers : List Token) :
    Twins like (whileStatement tokens modifiers) := by
  rw [whileStatement]
  refine .bind (twins_rejectModifiers _) fun _ => .bind (.ofExcept _) fun keyword => ?_
  refine .bind (twins_requireFunction _ _) fun _ => .bind (twins_push (by decide)) fun _ => ?_
  exact .fork (fun _ => .pure _) fun hp => .bind (twins_condition hl hp _ _) fun _ => .pure _

theorem twins_returnStatement (hl : like.Lawful) (tokens modifiers : List Token) :
    Twins like (returnStatement tokens modifiers) := by
  simp only [returnStatement, fail_bind]
  refine .bind (twins_rejectModifiers _) fun _ => .bind (.ofExcept _) fun keyword => ?_
  refine .bind (twins_requireFunction _ _) fun _ => .fork (fun _ => .pure _) fun hp => ?_
  refine .get_bind (fun s e ha => by rw [ha.scopes_eq]) fun s => ?_
  split
  · refine .ite (.ite .fail (.pure _)) (.ite .fail ?_)
    exact .bind (twins_expression hl hp _ _) fun _ => .ite .fail (.pure _)
  · exact .ite (.pure _) (.bind (twins_expression hl hp _ _) fun _ => .pure _)

theorem twins_finishStatement (tokens modifiers : List Token) :
    Twins like (finishStatement tokens modifiers) := by
  have finish : Twins like (modify fun session : Session => { session with stdlib := false }) :=
    fun _ _ ha _ => ⟨rfl, ha.pass_eq, ha.other_pass, ha.settings_eq, ha.scopes_eq,
      ha.kin, .inr rfl, ha.inside, ha.unlimited, ha.logs⟩
  rw [finishStatement]
  refine .bind (twins_rejectModifiers _) fun _ => .bind (.ofExcept _) fun keyword => ?_
  refine .bind (.ofExcept _) fun _ => .ite (.pure _) (.bind finish fun _ => ?_)
  exact .fork (fun _ => .pure _) fun _ => .pure _

/-! ## Loops -/

theorem twins_reporting {step : Step (Option α)} (h : TwinsIf holds like step) :
    TwinsIf holds like (reporting step) := by
  intro s e ha hh
  obtain ⟨hr, hl⟩ := h s e ha hh
  unfold reporting
  rcases hs : step s with ⟨result, s'⟩
  rcases he : step e with ⟨other, e'⟩
  rw [hs, he] at hr hl
  obtain rfl : result = other := hr
  cases result with
  | error error => exact ⟨rfl, hl.report error⟩
  | ok a => exact ⟨rfl, hl⟩

theorem twins_expectStart (tokens : List Token) (keyword : Token) (accepts : Kind → Bool)
    (expected : String) : TwinsIf holds like (expectStart tokens keyword accepts expected) := by
  rw [expectStart]
  split
  · exact .ite (.pure _) .fail
  · exact .fail

/-- Points at which no globals may be declared. -/
abbrev Inside (s : Session) : Prop := s.admitsGlobals = false

theorem twins_loopStatement (hl : like.Lawful) (keyword : Token) (init test step : List Token) :
    TwinsIf Inside like (loopStatement keyword init test step) := by
  have start (tokens : List Token) (accepts : Kind → Bool) (expected : String) (s : Session)
      (u : Unit) (t : Session) (hs : Inside s)
      (h : expectStart tokens keyword accepts expected s = (.ok u, t)) : Inside t := by
    obtain ⟨-, rfl⟩ := expectStart_eq_ok.1 h
    exact hs
  have declaration (tokens modifiers : List Token) :
      TwinsIf Inside like (variableStatement tokens modifiers) :=
    (twins_variableStatement hl tokens modifiers).mono fun s _ hs _ hg => by
      rw [hs] at hg
      cases hg
  simp only [loopStatement, fail_bind]
  refine .bind_after (twins_expectStart _ _ _ _) (start _ _ _) fun _ => ?_
  refine .bind_after (twins_expectStart _ _ _ _) (start _ _ _) fun _ =>
    .fork (fun _ => ?_) fun hp => ?_
  · refine .bind (twins_reporting (declaration _ _)) fun _ => .ite .fail ?_
    exact .bind (twins_push (by decide)) fun _ => .pure _
  · refine .bind (declaration _ _) fun declared => ?_
    split
    · exact .pure _
    · exact .fail
    · refine .bind (twins_condition hl hp _ _) fun _ => ?_
      refine .bind (twins_actionStatement hl _ _) fun _ => ?_
      split
      · exact .pure _
      · exact .bind (twins_push (by decide)) fun _ => .pure _

theorem twins_forStatement (hl : like.Lawful) (tokens modifiers : List Token) :
    Twins like (forStatement tokens modifiers) := by
  have header : Twins like (changeScopes (·.push .loopHeader)) := twins_push (by decide)
  simp only [forStatement]
  refine .bind (twins_rejectModifiers _) fun _ => .bind (.ofExcept _) fun keyword => ?_
  refine .bind (twins_requireFunction _ _) fun _ => ?_
  refine .bind_after (p := fun _ => Inside) header (fun s _ t _ h => ?_) fun _ => ?_
  · obtain rfl := changeScopes_eq_ok.1 h
    rfl
  · split
    · exact twins_loopStatement hl _ _ _ _
    · split
      · exact .ite (twins_loopStatement hl _ _ _ _) .fail
      · exact .fail
    · exact .fail

/-! ## Any statement -/

/-- Any statement does the same in two sessions that look alike, but for a global of the first pass
whose type has to be inferred. -/
theorem twins_statement (hl : like.Lawful) (tokens : List Token) :
    TwinsIf (Written (Token.afterModifiers tokens).head?) like (statement tokens) := by
  simp only [statement, fail_bind]
  split
  next => exact .pure _
  next first more hr =>
    split
    · exact .of_twins (twins_moduleStatement hl _ _)
    · exact .of_twins (twins_functionStatement hl _ _)
    · exact .of_twins (twins_nativeStatement hl _ _)
    · exact .of_twins (.map _ (twins_ifStatement hl _ _))
    · exact .of_twins (twins_whileStatement hl _ _)
    · exact .of_twins (twins_forStatement hl _ _)
    · exact .of_twins (twins_returnStatement hl _ _)
    · exact .of_twins (twins_finishStatement _ _)
    · exact .of_twins (.map _ (twins_actionStatement hl _ _))
    · exact .map _ (twins_variableStatement hl _ _)
    · exact .map _ (twins_variableStatement hl _ _)
    · exact .ite .fail (.ite .fail (.pure _))
    · exact .fail

theorem twins_closed (hl : like.Lawful) (tokens : List Token) :
    TwinsIf (Written (Token.afterModifiers tokens).head?) like (closed tokens) := by
  simp only [closed]
  split
  · exact .bind (.ofExcept _) fun _ => .fail
  · exact twins_statement hl tokens

theorem twins_elseOwner (hl : like.Lawful) (chain : Chain) (tokens modifiers : List Token) :
    Twins like (elseOwner chain tokens modifiers) := by
  simp only [elseOwner, fail_bind]
  refine .bind (twins_rejectModifiers _) fun _ => .bind (.ofExcept _) fun keyword => ?_
  refine .ite .fail (.bind (.ofExcept _) fun next => .ite (.pure _) (.ite ?_ .fail))
  exact .map _ (twins_ifStatement hl _ _)

/-- What opens a block does the same in two sessions that look alike. -/
theorem twins_owner (hl : like.Lawful) (chain : Chain) (tokens : List Token) :
    Twins like (owner chain tokens) := by
  rw [owner]
  split
  · exact .bind (.ofExcept _) fun _ => .fail
  next kind hb =>
    refine .ite (twins_elseOwner hl _ _ _) (.map _ ((twins_statement hl tokens).mono ?_))
    -- No statement with a block declares a variable.
    rintro s - - - - first hf hq
    rw [Token.block?, Option.mem_def.1 hf, Option.bind_some, hq] at hb
    cases hb

end Step

end MuLang
