import MuLang.Proofs.Modest

/-!
# One statement in both passes

Where the first pass gets through a statement, the second one may still fail in it, but only with an
error that does not concern placement, and it goes on beside the first: what decides about placement
is looked at by both passes, and what only the second one looks at is modest.
-/
namespace MuLang

namespace Session

variable {s e s' e' : Session}

theorem Alike.of_frame (h : s.Alike e) (hs : s'.frame = s.frame) (hm : s'.stdlib = s.stdlib) :
    s'.Alike e := by
  have hp : s'.pass = s.pass := congrArg Frame.pass hs
  have hsettings : s'.settings = s.settings := congrArg Frame.settings hs
  have hb : s'.scopes.bare = s.scopes.bare := congrArg Frame.scopes hs
  refine ⟨?_, h.evaluating, hsettings.trans h.settings_eq, hb.trans h.bare_eq, hm.trans h.stdlib_eq⟩
  rw [isSkimming, hp]
  exact h.skimming

theorem Alike.inFunction_eq (h : s.Alike e) : s.scopes.inFunction = e.scopes.inFunction := by
  rw [← ScopeStack.inFunction_bare, h.bare_eq, ScopeStack.inFunction_bare]

/-- Entering scopes of one shape keeps sessions alike. -/
theorem Alike.enter (h : s.Alike e) {inner outer : ScopeStack} (hb : inner.bare = outer.bare) :
    Alike { s with scopes := inner } { e with scopes := outer } :=
  ⟨h.skimming, h.evaluating, h.settings_eq, hb, h.stdlib_eq⟩

end Session

namespace Step

open Session (Alike)

variable {α β : Type} {s e s' t : Session}

/-! ## What both passes look at -/

/-- Both passes do the same, and register nothing by it. -/
def Shared (step : Step α) : Prop := ∀ s e : Session, s.Alike e → (step e).1 = (step s).1 ∧
  (step s).2.Alike (step e).2 ∧ (step e).2.table = e.table ∧ (step e).2.log = e.log

namespace Shared

variable {step : Step α}

theorem pure (a : α) : Shared (pure a : Step α) := fun _ _ h => ⟨rfl, h, rfl, rfl⟩

theorem fail {cause : Cause} {token : Token} : Shared (fail cause token : Step α) :=
  fun _ _ h => ⟨rfl, h, rfl, rfl⟩

theorem ofExcept (x : Except Error α) : Shared (ofExcept x : Step α) := by
  intro s e h
  rw [Fallible.ofExcept_apply, Fallible.ofExcept_apply]
  exact ⟨rfl, h, rfl, rfl⟩

theorem bind {next : α → Step β} (h : Shared step) (hn : ∀ a, Shared (next a)) :
    Shared (step >>= next) := by
  intro s e ha
  obtain ⟨hr, halike, ht, hl⟩ := h s e ha
  rw [Fallible.bind_apply, Fallible.bind_apply]
  rcases hs : step s with ⟨result, s'⟩
  rcases he : step e with ⟨other, e'⟩
  rw [hs, he] at hr halike
  rw [he] at ht hl
  obtain rfl : other = result := hr
  cases other with
  | error error => exact ⟨rfl, halike, ht, hl⟩
  | ok a =>
    obtain ⟨hr', halike', ht', hl'⟩ := hn a s' e' halike
    exact ⟨hr', halike', ht'.trans ht, hl'.trans hl⟩

theorem ite {c : Prop} [Decidable c] {other : Step α} (h : Shared step) (ho : Shared other) :
    Shared (if c then step else other) := by
  split
  · exact h
  · exact ho

/-- What both passes read in the same way does not tell them apart. -/
theorem get_bind {next : Session → Step α} (h : ∀ s e : Session, s.Alike e → next s = next e)
    (hn : ∀ s, Shared (next s)) : Shared (get >>= next) := by
  intro s e ha
  have hr := hn s s e ha
  have he : (get >>= next) e = next s e := by
    rw [h s e ha]
    rfl
  rw [he]
  exact hr

theorem changeScopes {change : ScopeStack → ScopeStack}
    (h : ∀ inner outer : ScopeStack, inner.bare = outer.bare →
      (change inner).bare = (change outer).bare) : Shared (changeScopes change) :=
  fun _ _ ha => ⟨rfl, ha.enter (h _ _ ha.bare_eq), rfl, rfl⟩

end Shared

theorem shared_rejectModifiers (modifiers : List Token) : Shared (rejectModifiers modifiers) := by
  unfold rejectModifiers
  split
  · exact .fail
  · exact .pure _

theorem shared_rejectInvalidModifiers (modifiers : List Token) (target : String)
    (invalid : Modifier → Bool) : Shared (rejectInvalidModifiers modifiers target invalid) := by
  unfold rejectInvalidModifiers
  split
  · exact .fail
  · exact .pure _

theorem shared_requireFunction (token : Token) (what : String) :
    Shared (requireFunction token what) :=
  .get_bind (fun s e ha => by rw [ha.inFunction_eq]) fun _ => .ite .fail (.pure _)

theorem shared_checkFunctionPlacement (keyword : Token) (modifiers : List Token) :
    Shared (checkFunctionPlacement keyword modifiers) := by
  simp only [checkFunctionPlacement, fail_bind]
  refine .get_bind (fun s e ha => by rw [ha.admitsGlobals_eq]) fun _ => .ite .fail ?_
  exact shared_rejectInvalidModifiers _ _ _

theorem shared_placeVariable (form : VariableForm) (modifiers : List Token) :
    Shared (placeVariable form modifiers) := by
  simp only [placeVariable, fail_bind]
  refine .get_bind (fun s e ha => by rw [ha.admitsGlobals_eq]) fun s => ?_
  refine .get_bind (fun s e ha => by rw [ha.inFunction_eq]) fun _ => .ite .fail (.ite ?_ ?_)
  · exact .ite .fail (.pure _)
  · exact .bind (shared_rejectInvalidModifiers _ _ _) fun _ => .pure _

theorem shared_push (kind : ScopeKind) : Shared (changeScopes (·.push kind)) := by
  refine .changeScopes fun inner outer hb => ?_
  rw [ScopeStack.bare_push, ScopeStack.bare_push, hb]

/-! ## Staying beside the first pass -/

/-- What the second pass has done with a statement, from a point beside which the first pass has
gone on to another one. -/
structure Stays (e s' : Session) (ran : Except Error α × Session) : Prop where
  alike : s'.Alike ran.2
  table_eq : ran.2.table.withoutGlobals = e.table.withoutGlobals
  log_eq : ran.2.log = e.log
  elsewhere : ∀ error, ran.1 = .error error → error.Elsewhere

theorem Stays.of_ok {a : α} (h : s'.Alike e) : Stays e s' ((.ok a, e) : Except Error α × Session) :=
  ⟨h, rfl, rfl, fun _ he => nomatch he⟩

/-- The second pass may first do what both passes do. -/
theorem Stays.of_shared {u : Session} {ran : Except Error α × Session} (h : Stays u s' ran)
    (ht : u.table = e.table) (hl : u.log = e.log) : Stays e s' ran :=
  ⟨h.alike, h.table_eq.trans (congrArg _ ht), h.log_eq.trans hl, h.elsewhere⟩

theorem Stays.of_entered {scopes : ScopeStack} {ran : Except Error α × Session}
    (h : Stays { e with scopes } s' ran) : Stays e s' ran := h.of_shared rfl rfl

/-- What is made of the answer does not matter. -/
theorem Stays.map {result : Except Error α} {after : Session} (h : Stays e s' (result, after))
    (g : α → β) : Stays e s' (result.map g, after) := by
  refine ⟨h.alike, h.table_eq, h.log_eq, fun error he => h.elsewhere error ?_⟩
  cases result with
  | error other =>
    cases he
    rfl
  | ok a => cases he

/-- Through something that both passes do, both get alike. -/
theorem Shared.peel {first : Step β} {next : β → Step α} {a : α} (h : Shared first)
    (ha : s.Alike e) (hs : (first >>= next) s = (.ok a, s')) :
    ∃ b t u, first s = (.ok b, t) ∧ next b t = (.ok a, s') ∧ (first >>= next) e = next b u ∧
      t.Alike u ∧ u.table = e.table ∧ u.log = e.log := by
  obtain ⟨b, t, hfirst, hs⟩ := Fallible.bind_eq_ok.1 hs
  obtain ⟨hr, halike, ht, hl⟩ := h s e ha
  rcases he : first e with ⟨other, u⟩
  rw [hfirst, he] at hr halike
  rw [he] at ht hl
  obtain rfl : other = .ok b := hr
  exact ⟨b, t, u, hfirst, hs, Fallible.bind_of_ok he, halike, ht, hl⟩

/-- Wherever the first pass gets through, the second one stays beside it, if it knows the modules
that the first one does. -/
def Tracks (step : Step α) : Prop := ∀ (s e : Session) (a : α) (s' : Session), s.Alike e →
  (∀ p, s'.table.contains p → e.table.contains p) → s'.log.Clean → step s = (.ok a, s') →
  Stays e s' (step e)

/-- Something modest leaves the passes where they are. -/
theorem Modest.stays {holds : Frame → Prop} {step : Step α} (h : Modest holds step)
    (ha : s'.Alike e) (hf : holds e.frame) : Stays e s' (step e) := by
  have hframe : (step e).2.frame = e.frame := (h.steady.moved e).symm
  have hkeeps := h.keeps e
  have hp : (step e).2.pass = e.pass := congrArg Frame.pass hframe
  have hsettings : (step e).2.settings = e.settings := congrArg Frame.settings hframe
  have hb : (step e).2.scopes.bare = e.scopes.bare := congrArg Frame.scopes hframe
  have hevaluating : (step e).2.isSkimming = false := by
    rw [Session.isSkimming, hp]
    exact ha.evaluating
  refine ⟨⟨ha.skimming, hevaluating, ha.settings_eq.trans hsettings.symm, ha.bare_eq.trans hb.symm,
    ha.stdlib_eq.trans (congrArg Prod.snd hkeeps).symm⟩, congrArg Prod.fst hkeeps,
    h.steady.log_eq e, fun error he => ?_⟩
  rcases hs : step e with ⟨result, e'⟩
  rw [hs] at he
  exact h.elsewhere e error e' hf (hs.trans (congrArg (·, e') he))

/-- Points of any sort. -/
abbrev Anywhere (_ : Frame) : Prop := True

namespace Tracks

variable {step : Step α}

theorem pure (a : α) : Tracks (pure a : Step α) := by
  intro s e b s' ha _ _ hs
  obtain ⟨-, rfl⟩ := Fallible.pure_eq_ok.1 hs
  exact .of_ok ha

theorem of_fails (h : Fails step) : Tracks step := fun _ _ _ _ _ _ _ hs => absurd hs (h _ _ _)

theorem map (g : α → β) (h : Tracks step) : Tracks (g <$> step) := by
  intro s e b s' ha hc hl hs
  obtain ⟨a, hs, -⟩ := Fallible.map_eq_ok.1 hs
  rw [Fallible.map_apply]
  exact (h s e a s' ha hc hl hs).map g

theorem ite {c : Prop} [Decidable c] {other : Step α} (h : Tracks step) (ho : Tracks other) :
    Tracks (if c then step else other) := by
  split
  · exact h
  · exact ho

theorem bind {first : Step β} {next : β → Step α} (h : Shared first)
    (hn : ∀ b, Tracks (next b)) : Tracks (first >>= next) := by
  intro s e a s' ha hc hl hs
  obtain ⟨b, t, u, -, hs, he, halike, ht, hlog⟩ := h.peel ha hs
  rw [he]
  have hknown : ∀ p, s'.table.contains p → u.table.contains p := fun p hp => by
    rw [ht]
    exact hc p hp
  exact (hn b t u a s' halike hknown hl hs).of_shared ht hlog

/-- Where the passes part, each goes its own way. -/
theorem fork {first second : Step α} (h : ∀ (s e : Session) (a : α) (s' : Session), s.Alike e →
    s'.log.Clean → first s = (.ok a, s') → Stays e s' (second e)) :
    Tracks (isSkimming >>= fun skimming => if skimming then first else second) := by
  intro s e a s' ha _ hl hs
  have hfirst : (isSkimming >>= fun skimming => if skimming then first else second) s =
      first s := by
    change (if s.isSkimming then first else second) s = first s
    rw [if_pos ha.skimming]
  have hsecond : (isSkimming >>= fun skimming => if skimming then first else second) e =
      second e := by
    change (if e.isSkimming then first else second) e = second e
    rw [if_neg (by simp [ha.evaluating])]
  rw [hfirst] at hs
  rw [hsecond]
  exact h s e a s' ha hl hs

/-- The second pass may do something modest where the first one does nothing. -/
theorem fork_modest {a : α} {second : Step α} (h : Modest Anywhere second) :
    Tracks (isSkimming >>= fun skimming => if skimming then Pure.pure a else second) := by
  refine fork fun s e b s' ha _ hs => ?_
  obtain ⟨-, rfl⟩ := Fallible.pure_eq_ok.1 hs
  exact h.stays ha trivial

end Tracks

/-! ## Statements without a block -/

theorem tracks_nativeStatement (tokens modifiers : List Token) :
    Tracks (nativeStatement tokens modifiers) := by
  simp only [nativeStatement, fail_bind]
  refine .bind (.ofExcept _) fun _ => .bind (shared_checkFunctionPlacement _ _) fun _ => .ite ?_ ?_
  · exact .of_fails (fails_ofExcept_bind_fail _ _ _)
  · iterate 4 refine .bind (.ofExcept _) fun _ => ?_
    refine .fork fun s e a s' ha _ hs => ?_
    obtain ⟨_, t, hregister, hs⟩ := Fallible.bind_eq_ok.1 hs
    obtain ⟨-, rfl⟩ := Fallible.pure_eq_ok.1 hs
    obtain rfl := registerFunction_eq_ok.1 hregister
    exact .of_ok (ha.of_frame rfl rfl)

theorem tracks_actionStatement (tokens modifiers : List Token) :
    Tracks (actionStatement tokens modifiers) := by
  intro s e a s' ha _ _ hs
  have hf := ha.inFunction_eq
  obtain rfl := skim_actionStatement ha.skimming hs
  simp [actionStatement, and_assoc] at hs
  obtain ⟨-, -, -, hin, -⟩ := hs
  exact (modest_actionStatement _ _).stays ha ((inFunction_frame e).2 (hf ▸ hin))

theorem tracks_returnStatement (tokens modifiers : List Token) :
    Tracks (returnStatement tokens modifiers) := by
  intro s e a s' ha _ _ hs
  have hf := ha.inFunction_eq
  obtain rfl := skim_returnStatement ha.skimming hs
  simp [returnStatement, and_assoc] at hs
  obtain ⟨-, -, -, hin, -⟩ := hs
  exact (modest_returnStatement _ _).stays ha ((inFunction_frame e).2 (hf ▸ hin))

theorem tracks_finishStatement (tokens modifiers : List Token) :
    Tracks (finishStatement tokens modifiers) := by
  have finish : Shared (modify fun session : Session => { session with stdlib := false }) :=
    fun _ _ ha => ⟨rfl, ⟨ha.skimming, ha.evaluating, ha.settings_eq, ha.bare_eq, rfl⟩, rfl, rfl⟩
  unfold finishStatement
  refine .bind (shared_rejectModifiers _) fun _ => .bind (.ofExcept _) fun keyword => ?_
  refine .bind (.ofExcept _) fun _ => .ite (.pure _) (.bind finish fun _ => ?_)
  exact .fork_modest (.pure _)

theorem keeps_registerGlobal (module : ModulePath) (identifier : Token) (modifiers : List Token)
    (type : Datatype) :
    Fallible.Keeps Session.registered (registerGlobal module identifier modifiers type) := by
  refine .modify fun s => ?_
  dsimp only
  split
  next table h => exact congrArg (·, s.stdlib) (SymbolTable.withoutGlobals_addVariable h)
  next => rfl

theorem keeps_inferGlobal? (global : DeferredGlobal) :
    Fallible.Keeps Session.registered (inferGlobal? global) := by
  intro s
  unfold inferGlobal?
  split
  next h => exact congrArg (fun ran => ran.2.registered) h.symm
  next h => exact congrArg (fun ran => ran.2.registered) h.symm

theorem keeps_skimGlobal (typeKeyword identifier : Token) (modifiers : List Token)
    (value : Option (List Token)) :
    Fallible.Keeps Session.registered (skimGlobal typeKeyword identifier modifiers value) := by
  unfold skimGlobal
  refine .bind .get fun s => ?_
  split
  · refine .bind (keeps_inferGlobal? _) fun type? => ?_
    split
    · exact keeps_registerGlobal _ _ _ _
    · exact .modify fun _ => rfl
  · split
    · exact keeps_registerGlobal _ _ _ _
    · exact .pure _

theorem tracks_variableStatement (tokens modifiers : List Token) :
    Tracks (variableStatement tokens modifiers) := by
  unfold variableStatement
  refine .bind (.ofExcept _) fun form => .bind (shared_placeVariable _ _) fun isGlobal => ?_
  refine .fork fun s e a s' ha _ hs => ?_
  have hsteady : Steady (if isGlobal then
      skimGlobal form.typeKeyword form.identifier modifiers form.value >>= fun _ => pure none
    else pure (none : Option (VariableHeader × Option Expr))) :=
    .ite (.bind (steady_skimGlobal _ _ _ _) fun _ => steady_pure _) (steady_pure _)
  have hkeeps : Fallible.Keeps Session.registered (if isGlobal then
      skimGlobal form.typeKeyword form.identifier modifiers form.value >>= fun _ => pure none
    else pure (none : Option (VariableHeader × Option Expr))) :=
    .ite (.bind (keeps_skimGlobal _ _ _ _) fun _ => .pure _) (.pure _)
  have hm := hkeeps s
  rw [hs] at hm
  have halike : s'.Alike e := ha.of_frame (hsteady.frame_eq hs) (congrArg Prod.snd hm)
  have hmodest : Modest Anywhere (evaluateVariable form modifiers isGlobal) :=
    modest_evaluateVariable form modifiers isGlobal
  exact hmodest.stays halike trivial

/-- What a `;` ends keeps the passes beside each other. -/
theorem tracks_closed (tokens : List Token) : Tracks (closed tokens) := by
  have hr := reader_closed tokens
  generalize closed tokens = step at hr
  cases hr with
  | nothing => exact .pure _
  | native => exact tracks_nativeStatement _ _
  | returning => exact tracks_returnStatement _ _
  | finish => exact tracks_finishStatement _ _
  | action => exact .map _ (tracks_actionStatement _ _)
  | declaration => exact .map _ (tracks_variableStatement _ _)
  | fails hf => exact .of_fails hf

/-! ## Heads of blocks -/

theorem tracks_moduleStatement (tokens modifiers : List Token) :
    Tracks (moduleStatement tokens modifiers) := by
  simp only [moduleStatement, fail_bind, Fallible.throw_bind]
  refine .bind (shared_rejectModifiers _) fun _ => ?_
  refine .bind (.ofExcept _) fun identifier => ?_
  iterate 3 refine .bind (.ofExcept _) fun _ => ?_
  intro s e a s' ha hc hl hs
  rw [Fallible.bind_of_ok (Fallible.get_apply _)] at hs ⊢
  -- The place of the module is one for both passes.
  obtain ⟨-, hs⟩ | ⟨hk, hs⟩ := Fallible.ite_eq_ok.1 hs
  · exact absurd hs (by simp)
  rw [if_neg (ha.currentKind_eq ▸ hk), ← ha.currentModule_eq]
  rw [Fallible.bind_of_ok (Fallible.get_apply _)] at hs ⊢
  let path := s.scopes.currentModule ++ [identifier.text]
  have enter {table : SymbolTable} (h : (changeScopes (·.pushIn .module path) >>= fun _ =>
      isSkimming >>= fun skimming => if skimming then pure none
        else pure (some (Stmt.module identifier []))) { s with table } = (.ok a, s')) :
      s' = { s with table, scopes := s.scopes.pushIn .module path } := by
    simp [ha.skimming, and_assoc] at h
    exact h.2.symm
  -- The first pass has registered the module, at the latest now.
  obtain ⟨table, hpath, rfl⟩ : ∃ table : SymbolTable, table.contains path ∧
      s' = { s with table, scopes := s.scopes.pushIn .module path } := by
    obtain ⟨hn, hs⟩ | ⟨hn, hs⟩ := Fallible.ite_eq_ok.1 hs
    · rw [Fallible.bind_of_ok (Fallible.get_apply _)] at hs
      cases hadd : s.table.addModule s.scopes.currentModule identifier.text with
      | ok table =>
        simp only [hadd] at hs
        exact ⟨table, (SymbolTable.contains_addModule hadd).2 (.inr rfl), enter hs⟩
      | error conflict =>
        simp only [hadd] at hs
        exact absurd hs (by simp)
    · exact ⟨s.table, by simpa using hn, enter hs⟩
  have hknown : e.table.contains path := hc path hpath
  have hbare : (s.scopes.pushIn .module path).bare = (e.scopes.pushIn .module path).bare := by
    rw [ScopeStack.bare_pushIn, ScopeStack.bare_pushIn, ha.bare_eq]
  rw [if_neg (by simpa using hknown)]
  have hrest : Modest Anywhere (isSkimming >>= fun skimming => if skimming then pure none
      else pure (some (Stmt.module identifier []))) :=
    .isSkimming_bind fun _ => .ite (.pure _) (.pure _)
  exact .of_entered (hrest.stays ⟨ha.skimming, ha.evaluating, ha.settings_eq, hbare, ha.stdlib_eq⟩
    trivial)

theorem tracks_functionStatement (tokens modifiers : List Token) :
    Tracks (functionStatement tokens modifiers) := by
  unfold functionStatement
  refine .bind (.ofExcept _) fun _ => .bind (shared_checkFunctionPlacement _ _) fun _ => ?_
  refine .bind (.ofExcept _) fun signature => .bind (.ofExcept _) fun definition => ?_
  refine .fork fun s e a s' ha _ hs => ?_
  obtain ⟨_, t, hregister, hs⟩ := Fallible.bind_eq_ok.1 hs
  obtain rfl := registerFunction_eq_ok.1 hregister
  obtain ⟨_, u, henter, hs⟩ := Fallible.bind_eq_ok.1 hs
  obtain rfl := changeScopes_eq_ok.1 henter
  obtain ⟨-, rfl⟩ := Fallible.pure_eq_ok.1 hs
  have hbare : (s.scopes.pushFunction definition.returnType).bare =
      (e.scopes.pushFunction definition.returnType).bare := by
    rw [ScopeStack.bare_pushFunction, ScopeStack.bare_pushFunction, ha.bare_eq]
  have hrest : Modest Anywhere (declareParameters (signature.header modifiers)
      definition.parameters >>= fun _ =>
        pure (some (Stmt.function (signature.header modifiers) []))) :=
    .bind (modest_declareParameters _ _) fun _ => .pure _
  exact .of_entered (hrest.stays ⟨ha.skimming, ha.evaluating, ha.settings_eq, hbare, ha.stdlib_eq⟩
    trivial)

theorem tracks_ifStatement (tokens modifiers : List Token) :
    Tracks (ifStatement tokens modifiers) := by
  unfold ifStatement
  refine .bind (shared_rejectModifiers _) fun _ => .bind (.ofExcept _) fun keyword => ?_
  refine .bind (shared_requireFunction _ _) fun _ => .bind (shared_push _) fun _ => ?_
  exact .fork_modest (.bind (modest_condition _ _) fun _ => .pure _)

theorem tracks_whileStatement (tokens modifiers : List Token) :
    Tracks (whileStatement tokens modifiers) := by
  unfold whileStatement
  refine .bind (shared_rejectModifiers _) fun _ => .bind (.ofExcept _) fun keyword => ?_
  refine .bind (shared_requireFunction _ _) fun _ => .bind (shared_push _) fun _ => ?_
  exact .fork_modest (.bind (modest_condition _ _) fun _ => .pure _)

/-! ### Loops -/

/-- The second pass has stayed beside one of two points of the first pass. -/
def StaysNear (e s s' : Session) (ran : Except Error α × Session) : Prop :=
  Stays e s ran ∨ Stays e s' ran

/-- As long as nothing has failed, the second pass may go on to the later point. -/
theorem StaysNear.bind {first : Step β} {next : β → Step α} (h : Stays e s (first e))
    (hn : ∀ b u, first e = (.ok b, u) → s.Alike u → StaysNear u s s' (next b u)) :
    StaysNear e s s' ((first >>= next) e) := by
  rw [Fallible.bind_apply]
  rcases he : first e with ⟨error | b, u⟩
  · rw [he] at h
    exact .inl ⟨h.alike, h.table_eq, h.log_eq, fun other ho => h.elsewhere other (by
      cases ho
      rfl)⟩
  · rw [he] at h
    have trans {later : Session} (hl : Stays u later (next b u)) : Stays e later (next b u) :=
      ⟨hl.alike, hl.table_eq.trans h.table_eq, hl.log_eq.trans h.log_eq, hl.elsewhere⟩
    exact (hn b u he h.alike).imp trans trans

/-- The first pass looks at how the parts of a header start, and reads the declaration. -/
theorem skim_loop_parts {keyword : Token} {init test step : List Token} {result : Option Stmt}
    (hs : s.isSkimming = true) (hg : s.admitsGlobals = false) (hc : t.log.Clean)
    (h : loopStatement keyword init test step s = (.ok result, t)) :
    (∃ first, (Token.afterModifiers init).head? = some first ∧
      (first.kind.isTypeName || first.kind = .question)) ∧
    (∃ first, step.head? = some first ∧ decide (first.kind = .identifier)) ∧
    ∃ found, variableStatement (terminated (Token.afterModifiers init))
      (Token.leadingModifiers init) s = (.ok found, s) := by
  simp [loopStatement, hs, and_assoc] at h
  obtain ⟨hinit, hstep, found, after, hr, -, rfl, -⟩ := h
  have hv := of_reporting hr hc
  obtain ⟨form, -, ⟨hg', -⟩ | ⟨-, -, rfl⟩⟩ := skim_variableStatement hs hv
  · rw [hg] at hg'
    cases hg'
  · exact ⟨by simpa using hinit, by simpa using hstep, found, hv⟩

/-- In the second pass a loop stays beside the scope of its header, or of its block. -/
theorem stays_loopStatement {keyword : Token} {init test step : List Token} {a : Option Stmt}
    (ha : s.Alike e) (hc : ∀ p, s'.table.contains p → e.table.contains p) (hl : s'.log.Clean)
    (hg : s.admitsGlobals = false) (hf : s.scopes.inFunction)
    (hs : loopStatement keyword init test step s = (.ok a, s')) :
    s' = { s with scopes := s.scopes.push .forBlock } ∧
      StaysNear e s s' (loopStatement keyword init test step e) := by
  obtain ⟨hinit, hstep, found, hfound⟩ := skim_loop_parts ha.skimming hg hl hs
  obtain rfl := skim_loopStatement ha.skimming hg hl hs
  have hvariable := tracks_variableStatement _ _ s e found s ha hc hl hfound
  have hskip : (isSkimming e : Except Error Bool × Session) = (.ok false, e) :=
    isSkimming_eq_ok.2 ⟨ha.evaluating, rfl⟩
  refine ⟨rfl, ?_⟩
  unfold loopStatement
  dsimp only
  rw [Fallible.bind_of_ok (a := ()) (expectStart_eq_ok.2 ⟨hinit, rfl⟩),
    Fallible.bind_of_ok (a := ()) (expectStart_eq_ok.2 ⟨hstep, rfl⟩), Fallible.bind_of_ok hskip,
    if_neg Bool.false_ne_true]
  refine .bind hvariable fun declared u _ hu => ?_
  split
  · exact .inl (.of_ok hu)
  · exact .inl ((Modest.fail rfl : Modest Anywhere _).stays hu trivial)
  refine .bind ((modest_condition _ _ : Modest Anywhere _).stays hu trivial) fun value v hv hw => ?_
  have hin : InFunction v.frame := (inFunction_frame v).2 (hw.inFunction_eq ▸ hf)
  refine .bind ((modest_actionStatement _ _).stays hw hin) fun action w _ hw => ?_
  split
  · exact .inl (.of_ok hw)
  · have hbare : (s.scopes.push .forBlock).bare = (w.scopes.push .forBlock).bare := by
      rw [ScopeStack.bare_push, ScopeStack.bare_push, hw.bare_eq]
    exact .inr (.of_entered (.of_ok (hw.enter hbare)))

end Step

/-! ### Inside a block -/

theorem ScopeStack.bare_insideBlock (scopes : ScopeStack) (size : Nat) (kind : ScopeKind) :
    (scopes.insideBlock size kind).bare = scopes.bare.insideBlock size kind := by
  unfold insideBlock
  rw [size_bare, currentKind_bare]
  split
  · exact bare_push _ _
  · rfl

/-- Whatever the heads have entered, inside a block the scopes have one shape. -/
theorem Session.Alike.inside {s e s' e' : Session} (h : s'.Alike e') (hb : s.Alike e)
    (kind : ScopeKind) : (s'.inside s.scopes kind).Alike (e'.inside e.scopes kind) := by
  have hsize : s.scopes.size = e.scopes.size := by
    rw [← ScopeStack.size_bare, hb.bare_eq, ScopeStack.size_bare]
  refine h.enter ?_
  rw [ScopeStack.bare_insideBlock, h.bare_eq, hsize, ScopeStack.bare_insideBlock]

namespace Step

variable {α β : Type} {s e s' t : Session}

/-- Wherever the first pass gets through the head of a block, the second one stays beside it inside
the block. -/
def TracksInside (kind : ScopeKind) (step : Step α) : Prop :=
  ∀ (s e : Session) (a : α) (s' : Session), s.Alike e →
    (∀ p, s'.table.contains p → e.table.contains p) → s'.log.Clean → step s = (.ok a, s') →
    Stays e (s'.inside s.scopes kind) ((step e).1, (step e).2.inside e.scopes kind)

theorem Stays.inside {ran : Except Error α × Session} (h : Stays t s' ran) (hb : s.Alike e)
    (kind : ScopeKind) : Stays t (s'.inside s.scopes kind) (ran.1, ran.2.inside e.scopes kind) :=
  ⟨h.alike.inside hb kind, h.table_eq, h.log_eq, h.elsewhere⟩

theorem Tracks.inside {step : Step α} (h : Tracks step) (kind : ScopeKind) :
    TracksInside kind step := fun s e a s' ha hc hl hs => (h s e a s' ha hc hl hs).inside ha kind

theorem TracksInside.map {kind : ScopeKind} {step : Step α} (g : α → β)
    (h : TracksInside kind step) : TracksInside kind (g <$> step) := by
  intro s e b s' ha hc hl hs
  obtain ⟨a, hs, -⟩ := Fallible.map_eq_ok.1 hs
  rw [Fallible.map_apply]
  exact (h s e a s' ha hc hl hs).map g

/-- A header in which the second pass fails still gets the block that the first pass has entered. -/
theorem tracksInside_forStatement (tokens modifiers : List Token) :
    TracksInside .forBlock (forStatement tokens modifiers) := by
  intro s e a s' ha hc hl hs
  obtain ⟨hin, keyword, init, test, step, hloop⟩ := forStatement_loops hs
  rw [hloop s hin] at hs
  rw [hloop e (ha.inFunction_eq ▸ hin)]
  let header : Session := { s with scopes := s.scopes.push .loopHeader }
  have hbare : (s.scopes.push .loopHeader).bare = (e.scopes.push .loopHeader).bare := by
    rw [ScopeStack.bare_push, ScopeStack.bare_push, ha.bare_eq]
  have hheader : header.Alike { e with scopes := e.scopes.push .loopHeader } := ha.enter hbare
  have hfunction : header.scopes.inFunction := by
    simpa [header, ScopeStack.inFunction, ScopeStack.push, ScopeStack.enter] using hin
  obtain ⟨rfl, hnear⟩ := stays_loopStatement hheader hc hl rfl hfunction hs
  -- Whether the scope of the block has been entered or not, inside the block it is there.
  have hentered : header.inside s.scopes .forBlock =
      { header with scopes := header.scopes.push .forBlock } := by
    have hkind : header.scopes.currentKind ≠ .forBlock := by
      change ScopeKind.loopHeader ≠ .forBlock
      decide
    rw [Session.inside, ScopeStack.insideBlock, if_pos (.inr hkind)]
  have hinside : Session.inside { header with scopes := header.scopes.push .forBlock } s.scopes
      .forBlock = { header with scopes := header.scopes.push .forBlock } := by
    have hsize : s.scopes.size < (header.scopes.push .forBlock).size :=
      Nat.lt_succ_of_lt (Nat.lt_succ_self _)
    have hkind : (header.scopes.push .forBlock).currentKind = .forBlock := rfl
    rw [Session.inside, ScopeStack.insideBlock_of_entered hsize hkind]
  rw [hinside]
  obtain h | h := hnear
  · rw [← hentered]
    exact .of_entered (h.inside ha _)
  · have hs := h.inside ha .forBlock
    rw [hinside] at hs
    exact .of_entered hs

theorem tracksInside_head {kind : ScopeKind} {step : Step (Option Stmt)}
    (h : HeadReader kind step) : TracksInside kind step := by
  cases h with
  | module => exact (tracks_moduleStatement _ _).inside _
  | function => exact (tracks_functionStatement _ _).inside _
  | ifElse => exact ((tracks_ifStatement _ _).map _).inside _
  | whileLoop => exact (tracks_whileStatement _ _).inside _
  | forLoop => exact tracksInside_forStatement _ _
  | fails hf => exact (Tracks.of_fails hf).inside _

/-! ## Branches -/

/-- Of the chain before an `else` only whether it is closed matters. -/
theorem elseOwner_congr {chain follows : Chain} (h : chain = .closed ↔ follows = .closed)
    (tokens modifiers : List Token) :
    elseOwner chain tokens modifiers = elseOwner follows tokens modifiers := by
  unfold elseOwner
  simp only [h]

theorem owner_congr {chain follows : Chain} (h : chain = .closed ↔ follows = .closed)
    (tokens : List Token) : owner chain tokens = owner follows tokens := by
  unfold owner
  simp only [elseOwner_congr h]

theorem tracks_elseOwner (chain : Chain) (tokens modifiers : List Token) :
    Tracks (elseOwner chain tokens modifiers) := by
  simp only [elseOwner, fail_bind]
  refine .bind (shared_rejectModifiers _) fun _ => .bind (.ofExcept _) fun keyword => ?_
  refine .ite (.of_fails (fails_fail _ _)) (.bind (.ofExcept _) fun next => ?_)
  refine .ite (.pure _) (.ite ?_ (.of_fails (fails_fail _ _)))
  exact .map _ (tracks_ifStatement _ _)

/-- What an opening brace ends keeps the passes beside each other. -/
theorem tracksInside_owner (chain : Chain) (tokens : List Token) :
    TracksInside ((Token.block? tokens).getD .ifBlock) (owner chain tokens) := by
  have hr := ownerReader_owner tokens
  change TracksInside _ ((fun chain => owner chain tokens) chain)
  generalize (fun chain => owner chain tokens) = step, (Token.block? tokens).getD .ifBlock = kind
    at hr
  cases hr with
  | branch => exact (tracks_elseOwner _ _ _).inside _
  | statement hr => exact (tracksInside_head hr).map _
  | fails hf => exact (Tracks.of_fails hf).inside _

end Step

end MuLang
