import MuLang.Proofs.Agreement
import MuLang.Proofs.Relaxed

/-!
# Programs under a wider policy

A program that is accepted under a policy gets through the first pass under every wider one, and
registers the same modules and functions. It is accepted there too, as the same program, if the first
pass finds the same globals. It need not: a wider policy can let a global be inferred on the spot
from a variable that is shadowed further down, and the type that has been found first stays.
-/
namespace MuLang

namespace Reading

variable {pass : Pass} {strict wide : Reading} {tokens : List Token} {token : Token}

/-- A reading, and one under a wider policy at the same point. -/
structure Eased (pass : Pass) (strict wide : Reading) : Prop where
  session : Session.Eased pass strict.session wide.session
  program_eq : strict.program = wide.program
  blocks_eq : strict.blocks = wide.blocks
  current_eq : strict.current = wide.current

theorem Eased.body_eq (h : Eased pass strict wide) : strict.body = wide.body := by
  rw [body, body, h.program_eq, h.blocks_eq]

theorem Eased.withSession (h : Eased pass strict wide) {s e : Session}
    (hs : Session.Eased pass s e) :
    Eased pass { strict with session := s } { wide with session := e } :=
  ⟨hs, h.program_eq, h.blocks_eq, h.current_eq⟩

theorem Eased.changeBody (h : Eased pass strict wide) (change : Body → Body) :
    Eased pass (strict.changeBody change) (wide.changeBody change) := by
  refine ⟨?_, ?_, ?_, ?_⟩
  · rw [session_changeBody, session_changeBody]
    exact h.session
  · simp only [Reading.changeBody, ← h.blocks_eq, ← h.program_eq]
    split <;> rfl
  · simp only [Reading.changeBody, ← h.blocks_eq]
    split <;> simp_all
  · rw [current_changeBody, current_changeBody, h.current_eq]

theorem eased_endStatement (h : Eased pass strict wide)
    (hc : (strict.endStatement tokens).session.log.Clean) :
    Eased pass (strict.endStatement tokens) (wide.endStatement tokens) := by
  obtain ⟨result, s, hs, hstrict⟩ := endStatement_of_clean hc
  obtain ⟨e, he, hl⟩ := Step.carries_closed tokens _ _ _ _ h.session trivial hs
  rw [hstrict, endStatement_eq, run_of_ok he]
  exact (h.withSession hl).changeBody _

theorem eased_openBlock (h : Eased pass strict wide)
    (hc : (strict.openBlock tokens).session.log.Clean) :
    Eased pass (strict.openBlock tokens) (wide.openBlock tokens) := by
  obtain ⟨owner, s, hs, hstrict⟩ := openBlock_of_clean hc
  rw [hstrict] at hc
  have hclean : s.log.Clean := hc
  obtain ⟨e, he, hl⟩ := Step.carries_owner strict.body.chain tokens _ _ _ _ h.session hclean hs
  rw [h.body_eq] at he
  have hsize : strict.session.scopes.size = wide.session.scopes.size := by
    rw [← ScopeStack.size_bare, h.session.bare_eq, ScopeStack.size_bare]
  rw [hstrict]
  simp only [openBlock, run_of_ok he]
  refine ⟨hl.withScopes ?_ fun hp => ?_, h.program_eq, congrArg (List.cons _) h.blocks_eq,
    h.current_eq⟩
  · rw [ScopeStack.bare_insideBlock, hl.bare_eq, hsize, ScopeStack.bare_insideBlock]
  · rw [hl.scopes_eq hp, hsize]

theorem eased_closeBlock (h : Eased pass strict wide)
    (hc : (strict.closeBlock token).session.log.Clean) :
    Eased pass (strict.closeBlock token) (wide.closeBlock token) := by
  obtain ⟨owner, body, blocks, scopes, hblocks, hpop, hstrict⟩ := closeBlock_of_clean hc
  -- The other reading is inside the same block, and in scopes of the same shape.
  obtain ⟨around, hpop', hbare⟩ : ∃ around, wide.session.scopes.popBlock? = some around ∧
      around.bare = scopes.bare := by
    rw [← Option.map_eq_some_iff, ScopeStack.bare_popBlock?, ← h.session.bare_eq,
      ← ScopeStack.bare_popBlock?, hpop]
    rfl
  have hwide : wide.closeBlock token = { wide with
      session := { wide.session with scopes := around }, blocks }.changeBody
        (·.close owner body.statements) := by
    simp only [closeBlock, ← h.blocks_eq, hblocks, hpop']
    rfl
  have hscopes (hp : pass = .evaluate) : scopes = around := by
    rw [h.session.scopes_eq hp, hpop'] at hpop
    exact (Option.some.inj hpop).symm
  have hclosed : Eased pass
      { strict with session := { strict.session with scopes }, blocks }
      { wide with session := { wide.session with scopes := around }, blocks } :=
    ⟨h.session.withScopes hbare.symm hscopes, h.program_eq, rfl, h.current_eq⟩
  rw [hstrict, hwide]
  exact hclosed.changeBody _

theorem eased_step (h : Eased pass strict wide) (hc : (strict.step token).session.log.Clean) :
    Eased pass (strict.step token) (wide.step token) := by
  have hstart : Eased pass { strict with current := [] } { wide with current := [] } :=
    ⟨h.session, h.program_eq, h.blocks_eq, rfl⟩
  by_cases hbrace : token.kind = .closeCurly
  · obtain ⟨hcurrent, hstrict⟩ := step_closeCurly_of_clean hbrace hc
    have hwide : wide.step token = wide.closeBlock token := by
      simp [step, hbrace, ← h.current_eq, hcurrent]
    rw [hstrict] at hc ⊢
    rw [hwide]
    exact eased_closeBlock h hc
  · rw [step, step, ← h.current_eq]
    rw [step] at hc
    split
    next hs =>
      simp only [hs] at hc
      exact eased_endStatement hstart hc
    next hs =>
      simp only [hs] at hc
      exact eased_openBlock hstart hc
    next hs => exact absurd hs hbrace
    next => exact ⟨h.session, h.program_eq, h.blocks_eq, rfl⟩

/-- What a pass reads without a report, it reads in the same way under a wider policy. -/
theorem eased_steps (tokens : List Token) (h : Eased pass strict wide)
    (hc : (strict.steps tokens).session.log.Clean) :
    Eased pass (strict.steps tokens) (wide.steps tokens) := by
  induction tokens generalizing strict wide with
  | nil => exact h
  | cons token rest ih =>
    rw [steps, steps, ← h.session.log_eq]
    rw [steps] at hc
    split
    next => exact h
    next hn =>
      rw [if_neg hn] at hc
      exact ih (eased_step h ((extends_steps _ rest).clean hc)) hc

/-- Where nothing is left open the end of the input reports nothing. -/
theorem finish_of_finished {reading : Reading} (hb : reading.blocks = [])
    (hc : reading.current = []) (tokens : List Token) : reading.finish tokens = reading := by
  have hu : reading.reportUnfinished = reading := by
    rw [reportUnfinished, hc]
    rfl
  rw [finish, hu, reportUnclosed, hb]
  rfl

end Reading

/-! ## The first pass -/

namespace Session

theorem registered_retry (session : Session) (global : DeferredGlobal) :
    (session.retry global).2.registered = session.registered := by
  have hk := Step.keeps_inferGlobal? global
    { session with scopes := session.scopes.pushIn .module global.module }
  unfold retry
  dsimp only
  rcases hi : Step.inferGlobal? global
    { session with scopes := session.scopes.pushIn .module global.module } with
    ⟨error | _ | type, after⟩
  · rwa [hi] at hk
  · rwa [hi] at hk
  · rw [hi] at hk
    exact (Step.keeps_registerGlobal _ _ _ _ _).trans hk

theorem registered_retryRound (session : Session) (pending : List DeferredGlobal) :
    (session.retryRound pending).2.registered = session.registered := by
  induction pending generalizing session with
  | nil => rfl
  | cons global rest ih =>
    rw [retryRound_cons]
    exact (ih _).trans (registered_retry session global)

/-- The rounds register neither modules nor functions. -/
theorem registered_resolveDeferred (session : Session) (pending : List DeferredGlobal) :
    (session.resolveDeferred pending).registered = session.registered := by
  induction session, pending using resolveDeferred.induct with
  | case1 session pending left after hround hlt ih =>
    have hr := registered_retryRound session pending
    rw [hround] at hr
    rw [resolveDeferred, hround]
    simp only [hlt, if_true]
    exact ih.trans hr
  | case2 session pending left after hround hlt =>
    have hr := registered_retryRound session pending
    rw [hround] at hr
    rw [resolveDeferred, hround]
    simp only [hlt, if_false]
    exact hr

variable {strict wide : Settings} {tokens : List Token}

/-- If the first pass reports nothing, it reports nothing under a wider policy, and registers the
same modules and functions. -/
theorem eased_skim (h : wide.Relaxes strict) (hc : (skim strict tokens).log.Clean) :
    (skim wide tokens).log = (skim strict tokens).log ∧
      (skim wide tokens).table.withoutGlobals = (skim strict tokens).table.withoutGlobals := by
  have hstart : Reading.Eased .skim (.start (.initial strict) .skim)
      (.start (.initial wide) .skim) := by
    refine ⟨⟨rfl, rfl, h, ?_, rfl, ?_, nofun, nofun⟩, rfl, rfl, rfl⟩
    · exact congrArg (SymbolTable.empty.withoutGlobals, ·) h.stdlib_eq.symm
    · exact congrArg Log.empty h.maxErrors_eq.symm
  let first (settings : Settings) := (Reading.start (.initial settings) .skim).steps tokens
  have hskim (settings : Settings) : skim settings tokens =
      { ((first settings).finish tokens).session with deferred := [] }.resolveDeferred
        ((first settings).finish tokens).session.deferred := rfl
  rw [hskim, log_resolveDeferred] at hc
  obtain ⟨hfinish, hblocks, hcurrent⟩ := Reading.finish_of_clean hc
  have hclean : (first strict).session.log.Clean := hfinish ▸ hc
  have heased : Reading.Eased .skim (first strict) (first wide) :=
    Reading.eased_steps tokens hstart hclean
  have hwide : (first wide).finish tokens = first wide :=
    Reading.finish_of_finished (heased.blocks_eq ▸ hblocks) (heased.current_eq ▸ hcurrent) tokens
  rw [hskim strict, hskim wide, hfinish, hwide, log_resolveDeferred, log_resolveDeferred]
  have hregistered (settings : Settings) := registered_resolveDeferred
    { (first settings).session with deferred := [] } (first settings).session.deferred
  refine ⟨heased.session.log_eq.symm, (congrArg Prod.fst (hregistered wide)).trans ?_⟩
  exact (congrArg Prod.fst heased.session.registered_eq).symm.trans
    (congrArg Prod.fst (hregistered strict)).symm

end Session

/-! ## The whole analysis -/

variable {strict wide : Settings} {natives : Native.Bindings} {tokens : List Token}

/-- What is parsed without a report is parsed so under a wider policy, if the first pass finds the same
globals there. -/
theorem parse_of_relaxes {program : List Stmt} (hb : strict.maxErrors ≠ some 0)
    (h : wide.Relaxes strict) (hp : parse strict tokens = (some program, []))
    (hg : ∀ p name, ((Session.skim strict tokens).table.module p).global? name =
      ((Session.skim wide tokens).table.module p).global? name) :
    parse wide tokens = (some program, []) := by
  obtain ⟨hskimmed, hsecond, hblocks, hcurrent, hstatements⟩ := evaluated_of_parse hb hp
  obtain ⟨hlog, htable⟩ := Session.eased_skim h hskimmed
  have hwide : (Session.skim wide tokens).log.Clean := hlog ▸ hskimmed
  obtain ⟨-, -, -, hsettings⟩ := Session.skimmed_of_clean hskimmed
  obtain ⟨-, -, -, hsettings'⟩ := Session.skimmed_of_clean hwide
  have hstart : Reading.Eased .evaluate (.start (Session.skim strict tokens) .evaluate)
      (.start (Session.skim wide tokens) .evaluate) := by
    refine ⟨⟨rfl, rfl, ?_, ?_, rfl, hlog.symm, fun _ => rfl, fun _ => hg⟩, rfl, rfl, rfl⟩
    · exact hsettings.symm ▸ hsettings'.symm ▸ h
    · refine congrArg₂ Prod.mk htable.symm ?_
      change (Session.skim strict tokens).settings.stdlib = (Session.skim wide tokens).settings.stdlib
      rw [hsettings, hsettings', h.stdlib_eq]
  have heased := Reading.eased_steps tokens hstart hsecond
  have hfinish := Reading.finish_of_finished (heased.blocks_eq ▸ hblocks)
    (heased.current_eq ▸ hcurrent) tokens
  rw [parse, hwide.errors_eq, Session.readPass]
  simp only [List.isEmpty_nil, if_true, hfinish, ← heased.program_eq, ← heased.session.log_eq,
    hstatements, hsecond.errors_eq]

/-- A program that is accepted gets through the first pass under every wider policy, which registers
the same modules and functions; and if it finds the same globals, the program is accepted there as
the same one. -/
theorem analyze_of_relaxes {analysis : Analysis} (h : wide.Relaxes strict)
    (ha : analyze strict natives tokens = .ok analysis) :
    (Session.skim wide tokens).log.errors = [] ∧
    (Session.skim wide tokens).table.withoutGlobals =
      (Session.skim strict tokens).table.withoutGlobals ∧
    ((∀ p name, ((Session.skim strict tokens).table.module p).global? name =
      ((Session.skim wide tokens).table.module p).global? name) →
      analyze wide natives tokens = .ok analysis) := by
  by_cases hb : strict.maxErrors = some 0
  · -- Without a budget every program is accepted as the empty one.
    have hb' : wide.maxErrors = some 0 := h.maxErrors_eq.trans hb
    have empty {settings : Settings} (hs : settings.maxErrors = some 0) :
        analyze settings natives tokens = .ok ⟨[], .empty⟩ := by
      have hs : settings = { settings with maxErrors := some 0 } := by rw [← hs]
      rw [hs, analyze_of_no_budget]
    rw [Session.skim_of_no_budget hb, Session.skim_of_no_budget hb', empty hb', ← ha, empty hb]
    exact ⟨rfl, rfl, fun _ => rfl⟩
  · obtain ⟨hp, hd⟩ := analyze_eq_ok.1 ha
    obtain ⟨hlog, htable⟩ := Session.eased_skim h (evaluated_of_parse hb hp).1
    refine ⟨?_, htable, fun hg => analyze_eq_ok.2 ⟨parse_of_relaxes hb h hp hg, ?_⟩⟩
    · rw [hlog, (evaluated_of_parse hb hp).1.errors_eq]
    · rwa [define, Definer.initial, h.maxErrors_eq]

/-- Settings under which code inside a module may use what is private to it. -/
def openedInwards : Settings := { access := { privateScope := .subtree } }

theorem openedInwards_relaxes : openedInwards.Relaxes {} :=
  ⟨⟨.inl rfl, by decide, by decide⟩, rfl, rfl⟩

/-- The words of a module `o` with the global `priv TYPE x = VALUE;` around a module `i` with the
globals `? a = x; int x = 2; int b = a;`. -/
def withPrivate (type : TypeName) (value : Literal) : List Token :=
  [.synthetic (.keyword .moduleWord) "module", .synthetic .identifier "o",
    .synthetic .openCurly "\x7b", .synthetic (.modifier .priv) "priv",
    .synthetic (.typeName type) "type", .synthetic .identifier "x",
    .synthetic (.assign .plain) "=", .synthetic (.literal value) "1", .synthetic .semicolon ";",
    .synthetic (.keyword .moduleWord) "module", .synthetic .identifier "i",
    .synthetic .openCurly "\x7b", .synthetic .question "?", .synthetic .identifier "a",
    .synthetic (.assign .plain) "=", .synthetic .identifier "x", .synthetic .semicolon ";",
    .synthetic (.typeName .int) "int", .synthetic .identifier "x",
    .synthetic (.assign .plain) "=", .synthetic (.literal .integer) "2", .synthetic .semicolon ";",
    .synthetic (.typeName .int) "int", .synthetic .identifier "b",
    .synthetic (.assign .plain) "=", .synthetic .identifier "a", .synthetic .semicolon ";",
    .synthetic .closeCurly "\x7d", .synthetic .closeCurly "\x7d"]

/-- Where `o.x` is a private `string`, the program is accepted as long as `i` may not use it. -/
theorem relaxed_private_differs :
    openedInwards.Relaxes {} ∧
    (∃ analysis, analyze {} (fun _ _ => .notFound) (withPrivate .string .string) = .ok analysis) ∧
    analyze openedInwards (fun _ _ => .notFound) (withPrivate .string .string) =
      .error [⟨.typeMismatch "int" "string", .nowhere, []⟩] := by
  refine ⟨openedInwards_relaxes, ?_, ?_⟩
  · with_unfolding_all exact ⟨_, rfl⟩
  · with_unfolding_all rfl

/-- A module `o` with a private `int` around a module `i` with some globals. -/
def tableWith (globals : List Variable) : SymbolTable :=
  ⟨[.empty [], ⟨["o"], [⟨"x", .plain .int, [.priv], true⟩], []⟩, ⟨["o", "i"], globals, []⟩]⟩

theorem global?_tableWith {globals others : List Variable}
    (h : ∀ name, globals.find? (·.name = name) = others.find? (·.name = name)) (p : ModulePath)
    (name : String) : ((tableWith globals).module p).global? name =
      ((tableWith others).module p).global? name := by
  by_cases hp : p = ["o", "i"]
  · subst hp
    simpa [tableWith, SymbolTable.module, SymbolTable.module?, Module.empty, Module.global?] using
      h name
  · have apart (globals : List Variable) : (tableWith globals).module p = (tableWith []).module p := by
      simp [tableWith, SymbolTable.module, SymbolTable.module?, Module.empty, List.find?,
        eq_comm (b := p), hp]
    rw [apart globals, apart others]

/-- Where it is a private `int`, the type of `a` is found after the first pass or on the spot, and the
globals of `i` are the same in another order. -/
theorem analyze_of_relaxes_of_private :
    ∃ analysis, analyze {} (fun _ _ => .notFound) (withPrivate .int .integer) = .ok analysis ∧
      (Session.skim openedInwards (withPrivate .int .integer)).log.errors = [] ∧
      (Session.skim openedInwards (withPrivate .int .integer)).table.withoutGlobals =
        (Session.skim {} (withPrivate .int .integer)).table.withoutGlobals ∧
      analyze openedInwards (fun _ _ => .notFound) (withPrivate .int .integer) = .ok analysis := by
  let global (name : String) : Variable := ⟨name, .plain .int, [], true⟩
  have hstrict : (Session.skim {} (withPrivate .int .integer)).table =
      tableWith [global "x", global "b", global "a"] := by
    with_unfolding_all rfl
  have hwide : (Session.skim openedInwards (withPrivate .int .integer)).table =
      tableWith [global "a", global "x", global "b"] := by
    with_unfolding_all rfl
  obtain ⟨analysis, ha⟩ : ∃ analysis,
      analyze {} (fun _ _ => .notFound) (withPrivate .int .integer) = .ok analysis := by
    with_unfolding_all exact ⟨_, rfl⟩
  obtain ⟨herrors, htable, hok⟩ := analyze_of_relaxes openedInwards_relaxes ha
  refine ⟨analysis, ha, herrors, htable, hok ?_⟩
  rw [hstrict, hwide]
  exact global?_tableWith fun name => by grind

end MuLang
