import MuLang.Analysis
import MuLang.Proofs.Budget.Definition
import MuLang.Proofs.Budget.Reading

/-!
# Analyses under a budget

An analysis with a budget runs like the analysis without one until the budget is spent, and what the
latter does after that cannot be seen in the first errors. Hence a budget of at least one error cuts
off the errors of a program and does nothing else. With a budget of none nothing is read at all, and
every program is taken for the empty one.
-/
namespace MuLang

/-! ## One pass beside the other -/

namespace Session

variable {session limited : Session} {budget : Nat}

/-- The session under a budget beside the one without: it has reported what fits, and knows the same
as long as more would fit. -/
structure Follows (budget : Nat) (session limited : Session) : Prop where
  log_eq : limited.log = session.log.within budget
  eq_within : session.log.errors.length < budget → limited = session.within budget

theorem initial_within (settings : Settings) (budget : Nat) :
    initial { settings with maxErrors := some budget } =
      (initial { settings with maxErrors := none }).within budget := by
  simp [initial, within, withLog, Log.within, Log.empty]

/-- A pass with a budget beside the pass without. -/
theorem follows_readPass (session : Session) (budget : Nat) (hl : session.log.limit = none)
    (pass : Pass) (tokens : List Token) :
    let whole := session.readPass pass tokens
    let part := (session.within budget).readPass pass tokens
    Follows budget whole.1 part.1 ∧ (whole.1.log.errors.length < budget → part.2 = whole.2) := by
  have hs : Reading.Follows budget (Reading.start session pass)
      (Reading.start (session.within budget) pass) :=
    Reading.follows_within budget (Reading.start session pass)
  have hf := Reading.follows_steps hl (Reading.balanced_start session pass) hs tokens
  have hx := Reading.extends_steps (Reading.start session pass) tokens
  have he := Reading.follows_finish (hx.limit_eq.trans hl) hf tokens
  refine ⟨⟨he.log_eq, fun hr => ?_⟩, fun hr => ?_⟩
  · exact congrArg Reading.session (he.eq_within hr)
  · exact congrArg (fun reading => reading.program.statements) (he.eq_within hr)

/-! ## Rounds over deferred globals -/

variable (limit : Option Nat) (log : Log)

theorem retry_withLog (session : Session) (global : DeferredGlobal) :
    (session.withLog limit log).retry global =
      ((session.retry global).1, (session.retry global).2.withLog limit log) := by
  have hi := (Step.steady_inferGlobal? global).blind limit log
    { session with scopes := session.scopes.pushIn .module global.module }
  rcases hs : Step.inferGlobal? global
    { session with scopes := session.scopes.pushIn .module global.module } with ⟨result, after⟩
  rw [hs] at hi
  have hw : Step.inferGlobal? global { session.withLog limit log with
      scopes := (session.withLog limit log).scopes.pushIn .module global.module } =
      (result, after.withLog limit log) := hi
  simp only [retry, hs, hw]
  rcases result with error | (_ | type)
  · rfl
  · rfl
  · have hr := (Step.steady_registerGlobal global.module global.identifier global.modifiers
      type).blind limit log { after with scopes := after.scopes.pop }
    exact congrArg (fun result => (true, result.2)) hr

theorem retryRound_withLog (session : Session) (pending : List DeferredGlobal) :
    (session.withLog limit log).retryRound pending =
      ((session.retryRound pending).1, (session.retryRound pending).2.withLog limit log) := by
  induction pending generalizing session with
  | nil => rfl
  | cons global rest ih =>
    unfold retryRound
    rw [retry_withLog]
    rcases session.retry global with ⟨_ | _, after⟩
    · dsimp only
      rw [ih]
    · exact ih after

theorem resolveDeferred_withLog (session : Session) (pending : List DeferredGlobal) :
    (session.withLog limit log).resolveDeferred pending =
      (session.resolveDeferred pending).withLog limit log := by
  induction session, pending using resolveDeferred.induct with
  | case1 session pending left after hr hlt ih =>
    have hw := retryRound_withLog limit log session pending
    rw [hr] at hw
    rw [resolveDeferred, resolveDeferred, hr, hw]
    simp only [hlt, if_true]
    exact ih
  | case2 session pending left after hr hlt =>
    have hw := retryRound_withLog limit log session pending
    rw [hr] at hw
    rw [resolveDeferred, resolveDeferred, hr, hw]
    simp only [hlt, if_false]

theorem log_resolveDeferred (session : Session) (pending : List DeferredGlobal) :
    (session.resolveDeferred pending).log = session.log := by
  have hr := congrArg Session.log
    (resolveDeferred_withLog session.settings.maxErrors session.log session pending)
  exact hr

/-- The first pass and the rounds after it with a budget beside those without. -/
theorem follows_skim (settings : Settings) (budget : Nat) (tokens : List Token) :
    Follows budget (skim { settings with maxErrors := none } tokens)
      (skim { settings with maxErrors := some budget } tokens) := by
  have hp := (follows_readPass (initial { settings with maxErrors := none }) budget rfl .skim
    tokens).1
  rw [← initial_within] at hp
  rcases hw : (initial { settings with maxErrors := none }).readPass .skim tokens with ⟨whole, _⟩
  rcases hl : (initial { settings with maxErrors := some budget }).readPass .skim tokens with ⟨part, _⟩
  rw [hw, hl] at hp
  simp only [skim, hw, hl]
  refine ⟨?_, fun hr => ?_⟩
  · rw [log_resolveDeferred, log_resolveDeferred]
    exact hp.log_eq
  · rw [log_resolveDeferred] at hr
    obtain rfl : part = whole.within budget := hp.eq_within hr
    rw [within, within, log_resolveDeferred]
    exact resolveDeferred_withLog _ _ { whole with deferred := [] } _

theorem limit_skim (settings : Settings) (tokens : List Token) :
    (skim settings tokens).log.limit = settings.maxErrors := by
  unfold skim
  dsimp only
  rw [log_resolveDeferred]
  exact ((Reading.extends_steps _ tokens).trans (Reading.extends_finish _ tokens)).limit_eq

end Session

variable {budget : Nat}

/-- A definition with a budget of at least one error finds the first errors. -/
theorem define_within (settings : Settings) (natives : Native.Bindings) (program : List Stmt)
    (hb : 0 < budget) :
    define { settings with maxErrors := some budget } natives program =
      (define { settings with maxErrors := none } natives program).mapError (List.take budget) := by
  have hi : Definer.initial { settings with maxErrors := some budget } =
      (Definer.initial { settings with maxErrors := none }).within budget := by
    simp [Definer.initial, Definer.within, Log.within, Log.empty]
  have hf := Definer.follows_block natives budget program []
    (Definer.initial { settings with maxErrors := none }) _ rfl (Definer.follows_within budget _)
  rw [← hi] at hf
  unfold define
  generalize Definer.block natives [] (.initial { settings with maxErrors := none }) program = whole
    at hf ⊢
  generalize Definer.block natives [] (.initial { settings with maxErrors := some budget }) program =
    part at hf ⊢
  by_cases he : whole.log.errors = []
  · rw [hf.eq_within (by simpa [he] using hb)]
    simp [Definer.within, he]
  · have hp : part.log.errors = whole.log.errors.take budget := congrArg Log.errors hf.log_eq
    have hn : ¬budget = 0 := by omega
    simp [he, hn, hp]

/-- Parsing under a budget finds the first errors, and the same statements if there are not more. -/
theorem parse_within (settings : Settings) (tokens : List Token) (hb : 0 < budget) :
    (parse { settings with maxErrors := some budget } tokens).2 =
        (parse { settings with maxErrors := none } tokens).2.take budget ∧
      ((parse { settings with maxErrors := none } tokens).2.length < budget →
        (parse { settings with maxErrors := some budget } tokens).1 =
          (parse { settings with maxErrors := none } tokens).1) := by
  have hf := Session.follows_skim settings budget tokens
  unfold parse
  have hl := Session.limit_skim { settings with maxErrors := none } tokens
  generalize Session.skim { settings with maxErrors := none } tokens = whole at hf hl ⊢
  generalize Session.skim { settings with maxErrors := some budget } tokens = part at hf ⊢
  by_cases he : whole.log.errors = []
  · obtain rfl := hf.eq_within (by simpa [he] using hb)
    obtain ⟨hs, hp⟩ := Session.follows_readPass _ budget hl .evaluate tokens
    have hw : (whole.within budget).log.errors = [] := by
      simp [Session.within, Session.withLog, he]
    simp only [he, hw, List.isEmpty_nil, if_true]
    exact ⟨congrArg Log.errors hs.log_eq, fun hr => congrArg some (hp hr)⟩
  · have hp : part.log.errors = whole.log.errors.take budget := congrArg Log.errors hf.log_eq
    have hn : ¬budget = 0 := by omega
    simp [he, hn, hp]

/-- A budget of at least one error maps the errors of a program to the first of them. -/
theorem analyze_within (settings : Settings) (natives : Native.Bindings)
    (tokens : List Token) (hb : 0 < budget) :
    analyze { settings with maxErrors := some budget } natives tokens =
      (analyze { settings with maxErrors := none } natives tokens).mapError (List.take budget) := by
  obtain ⟨he, hp⟩ := parse_within settings tokens hb
  unfold analyze
  generalize parse { settings with maxErrors := none } tokens = whole at he hp ⊢
  generalize parse { settings with maxErrors := some budget } tokens = part at he hp ⊢
  obtain ⟨program, errors⟩ := whole
  obtain ⟨limited, first⟩ := part
  dsimp only at he hp ⊢
  subst he
  by_cases hr : errors.length < budget
  · -- The budget is never spent while parsing.
    rw [hp hr, List.take_of_length_le (Nat.le_of_lt hr)]
    split
    · simp [List.take_of_length_le (Nat.le_of_lt hr)]
    · cases program with
      | none => simp [List.take_of_length_le (Nat.le_of_lt hr)]
      | some program =>
        dsimp only
        rw [define_within settings natives program hb]
        cases define { settings with maxErrors := none } natives program with
        | ok symbols =>
          rw [Except.mapError_ok]
          dsimp only
          split
          · rfl
          · rw [Except.mapError_error, List.take_of_length_le (Nat.le_of_lt hr)]
        | error more => simp [List.take_append, List.take_take]
  · -- The budget is spent while parsing: what else is found does not show.
    have hn : errors ≠ [] := fun hc => hr (by simpa [hc] using hb)
    have hz : ¬budget = 0 := by omega
    have hc (more : List Error) : (errors.take budget ++ more).take budget = errors.take budget := by
      rw [List.take_append_of_le_length (by simp; omega), List.take_take, Nat.min_self]
    have hw (more : List Error) : (errors ++ more).take budget = errors.take budget :=
      List.take_append_of_le_length (by omega)
    refine Eq.trans (b := .error (errors.take budget)) ?_ ?_
    · split
      · rfl
      · cases limited with
        | none => rfl
        | some program =>
          dsimp only
          split
          · simp [hn, hz]
          · simp [hc]
    · split
      · rfl
      · cases program with
        | none => rfl
        | some program =>
          dsimp only
          split
          · simp [hn]
          · simp [hw]

/-- With a budget of at least one error, a program without errors is analyzed as without a budget, and
of any other program the first errors are found, in the same order. -/
theorem analyze_under_budget (settings : Settings) (natives : Native.Bindings)
    (tokens : List Token) (hb : 0 < budget) :
    match analyze { settings with maxErrors := none } natives tokens with
    | .ok analysis =>
      analyze { settings with maxErrors := some budget } natives tokens = .ok analysis
    | .error errors =>
      analyze { settings with maxErrors := some budget } natives tokens =
        .error (errors.take budget) := by
  rw [analyze_within settings natives tokens hb]
  cases analyze { settings with maxErrors := none } natives tokens <;> rfl

/-- Of two braces that close nothing, a budget of one shows the first. -/
theorem analyze_braces_under_budget :
    0 < 1 ∧ analyze { maxErrors := some 1 } (fun _ _ => .notFound)
      [.synthetic .closeCurly "\x7d", .synthetic .closeCurly "\x7d"] =
        .error [⟨.unexpectedTokenDetailed "\x7d" "there is no open block to close", .nowhere, []⟩] := by
  refine ⟨Nat.one_pos, ?_⟩
  have hu := analyze_under_budget {} (fun _ _ => .notFound)
    [.synthetic .closeCurly "\x7d", .synthetic .closeCurly "\x7d"] Nat.one_pos
  have hw : analyze { maxErrors := none } (fun _ _ => .notFound)
      [.synthetic .closeCurly "\x7d", .synthetic .closeCurly "\x7d"] = .error
        [⟨.unexpectedTokenDetailed "\x7d" "there is no open block to close", .nowhere, []⟩,
          ⟨.unexpectedTokenDetailed "\x7d" "there is no open block to close", .nowhere, []⟩] := by
    with_unfolding_all rfl
  rw [hw] at hu
  exact hu

/-! ## A budget of none -/

theorem readPass_of_isExhausted (session : Session) (h : session.log.isExhausted) (pass : Pass)
    (tokens : List Token) :
    session.readPass pass tokens = ((Reading.start session pass).session, []) := by
  have hs : (Reading.start session pass).steps tokens = Reading.start session pass := by
    cases tokens with
    | nil => rfl
    | cons token rest =>
      unfold Reading.steps
      rw [if_pos]
      have hx : (Reading.start session pass).session.log.isExhausted := h
      simp [Log.isClosed, hx]
  unfold Session.readPass
  rw [hs, Reading.finish_of_isExhausted h]
  rfl

/-- The first pass learns nothing. -/
theorem Session.skim_of_no_budget {settings : Settings} (h : settings.maxErrors = some 0)
    (tokens : List Token) : skim settings tokens = initial settings := by
  have hx : (initial settings).log.isExhausted := by simp [initial, Log.empty, Log.isExhausted, h]
  unfold skim
  rw [readPass_of_isExhausted _ hx]
  dsimp only [Reading.start, initial]
  rw [resolveDeferred]
  rfl

/-- A budget of none is spent before the first token, so that nothing is read and nothing found. -/
theorem analyze_of_no_budget (settings : Settings) (natives : Native.Bindings)
    (tokens : List Token) :
    analyze { settings with maxErrors := some 0 } natives tokens = .ok ⟨[], .empty⟩ := by
  have he := readPass_of_isExhausted (.initial { settings with maxErrors := some 0 }) rfl .evaluate
    tokens
  simp only [analyze, parse, Session.skim_of_no_budget, he]
  rfl

/-- An analysis succeeds under the budget of its settings just where it succeeds without, with the
same result, unless that budget is none. -/
theorem analyze_eq_ok_iff (settings : Settings) (natives : Native.Bindings) (tokens : List Token)
    (analysis : Analysis) :
    analyze settings natives tokens = .ok analysis ↔
      if settings.maxErrors = some 0 then analysis = ⟨[], .empty⟩
      else analyze { settings with maxErrors := none } natives tokens = .ok analysis := by
  obtain ⟨stdlib, limit, access⟩ := settings
  rcases limit with _ | _ | budget
  · rfl
  · have hz := analyze_of_no_budget ⟨stdlib, none, access⟩ natives tokens
    rw [if_pos rfl]
    exact ⟨fun h => by cases hz.symm.trans h; rfl, fun h => h ▸ hz⟩
  · have hw := analyze_within ⟨stdlib, none, access⟩ natives tokens (Nat.succ_pos budget)
    rw [if_neg (by simp)]
    change analyze ⟨stdlib, some (budget + 1), access⟩ natives tokens = _ ↔
      analyze ⟨stdlib, none, access⟩ natives tokens = _
    rw [hw]
    cases analyze ⟨stdlib, none, access⟩ natives tokens <;> simp

/-- A brace that closes nothing is an error, and accepted with a budget of none. -/
theorem analyze_brace_without_budget :
    analyze { maxErrors := some 0 } (fun _ _ => .notFound) [.synthetic .closeCurly "\x7d"] =
        .ok ⟨[], .empty⟩ ∧
      analyze { maxErrors := none } (fun _ _ => .notFound) [.synthetic .closeCurly "\x7d"] =
        .error [⟨.unexpectedTokenDetailed "\x7d" "there is no open block to close", .nowhere, []⟩] := by
  constructor <;> with_unfolding_all rfl

end MuLang
