import MuLang.Proofs.Deferral
import MuLang.Proofs.Passes
import MuLang.Proofs.Typed

/-!
# The sessions of a run

A run passes through the points of the first pass, the rounds that follow it and the points of the
second pass, and each statement enters scopes of its own. All along the declarations only grow. So
whatever expression is accepted anywhere in a run, it is well typed there.
-/
namespace MuLang

/-! ## Rounds and passes -/

namespace Session

theorem grows_retry (session : Session) (global : DeferredGlobal) :
    session.Grows (session.retry global).2 := by
  have hi := (Step.steady_inferGlobal? global).grows
    { session with scopes := session.scopes.pushIn .module global.module }
  unfold retry
  dsimp only
  rcases hr : Step.inferGlobal? global
    { session with scopes := session.scopes.pushIn .module global.module } with
    ⟨error | _ | type, after⟩
  all_goals
    rw [hr] at hi
    replace hi := ((Grows.of_scopes session _).trans hi).trans (.of_scopes _ after.scopes.pop)
  · exact hi
  · exact hi
  · exact hi.trans ((Step.steady_registerGlobal _ _ _ _).grows _)

section Rounds

variable {holds : Session → Prop} {fair : DeferredGlobal → Prop}
  (h : ∀ (session : Session) (global : DeferredGlobal), fair global →
    holds session → holds (session.retry global).2)
include h

theorem retryRound_preserves (session : Session) (pending : List DeferredGlobal)
    (hp : ∀ global ∈ pending, fair global) (hs : holds session) :
    holds (session.retryRound pending).2 := by
  induction pending generalizing session with
  | nil => exact hs
  | cons global rest ih =>
    obtain ⟨hg, hr⟩ := List.forall_mem_cons.1 hp
    rw [retryRound_cons]
    exact ih _ hr (h session global hg hs)

/-- What every attempt at one of the deferred globals keeps holds after all rounds. -/
theorem resolveDeferred_preserves (session : Session) (pending : List DeferredGlobal)
    (hp : ∀ global ∈ pending, fair global) (hs : holds session) :
    holds (session.resolveDeferred pending) := by
  induction session, pending using resolveDeferred.induct with
  | case1 session pending left after hround hlt ih =>
    have hr := retryRound_preserves h session pending hp hs
    have hleft := (retryRound_sublist session pending).subset
    rw [hround] at hr hleft
    rw [resolveDeferred, hround]
    simp only [hlt, if_true]
    exact ih (fun global hg => hp global (hleft hg)) hr
  | case2 session pending left after hround hlt =>
    have hr := retryRound_preserves h session pending hp hs
    rw [hround] at hr
    rw [resolveDeferred, hround]
    simp only [hlt, if_false]
    exact hr

end Rounds

theorem grows_resolveDeferred (session : Session) (pending : List DeferredGlobal) :
    session.Grows (session.resolveDeferred pending) :=
  resolveDeferred_preserves (fun later global _ h => h.trans (grows_retry later global)) session
    pending (fun _ _ => trivial) (.refl session)

theorem grows_start (session : Session) (pass : Pass) :
    session.Grows (Reading.start session pass).session :=
  .of_table_eq rfl rfl fun _ h => h

end Session

namespace Reading

theorem grows_finish (reading : Reading) (tokens : List Token) :
    reading.session.Grows (reading.finish tokens).session := by
  have hu : reading.session.Grows reading.reportUnfinished.session := by
    unfold reportUnfinished
    split
    · exact grows_report reading _
    · exact .refl _
  unfold finish reportUnclosed
  split
  · exact hu.trans (grows_report _ _)
  · exact hu

theorem Passes.grows {reading later : Reading} {read : List Token} (h : reading.Passes read later) :
    reading.session.Grows later.session := by
  induction h with
  | start => exact .refl _
  | token _ _ _ ih => exact ih.trans (grows_step _ _)

end Reading

namespace Session

/-! ## Sessions -/

variable {settings : Settings} {tokens : List Token} {session : Session}

/-- The session after the first pass, where no global is deferred any more until one fails again. -/
def betweenPasses (settings : Settings) (tokens : List Token) : Session :=
  { ((initial settings).readPass .skim tokens).1 with deferred := [] }

/-- The sessions of a run over some tokens. Inside a statement the scopes are those of its head, and
typing may have given values to locals; whatever the scopes are, what is declared is the same. -/
inductive Arises (settings : Settings) (tokens : List Token) : Session → Prop
  | first {read : List Token} {reading : Reading} : read <+: tokens →
      (Reading.start (initial settings) .skim).Passes read reading →
      Arises settings tokens reading.session
  | between : Arises settings tokens (betweenPasses settings tokens)
  | round {session : Session} (global : DeferredGlobal) : Arises settings tokens session →
      Arises settings tokens (session.retry global).2
  | second {read : List Token} {reading : Reading} :
      (skim settings tokens).log.errors.isEmpty → read <+: tokens →
      (Reading.start (.skim settings tokens) .evaluate).Passes read reading →
      Arises settings tokens reading.session
  | inside {session : Session} (scopes : ScopeStack) : Arises settings tokens session →
      Arises settings tokens { session with scopes }

/-- The session that the second pass starts with is one of the run. -/
theorem arises_skim (settings : Settings) (tokens : List Token) :
    (skim settings tokens).Arises settings tokens :=
  resolveDeferred_preserves (fun _ global _ h => h.round global) _ _ (fun _ _ => trivial) .between

theorem grows_betweenPasses (settings : Settings) (tokens : List Token) :
    (initial settings).Grows (betweenPasses settings tokens) := by
  have hread := (grows_start (initial settings) .skim).trans
    ((Reading.grows_steps _ tokens).trans (Reading.grows_finish _ tokens))
  exact { hread with deferred := fun _ h => h }

theorem grows_skim (settings : Settings) (tokens : List Token) :
    (initial settings).Grows (skim settings tokens) :=
  (grows_betweenPasses settings tokens).trans (grows_resolveDeferred _ _)

/-- What is declared at a session of a run has grown from nothing. -/
theorem Arises.grows (h : session.Arises settings tokens) : (initial settings).Grows session := by
  induction h with
  | first _ hp => exact (grows_start _ _).trans hp.grows
  | between => exact grows_betweenPasses settings tokens
  | round global _ ih => exact ih.trans (grows_retry _ global)
  | second _ _ hp => exact (grows_skim settings tokens).trans ((grows_start _ _).trans hp.grows)
  | inside scopes _ ih => exact ih.trans (.of_scopes _ scopes)

/-- In a run functions of one name differ in the types of their parameters. -/
theorem Arises.distinct (h : session.Arises settings tokens) : session.table.Distinct :=
  h.grows.distinct SymbolTable.distinct_empty

end Session

namespace Step

/-! ## Expressions -/

variable {settings : Settings} {tokens words : List Token} {context : Token} {value : Expr}
  {session later : Session}

/-- Whatever expression is accepted in a run is well typed, where its check begins and where it ends,
and each call in it leads to the only function of its name that takes such arguments. -/
theorem expression_typed (hs : session.Arises settings tokens)
    (h : expression words context session = (.ok value, later)) :
    (∀ node ∈ value.nodes, node.Typed session.env session.scopes ∧
      node.Typed later.env later.scopes) ∧
    ∀ type callee arguments, .call type callee arguments ∈ value.nodes →
      session.env.Calls session.scopes.currentModule callee (arguments.map Expr.type) type := by
  obtain ⟨scopes, hx, rfl⟩ := expression_eq_ok.1 h
  obtain ⟨hbefore, hafter⟩ := Env.typed_of_expression hx
  refine ⟨fun node hn => ⟨hbefore node hn, hafter node hn⟩, fun type callee arguments hn => ?_⟩
  cases hbefore _ hn with
  | call hc => exact Env.calls_of_call hs.distinct hc

/-- The words of `t = (long) -f(n) * 2`. -/
def scaled : List Token :=
  [.synthetic .identifier "t", .synthetic (.assign .plain) "=", .synthetic .openParen "(",
    .synthetic (.typeName .long) "long", .synthetic .closeParen ")",
    .synthetic (.binary .subtract) "-", .synthetic .identifier "f", .synthetic .openParen "(",
    .synthetic .identifier "n", .synthetic .closeParen ")", .synthetic (.binary .multiply) "*",
    .synthetic (.literal .integer) "2"]

/-- The words `module m { fn f :: int (int n) { long t;`, which open a program. -/
def opening : List Token :=
  [.synthetic (.keyword .moduleWord) "module", .synthetic .identifier "m",
    .synthetic .openCurly "\x7b", .synthetic (.keyword .fnWord) "fn", .synthetic .identifier "f",
    .synthetic .doubleColon "::", .synthetic (.typeName .int) "int", .synthetic .openParen "(",
    .synthetic (.typeName .int) "int", .synthetic .identifier "n", .synthetic .closeParen ")",
    .synthetic .openCurly "\x7b", .synthetic (.typeName .long) "long", .synthetic .identifier "t",
    .synthetic .semicolon ";"]

/-- The program that `return n; } }` completes. -/
def completed : List Token :=
  opening ++ [.synthetic (.keyword .returnWord) "return", .synthetic .identifier "n",
    .synthetic .semicolon ";", .synthetic .closeCurly "\x7d", .synthetic .closeCurly "\x7d"]

/-- After `long t;` the call `f(n)` leads to the function around it, and `t` takes the product. -/
theorem expression_typed_scaled :
    ∃ session value later, session.Arises {} completed ∧
      expression scaled (.synthetic .semicolon ";") session = (.ok value, later) ∧
      (∀ node ∈ value.nodes, node.Typed session.env session.scopes ∧
        node.Typed later.env later.scopes) ∧
      ∀ type callee arguments, .call type callee arguments ∈ value.nodes →
        session.env.Calls session.scopes.currentModule callee (arguments.map Expr.type) type := by
  let reading := (Reading.start (.skim {} completed) .evaluate).steps opening
  let value : Expr :=
    .assign (.plain .long) (.synthetic .identifier "t") (.synthetic (.assign .plain) "=")
      (.binary (.plain .long)
        (.cast (.plain .long) (.synthetic (.typeName .long) "long")
          (.unary (.plain .int) (.synthetic (.binary .subtract) "-")
            (.call (.plain .int) (.synthetic .identifier "f")
              [.read (.plain .int) (.synthetic .identifier "n")])))
        (.synthetic (.binary .multiply) "*")
        (.literal (.plain .int) (.synthetic (.literal .integer) "2")))
  have hc : reading.session.log.isClosed = false := by with_unfolding_all rfl
  have he : (Session.skim {} completed).log.errors.isEmpty := by with_unfolding_all rfl
  have hk : ∀ token ∈ opening, token.kind ≠ .endOfFile := by decide
  have hs : reading.session.Arises {} completed :=
    .second he (List.prefix_append _ _) (Reading.passes_steps_of_ongoing hc hk)
  refine ⟨reading.session, value, { reading.session with
    scopes := reading.session.scopes.initializeLocal ⟨2, 1⟩ }, hs, ?_⟩
  refine (and_iff_left_of_imp fun h => expression_typed hs h).2 ?_
  with_unfolding_all rfl

end Step

end MuLang
