import MuLang.Reading

/-!
# Parsing a program

The two passes over a program. Between them the globals whose type could not be inferred on the spot
are tried again, in rounds, until a round finds no further type. The second pass runs only if the
first one has reported nothing.
-/
namespace MuLang

namespace Session

/-- Tries to infer the type of a deferred global inside its own module, registers the global if that
succeeds, and tells whether it did. -/
def retry (session : Session) (global : DeferredGlobal) : Bool × Session :=
  let entered := { session with scopes := session.scopes.pushIn .module global.module }
  match Step.inferGlobal? global entered with
  | (.ok (some type), after) =>
    let left := { after with scopes := after.scopes.pop }
    (true,
      (Step.registerGlobal global.module global.identifier global.modifiers type left).2)
  | (_, after) => (false, { after with scopes := after.scopes.pop })

/-- One round over some deferred globals, in order: those that are still without a type, and the
session after it. What one global registers, the next ones can use. -/
def retryRound (session : Session) : List DeferredGlobal → List DeferredGlobal × Session
  | [] => ([], session)
  | global :: rest =>
    match session.retry global with
    | (true, after) => after.retryRound rest
    | (false, after) =>
      let (left, last) := after.retryRound rest
      (global :: left, last)

/-- Repeats rounds until one finds no further type. Each but the last leaves fewer globals. -/
def resolveDeferred (session : Session) (pending : List DeferredGlobal) : Session :=
  let (left, after) := session.retryRound pending
  if left.length < pending.length then after.resolveDeferred left else after
termination_by pending.length

/-- The first pass and the rounds that follow it. -/
def skim (settings : Settings) (tokens : List Token) : Session :=
  let (session, _) := (initial settings).readPass .skim tokens
  { session with deferred := [] }.resolveDeferred session.deferred

end Session

/-- The statements of a program, absent where the first pass has failed, and all errors. -/
def parse (settings : Settings) (tokens : List Token) : Option (List Stmt) × List Error :=
  let skimmed := Session.skim settings tokens
  if skimmed.log.errors.isEmpty then
    let (session, statements) := skimmed.readPass .evaluate tokens
    (some statements, session.log.errors)
  else (none, skimmed.log.errors)

end MuLang
