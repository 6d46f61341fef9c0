import MuLang.Proofs.Guarded.Control
import MuLang.Proofs.Image

/-!
# Guarded parsing

The passes over a program with every access guarded. A statement is cut at a token that ends it and
at no other one, and between two tokens of a pass the modules of all scopes are there. So no access
is ever out of range, whatever the tokens and the settings are.
-/
namespace MuLang

namespace Guarded

open Watched (access plain)

/-! ## Statements and blocks -/

/-- What an `else` block belongs to. -/
def elseOwner (chain : Chain) (tokens modifiers : List Token) : Watched Session (Option Owner) := do
  plain (Step.rejectModifiers modifiers)
  let keyword ← access (token tokens 0)
  if chain = .closed then
    throw (.atToken (.unexpectedTokenDetailed keyword.text
      "`else` must directly follow an `if` block") keyword)
  let next ← access (token tokens 1)
  if next.kind = .openCurly ∧ tokens.length = 2 then return some .otherwise
  if next.kind = .keyword .ifWord then
    let branch ← access (slice tokens 1 tokens.length)
    return (← ifStatement branch []).map fun head => .elseIf head.1 head.2
  throw (.atToken (.unexpectedToken next.text) next)

/-- What a block belongs to that some tokens open. -/
def owner (chain : Chain) (tokens : List Token) : Watched Session (Option Owner) := do
  let (modifiers, rest) ← access (splitModifiers tokens)
  match rest.head?.bind (·.kind.block?) with
  | none =>
    let brace ← access (last tokens)
    throw (.atToken (.unexpectedTokenDetailed brace.text
      "only modules, functions and control flow statements open a block") brace)
  | some _ =>
    if rest.head?.any (·.kind = .keyword .elseWord) then elseOwner chain rest modifiers
    else return (← statement tokens).map .statement

/-- A statement that ends in `;`. -/
def closed (tokens : List Token) : Watched Session (Option Stmt) := do
  let (_, rest) ← access (splitModifiers tokens)
  match rest.head?.bind (·.kind.block?) with
  | some _ =>
    let final ← access (last tokens)
    throw (.atToken (.expectedToken "`\x7b`" final.text) final)
  | none => statement tokens

/-- Runs a step on the session and reports its error, if it has one. -/
def run {α : Type} (reading : Reading) (step : Watched Session (Option α)) :
    Guarded (Option α × Reading) := do
  match ← step reading.session with
  | (.ok result, session) => return (result, { reading with session })
  | (.error error, session) => return (none, { reading with session := session.report error })

/-- Reads the statement under way, which a `;` ends. -/
def endStatement (reading : Reading) (tokens : List Token) : Guarded Reading := do
  let size := reading.session.scopes.size
  let (stmt, after) ← run reading (closed tokens)
  return (after.changeScopes (·.truncate size)).changeBody (·.add stmt)

/-- The scopes inside a block of some kind, after its head. -/
def insideBlock (scopes : ScopeStack) (size : Nat) (kind : ScopeKind) : Guarded ScopeStack := do
  let inner ← current scopes
  return if scopes.size = size ∨ inner.kind ≠ kind then
    scopes.enter ⟨kind, inner.module, [], none⟩ else scopes

/-- Opens the block of the statement under way, which an opening brace ends. -/
def openBlock (reading : Reading) (tokens : List Token) : Guarded Reading := do
  let size := reading.session.scopes.size
  let (owner, after) ← run reading (owner reading.body.chain tokens)
  let (_, rest) ← splitModifiers tokens
  let kind := (rest.head?.bind (·.kind.block?)).getD .ifBlock
  let scopes ← insideBlock after.session.scopes size kind
  let entered := after.changeScopes fun _ => scopes
  return { entered with blocks := (owner.getD (.failed kind), {}) :: entered.blocks }

/-- Leaves the innermost block, together with the loop header around it, if there is one. -/
def popBlock? (scopes : ScopeStack) : Guarded (Option ScopeStack) :=
  match scopes.pop? with
  | none => return none
  | some (_, rest) => do
    let around ← current rest
    return some (if around.kind = .loopHeader then rest.pop else rest)

/-- Closes the innermost block at a closing brace. -/
def closeBlock (reading : Reading) (brace : Token) : Guarded Reading :=
  match reading.blocks with
  | [] =>
    return reading.report
      (.atToken (.unexpectedTokenDetailed brace.text "there is no open block to close") brace)
  | (owner, body) :: blocks => do
    let rest := { reading with blocks }
    match ← popBlock? reading.session.scopes with
    | none =>
      return rest.report (.atToken (.internal "scope stack does not match the open blocks") brace)
    | some scopes =>
      return (rest.changeScopes fun _ => scopes).changeBody (·.close owner body.statements)

/-- Reads one token. -/
def step (reading : Reading) (token : Token) : Guarded Reading :=
  match token.kind with
  | .semicolon => endStatement { reading with current := [] } (reading.current ++ [token])
  | .openCurly => openBlock { reading with current := [] } (reading.current ++ [token])
  | .closeCurly =>
    if reading.current.isEmpty then closeBlock reading token
    else
      closeBlock ({ reading with current := [] }.report
        (.atToken (.expectedToken "`;`" token.text) token)) token
  | _ => return { reading with current := reading.current ++ [token] }

/-- Reads tokens up to the end of the file, or until the log takes no more. -/
def steps (reading : Reading) : List Token → Guarded Reading
  | [] => return reading
  | token :: rest =>
    if reading.session.log.isClosed || token.kind = .endOfFile then return reading
    else do steps (← step reading token) rest

/-! ## Programs -/

/-- One pass over the tokens of a program. -/
def readPass (session : Session) (pass : Pass) (tokens : List Token) :
    Guarded (Session × List Stmt) := do
  let reading ← steps (Reading.start session pass) tokens
  let last := reading.finish tokens
  return (last.session, last.program.statements)

/-- Tries to infer the type of a deferred global inside its own module. -/
def retry (session : Session) (global : DeferredGlobal) : Guarded (Bool × Session) := do
  let entered := { session with scopes := session.scopes.pushIn .module global.module }
  match ← inferGlobal? global entered with
  | (.ok (some type), after) =>
    let left := { after with scopes := after.scopes.pop }
    let (_, registered) ←
      registerGlobal global.module global.identifier global.modifiers type left
    return (true, registered)
  | (_, after) => return (false, { after with scopes := after.scopes.pop })

/-- One round over some deferred globals. -/
def retryRound (session : Session) : List DeferredGlobal → Guarded (List DeferredGlobal × Session)
  | [] => return ([], session)
  | global :: rest => do
    match ← retry session global with
    | (true, after) => retryRound after rest
    | (false, after) =>
      let (left, last) ← retryRound after rest
      return (global :: left, last)

/-- Repeats rounds until one finds no further type. -/
def resolveDeferred (session : Session) (pending : List DeferredGlobal) : Guarded Session := do
  let (left, after) ← retryRound session pending
  if left.length < pending.length then resolveDeferred after left else return after
termination_by pending.length

/-- The first pass and the rounds that follow it. -/
def skim (settings : Settings) (tokens : List Token) : Guarded Session := do
  let (session, _) ← readPass (.initial settings) .skim tokens
  resolveDeferred { session with deferred := [] } session.deferred

/-- The statements of a program, absent where the first pass has failed, and all errors. -/
def parse (settings : Settings) (tokens : List Token) :
    Guarded (Option (List Stmt) × List Error) := do
  let skimmed ← skim settings tokens
  if skimmed.log.errors.isEmpty then
    let (session, statements) ← readPass skimmed .evaluate tokens
    return (some statements, session.log.errors)
  else return (none, skimmed.log.errors)

/-! ## Every access is in range -/

section

open Watched (Agrees)
open Session (Anchored)

variable {session : Session} {tokens : List Token} {reading : Reading}

theorem agrees_elseOwner (h : session.Anchored) (ht : Token.Complete tokens)
    (hl : 1 < tokens.length) (chain : Chain) (modifiers : List Token) :
    Agrees Anchored (elseOwner chain tokens modifiers) (Step.elseOwner chain tokens modifiers)
      session := by
  have hbranch : slice tokens 1 tokens.length = .ok tokens.tail := by
    rw [slice_of_le (by omega) (Nat.le_refl _), List.take_length, List.drop_one]
  have htail : 0 < tokens.tail.length := by
    rw [List.length_tail]
    omega
  have hordinary : ∀ token ∈ tokens.tail, token.kind ≠ .endOfFile :=
    fun token hm => ht.ordinary token (List.mem_of_mem_tail hm)
  simp only [elseOwner, Step.elseOwner, Step.fail, Watched.throw_bind, Fallible.throw_bind]
  refine .bind (agrees_rejectModifiers h _) fun _ s _ h => ?_
  refine .bind (.tokenAt h (by omega)) fun keyword s _ h => .ite (fun _ => .throw h _) fun _ => ?_
  refine .bind (.tokenAt h hl) fun next s _ h => .ite (fun _ => .pure h _) fun _ => ?_
  refine .ite (fun _ => .access_bind hbranch ?_) fun _ => .throw h _
  exact .bind (agrees_ifStatement h htail hordinary _) fun _ s _ h => .pure h _

theorem agrees_owner (h : session.Anchored) (ht : Token.Complete tokens) (chain : Chain) :
    Agrees Anchored (owner chain tokens) (Step.owner chain tokens) session := by
  simp only [owner, Step.owner, Token.block?, Step.fail]
  refine .access_bind (splitModifiers_eq tokens) ?_
  cases hkind : (Token.afterModifiers tokens).head?.bind (·.kind.block?) with
  | none => exact .bind (.last h ht.stopped.ne_nil) fun brace s _ h => .throw h _
  | some kind =>
    refine .ite (fun helse => ?_) fun _ => .bind (agrees_statement h ht) fun _ s _ h => .pure h _
    cases hrest : Token.afterModifiers tokens with
    | nil => simp [hrest] at helse
    | cons first rest =>
      have hk : first.kind = .keyword .elseWord := by simpa [hrest] using helse
      have hcomplete := ht.afterModifiers hrest
      exact agrees_elseOwner h hcomplete (hcomplete.stopped.second (by rw [hk]; rfl)) chain _

theorem agrees_closed (h : session.Anchored) (ht : Token.Complete tokens) :
    Agrees Anchored (closed tokens) (Step.closed tokens) session := by
  simp only [closed, Step.closed, Token.block?, Step.fail]
  refine .access_bind (splitModifiers_eq tokens) ?_
  cases (Token.afterModifiers tokens).head?.bind (·.kind.block?) with
  | none => exact agrees_statement h ht
  | some kind => exact .bind (.last h ht.stopped.ne_nil) fun final s _ h => .throw h _

theorem run_eq {α : Type} {guarded : Watched Session (Option α)} {f : Step (Option α)}
    (hf : Agrees Anchored guarded f reading.session) :
    run reading guarded = .ok (reading.run f) ∧ (reading.run f).2.session.Anchored := by
  obtain ⟨hrun, hkept⟩ := hf
  have hguarded : run reading guarded = guarded reading.session >>= fun
      | (.ok result, session) => .ok (result, { reading with session })
      | (.error error, session) =>
        .ok (none, { reading with session := session.report error }) := rfl
  rw [hguarded, hrun]
  unfold Reading.run
  rcases hx : f reading.session with ⟨error | result, after⟩
  · rw [hx] at hkept
    exact ⟨rfl, hkept.report error⟩
  · rw [hx] at hkept
    exact ⟨rfl, hkept⟩

theorem endStatement_eq (h : reading.session.Anchored) (ht : Token.Complete tokens) :
    endStatement reading tokens = .ok (reading.endStatement tokens) ∧
      (reading.endStatement tokens).session.Anchored := by
  obtain ⟨hrun, hafter⟩ := run_eq (agrees_closed h ht)
  rw [endStatement, hrun]
  refine ⟨rfl, ?_⟩
  rw [Reading.endStatement, Reading.session_changeBody]
  exact hafter.of_modules fun p hp => ScopeStack.mem_modules_truncate hp

theorem insideBlock_eq (scopes : ScopeStack) (size : Nat) (kind : ScopeKind) :
    insideBlock scopes size kind = .ok (scopes.insideBlock size kind) := by
  rw [insideBlock, current_eq]
  rfl

theorem openBlock_eq (h : reading.session.Anchored) (ht : Token.Complete tokens) :
    openBlock reading tokens = .ok (reading.openBlock tokens) ∧
      (reading.openBlock tokens).session.Anchored := by
  obtain ⟨hrun, hafter⟩ := run_eq (agrees_owner h ht reading.body.chain)
  rw [openBlock, hrun, splitModifiers_eq]
  refine ⟨?_, hafter.of_modules fun p hp => ScopeStack.mem_modules_insideBlock hp⟩
  change insideBlock _ _ _ >>= _ = _
  rw [insideBlock_eq]
  rfl

theorem popBlock?_eq (scopes : ScopeStack) : popBlock? scopes = .ok scopes.popBlock? := by
  unfold popBlock? ScopeStack.popBlock?
  rcases scopes.pop? with _ | ⟨inner, rest⟩
  · rfl
  · dsimp only
    rw [current_eq]
    rfl

theorem closeBlock_eq (h : reading.session.Anchored) (brace : Token) :
    closeBlock reading brace = .ok (reading.closeBlock brace) ∧
      (reading.closeBlock brace).session.Anchored := by
  unfold closeBlock Reading.closeBlock
  rcases reading.blocks with _ | ⟨⟨owner, body⟩, blocks⟩
  · exact ⟨rfl, h.report _⟩
  · dsimp only
    rw [popBlock?_eq]
    cases hpop : reading.session.scopes.popBlock? with
    | none => exact ⟨rfl, h.report _⟩
    | some scopes =>
      refine ⟨rfl, ?_⟩
      rw [Reading.session_changeBody]
      exact h.of_modules fun p hp => ScopeStack.mem_modules_of_popBlock? hpop hp

/-- What one token does at a point of a pass. -/
theorem step_eq (h : reading.session.Anchored) (hu : Token.Unbroken reading.current)
    (token : Token) :
    step reading token = .ok (reading.step token) ∧ (reading.step token).session.Anchored := by
  unfold step Reading.step
  cases hk : token.kind with
  | semicolon =>
    exact @endStatement_eq _ { reading with current := [] } h (.append hu (by rw [hk]; rfl))
  | openCurly =>
    exact @openBlock_eq _ { reading with current := [] } h (.append hu (by rw [hk]; rfl))
  | closeCurly =>
    dsimp only
    split
    · exact closeBlock_eq h token
    · exact closeBlock_eq (h.report _) token
  | _ => exact ⟨rfl, h⟩

/-- What a whole pass does. -/
theorem steps_eq (h : reading.session.Anchored) (hu : Token.Unbroken reading.current)
    (tokens : List Token) :
    steps reading tokens = .ok (reading.steps tokens) ∧ (reading.steps tokens).session.Anchored := by
  induction tokens generalizing reading with
  | nil => exact ⟨rfl, h⟩
  | cons token rest ih =>
    unfold steps Reading.steps
    split
    next => exact ⟨rfl, h⟩
    next hgo =>
      obtain ⟨hstep, hafter⟩ := step_eq h hu token
      have hk : token.kind ≠ .endOfFile := fun hk => hgo (by simp [hk])
      rw [hstep]
      exact ih hafter (Reading.unbroken_step hu hk)

/-- A pass goes on where all modules are there that an earlier one has found. -/
theorem anchored_start (h : session.Anchored) (pass : Pass) :
    (Reading.start session pass).session.Anchored := by
  have hroot : session.table.contains [] :=
    h.upward _ h.toRooted.current [] (ModulePath.mem_ancestors.2 List.nil_prefix)
  refine ⟨⟨fun p hp => ?_, h.deferred⟩, h.upward, h.ordinary⟩
  obtain rfl := List.mem_singleton.1 hp
  exact hroot

theorem anchored_initial (settings : Settings) : (Session.initial settings).Anchored := by
  refine ⟨⟨fun p hp => ?_, List.forall_mem_nil _⟩, fun path hp outer ho => ?_,
    List.forall_mem_nil _⟩
  · obtain rfl := List.mem_singleton.1 hp
    rfl
  · -- The root is the only module, and stands inside of no other one.
    obtain rfl : [] = path := by
      simpa [Session.initial, SymbolTable.contains, SymbolTable.module?, SymbolTable.empty,
        Module.empty] using hp
    obtain rfl := List.mem_singleton.1 ho
    rfl

theorem anchored_finish (h : reading.session.Anchored) (tokens : List Token) :
    (reading.finish tokens).session.Anchored := by
  have hunfinished : reading.reportUnfinished.session.Anchored := by
    unfold Reading.reportUnfinished
    split
    · exact h.report _
    · exact h
  unfold Reading.finish Reading.reportUnclosed
  split
  · exact hunfinished.report _
  · exact hunfinished

theorem readPass_eq (h : session.Anchored) (pass : Pass) (tokens : List Token) :
    readPass session pass tokens = .ok (session.readPass pass tokens) ∧
      (session.readPass pass tokens).1.Anchored := by
  obtain ⟨hsteps, hlast⟩ := steps_eq (anchored_start h pass) Token.unbroken_nil tokens
  rw [readPass, hsteps]
  exact ⟨rfl, anchored_finish hlast tokens⟩

/-! ### Deferred globals -/

theorem table_inferGlobal? (global : DeferredGlobal) (session : Session) :
    (Step.inferGlobal? global session).2.table = session.table := by
  have htyped : (Step.expression global.value global.typeKeyword session).2.table =
      session.table := rfl
  unfold Step.inferGlobal?
  rcases hx : Step.expression global.value global.typeKeyword session with ⟨_ | _, after⟩ <;>
    rwa [hx] at htyped

theorem contains_registerGlobal {module p : ModulePath} (hp : session.table.contains p)
    (identifier : Token) (modifiers : List Token) (type : Datatype) :
    (Step.registerGlobal module identifier modifiers type session).2.table.contains p := by
  unfold Step.registerGlobal
  rw [Fallible.modify_apply]
  dsimp only
  cases ha : session.table.addVariable module
    ⟨identifier.text, type, Token.modifiers modifiers, true⟩ with
  | error conflict => exact hp
  | ok table => exact (SymbolTable.contains_addVariable ha).trans hp

/-- A global that has been deferred is tried again, and all modules stay. -/
theorem retry_eq {global : DeferredGlobal} (h : session.Anchored)
    (hm : session.table.contains global.module)
    (hv : ∀ token ∈ global.value, token.kind ≠ .endOfFile) :
    retry session global = .ok (session.retry global) ∧ (session.retry global).2.Anchored ∧
      ∀ p, session.table.contains p → (session.retry global).2.table.contains p := by
  have hentered : Anchored { session with scopes := session.scopes.pushIn .module global.module } :=
    h.enter hm
  have htable := table_inferGlobal? global
    { session with scopes := session.scopes.pushIn .module global.module }
  obtain ⟨hrun, hkept⟩ := agrees_inferGlobal? hentered hv
  unfold retry Session.retry
  dsimp only at htable ⊢
  rw [hrun]
  generalize Step.inferGlobal? global
    { session with scopes := session.scopes.pushIn .module global.module } = outcome at hkept htable
  obtain ⟨result, after⟩ := outcome
  have hleft : Anchored { after with scopes := after.scopes.pop } :=
    hkept.of_modules fun p hp => ScopeStack.mem_modules_pop hp
  rcases result with error | _ | type
  · exact ⟨rfl, hleft, fun p hp => htable.symm ▸ hp⟩
  · exact ⟨rfl, hleft, fun p hp => htable.symm ▸ hp⟩
  · have hmodule : after.table.contains global.module := htable.symm ▸ hm
    obtain ⟨hregister, hregistered⟩ := agrees_registerGlobal hleft hmodule global.identifier
      global.modifiers type
    refine ⟨?_, hregistered, fun p hp => contains_registerGlobal (htable.symm ▸ hp) _ _ _⟩
    change registerGlobal _ _ _ _ _ >>= _ = _
    rw [hregister]
    rfl

/-- Some globals are deferred from modules that are there, and can be read again. -/
structure Awaiting (session : Session) (pending : List DeferredGlobal) : Prop where
  anchored : session.Anchored
  modules : ∀ global ∈ pending, session.table.contains global.module
  ordinary : ∀ global ∈ pending, ∀ token ∈ global.value, token.kind ≠ .endOfFile

theorem retryRound_eq {pending : List DeferredGlobal} (h : Awaiting session pending) :
    retryRound session pending = .ok (session.retryRound pending) ∧
      (session.retryRound pending).2.Anchored ∧
      ∀ p, session.table.contains p → (session.retryRound pending).2.table.contains p := by
  induction pending generalizing session with
  | nil => exact ⟨rfl, h.anchored, fun _ hp => hp⟩
  | cons global rest ih =>
    obtain ⟨hmodule, hmodules⟩ := List.forall_mem_cons.1 h.modules
    obtain ⟨hvalue, hvalues⟩ := List.forall_mem_cons.1 h.ordinary
    obtain ⟨hretry, hafter, hcontains⟩ := retry_eq h.anchored hmodule hvalue
    obtain ⟨hrest, hlast, hkept⟩ :=
      ih ⟨hafter, fun global hg => hcontains _ (hmodules global hg), hvalues⟩
    rw [Session.retryRound_cons]
    refine ⟨?_, hlast, fun p hp => hkept p (hcontains p hp)⟩
    rw [retryRound, hretry]
    generalize session.retry global = outcome at hrest
    obtain ⟨_ | _, after⟩ := outcome
    · change retryRound after rest >>= _ = _
      rw [hrest]
      rfl
    · exact hrest

theorem resolveDeferred_eq (session : Session) (pending : List DeferredGlobal)
    (h : Awaiting session pending) :
    resolveDeferred session pending = .ok (session.resolveDeferred pending) ∧
      (session.resolveDeferred pending).Anchored := by
  obtain ⟨hround, hafter, hcontains⟩ := retryRound_eq h
  have hsublist := (session.retryRound_sublist pending).subset
  rw [resolveDeferred, Session.resolveDeferred, hround]
  generalize houtcome : session.retryRound pending = outcome at hafter hcontains hsublist
  obtain ⟨left, after⟩ := outcome
  change (if left.length < pending.length then _ else _) = _ ∧ _
  dsimp only
  split
  next hlt =>
    have hleft : Awaiting after left :=
      ⟨hafter, fun global hg => hcontains _ (h.modules _ (hsublist hg)),
        fun global hg => h.ordinary _ (hsublist hg)⟩
    exact resolveDeferred_eq after left hleft
  next => exact ⟨rfl, hafter⟩
termination_by pending.length

theorem skim_eq (settings : Settings) (tokens : List Token) :
    skim settings tokens = .ok (Session.skim settings tokens) ∧
      (Session.skim settings tokens).Anchored := by
  obtain ⟨hpass, h⟩ := readPass_eq (anchored_initial settings) .skim tokens
  rw [skim, hpass]
  have hcleared : Anchored { ((Session.initial settings).readPass .skim tokens).1 with
      deferred := [] } :=
    ⟨⟨h.scopes, List.forall_mem_nil _⟩, h.upward, List.forall_mem_nil _⟩
  exact resolveDeferred_eq _ _ ⟨hcleared, h.deferred, h.ordinary⟩

end

end Guarded

/-- Whatever the tokens and the settings are, no access of the parser is out of range: to the tokens
of a statement, to the head of a function or of a loop, to the tokens of an expression, to scopes and
their locals, and to modules. -/
theorem parse_in_range (settings : Settings) (tokens : List Token) :
    Guarded.parse settings tokens = .ok (parse settings tokens) := by
  obtain ⟨hskim, h⟩ := Guarded.skim_eq settings tokens
  rw [Guarded.parse, hskim, parse]
  change (if (Session.skim settings tokens).log.errors.isEmpty then _ else _) = _
  dsimp only
  split
  · rw [(Guarded.readPass_eq h .evaluate tokens).1]
    rfl
  · rfl

end MuLang
