import MuLang.Program
import MuLang.Proofs.Places.Steps

/-!
# Programs read without places

The passes over stripped tokens go through the stripped points of the passes over the tokens
themselves: at every token the same step is taken, and the blocks under way are the same but for
places. So are the statements that come out, and the errors.
-/
namespace MuLang

/-! ## Blocks under way -/

/-- A branch is attached at the same place of a chain, or not at all. -/
theorem Else.attach_stripped (chain branch : Else) :
    chain.stripped.attach branch.stripped = (chain.attach branch).map Else.stripped := by
  fun_induction attach chain branch with
  | case1 => rfl
  | case2 => rfl
  | case3 keyword condition body rest ih =>
    rw [stripped, attach, ih, Option.map_map, Option.map_map]
    rfl

def Owner.stripped : Owner → Owner
  | .statement stmt => .statement stmt.stripped
  | .elseIf keyword condition => .elseIf keyword.stripped condition.stripped
  | .otherwise => .otherwise
  | .failed kind => .failed kind

namespace Body

def stripped (body : Body) : Body := ⟨Stmt.strippedAll body.statements, body.chain⟩

theorem add_stripped (body : Body) (stmt : Option Stmt) :
    body.stripped.add (stmt.map Stmt.stripped) = (body.add stmt).stripped := by
  cases stmt <;> simp [add, stripped, Stmt.strippedAll_eq]

theorem attach?_stripped (body : Body) (branch : Else) :
    body.stripped.attach? branch.stripped = (body.attach? branch).map Stmt.strippedAll := by
  obtain ⟨statements, chain⟩ := body
  simp only [attach?, stripped, Stmt.strippedAll_eq, List.getLast?_map]
  cases chain with
  | unfinished =>
    cases statements.getLast? with
    | none => rfl
    | some last =>
      cases last with
      | ifElse keyword condition block otherwise =>
        simp only [Option.map_some, Stmt.stripped, Else.attach_stripped, Option.map_map]
        congr 1
        funext extended
        simp [Stmt.strippedAll_eq, Stmt.stripped]
      | _ => rfl
  | _ => rfl

theorem close_stripped (parent : Body) (owner : Owner) (body : List Stmt) :
    parent.stripped.close owner.stripped (Stmt.strippedAll body) =
      (parent.close owner body).stripped := by
  cases owner with
  | statement stmt =>
    simp only [close, Owner.stripped, Stmt.withBody_stripped, Stmt.isIf_stripped]
    simp [stripped, Stmt.strippedAll_eq]
  | elseIf keyword condition =>
    have ha := parent.attach?_stripped (.elseIf keyword condition body .absent)
    rw [Else.stripped, Else.stripped] at ha
    simp only [close, Owner.stripped, ha]
    cases parent.attach? (.elseIf keyword condition body .absent) <;> rfl
  | otherwise =>
    have ha := parent.attach?_stripped (.block body)
    rw [Else.stripped] at ha
    simp only [close, Owner.stripped, ha]
    cases parent.attach? (.block body) <;> rfl
  | failed kind => rfl

end Body

/-! ## What opens a block and what ends with `;` -/

theorem Token.block?_stripped (tokens : List Token) :
    block? (tokens.map stripped) = block? tokens := by
  rw [block?, afterModifiers_stripped, List.head?_map, block?]
  cases (afterModifiers tokens).head? <;> rfl

namespace Step.Shadows

theorem elseOwner (chain : Chain) (tokens modifiers : List Token) :
    Shadows (Option.map Owner.stripped) (elseOwner chain tokens modifiers)
      (elseOwner chain (tokens.map Token.stripped) (modifiers.map Token.stripped)) := by
  simp only [Step.elseOwner, fail_bind, List.length_map, ← List.map_tail]
  refine .bind (rejectModifiers _) fun _ => ?_
  refine .bind (.ofExcept (Token.tokenAt_stripped _ _)) fun keyword => .ite (fail _ _) ?_
  refine .bind (.ofExcept (Token.tokenAt_stripped _ _)) fun next => .ite (.pure _) ?_
  refine .ite (.map (ifStatement _ []) fun head => ?_) (fail _ _)
  cases head <;> rfl

theorem owner (chain : Chain) (tokens : List Token) : Shadows (Option.map Owner.stripped)
    (owner chain tokens) (owner chain (tokens.map Token.stripped)) := by
  rw [Step.owner, Step.owner, Token.block?_stripped, Token.afterModifiers_stripped,
    Token.leadingModifiers_stripped, List.length_map]
  dsimp only
  rw [List.head?_map, Option.any_map]
  cases Token.block? tokens with
  | none => exact .bind (.ofExcept (Token.tokenAt_stripped _ _)) fun _ => fail _ _
  | some kind =>
    refine .ite (elseOwner _ _ _) (.map (statement tokens) fun stmt => ?_)
    cases stmt <;> rfl

theorem closed (tokens : List Token) : Shadows (Option.map Stmt.stripped) (closed tokens)
    (closed (tokens.map Token.stripped)) := by
  rw [Step.closed, Step.closed, Token.block?_stripped, List.length_map]
  cases Token.block? tokens with
  | none => exact statement tokens
  | some kind => exact .bind (.ofExcept (Token.tokenAt_stripped _ _)) fun _ => fail _ _

end Step.Shadows

/-! ## The points of a pass -/

namespace Reading

def stripped (reading : Reading) : Reading :=
  ⟨reading.session.stripped, reading.program.stripped,
    reading.blocks.map (Prod.map Owner.stripped Body.stripped),
    reading.current.map Token.stripped⟩

theorem run_stripped {α β : Type} {view : α → β} {step : Step (Option α)}
    {other : Step (Option β)} (h : Step.Shadows (Option.map view) step other) (reading : Reading) :
    reading.stripped.run other =
      ((reading.run step).1.map view, (reading.run step).2.stripped) := by
  unfold run
  rw [show other reading.stripped.session = _ from h reading.session]
  rcases step reading.session with ⟨error | result, session⟩
  · exact Prod.ext rfl (congrArg ({ reading.stripped with session := · })
      (Session.report_stripped _ _))
  · rfl

theorem report_stripped (reading : Reading) (error : Error) :
    reading.stripped.report error.stripped = (reading.report error).stripped :=
  congrArg ({ reading.stripped with session := · }) (Session.report_stripped _ _)

theorem changeScopes_stripped (reading : Reading) (change : ScopeStack → ScopeStack) :
    reading.stripped.changeScopes change = (reading.changeScopes change).stripped := rfl

theorem changeBody_stripped (reading : Reading) {change other : Body → Body}
    (h : ∀ body : Body, other body.stripped = (change body).stripped) :
    reading.stripped.changeBody other = (reading.changeBody change).stripped := by
  obtain ⟨session, program, blocks, current⟩ := reading
  cases blocks with
  | nil =>
    exact congrArg (Reading.mk session.stripped · [] (current.map Token.stripped)) (h program)
  | cons block rest => simp [changeBody, stripped, h]

theorem chain_stripped (reading : Reading) : reading.stripped.body.chain = reading.body.chain := by
  obtain ⟨session, program, blocks, current⟩ := reading
  cases blocks <;> rfl

theorem endStatement_stripped (reading : Reading) (tokens : List Token) :
    reading.stripped.endStatement (tokens.map Token.stripped) =
      (reading.endStatement tokens).stripped := by
  simp only [endStatement, run_stripped (Step.Shadows.closed tokens), changeScopes_stripped]
  exact changeBody_stripped _ fun body => body.add_stripped _

theorem openBlock_stripped (reading : Reading) (tokens : List Token) :
    reading.stripped.openBlock (tokens.map Token.stripped) =
      (reading.openBlock tokens).stripped := by
  simp only [openBlock, chain_stripped, run_stripped (Step.Shadows.owner _ tokens),
    Token.block?_stripped, changeScopes_stripped]
  rcases reading.run (Step.owner reading.body.chain tokens) with ⟨_ | owner, after⟩ <;> rfl

theorem closeBlock_stripped (reading : Reading) (brace : Token) :
    reading.stripped.closeBlock brace.stripped = (reading.closeBlock brace).stripped := by
  obtain ⟨session, program, _ | ⟨⟨owner, body⟩, blocks⟩, current⟩ := reading
  · exact report_stripped ⟨session, program, [], current⟩ (.atToken (.unexpectedTokenDetailed
      brace.text "there is no open block to close") brace)
  · have hopen : (Reading.mk session program ((owner, body) :: blocks) current).stripped =
        ⟨session.stripped, program.stripped, (owner.stripped, body.stripped) ::
          blocks.map (Prod.map Owner.stripped Body.stripped), current.map Token.stripped⟩ := rfl
    rw [hopen, closeBlock, closeBlock]
    dsimp only [Session.scopes_stripped]
    cases session.scopes.popBlock? with
    | none => exact report_stripped ⟨session, program, blocks, current⟩ (.atToken
        (.internal "scope stack does not match the open blocks") brace)
    | some scopes =>
      refine changeBody_stripped ⟨{ session with scopes }, program, blocks, current⟩ ?_
      exact fun parent => parent.close_stripped owner body.statements

/-- What the next token does is told by its kind. -/
theorem step_stripped (reading : Reading) (token : Token) :
    reading.stripped.step token.stripped = (reading.step token).stripped := by
  have hcurrent : reading.stripped.current ++ [token.stripped] =
      (reading.current ++ [token]).map Token.stripped := by
    rw [List.map_append]
    rfl
  have hempty : reading.stripped.current.isEmpty = reading.current.isEmpty := List.isEmpty_map
  unfold step
  rw [hcurrent, hempty]
  dsimp only [Token.kind_stripped]
  split
  · exact endStatement_stripped { reading with current := [] } _
  · exact openBlock_stripped { reading with current := [] } _
  · split
    · exact closeBlock_stripped reading token
    · rw [← closeBlock_stripped, ← report_stripped]
      rfl
  · rfl

theorem steps_stripped (reading : Reading) (tokens : List Token) :
    reading.stripped.steps (tokens.map Token.stripped) = (reading.steps tokens).stripped := by
  induction tokens generalizing reading with
  | nil => rfl
  | cons token rest ih =>
    have hclosed : reading.stripped.session.log.isClosed = reading.session.log.isClosed :=
      reading.session.log.isClosed_stripped
    rw [List.map_cons, steps, steps, step_stripped, ih, hclosed, Token.kind_stripped]
    split <;> rfl

theorem reportUnfinished_stripped (reading : Reading) :
    reading.stripped.reportUnfinished = reading.reportUnfinished.stripped := by
  have hlast : reading.stripped.current.getLast? = reading.current.getLast?.map Token.stripped :=
    List.getLast?_map
  rw [reportUnfinished, hlast, reportUnfinished]
  cases reading.current.getLast? with
  | none => rfl
  | some last =>
    exact report_stripped reading (.atToken (.expectedToken "`;`" "end of input") last)

theorem reportUnclosed_stripped (reading : Reading) (tokens : List Token) :
    reading.stripped.reportUnclosed (tokens.map Token.stripped) =
      (reading.reportUnclosed tokens).stripped := by
  have hblocks : reading.stripped.blocks.isEmpty = reading.blocks.isEmpty := List.isEmpty_map
  have hinternal : reading.stripped.session.log.hasInternal = reading.session.log.hasInternal :=
    reading.session.log.hasInternal_stripped
  have hplace : ((tokens.map Token.stripped).getLast?.map (·.span.start)).getD .nowhere =
      .nowhere := by
    rw [List.getLast?_map]
    cases tokens.getLast? <;> rfl
  rw [reportUnclosed, hblocks, hinternal, hplace, reportUnclosed]
  split
  · exact report_stripped reading ⟨.expectedToken "`\x7d`" "end of input", _, []⟩
  · rfl

theorem finish_stripped (reading : Reading) (tokens : List Token) :
    reading.stripped.finish (tokens.map Token.stripped) = (reading.finish tokens).stripped := by
  rw [finish, reportUnfinished_stripped, reportUnclosed_stripped, finish]

end Reading

namespace Session

theorem readPass_stripped (session : Session) (pass : Pass) (tokens : List Token) :
    session.stripped.readPass pass (tokens.map Token.stripped) =
      ((session.readPass pass tokens).1.stripped,
        Stmt.strippedAll (session.readPass pass tokens).2) := by
  have h := Reading.steps_stripped (Reading.start session pass) tokens
  unfold readPass
  rw [show Reading.start session.stripped pass = (Reading.start session pass).stripped from rfl, h,
    Reading.finish_stripped]
  rfl

/-! ## Deferred globals -/

theorem retry_stripped (session : Session) (global : DeferredGlobal) :
    session.stripped.retry global.stripped =
      ((session.retry global).1, (session.retry global).2.stripped) := by
  have h := Step.Shadows.inferGlobal? global
    { session with scopes := session.scopes.pushIn .module global.module }
  rcases hs : Step.inferGlobal? global
    { session with scopes := session.scopes.pushIn .module global.module } with ⟨result, after⟩
  rw [hs] at h
  have hw : Step.inferGlobal? global.stripped { session.stripped with
      scopes := session.stripped.scopes.pushIn .module global.stripped.module } =
      (Except.stripped id result, after.stripped) := h
  simp only [retry, hs, hw]
  rcases result with error | (_ | type)
  · rfl
  · rfl
  · have hr := Step.Shadows.registerGlobal global.module global.identifier global.modifiers type
      { after with scopes := after.scopes.pop }
    exact congrArg (fun result => (true, result.2)) hr

theorem retryRound_stripped (session : Session) (pending : List DeferredGlobal) :
    session.stripped.retryRound (pending.map DeferredGlobal.stripped) =
      ((session.retryRound pending).1.map DeferredGlobal.stripped,
        (session.retryRound pending).2.stripped) := by
  induction pending generalizing session with
  | nil => rfl
  | cons global rest ih =>
    rw [List.map_cons, retryRound, retryRound, retry_stripped]
    rcases session.retry global with ⟨_ | _, after⟩
    · dsimp only
      rw [ih]
      rfl
    · exact ih after

theorem resolveDeferred_stripped (session : Session) (pending : List DeferredGlobal) :
    session.stripped.resolveDeferred (pending.map DeferredGlobal.stripped) =
      (session.resolveDeferred pending).stripped := by
  induction session, pending using resolveDeferred.induct with
  | case1 session pending left after hr hl ih =>
    rw [resolveDeferred, resolveDeferred, retryRound_stripped, hr]
    dsimp only
    rw [List.length_map, List.length_map, if_pos hl, if_pos hl, ih]
  | case2 session pending left after hr hl =>
    rw [resolveDeferred, resolveDeferred, retryRound_stripped, hr]
    dsimp only
    rw [List.length_map, List.length_map, if_neg hl, if_neg hl]

theorem skim_stripped (settings : Settings) (tokens : List Token) :
    skim settings (tokens.map Token.stripped) = (skim settings tokens).stripped := by
  have h := readPass_stripped (initial settings) .skim tokens
  unfold skim
  rw [show initial settings = (initial settings).stripped from rfl, h]
  exact resolveDeferred_stripped
    { ((initial settings).readPass .skim tokens).1 with deferred := [] } _

end Session

/-- Parsing looks at no place. -/
theorem parse_stripped (settings : Settings) (tokens : List Token) :
    parse settings (tokens.map Token.stripped) =
      ((parse settings tokens).1.map Stmt.strippedAll,
        (parse settings tokens).2.map Error.stripped) := by
  have hlog : (Session.skim settings tokens).stripped.log.errors =
      (Session.skim settings tokens).log.errors.map Error.stripped := rfl
  unfold parse
  rw [Session.skim_stripped]
  dsimp only
  rw [hlog, List.isEmpty_map]
  split
  · rw [Session.readPass_stripped]
    rfl
  · rfl

end MuLang
