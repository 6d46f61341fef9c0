import MuLang.Proofs.Guarded.Declarations
import MuLang.Proofs.Locates
import MuLang.Proofs.Parts

/-!
# Guarded statements of function bodies

Assignments, calls, control flow and `return`, with every access guarded. The parts of a loop's head
are cut out of it by place, and are statements of their own once they are ended.
-/
namespace MuLang

namespace Token.Complete

variable {tokens part rest : List Token} {first : Token}

theorem afterModifiers (h : Complete tokens) (hn : Token.afterModifiers tokens = first :: rest) :
    Complete (first :: rest) :=
  ⟨h.stopped.afterModifiers hn,
    fun token ht => h.ordinary token ((List.dropWhile_sublist _).subset (hn.symm ▸ ht))⟩

/-- The tokens up to one that ends a statement. -/
theorem append {stop : Token} (hu : Unbroken tokens) (hs : stop.kind.isStop) :
    Complete (tokens ++ [stop]) := by
  refine ⟨stopped_append tokens hs, List.forall_mem_append.2 ⟨fun token hm hk => ?_, ?_⟩⟩
  · have hbreak := hu token hm
    rw [hk] at hbreak
    cases hbreak
  · simp only [List.mem_singleton, forall_eq]
    intro hk
    rw [hk] at hs
    cases hs

/-- Some tokens of a statement are one of their own once they are ended. -/
theorem terminated (h : ∀ token ∈ part, token.kind ≠ .endOfFile) :
    Complete (Step.terminated part) :=
  ⟨Step.stopped_terminated part, List.forall_mem_append.2 ⟨h, by simp [synthetic]⟩⟩

end Token.Complete

namespace Guarded

open Watched (access plain)

/-! ## Assignments and calls -/

/-- Assigns a value in the second pass. -/
def assignStatement (identifier operator : Token) (value : Expr) :
    Watched Session (Option Action) := do
  if ← plain Step.isSkimming then return none
  let _ ← within fun env => store env identifier operator value
  return some (.assign identifier operator value)

/-- An action. -/
def actionStatement (tokens modifiers : List Token) : Watched Session (Option Action) := do
  plain (Step.rejectModifiers modifiers)
  let identifier ← access (token tokens 0)
  plain (Step.requireFunction identifier "assignments and calls")
  let next ← access (token tokens 1)
  match next.kind with
  | .openParen =>
    if ← plain Step.isSkimming then return none
    match ← typed (← access (between tokens 0 1)) identifier with
    | .call _ callee arguments => return some (.call callee arguments)
    | _ =>
      throw (.atToken (.unexpectedTokenDetailed identifier.text "expected a function call")
        identifier)
  | .plusPlus =>
    if ← Watched.check (expectEnd tokens 3) then
      assignStatement identifier (.synthetic (.assign .add) "+=") Step.one
    else return none
  | .minusMinus =>
    if ← Watched.check (expectEnd tokens 3) then
      assignStatement identifier (.synthetic (.assign .subtract) "-=") Step.one
    else return none
  | .assign _ =>
    if ← plain Step.isSkimming then return none
    let value ← typed (← access (between tokens 2 1)) next
    assignStatement identifier next value
  | _ => throw (.atToken (.unexpectedToken next.text) next)

/-! ## Branches and loops -/

/-- The tokens between the first and the last one of a statement. -/
def inner (tokens : List Token) : Guarded (List Token) :=
  if tokens.length < 2 then return [] else between tokens 1 1

/-- A condition that follows a keyword. -/
def condition (tokens : List Token) (keyword : Token) : Watched Session Expr := do
  let value ← typed tokens keyword
  if value.type ≠ .bool then
    throw (.atToken (.conditionNotBoolean keyword.text value.type.describe) keyword)
  return value

/-- The head `if CONDITION`. -/
def ifStatement (tokens modifiers : List Token) : Watched Session (Option (Token × Expr)) := do
  plain (Step.rejectModifiers modifiers)
  let keyword ← access (token tokens 0)
  plain (Step.requireFunction keyword "if statements")
  enterHere .ifBlock none
  if ← plain Step.isSkimming then return none
  return some (keyword, ← condition (← access (inner tokens)) keyword)

/-- The head `while CONDITION`. -/
def whileStatement (tokens modifiers : List Token) : Watched Session (Option Stmt) := do
  plain (Step.rejectModifiers modifiers)
  let keyword ← access (token tokens 0)
  plain (Step.requireFunction keyword "while loops")
  enterHere .whileBlock none
  if ← plain Step.isSkimming then return none
  return some (.whileLoop keyword (← condition (← access (inner tokens)) keyword) [])

/-- The parts of a loop's head from the index where one starts, going on from another index at which
`depth` parentheses are open. -/
def headParts (header : List Token) (start index depth : Nat) :
    List Token → Guarded (List (List Token))
  | [] => return [← slice header start header.length]
  | token :: rest => do
    if token.kind = .comma ∧ depth = 0 then
      let part ← slice header start index
      let others ← headParts header (index + 1) (index + 1) 0 rest
      return part :: others
    else headParts header start (index + 1) (token.parensAfter depth) rest

/-- Runs a step and reports its error, if it has one. -/
def reporting {α : Type} (step : Watched Session (Option α)) : Watched Session (Option α) :=
  fun session => do
    match ← step session with
    | (.ok result, after) => return (.ok result, after)
    | (.error error, after) => return (.ok none, after.report error)

/-- A loop from the three parts of its head. -/
def loopStatement (keyword : Token) (init test step : List Token) : Watched Session (Option Stmt) := do
  let (modifiers, declaration) ← access (splitModifiers init)
  plain (Step.expectStart declaration keyword (fun kind => kind.isTypeName || kind = .question)
    "a variable declaration")
  plain (Step.expectStart step keyword (· = .identifier) "an assignment or a call")
  if ← plain Step.isSkimming then
    let _ ← reporting (variableStatement (Step.terminated declaration) modifiers)
    if test.isEmpty then throw (.atToken (.expectedToken "a loop condition" ",") keyword)
    enterHere .forBlock none
    return none
  match ← variableStatement (Step.terminated declaration) modifiers with
  | none => return none
  | some (_, none) =>
    throw (.atToken (.unexpectedTokenDetailed "VAR_DEFINITION"
      "the loop variable must be given a value") keyword)
  | some (header, some value) =>
    let test ← condition test keyword
    match ← actionStatement (Step.terminated step) [] with
    | none => return none
    | some action =>
      enterHere .forBlock none
      return some (.forLoop keyword header value test action [])

/-- The head `for INIT, CONDITION, STEP` or `for INIT, NAME -> LIMIT`. -/
def forStatement (tokens modifiers : List Token) : Watched Session (Option Stmt) := do
  plain (Step.rejectModifiers modifiers)
  let keyword ← access (token tokens 0)
  plain (Step.requireFunction keyword "for loops")
  enterHere .loopHeader none
  let header ← access (inner tokens)
  match ← access (headParts header 0 0 0 header) with
  | [init, test, step] => loopStatement keyword init test step
  | [init, transition] =>
    match transition with
    | counter :: arrow :: limit =>
      if counter.kind = .identifier ∧ arrow.kind = .arrow ∧ limit ≠ [] then
        let limit ← access (slice transition 2 transition.length)
        let test := counter :: .synthetic (.binary .less) "<" :: .synthetic .openParen "(" ::
          limit ++ [.synthetic .closeParen ")"]
        loopStatement keyword init test [counter, .synthetic .plusPlus "++"]
      else
        throw (.atToken (.unexpectedTokenDetailed counter.text
          "expected `NAME -> LIMIT` in for loop") counter)
    | _ =>
      let place := transition.headD keyword
      throw (.atToken (.unexpectedTokenDetailed place.text "expected `NAME -> LIMIT` in for loop")
        place)
  | _ =>
    throw (.atToken (.unexpectedTokenDetailed keyword.text
      "expected `for INIT, CONDITION, STEP` or `for INIT, NAME -> LIMIT`") keyword)

/-! ## Leaving -/

/-- A `return` with or without a value. -/
def returnStatement (tokens modifiers : List Token) : Watched Session (Option Stmt) := do
  plain (Step.rejectModifiers modifiers)
  let keyword ← access (token tokens 0)
  plain (Step.requireFunction keyword "return statements")
  if ← plain Step.isSkimming then return none
  let value ← access (inner tokens)
  match (← get).scopes.returnType? with
  | some expected =>
    if value.isEmpty then
      if expected.kind ≠ .void then
        throw (.atToken (.invalidReturn ("expected a return value of type " ++ expected.describe))
          keyword)
      return some (.returning keyword none)
    if expected.kind = .void then
      throw (.atToken (.invalidReturn "cannot return a value from a void function") keyword)
    let result ← typed value keyword
    if !result.type.fits expected then
      throw (.atToken (.typeMismatch expected.describe result.type.describe) keyword)
    return some (.returning keyword (some result))
  | none =>
    if value.isEmpty then return some (.returning keyword none)
    return some (.returning keyword (some (← typed value keyword)))

/-- The statement that ends standard-library mode. -/
def finishStatement (tokens modifiers : List Token) : Watched Session (Option Stmt) := do
  plain (Step.rejectModifiers modifiers)
  let keyword ← access (token tokens 0)
  if !(← Watched.check (expectEnd tokens 2)) then return none
  modify fun session => { session with stdlib := false }
  if ← plain Step.isSkimming then return none
  return some (.stdlibFinish keyword)

/-! ## Any statement -/

/-- Reads one statement. -/
def statement (tokens : List Token) : Watched Session (Option Stmt) := do
  let (modifiers, rest) ← access (splitModifiers tokens)
  match rest with
  | [] => return none
  | first :: more =>
    match first.kind with
    | .keyword .moduleWord => moduleStatement rest modifiers
    | .keyword .fnWord => functionStatement rest modifiers
    | .keyword .natWord => nativeStatement rest modifiers
    | .keyword .ifWord =>
      return (← ifStatement rest modifiers).map fun head => .ifElse head.1 head.2 [] .absent
    | .keyword .whileWord => whileStatement rest modifiers
    | .keyword .forWord => forStatement rest modifiers
    | .keyword .returnWord => returnStatement rest modifiers
    | .keyword .finishWord => finishStatement rest modifiers
    | .identifier => return (← actionStatement rest modifiers).map .action
    | .question | .typeName _ => return (← variableStatement rest modifiers).map Step.declared
    | .semicolon =>
      if !more.isEmpty then throw (.atToken (.unexpectedToken first.text) first)
      if !modifiers.isEmpty then
        throw (.atToken (.expectedToken "a declaration after the modifiers" first.text) first)
      return none
    | _ => throw (.atToken (.unexpectedToken first.text) first)

/-! ## Every access is in range -/

section

variable {tokens : List Token}

theorem inner_eq (tokens : List Token) : inner tokens = .ok (Token.inner tokens) := by
  unfold inner Token.inner
  split
  next h =>
    rcases tokens with _ | ⟨first, _ | ⟨second, rest⟩⟩
    · rfl
    · rfl
    · exact absurd h (by simp)
  next h => rw [between_one (by omega), List.drop_one]

/-- The parts that are cut out of a head by place are its parts: of the tokens before those to come,
the part under way is what stands after its start. -/
theorem headParts_eq {header before part rest first : List Token} {parts : List (List Token)}
    {start index depth : Nat} (hheader : header = before ++ part ++ rest)
    (hstart : start = before.length) (hindex : index = (before ++ part).length)
    (hparts : Step.headParts depth rest = first :: parts) :
    headParts header start index depth rest = .ok ((part ++ first) :: parts) := by
  induction rest generalizing before part first parts start index depth with
  | nil =>
    obtain ⟨rfl, rfl⟩ := List.cons.inj hparts
    have hend : index = header.length := by rw [hindex, hheader, List.append_nil]
    rw [headParts, ← hend, slice_of_append hheader hstart hindex, List.append_nil]
    rfl
  | cons token rest ih =>
    by_cases hcomma : token.kind = .comma ∧ depth = 0
    · obtain ⟨hk, rfl⟩ := hcomma
      obtain ⟨next, others, hnext⟩ := Step.exists_headParts 0 rest
      rw [Step.headParts_comma hk, hnext] at hparts
      obtain ⟨rfl, rfl⟩ := List.cons.inj hparts
      have hafter : index + 1 = (before ++ part ++ [token]).length := by
        rw [List.length_append, ← hindex, List.length_singleton]
      have hrest := @ih (before ++ part ++ [token]) [] _ _ _ (index + 1) _ (by simp [hheader])
        hafter (by rw [hafter, List.append_nil]) hnext
      rw [headParts, if_pos ⟨hk, rfl⟩, slice_of_append hheader hstart hindex, hrest,
        List.append_nil]
      rfl
    · obtain ⟨next, others, hnext⟩ := Step.exists_headParts (token.parensAfter depth) rest
      rw [Step.headParts_cons hcomma hnext] at hparts
      obtain ⟨rfl, rfl⟩ := List.cons.inj hparts
      have hrest := @ih before (part ++ [token]) _ _ _ (index + 1) _ (by simp [hheader]) hstart
        (by simp [hindex, Nat.add_assoc]) hnext
      rw [headParts, if_neg hcomma, hrest, List.append_assoc]
      rfl

theorem headParts_whole (header : List Token) :
    headParts header 0 0 0 header = .ok (Step.headParts 0 header) := by
  obtain ⟨first, parts, hparts⟩ := Step.exists_headParts 0 header
  rw [hparts]
  exact @headParts_eq header [] [] header first parts 0 0 0 rfl rfl rfl hparts

open Watched (Agrees)
open Session (Anchored)

variable {session : Session} {init test step : List Token}

theorem agrees_requireFunction (h : session.Anchored) (token : Token) (what : String) :
    Agrees Anchored (plain (Step.requireFunction token what)) (Step.requireFunction token what)
      session := by
  refine .plain ?_
  unfold Step.requireFunction
  rw [Fallible.bind_of_ok (Fallible.get_apply _)]
  split <;> exact h

/-- What a statement of a function starts with: no modifiers, and a first token. -/
theorem agrees_opening {α : Type} {what : String} {modifiers : List Token}
    {later : Token → Watched Session α} {k : Token → Step α} (h : session.Anchored)
    (hl : 0 < tokens.length)
    (hk : ∀ (first : Token) (s : Session), s.Anchored → Agrees Anchored (later first) (k first) s) :
    Agrees Anchored (do
      plain (Step.rejectModifiers modifiers)
      let first ← access (token tokens 0)
      plain (Step.requireFunction first what)
      later first) (do
      Step.rejectModifiers modifiers
      let first ← ofExcept (Token.tokenAt tokens 0)
      Step.requireFunction first what
      k first) session := by
  refine .bind (agrees_rejectModifiers h _) fun _ s _ h => ?_
  refine .bind (.tokenAt h hl) fun first s _ h => ?_
  exact .bind (agrees_requireFunction h _ _) fun _ s _ h => hk first s h

theorem agrees_assignStatement (h : session.Anchored) (identifier operator : Token) (value : Expr) :
    Agrees Anchored (assignStatement identifier operator value)
      (Step.assignStatement identifier operator value) session := by
  refine .bind (agrees_isSkimming h) fun _ s _ h => .ite (fun _ => .pure h _) fun _ => ?_
  have hstore := @agrees_store s.env _ h.upward h.toRooted.current identifier operator value
  exact .bind (agrees_within h hstore (Env.keeps_store _ _ _ _)) fun _ s _ h => .pure h _

theorem agrees_actionStatement (h : session.Anchored) (ht : Token.Complete tokens)
    (hl : 1 < tokens.length) (modifiers : List Token) :
    Agrees Anchored (actionStatement tokens modifiers) (Step.actionStatement tokens modifiers)
      session := by
  have counted {s : Session} (identifier operator : Token) (h : s.Anchored) : Agrees Anchored (do
        if ← Watched.check (expectEnd tokens 3) then assignStatement identifier operator Step.one
        else return none) (do
        if ← ofExcept (Token.expectEnd tokens 3) then
          Step.assignStatement identifier operator Step.one
        else return none) s := by
    refine .bind (.check h (agrees_expectEnd (by decide) tokens)) fun _ s _ h => ?_
    exact .ite (fun _ => agrees_assignStatement h _ _ _) fun _ => .pure h _
  refine agrees_opening h (by omega) fun identifier s h => ?_
  refine .bind (.tokenAt h hl) fun next s hnext h => ?_
  cases hk : next.kind with
  | openParen =>
    refine .bind (agrees_isSkimming h) fun _ s _ h => .ite (fun _ => .pure h _) fun _ => ?_
    refine .access_bind (between_one (by omega)) (.bind (agrees_typed h ?_ _) fun value s _ h => ?_)
    · exact fun token hm => ht.ordinary token (List.dropLast_subset _ hm)
    · cases value with
      | call type callee arguments => exact .pure h _
      | _ => exact .throw h _
  | plusPlus => exact counted _ _ h
  | minusMinus => exact counted _ _ h
  | assign op =>
    refine .bind (agrees_isSkimming h) fun _ s _ h => .ite (fun _ => .pure h _) fun _ => ?_
    -- An operator does not end the statement, so something follows it.
    have hlength : 2 < tokens.length := ht.stopped.lt_length
      (Token.getElem?_of_tokenAt (Fallible.ofExcept_eq_ok.1 hnext).1) (by rw [hk]; rfl)
    refine .bind (.access h (between_one hlength) (if_pos hlength)) fun value s hvalue h => ?_
    obtain rfl := Except.ok.inj ((if_pos hlength).symm.trans (Fallible.ofExcept_eq_ok.1 hvalue).1)
    refine .bind (agrees_typed h ?_ _) fun value s _ h => agrees_assignStatement h _ _ _
    exact fun token hm => ht.ordinary token (List.drop_subset _ _ (List.dropLast_subset _ hm))
  | _ => exact .throw h _

/-- A name alone, which no pass cuts out, is too short for an action. -/
example : actionStatement [.synthetic .identifier "a"] []
    { Session.initial {} with scopes := ScopeStack.initial.pushFunction .void } =
      .error (.index 1 1) := rfl

theorem agrees_condition (h : session.Anchored) (ht : ∀ token ∈ tokens, token.kind ≠ .endOfFile)
    (keyword : Token) :
    Agrees Anchored (condition tokens keyword) (Step.condition tokens keyword) session := by
  simp only [condition, Step.condition, Step.fail, Watched.throw_bind, Fallible.throw_bind]
  refine .bind (agrees_typed h ht _) fun value s _ h => ?_
  exact .ite (fun _ => .throw h _) fun _ => .pure h _

theorem ordinary_inner (ht : ∀ token ∈ tokens, token.kind ≠ .endOfFile) :
    ∀ token ∈ Token.inner tokens, token.kind ≠ .endOfFile :=
  fun token hm => ht token (Token.inner_subset tokens hm)

theorem agrees_ifStatement (h : session.Anchored) (hl : 0 < tokens.length)
    (ht : ∀ token ∈ tokens, token.kind ≠ .endOfFile) (modifiers : List Token) :
    Agrees Anchored (ifStatement tokens modifiers) (Step.ifStatement tokens modifiers) session := by
  refine agrees_opening h hl fun keyword s h => ?_
  refine .bind (agrees_enterHere h rfl) fun _ s _ h => ?_
  refine .bind (agrees_isSkimming h) fun _ s _ h => .ite (fun _ => .pure h _) fun _ => ?_
  refine .access_bind (inner_eq tokens) ?_
  exact .bind (agrees_condition h (ordinary_inner ht) _) fun _ s _ h => .pure h _

theorem agrees_whileStatement (h : session.Anchored) (hl : 0 < tokens.length)
    (ht : ∀ token ∈ tokens, token.kind ≠ .endOfFile) (modifiers : List Token) :
    Agrees Anchored (whileStatement tokens modifiers) (Step.whileStatement tokens modifiers)
      session := by
  refine agrees_opening h hl fun keyword s h => ?_
  refine .bind (agrees_enterHere h rfl) fun _ s _ h => ?_
  refine .bind (agrees_isSkimming h) fun _ s _ h => .ite (fun _ => .pure h _) fun _ => ?_
  refine .access_bind (inner_eq tokens) ?_
  exact .bind (agrees_condition h (ordinary_inner ht) _) fun _ s _ h => .pure h _

theorem agrees_reporting {α : Type} {guarded : Watched Session (Option α)} {f : Step (Option α)}
    (hf : Agrees Anchored guarded f session) :
    Agrees Anchored (reporting guarded) (Step.reporting f) session := by
  obtain ⟨hrun, hkept⟩ := hf
  have hguarded : reporting guarded session = guarded session >>= fun
      | (.ok result, after) => .ok (.ok result, after)
      | (.error error, after) => .ok (.ok none, after.report error) := rfl
  rcases hx : f session with ⟨error | result, after⟩
  · have hmodel : Step.reporting f session = (.ok none, after.report error) := by
      rw [Step.reporting, hx]
    rw [hx] at hrun hkept
    exact ⟨by rw [hguarded, hrun, hmodel]; rfl, by rw [hmodel]; exact hkept.report error⟩
  · have hmodel : Step.reporting f session = (.ok result, after) := by rw [Step.reporting, hx]
    rw [hx] at hrun hkept
    exact ⟨by rw [hguarded, hrun, hmodel]; rfl, by rwa [hmodel]⟩

theorem agrees_expectStart (h : session.Anchored) (tokens : List Token) (keyword : Token)
    (accepts : Kind → Bool) (expected : String) :
    Agrees Anchored (plain (Step.expectStart tokens keyword accepts expected))
      (Step.expectStart tokens keyword accepts expected) session := by
  refine .plain ?_
  unfold Step.expectStart
  cases tokens.head? with
  | none => exact h
  | some first =>
    dsimp only
    rw [Fallible.ite_apply]
    split <;> exact h

theorem agrees_loopStatement (h : session.Anchored)
    (hinit : ∀ token ∈ init, token.kind ≠ .endOfFile)
    (htest : ∀ token ∈ test, token.kind ≠ .endOfFile)
    (hstep : ∀ token ∈ step, token.kind ≠ .endOfFile) (keyword : Token) :
    Agrees Anchored (loopStatement keyword init test step)
      (Step.loopStatement keyword init test step) session := by
  have hdeclaration : Token.Complete (Step.terminated (Token.afterModifiers init)) :=
    .terminated fun token hm => hinit token ((List.dropWhile_sublist _).subset hm)
  simp only [loopStatement, Step.loopStatement, Step.fail, Watched.throw_bind, Fallible.throw_bind]
  refine .access_bind (splitModifiers_eq init) ?_
  refine .bind (agrees_expectStart h _ _ _ _) fun _ s _ h => ?_
  refine .bind (agrees_expectStart h _ _ _ _) fun _ s hs h => ?_
  refine .bind (agrees_isSkimming h) fun _ s _ h => .ite (fun _ => ?_) fun _ => ?_
  · refine .bind (agrees_reporting (agrees_variableStatement h hdeclaration _)) fun _ s _ h => ?_
    refine .ite (fun _ => .throw h _) fun _ => ?_
    exact .bind (agrees_enterHere h rfl) fun _ s _ h => .pure h _
  refine .bind (agrees_variableStatement h hdeclaration _) fun declared s _ h => ?_
  rcases declared with _ | ⟨header, _ | value⟩
  · exact .pure h _
  · exact .throw h _
  refine .bind (agrees_condition h htest _) fun test s _ h => ?_
  have hlength : 1 < (Step.terminated step).length := by
    cases step with
    | nil => exact absurd hs (by simp [Step.expectStart, Step.fail])
    | cons first rest => simp [Step.terminated]
  refine .bind (agrees_actionStatement h (.terminated hstep) hlength _) fun action s _ h => ?_
  cases action with
  | none => exact .pure h _
  | some action => exact .bind (agrees_enterHere h rfl) fun _ s _ h => .pure h _

theorem agrees_forStatement (h : session.Anchored) (hl : 0 < tokens.length)
    (ht : ∀ token ∈ tokens, token.kind ≠ .endOfFile) (modifiers : List Token) :
    Agrees Anchored (forStatement tokens modifiers) (Step.forStatement tokens modifiers) session := by
  have hparts : ∀ part ∈ Step.headParts 0 (Token.inner tokens), ∀ token ∈ part,
      token.kind ≠ .endOfFile := fun part hp token hm =>
    ordinary_inner ht token (Step.subset_of_mem_headParts hp hm)
  refine agrees_opening h hl fun keyword s h => ?_
  refine .bind (agrees_enterHere h rfl) fun _ s _ h => ?_
  refine .access_bind (inner_eq tokens) (.access_bind (headParts_whole _) ?_)
  generalize Step.headParts 0 (Token.inner tokens) = parts at hparts
  rcases parts with _ | ⟨init, _ | ⟨second, _ | ⟨third, _ | ⟨fourth, rest⟩⟩⟩⟩
  · exact .throw h _
  · exact .throw h _
  · rcases second with _ | ⟨counter, _ | ⟨arrow, limit⟩⟩
    · exact .throw h _
    · exact .throw h _
    · have htransition := hparts (counter :: arrow :: limit) (by simp)
      obtain ⟨hcounter, hafter⟩ := List.forall_mem_cons.1 htransition
      obtain ⟨-, hlimit⟩ := List.forall_mem_cons.1 hafter
      refine .ite (fun _ => ?_) fun _ => .throw h _
      refine .access_bind (@slice_of_append _ _ _ [counter, arrow] limit [] (by simp) rfl rfl) ?_
      refine agrees_loopStatement h (hparts _ (by simp)) ?_ ?_ _
      · simpa [hcounter, Token.synthetic, or_imp, forall_and] using hlimit
      · simp [hcounter, Token.synthetic]
  · exact agrees_loopStatement h (hparts _ (by simp)) (hparts _ (by simp)) (hparts _ (by simp)) _
  · exact .throw h _

theorem agrees_returnStatement (h : session.Anchored) (hl : 0 < tokens.length)
    (ht : ∀ token ∈ tokens, token.kind ≠ .endOfFile) (modifiers : List Token) :
    Agrees Anchored (returnStatement tokens modifiers) (Step.returnStatement tokens modifiers)
      session := by
  have hinner := ordinary_inner ht
  simp only [returnStatement, Step.returnStatement, Step.fail, Watched.throw_bind,
    Fallible.throw_bind]
  refine agrees_opening h hl fun keyword s h => ?_
  refine .bind (agrees_isSkimming h) fun _ s _ h => .ite (fun _ => .pure h _) fun _ => ?_
  refine .access_bind (inner_eq tokens) (.get_bind ?_)
  cases s.scopes.returnType? with
  | none =>
    refine .ite (fun _ => .pure h _) fun _ => ?_
    exact .bind (agrees_typed h hinner _) fun value s _ h => .pure h _
  | some expected =>
    refine .ite (fun _ => .ite (fun _ => .throw h _) fun _ => .pure h _) fun _ => ?_
    refine .ite (fun _ => .throw h _) fun _ => ?_
    refine .bind (agrees_typed h hinner _) fun value s _ h => ?_
    exact .ite (fun _ => .throw h _) fun _ => .pure h _

theorem agrees_finishStatement (h : session.Anchored) (hl : 0 < tokens.length)
    (modifiers : List Token) :
    Agrees Anchored (finishStatement tokens modifiers) (Step.finishStatement tokens modifiers)
      session := by
  refine .bind (agrees_rejectModifiers h _) fun _ s _ h => ?_
  refine .bind (.tokenAt h hl) fun keyword s _ h => ?_
  refine .bind (.check h (agrees_expectEnd (by decide) tokens)) fun _ s _ h => ?_
  refine .ite (fun _ => .pure h _) fun _ => ?_
  have hfinished : Anchored { s with stdlib := false } :=
    ⟨⟨h.scopes, h.deferred⟩, h.upward, h.ordinary⟩
  refine .bind (.modify hfinished) fun _ s _ h => ?_
  exact .bind (agrees_isSkimming h) fun _ s _ h => .ite (fun _ => .pure h _) fun _ => .pure h _

/-- A statement that is cut out of a program is read with all accesses in range. -/
theorem agrees_statement (h : session.Anchored) (ht : Token.Complete tokens) :
    Agrees Anchored (statement tokens) (Step.statement tokens) session := by
  simp only [statement, Step.statement, Step.fail, Watched.throw_bind, Fallible.throw_bind]
  refine .access_bind (splitModifiers_eq tokens) ?_
  cases hrest : Token.afterModifiers tokens with
  | nil => exact .pure h _
  | cons first more =>
    have ht := ht.afterModifiers hrest
    have hn : first :: more ≠ [] := List.cons_ne_nil _ _
    have hl : 0 < (first :: more).length := Nat.succ_pos _
    dsimp only
    cases hk : first.kind with
    | keyword word =>
      cases word with
      | moduleWord => exact agrees_moduleStatement h hn _
      | fnWord => exact agrees_functionStatement h hn _
      | natWord => exact agrees_nativeStatement h hn _
      | ifWord => exact .bind (agrees_ifStatement h hl ht.ordinary _) fun _ s _ h => .pure h _
      | whileWord => exact agrees_whileStatement h hl ht.ordinary _
      | forWord => exact agrees_forStatement h hl ht.ordinary _
      | returnWord => exact agrees_returnStatement h hl ht.ordinary _
      | finishWord => exact agrees_finishStatement h hl _
      | elseWord => exact .throw h _
    | identifier =>
      have hsecond := ht.stopped.second (by rw [hk]; rfl)
      exact .bind (agrees_actionStatement h ht hsecond _) fun _ s _ h => .pure h _
    | question => exact .bind (agrees_variableStatement h ht _) fun _ s _ h => .pure h _
    | typeName name => exact .bind (agrees_variableStatement h ht _) fun _ s _ h => .pure h _
    | semicolon =>
      exact .ite (fun _ => .throw h _) fun _ => .ite (fun _ => .throw h _) fun _ => .pure h _
    | _ => exact .throw h _

end

end Guarded

end MuLang
