import MuLang.Proofs.Passes

/-!
# Braces

The open blocks of a pass are its open braces, however faulty the heads of the blocks are, and there
is one scope for each of them besides the headers of the loops. So a brace that closes nothing, and
the lack of one at the end, are reported just where the tokens have them.
-/
namespace MuLang

/-! ## Braces among tokens -/

namespace Token

/-- How many braces are open after a token. A brace that closes nothing leaves none open. -/
def depthAfter (depth : Nat) (token : Token) : Nat :=
  match token.kind with
  | .openCurly => depth + 1
  | .closeCurly => depth - 1
  | _ => depth

/-- How many braces are open after some tokens. -/
def depth (tokens : List Token) : Nat := tokens.foldl depthAfter 0

/-- A closing brace where none is open. -/
def isStray (depth : Nat) (token : Token) : Bool := token.kind = .closeCurly && depth = 0

/-- The closing braces among some tokens that close nothing. -/
def strays (depth : Nat) : List Token → List Token
  | [] => []
  | token :: rest => [token].filter (isStray depth) ++ strays (token.depthAfter depth) rest

theorem strays_append (start : Nat) (tokens more : List Token) :
    strays start (tokens ++ more) =
      strays start tokens ++ strays (tokens.foldl depthAfter start) more := by
  induction tokens generalizing start with
  | nil => rfl
  | cons first rest ih => simp [strays, ih]

theorem strays_singleton (depth : Nat) (token : Token) :
    strays depth [token] = [token].filter (isStray depth) :=
  List.append_nil _

end Token

/-! ## Scopes -/

theorem Step.Opens.outermost_eq {kind? : Option ScopeKind} {before after : Frame}
    (h : Opens kind? before after) : after.scopes.outermost = before.scopes.outermost := by
  cases h with
  | nothing => rfl
  | block _ he => cases he <;> rfl
  | loop _ he => cases he <;> rfl

namespace ScopeStack

/-- All scopes, innermost first. -/
def all (scopes : ScopeStack) : List Scope := scopes.nested ++ [scopes.outermost]

variable {scopes rest : ScopeStack}

theorem outermost_insideBlock (size : Nat) (kind : ScopeKind) :
    (scopes.insideBlock size kind).outermost = scopes.outermost := by
  unfold insideBlock
  split <;> rfl

theorem outermost_popBlock? (h : scopes.popBlock? = some rest) :
    rest.outermost = scopes.outermost := by
  have hn : scopes.nested ≠ [] := by
    intro hn
    simp [popBlock?, pop?, hn] at h
  rw [popBlock?_of_ne_nil hn] at h
  cases h
  split <;> rfl

end ScopeStack

namespace Nested

variable {kinds : List ScopeKind} {blocks : List (Owner × Body)}

/-- Besides the headers of loops there is a scope for every block. -/
theorem length_eq (h : Nested kinds blocks) :
    (kinds.filter (· ≠ .loopHeader)).length = blocks.length := by
  induction h with
  | outside => rfl
  | block hk _ ih => simpa [hk] using ih
  | loop _ ih => simpa using ih

/-- Inside the header of a loop lies the block of the loop. -/
theorem inside_header (h : Nested kinds blocks) {index : Nat}
    (hi : kinds[index]? = some .loopHeader) :
    ∃ inner, index = inner + 1 ∧ kinds[inner]? = some .forBlock := by
  induction h generalizing index with
  | outside => cases hi
  | block hk _ ih =>
    cases index with
    | zero => exact absurd (Option.some.inj hi) hk
    | succ inner =>
      obtain ⟨next, rfl, hn⟩ := ih hi
      exact ⟨next + 1, rfl, hn⟩
  | loop _ ih =>
    rcases index with _ | _ | inner
    · cases hi
    · exact ⟨0, rfl, rfl⟩
    · obtain ⟨next, rfl, hn⟩ := ih hi
      exact ⟨next + 2, rfl, hn⟩

end Nested

namespace Reading

variable {reading later : Reading} {read tokens : List Token} {token : Token}

/-! ## Open blocks -/

theorem length_changeBody (reading : Reading) (change : Body → Body) :
    (reading.changeBody change).blocks.length = reading.blocks.length := by
  unfold changeBody
  split
  next h => rw [h]
  next h => rw [h, List.length_cons, List.length_cons]

theorem length_closeBlock (reading : Reading) (brace : Token) :
    (reading.closeBlock brace).blocks.length = reading.blocks.length - 1 := by
  unfold closeBlock
  split
  next h =>
    rw [h]
    exact congrArg List.length h
  next owner body blocks h =>
    rw [h]
    dsimp only
    split
    · rfl
    · exact length_changeBody _ _

/-- A token opens and closes the blocks that it opens and closes as a brace. -/
theorem length_step (reading : Reading) (token : Token) :
    (reading.step token).blocks.length = token.depthAfter reading.blocks.length := by
  unfold step Token.depthAfter
  split
  next h =>
    simp only [h]
    unfold endStatement
    rw [length_changeBody]
    exact congrArg List.length (blocks_run _ _)
  next h =>
    simp only [h]
    have hr := blocks_run { reading with current := [] }
      (Step.owner (body { reading with current := [] }).chain (reading.current ++ [token]))
    exact congrArg (·.length + 1) hr
  next h =>
    simp only [h]
    split
    · exact length_closeBlock reading token
    · exact length_closeBlock (report { reading with current := [] } _) token
  next hs ho hc =>
    split
    · exact absurd (by assumption) ho
    · exact absurd (by assumption) hc
    · rfl

theorem kind_outermost_step (reading : Reading) (token : Token) :
    (reading.step token).session.scopes.outermost.kind =
      reading.session.scopes.outermost.kind := by
  have run {α : Type} {kind? : Option ScopeKind} {step : Step (Option α)}
      (h : step.Commits (Step.Opens kind?)) (reading : Reading) :
      (reading.run step).2.session.scopes.outermost.kind =
        reading.session.scopes.outermost.kind := by
    have hf := congrArg Scope.kind (run_frame h reading).outermost_eq
    exact hf
  have close (reading : Reading) : (reading.closeBlock token).session.scopes.outermost.kind =
      reading.session.scopes.outermost.kind := by
    unfold closeBlock
    split
    · rfl
    · dsimp only
      split
      · rfl
      next hp =>
        rw [session_changeBody]
        exact congrArg Scope.kind (ScopeStack.outermost_popBlock? hp)
  unfold step
  split
  · unfold endStatement
    rw [session_changeBody]
    have hf := run_frame (Step.commits_closed (reading.current ++ [token]))
      { reading with current := [] }
    exact congrArg (fun frame : Frame => frame.scopes.outermost.kind) hf.symm
  · unfold openBlock
    dsimp only [changeScopes]
    rw [ScopeStack.outermost_insideBlock]
    exact run (Step.commits_owner _ _) { reading with current := [] }
  · split
    · exact close reading
    · exact close _
  · rfl

/-- The blocks and scopes at a depth of braces. -/
structure InDepth (depth : Nat) (reading : Reading) : Prop where
  blocks : reading.blocks.length = depth
  scopes : (reading.session.scopes.all.filter (·.kind ≠ .loopHeader)).length = depth + 1
  outermost : reading.session.scopes.outermost.kind = .program
  headers : ∀ index scope, reading.session.scopes.all[index]? = some scope →
    scope.kind = .loopHeader → ∃ inner block, index = inner + 1 ∧
      reading.session.scopes.all[inner]? = some block ∧ block.kind = .forBlock

theorem Balanced.inDepth (hb : reading.Balanced)
    (ho : reading.session.scopes.outermost.kind = .program) :
    reading.InDepth reading.blocks.length := by
  have hk : reading.session.scopes.all.map (·.kind) =
      reading.session.scopes.kinds ++ [.program] := by
    simp [ScopeStack.all, ScopeStack.kinds, ho]
  refine ⟨rfl, ?_, ho, fun index scope hi hs => ?_⟩
  · have hl : (reading.session.scopes.all.map (·.kind)).filter (· ≠ .loopHeader) =
        reading.session.scopes.kinds.filter (· ≠ .loopHeader) ++ [.program] := by
      rw [hk, List.filter_append]
      rfl
    have hn := congrArg List.length hl
    rw [List.filter_map, List.length_map, List.length_append, hb.length_eq] at hn
    exact hn
  · have hm : (reading.session.scopes.kinds ++ [.program])[index]? = some .loopHeader := by
      rw [← hk, List.getElem?_map, hi, Option.map_some, hs]
    have hlt : index < reading.session.scopes.kinds.length := by
      rw [List.getElem?_append] at hm
      split at hm
      · assumption
      · obtain ⟨hx, hv⟩ := List.getElem?_eq_some_iff.1 hm
        simp at hx hv
    rw [List.getElem?_append_left hlt] at hm
    obtain ⟨inner, rfl, hf⟩ := hb.inside_header hm
    have ha : (reading.session.scopes.all.map (·.kind))[inner]? = some .forBlock := by
      rw [hk, List.getElem?_append_left (by omega), hf]
    rw [List.getElem?_map, Option.map_eq_some_iff] at ha
    obtain ⟨block, hi, hf⟩ := ha
    exact ⟨inner, block, rfl, hi, hf⟩

/-- The open blocks are those that tokens open and close as braces. -/
theorem Passes.length_foldl (h : reading.Passes read later) :
    later.blocks.length = read.foldl Token.depthAfter reading.blocks.length := by
  induction h with
  | start => rfl
  | token _ _ _ ih => rw [length_step, ih, List.foldl_append, List.foldl_cons, List.foldl_nil]

/-- From outside all blocks, the open blocks are the open braces. -/
theorem Passes.length_eq (h : reading.Passes read later) (hn : reading.blocks = []) :
    later.blocks.length = Token.depth read := by
  rw [h.length_foldl, hn]
  rfl

theorem inDepth_of_passes {session : Session} {pass : Pass}
    (h : (start session pass).Passes read later) : later.InDepth (Token.depth read) := by
  have hl := h.length_eq rfl
  have ho : later.session.scopes.outermost.kind = .program :=
    h.preserves (fun reading token ho _ => (kind_outermost_step reading token).trans ho) rfl
  exact hl ▸ (h.balanced (balanced_start _ _)).inDepth ho

end Reading

/-! ## Errors of braces -/

/-- The error of a closing brace that closes nothing. -/
def Error.strayBrace (brace : Token) : Error :=
  .atToken (.unexpectedTokenDetailed brace.text "there is no open block to close") brace

/-- The error of a closing brace that is missing after some tokens. -/
def Error.missingBrace (tokens : List Token) : Error :=
  ⟨.expectedToken "`\x7d`" "end of input", (tokens.getLast?.map (·.span.start)).getD .nowhere, []⟩

namespace Log

/-- The errors of a log are ordinary, but for those of some closing braces that close nothing. A log
with a budget may lack any of them. -/
structure Braced (strays : List Token) (log : Log) : Prop where
  external : ∀ error ∈ log.errors, ¬error.isInternal
  strays_eq : log.limit = none →
    log.errors.filter (·.cause.isStrayBrace) = strays.map .strayBrace
  noMissing : log.limit = none → log.errors.filter (·.cause.isMissingBrace) = []

variable {log later : Log} {strays : List Token}

namespace Braced

theorem append (h : log.Braced strays) {more : List Error} (hl : later.limit = log.limit)
    (he : later.errors = log.errors ++ more) (hm : ∀ error ∈ more, error.Ordinary) :
    later.Braced strays := by
  have hs : more.filter (·.cause.isStrayBrace) = [] :=
    List.filter_eq_nil_iff.2 fun error he => by simp [(hm error he).noStray]
  have hb : more.filter (·.cause.isMissingBrace) = [] :=
    List.filter_eq_nil_iff.2 fun error he => by simp [(hm error he).noMissing]
  refine ⟨?_, fun hn => ?_, fun hn => ?_⟩
  · rw [he]
    exact List.forall_mem_append.2 ⟨h.external, fun error he => (hm error he).external⟩
  · rw [he, List.filter_append, hs, List.append_nil, h.strays_eq (hl ▸ hn)]
  · rw [he, List.filter_append, hb, h.noMissing (hl ▸ hn)]
    rfl

theorem report (h : log.Braced strays) {error : Error} (he : error.Ordinary) :
    (log.report error).Braced strays := by
  unfold Log.report
  split
  · exact h
  · exact h.append rfl rfl (by simpa using he)

theorem stray (h : log.Braced strays) (brace : Token) :
    (log.report (.strayBrace brace)).Braced (strays ++ [brace]) := by
  have hl := (extends_report log (.strayBrace brace)).limit_eq
  have he : ¬(Error.strayBrace brace).isInternal := Bool.false_ne_true
  refine ⟨forall_mem_report h.external he, fun hn => ?_, fun hn => ?_⟩
  · rw [errors_report (hl ▸ hn), List.filter_append, h.strays_eq (hl ▸ hn), List.map_append]
    rfl
  · rw [errors_report (hl ▸ hn), List.filter_append, h.noMissing (hl ▸ hn)]
    rfl

theorem hasInternal_eq (h : log.Braced strays) : log.hasInternal = false := by
  rw [hasInternal, List.any_eq_false]
  exact h.external

end Braced

end Log

namespace Reading

variable {reading later : Reading} {read tokens : List Token} {token : Token}
  {strays : List Token}

/-- The errors reported so far are ordinary, but for those of some stray braces. -/
abbrev Reports (strays : List Token) (reading : Reading) : Prop :=
  reading.session.log.Braced strays

theorem reports_run {α : Type} {R : Frame → Frame → Prop} {step : Step (Option α)}
    (h : reading.Reports strays) (hr : step.Raises Error.Ordinary) (hc : step.Commits R) :
    (reading.run step).2.Reports strays := by
  obtain ⟨more, hm, ho⟩ := added_run hr reading
  exact h.append (extends_run hc reading).limit_eq hm ho

theorem reports_changeBody (h : reading.Reports strays) (change : Body → Body) :
    (reading.changeBody change).Reports strays := by
  rwa [Reports, session_changeBody]

theorem reports_closeBlock (h : reading.Reports strays) (hb : reading.Balanced) {brace : Token}
    (hk : brace.kind = .closeCurly) : (reading.closeBlock brace).Reports
      (strays ++ [brace].filter (Token.isStray reading.blocks.length)) := by
  unfold Reading.closeBlock
  unfold Balanced at hb
  split
  next hn =>
    have hs : [brace].filter (Token.isStray reading.blocks.length) = [brace] := by
      simp [Token.isStray, hk, hn]
    rw [hs]
    exact h.stray brace
  next owner body blocks hn =>
    rw [hn] at hb
    obtain ⟨rest, hp, -⟩ := hb.popBlock
    have hs : [brace].filter (Token.isStray reading.blocks.length) = [] := by
      simp [Token.isStray, hn]
    rw [hs, List.append_nil]
    dsimp only
    rw [hp]
    have hr : Reports strays
        { reading with session := { reading.session with scopes := rest }, blocks } := h
    exact reports_changeBody hr _

theorem reports_endStatement (h : reading.Reports strays) (hs : Token.Stopped tokens) :
    (reading.endStatement tokens).Reports strays := by
  have hr := reports_run h (Step.raises_closed hs) (Step.commits_closed tokens)
  have hc : Reports strays ((reading.run (Step.closed tokens)).2.changeScopes
      (·.truncate reading.session.scopes.size)) := hr
  exact reports_changeBody hc (·.add (reading.run (Step.closed tokens)).1)

theorem reports_openBlock (h : reading.Reports strays) (hs : Token.Stopped tokens) :
    (reading.openBlock tokens).Reports strays :=
  reports_run h (Step.raises_owner hs reading.body.chain) (Step.commits_owner _ tokens)

/-- A token that closes nothing is reported once. -/
theorem reports_step (h : reading.Reports strays) (hb : reading.Balanced) (token : Token) :
    (reading.step token).Reports
      (strays ++ [token].filter (Token.isStray reading.blocks.length)) := by
  have hr : Reports strays { reading with current := [] } := h
  have other (hk : token.kind ≠ .closeCurly) :
      strays ++ [token].filter (Token.isStray reading.blocks.length) = strays := by
    simp [Token.isStray, hk]
  have stopped (hk : token.kind.isStop) : Token.Stopped (reading.current ++ [token]) :=
    Token.stopped_append _ hk
  unfold Reading.step
  split
  next hk =>
    rw [other (by simp [hk])]
    exact reports_endStatement hr (stopped (by rw [hk]; rfl))
  next hk =>
    rw [other (by simp [hk])]
    exact reports_openBlock hr (stopped (by rw [hk]; rfl))
  next hk =>
    split
    · exact reports_closeBlock h hb hk
    · have he : Error.Ordinary (.atToken (.expectedToken "`;`" token.text) token) :=
        ⟨Bool.false_ne_true, rfl, rfl⟩
      have hu : Reports strays (report { reading with current := [] }
          (.atToken (.expectedToken "`;`" token.text) token)) := h.report he
      exact reports_closeBlock hu hb hk
  next hk =>
    rw [other hk]
    exact h

theorem reports_of_passes (h : reading.Passes read later) (hr : reading.Reports [])
    (hb : reading.Balanced) (hn : reading.blocks = []) :
    later.Reports (Token.strays 0 read) := by
  induction h with
  | start => exact hr
  | @token read later token h _ _ ih =>
    have hs := reports_step ih (h.balanced hb) token
    rwa [h.length_eq hn, Token.depth, ← Token.strays_singleton, ← Token.strays_append] at hs

theorem isClosed_eq_of_reports (h : reading.Reports strays)
    (hl : reading.session.log.limit = none) : reading.session.log.isClosed = false := by
  have hx : reading.session.log.isExhausted = false := by simp [Log.isExhausted, hl]
  rw [Log.isClosed, h.hasInternal_eq, hx]
  rfl

theorem reports_reportUnfinished (h : reading.Reports strays) :
    reading.reportUnfinished.Reports strays := by
  unfold reportUnfinished
  split
  · exact h.report ⟨Bool.false_ne_true, rfl, rfl⟩
  · exact h

theorem external_finish (h : reading.Reports strays) (tokens : List Token) :
    ∀ error ∈ (reading.finish tokens).session.log.errors, ¬error.isInternal := by
  have hu := reports_reportUnfinished h
  have he : ¬(Error.missingBrace tokens).isInternal := Bool.false_ne_true
  unfold finish reportUnclosed
  split
  · exact Log.forall_mem_report hu.external he
  · exact hu.external

/-- At the end of the input a missing brace is reported, once for all blocks that are open. -/
theorem braces_of_finish (h : reading.Reports strays) (hl : reading.session.log.limit = none)
    (tokens : List Token) :
    let errors := (reading.finish tokens).session.log.errors
    errors.filter (·.cause.isStrayBrace) = strays.map .strayBrace ∧
      errors.filter (·.cause.isMissingBrace) =
        if reading.blocks = [] then [] else [.missingBrace tokens] := by
  have hu := reports_reportUnfinished h
  have hlimit := (extends_reportUnfinished reading).limit_eq.trans hl
  have hblocks : reading.reportUnfinished.blocks = reading.blocks := by
    unfold reportUnfinished
    split <;> rfl
  unfold finish reportUnclosed
  rw [hblocks, hu.hasInternal_eq]
  by_cases hn : reading.blocks = []
  · simp only [hn, List.isEmpty_nil, Bool.not_true, Bool.false_and, Bool.false_eq_true, if_false,
      if_true]
    exact ⟨hu.strays_eq hlimit, hu.noMissing hlimit⟩
  · have hr := Log.errors_report hlimit (.missingBrace tokens)
    have he : reading.blocks.isEmpty = false := by simpa using hn
    simp only [he, hn, Bool.not_false, Bool.and_self, if_true, if_false]
    change (Log.report _ (.missingBrace tokens)).errors.filter _ = _ ∧
      (Log.report _ (.missingBrace tokens)).errors.filter _ = _
    rw [hr, List.filter_append, List.filter_append, hu.strays_eq hlimit, hu.noMissing hlimit]
    exact ⟨List.append_nil _, rfl⟩

end Reading

/-- At every point of every pass there is a block for every open brace, and a scope for every block
and the program, besides those of the headers of loops, inside each of which lies the block of the
loop. Hence the first pass reports without a budget exactly the closing braces that close nothing,
each of them once, and a missing one just where a block stays open. -/
theorem braces_of_passes (settings : Settings) (tokens : List Token) :
    (∀ session pass read later, (Reading.start session pass).Passes read later →
      later.InDepth (Token.depth read)) ∧
    (settings.maxErrors = none →
      let read := tokens.takeWhile (·.kind ≠ .endOfFile)
      let errors := (Session.skim settings tokens).log.errors
      errors.filter (·.cause.isStrayBrace) = (Token.strays 0 read).map .strayBrace ∧
        errors.filter (·.cause.isMissingBrace) =
          if Token.depth read = 0 then [] else [.missingBrace tokens]) := by
  refine ⟨fun _ _ _ _ h => Reading.inDepth_of_passes h, fun hm => ?_⟩
  let reading := Reading.start (.initial settings) .skim
  have hreports {read : List Token} {later : Reading} (h : reading.Passes read later) :
      later.Reports (Token.strays 0 read) :=
    Reading.reports_of_passes h ⟨by simp [reading, Reading.start, Session.initial, Log.empty],
      fun _ => rfl, fun _ => rfl⟩ (Reading.balanced_start _ _) rfl
  have hlimit {read : List Token} {later : Reading} (h : reading.Passes read later) :
      later.session.log.limit = none := h.extends_log.limit_eq.trans hm
  obtain ⟨_, _, -, hsteps, -⟩ := Reading.exists_passes_steps reading tokens
  have hp := Reading.passes_steps_of_open
    (Reading.isClosed_eq_of_reports (hreports hsteps) (hlimit hsteps))
  have hf := Reading.braces_of_finish (hreports hp) (hlimit hp) tokens
  have hl := hp.length_eq rfl
  have hlog : (Session.skim settings tokens).log =
      ((reading.steps tokens).finish tokens).session.log := Session.log_resolveDeferred _ _
  have hd : (reading.steps tokens).blocks = [] ↔
      Token.depth (tokens.takeWhile (·.kind ≠ .endOfFile)) = 0 := by
    rw [← hl, List.length_eq_zero_iff]
  dsimp only
  rw [hlog]
  simpa only [hd] using hf

/-- After a brace that closes nothing a block is opened and not closed. -/
theorem braces_of_unmatched :
    let close : Token := .synthetic .closeCurly "\x7d"
    let opening : Token := .synthetic .openCurly "\x7b"
    let errors := (Session.skim {} [close, opening]).log.errors
    (∃ later, (Reading.start (.initial {}) .skim).Passes [close, opening] later ∧
      later.InDepth 1) ∧
    errors.filter (·.cause.isStrayBrace) = [.strayBrace close] ∧
      errors.filter (·.cause.isMissingBrace) = [.missingBrace [close, opening]] := by
  intro close opening errors
  obtain ⟨hpasses, hskim⟩ := braces_of_passes {} [close, opening]
  have hp : (Reading.start (.initial {}) .skim).Passes [close, opening]
      (((Reading.start (.initial {}) .skim).step close).step opening) :=
    .token (.token .start rfl (by decide)) (by with_unfolding_all rfl) (by decide)
  exact ⟨⟨_, hp, hpasses _ _ _ _ hp⟩, hskim rfl⟩

end MuLang
