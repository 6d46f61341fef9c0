import MuLang.Proofs.Agreement
import MuLang.Proofs.Beside
import MuLang.Proofs.Passes

/-!
# Where the second pass goes

Where the first pass has found nothing wrong, the second one goes over the program beside it, also
past its own errors: at every token the scopes of both have one shape, an `else` may follow in both
or in neither, and the second pass finds every module and function registered and nothing misplaced.
-/
namespace MuLang

/-! ## Where an `else` may follow -/

/-- Whether an `else` may follow the statements collected so far. -/
def Body.takesElse (body : Body) : Bool := body.chain ≠ .closed

/-- Whether an `else` may follow a block that belongs to the owner. -/
def Owner.takesElse : Owner → Bool
  | .statement stmt => stmt.isIf
  | .elseIf .. => true
  | .otherwise => false
  | .failed kind => kind = .ifBlock

@[simp] theorem Body.takesElse_add (body : Body) (stmt : Option Stmt) :
    (body.add stmt).takesElse = false := rfl

@[simp] theorem Body.takesElse_close (parent : Body) (owner : Owner) (body : List Stmt) :
    (parent.close owner body).takesElse = owner.takesElse := by
  cases owner with
  | statement stmt => cases h : stmt.isIf <;> simp [close, takesElse, Owner.takesElse, h]
  | elseIf keyword condition =>
    unfold close
    dsimp only
    split <;> rfl
  | otherwise => rfl
  | failed kind => by_cases h : kind = .ifBlock <;> simp [close, takesElse, Owner.takesElse, h]

theorem Body.chain_congr {body other : Body} (h : body.takesElse = other.takesElse) :
    body.chain = .closed ↔ other.chain = .closed := by
  simpa [takesElse] using h

namespace Step

variable {s e s' : Session} {chain follows : Chain}

/-- What is left of a head that has been read, or has failed. -/
def ownerOr (kind : ScopeKind) (result : Except Error (Option Owner)) : Owner :=
  (result.toOption.bind id).getD (.failed kind)

theorem takesElse_ownerOr {kind : ScopeKind} {result : Except Error (Option Owner)}
    (h : ∀ found, result = .ok found → ∀ owner ∈ found, owner.takesElse = decide (kind = .ifBlock)) :
    (ownerOr kind result).takesElse = decide (kind = .ifBlock) := by
  rcases result with error | _ | owner
  · rfl
  · rfl
  · exact h _ rfl owner rfl

/-- The tokens of the head of a block alone decide whether an `else` may follow the block. -/
theorem takesElse_owner {tokens : List Token} {skimmed : Option Owner}
    (hc : chain = .closed ↔ follows = .closed) (hs : owner chain tokens s = (.ok skimmed, s')) :
    (ownerOr ((Token.block? tokens).getD .ifBlock) (.ok skimmed)).takesElse =
      (ownerOr ((Token.block? tokens).getD .ifBlock) (owner follows tokens e).1).takesElse := by
  have hr := ownerReader_owner tokens
  change (fun chain => owner chain tokens) chain s = _ at hs
  change _ = (ownerOr _ ((fun chain => owner chain tokens) follows e).1).takesElse
  generalize (fun chain => owner chain tokens) = step, (Token.block? tokens).getD .ifBlock = kind
    at hs hr ⊢
  cases hr with
  | branch tokens modifiers =>
    dsimp only at hs ⊢
    rw [← elseOwner_congr hc]
    obtain ⟨hn, next, hnext, ⟨hk, rfl, rfl⟩ | ⟨hk, head, -, rfl⟩⟩ := elseOwner_ok hs
    · -- A plain `else` is read in one way, whatever the session.
      have he : elseOwner chain tokens modifiers e = (.ok (some .otherwise), e) := by
        simp [elseOwner, and_assoc] at hs ⊢
        exact hs
      rw [he]
    · have yields (s : Session) (found : Option Owner) (t : Session)
          (h : elseOwner chain tokens modifiers s = (.ok found, t)) :
          ∀ owner ∈ found, owner.takesElse = decide (ScopeKind.ifBlock = .ifBlock) := by
        obtain ⟨-, other, ho, ⟨hother, -⟩ | ⟨-, head, -, rfl⟩⟩ := elseOwner_ok h
        · rw [hnext] at ho
          cases ho
          rw [hk] at hother
          cases hother
        · intro owner ho
          obtain ⟨head, -, rfl⟩ := Option.map_eq_some_iff.1 ho
          rfl
      rw [takesElse_ownerOr fun found hf => yields s found s' (hf ▸ hs),
        takesElse_ownerOr fun found hf => yields e found _ (Prod.ext hf rfl)]
  | @statement kind step hr =>
    have yields (s : Session) (found : Option Owner) (t : Session)
        (h : (Option.map Owner.statement <$> step) s = (.ok found, t)) :
        ∀ owner ∈ found, owner.takesElse = decide (kind = .ifBlock) := by
      obtain ⟨read, hread, rfl⟩ := Fallible.map_eq_ok.1 h
      intro owner ho
      obtain ⟨stmt, hm, rfl⟩ := Option.map_eq_some_iff.1 ho
      have hk := yields_head hr s read t hread stmt hm
      have hi := stmt.isIf_iff
      rw [hk, Option.some.injEq] at hi
      rw [Owner.takesElse, Bool.eq_iff_iff, hi, decide_eq_true_iff]
    rw [takesElse_ownerOr fun found hf => yields s found s' (hf ▸ hs),
      takesElse_ownerOr fun found hf => yields e found _ (Prod.ext hf rfl)]
  | fails hf => exact absurd hs (hf _ _ _)

end Step

namespace Reading

/-- Whether an `else` may follow at the top level, and then inside and after every open block. -/
def branching (reading : Reading) : Bool × List (Bool × Bool) :=
  (reading.program.takesElse, reading.blocks.map fun block => (block.1.takesElse, block.2.takesElse))

variable {first second : Reading}

theorem takesElse_body (h : first.branching = second.branching) :
    first.body.takesElse = second.body.takesElse := by
  rcases first with ⟨_, program, _ | ⟨⟨owner, inner⟩, blocks⟩, _⟩ <;>
    rcases second with ⟨_, program', _ | ⟨⟨owner', inner'⟩, blocks'⟩, _⟩ <;>
    simp_all [branching, body]

theorem branching_changeBody {change other : Body → Body} (h : first.branching = second.branching)
    (hc : (change first.body).takesElse = (other second.body).takesElse) :
    (first.changeBody change).branching = (second.changeBody other).branching := by
  rcases first with ⟨_, program, _ | ⟨⟨owner, body⟩, blocks⟩, _⟩ <;>
    rcases second with ⟨_, program', _ | ⟨⟨owner', body'⟩, blocks'⟩, _⟩ <;>
    simp_all [branching, Reading.body, changeBody]

end Reading

/-! ## Both passes at a point -/

/-- The session once a step has reported its error, if it has one. -/
def Session.after {α : Type} : Except Error α × Session → Session
  | (.ok _, session) => session
  | (.error error, session) => session.report error

/-- The second pass beside the first one, at corresponding points: it has changed nothing about the
modules and functions that are registered, and has reported nothing that concerns placement. -/
structure Beside (known : SymbolTable) (s e : Session) : Prop where
  alike : s.Alike e
  table_eq : e.table.withoutGlobals = known.withoutGlobals
  elsewhere : ∀ error ∈ e.log.errors, error.Elsewhere

namespace Beside

variable {known : SymbolTable} {s e s' e' : Session}

theorem report (h : Beside known s e) {error : Error} (he : error.Elsewhere) :
    Beside known s (e.report error) := by
  have ha := h.alike
  exact ⟨⟨ha.skimming, ha.evaluating, ha.settings_eq, ha.bare_eq, ha.stdlib_eq⟩, h.table_eq,
    Log.forall_mem_report h.elsewhere he⟩

/-- What stays beside the first pass while a statement is read does so after its error. -/
theorem after {α : Type} {ran : Except Error α × Session} (h : Beside known s e)
    (hs : Step.Stays e s' ran) : Beside known s' (Session.after ran) := by
  have hran : Beside known s' ran.2 := by
    refine ⟨hs.alike, hs.table_eq.trans h.table_eq, fun error he => h.elsewhere error ?_⟩
    rwa [hs.log_eq] at he
  rcases ran with ⟨error | a, later⟩
  · exact hran.report (hs.elsewhere error rfl)
  · exact hran

end Beside

namespace Reading

variable {first second : Reading} {known : SymbolTable}

theorem run_eq {α : Type} (reading : Reading) (step : Step (Option α)) :
    reading.run step = ((step reading.session).1.toOption.bind id,
      { reading with session := Session.after (step reading.session) }) := by
  unfold run
  rcases step reading.session with ⟨error | result, session⟩ <;> rfl

/-- Both passes at corresponding points of the text. -/
structure Abreast (known : SymbolTable) (first second : Reading) : Prop where
  current_eq : first.current = second.current
  branching_eq : first.branching = second.branching
  beside : Beside known first.session second.session

/-- What the first pass knows of after some tokens is known before the second one. -/
def Known (known : SymbolTable) (reading : Reading) : Prop :=
  ∀ p, reading.session.table.contains p → known.contains p

variable {tokens : List Token} {token : Token}

theorem Abreast.knows (h : Abreast known first second) {later : SymbolTable}
    (hk : ∀ p, later.contains p → known.contains p) :
    ∀ p, later.contains p → second.session.table.contains p := by
  intro p hp
  rw [← SymbolTable.contains_withoutGlobals, h.beside.table_eq, SymbolTable.contains_withoutGlobals]
  exact hk p hp

theorem abreast_endStatement (h : Abreast known first second)
    (hc : (first.endStatement tokens).session.log.Clean)
    (hk : Known known (first.endStatement tokens)) :
    Abreast known (first.endStatement tokens) (second.endStatement tokens) := by
  obtain ⟨result, s, hs, hfirst⟩ := endStatement_of_clean hc
  rw [hfirst, session_changeBody] at hc
  rw [hfirst, Known, session_changeBody] at hk
  have hstays := Step.tracks_closed tokens _ _ _ _ h.beside.alike (h.knows hk) hc hs
  rw [hfirst, endStatement_eq, run_eq]
  exact ⟨by simpa using h.current_eq, branching_changeBody h.branching_eq rfl,
    by simpa using h.beside.after hstays⟩

theorem openBlock_eq (reading : Reading) (tokens : List Token) :
    let ran := Step.owner reading.body.chain tokens reading.session
    let kind := (Token.block? tokens).getD .ifBlock
    reading.openBlock tokens = { reading with
      session := Session.after (ran.1, ran.2.inside reading.session.scopes kind)
      blocks := (Step.ownerOr kind ran.1, {}) :: reading.blocks } := by
  dsimp only
  unfold openBlock
  rw [run_eq]
  rcases Step.owner reading.body.chain tokens reading.session with ⟨error | result, session⟩ <;> rfl

theorem abreast_openBlock (h : Abreast known first second)
    (hc : (first.openBlock tokens).session.log.Clean)
    (hk : Known known (first.openBlock tokens)) :
    Abreast known (first.openBlock tokens) (second.openBlock tokens) := by
  obtain ⟨skimmed, s, hs, hfirst⟩ := openBlock_of_clean hc
  rw [hfirst] at hc hk
  have hclean : s.log.Clean := hc
  have hknown : ∀ p, s.table.contains p → known.contains p := hk
  have hchain := Body.chain_congr (takesElse_body h.branching_eq)
  have hstays := Step.tracksInside_owner first.body.chain tokens _ _ _ _ h.beside.alike
    (h.knows hknown) hclean hs
  have htakes := Step.takesElse_owner (e := second.session) hchain hs
  rw [Step.owner_congr hchain] at hstays
  rw [hfirst, openBlock_eq]
  refine ⟨h.current_eq, ?_, h.beside.after hstays⟩
  have hb := h.branching_eq
  simp only [branching, List.map_cons, Prod.mk.injEq] at hb ⊢
  exact ⟨hb.1, congrArg₂ List.cons (congrArg (·, false) htakes) hb.2⟩

theorem abreast_closeBlock (h : Abreast known first second)
    (hc : (first.closeBlock token).session.log.Clean) :
    Abreast known (first.closeBlock token) (second.closeBlock token) := by
  obtain ⟨owner, body, blocks, scopes, hblocks, hpop, hfirst⟩ := closeBlock_of_clean hc
  have ha := h.beside.alike
  have hb := h.branching_eq
  simp only [branching, hblocks, List.map_cons, Prod.mk.injEq] at hb
  obtain ⟨hprogram, hb⟩ := hb
  -- The second pass has a block to close too, and finds a scope of the same shape around it.
  obtain ⟨around, hpop', hbare⟩ : ∃ around, second.session.scopes.popBlock? = some around ∧
      around.bare = scopes.bare := by
    rw [← Option.map_eq_some_iff, ScopeStack.bare_popBlock?, ← ha.bare_eq,
      ← ScopeStack.bare_popBlock?, hpop]
    rfl
  cases hblocks' : second.blocks with
  | nil =>
    rw [hblocks'] at hb
    cases hb
  | cons block rest =>
    rw [hblocks', List.map_cons, List.cons.injEq, Prod.mk.injEq] at hb
    have hsecond : second.closeBlock token = { second with
        session := { second.session with scopes := around }, blocks := rest }.changeBody
          (·.close block.1 block.2.statements) := by
      simp only [closeBlock, hblocks', hpop']
      rfl
    rw [hfirst, hsecond]
    refine ⟨?_, branching_changeBody (Prod.ext hprogram hb.2) ?_, ?_⟩
    · simpa using h.current_eq
    · simpa using hb.1.1
    · rw [session_changeBody, session_changeBody]
      exact ⟨ha.enter hbare.symm, h.beside.table_eq, h.beside.elsewhere⟩

theorem abreast_step (h : Abreast known first second)
    (hc : (first.step token).session.log.Clean) (hk : Known known (first.step token)) :
    Abreast known (first.step token) (second.step token) := by
  have hstart : Abreast known { first with current := [] } { second with current := [] } :=
    ⟨rfl, h.branching_eq, h.beside⟩
  by_cases hbrace : token.kind = .closeCurly
  · obtain ⟨hcurrent, hfirst⟩ := step_closeCurly_of_clean hbrace hc
    have hsecond : second.step token = second.closeBlock token := by
      simp [step, hbrace, ← h.current_eq, hcurrent]
    rw [hfirst] at hc ⊢
    rw [hsecond]
    exact abreast_closeBlock h hc
  · unfold step at hc hk ⊢
    split
    next hs =>
      simp only [hs, h.current_eq] at hc hk ⊢
      exact abreast_endStatement hstart hc hk
    next hs =>
      simp only [hs, h.current_eq] at hc hk ⊢
      exact abreast_openBlock hstart hc hk
    next hs => exact absurd hs hbrace
    next => exact ⟨congrArg (· ++ [token]) h.current_eq, h.branching_eq, h.beside⟩

/-! ## Both passes over a program -/

/-- However far the second pass goes, the first one gets there too, and is beside it. -/
theorem Abreast.exists_passes {later : Reading} {read rest : List Token}
    (h : Abreast known first second) (hp : second.Passes read later)
    (hc : (first.steps (read ++ rest)).session.log.Clean)
    (hk : Known known (first.steps (read ++ rest))) :
    ∃ skimmed, first.Passes read skimmed ∧ Abreast known skimmed later := by
  induction hp generalizing rest with
  | start => exact ⟨first, .start, h⟩
  | @token read later token _ _ hkind ih =>
    rw [List.append_assoc] at hc hk
    obtain ⟨skimmed, hs, ha⟩ := ih hc hk
    rw [hs.steps_append, List.singleton_append] at hc hk
    have hopen := ((extends_steps skimmed _).clean hc).isClosed_eq
    have hsteps : skimmed.steps (token :: rest) = (skimmed.step token).steps rest := by
      rw [steps, if_neg]
      simp [hopen, hkind]
    rw [hsteps] at hc hk
    have hknown : Known known (skimmed.step token) := fun p hp =>
      hk p ((grows_steps _ rest).contains p hp)
    exact ⟨_, .token hs hopen hkind, abreast_step ha ((extends_steps _ rest).clean hc) hknown⟩

/-- A pass whose log is closed reads nothing. -/
theorem Passes.eq_of_isClosed {reading later : Reading} {read : List Token}
    (h : reading.Passes read later) (hc : reading.session.log.isClosed) :
    read = [] ∧ later = reading := by
  induction h with
  | start => exact ⟨rfl, rfl⟩
  | token _ ho _ ih =>
    rw [ih.2, hc] at ho
    cases ho

theorem abreast_start {settings : Settings} {skimmed : Session}
    (hs : skimmed.settings = settings) (he : skimmed.log.errors = []) :
    Abreast skimmed.table (.start (.initial settings) .skim) (.start skimmed .evaluate) := by
  refine ⟨rfl, rfl, ⟨rfl, rfl, hs.symm, rfl, congrArg Settings.stdlib hs.symm⟩, rfl, ?_⟩
  intro error hm
  change error ∈ skimmed.log.errors at hm
  rw [he] at hm
  cases hm

/-- What is reported at the end of the input concerns no placement. -/
theorem Abreast.finish (h : Abreast known first second) (tokens : List Token) :
    Beside known first.session (second.finish tokens).session := by
  have hu : Beside known first.session second.reportUnfinished.session := by
    unfold reportUnfinished
    split
    · exact h.beside.report rfl
    · exact h.beside
  unfold Reading.finish reportUnclosed
  split
  · exact hu.report rfl
  · exact hu

end Reading

/-- The kind and the module of every scope, innermost first. -/
def ScopeStack.places (scopes : ScopeStack) : List (ScopeKind × ModulePath) :=
  (scopes.nested ++ [scopes.outermost]).map fun scope => (scope.kind, scope.module)

theorem ScopeStack.places_bare (scopes : ScopeStack) : scopes.bare.places = scopes.places := by
  simp [places, bare, Scope.bare, Function.comp_def]

namespace Session

variable {settings : Settings} {tokens : List Token}

/-- Where the first pass has found nothing wrong, the second one is beside it at every point. -/
theorem exists_abreast (h : (skim settings tokens).log.errors = []) {read : List Token}
    {later : Reading} (hr : read <+: tokens)
    (hp : (Reading.start (skim settings tokens) .evaluate).Passes read later) :
    ∃ first, (Reading.start (.initial settings) .skim).Passes read first ∧
      Reading.Abreast (skim settings tokens).table first later := by
  by_cases hb : settings.maxErrors = some 0
  · rw [skim_of_no_budget hb] at hp ⊢
    have hc : (Reading.start (.initial settings) .evaluate).session.log.isClosed := by
      simp [Reading.start, initial, Log.empty, Log.isClosed, Log.isExhausted, hb]
    obtain ⟨rfl, rfl⟩ := hp.eq_of_isClosed hc
    exact ⟨_, .start, Reading.abreast_start rfl rfl⟩
  · have hclean : (skim settings tokens).log.Clean :=
      Log.clean_of_errors h (limit_skim settings tokens ▸ hb)
    obtain ⟨hfirst, -, hsettled, hsettings⟩ := skimmed_of_clean hclean
    obtain ⟨rest, rfl⟩ := hr
    exact (Reading.abreast_start hsettings h).exists_passes hp hfirst hsettled.contains

end Session

/-- If the first pass and the rounds after it report nothing, the second pass goes over the program
beside the first one, whatever errors it finds itself. At every token it stands in scopes of the same
kinds and modules, and is in standard-library mode just where the first pass is. It registers neither
a module nor a function, and reports nothing that concerns placement. -/
theorem evaluate_beside_skim {settings : Settings} {tokens : List Token}
    (h : (Session.skim settings tokens).log.errors = []) :
    let skimmed := Session.skim settings tokens
    let evaluated := (skimmed.readPass .evaluate tokens).1
    (∀ read later, read <+: tokens → (Reading.start skimmed .evaluate).Passes read later →
      later.session.table.withoutGlobals = skimmed.table.withoutGlobals ∧
      ∃ first, (Reading.start (.initial settings) .skim).Passes read first ∧
        later.session.scopes.places = first.session.scopes.places ∧
        later.session.stdlib = first.session.stdlib) ∧
    evaluated.table.withoutGlobals = skimmed.table.withoutGlobals ∧
    ∀ error ∈ evaluated.log.errors, error.cause.concernsPlacement = false := by
  dsimp only
  obtain ⟨read, rest, hr, hp, -⟩ :=
    Reading.exists_passes_steps (.start (Session.skim settings tokens) .evaluate) tokens
  obtain ⟨first, -, ha⟩ := Session.exists_abreast h ⟨rest, hr.symm⟩ hp
  have hfinish := ha.finish tokens
  refine ⟨fun read later hr hp => ?_, hfinish.table_eq, hfinish.elsewhere⟩
  obtain ⟨first, hf, ha⟩ := Session.exists_abreast h hr hp
  have hbare := ha.beside.alike.bare_eq
  refine ⟨ha.beside.table_eq, first, hf, ?_, ha.beside.alike.stdlib_eq.symm⟩
  rw [← ScopeStack.places_bare, ← hbare, ScopeStack.places_bare]

/-- The words of `module m { fn f { for int i = true, i -> 3 { while 1 { } } } }`. -/
def faultyLoop : List Token :=
  [.synthetic (.keyword .moduleWord) "module", .synthetic .identifier "m",
    .synthetic .openCurly "\x7b", .synthetic (.keyword .fnWord) "fn", .synthetic .identifier "f",
    .synthetic .openCurly "\x7b", .synthetic (.keyword .forWord) "for",
    .synthetic (.typeName .int) "int", .synthetic .identifier "i",
    .synthetic (.assign .plain) "=", .synthetic (.literal .bool) "true", .synthetic .comma ",",
    .synthetic .identifier "i", .synthetic .arrow "->", .synthetic (.literal .integer) "3",
    .synthetic .openCurly "\x7b", .synthetic (.keyword .whileWord) "while",
    .synthetic (.literal .integer) "1", .synthetic .openCurly "\x7b",
    .synthetic .closeCurly "\x7d", .synthetic .closeCurly "\x7d", .synthetic .closeCurly "\x7d",
    .synthetic .closeCurly "\x7d"]

/-- The second pass fails in the head of the loop, before it has entered the scope of its block, and
once more inside it. -/
theorem evaluate_beside_skim_of_faulty_loop :
    let skimmed := Session.skim {} faultyLoop
    let evaluated := (skimmed.readPass .evaluate faultyLoop).1
    skimmed.log.errors = [] ∧
    evaluated.log.errors = [⟨.typeMismatch "int" "bool", .nowhere, []⟩,
      ⟨.conditionNotBoolean "while" "int", .nowhere, []⟩] ∧
    (∀ read later, read <+: faultyLoop → (Reading.start skimmed .evaluate).Passes read later →
      later.session.table.withoutGlobals = skimmed.table.withoutGlobals ∧
      ∃ first, (Reading.start (.initial {}) .skim).Passes read first ∧
        later.session.scopes.places = first.session.scopes.places ∧
        later.session.stdlib = first.session.stdlib) ∧
    evaluated.table.withoutGlobals = skimmed.table.withoutGlobals ∧
    ∀ error ∈ evaluated.log.errors, error.cause.concernsPlacement = false := by
  have h : (Session.skim {} faultyLoop).log.errors = [] := by with_unfolding_all rfl
  refine ⟨h, ?_, evaluate_beside_skim h⟩
  with_unfolding_all rfl

end MuLang
