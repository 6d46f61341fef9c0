import MuLang.Proofs.Budget
import MuLang.Proofs.Clean
import MuLang.Proofs.Ordinary

/-!
# The points of a pass

A pass goes over the tokens one by one, until the end of the file or until its log is closed. What
holds before the first token, and is kept by every token that is read, holds at all points of the
pass and where it ends.
-/
namespace MuLang

theorem Step.Opens.pass_eq {kind? : Option ScopeKind} {before after : Frame}
    (h : Opens kind? before after) : after.pass = before.pass := by
  cases h with
  | nothing => rfl
  | block _ he => cases he <;> rfl
  | loop _ he => cases he <;> rfl

namespace Reading

/-- From one point of a pass some tokens lead to another one. -/
inductive Passes (reading : Reading) : List Token → Reading → Prop
  | start : Passes reading [] reading
  | token {read : List Token} {later : Reading} {token : Token} : Passes reading read later →
      later.session.log.isClosed = false → token.kind ≠ .endOfFile →
      Passes reading (read ++ [token]) (later.step token)

namespace Passes

variable {reading later last : Reading} {read more : List Token}

theorem trans (h : reading.Passes read later) (hl : later.Passes more last) :
    reading.Passes (read ++ more) last := by
  induction hl with
  | start => rwa [List.append_nil]
  | token _ hc hk ih =>
    rw [← List.append_assoc]
    exact .token ih hc hk

theorem single {token : Token} (hc : reading.session.log.isClosed = false)
    (hk : token.kind ≠ .endOfFile) : reading.Passes [token] (reading.step token) :=
  .token .start hc hk

/-- No token of a pass is the end of the file. -/
theorem no_end (h : reading.Passes read later) : ∀ token ∈ read, token.kind ≠ .endOfFile := by
  induction h with
  | start => simp
  | token _ _ hk ih => exact List.forall_mem_append.2 ⟨ih, by simpa using hk⟩

/-- A pass over more tokens goes on from where it is. -/
theorem steps_append (h : reading.Passes read later) (rest : List Token) :
    reading.steps (read ++ rest) = later.steps rest := by
  induction h generalizing rest with
  | start => rfl
  | @token read later token _ hc hk ih =>
    have hs : later.steps (token :: rest) = (later.step token).steps rest := by
      rw [steps, if_neg]
      simp [hc, hk]
    rw [List.append_assoc, List.singleton_append, ih, hs]

/-- Tokens lead to one point. -/
theorem unique (h : reading.Passes read later) (hl : reading.Passes read last) : later = last :=
  (h.steps_append []).symm.trans (hl.steps_append [])

end Passes

variable {reading later : Reading} {read tokens : List Token}

/-- A pass over some tokens reads the first of them, and stops at the end, at the end of the file or
because its log is closed. -/
theorem exists_passes_steps (reading : Reading) (tokens : List Token) :
    ∃ read rest, tokens = read ++ rest ∧ reading.Passes read (reading.steps tokens) ∧
      ∀ next ∈ rest.head?, (reading.steps tokens).session.log.isClosed ∨ next.kind = .endOfFile := by
  induction tokens generalizing reading with
  | nil => exact ⟨[], [], rfl, .start, by simp⟩
  | cons token rest ih =>
    by_cases hc : reading.session.log.isClosed || token.kind = .endOfFile
    · have hs : reading.steps (token :: rest) = reading := by
        rw [steps, if_pos hc]
      refine ⟨[], token :: rest, rfl, ?_, ?_⟩
      · rw [hs]
        exact .start
      · rw [hs]
        simpa using hc
    · have hs : reading.steps (token :: rest) = (reading.step token).steps rest := by
        rw [steps, if_neg hc]
      simp only [Bool.or_eq_true, decide_eq_true_eq, not_or, Bool.not_eq_true] at hc
      obtain ⟨read, more, hr, hp, hn⟩ := ih (reading.step token)
      refine ⟨token :: read, more, by rw [hr]; rfl, ?_, ?_⟩
      · rw [hs]
        exact (Passes.single hc.1 hc.2).trans hp
      · rw [hs]
        exact hn

/-- A pass whose log is open where it ends has read on up to the end of the file. -/
theorem passes_steps_of_open (hc : (reading.steps tokens).session.log.isClosed = false) :
    reading.Passes (tokens.takeWhile (·.kind ≠ .endOfFile)) (reading.steps tokens) := by
  obtain ⟨read, rest, rfl, hp, hn⟩ := exists_passes_steps reading tokens
  have hr : rest.takeWhile (fun token => decide (token.kind ≠ .endOfFile)) = [] := by
    cases rest with
    | nil => rfl
    | cons next rest =>
      obtain hx | hx := hn next rfl
      · rw [hc] at hx
        cases hx
      · simp [hx]
  rw [List.takeWhile_append_of_pos (by simpa using hp.no_end), hr, List.append_nil]
  exact hp

/-- As long as the file does not end, a pass over more tokens goes on from where it is, or has ended
there. -/
theorem steps_append {more : List Token} (hk : ∀ token ∈ tokens, token.kind ≠ .endOfFile) :
    reading.steps (tokens ++ more) = (reading.steps tokens).steps more := by
  obtain ⟨read, rest, rfl, hp, hn⟩ := exists_passes_steps reading tokens
  rw [List.append_assoc, hp.steps_append]
  cases rest with
  | nil => rfl
  | cons next rest =>
    have hc := (hn next rfl).resolve_right (hk next (by simp))
    have stays (tokens : List Token) :
        (reading.steps (read ++ next :: rest)).steps tokens =
          reading.steps (read ++ next :: rest) := by
      cases tokens <;> simp [steps, hc]
    rw [stays, stays]

/-- A pass whose log is open has read all that stands before the end of the file. -/
theorem passes_steps_of_ongoing (hc : (reading.steps tokens).session.log.isClosed = false)
    (hk : ∀ token ∈ tokens, token.kind ≠ .endOfFile) :
    reading.Passes tokens (reading.steps tokens) := by
  obtain ⟨read, rest, rfl, hp, hn⟩ := exists_passes_steps reading tokens
  cases rest with
  | nil => rwa [List.append_nil] at hp ⊢
  | cons next rest =>
    obtain hx | hx := hn next rfl
    · rw [hc] at hx
      cases hx
    · exact absurd hx (hk next (by simp))

/-- What every token keeps holds at all points of a pass. -/
theorem Passes.preserves {holds : Reading → Prop} (h : reading.Passes read later)
    (hs : ∀ (reading : Reading) (token : Token), holds reading → token.kind ≠ .endOfFile →
      holds (reading.step token)) (hstart : holds reading) : holds later := by
  induction h with
  | start => exact hstart
  | token _ _ hk ih => exact hs _ _ ih hk

theorem Passes.balanced (h : reading.Passes read later) (hb : reading.Balanced) :
    later.Balanced :=
  h.preserves (fun reading token hb _ => balanced_step reading hb token) hb

theorem Passes.extends_log (h : reading.Passes read later) :
    reading.session.log.Extends later.session.log := by
  induction h with
  | start => exact .refl _
  | token _ _ _ ih => exact ih.trans (extends_step _ _)

/-! ## Which pass it is -/

theorem isSkimming_run {α : Type} {R : Frame → Frame → Prop} {step : Step (Option α)}
    (hc : step.Commits R) (hR : ∀ before after, R before after → after.pass = before.pass)
    (reading : Reading) :
    (reading.run step).2.session.isSkimming = reading.session.isSkimming := by
  have hp := hR _ _ (run_frame hc reading)
  have hpass : (reading.run step).2.session.pass = reading.session.pass := hp
  rw [Session.isSkimming, hpass, Session.isSkimming]

theorem isSkimming_closeBlock (reading : Reading) (brace : Token) :
    (reading.closeBlock brace).session.isSkimming = reading.session.isSkimming := by
  unfold closeBlock
  split
  · rfl
  · dsimp only
    split
    · rfl
    · rw [session_changeBody]
      rfl

theorem isSkimming_step (reading : Reading) (token : Token) :
    (reading.step token).session.isSkimming = reading.session.isSkimming := by
  unfold step
  split
  · rw [endStatement_eq, session_changeBody]
    exact isSkimming_run (Step.commits_closed _) (fun _ _ he => by rw [he])
      { reading with current := [] }
  · exact isSkimming_run (Step.commits_owner _ _) (fun _ _ ho => ho.pass_eq)
      { reading with current := [] }
  · split
    · exact isSkimming_closeBlock reading token
    · exact isSkimming_closeBlock (report { reading with current := [] } _) token
  · rfl

/-- A pass stays the pass that it has started as. -/
theorem Passes.isSkimming_eq (h : reading.Passes read later) :
    later.session.isSkimming = reading.session.isSkimming :=
  h.preserves (fun reading token he _ => (isSkimming_step reading token).trans he) rfl

/-! ## What a statement reports -/

/-- What is reported while a step is run is of the sort of its errors. -/
theorem added_run {α : Type} {allowed : Error → Prop} {step : Step (Option α)}
    (h : step.Raises allowed) (reading : Reading) :
    ∃ more, (reading.run step).2.session.log.errors = reading.session.log.errors ++ more ∧
      ∀ error ∈ more, allowed error := by
  obtain ⟨result, session, hr⟩ : ∃ result session,
      Step.reporting step reading.session = (.ok result, session) ∧
        (reading.run step).2.session = session := by
    unfold Step.reporting run
    rcases step reading.session with ⟨error | result, session⟩
    · exact ⟨_, _, rfl, rfl⟩
    · exact ⟨_, _, rfl, rfl⟩
  have ha := (Step.raises_reporting h).added reading.session
  rwa [hr.1, ← hr.2] at ha

end Reading

/-! ## Parsing without a report -/

/-- Parsing reports nothing if neither of the passes does. -/
theorem parse_eq_ok {settings : Settings} {tokens : List Token} {program : List Stmt}
    (hb : settings.maxErrors ≠ some 0) : parse settings tokens = (some program, []) ↔
      (Session.skim settings tokens).log.Clean ∧
        ((Session.skim settings tokens).readPass .evaluate tokens).1.log.Clean ∧
        ((Session.skim settings tokens).readPass .evaluate tokens).2 = program := by
  have hskim := Session.limit_skim settings tokens
  have hread : ((Session.skim settings tokens).readPass .evaluate tokens).1.log.limit =
      (Session.skim settings tokens).log.limit :=
    ((Reading.extends_steps _ tokens).trans (Reading.extends_finish _ tokens)).limit_eq
  have hclean {log : Log} (hl : log.limit = settings.maxErrors) : log.Clean ↔ log.errors = [] :=
    ⟨fun h => h.errors_eq, fun h => Log.clean_of_errors h (hl ▸ hb)⟩
  rw [hclean hskim, hclean (hread.trans hskim)]
  unfold parse
  dsimp only
  split
  next he => simp [List.isEmpty_iff.1 he, and_comm]
  next he => simp [List.isEmpty_iff.not.1 he]

/-- Where parsing has reported nothing, the first pass has not either, and the second one has ended
with all blocks and statements finished. -/
theorem evaluated_of_parse {settings : Settings} {tokens : List Token} {program : List Stmt}
    (hb : settings.maxErrors ≠ some 0) (h : parse settings tokens = (some program, [])) :
    let second := (Reading.start (Session.skim settings tokens) .evaluate).steps tokens
    (Session.skim settings tokens).log.Clean ∧ second.session.log.Clean ∧ second.blocks = [] ∧
      second.current = [] ∧ second.program.statements = program := by
  intro second
  obtain ⟨hskim, hclean, rfl⟩ := (parse_eq_ok hb).1 h
  have hfinish : (second.finish tokens).session.log.Clean := hclean
  obtain ⟨hend, hblocks, hcurrent⟩ := Reading.finish_of_clean hfinish
  rw [hend] at hfinish
  refine ⟨hskim, hfinish, hblocks, hcurrent, ?_⟩
  exact congrArg (fun reading => reading.program.statements) hend.symm

/-- A program is accepted if neither its parse nor its definition reports anything. -/
theorem analyze_eq_ok {settings : Settings} {natives : Native.Bindings} {tokens : List Token}
    {analysis : Analysis} : analyze settings natives tokens = .ok analysis ↔
      parse settings tokens = (some analysis.program, []) ∧
        define settings natives analysis.program = .ok analysis.symbols := by
  rw [analyze]
  rcases parse settings tokens with ⟨program, errors⟩
  constructor
  · intro h
    dsimp only at h
    split at h
    · cases h
    · split at h
      · cases h
      · split at h
        next symbols hd =>
          split at h
          next he =>
            cases h
            obtain rfl := List.isEmpty_iff.1 he
            exact ⟨rfl, hd⟩
          next => cases h
        next => cases h
  · rintro ⟨hp, hd⟩
    obtain ⟨rfl, rfl⟩ := Prod.mk.inj hp
    simp [hd]

end MuLang
