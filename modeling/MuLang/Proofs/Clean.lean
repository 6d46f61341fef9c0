import MuLang.Proofs.Budget.Reading
import MuLang.Proofs.Lockstep

/-!
# Readings without a report

A reading that has reported nothing in the end has not done so on the way. Every step that it ran
has succeeded, every brace that closed a block has found one, and nothing was left open.
-/
namespace MuLang

/-- As many scopes as there are stay. -/
theorem ScopeStack.truncate_of_size {scopes : ScopeStack} {size : Nat} (h : scopes.size = size) :
    scopes.truncate size = scopes := by
  subst h
  simp [truncate, ScopeStack.size]

namespace Reading

variable {reading : Reading} {tokens : List Token} {token : Token}

/-! ## Steps that have succeeded -/

theorem run_of_clean {α : Type} {step : Step (Option α)}
    (h : (reading.run step).2.session.log.Clean) :
    ∃ result session, step reading.session = (.ok result, session) ∧
      reading.run step = (result, { reading with session }) := by
  unfold run at h ⊢
  rcases hs : step reading.session with ⟨error | result, session⟩
  · rw [hs] at h
    exact absurd h (session.log.not_clean_report error)
  · exact ⟨result, session, rfl, rfl⟩

/-- A statement without a block has entered no scope that would end with it. -/
theorem endStatement_eq (reading : Reading) (tokens : List Token) :
    reading.endStatement tokens =
      (reading.run (Step.closed tokens)).2.changeBody
        (·.add (reading.run (Step.closed tokens)).1) := by
  have hf := run_frame (Step.commits_closed tokens) reading
  have hb : (reading.run (Step.closed tokens)).2.session.scopes.bare =
      reading.session.scopes.bare := (congrArg Frame.scopes hf).symm
  have hsize : (reading.run (Step.closed tokens)).2.session.scopes.size =
      reading.session.scopes.size := by
    rw [← ScopeStack.size_bare, hb, ScopeStack.size_bare]
  simp only [endStatement, changeScopes, ScopeStack.truncate_of_size hsize]

theorem endStatement_of_clean (h : (reading.endStatement tokens).session.log.Clean) :
    ∃ result session, Step.closed tokens reading.session = (.ok result, session) ∧
      reading.endStatement tokens = { reading with session }.changeBody (·.add result) := by
  rw [endStatement_eq, session_changeBody] at h
  obtain ⟨result, session, hs, hr⟩ := run_of_clean h
  refine ⟨result, session, hs, ?_⟩
  rw [endStatement_eq, hr]

theorem openBlock_of_clean (h : (reading.openBlock tokens).session.log.Clean) :
    ∃ owner session, Step.owner reading.body.chain tokens reading.session = (.ok owner, session) ∧
      reading.openBlock tokens = { reading with
        session := session.inside reading.session.scopes ((Token.block? tokens).getD .ifBlock)
        blocks := (owner.getD (.failed ((Token.block? tokens).getD .ifBlock)), {}) ::
          reading.blocks } := by
  obtain ⟨owner, session, hs, hr⟩ :=
    run_of_clean (h : (reading.run (Step.owner reading.body.chain tokens)).2.session.log.Clean)
  refine ⟨owner, session, hs, ?_⟩
  simp only [openBlock, hr]
  rfl

theorem closeBlock_of_clean (h : (reading.closeBlock token).session.log.Clean) :
    ∃ owner body blocks scopes, reading.blocks = (owner, body) :: blocks ∧
      reading.session.scopes.popBlock? = some scopes ∧
      reading.closeBlock token = { reading with
        session := { reading.session with scopes }, blocks }.changeBody
          (·.close owner body.statements) := by
  rcases reading with ⟨session, program, _ | ⟨⟨owner, body⟩, blocks⟩, current⟩
  · exact absurd h (session.log.not_clean_report _)
  · unfold closeBlock at h ⊢
    dsimp only at h ⊢
    cases hp : session.scopes.popBlock? with
    | none =>
      rw [hp] at h
      exact absurd h (session.log.not_clean_report _)
    | some scopes => exact ⟨owner, body, blocks, scopes, rfl, rfl, rfl⟩

theorem step_closeCurly_of_clean (hk : token.kind = .closeCurly)
    (h : (reading.step token).session.log.Clean) :
    reading.current = [] ∧ reading.step token = reading.closeBlock token := by
  unfold step at h ⊢
  simp only [hk] at h ⊢
  split at h
  next hc => exact ⟨List.isEmpty_iff.1 hc, if_pos hc⟩
  next =>
    exact absurd ((extends_closeBlock _ token).clean h) (reading.session.log.not_clean_report _)

theorem finish_of_clean (h : (reading.finish tokens).session.log.Clean) :
    reading.finish tokens = reading ∧ reading.blocks = [] ∧ reading.current = [] := by
  have hu : reading.reportUnfinished = reading ∧ reading.current = [] := by
    have hc : reading.reportUnfinished.session.log.Clean := by
      unfold finish reportUnclosed at h
      split at h
      · exact absurd h (Log.not_clean_report _ _)
      · exact h
    unfold reportUnfinished at hc ⊢
    split at hc
    · exact absurd hc (Log.not_clean_report _ _)
    next hn => exact ⟨rfl, List.getLast?_eq_none_iff.1 hn⟩
  unfold finish at h ⊢
  rw [hu.1] at h ⊢
  unfold reportUnclosed at h ⊢
  split at h
  · exact absurd h (Log.not_clean_report _ _)
  next hb =>
    have hi : reading.session.log.hasInternal = false := by
      rw [Log.hasInternal, h.errors_eq]
      rfl
    exact ⟨if_neg hb, by simpa [hi] using hb, hu.2⟩

/-! ## What has been declared stays -/

theorem grows_run {α : Type} {R : Frame → Frame → Prop} {step : Step (Option α)}
    (h : step.Commits R) (reading : Reading) :
    reading.session.Grows (reading.run step).2.session := by
  have hg := h.grows reading.session
  unfold run
  rcases hs : step reading.session with ⟨error | result, session⟩
  · rw [hs] at hg
    exact hg.trans (.of_report session error)
  · rwa [hs] at hg

theorem grows_report (reading : Reading) (error : Error) :
    reading.session.Grows (reading.report error).session :=
  .of_report reading.session error

theorem grows_closeBlock (reading : Reading) (brace : Token) :
    reading.session.Grows (reading.closeBlock brace).session := by
  unfold closeBlock
  split
  · exact grows_report reading _
  · dsimp only
    split
    · exact grows_report { reading with blocks := _ } _
    · rw [session_changeBody]
      exact .of_scopes _ _

theorem grows_step (reading : Reading) (token : Token) :
    reading.session.Grows (reading.step token).session := by
  unfold step
  split
  · unfold endStatement
    rw [session_changeBody]
    exact (grows_run (Step.commits_closed _) { reading with current := [] }).trans (.of_scopes _ _)
  · exact (grows_run (Step.commits_owner _ _) { reading with current := [] }).trans (.of_scopes _ _)
  · split
    · exact grows_closeBlock reading token
    · exact (grows_report { reading with current := [] } _).trans (grows_closeBlock _ token)
  · exact .refl _

theorem grows_steps (reading : Reading) (tokens : List Token) :
    reading.session.Grows (reading.steps tokens).session := by
  induction tokens generalizing reading with
  | nil => exact .refl _
  | cons token rest ih =>
    unfold steps
    split
    · exact .refl _
    · exact (grows_step reading token).trans (ih _)

end Reading

end MuLang
