import MuLang.Proofs.Nesting

/-!
# Reading under a budget

A reading with a budget goes through the same states as the reading without one, as long as there is
room in its log. When the budget is spent it stops, and what the other one reports after that would
only have come after what fits.
-/
namespace MuLang

namespace Reading

variable {reading limited : Reading} {budget : Nat}

/-- The reading as it is under a budget. -/
def within (budget : Nat) (reading : Reading) : Reading :=
  { reading with session := reading.session.within budget }

/-- The reading under a budget beside the one without: it has reported what fits, and is at the same
point as long as more would fit. -/
structure Follows (budget : Nat) (reading limited : Reading) : Prop where
  log_eq : limited.session.log = reading.session.log.within budget
  eq_within : reading.session.log.errors.length < budget → limited = reading.within budget

theorem follows_within (budget : Nat) (reading : Reading) :
    Follows budget reading (reading.within budget) := ⟨rfl, fun _ => rfl⟩

section Steps

variable {α : Type} {R : Frame → Frame → Prop} {step : Step (Option α)}

theorem extends_run (h : step.Commits R) (reading : Reading) :
    reading.session.log.Extends (reading.run step).2.session.log := by
  have he := h.extends_log reading.session
  unfold run
  rcases hs : step reading.session with ⟨error | result, session⟩
  · rw [hs] at he
    exact he.trans (session.log.extends_report error)
  · rwa [hs] at he

theorem run_of_ok {reading : Reading} {result : Option α} {session : Session}
    (h : step reading.session = (.ok result, session)) :
    reading.run step = (result, { reading with session }) := by
  rw [run, h]

theorem run_of_error {reading : Reading} {error : Error} {session : Session}
    (h : step reading.session = (.error error, session)) :
    reading.run step = (none, { reading with session := session.report error }) := by
  rw [run, h]

theorem run_within (reading : Reading) (h : step.Commits R) (hl : reading.session.log.limit = none)
    (hr : reading.session.log.errors.length < budget) :
    (reading.within budget).run step =
      ((reading.run step).1, (reading.run step).2.within budget) := by
  have hw := h.limited budget reading.session hl hr
  have he := h.extends_log reading.session
  have hi := h.internal reading.session
  rcases hs : step reading.session with ⟨error | result, session⟩ <;> rw [hs] at hw he hi
  · rw [run_of_error hs, run_of_error hw]
    have hroom : session.log.errors.length < budget ∨ ¬error.isInternal := by
      by_cases hn : error.isInternal
      · exact .inl ((hi error rfl hn).symm ▸ hr)
      · exact .inr hn
    rw [Session.report_within (he.limit_eq.trans hl) hroom]
    rfl
  · rw [run_of_ok hs, run_of_ok hw]
    rfl

end Steps

theorem extends_report (reading : Reading) (error : Error) :
    reading.session.log.Extends (reading.report error).session.log :=
  reading.session.log.extends_report error

theorem report_within (reading : Reading) {error : Error} (hl : reading.session.log.limit = none)
    (he : ¬error.isInternal) :
    (reading.within budget).report error = (reading.report error).within budget := by
  unfold report
  change { reading.within budget with
    session := (reading.session.within budget).report error } = _
  rw [Session.report_within hl (.inr he)]
  rfl

theorem changeBody_within (reading : Reading) (change : Body → Body) :
    (reading.within budget).changeBody change = (reading.changeBody change).within budget := by
  rcases reading with ⟨session, program, _ | ⟨block, blocks⟩, current⟩ <;> rfl

theorem endStatement_within (reading : Reading) (hl : reading.session.log.limit = none)
    (hr : reading.session.log.errors.length < budget) (tokens : List Token) :
    (reading.within budget).endStatement tokens = (reading.endStatement tokens).within budget := by
  have hw := run_within reading (Step.commits_closed tokens) hl hr
  unfold endStatement
  rw [hw]
  exact changeBody_within ((reading.run (Step.closed tokens)).2.changeScopes
    (·.truncate reading.session.scopes.size)) _

theorem openBlock_within (reading : Reading) (hl : reading.session.log.limit = none)
    (hr : reading.session.log.errors.length < budget) (tokens : List Token) :
    (reading.within budget).openBlock tokens = (reading.openBlock tokens).within budget := by
  have hw := run_within reading (Step.commits_owner reading.body.chain tokens) hl hr
  have hb : (reading.within budget).body = reading.body := rfl
  unfold openBlock
  rw [hb, hw]
  rfl

/-- A closing brace never finds the scopes out of step, so that its error is one of the program. -/
theorem closeBlock_within (reading : Reading) (hl : reading.session.log.limit = none) (hb : reading.Balanced)
    (brace : Token) :
    (reading.within budget).closeBlock brace = (reading.closeBlock brace).within budget := by
  rcases reading with ⟨session, program, _ | ⟨⟨owner, body⟩, blocks⟩, current⟩
  · exact report_within ⟨session, program, [], current⟩ hl Bool.false_ne_true
  · obtain ⟨rest, hp, -⟩ := Nested.popBlock hb
    have hw : (session.within budget).scopes.popBlock? = some rest := hp
    unfold closeBlock
    simp only [within]
    rw [hp, hw]
    exact changeBody_within ⟨{ session with scopes := rest }, program, blocks, current⟩ _

/-- With room in the log a token is read alike with a budget and without. -/
theorem step_within (reading : Reading) (hl : reading.session.log.limit = none)
    (hr : reading.session.log.errors.length < budget) (hb : reading.Balanced) (token : Token) :
    (reading.within budget).step token = (reading.step token).within budget := by
  unfold Reading.step
  split
  · exact endStatement_within { reading with current := [] } hl hr _
  · exact openBlock_within { reading with current := [] } hl hr _
  · have hc : (reading.within budget).current = reading.current := rfl
    rw [hc]
    split
    · exact closeBlock_within reading hl hb token
    · -- The unfinished statement may have spent the budget, and the brace may be an error as well.
      let error : Error := .atToken (.expectedToken "`;`" token.text) token
      let reported := Reading.report { reading with current := [] } error
      have hu : Reading.report (within budget { reading with current := [] }) error =
          reported.within budget :=
        report_within { reading with current := [] } hl Bool.false_ne_true
      have hx : reading.session.log.Extends reported.session.log :=
        extends_report { reading with current := [] } error
      change Reading.closeBlock (Reading.report (within budget { reading with current := [] }) error)
        token = _
      rw [hu]
      exact closeBlock_within reported (hx.limit_eq.trans hl) hb token
  · rfl

theorem extends_closeBlock (reading : Reading) (brace : Token) :
    reading.session.log.Extends (reading.closeBlock brace).session.log := by
  unfold closeBlock
  split
  · exact extends_report reading _
  · dsimp only
    split
    · exact extends_report { reading with blocks := _ } _
    · rw [session_changeBody]
      exact .refl _

theorem extends_step (reading : Reading) (token : Token) :
    reading.session.log.Extends (reading.step token).session.log := by
  unfold Reading.step
  split
  · unfold endStatement
    rw [session_changeBody]
    exact extends_run (Step.commits_closed _) { reading with current := [] }
  · exact extends_run (Step.commits_owner _ _) { reading with current := [] }
  · split
    · exact extends_closeBlock reading token
    · exact (extends_report { reading with current := [] } _).trans (extends_closeBlock _ token)
  · exact .refl _

theorem extends_steps (reading : Reading) (tokens : List Token) :
    reading.session.log.Extends (reading.steps tokens).session.log := by
  induction tokens generalizing reading with
  | nil => exact .refl _
  | cons token rest ih =>
    unfold steps
    split
    · exact .refl _
    · exact (extends_step reading token).trans (ih _)

theorem extends_reportUnfinished (reading : Reading) :
    reading.session.log.Extends reading.reportUnfinished.session.log := by
  unfold reportUnfinished
  split
  · exact extends_report reading _
  · exact .refl _

theorem extends_finish (reading : Reading) (tokens : List Token) :
    reading.session.log.Extends (reading.finish tokens).session.log := by
  refine (extends_reportUnfinished reading).trans ?_
  unfold finish reportUnclosed
  split
  · exact extends_report _ _
  · exact .refl _

/-- A reading that has spent its budget stays where it is, and what the other one still reports does
not show. -/
theorem Follows.later (h : Follows budget reading limited) {later : Reading}
    (hb : budget ≤ reading.session.log.errors.length)
    (he : reading.session.log.Extends later.session.log) : Follows budget later limited :=
  ⟨h.log_eq.trans (he.within_eq hb).symm, fun hr => by
    have := he.length_le
    omega⟩

theorem follows_steps (hl : reading.session.log.limit = none) (hb : reading.Balanced)
    (h : Follows budget reading limited) (tokens : List Token) :
    Follows budget (reading.steps tokens) (limited.steps tokens) := by
  induction tokens generalizing reading limited with
  | nil => exact h
  | cons token rest ih =>
    by_cases hr : reading.session.log.errors.length < budget
    · have hc : (reading.within budget).session.log.isClosed = reading.session.log.isClosed :=
        Log.isClosed_within hl hr
      rw [h.eq_within hr]
      unfold steps
      rw [hc]
      split
      · exact follows_within budget reading
      · rw [step_within reading hl hr hb]
        exact ih ((extends_step reading token).limit_eq.trans hl) (balanced_step reading hb token)
          (follows_within budget _)
    · have hs : limited.steps (token :: rest) = limited := by
        have hx : limited.session.log.isExhausted := by
          rw [h.log_eq]
          exact Log.isExhausted_within.2 (by omega)
        unfold steps
        rw [if_pos]
        simp [Log.isClosed, hx]
      rw [hs]
      exact h.later (by omega) (extends_steps reading _)

theorem report_of_isExhausted {error : Error} (h : reading.session.log.isExhausted)
    (he : ¬error.isInternal) : reading.report error = reading := by
  unfold report Session.report
  rw [Log.report_of_isExhausted h he]

/-- What is still open at the end is an error of the program. -/
theorem finish_of_isExhausted (h : reading.session.log.isExhausted) (tokens : List Token) :
    reading.finish tokens = reading := by
  have hu : reading.reportUnfinished = reading := by
    unfold reportUnfinished
    split
    · exact report_of_isExhausted h Bool.false_ne_true
    · rfl
  unfold finish reportUnclosed
  rw [hu]
  split
  · exact report_of_isExhausted h Bool.false_ne_true
  · rfl

theorem finish_within (reading : Reading) (hl : reading.session.log.limit = none)
    (hr : reading.session.log.errors.length < budget) (tokens : List Token) :
    (reading.within budget).finish tokens = (reading.finish tokens).within budget := by
  have hu : (reading.within budget).reportUnfinished = reading.reportUnfinished.within budget ∧
      reading.reportUnfinished.session.log.errors.length ≤ budget := by
    have hc : (reading.within budget).current = reading.current := rfl
    unfold reportUnfinished
    rw [hc]
    split
    next last _ =>
      have he := Log.errors_report hl (.atToken (.expectedToken "`;`" "end of input") last)
      refine ⟨report_within reading hl Bool.false_ne_true, ?_⟩
      change (reading.session.log.report _).errors.length ≤ budget
      rw [he, List.length_append]
      exact hr
    · exact ⟨rfl, Nat.le_of_lt hr⟩
  have hi : (reading.reportUnfinished.within budget).session.log.hasInternal =
      reading.reportUnfinished.session.log.hasInternal := by
    change (reading.reportUnfinished.session.log.errors.take budget).any _ = _
    rw [List.take_of_length_le hu.2]
    rfl
  have hb : (reading.reportUnfinished.within budget).blocks = reading.reportUnfinished.blocks := rfl
  unfold finish reportUnclosed
  rw [hu.1, hi, hb]
  split
  · exact report_within _ ((extends_reportUnfinished reading).limit_eq.trans hl)
      Bool.false_ne_true
  · rfl

theorem follows_finish (hl : reading.session.log.limit = none)
    (h : Follows budget reading limited) (tokens : List Token) :
    Follows budget (reading.finish tokens) (limited.finish tokens) := by
  by_cases hr : reading.session.log.errors.length < budget
  · rw [h.eq_within hr, finish_within reading hl hr]
    exact follows_within budget _
  · have hx : limited.session.log.isExhausted := by
      rw [h.log_eq]
      exact Log.isExhausted_within.2 (by omega)
    rw [finish_of_isExhausted hx]
    exact h.later (by omega) (extends_finish reading tokens)

end Reading

end MuLang
