import MuLang.Diagnostic.Log

/-!
# Logs with a budget

A log with a budget beside the log of the same reports without one. As long as every report after
the budget is spent is an error of the program and not a fault of the analysis, the first is the
second cut off.
-/
namespace MuLang

namespace Log

variable {log later : Log} {budget : Nat} {error : Error}

/-! ## Reports only add -/

/-- A log at a later time. -/
structure Extends (log later : Log) : Prop where
  limit_eq : later.limit = log.limit
  errors_prefix : log.errors <+: later.errors

theorem Extends.refl (log : Log) : log.Extends log := ⟨rfl, List.prefix_rfl⟩

theorem Extends.trans {last : Log} (h : log.Extends later) (hl : later.Extends last) :
    log.Extends last :=
  ⟨hl.limit_eq.trans h.limit_eq, h.errors_prefix.trans hl.errors_prefix⟩

theorem Extends.length_le (h : log.Extends later) : log.errors.length ≤ later.errors.length :=
  h.errors_prefix.length_le

theorem extends_report (log : Log) (error : Error) : log.Extends (log.report error) := by
  unfold report
  split
  · exact .refl log
  · exact ⟨rfl, List.prefix_append _ _⟩

/-- What is reported to a log after it was open adds to the errors of that time. -/
theorem Extends.lt_report (h : log.Extends later) (hc : log.isClosed = false) (error : Error) :
    log.errors.length < (later.report error).errors.length := by
  by_cases he : later.isExhausted
  · refine Nat.lt_of_lt_of_le ?_ (extends_report later error).length_le
    have ho : log.isExhausted = false := (Bool.or_eq_false_iff.1 hc).2
    unfold isExhausted at he ho
    rw [h.limit_eq] at he
    cases hl : log.limit with
    | none => simp [hl] at he
    | some limit =>
      simp only [hl, Option.any_some, decide_eq_true_eq, decide_eq_false_iff_not] at he ho
      omega
  · have hr : (later.report error).errors = later.errors ++ [error] := by simp [report, he]
    rw [hr, List.length_append]
    exact Nat.lt_succ_of_le h.length_le

theorem errors_report (h : log.limit = none) (error : Error) :
    (log.report error).errors = log.errors ++ [error] := by
  simp [report, isExhausted, h]

/-- What holds of the errors reported so far and of another one holds of all. -/
theorem forall_mem_report {p : Error → Prop} (h : ∀ other ∈ log.errors, p other) (he : p error) :
    ∀ other ∈ (log.report error).errors, p other := by
  intro other ho
  unfold report at ho
  split at ho
  · exact h other ho
  · obtain ho | ho := List.mem_append.1 ho
    · exact h other ho
    · exact List.mem_singleton.1 ho ▸ he

/-! ## Logs without reports -/

/-- Nothing has been reported, though it could have been. -/
structure Clean (log : Log) : Prop where
  errors_eq : log.errors = []
  hasRoom : ¬log.isExhausted

theorem clean_of_errors (h : log.errors = []) (hl : log.limit ≠ some 0) : log.Clean := by
  refine ⟨h, fun hx => hl ?_⟩
  rw [isExhausted, Option.any_eq_true, h] at hx
  obtain ⟨limit, he, hz⟩ := hx
  rw [he, Nat.le_zero.1 (of_decide_eq_true hz)]

theorem not_clean_report (log : Log) (error : Error) : ¬(log.report error).Clean := by
  unfold report
  split
  next h => exact fun hc => hc.hasRoom h.1
  next => exact fun hc => List.append_ne_nil_of_right_ne_nil _ (List.cons_ne_nil _ _) hc.errors_eq

/-- A log that is clean at last has always been. -/
theorem Extends.clean (h : log.Extends later) (hc : later.Clean) : log.Clean := by
  have he : log.errors = [] := List.prefix_nil.1 (hc.errors_eq ▸ h.errors_prefix)
  refine ⟨he, fun hx => hc.hasRoom ?_⟩
  rwa [isExhausted, h.limit_eq, hc.errors_eq, ← he]

/-- Nothing has changed up to a time at which the log is clean. -/
theorem Extends.eq_of_clean (h : log.Extends later) (hc : later.Clean) : later = log := by
  have herrors : later.errors = log.errors := by rw [hc.errors_eq, (h.clean hc).errors_eq]
  exact congr (congrArg Log.mk h.limit_eq) herrors

theorem Clean.isClosed_eq (h : log.Clean) : log.isClosed = false := by
  have hr := h.hasRoom
  simp only [Bool.not_eq_true] at hr
  rw [isClosed, hasInternal, h.errors_eq, hr]
  rfl

/-! ## What a budget leaves -/

/-- What is left of a log under a budget. -/
def within (budget : Nat) (log : Log) : Log := ⟨some budget, log.errors.take budget⟩

@[simp] theorem errors_within : (log.within budget).errors = log.errors.take budget := rfl

@[simp] theorem limit_within : (log.within budget).limit = some budget := rfl

theorem isExhausted_within : (log.within budget).isExhausted ↔ budget ≤ log.errors.length := by
  simp only [isExhausted, limit_within, errors_within, Option.any_some, List.length_take,
    decide_eq_true_eq]
  omega

theorem report_of_isExhausted (h : log.isExhausted) (he : ¬error.isInternal) :
    log.report error = log := by
  rw [report, if_pos ⟨h, he⟩]

/-- While there is room, and for every error of the program itself, a budget only cuts off. -/
theorem report_within (h : log.limit = none)
    (hroom : log.errors.length < budget ∨ ¬error.isInternal) :
    (log.within budget).report error = (log.report error).within budget := by
  by_cases hb : budget ≤ log.errors.length
  · have he : ¬error.isInternal := hroom.resolve_left (by omega)
    rw [report_of_isExhausted (isExhausted_within.2 hb) he]
    simp [within, errors_report h, List.take_append_of_le_length hb]
  · have hr : (log.within budget).report error =
        ⟨some budget, log.errors.take budget ++ [error]⟩ := by
      rw [report, if_neg]
      · rfl
      · exact fun hc => hb (isExhausted_within.1 hc.1)
    rw [hr, within, errors_report h, List.take_of_length_le (by omega),
      List.take_of_length_le (by simp; omega)]

/-- What comes after the budget is spent does not show. -/
theorem Extends.within_eq (h : log.Extends later) (hb : budget ≤ log.errors.length) :
    later.within budget = log.within budget := by
  obtain ⟨added, ha⟩ := h.errors_prefix
  simp [within, ← ha, List.take_append_of_le_length hb]

/-- While there is room, a log closes under a budget when it closes without. -/
theorem isClosed_within (h : log.limit = none) (hroom : log.errors.length < budget) :
    (log.within budget).isClosed = log.isClosed := by
  have hw : (log.within budget).isExhausted = false := by
    rw [← Bool.not_eq_true, isExhausted_within]
    omega
  have hl : log.isExhausted = false := by simp [isExhausted, h]
  simp only [isClosed, hasInternal, hw, hl, errors_within, List.take_of_length_le (Nat.le_of_lt hroom)]

end Log

end MuLang
