import MuLang.Diagnostic.Error

/-!
# The log of an analysis

The errors that one run reports, in order. A log may have a budget: once it is spent, further errors
are dropped, except those by which the analysis confesses a fault of its own.
-/
namespace MuLang

/-- The errors reported so far, and how many are collected at most. -/
structure Log where
  limit : Option Nat
  errors : List Error
  deriving DecidableEq, Inhabited

namespace Log

def empty (limit : Option Nat) : Log := ⟨limit, []⟩

/-- The budget is spent. -/
def isExhausted (log : Log) : Bool := log.limit.any (· ≤ log.errors.length)

def hasInternal (log : Log) : Bool := log.errors.any (·.isInternal)

/-- A run goes on only while its log has room and holds no fault of the analysis. -/
def isClosed (log : Log) : Bool := log.hasInternal || log.isExhausted

/-- Adds an error while there is room; internal ones are always added. -/
def report (log : Log) (error : Error) : Log :=
  if log.isExhausted ∧ ¬error.isInternal then log
  else { log with errors := log.errors ++ [error] }

theorem report_of_unlimited (errors : List Error) (error : Error) :
    (Log.mk none errors).report error = ⟨none, errors ++ [error]⟩ := by
  simp [report, isExhausted]

/-- Reporting only ever adds at the end. -/
theorem errors_report_extends (log : Log) (error : Error) :
    ∃ added, (log.report error).errors = log.errors ++ added := by
  unfold report
  split
  · exact ⟨[], by simp⟩
  · exact ⟨[error], rfl⟩

end Log

end MuLang
