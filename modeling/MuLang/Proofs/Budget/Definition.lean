import MuLang.Definition
import MuLang.Proofs.Log

/-!
# Defining under a budget

A program is defined with a budget as without one as long as there is room in the log. After a first
error of a statement only errors of the program can follow in it.
-/
namespace MuLang

namespace Definer

variable {definer limited : Definer} {budget : Nat}

/-- The definer as it is under a budget. -/
def within (budget : Nat) (definer : Definer) : Definer :=
  { definer with log := definer.log.within budget }

/-- The definer under a budget beside the one without. -/
structure Follows (budget : Nat) (definer limited : Definer) : Prop where
  log_eq : limited.log = definer.log.within budget
  eq_within : definer.log.errors.length < budget → limited = definer.within budget

theorem follows_within (budget : Nat) (definer : Definer) :
    Follows budget definer (definer.within budget) := ⟨rfl, fun _ => rfl⟩

theorem Follows.of_eq (h : limited = definer.within budget) : Follows budget definer limited :=
  h ▸ follows_within budget definer

theorem Follows.later (h : Follows budget definer limited) {later : Definer}
    (hb : budget ≤ definer.log.errors.length) (he : definer.log.Extends later.log) :
    Follows budget later limited :=
  ⟨h.log_eq.trans (he.within_eq hb).symm, fun hr => by
    have := he.length_le
    omega⟩

theorem report_within {error : Error} (hl : definer.log.limit = none)
    (hr : definer.log.errors.length < budget ∨ ¬error.isInternal) :
    (definer.within budget).report error = (definer.report error).within budget := by
  unfold report within
  dsimp only
  rw [Log.report_within hl hr]

theorem accept_within (hl : definer.log.limit = none)
    (hr : definer.log.errors.length < budget) (result : Except Error SymbolTable) :
    (definer.within budget).accept result = (definer.accept result).within budget := by
  cases result with
  | ok table => rfl
  | error error => exact report_within hl (.inl hr)

theorem extends_accept (definer : Definer) (result : Except Error SymbolTable) :
    definer.log.Extends (definer.accept result).log := by
  cases result with
  | ok table => exact .refl _
  | error error => exact definer.log.extends_report error

theorem extends_foldl_report (definer : Definer) (errors : List Error) :
    definer.log.Extends (errors.foldl report definer).log := by
  induction errors generalizing definer with
  | nil => exact .refl _
  | cons error rest ih => exact (definer.log.extends_report error).trans (ih (definer.report error))

theorem foldl_report_within {errors : List Error} (hl : definer.log.limit = none)
    (he : ∀ error ∈ errors, ¬error.isInternal) :
    errors.foldl report (definer.within budget) = (errors.foldl report definer).within budget := by
  induction errors generalizing definer with
  | nil => rfl
  | cons error rest ih =>
    rw [List.foldl_cons, List.foldl_cons, report_within hl (.inr (he error (by simp)))]
    exact ih ((definer.log.extends_report error).limit_eq.trans hl)
      fun other ho => he other (by simp [ho])

end Definer

namespace Definition

/-- Faulty modifiers are errors of the program. -/
theorem not_isInternal_of_checkModifiers {target : String} {modifiers : List Token}
    {invalid : Modifier → Bool} {error : Error}
    (h : checkModifiers target modifiers invalid = .error error) : ¬error.isInternal := by
  unfold checkModifiers at h
  split at h
  · cases h
    exact Bool.false_ne_true
  · split at h
    · cases h
      exact Bool.false_ne_true
    · split at h <;> cases h
      exact Bool.false_ne_true

theorem not_isInternal_of_localErrors {header : VariableHeader} {error : Error}
    (h : error ∈ localErrors header) : ¬error.isInternal := by
  unfold localErrors at h
  split at h
  · simp at h
  next hc =>
    obtain rfl := List.mem_singleton.1 h
    exact not_isInternal_of_checkModifiers hc

mutual

theorem not_isInternal_of_errorsOf : ∀ (stmt : Stmt) {error : Error},
    error ∈ errorsOf stmt → ¬error.isInternal
  | .declare _, _, h => not_isInternal_of_localErrors h
  | .define _ _, _, h => not_isInternal_of_localErrors h
  | .ifElse _ _ body otherwise, _, h =>
    (List.mem_append.1 h).elim (not_isInternal_of_errorsIn body)
      (not_isInternal_of_errorsAfter otherwise)
  | .whileLoop _ _ body, _, h => not_isInternal_of_errorsIn body h
  | .forLoop _ _ _ _ _ body, _, h =>
    (List.mem_append.1 h).elim not_isInternal_of_localErrors (not_isInternal_of_errorsIn body)
  | .module .., _, h => nomatch h
  | .function .., _, h => nomatch h
  | .native .., _, h => nomatch h
  | .action .., _, h => nomatch h
  | .returning .., _, h => nomatch h
  | .stdlibFinish .., _, h => nomatch h

theorem not_isInternal_of_errorsAfter : ∀ (otherwise : Else) {error : Error},
    error ∈ errorsAfter otherwise → ¬error.isInternal
  | .absent, _, h => nomatch h
  | .block body, _, h => not_isInternal_of_errorsIn body h
  | .elseIf _ _ body otherwise, _, h =>
    (List.mem_append.1 h).elim (not_isInternal_of_errorsIn body)
      (not_isInternal_of_errorsAfter otherwise)

theorem not_isInternal_of_errorsIn : ∀ (body : List Stmt) {error : Error},
    error ∈ errorsIn body → ¬error.isInternal
  | [], _, h => nomatch h
  | stmt :: rest, _, h =>
    (List.mem_append.1 h).elim (not_isInternal_of_errorsOf stmt) (not_isInternal_of_errorsIn rest)

end

theorem not_isInternal_of_addFunction {table : SymbolTable} {module : ModulePath}
    {identifier : Token} {definition : FunctionDefinition} {error : Error}
    (h : addFunction table module identifier definition = .error error) : ¬error.isInternal := by
  unfold addFunction at h
  split at h
  · cases h
  next conflict _ =>
    cases h
    cases conflict <;> exact Bool.false_ne_true

end Definition

namespace Definer

open Definition

variable {definer limited : Definer} {budget : Nat} {natives : Native.Bindings}

theorem extends_function (definer : Definer) (module : ModulePath) (header : FunctionHeader)
    (body : List Stmt) : definer.log.Extends (definer.function module header body).log := by
  unfold function
  split
  · exact definer.log.extends_report _
  · exact (extends_accept definer _).trans (extends_foldl_report _ _)

/-- All that follows a first error of a function is an error of the program. -/
theorem function_within (hl : definer.log.limit = none)
    (hr : definer.log.errors.length < budget) (module : ModulePath) (header : FunctionHeader)
    (body : List Stmt) :
    (definer.within budget).function module header body =
      (definer.function module header body).within budget := by
  unfold function
  split
  · exact report_within hl (.inl hr)
  next definition _ =>
    have ht : (definer.within budget).table = definer.table := rfl
    rw [ht, accept_within hl hr]
    exact foldl_report_within ((extends_accept definer _).limit_eq.trans hl)
      fun _ he => not_isInternal_of_errorsIn body he

mutual

theorem extends_statement (natives : Native.Bindings) : ∀ (stmt : Stmt) (module : ModulePath)
    (definer : Definer), definer.log.Extends (statement natives module definer stmt).log
  | .module identifier body, module, definer => by
    unfold statement
    split
    next table _ => exact extends_block natives body _ { definer with table }
    next => exact definer.log.extends_report _
  | .function header body, module, definer => extends_function definer module header body
  | .native _ _, _, definer => extends_accept definer _
  | .declare _, _, definer => extends_accept definer _
  | .define _ _, _, definer => extends_accept definer _
  | .stdlibFinish _, _, definer => .refl definer.log
  | .action _, _, definer => definer.log.extends_report _
  | .ifElse .., _, definer => definer.log.extends_report _
  | .whileLoop .., _, definer => definer.log.extends_report _
  | .forLoop .., _, definer => definer.log.extends_report _
  | .returning .., _, definer => definer.log.extends_report _

theorem extends_block (natives : Native.Bindings) : ∀ (body : List Stmt) (module : ModulePath)
    (definer : Definer), definer.log.Extends (block natives module definer body).log
  | [], _, definer => .refl definer.log
  | stmt :: rest, module, definer => by
    unfold block
    split
    · exact .refl _
    · exact (extends_statement natives stmt module definer).trans
        (extends_block natives rest module _)

end

mutual

theorem follows_statement (natives : Native.Bindings) (budget : Nat) : ∀ (stmt : Stmt)
    (module : ModulePath) (definer : Definer), definer.log.limit = none →
    definer.log.errors.length < budget →
    Follows budget (statement natives module definer stmt)
      (statement natives module (definer.within budget) stmt)
  | .module identifier body, module, definer, hl, hr => by
    have ht : (definer.within budget).table = definer.table := rfl
    unfold statement
    rw [ht]
    cases definer.table.addModule module identifier.text with
    | ok table =>
      exact follows_block natives budget body _ { definer with table } _ hl (follows_within budget _)
    | error conflict => exact .of_eq (report_within hl (.inl hr))
  | .function header body, module, _, hl, hr => .of_eq (function_within hl hr module header body)
  | .native _ _, _, _, hl, hr => .of_eq (accept_within hl hr _)
  | .declare _, _, _, hl, hr => .of_eq (accept_within hl hr _)
  | .define _ _, _, _, hl, hr => .of_eq (accept_within hl hr _)
  | .stdlibFinish _, _, definer, _, _ => follows_within budget definer
  | .action _, _, _, hl, hr => .of_eq (report_within hl (.inl hr))
  | .ifElse .., _, _, hl, hr => .of_eq (report_within hl (.inl hr))
  | .whileLoop .., _, _, hl, hr => .of_eq (report_within hl (.inl hr))
  | .forLoop .., _, _, hl, hr => .of_eq (report_within hl (.inl hr))
  | .returning .., _, _, hl, hr => .of_eq (report_within hl (.inl hr))

theorem follows_block (natives : Native.Bindings) (budget : Nat) : ∀ (body : List Stmt)
    (module : ModulePath) (definer limited : Definer), definer.log.limit = none →
    Follows budget definer limited →
    Follows budget (block natives module definer body) (block natives module limited body)
  | [], _, _, _, _, h => h
  | stmt :: rest, module, definer, limited, hl, h => by
    by_cases hr : definer.log.errors.length < budget
    · have hc : (definer.within budget).log.isClosed = definer.log.isClosed :=
        Log.isClosed_within hl hr
      rw [h.eq_within hr]
      unfold block
      rw [hc]
      split
      · exact follows_within budget definer
      · exact follows_block natives budget rest module _ _
          ((extends_statement natives stmt module definer).limit_eq.trans hl)
          (follows_statement natives budget stmt module definer hl hr)
    · have hx : limited.log.isExhausted := by
        rw [h.log_eq]
        exact Log.isExhausted_within.2 (by omega)
      have hs : block natives module limited (stmt :: rest) = limited := by
        unfold block
        rw [if_pos]
        simp [Log.isClosed, hx]
      rw [hs]
      exact h.later (by omega) (extends_block natives (stmt :: rest) module definer)

end

end Definer

end MuLang
