import MuLang.Definition
import MuLang.Program

/-!
# Analysis

The whole analysis of a program: its statements with every name resolved and every expression typed,
and the table of everything it declares.
-/
namespace MuLang

/-- A program without errors. -/
structure Analysis where
  program : List Stmt
  symbols : SymbolTable
  deriving Inhabited

/-- Analyzes a program given as tokens. A program that fails to parse for want of a valid first
reading is not defined; otherwise the errors of its definition follow those of the parse, and all of
them together stay within the budget. -/
def analyze (settings : Settings) (natives : Native.Bindings) (tokens : List Token) :
    Except (List Error) Analysis :=
  let (program, errors) := parse settings tokens
  if errors.any (·.isInternal) then .error errors
  else match program with
    | none => .error errors
    | some program =>
      match define settings natives program with
      | .ok symbols => if errors.isEmpty then .ok ⟨program, symbols⟩ else .error errors
      | .error more =>
        .error (match settings.maxErrors with
          | some limit => (errors ++ more).take limit
          | none => errors ++ more)

end MuLang
