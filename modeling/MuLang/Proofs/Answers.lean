import MuLang.Proofs.Resolution
import MuLang.Typing

/-!
# Tables that answer alike

What names stand for, and what type an expression has, depends on a symbol table through a few
look-ups alone. Where these have the same results, checks do the same, and fail with the same
errors.
-/
namespace MuLang

/-- Tables in which every call finds the same, whatever the order of what they hold. -/
structure SymbolTable.CallsAlike (table other : SymbolTable) : Prop where
  contains_eq : ∀ p, table.contains p = other.contains p
  isEmpty_eq : ∀ p name, ((table.module p).definitions name).isEmpty =
    ((other.module p).definitions name).isEmpty
  find?_eq : ∀ p name arguments, ((table.module p).definitions name).find? (·.accepts arguments) =
    ((other.module p).definitions name).find? (·.accepts arguments)

/-- Tables in which every look-up has one result. -/
structure SymbolTable.Answers (table other : SymbolTable) : Prop
    extends CallsAlike table other where
  global?_eq : ∀ p name, (table.module p).global? name = (other.module p).global? name

theorem SymbolTable.Answers.refl (table : SymbolTable) : table.Answers table :=
  ⟨⟨fun _ => rfl, fun _ _ => rfl, fun _ _ _ => rfl⟩, fun _ _ => rfl⟩

namespace Env

variable {table other : SymbolTable} {access : AccessPolicy}

theorem global_eq_of_answers (h : table.Answers other) (source : ModulePath) (identifier : Token) :
    Env.global ⟨table, access⟩ source identifier =
      Env.global ⟨other, access⟩ source identifier := by
  simp only [Env.global, SymbolTable.resolveGlobal?, h.global?_eq,
    SymbolTable.resolveModule?_congr h.contains_eq]
  rfl

theorem resolve_eq_of_answers (h : table.Answers other) (scopes : ScopeStack) (identifier : Token) :
    Env.resolve ⟨table, access⟩ scopes identifier =
      Env.resolve ⟨other, access⟩ scopes identifier := by
  simp only [Env.resolve, global_eq_of_answers h]

theorem read_eq_of_answers (h : table.Answers other) (scopes : ScopeStack) (identifier : Token) :
    Env.read ⟨table, access⟩ scopes identifier = Env.read ⟨other, access⟩ scopes identifier := by
  simp only [Env.read, resolve_eq_of_answers h]

theorem store_eq_of_answers (h : table.Answers other) (identifier operator : Token) (value : Expr) :
    Env.store ⟨table, access⟩ identifier operator value =
      Env.store ⟨other, access⟩ identifier operator value := by
  simp only [Env.store, Env.assign, resolve_eq_of_answers h]

theorem functionModule_eq_of_callsAlike (h : table.CallsAlike other) (source : ModulePath)
    (callee : Token) : Env.functionModule ⟨table, access⟩ source callee =
      Env.functionModule ⟨other, access⟩ source callee := by
  simp only [Env.functionModule, h.isEmpty_eq, SymbolTable.resolveModule?_congr h.contains_eq]

theorem call_eq_of_callsAlike (h : table.CallsAlike other) (source : ModulePath) (callee : Token)
    (arguments : List Datatype) : Env.call ⟨table, access⟩ source callee arguments =
      Env.call ⟨other, access⟩ source callee arguments := by
  simp only [Env.call, functionModule_eq_of_callsAlike h]
  congr 1
  funext found
  cases found with
  | none => rfl
  | some module =>
    simp only [h.isEmpty_eq, h.find?_eq]
    rfl

end Env

namespace Term

variable {table other : SymbolTable} {access : AccessPolicy}

mutual

theorem check_eq_of_answers (h : table.Answers other) : ∀ term : Term,
    term.check ⟨table, access⟩ = term.check ⟨other, access⟩
  | .literal kind value => by rw [check, check]
  | .read identifier => by simp only [check, Env.read_eq_of_answers h]
  | .binary left op operator right => by
    rw [check, check, check_eq_of_answers h left, check_eq_of_answers h right]
  | .unary op operator right => by rw [check, check, check_eq_of_answers h right]
  | .cast type target value => by rw [check, check, check_eq_of_answers h value]
  | .assign assignee operator value => by
    simp only [check, check_eq_of_answers h value, Env.store_eq_of_answers h]
  | .call callee arguments => by
    simp only [check, checkAll_eq_of_answers h arguments, Env.call_eq_of_callsAlike h.toCallsAlike]
  | .broken parts error => by rw [check, check, checkAll_eq_of_answers h parts]

theorem checkAll_eq_of_answers (h : table.Answers other) : ∀ terms : List Term,
    checkAll ⟨table, access⟩ terms = checkAll ⟨other, access⟩ terms
  | [] => by rw [checkAll, checkAll]
  | term :: rest => by
    rw [checkAll, checkAll, check_eq_of_answers h term, checkAll_eq_of_answers h rest]

end

end Term

end MuLang
