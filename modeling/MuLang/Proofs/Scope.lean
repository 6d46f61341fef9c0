import MuLang.Scope

/-!
# Views of a scope stack

Two things are often all that matters of a scope stack: its shape, which says what blocks are open
and where, and what it declares, whether or not the variables have a value yet. Marking a variable
as initialized changes neither, and declaring one changes only the second.
-/
namespace MuLang

/-- A variable apart from whether it has a value. -/
def Variable.unmarked (v : Variable) : Variable := { v with initialized := false }

namespace Scope

/-- A scope without its locals. -/
def bare (scope : Scope) : Scope := { scope with locals := [] }

/-- A scope whose locals have no value yet. -/
def unmarked (scope : Scope) : Scope := { scope with locals := scope.locals.map Variable.unmarked }

@[simp] theorem bare_unmarked (scope : Scope) : scope.unmarked.bare = scope.bare := rfl

@[simp] theorem kind_bare (scope : Scope) : scope.bare.kind = scope.kind := rfl

@[simp] theorem module_bare (scope : Scope) : scope.bare.module = scope.module := rfl

@[simp] theorem returnType_bare (scope : Scope) : scope.bare.returnType = scope.returnType := rfl

end Scope

namespace ScopeStack

/-- The shape of a stack: its scopes without their locals. -/
def bare (scopes : ScopeStack) : ScopeStack :=
  ⟨scopes.nested.map Scope.bare, scopes.outermost.bare⟩

/-- The declarations of a stack: its scopes with locals that have no value yet. -/
def unmarked (scopes : ScopeStack) : ScopeStack :=
  ⟨scopes.nested.map Scope.unmarked, scopes.outermost.unmarked⟩

variable (scopes : ScopeStack)

@[simp] theorem bare_unmarked : scopes.unmarked.bare = scopes.bare := by
  simp [bare, unmarked, Function.comp_def]

@[simp] theorem nested_bare : scopes.bare.nested = scopes.nested.map Scope.bare := rfl

@[simp] theorem outermost_bare : scopes.bare.outermost = scopes.outermost.bare := rfl

@[simp] theorem nested_unmarked : scopes.unmarked.nested = scopes.nested.map Scope.unmarked := rfl

theorem current_bare : scopes.bare.current = scopes.current.bare := by
  cases h : scopes.nested <;> simp [current, h]

@[simp] theorem currentKind_bare : scopes.bare.currentKind = scopes.currentKind := by
  simp [currentKind, current_bare]

@[simp] theorem currentModule_bare : scopes.bare.currentModule = scopes.currentModule := by
  simp [currentModule, current_bare]

@[simp] theorem size_bare : scopes.bare.size = scopes.size := by
  simp [size]

@[simp] theorem inFunction_bare : scopes.bare.inFunction = scopes.inFunction := by
  simp only [inFunction, nested_bare, List.any_map]
  rfl

@[simp] theorem returnType?_bare : scopes.bare.returnType? = scopes.returnType? := by
  simp only [returnType?, nested_bare, List.find?_map, Option.bind_map]
  rfl

@[simp] theorem bare_enter (scope : Scope) :
    (scopes.enter scope).bare = scopes.bare.enter scope.bare := rfl

@[simp] theorem bare_push (kind : ScopeKind) :
    (scopes.push kind).bare = scopes.bare.push kind := by
  simp [push, Scope.bare]

@[simp] theorem bare_pushIn (kind : ScopeKind) (module : ModulePath) :
    (scopes.pushIn kind module).bare = scopes.bare.pushIn kind module := rfl

@[simp] theorem bare_pushFunction (type : Datatype) :
    (scopes.pushFunction type).bare = scopes.bare.pushFunction type := by
  simp [pushFunction, Scope.bare]

theorem bare_popBlock? : scopes.popBlock?.map bare = scopes.bare.popBlock? := by
  rcases scopes with ⟨_ | ⟨scope, rest⟩, outermost⟩
  · rfl
  · have hk : (ScopeStack.mk (rest.map Scope.bare) outermost.bare).currentKind =
        (ScopeStack.mk rest outermost).currentKind := currentKind_bare ⟨rest, outermost⟩
    simp only [popBlock?, pop?, bare, List.map_cons, Option.map_some, hk]
    split <;> simp [pop]

theorem unmarked_popBlock? : scopes.popBlock?.map unmarked = scopes.unmarked.popBlock? := by
  rcases scopes with ⟨_ | ⟨scope, rest⟩, outermost⟩
  · rfl
  · have hk : (ScopeStack.mk (rest.map Scope.unmarked) outermost.unmarked).currentKind =
        (ScopeStack.mk rest outermost).currentKind := by
      rw [← currentKind_bare ⟨rest, outermost⟩, ← bare_unmarked, currentKind_bare]
      rfl
    simp only [popBlock?, pop?, unmarked, List.map_cons, Option.map_some, hk]
    split <;> simp [pop]

/-! ## Marking and declaring -/

/-- A scope whose local at a place is marked as initialized or not. -/
def markLocal (scope : Scope) (index : Nat) (initialized : Bool) : Scope :=
  { scope with locals := scope.locals.modify index ({ · with initialized }) }

/-- Marks the local in a slot as initialized or not. -/
def mark (slot : LocalSlot) (initialized : Bool) : ScopeStack :=
  if slot.scope = 0 then
    { scopes with outermost := markLocal scopes.outermost slot.index initialized }
  else
    { scopes with nested :=
        scopes.nested.modify (scopes.nested.length - slot.scope) (markLocal · slot.index initialized) }

theorem initializeLocal_eq (slot : LocalSlot) :
    scopes.initializeLocal slot = scopes.mark slot true := rfl

@[simp] theorem unmarked_markLocal (scope : Scope) (index : Nat) (initialized : Bool) :
    (markLocal scope index initialized).unmarked = scope.unmarked := by
  simp only [markLocal, Scope.unmarked, Scope.mk.injEq, true_and, and_true]
  apply List.ext_getElem? fun i => ?_
  simp only [List.getElem?_map, List.getElem?_modify]
  split
  · cases scope.locals[i]? <;> rfl
  · simp

@[simp] theorem unmarked_mark (slot : LocalSlot) (initialized : Bool) :
    (scopes.mark slot initialized).unmarked = scopes.unmarked := by
  unfold mark
  split
  · simp [unmarked]
  · simp only [unmarked, ScopeStack.mk.injEq, and_true]
    apply List.ext_getElem? fun i => ?_
    simp only [List.getElem?_map, List.getElem?_modify]
    split
    · cases scopes.nested[i]? <;> simp
    · simp

@[simp] theorem unmarked_initializeLocal (slot : LocalSlot) :
    (scopes.initializeLocal slot).unmarked = scopes.unmarked := by
  rw [initializeLocal_eq, unmarked_mark]

theorem bare_eq_of_unmarked_eq {left right : ScopeStack} (h : left.unmarked = right.unmarked) :
    left.bare = right.bare := by
  rw [← bare_unmarked left, h, bare_unmarked]

theorem bare_of_addLocal {scopes extended : ScopeStack} {v : Variable}
    (h : scopes.addLocal v = .ok extended) : extended.bare = scopes.bare := by
  unfold addLocal at h
  split at h
  · cases h
  · cases h
    split <;> simp [bare, Scope.bare, *]

/-- A local is declared in the innermost scope. -/
theorem pop_of_addLocal {scopes extended : ScopeStack} {v : Variable} (hf : scopes.inFunction)
    (h : scopes.addLocal v = .ok extended) : extended.pop = scopes.pop := by
  unfold addLocal at h
  split at h
  · cases h
  · cases h
    rcases scopes with ⟨_ | ⟨scope, rest⟩, outermost⟩
    · cases hf
    · rfl

@[simp] theorem unmarked_pop : scopes.pop.unmarked = scopes.unmarked.pop := by
  simp [pop, unmarked]

/-! ## Leaving a block -/

theorem nested_ne_nil_of_inFunction {scopes : ScopeStack} (h : scopes.inFunction) :
    scopes.nested ≠ [] := by
  rintro hn
  rw [inFunction, hn] at h
  cases h

/-- What is left depends on the scopes around the innermost one alone. -/
theorem popBlock?_of_ne_nil {scopes : ScopeStack} (h : scopes.nested ≠ []) :
    scopes.popBlock? =
      some (if scopes.pop.currentKind = .loopHeader then scopes.pop.pop else scopes.pop) := by
  rcases scopes with ⟨_ | ⟨scope, rest⟩, outermost⟩
  · exact absurd rfl h
  · rfl

theorem popBlock?_of_addLocal {scopes extended : ScopeStack} {v : Variable} (hf : scopes.inFunction)
    (h : scopes.addLocal v = .ok extended) : extended.popBlock? = scopes.popBlock? := by
  have he : extended.inFunction := by
    rwa [← inFunction_bare, bare_of_addLocal h, inFunction_bare]
  rw [popBlock?_of_ne_nil (nested_ne_nil_of_inFunction he),
    popBlock?_of_ne_nil (nested_ne_nil_of_inFunction hf), pop_of_addLocal hf h]

end ScopeStack

end MuLang
