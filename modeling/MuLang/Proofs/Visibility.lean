import MuLang.Proofs.Site
import MuLang.Proofs.Success

/-!
# Scopes at a site

The scopes around a point of a program are those of its site: they belong to the same module, inside
the same function, the same names of locals are visible, and locals have the types of values.
Entering a block, declaring a variable and marking one as initialized keep this so.
-/
namespace MuLang

namespace ScopeStack

/-- The names of the locals in a list of scopes, innermost first, up to and including the first
function. -/
def namesIn : List Scope → List String
  | [] => []
  | scope :: rest =>
    scope.locals.map (·.name) ++ if scope.kind = .function then [] else namesIn rest

/-- The names of the locals that are visible. Outside functions there are none. -/
def visible (scopes : ScopeStack) : List String :=
  if scopes.inFunction then namesIn scopes.nested else []

theorem isSome_findIn {name : String} {scopes : List Scope} :
    (findIn name scopes).isSome ↔ name ∈ namesIn scopes := by
  induction scopes with
  | nil => simp [findIn, namesIn]
  | cons scope rest ih =>
    rw [findIn, namesIn, List.mem_append]
    by_cases hn : name ∈ scope.locals.map (·.name)
    · have hx : (scope.locals.findIdx? (·.name = name)).isSome := by
        obtain ⟨v, hv, rfl⟩ := List.mem_map.1 hn
        simpa using ⟨v, hv, rfl⟩
      have hf : (scope.locals.find? (·.name = name)).isSome := by
        obtain ⟨v, hv, rfl⟩ := List.mem_map.1 hn
        simpa using ⟨v, hv, rfl⟩
      obtain ⟨index, hi⟩ := Option.isSome_iff_exists.1 hx
      obtain ⟨v, hv⟩ := Option.isSome_iff_exists.1 hf
      simp [hi, hv, hn]
    · have hx : scope.locals.findIdx? (·.name = name) = none := by
        simpa using fun v hv he => hn (List.mem_map.2 ⟨v, hv, he⟩)
      simp only [hx, hn, false_or]
      split
      · simp
      · exact ih

/-- The first local of a name lies in the innermost scope, or else it is that of the scopes around, if
these are in the same function. -/
theorem findIn_cons (name : String) (scope : Scope) (rest : List Scope) :
    (∃ index v, scope.locals[index]? = some v ∧ v.name = name ∧
      findIn name (scope :: rest) = some (⟨rest.length + 1, index⟩, v)) ∨
    (∀ v ∈ scope.locals, v.name ≠ name) ∧
      findIn name (scope :: rest) = if scope.kind = .function then none else findIn name rest := by
  cases hi : scope.locals.findIdx? (·.name = name) with
  | some index =>
    obtain ⟨hlt, rfl⟩ := List.findIdx?_eq_some_iff_findIdx_eq.1 hi
    have hf := @List.find?_eq_getElem?_findIdx _ scope.locals (·.name = name)
    rw [List.getElem?_eq_getElem hlt] at hf
    refine .inl ⟨_, _, List.getElem?_eq_getElem hlt, ?_, ?_⟩
    · simpa using List.find?_some hf
    · simp only [findIn, hi, hf]
  | none =>
    refine .inr ⟨fun v hv hn => ?_, ?_⟩
    · simpa [hn] using List.findIdx?_eq_none_iff.1 hi v hv
    · simp only [findIn, hi]

theorem isSome_findLocal? {scopes : ScopeStack} {name : String} :
    (scopes.findLocal? name).isSome ↔ name ∈ scopes.visible := by
  unfold findLocal? visible
  split
  · exact isSome_findIn
  · simp

theorem namesIn_unmarked (scopes : List Scope) :
    namesIn (scopes.map Scope.unmarked) = namesIn scopes := by
  induction scopes with
  | nil => rfl
  | cons scope rest ih =>
    simp only [List.map_cons, namesIn, ih, Scope.unmarked, List.map_map]
    rfl

variable {scopes extended : ScopeStack}

@[simp] theorem visible_unmarked (scopes : ScopeStack) : scopes.unmarked.visible = scopes.visible := by
  have hf : scopes.unmarked.inFunction = scopes.inFunction := by
    rw [← inFunction_bare scopes, ← bare_unmarked, inFunction_bare]
  rw [visible, hf, nested_unmarked, namesIn_unmarked, visible]

theorem visible_congr (h : extended.unmarked = scopes.unmarked) :
    extended.visible = scopes.visible := by
  rw [← visible_unmarked extended, h, visible_unmarked]

theorem inFunction_enter (scopes : ScopeStack) (scope : Scope) :
    (scopes.enter scope).inFunction = (scope.kind = .function || scopes.inFunction) := rfl

theorem visible_push {kind : ScopeKind} (hk : kind ≠ .function) (scopes : ScopeStack) :
    (scopes.push kind).visible = scopes.visible := by
  have hf : (scopes.push kind).inFunction = scopes.inFunction := by
    simp [push, inFunction_enter, hk]
  have hn : namesIn (scopes.push kind).nested = namesIn scopes.nested := by
    simp [push, enter, namesIn, hk]
  rw [visible, hf, hn, visible]

theorem visible_pushFunction (scopes : ScopeStack) (type : Datatype) :
    (scopes.pushFunction type).visible = [] := by
  simp [visible, pushFunction, enter, namesIn]

/-- A local that is declared is visible then. -/
theorem mem_visible_addLocal {v : Variable} {name : String} (hf : scopes.inFunction)
    (h : scopes.addLocal v = .ok extended) :
    name ∈ extended.visible ↔ name = v.name ∨ name ∈ scopes.visible := by
  unfold addLocal at h
  split at h
  · cases h
  · cases h
    rcases scopes with ⟨_ | ⟨scope, rest⟩, outermost⟩
    · cases hf
    · have he : (ScopeStack.mk ({ scope with locals := scope.locals ++ [v] } :: rest)
          outermost).inFunction = true := hf
      simp [visible, hf, he, namesIn, or_assoc, or_comm]

/-! ### Types of locals -/

/-- Every local has the type of a value. -/
def HoldsValues (scopes : ScopeStack) : Prop :=
  ∀ scope ∈ scopes.nested, ∀ v ∈ scope.locals, v.datatype.kind ≠ .void

/-- Marking a local as initialized does not change its type. -/
theorem HoldsValues.congr (h : scopes.HoldsValues) (hu : extended.unmarked = scopes.unmarked) :
    extended.HoldsValues := by
  have hn : extended.nested.map Scope.unmarked = scopes.nested.map Scope.unmarked :=
    congrArg nested hu
  intro scope hs v hv
  obtain ⟨other, ho, he⟩ := List.mem_map.1 (hn ▸ List.mem_map_of_mem hs)
  have hl : other.locals.map Variable.unmarked = scope.locals.map Variable.unmarked :=
    congrArg Scope.locals he
  obtain ⟨w, hw, hvw⟩ := List.mem_map.1 (hl ▸ List.mem_map_of_mem hv)
  have hd : w.unmarked.datatype = v.unmarked.datatype := by rw [hvw]
  exact fun hk => h other ho w hw ((congrArg Datatype.kind hd).trans hk)

theorem HoldsValues.enter {scope : Scope} (h : scopes.HoldsValues) (hs : scope.locals = []) :
    (scopes.enter scope).HoldsValues := by
  refine List.forall_mem_cons.2 ⟨?_, h⟩
  rw [hs]
  exact fun _ hv => absurd hv List.not_mem_nil

theorem HoldsValues.addLocal {v : Variable} (h : scopes.HoldsValues) (hv : v.datatype.kind ≠ .void)
    (ha : scopes.addLocal v = .ok extended) : extended.HoldsValues := by
  unfold ScopeStack.addLocal at ha
  split at ha
  · cases ha
  · cases ha
    rcases scopes with ⟨_ | ⟨scope, rest⟩, outermost⟩
    · exact h
    · obtain ⟨hscope, hrest⟩ := List.forall_mem_cons.1 h
      refine List.forall_mem_cons.2 ⟨?_, hrest⟩
      exact List.forall_mem_append.2 ⟨hscope, List.forall_mem_singleton.2 hv⟩

theorem mem_of_findIn {name : String} {slot : LocalSlot} {v : Variable} {nested : List Scope}
    (h : findIn name nested = some (slot, v)) : ∃ scope ∈ nested, v ∈ scope.locals := by
  induction nested with
  | nil => cases h
  | cons scope rest ih =>
    rw [findIn] at h
    split at h
    next hi hf =>
      cases h
      exact ⟨scope, List.mem_cons_self, List.mem_of_find?_eq_some hf⟩
    next =>
      split at h
      · cases h
      · obtain ⟨other, ho, hv⟩ := ih h
        exact ⟨other, List.mem_cons_of_mem _ ho, hv⟩

theorem HoldsValues.findLocal? {name : String} {slot : LocalSlot} {v : Variable}
    (h : scopes.HoldsValues) (hf : scopes.findLocal? name = some (slot, v)) :
    v.datatype.kind ≠ .void := by
  unfold ScopeStack.findLocal? at hf
  split at hf
  · obtain ⟨scope, hs, hv⟩ := mem_of_findIn hf
    exact h scope hs v hv
  · cases hf

end ScopeStack

namespace Site

variable {site : Site} {scopes extended : ScopeStack}

/-- The scopes around a point are those of its site. -/
structure Matches (site : Site) (scopes : ScopeStack) : Prop where
  module_eq : scopes.currentModule = site.module
  inFunction_eq : scopes.inFunction = site.function.isSome
  mem_visible : ∀ name, name ∈ scopes.visible ↔ name ∈ site.locals
  returnType_eq : ∀ header ∈ site.function, ∃ definition,
    header.definition (.interpreted []) = .ok definition ∧
      scopes.returnType? = some definition.returnType
  outside : scopes.currentKind = .program ∨ scopes.currentKind = .module → site.function = none
  holdsValues : scopes.HoldsValues

theorem matches_initial : root.Matches .initial :=
  ⟨rfl, rfl, fun name => by simp [ScopeStack.visible, ScopeStack.initial, ScopeStack.inFunction,
    root], by simp [root], fun _ => rfl, fun _ hs => absurd hs List.not_mem_nil⟩

namespace Matches

/-- Of scopes of the same shape only the locals can differ. -/
theorem of_bare {locals : List String} (h : site.Matches scopes)
    (hb : extended.bare = scopes.bare) (hv : ∀ name, name ∈ extended.visible ↔ name ∈ locals)
    (ht : extended.HoldsValues) : ({ site with locals } : Site).Matches extended := by
  refine ⟨?_, ?_, hv, ?_, ?_, ht⟩
  · rw [← ScopeStack.currentModule_bare, hb, ScopeStack.currentModule_bare]
    exact h.module_eq
  · rw [← ScopeStack.inFunction_bare, hb, ScopeStack.inFunction_bare]
    exact h.inFunction_eq
  · rw [← ScopeStack.returnType?_bare, hb, ScopeStack.returnType?_bare]
    exact h.returnType_eq
  · rw [← ScopeStack.currentKind_bare, hb, ScopeStack.currentKind_bare]
    exact h.outside

/-- Marking a local as initialized does not matter. -/
theorem congr (h : site.Matches scopes) (hu : extended.unmarked = scopes.unmarked) :
    site.Matches extended :=
  h.of_bare (ScopeStack.bare_eq_of_unmarked_eq hu) (ScopeStack.visible_congr hu ▸ h.mem_visible)
    (h.holdsValues.congr hu)

/-- A block inside a function sees what is visible around it. -/
theorem push {kind : ScopeKind} (h : site.Matches scopes) (hf : kind ≠ .function)
    (hp : kind ≠ .program) (hm : kind ≠ .module) : site.Matches (scopes.push kind) := by
  refine ⟨h.module_eq, ?_, ?_, ?_, ?_, h.holdsValues.enter rfl⟩
  · rw [← h.inFunction_eq]
    simp [ScopeStack.push, ScopeStack.inFunction_enter, hf]
  · rw [ScopeStack.visible_push hf]
    exact h.mem_visible
  · have hr : (scopes.push kind).returnType? = scopes.returnType? := by
      simp [ScopeStack.returnType?, ScopeStack.push, ScopeStack.enter, hf]
    rw [hr]
    exact h.returnType_eq
  · rintro (hk | hk)
    · exact absurd hk hp
    · exact absurd hk hm

theorem pushIn (h : site.Matches scopes) (hf : site.function = none) (name : String) :
    (site.inModule name).Matches
      (scopes.pushIn .module (scopes.currentModule ++ [name])) := by
  have hi : (scopes.pushIn .module (scopes.currentModule ++ [name])).inFunction = false := by
    rw [ScopeStack.pushIn, ScopeStack.inFunction_enter, h.inFunction_eq, hf]
    rfl
  refine ⟨congrArg (· ++ [name]) h.module_eq, hi, fun other => ?_, by simp [inModule],
    fun _ => rfl, h.holdsValues.enter rfl⟩
  simp [ScopeStack.visible, hi, inModule]

theorem addLocal {v : Variable} {header : VariableHeader} (h : site.Matches scopes)
    (hf : site.function.isSome) (hn : v.name = header.identifier.text)
    (hv : v.datatype.kind ≠ .void) (ha : scopes.addLocal v = .ok extended) :
    (site.declare header).Matches extended := by
  have hd : site.declare header = { site with locals := header.identifier.text :: site.locals } :=
    if_pos hf
  rw [hd]
  refine h.of_bare (ScopeStack.bare_of_addLocal ha) (fun name => ?_) (h.holdsValues.addLocal hv ha)
  rw [ScopeStack.mem_visible_addLocal (h.inFunction_eq.trans hf) ha, h.mem_visible, hn,
    List.mem_cons]

end Matches

end Site

namespace Step

variable {s t : Session} {header : FunctionHeader}

theorem declareParameters_cons_ok {parameter : FunctionParameter} {rest : List FunctionParameter}
    {u : Unit} (h : declareParameters header (parameter :: rest) s = (.ok u, t)) :
    ∃ scopes, s.scopes.addLocal
        ⟨parameter.name, parameter.datatype, parameter.modifiers, true⟩ = .ok scopes ∧
      declareParameters header rest { s with scopes } = (.ok u, t) := by
  rw [declareParameters, Fallible.bind_of_ok (Fallible.get_apply _)] at h
  cases ha : s.scopes.addLocal ⟨parameter.name, parameter.datatype, parameter.modifiers, true⟩ with
  | error conflict =>
    rw [ha] at h
    exact absurd h (by simp)
  | ok scopes =>
    rw [ha] at h
    exact ⟨scopes, rfl, h⟩

/-- The parameters of a function become locals. -/
theorem declareParameters_ok {parameters : List FunctionParameter} {u : Unit}
    (hf : s.scopes.inFunction)
    (h : declareParameters header parameters s = (.ok u, t)) :
    ∃ scopes, t = { s with scopes } ∧ scopes.bare = s.scopes.bare ∧
      scopes.popBlock? = s.scopes.popBlock? ∧
      (s.scopes.HoldsValues → (∀ parameter ∈ parameters, parameter.datatype.kind ≠ .void) →
        scopes.HoldsValues) ∧
      ∀ name, name ∈ scopes.visible ↔ name ∈ parameters.map (·.name) ∨ name ∈ s.scopes.visible := by
  induction parameters generalizing s with
  | nil =>
    obtain ⟨-, rfl⟩ := Fallible.pure_eq_ok.1 h
    exact ⟨s.scopes, rfl, rfl, rfl, fun hs _ => hs, by simp⟩
  | cons parameter rest ih =>
    obtain ⟨extended, ha, h⟩ := declareParameters_cons_ok h
    have hb := ScopeStack.bare_of_addLocal ha
    have hp := ScopeStack.popBlock?_of_addLocal hf ha
    have he : extended.inFunction := by
      rwa [← ScopeStack.inFunction_bare, hb, ScopeStack.inFunction_bare]
    obtain ⟨scopes, rfl, hs, ho, ht, hv⟩ := ih (s := { s with scopes := extended }) he h
    refine ⟨scopes, rfl, hs.trans hb, ho.trans hp, fun hl hk => ?_, fun name => ?_⟩
    · obtain ⟨hparameter, hrest⟩ := List.forall_mem_cons.1 hk
      exact ht (hl.addLocal hparameter ha) hrest
    · rw [hv, ScopeStack.mem_visible_addLocal hf ha, List.map_cons, List.mem_cons, or_left_comm,
        or_assoc]

/-- At the start of a function its parameters are visible. -/
theorem matches_function {site : Site} {definition : FunctionDefinition} {u : Unit}
    (h : site.Matches s.scopes) (hv : header.TakesValues)
    (hd : header.definition (.interpreted []) = .ok definition)
    (hp : declareParameters header definition.parameters
      { s with scopes := s.scopes.pushFunction definition.returnType } = (.ok u, t)) :
    ∃ scopes, t = { s with scopes } ∧
      scopes.bare = (s.scopes.pushFunction definition.returnType).bare ∧
      scopes.popBlock? = (s.scopes.pushFunction definition.returnType).popBlock? ∧
      (site.inFunction header).Matches scopes := by
  have hf : (s.scopes.pushFunction definition.returnType).inFunction := by
    simp [ScopeStack.pushFunction, ScopeStack.inFunction_enter]
  have hholds : (s.scopes.pushFunction definition.returnType).HoldsValues :=
    h.holdsValues.enter rfl
  obtain ⟨scopes, rfl, hb, ho, ht, hn⟩ := declareParameters_ok (by exact hf) hp
  have hm : ({ site with function := some header, locals := [] } : Site).Matches
      (s.scopes.pushFunction definition.returnType) := by
    refine ⟨h.module_eq, hf, fun name => ?_, ?_, ?_, hholds⟩
    · rw [ScopeStack.visible_pushFunction]
    · intro other ho
      cases ho
      exact ⟨definition, hd, rfl⟩
    · rintro (hk | hk) <;> cases hk
  refine ⟨scopes, rfl, hb, ho, hm.of_bare hb (fun name => ?_) (ht hholds (hv.kind_ne_void hd))⟩
  rw [hn, ScopeStack.visible_pushFunction, FunctionHeader.names_of_definition hv hd]
  simp

end Step

end MuLang
