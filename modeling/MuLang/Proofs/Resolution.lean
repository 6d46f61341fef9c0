import MuLang.Proofs.Table

/-!
# What resolution looks at

To find the module that a name leads to, only the modules of the table matter, and for a variable
also the names of the globals in them; to find a function, the functions apart from their bodies.
-/
namespace MuLang

namespace SymbolTable

variable {table other : SymbolTable}

theorem walk?_congr (h : ∀ p, table.contains p = other.contains p) (start : ModulePath)
    (path : List String) : table.walk? start path = other.walk? start path := by
  induction path generalizing start with
  | nil => rfl
  | cons name rest ih =>
    have hs : table.submodule? start name = other.submodule? start name := by
      rw [submodule?, submodule?, h]
    simp only [walk?, hs, ih]

theorem resolveModule?_congr (h : ∀ p, table.contains p = other.contains p) (start : ModulePath)
    (path : List String) : table.resolveModule? start path = other.resolveModule? start path := by
  simp only [resolveModule?, walk?_congr h]

/-- The variable that a name leads to is declared where it is found. -/
theorem global?_of_resolveGlobal? {start owner : ModulePath} {identifier : String} {v : Variable}
    (h : table.resolveGlobal? start identifier = some (owner, v)) :
    (table.module owner).global? (QualifiedName.split identifier).name = some v := by
  have found {p : ModulePath}
      (hp : ((table.module p).global? (QualifiedName.split identifier).name).map (p, ·) =
        some (owner, v)) :
      (table.module owner).global? (QualifiedName.split identifier).name = some v := by
    obtain ⟨w, hw, he⟩ := Option.map_eq_some_iff.1 hp
    cases he
    exact hw
  unfold resolveGlobal? at h
  dsimp only at h
  split at h
  · obtain ⟨p, -, hp⟩ := List.exists_of_findSome?_eq_some h
    exact found hp
  · obtain ⟨p, -, hp⟩ := Option.bind_eq_some_iff.1 h
    exact found hp

/-- The first module of a list that declares a variable is found in both tables. -/
theorem findSome?_global_congr (h : ∀ p name, table.HasGlobal p name ↔ other.HasGlobal p name)
    (name : String) (modules : List ModulePath) :
    (modules.findSome? fun p => ((table.module p).global? name).map (p, ·)).map Prod.fst =
      (modules.findSome? fun p => ((other.module p).global? name).map (p, ·)).map Prod.fst := by
  induction modules with
  | nil => rfl
  | cons p rest ih =>
    have hp := h p name
    unfold HasGlobal at hp
    simp only [List.findSome?_cons]
    cases ht : (table.module p).global? name with
    | none =>
      have ho : (other.module p).global? name = none := by
        rw [ht] at hp
        simpa using hp
      rw [ho]
      exact ih
    | some v =>
      have ho : ((other.module p).global? name).isSome := by
        rw [← hp, ht]
        rfl
      obtain ⟨w, hw⟩ := Option.isSome_iff_exists.1 ho
      rw [hw]
      rfl

/-- A variable is found in the same module of two tables with the same modules and the same names of
globals. -/
theorem owner_resolveGlobal?_congr (hc : ∀ p, table.contains p = other.contains p)
    (hg : ∀ p name, table.HasGlobal p name ↔ other.HasGlobal p name) (start : ModulePath)
    (identifier : String) :
    (table.resolveGlobal? start identifier).map Prod.fst =
      (other.resolveGlobal? start identifier).map Prod.fst := by
  unfold resolveGlobal?
  dsimp only
  split
  · exact findSome?_global_congr hg _ _
  · rw [resolveModule?_congr hc]
    cases other.resolveModule? start (QualifiedName.split identifier).path with
    | none => rfl
    | some p => simpa using findSome?_global_congr hg (QualifiedName.split identifier).name [p]

theorem exists_resolveGlobal? (hc : ∀ p, table.contains p = other.contains p)
    (hg : ∀ p name, table.HasGlobal p name ↔ other.HasGlobal p name) {start owner : ModulePath}
    {identifier : String} {v : Variable}
    (h : table.resolveGlobal? start identifier = some (owner, v)) :
    ∃ w, other.resolveGlobal? start identifier = some (owner, w) := by
  have ho := owner_resolveGlobal?_congr hc hg start identifier
  rw [h] at ho
  obtain ⟨⟨p, w⟩, hw, rfl⟩ := Option.map_eq_some_iff.1 ho.symm
  exact ⟨w, hw⟩

/-- No module has two functions of one name and the same parameter types. -/
def Distinct (table : SymbolTable) : Prop :=
  ∀ p name, (((table.module p).definitions name).map (·.parameterTypes)).Nodup

theorem distinct_empty : empty.Distinct := by
  intro p name
  simp [Module.empty, Module.definitions]

theorem Distinct.addModule {extended : SymbolTable} {parent : ModulePath} {name : String}
    (hd : table.Distinct) (h : table.addModule parent name = .ok extended) : extended.Distinct := by
  intro p other
  rw [module_addModule h]
  exact hd p other

theorem Distinct.addVariable {extended : SymbolTable} {path : ModulePath} {v : Variable}
    (hd : table.Distinct) (h : table.addVariable path v = .ok extended) : extended.Distinct := by
  intro p name
  rw [definitions_addVariable h]
  exact hd p name

theorem Distinct.addFunction {extended : SymbolTable} {path : ModulePath}
    {definition : FunctionDefinition} (hd : table.Distinct)
    (h : table.addFunction path definition = .ok extended) : extended.Distinct := by
  intro p name
  by_cases hp : p = path ∧ table.contains path
  · obtain ⟨rfl, hc⟩ := hp
    rw [((definitions_addFunction h hc).map _).nodup_iff, List.map_append, List.nodup_append]
    by_cases hn : definition.name = name
    · -- The function is refused if one of its name takes the same parameters.
      subst hn
      refine ⟨hd p _, by simp, ?_⟩
      rintro types ht others ho rfl
      obtain ⟨other, hm, rfl⟩ := List.mem_map.1 ht
      simp only [if_true, List.map_singleton, List.mem_singleton] at ho
      exact (of_addFunction h).1 (List.any_eq_true.2 ⟨other, hm, by simpa using ho⟩)
    · simpa [hn] using hd p name
  · rw [definitions_addFunction_of_ne h hp]
    exact hd p name

end SymbolTable

namespace Env

variable {env : Env} {source : ModulePath} {callee : Token} {arguments : List Datatype}
  {type : Datatype}

/-- What a call refers to: in the module that its name leads to, the only function of this name that
takes such arguments, which may be called from where the call stands. -/
def Calls (env : Env) (source : ModulePath) (callee : Token) (arguments : List Datatype)
    (type : Datatype) : Prop :=
  ∃ owner definition, env.functionModule source callee = .ok (some owner) ∧
    ((env.table.module owner).definitions (QualifiedName.split callee.text).name).filter
      (·.accepts arguments) = [definition] ∧
    env.admits source owner definition.modifiers ∧ type = definition.returnType

/-- Of functions with different parameter types the first with some types is the only one. -/
theorem filter_accepts_of_find? {definitions : List FunctionDefinition}
    {definition : FunctionDefinition} (hd : (definitions.map (·.parameterTypes)).Nodup)
    (h : definitions.find? (·.accepts arguments) = some definition) :
    definitions.filter (·.accepts arguments) = [definition] := by
  induction definitions with
  | nil => cases h
  | cons first rest ih =>
    rw [List.map_cons, List.nodup_cons] at hd
    by_cases ha : first.accepts arguments
    · simp only [List.find?_cons, ha, Option.some.injEq] at h
      subst h
      rw [List.filter_cons, if_pos ha, List.filter_eq_nil_iff.2]
      intro other ho hc
      -- Another one would have the parameter types of the first.
      have hf : first.parameterTypes = other.parameterTypes := by
        simp only [FunctionDefinition.accepts, decide_eq_true_eq] at ha hc
        rw [ha, hc]
      exact hd.1 (hf ▸ List.mem_map_of_mem ho)
    · simp only [List.find?_cons, ha] at h
      rw [List.filter_cons, if_neg ha]
      exact ih hd.2 h

theorem calls_of_call (hd : env.table.Distinct)
    (h : env.call source callee arguments = .ok type) : env.Calls source callee arguments type := by
  simp only [call, Except.bind_eq_ok] at h
  obtain ⟨found, hf, h⟩ := h
  cases found with
  | none =>
    simp only [List.isEmpty_nil, if_true, bind, Except.bind] at h
    cases h
  | some owner =>
    simp only [Except.ite_eq_ok, Except.bind_eq_ok, Except.throw_ne_ok, false_and, exists_false,
      and_false, false_or] at h
    obtain ⟨-, h⟩ := h
    split at h
    · cases h
    next definition hs =>
      simp only [Except.bind_eq_ok, Except.pure_eq_ok, Option.getD_some] at h
      obtain ⟨_, ha, rfl⟩ := h
      refine ⟨owner, definition, hf, filter_accepts_of_find? (hd _ _) hs, ?_, rfl⟩
      unfold checkAccess at ha
      split at ha
      · assumption
      · cases ha

section Congruence

variable {other : Env}

/-- Tables that agree on their functions apart from the bodies have the same definitions of a name
apart from the bodies. -/
theorem definitions_congr (hs : env.table.skeleton = other.table.skeleton) (p : ModulePath)
    (name : String) :
    ((env.table.module p).definitions name).map FunctionDefinition.bodiless =
      ((other.table.module p).definitions name).map FunctionDefinition.bodiless := by
  rw [← Module.definitions_skeleton, ← Module.definitions_skeleton,
    ← SymbolTable.module_skeleton, hs, SymbolTable.module_skeleton]

theorem functionModule_congr (hs : env.table.skeleton = other.table.skeleton)
    (source : ModulePath) (callee : Token) :
    env.functionModule source callee = other.functionModule source callee := by
  have hc (p : ModulePath) : env.table.contains p = other.table.contains p := by
    rw [← SymbolTable.contains_skeleton, hs, SymbolTable.contains_skeleton]
  have he (p : ModulePath) (name : String) : ((env.table.module p).definitions name).isEmpty =
      ((other.table.module p).definitions name).isEmpty := by
    simpa using congrArg List.isEmpty (definitions_congr hs p name)
  simp only [functionModule, he, SymbolTable.resolveModule?_congr hc]

/-- What a call refers to does not hang on the bodies of functions or on variables. -/
theorem Calls.congr (ha : env.access = other.access)
    (hs : env.table.skeleton = other.table.skeleton)
    (h : env.Calls source callee arguments type) : other.Calls source callee arguments type := by
  obtain ⟨owner, definition, hf, hd, hp, rfl⟩ := h
  have hm : (((other.table.module owner).definitions (QualifiedName.split callee.text).name).filter
      (·.accepts arguments)).map FunctionDefinition.bodiless = [definition.bodiless] := by
    have hb := congrArg (List.filter (·.accepts arguments))
      (definitions_congr hs owner (QualifiedName.split callee.text).name)
    rw [List.filter_map, List.filter_map] at hb
    exact hb.symm.trans (congrArg (List.map _) hd)
  obtain ⟨found, hl, he⟩ := List.map_eq_singleton_iff.1 hm
  have hmod := congrArg FunctionDefinition.modifiers he
  have htype := congrArg FunctionDefinition.returnType he
  refine ⟨owner, found, ?_, hl, ?_, htype.symm⟩
  · rw [← functionModule_congr hs, hf]
  · rw [show found.modifiers = definition.modifiers from hmod, admits, ← ha]
    exact hp

end Congruence

end Env

end MuLang
