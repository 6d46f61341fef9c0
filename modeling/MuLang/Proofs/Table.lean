import MuLang.Definition
import MuLang.Proofs.Fallible
import MuLang.Resolve

/-!
# What a symbol table holds

The operations that add to a table, seen through what can be looked up in it: which modules there
are, which global variables, and the functions apart from their bodies. Two tables that agree on
modules and functions resolve every call alike, and two that agree on modules and on the names of
globals find every variable in the same module.
-/
namespace MuLang

namespace SymbolTable

variable {table extended : SymbolTable} {path p : ModulePath} {parent : ModulePath} {name : String}

/-! ## Looking up a module -/

theorem path_of_module? {module : Module} (h : table.module? path = some module) :
    module.path = path := by
  simpa using List.find?_some h

@[simp] theorem path_module (table : SymbolTable) (path : ModulePath) :
    (table.module path).path = path := by
  unfold SymbolTable.module
  cases h : table.module? path with
  | none => rfl
  | some module => exact path_of_module? h

theorem module?_modify (change : Module → Module) (h : ∀ m, m.path = path → (change m).path = path) :
    (table.modify path change).module? p =
      if p = path then (table.module? p).map change else table.module? p := by
  have hf : ((fun m : Module => decide (m.path = p)) ∘ fun m => if m.path = path then change m else m)
      = fun m => decide (m.path = p) := by
    funext m
    dsimp only [Function.comp_apply]
    split
    next hm => rw [h m hm, hm]
    next => rfl
  rw [module?, modify, List.find?_map, hf]
  change Option.map _ (table.module? p) = _
  cases hm : table.module? p with
  | none => split <;> rfl
  | some m =>
    have hpath := path_of_module? hm
    split <;> simp_all

theorem contains_modify (change : Module → Module)
    (h : ∀ m, m.path = path → (change m).path = path) :
    (table.modify path change).contains p = table.contains p := by
  rw [contains, contains, module?_modify change h]
  split
  · exact Option.isSome_map
  · rfl

theorem module_modify (change : Module → Module)
    (h : ∀ m, m.path = path → (change m).path = path) :
    (table.modify path change).module p =
      if p = path ∧ table.contains p then change (table.module p) else table.module p := by
  unfold SymbolTable.module
  rw [module?_modify change h, contains]
  by_cases hp : p = path
  · cases table.module? p <;> simp [hp]
  · simp [hp]

@[simp] theorem module_empty (path : ModulePath) : empty.module path = .empty path := by
  by_cases hp : ([] : ModulePath) = path <;>
    simp [SymbolTable.module, module?, empty, Module.empty, hp]

/-! ## Adding a module -/

theorem of_addModule (h : table.addModule parent name = .ok extended) :
    ¬table.contains (parent ++ [name]) ∧
      extended = ⟨table.modules ++ [.empty (parent ++ [name])]⟩ := by
  unfold addModule at h
  split at h
  · cases h
  next hc =>
    cases h
    exact ⟨hc, rfl⟩

theorem contains_addModule (h : table.addModule parent name = .ok extended) :
    extended.contains p ↔ table.contains p ∨ p = parent ++ [name] := by
  obtain ⟨-, rfl⟩ := of_addModule h
  simp only [contains, module?, List.find?_append, Option.isSome_or, Bool.or_eq_true]
  refine or_congr_right ?_
  by_cases hp : p = parent ++ [name]
  · simp [hp, Module.empty]
  · simp [Ne.symm hp, Module.empty, hp]

@[simp] theorem module_addModule (h : table.addModule parent name = .ok extended) :
    extended.module p = table.module p := by
  obtain ⟨hc, rfl⟩ := of_addModule h
  unfold SymbolTable.module
  have hm : (SymbolTable.mk (table.modules ++ [.empty (parent ++ [name])])).module? p =
      (table.module? p).or ([Module.empty (parent ++ [name])].find? (·.path = p)) :=
    List.find?_append
  rw [hm]
  cases ht : table.module? p with
  | some module => rfl
  | none =>
    by_cases hp : p = parent ++ [name]
    · simp [hp, Module.empty]
    · simp [Ne.symm hp, Module.empty]

/-! ## Adding a variable -/

/-- A module declares a global variable. -/
def HasGlobal (table : SymbolTable) (path : ModulePath) (name : String) : Prop :=
  ((table.module path).global? name).isSome

theorem not_hasGlobal_empty : ¬empty.HasGlobal path name := by
  simp [HasGlobal, Module.empty, Module.global?]

theorem of_addVariable {v : Variable} (h : table.addVariable path v = .ok extended) :
    ¬table.HasGlobal path v.name ∧ extended = table.modify path fun module =>
      { module with globals := module.globals ++ [v] } := by
  unfold addVariable at h
  split at h
  · cases h
  next hc =>
    cases h
    exact ⟨hc, rfl⟩

theorem contains_addVariable {v : Variable} (h : table.addVariable path v = .ok extended) :
    extended.contains p = table.contains p := by
  rw [(of_addVariable h).2]
  exact contains_modify _ fun _ hm => hm

theorem module_addVariable {v : Variable} (h : table.addVariable path v = .ok extended) :
    extended.module p = if p = path ∧ table.contains p then
      { table.module p with globals := (table.module p).globals ++ [v] } else table.module p := by
  rw [(of_addVariable h).2]
  exact module_modify _ fun _ hm => hm

theorem global?_addVariable {v : Variable} (h : table.addVariable path v = .ok extended) :
    (extended.module p).global? name =
      if p = path ∧ name = v.name ∧ table.contains path then some v
      else (table.module p).global? name := by
  rw [module_addVariable h]
  by_cases hp : p = path ∧ table.contains p
  · obtain ⟨rfl, hc⟩ := hp
    rw [if_pos ⟨rfl, hc⟩, Module.global?, List.find?_append]
    by_cases hn : name = v.name
    · have hf : (table.module p).global? v.name = none :=
        Option.not_isSome_iff_eq_none.1 (of_addVariable h).1
      rw [hn, if_pos ⟨rfl, rfl, hc⟩]
      change ((table.module p).global? v.name).or _ = _
      simp [hf]
    · rw [if_neg fun ho => hn ho.2.1]
      change ((table.module p).global? name).or _ = _
      simp [Ne.symm hn]
  · rw [if_neg hp, if_neg]
    rintro ⟨rfl, -, hc⟩
    exact hp ⟨rfl, hc⟩

theorem hasGlobal_addVariable {v : Variable} (h : table.addVariable path v = .ok extended) :
    extended.HasGlobal p name ↔
      table.HasGlobal p name ∨ (p = path ∧ name = v.name ∧ table.contains path) := by
  rw [HasGlobal, global?_addVariable h, HasGlobal]
  split
  next ho => simp [ho]
  next ho => simp [ho]

/-! ## Adding a function -/

theorem of_addFunction {definition : FunctionDefinition}
    (h : table.addFunction path definition = .ok extended) :
    ¬((table.module path).definitions definition.name).any
        (·.parameterTypes = definition.parameterTypes) ∧
      extended = table.modify path fun _ => { table.module path with
        functions := Module.insertOverload definition (table.module path).functions } := by
  unfold addFunction at h
  obtain ⟨m, hm, rfl⟩ := Except.map_eq_ok.1 h
  unfold Module.addFunction at hm
  split at hm
  · cases hm
  next hc =>
    cases hm
    exact ⟨hc, rfl⟩

theorem contains_addFunction {definition : FunctionDefinition}
    (h : table.addFunction path definition = .ok extended) :
    extended.contains p = table.contains p := by
  rw [(of_addFunction h).2]
  exact contains_modify _ fun _ _ => path_module table path

theorem module_addFunction {definition : FunctionDefinition}
    (h : table.addFunction path definition = .ok extended) :
    extended.module p = if p = path ∧ table.contains p then
      { table.module path with
        functions := Module.insertOverload definition (table.module path).functions }
      else table.module p := by
  rw [(of_addFunction h).2]
  exact module_modify _ fun _ _ => path_module table path

theorem global?_addFunction {definition : FunctionDefinition}
    (h : table.addFunction path definition = .ok extended) :
    (extended.module p).global? name = (table.module p).global? name := by
  rw [module_addFunction h]
  split
  next hp =>
    rw [hp.1]
    rfl
  next => rfl

theorem hasGlobal_addFunction {definition : FunctionDefinition}
    (h : table.addFunction path definition = .ok extended) :
    extended.HasGlobal p name ↔ table.HasGlobal p name := by
  rw [HasGlobal, global?_addFunction h, HasGlobal]

end SymbolTable

namespace Module

/-- What follows a name in the groups of overloads. -/
theorem definitions_insertOverload (definition : FunctionDefinition) (functions : List Overloads)
    (name : String) :
    (((insertOverload definition functions).filter (·.name = name)).flatMap (·.definitions)).Perm
      ((functions.filter (·.name = name)).flatMap (·.definitions) ++
        if definition.name = name then [definition] else []) := by
  induction functions with
  | nil => by_cases h : definition.name = name <;> simp [insertOverload, h]
  | cons group rest ih =>
    unfold insertOverload
    by_cases hn : group.name = name
    · split
      next hg =>
        have hd : definition.name = name := hg.1.symm.trans hn
        simp only [List.filter_cons, hn, hd, decide_true, if_true, List.flatMap_cons,
          List.append_assoc]
        exact List.Perm.append_left _ List.perm_append_comm
      next hg =>
        simp only [List.filter_cons, hn, decide_true, if_true, List.flatMap_cons, List.append_assoc]
        exact List.Perm.append_left _ ih
    · split
      next hg =>
        have hd : ¬definition.name = name := fun hd => hn (hg.1.trans hd)
        simp [hn, hd]
      next hg => simpa [List.filter_cons, hn] using ih

end Module

namespace SymbolTable

variable {table extended : SymbolTable} {path p : ModulePath} {name : String}
  {definition other : FunctionDefinition}

/-- A module has its functions and the one that is added to it. -/
theorem definitions_addFunction (h : table.addFunction path definition = .ok extended)
    (hc : table.contains path) :
    ((extended.module path).definitions name).Perm ((table.module path).definitions name ++
      if definition.name = name then [definition] else []) := by
  rw [module_addFunction h, if_pos ⟨rfl, hc⟩]
  exact Module.definitions_insertOverload definition _ name

theorem definitions_addFunction_of_ne (h : table.addFunction path definition = .ok extended)
    (hp : ¬(p = path ∧ table.contains path)) :
    (extended.module p).definitions name = (table.module p).definitions name := by
  have hn : ¬(p = path ∧ table.contains p) := by
    rintro ⟨rfl, hc⟩
    exact hp ⟨rfl, hc⟩
  rw [module_addFunction h, if_neg hn]

theorem mem_definitions_addFunction (h : table.addFunction path definition = .ok extended) :
    other ∈ (extended.module p).definitions name ↔
      other ∈ (table.module p).definitions name ∨
        (p = path ∧ table.contains path) ∧ definition.name = name ∧ other = definition := by
  by_cases hp : p = path ∧ table.contains path
  · obtain ⟨rfl, hc⟩ := hp
    rw [(definitions_addFunction h hc).mem_iff, List.mem_append]
    by_cases hn : definition.name = name <;> simp [hn, hc]
  · rw [definitions_addFunction_of_ne h hp]
    simp [hp]

theorem definitions_addVariable {v : Variable} (h : table.addVariable path v = .ok extended) :
    (extended.module p).definitions name = (table.module p).definitions name := by
  rw [module_addVariable h]
  split <;> rfl

end SymbolTable

/-! ## Other bodies and other variables -/

/-- A function that runs something else. -/
def FunctionDefinition.mapBody (body : FunctionBody → FunctionBody)
    (definition : FunctionDefinition) : FunctionDefinition :=
  { definition with body := body definition.body }

/-- Functions of one name and return type that run something else. -/
def Overloads.mapBody (body : FunctionBody → FunctionBody) (overloads : Overloads) : Overloads :=
  { overloads with definitions := overloads.definitions.map (·.mapBody body) }

namespace Module

variable {globals : List Variable → List Variable} {body : FunctionBody → FunctionBody}

/-- A module with other variables, whose functions run something else. -/
def mapParts (globals : List Variable → List Variable) (body : FunctionBody → FunctionBody)
    (module : Module) : Module :=
  ⟨module.path, globals module.globals, module.functions.map (·.mapBody body)⟩

theorem definitions_mapParts (module : Module) (name : String) :
    (module.mapParts globals body).definitions name =
      (module.definitions name).map (·.mapBody body) := by
  simp only [definitions, mapParts, List.filter_map, List.flatMap_map, List.map_flatMap]
  rfl

theorem insertOverload_mapBody (definition : FunctionDefinition) (functions : List Overloads) :
    insertOverload (definition.mapBody body) (functions.map (·.mapBody body)) =
      (insertOverload definition functions).map (·.mapBody body) := by
  induction functions with
  | nil => rfl
  | cons group rest ih =>
    simp only [List.map_cons, insertOverload]
    by_cases hg : group.name = definition.name ∧ group.returnType = definition.returnType
    · simp [hg, Overloads.mapBody, FunctionDefinition.mapBody]
    · have hb : ¬((group.mapBody body).name = (definition.mapBody body).name ∧
        (group.mapBody body).returnType = (definition.mapBody body).returnType) := hg
      rw [if_neg hg, if_neg hb, ih, List.map_cons]

theorem addFunction_mapParts (module : Module) (definition : FunctionDefinition) :
    (module.mapParts globals body).addFunction (definition.mapBody body) =
      (module.addFunction definition).map (mapParts globals body) := by
  unfold addFunction
  rw [show (definition.mapBody body).name = definition.name from rfl, definitions_mapParts,
    List.any_map]
  change (if ((module.definitions definition.name).any
    (·.parameterTypes = definition.parameterTypes)) = true then _ else _) = _
  split
  · rfl
  · simp only [Except.map, mapParts, insertOverload_mapBody]

end Module

namespace SymbolTable

variable {globals : List Variable → List Variable} {body : FunctionBody → FunctionBody}
  {p : ModulePath}

/-- The modules of a table with other variables, their functions with other bodies. -/
def mapParts (globals : List Variable → List Variable) (body : FunctionBody → FunctionBody)
    (table : SymbolTable) : SymbolTable := ⟨table.modules.map (·.mapParts globals body)⟩

theorem module?_mapParts (table : SymbolTable) :
    (table.mapParts globals body).module? p =
      (table.module? p).map (Module.mapParts globals body) := by
  rw [module?, mapParts, List.find?_map]
  rfl

theorem contains_mapParts (table : SymbolTable) :
    (table.mapParts globals body).contains p = table.contains p := by
  rw [contains, module?_mapParts, Option.isSome_map, contains]

theorem module_mapParts (hg : globals [] = []) (table : SymbolTable) :
    (table.mapParts globals body).module p = (table.module p).mapParts globals body := by
  unfold SymbolTable.module
  rw [module?_mapParts]
  cases table.module? p with
  | none => simp [Module.empty, Module.mapParts, hg]
  | some module => rfl

theorem addModule_mapParts (hg : globals [] = []) (table : SymbolTable) (parent : ModulePath)
    (name : String) : (table.mapParts globals body).addModule parent name =
      (table.addModule parent name).map (mapParts globals body) := by
  unfold addModule
  rw [contains_mapParts]
  split
  · rfl
  · simp [Except.map, mapParts, Module.mapParts, Module.empty, hg]

/-- Changing the module at a path commutes with a change of all parts, if both changes do. -/
theorem modify_mapParts {table : SymbolTable} {path : ModulePath} {change other : Module → Module}
    (h : ∀ module : Module,
      other (module.mapParts globals body) = (change module).mapParts globals body) :
    (table.mapParts globals body).modify path other =
      (table.modify path change).mapParts globals body := by
  rw [modify, mapParts, modify, mapParts, SymbolTable.mk.injEq, List.map_map, List.map_map]
  refine List.map_congr_left fun module _ => ?_
  dsimp only [Function.comp_apply]
  rw [apply_ite (Module.mapParts globals body), h]
  rfl

theorem addFunction_mapParts (hg : globals [] = []) (table : SymbolTable) (path : ModulePath)
    (definition : FunctionDefinition) :
    (table.mapParts globals body).addFunction path (definition.mapBody body) =
      (table.addFunction path definition).map (mapParts globals body) := by
  unfold addFunction
  rw [module_mapParts hg, Module.addFunction_mapParts]
  cases (table.module path).addFunction definition with
  | error conflict => rfl
  | ok extended => exact congrArg Except.ok (modify_mapParts fun _ => rfl)

end SymbolTable

/-! ## Signatures -/

namespace FunctionDefinition

/-- A function apart from what it runs. -/
def bodiless (definition : FunctionDefinition) : FunctionDefinition :=
  { definition with body := .interpreted [] }

variable (definition : FunctionDefinition)

@[simp] theorem name_bodiless : definition.bodiless.name = definition.name := rfl

@[simp] theorem returnType_bodiless : definition.bodiless.returnType = definition.returnType := rfl

@[simp] theorem parameterTypes_bodiless :
    definition.bodiless.parameterTypes = definition.parameterTypes := rfl

@[simp] theorem accepts_bodiless (arguments : List Datatype) :
    definition.bodiless.accepts arguments = definition.accepts arguments := rfl

end FunctionDefinition

/-- Functions of one name and return type apart from what they run. -/
def Overloads.bodiless (overloads : Overloads) : Overloads :=
  { overloads with definitions := overloads.definitions.map FunctionDefinition.bodiless }

namespace Module

/-- A module's functions apart from what they run, without its variables. -/
def skeleton (module : Module) : Module :=
  ⟨module.path, [], module.functions.map Overloads.bodiless⟩

theorem skeleton_eq (module : Module) :
    module.skeleton = module.mapParts (fun _ => []) fun _ => .interpreted [] := rfl

theorem definitions_skeleton (module : Module) (name : String) :
    module.skeleton.definitions name = (module.definitions name).map .bodiless := by
  rw [skeleton_eq]
  exact module.definitions_mapParts name

end Module

namespace SymbolTable

/-- The modules of a table and their functions apart from what they run. -/
def skeleton (table : SymbolTable) : SymbolTable := ⟨table.modules.map Module.skeleton⟩

variable {table extended other : SymbolTable} {path p : ModulePath} {parent : ModulePath}
  {name : String}

theorem skeleton_eq (table : SymbolTable) :
    table.skeleton = table.mapParts (fun _ => []) fun _ => .interpreted [] := rfl

@[simp] theorem contains_skeleton : table.skeleton.contains p = table.contains p := by
  rw [skeleton_eq, contains_mapParts]

@[simp] theorem module_skeleton : table.skeleton.module p = (table.module p).skeleton := by
  rw [skeleton_eq]
  exact module_mapParts rfl table

theorem addModule_skeleton (table : SymbolTable) (parent : ModulePath) (name : String) :
    table.skeleton.addModule parent name = (table.addModule parent name).map skeleton := by
  rw [skeleton_eq]
  exact addModule_mapParts rfl table parent name

theorem skeleton_addVariable {v : Variable} (h : table.addVariable path v = .ok extended) :
    extended.skeleton = table.skeleton := by
  rw [(of_addVariable h).2, skeleton, modify, List.map_map, skeleton]
  congr 1
  refine List.map_congr_left fun m _ => ?_
  dsimp only [Function.comp_apply]
  split <;> rfl

theorem addFunction_skeleton (table : SymbolTable) (path : ModulePath)
    (definition : FunctionDefinition) :
    table.skeleton.addFunction path definition.bodiless =
      (table.addFunction path definition).map skeleton := by
  rw [skeleton_eq]
  exact addFunction_mapParts rfl table path definition

end SymbolTable

end MuLang
