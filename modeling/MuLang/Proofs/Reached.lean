import Mathlib.Logic.Function.Iterate
import MuLang.Proofs.Entries

/-!
# Tables that calls reach

A table starts with the root alone. Calls add a module, a function or a global variable to a module
that is there, and a call that fails leaves the table as it is. However many calls there are and
whichever of them fail, the modules stay a tree, and what each of them declares stays distinct.
-/
namespace MuLang

/-- The module that an entry is added to. -/
def Entry.owner : Entry → ModulePath
  | .module parent _ => parent
  | .function path _ => path
  | .global path _ => path

/-- A group has members, and its name and return type are theirs. -/
structure Overloads.Uniform (group : Overloads) : Prop where
  filled : group.definitions ≠ []
  name_eq : ∀ definition ∈ group.definitions, definition.name = group.name
  returnType_eq : ∀ definition ∈ group.definitions, definition.returnType = group.returnType

namespace Module

/-- The name and the return type by which the functions of a module are grouped. -/
def groupKeys (groups : List Overloads) : List (String × Datatype) :=
  groups.map fun group => (group.name, group.returnType)

/-- What a module declares is distinct: its globals by their names, its functions of one name by
their parameter types, and its groups of functions by their names and return types. -/
structure Regular (module : Module) : Prop where
  globals : (module.globals.map (·.name)).Nodup
  signatures : ∀ name, ((module.definitions name).map (·.parameterTypes)).Nodup
  groups : (groupKeys module.functions).Nodup
  uniform : ∀ group ∈ module.functions, group.Uniform

end Module

namespace SymbolTable

/-- The table after a call that adds an entry, which may fail. -/
def register (table : SymbolTable) (entry : Entry) : SymbolTable :=
  match entry.add table with
  | .ok extended => extended
  | .error _ => table

/-- The tables that calls reach. Each call addresses a module that is there. -/
inductive Reached : SymbolTable → Prop
  | start : Reached .empty
  | call {table : SymbolTable} {entry : Entry} : Reached table → table.contains entry.owner →
      Reached (table.register entry)

/-- The modules of a table are a tree around its root: of each path there is one, submodules of one
module differ in their names, every module but the root is listed once by its parent and by no other
module, and whoever goes from parent to parent stays inside the table and comes to the root. -/
structure Arboreal (table : SymbolTable) : Prop where
  distinct : table.paths.Nodup
  siblings : ∀ parent, ((table.submodules parent).map List.getLast?).Nodup
  listed : ∀ path ∈ table.paths, path ≠ [] →
    (table.submodules path.parent).count path = 1 ∧
      ∀ other, path ∈ table.submodules other → other = path.parent
  rooted : ∀ path ∈ table.paths, (∀ steps, ModulePath.parent^[steps] path ∈ table.paths) ∧
    ∃ steps, ModulePath.parent^[steps] path = []

variable {table extended : SymbolTable} {entry : Entry} {path : ModulePath}

theorem mem_submodules {parent : ModulePath} :
    path ∈ table.submodules parent ↔ path ∈ table.paths ∧ path ≠ [] ∧ path.parent = parent := by
  simp [submodules, paths]

/-- Of each path there is one module, and with a module those around it are there. -/
structure Grown (table : SymbolTable) : Prop where
  distinct : table.paths.Nodup
  parent : ∀ path ∈ table.paths, path.parent ∈ table.paths

theorem grown_empty : Grown .empty := ⟨by simp [paths, empty, Module.empty], by
  simp [paths, empty, Module.empty, ModulePath.parent]⟩

/-- A call adds the module of its entry inside the one that it addresses. -/
theorem Grown.add (h : table.Grown) (hc : table.contains entry.owner)
    (ha : entry.add table = .ok extended) : extended.Grown := by
  refine ⟨Entry.nodup_paths_of_add h.distinct ha, ?_⟩
  obtain ⟨-, rfl⟩ := (Entry.add_eq_ok h.distinct).1 ha
  intro p hp
  rw [paths_extend, List.mem_append] at hp ⊢
  obtain hp | hp := hp
  · exact .inl (h.parent p hp)
  · cases entry with
    | module parent name =>
      obtain rfl : p = parent ++ [name] := by simpa [Entry.module?] using hp
      refine .inl ?_
      rw [ModulePath.parent, List.dropLast_concat]
      exact contains_iff.1 hc
    | function | global => simp [Entry.module?] at hp

theorem length_iterate_parent (steps : Nat) (path : ModulePath) :
    (ModulePath.parent^[steps] path).length = path.length - steps := by
  induction steps with
  | zero => rfl
  | succ steps ih =>
    rw [Function.iterate_succ_apply', ModulePath.parent, List.length_dropLast, ih]
    omega

theorem Grown.arboreal (h : table.Grown) : table.Arboreal where
  distinct := h.distinct
  siblings parent := by
    refine List.Nodup.map_on ?_ (h.distinct.filter _)
    intro first hf second hs hn
    obtain ⟨-, hf, hp⟩ := mem_submodules.1 hf
    obtain ⟨-, hs, hq⟩ := mem_submodules.1 hs
    rw [List.getLast?_eq_getLast_of_ne_nil hf, List.getLast?_eq_getLast_of_ne_nil hs] at hn
    rw [← List.dropLast_append_getLast hf, ← List.dropLast_append_getLast hs, Option.some.inj hn]
    exact congrArg (· ++ _) (hp.trans hq.symm)
  listed path hp hn := by
    refine ⟨List.count_eq_one_of_mem (h.distinct.filter _) (mem_submodules.2 ⟨hp, hn, rfl⟩), ?_⟩
    intro other ho
    exact (mem_submodules.1 ho).2.2.symm
  rooted path hp := by
    refine ⟨fun steps => ?_, path.length, ?_⟩
    · induction steps with
      | zero => exact hp
      | succ steps ih =>
        rw [Function.iterate_succ_apply']
        exact h.parent _ ih
    · rw [← List.length_eq_zero_iff, length_iterate_parent, Nat.sub_self]

end SymbolTable

/-! ## What a module declares -/

namespace Module

variable {module : Module} {definition : FunctionDefinition} {groups : List Overloads}

theorem regular_empty (path : ModulePath) : (Module.empty path).Regular where
  globals := List.nodup_nil
  signatures _ := List.nodup_nil
  groups := List.nodup_nil
  uniform := nofun

theorem Regular.addGlobal (h : module.Regular) {v : Variable}
    (hv : ¬(module.global? v.name).isSome) :
    Regular { module with globals := module.globals ++ [v] } where
  globals := by
    have hn : v.name ∉ module.globals.map (·.name) := by
      simpa [global?, List.find?_eq_none] using hv
    rw [List.map_append, List.map_singleton, ← List.concat_eq_append]
    exact h.globals.concat hn
  signatures := h.signatures
  groups := h.groups
  uniform := h.uniform

/-- A function joins the group of its name and return type, or opens one behind the others. -/
theorem groupKeys_insertOverload (definition : FunctionDefinition) (groups : List Overloads) :
    groupKeys (insertOverload definition groups) =
      if (definition.name, definition.returnType) ∈ groupKeys groups then groupKeys groups
      else groupKeys groups ++ [(definition.name, definition.returnType)] := by
  induction groups with
  | nil => rfl
  | cons group rest ih =>
    rw [insertOverload]
    split
    next hk => simp [groupKeys, hk.1, hk.2]
    next hk =>
      have hne : (definition.name, definition.returnType) ≠ (group.name, group.returnType) :=
        fun he => hk ⟨(Prod.mk.inj he).1.symm, (Prod.mk.inj he).2.symm⟩
      change _ :: groupKeys (insertOverload definition rest) =
        if _ ∈ _ :: groupKeys rest then _ :: groupKeys rest else _ :: groupKeys rest ++ _
      simp only [ih, List.mem_cons, hne, false_or]
      split <;> rfl

theorem nodup_groupKeys_insertOverload (h : (groupKeys groups).Nodup) :
    (groupKeys (insertOverload definition groups)).Nodup := by
  rw [groupKeys_insertOverload]
  split
  next => exact h
  next hn =>
    rw [← List.concat_eq_append]
    exact h.concat hn

theorem uniform_insertOverload (h : ∀ group ∈ groups, group.Uniform) :
    ∀ group ∈ insertOverload definition groups, group.Uniform := by
  induction groups with
  | nil => simpa [insertOverload] using ⟨List.cons_ne_nil _ _, by simp, by simp⟩
  | cons first rest ih =>
    obtain ⟨hf, hr⟩ := List.forall_mem_cons.1 h
    rw [insertOverload]
    split
    next hk =>
      refine List.forall_mem_cons.2 ⟨⟨by simp, ?_, ?_⟩, hr⟩
      · exact List.forall_mem_append.2 ⟨hf.name_eq, by simpa using hk.1.symm⟩
      · exact List.forall_mem_append.2 ⟨hf.returnType_eq, by simpa using hk.2.symm⟩
    next => exact List.forall_mem_cons.2 ⟨hf, ih hr⟩

theorem Regular.addFunction (h : module.Regular)
    (hn : ∀ other ∈ module.definitions definition.name,
      other.parameterTypes ≠ definition.parameterTypes) :
    Regular { module with functions := insertOverload definition module.functions } where
  globals := h.globals
  signatures name := by
    have hp := (definitions_insertOverload definition module.functions name).map (·.parameterTypes)
    refine hp.nodup_iff.2 ?_
    split
    next he =>
      subst he
      rw [List.map_append, List.map_singleton, ← List.concat_eq_append]
      refine (h.signatures _).concat ?_
      simpa [definitions] using hn
    next =>
      rw [List.append_nil]
      exact h.signatures name
  groups := nodup_groupKeys_insertOverload h.groups
  uniform := uniform_insertOverload h.uniform

end Module

namespace SymbolTable

variable {table extended : SymbolTable} {entry : Entry} {path : ModulePath}

/-- A call leaves what the modules declare distinct. -/
theorem regular_add (hn : table.paths.Nodup) (h : ∀ module ∈ table.modules, module.Regular)
    (ha : entry.add table = .ok extended) : ∀ module ∈ extended.modules, module.Regular := by
  obtain ⟨hl, rfl⟩ := (Entry.add_eq_ok hn).1 ha
  cases entry with
  | module parent name =>
    simp only [extend, Entry.module?, List.filterMap_cons, List.filterMap_nil, List.map_append,
      List.map_cons, List.map_nil, List.forall_mem_append, List.forall_mem_map, Entry.fill_module]
    exact ⟨h, by simpa using Module.regular_empty _⟩
  | function path definition =>
    rw [extend_singleton (by simp)]
    refine List.forall_mem_map.2 fun module hm => ?_
    rw [Entry.fill_function]
    split
    next hp =>
      refine (h module hm).addFunction ?_
      have hmodule := module_eq_of_mem hn hm
      rw [hp] at hmodule
      simpa [Lacks, Entry.key, hmodule] using hl
    next => exact h module hm
  | global path v =>
    rw [extend_singleton (by simp)]
    refine List.forall_mem_map.2 fun module hm => ?_
    rw [Entry.fill_global]
    split
    next hp =>
      refine (h module hm).addGlobal ?_
      have hmodule := module_eq_of_mem hn hm
      rw [hp] at hmodule
      simpa [Lacks, Entry.key, HasGlobal, hmodule] using hl
    next => exact h module hm

/-- What every call keeps. -/
structure Sound (table : SymbolTable) : Prop extends Grown table where
  regular : ∀ module ∈ table.modules, module.Regular

theorem sound_empty : Sound .empty :=
  ⟨grown_empty, by simpa [empty] using Module.regular_empty []⟩

/-- A call that fails changes nothing, and one that succeeds keeps the table sound. -/
theorem Sound.register (h : table.Sound) (hc : table.contains entry.owner) :
    (table.register entry).Sound := by
  unfold SymbolTable.register
  split
  next extended ha => exact ⟨h.toGrown.add hc ha, regular_add h.distinct h.regular ha⟩
  next => exact h

theorem Reached.sound (h : table.Reached) : table.Sound := by
  induction h with
  | start => exact sound_empty
  | call _ hc ih => exact ih.register hc

/-! ## What a call changes -/

theorem module?_extend (entries : List Entry) (path : ModulePath) :
    (table.extend entries).module? path = ((table.module? path).or
      (if path ∈ entries.filterMap Entry.module? then some (.empty path) else none)).map
        (Entry.fill entries) := by
  have hpath : ((fun module : Module => decide (module.path = path)) ∘ Entry.fill entries) =
      fun module => decide (module.path = path) := rfl
  have hnew (paths : List ModulePath) : (paths.map Module.empty).find? (·.path = path) =
      if path ∈ paths then some (.empty path) else none := by
    induction paths with
    | nil => rfl
    | cons first rest ih =>
      rw [List.map_cons, List.find?_cons, ih]
      by_cases hf : first = path
      · simp [Module.empty, hf]
      · simp [Module.empty, hf, Ne.symm hf]
  rw [module?, extend, List.find?_map, hpath, List.find?_append, hnew, ← module?]

theorem fill_of_ne_owner (h : path ≠ entry.owner) {module : Module} (hp : module.path = path) :
    Entry.fill [entry] module = module := by
  cases entry with
  | module parent name => exact Entry.fill_module parent name module
  | function => exact (Entry.fill_function _ _ _).trans (if_neg (hp ▸ h))
  | global => exact (Entry.fill_global _ _ _).trans (if_neg (hp ▸ h))

/-- The module of an entry stands inside the one that the entry is added to, and in no other. -/
theorem filter_module? (entry : Entry) (path : ModulePath) :
    (entry.module?.toList.filter fun inner => inner ≠ [] ∧ ModulePath.parent inner = path) =
      if path = entry.owner then entry.module?.toList else [] := by
  cases entry with
  | module parent name =>
    have hparent : ModulePath.parent (parent ++ [name]) = parent := List.dropLast_concat
    by_cases hp : path = parent
    · simp [Entry.module?, Entry.owner, hparent, hp]
    · simp [Entry.module?, Entry.owner, hparent, hp, Ne.symm hp]
  | function | global => simp [Entry.module?]

/-- Submodules that are added stand behind those that their parent has. -/
theorem submodules_extend (entries : List Entry) (path : ModulePath) :
    (table.extend entries).submodules path = table.submodules path ++
      entries.flatMap fun entry => if path = entry.owner then entry.module?.toList else [] := by
  have hpaths : (table.extend entries).modules.map (·.path) =
      table.modules.map (·.path) ++ entries.filterMap Entry.module? := paths_extend table entries
  simp only [submodules, hpaths, List.filter_append, List.filterMap_eq_flatMap_toList,
    List.filter_flatMap, filter_module?]

/-- The calls that make a module `m` with a function `f` from nothing to `int`. -/
def withFunction : SymbolTable :=
  (empty.register (.module [] "m")).register
    (.function ["m"] ⟨"f", .plain .int, [], [], .interpreted []⟩)

end SymbolTable

end MuLang
