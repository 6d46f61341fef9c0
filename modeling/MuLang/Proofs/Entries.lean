import Mathlib.Data.List.Nodup
import MuLang.Proofs.Table

/-!
# Tables from entries

A symbol table is filled by a list of entries, each of which adds a module, a function or a global
variable. They can all be added exactly if no two of them have the same key, and then every module
holds what the entries add to it, in their order.
-/
namespace MuLang

/-- Something that is added to a symbol table. -/
inductive Entry where
  | module (parent : ModulePath) (name : String)
  | function (path : ModulePath) (definition : FunctionDefinition)
  | global (path : ModulePath) (v : Variable)

namespace Entry

/-- What no two entries of a table share, each inside the module that it is added to: the name of a
submodule, the name and the parameter types of a function, the name of a global. -/
inductive Key where
  | module (parent : ModulePath) (name : String)
  | function (path : ModulePath) (name : String) (parameters : List Datatype)
  | global (path : ModulePath) (name : String)
  deriving DecidableEq

def key : Entry → Key
  | .module parent name => .module parent name
  | .function path definition => .function path definition.name definition.parameterTypes
  | .global path v => .global path v.name

/-- The table with one more entry. -/
def add (table : SymbolTable) : Entry → Except Conflict SymbolTable
  | .module parent name => table.addModule parent name
  | .function path definition => table.addFunction path definition
  | .global path v => table.addVariable path v

/-- The table with some more entries, added one after the other. -/
def addAll (table : SymbolTable) : List Entry → Except Conflict SymbolTable
  | [] => .ok table
  | entry :: rest => (add table entry).bind (addAll · rest)

/-- The module that an entry adds. -/
def module? : Entry → Option ModulePath
  | .module parent name => some (parent ++ [name])
  | _ => none

/-- The global that an entry adds to a module. -/
def globalIn? (path : ModulePath) : Entry → Option Variable
  | .global p v => if p = path then some v else none
  | _ => none

/-- The function that an entry adds to a module. -/
def functionIn? (path : ModulePath) : Entry → Option FunctionDefinition
  | .function p definition => if p = path then some definition else none
  | _ => none

/-- A module with what some entries add to it. Functions are grouped by their name and return
type. -/
def fill (entries : List Entry) (module : Module) : Module where
  path := module.path
  globals := module.globals ++ entries.filterMap (globalIn? module.path)
  functions := (entries.filterMap (functionIn? module.path)).foldl
    (fun groups definition => Module.insertOverload definition groups) module.functions

/-- Every entry belongs to a module that is there by then. -/
def Rooted (paths : List ModulePath) : List Entry → Prop
  | [] => True
  | .module parent name :: rest => Rooted (paths ++ [parent ++ [name]]) rest
  | .function path _ :: rest => path ∈ paths ∧ Rooted paths rest
  | .global path _ :: rest => path ∈ paths ∧ Rooted paths rest

end Entry

namespace SymbolTable

/-- The paths of the modules of a table. -/
def paths (table : SymbolTable) : List ModulePath := table.modules.map (·.path)

/-- A table with some more entries: the modules that they add stand behind those that are there, and
each module has what they add to it. -/
def extend (table : SymbolTable) (entries : List Entry) : SymbolTable :=
  ⟨(table.modules ++ (entries.filterMap Entry.module?).map Module.empty).map (Entry.fill entries)⟩

/-- A table has no entry of a key. -/
def Lacks (table : SymbolTable) : Entry.Key → Prop
  | .module parent name => ¬table.contains (parent ++ [name])
  | .function path name parameters =>
    ∀ definition ∈ (table.module path).definitions name, definition.parameterTypes ≠ parameters
  | .global path name => ¬table.HasGlobal path name

end SymbolTable

namespace Entry

variable {table extended : SymbolTable} {entry : Entry} {entries : List Entry}

/-! ## Filling modules -/

@[simp] theorem path_fill (entries : List Entry) (module : Module) :
    (fill entries module).path = module.path := rfl

@[simp] theorem fill_nil (module : Module) : fill [] module = module := by
  simp [fill]

theorem fill_append (first second : List Entry) (module : Module) :
    fill (first ++ second) module = fill second (fill first module) := by
  simp [fill, List.filterMap_append, List.foldl_append]

@[simp] theorem fill_module (parent : ModulePath) (name : String) (module : Module) :
    fill [.module parent name] module = module := by
  simp [fill, List.filterMap_cons, globalIn?, functionIn?]

theorem fill_global (path : ModulePath) (v : Variable) (module : Module) :
    fill [.global path v] module =
      if module.path = path then { module with globals := module.globals ++ [v] } else module := by
  by_cases hp : module.path = path
  · simp [fill, List.filterMap_cons, globalIn?, functionIn?, hp]
  · simp [fill, List.filterMap_cons, globalIn?, functionIn?, hp, Ne.symm hp]

theorem fill_function (path : ModulePath) (definition : FunctionDefinition) (module : Module) :
    fill [.function path definition] module =
      if module.path = path then
        { module with functions := Module.insertOverload definition module.functions }
      else module := by
  by_cases hp : module.path = path
  · simp [fill, List.filterMap_cons, globalIn?, functionIn?, hp]
  · simp [fill, List.filterMap_cons, globalIn?, functionIn?, hp, Ne.symm hp]

end Entry

namespace SymbolTable

open Entry

variable {table extended : SymbolTable} {entry : Entry} {entries : List Entry} {path : ModulePath}

theorem contains_iff : table.contains path ↔ path ∈ table.paths := by
  simp [contains, module?, paths]

@[simp] theorem extend_nil (table : SymbolTable) : table.extend [] = table := by
  have hf : fill [] = id := funext fill_nil
  simp [extend, hf]

/-- A module that is in a table once is the only one of its path. -/
theorem module_eq_of_mem {module : Module} (hn : table.paths.Nodup) (hm : module ∈ table.modules) :
    table.module module.path = module := by
  have hs : (table.module? module.path).isSome := contains_iff.2 (List.mem_map_of_mem hm)
  obtain ⟨found, hf⟩ := Option.isSome_iff_exists.1 hs
  have hpath : found.path = module.path := path_of_module? hf
  have hfound : found ∈ table.modules := List.mem_of_find?_eq_some hf
  obtain rfl : found = module := List.inj_on_of_nodup_map hn hfound hm hpath
  rw [SymbolTable.module, hf, Option.getD_some]

theorem paths_extend (table : SymbolTable) (entries : List Entry) :
    (table.extend entries).paths = table.paths ++ entries.filterMap Entry.module? := by
  simp [extend, paths, Function.comp_def, Module.empty]

/-- One more entry changes the modules of its path alone. -/
theorem extend_singleton (h : ∀ parent name, entry ≠ .module parent name) :
    table.extend [entry] = ⟨table.modules.map (fill [entry])⟩ := by
  cases entry with
  | module parent name => exact absurd rfl (h parent name)
  | function | global => simp [extend, Entry.module?]

end SymbolTable

namespace SymbolTable

variable {table extended : SymbolTable} {path parent : ModulePath} {name : String}

/-! ## Adding one entry -/

theorem addModule_eq_ok : table.addModule parent name = .ok extended ↔
    table.Lacks (.module parent name) ∧
      extended = table.extend [.module parent name] := by
  have hf : Entry.fill [.module parent name] = id := funext (Entry.fill_module parent name)
  have he : table.extend [.module parent name] =
      ⟨table.modules ++ [.empty (parent ++ [name])]⟩ := by
    simp [extend, Entry.module?, hf]
  rw [he]
  refine ⟨of_addModule, ?_⟩
  rintro ⟨hl, rfl⟩
  exact if_neg hl

theorem addVariable_eq_ok {v : Variable} : table.addVariable path v = .ok extended ↔
    table.Lacks (.global path v.name) ∧ extended = table.extend [.global path v] := by
  have he : table.extend [.global path v] = table.modify path fun module =>
      { module with globals := module.globals ++ [v] } := by
    rw [extend_singleton (by simp), SymbolTable.modify]
    exact congrArg SymbolTable.mk (List.map_congr_left fun module _ =>
      Entry.fill_global path v module)
  rw [he]
  refine ⟨of_addVariable, ?_⟩
  rintro ⟨hl, rfl⟩
  exact if_neg hl

theorem addFunction_eq_ok {definition : FunctionDefinition} (hn : table.paths.Nodup) :
    table.addFunction path definition = .ok extended ↔
      table.Lacks (.function path definition.name definition.parameterTypes) ∧
        extended = table.extend [.function path definition] := by
  have he : table.extend [.function path definition] = table.modify path fun _ =>
      { table.module path with
        functions := Module.insertOverload definition (table.module path).functions } := by
    rw [extend_singleton (by simp), SymbolTable.modify]
    congr 1
    refine List.map_congr_left fun module hm => ?_
    rw [Entry.fill_function]
    split
    next hp => rw [← hp, module_eq_of_mem hn hm]
    next => rfl
  have hl : table.Lacks (.function path definition.name definition.parameterTypes) ↔
      ¬((table.module path).definitions definition.name).any
        (·.parameterTypes = definition.parameterTypes) := by
    simp [Lacks]
  rw [he, hl]
  refine ⟨of_addFunction, ?_⟩
  rintro ⟨hl, rfl⟩
  rw [addFunction, Module.addFunction, if_neg hl]
  rfl

end SymbolTable

namespace Entry

open SymbolTable

variable {table extended : SymbolTable} {entry : Entry} {entries : List Entry}

/-- An entry can be added if its key is new, and then it stands where it belongs. -/
theorem add_eq_ok (hn : table.paths.Nodup) :
    add table entry = .ok extended ↔ table.Lacks entry.key ∧ extended = table.extend [entry] := by
  cases entry with
  | module => exact addModule_eq_ok
  | function => exact addFunction_eq_ok hn
  | global => exact addVariable_eq_ok

/-- Where the module of an entry is there, it adds its own key and no other. -/
theorem lacks_of_add {k : Key} (hr : Rooted table.paths [entry]) (h : add table entry = .ok extended) :
    extended.Lacks k ↔ table.Lacks k ∧ k ≠ entry.key := by
  cases entry with
  | module parent name =>
    cases k with
    | module other last => simp [Lacks, key, contains_addModule h]
    | function => simp [Lacks, key, module_addModule h]
    | global => simp [Lacks, key, HasGlobal, module_addModule h]
  | function path definition =>
    have hc : table.contains path := contains_iff.2 hr.1
    cases k with
    | module => simp [Lacks, key, contains_addFunction h]
    | function p name parameters =>
      simp only [Lacks, key, mem_definitions_addFunction h, hc, and_true, ne_eq, Key.function.injEq]
      grind
    | global => simp [Lacks, key, hasGlobal_addFunction h]
  | global path v =>
    have hc : table.contains path := contains_iff.2 hr.1
    cases k with
    | module => simp [Lacks, key, contains_addVariable h]
    | function => simp [Lacks, key, definitions_addVariable h]
    | global p name => simp [Lacks, key, hasGlobal_addVariable h, hc]

theorem rooted_cons (paths : List ModulePath) (entry : Entry) (rest : List Entry) :
    Rooted paths (entry :: rest) ↔
      Rooted paths [entry] ∧ Rooted (paths ++ entry.module?.toList) rest := by
  cases entry <;> simp [Rooted, Entry.module?]

theorem Rooted.mono {paths more : List ModulePath} (hs : paths ⊆ more) (h : Rooted paths entries) :
    Rooted more entries := by
  induction entries generalizing paths more with
  | nil => trivial
  | cons entry rest ih =>
    cases entry with
    | module parent name =>
      exact ih (List.append_subset.2 ⟨List.subset_append_of_subset_left _ hs,
        List.subset_append_right _ _⟩) h
    | function => exact ⟨hs h.1, ih hs h.2⟩
    | global => exact ⟨hs h.1, ih hs h.2⟩

theorem Rooted.append {paths : List ModulePath} {others : List Entry} (h : Rooted paths entries)
    (ho : Rooted paths others) : Rooted paths (entries ++ others) := by
  induction entries generalizing paths with
  | nil => exact ho
  | cons entry rest ih =>
    cases entry with
    | module parent name => exact ih h (ho.mono (List.subset_append_left _ _))
    | function => exact ⟨h.1, ih h.2 ho⟩
    | global => exact ⟨h.1, ih h.2 ho⟩

/-! ## Adding many entries -/

@[simp] theorem addAll_singleton (table : SymbolTable) (entry : Entry) :
    addAll table [entry] = add table entry := by
  simp only [addAll]
  cases add table entry <;> rfl

theorem addAll_append (table : SymbolTable) (first second : List Entry) :
    addAll table (first ++ second) = (addAll table first).bind (addAll · second) := by
  induction first generalizing table with
  | nil => rfl
  | cons entry rest ih =>
    simp only [List.cons_append, addAll]
    cases add table entry with
    | error => rfl
    | ok extended => exact ih extended

theorem nodup_paths_of_add (hn : table.paths.Nodup) (h : add table entry = .ok extended) :
    extended.paths.Nodup := by
  obtain ⟨hl, rfl⟩ := (add_eq_ok hn).1 h
  rw [paths_extend]
  cases entry with
  | module parent name =>
    have hp : parent ++ [name] ∉ table.paths := fun hp => hl (contains_iff.2 hp)
    simpa [List.filterMap_cons, Entry.module?, ← List.concat_eq_append, List.nodup_concat] using
      And.intro hp hn
  | function => simpa [List.filterMap_cons, Entry.module?] using hn
  | global => simpa [List.filterMap_cons, Entry.module?] using hn

theorem nodup_paths_of_addAll (hn : table.paths.Nodup) (h : addAll table entries = .ok extended) :
    extended.paths.Nodup := by
  induction entries generalizing table with
  | nil =>
    cases h
    exact hn
  | cons entry rest ih =>
    obtain ⟨next, ha, hnext⟩ := Except.bind_eq_ok.1 h
    exact ih (nodup_paths_of_add hn ha) hnext

/-- A module that is added later gets nothing from an entry of a module that is there. -/
theorem fill_empty {p : ModulePath} (hr : Rooted table.paths [entry]) (hp : p ∉ table.paths) :
    fill [entry] (.empty p) = .empty p := by
  cases entry with
  | module parent name => exact fill_module parent name _
  | function path definition =>
    rw [fill_function, if_neg]
    rintro rfl
    exact hp hr.1
  | global path v =>
    rw [fill_global, if_neg]
    rintro rfl
    exact hp hr.1

/-- The first entry is in place before the others. -/
theorem extend_cons (hr : Rooted table.paths [entry])
    (hp : ∀ p ∈ entries.filterMap Entry.module?, p ∉ table.paths) :
    table.extend (entry :: entries) = (table.extend [entry]).extend entries := by
  have hfill : fill (entry :: entries) = fill entries ∘ fill [entry] :=
    funext (fill_append [entry] entries)
  have hlater : ((entries.filterMap Entry.module?).map Module.empty).map (fill [entry]) =
      (entries.filterMap Entry.module?).map Module.empty := by
    rw [List.map_map]
    exact List.map_congr_left fun p hm => fill_empty hr (hp p hm)
  have hmodules : (entry :: entries).filterMap Entry.module? =
      [entry].filterMap Entry.module? ++ entries.filterMap Entry.module? :=
    List.filterMap_append (l := [entry])
  simp only [extend, hfill, hmodules, List.map_append, ← List.append_assoc, ← List.map_map, hlater]

/-- Modules whose keys are new are new. -/
theorem not_mem_paths_of_lacks (h : ∀ entry ∈ entries, table.Lacks entry.key) :
    ∀ p ∈ entries.filterMap Entry.module?, p ∉ table.paths := by
  intro p hp hm
  obtain ⟨entry, he, hk⟩ := List.mem_filterMap.1 hp
  have hl := h entry he
  cases entry with
  | module parent name =>
    obtain rfl : parent ++ [name] = p := Option.some.inj hk
    exact hl (contains_iff.2 hm)
  | function => cases hk
  | global => cases hk

/-- Entries can be added one after the other exactly if the table has none of their keys and no two
of them share one. -/
theorem addAll_eq_ok (hn : table.paths.Nodup) (hr : Rooted table.paths entries) :
    addAll table entries = .ok extended ↔
      (∀ entry ∈ entries, table.Lacks entry.key) ∧ (entries.map key).Nodup ∧
        extended = table.extend entries := by
  induction entries generalizing table with
  | nil => simp [addAll, eq_comm]
  | cons entry rest ih =>
    obtain ⟨hentry, hrest⟩ := (rooted_cons _ _ _).1 hr
    have hpaths : Rooted (table.extend [entry]).paths rest := by
      rw [paths_extend]
      cases entry <;> exact hrest
    rw [List.forall_mem_cons, List.map_cons, List.nodup_cons]
    constructor
    · intro h
      obtain ⟨next, ha, hnext⟩ := Except.bind_eq_ok.1 h
      obtain ⟨hl, rfl⟩ := (add_eq_ok hn).1 ha
      obtain ⟨hlacks, hnodup, rfl⟩ := (ih (nodup_paths_of_add hn ha) hpaths).1 hnext
      have hnew (e : Entry) (he : e ∈ rest) : table.Lacks e.key ∧ e.key ≠ entry.key :=
        (lacks_of_add hentry ha).1 (hlacks e he)
      refine ⟨⟨hl, fun e he => (hnew e he).1⟩, ⟨?_, hnodup⟩, ?_⟩
      · rw [List.mem_map]
        rintro ⟨e, he, hk⟩
        exact (hnew e he).2 hk
      · exact (extend_cons hentry (not_mem_paths_of_lacks fun e he => (hnew e he).1)).symm
    · rintro ⟨⟨hl, hlacks⟩, ⟨hnew, hnodup⟩, rfl⟩
      have ha : add table entry = .ok (table.extend [entry]) := (add_eq_ok hn).2 ⟨hl, rfl⟩
      refine Except.bind_eq_ok.2 ⟨_, ha, (ih (nodup_paths_of_add hn ha) hpaths).2 ⟨?_, hnodup, ?_⟩⟩
      · intro e he
        refine (lacks_of_add hentry ha).2 ⟨hlacks e he, fun hk => hnew ?_⟩
        exact hk ▸ List.mem_map_of_mem he
      · exact extend_cons hentry (not_mem_paths_of_lacks hlacks)

end Entry

/-- A program's entries are added to the table of the root alone. -/
theorem Entry.addAll_empty {entries : List Entry} {symbols : SymbolTable}
    (hr : Rooted [[]] entries) :
    addAll .empty entries = .ok symbols ↔
      (entries.map key).Nodup ∧ symbols = SymbolTable.empty.extend entries := by
  have hp : SymbolTable.empty.paths = [[]] := rfl
  have hl (entry : Entry) : SymbolTable.empty.Lacks entry.key := by
    cases entry <;> simp [SymbolTable.Lacks, key, SymbolTable.contains_iff, hp, Module.empty,
      Module.definitions, SymbolTable.not_hasGlobal_empty]
  rw [addAll_eq_ok (by simp [hp]) (hp ▸ hr)]
  exact and_iff_right fun entry _ => hl entry

end MuLang
