import MuLang.Proofs.Answers
import MuLang.Proofs.Reached

/-!
# Tables in another order

A table that is filled with entries of different keys holds the same in whatever order they are
added, and it answers alike.
-/
namespace MuLang

/-- Where nothing is ambiguous, what is found does not depend on the order. -/
theorem find?_of_perm {α β : Type} [DecidableEq β] (f : α → β) {xs ys : List α} (h : xs.Perm ys)
    (hn : (xs.map f).Nodup) (key : β) : xs.find? (f · = key) = ys.find? (f · = key) := by
  induction h with
  | nil => rfl
  | cons x _ ih => rw [List.find?_cons, List.find?_cons, ih (List.nodup_cons.1 hn).2]
  | swap x y rest =>
    have hne : f y ≠ f x := fun he => (List.nodup_cons.1 hn).1 (by simp [he])
    simp only [List.find?_cons]
    split <;> split <;> simp_all
  | trans h _ ih ih' => exact (ih hn).trans (ih' ((h.map f).nodup_iff.1 hn))

namespace Module

/-- All functions of a module. -/
def members (module : Module) : List FunctionDefinition := module.functions.flatMap (·.definitions)

variable {module : Module}

/-- The functions of a name are those among all that have it. -/
theorem Regular.definitions_eq (h : module.Regular) (name : String) :
    module.definitions name = module.members.filter (·.name = name) := by
  have hu := h.uniform
  unfold definitions members
  generalize module.functions = groups at hu
  induction groups with
  | nil => rfl
  | cons group rest ih =>
    obtain ⟨hg, hr⟩ := List.forall_mem_cons.1 hu
    rw [List.filter_cons, List.flatMap_cons, List.filter_append, ← ih hr]
    by_cases hn : group.name = name
    · have hall : group.definitions.filter (·.name = name) = group.definitions :=
        List.filter_eq_self.2 fun definition hd => by simp [hg.name_eq definition hd, hn]
      simp [hn, hall]
    · have hnone : group.definitions.filter (·.name = name) = [] :=
        List.filter_eq_nil_iff.2 fun definition hd => by simp [hg.name_eq definition hd, hn]
      simp [hn, hnone]

theorem members_insertOverload (definition : FunctionDefinition) (groups : List Overloads) :
    ((insertOverload definition groups).flatMap (·.definitions)).Perm
      (groups.flatMap (·.definitions) ++ [definition]) := by
  induction groups with
  | nil => rfl
  | cons group rest ih =>
    rw [insertOverload]
    split
    · simp only [List.flatMap_cons, List.append_assoc]
      exact List.Perm.append_left _ List.perm_append_comm
    · simp only [List.flatMap_cons, List.append_assoc]
      exact List.Perm.append_left _ ih

end Module

/-- A module holds the functions that it had and those that are added. -/
theorem Entry.members_fill (entries : List Entry) (module : Module) : (fill entries module).members.Perm
    (module.members ++ entries.filterMap (functionIn? module.path)) := by
  unfold fill Module.members
  dsimp only
  generalize entries.filterMap (functionIn? module.path) = added, module.functions = groups
  induction added generalizing groups with
  | nil => simp
  | cons definition rest ih =>
    refine (ih _).trans (((Module.members_insertOverload definition groups).append_right _).trans ?_)
    rw [List.append_assoc, List.singleton_append]

namespace SymbolTable

/-- Two tables hold the same modules, and in each of them the same variables and functions, whatever
their order. -/
structure Rearranges (table other : SymbolTable) : Prop where
  paths : table.paths.Perm other.paths
  globals : ∀ path, (table.module path).globals.Perm (other.module path).globals
  members : ∀ path, (table.module path).members.Perm (other.module path).members

/-- A table where no name or signature stands for two things. -/
structure Unambiguous (table : SymbolTable) : Prop where
  distinct : table.paths.Nodup
  regular : ∀ module ∈ table.modules, module.Regular

/-- The table with some more entries, but for those that cannot be added. -/
def registerAll (table : SymbolTable) (entries : List Entry) : SymbolTable :=
  entries.foldl register table

variable {table other third : SymbolTable} {entry : Entry} {entries others : List Entry}
  {path : ModulePath} {key : Entry.Key}

/-! ## The same in another order -/

namespace Rearranges

theorem refl (table : SymbolTable) : table.Rearranges table :=
  ⟨.rfl, fun _ => .rfl, fun _ => .rfl⟩

theorem trans (h : table.Rearranges other) (ho : other.Rearranges third) :
    table.Rearranges third :=
  ⟨h.paths.trans ho.paths, fun path => (h.globals path).trans (ho.globals path),
    fun path => (h.members path).trans (ho.members path)⟩

end Rearranges

theorem module_of_not_mem (h : path ∉ table.paths) : table.module path = .empty path := by
  rw [SymbolTable.module, Option.not_isSome_iff_eq_none.1 fun hs => h (contains_iff.1 hs),
    Option.getD_none]

/-- A module that is there afterwards has what the entries add to it. -/
theorem module_extend (h : path ∈ (table.extend entries).paths) :
    (table.extend entries).module path = Entry.fill entries (table.module path) := by
  rw [paths_extend, List.mem_append, ← contains_iff, contains] at h
  rw [SymbolTable.module, module?_extend, SymbolTable.module]
  cases hm : table.module? path with
  | some module => rfl
  | none =>
    rw [hm] at h
    rw [if_pos (by simpa using h)]
    rfl

/-- The order of what is added does not matter. -/
theorem Rearranges.extend (h : table.Rearranges other) (hp : entries.Perm others) :
    (table.extend entries).Rearranges (other.extend others) := by
  have hpaths : (table.extend entries).paths.Perm (other.extend others).paths := by
    rw [paths_extend, paths_extend]
    exact h.paths.append (hp.filterMap _)
  refine ⟨hpaths, fun path => ?_, fun path => ?_⟩
  · by_cases hm : path ∈ (table.extend entries).paths
    · rw [module_extend hm, module_extend (hpaths.mem_iff.1 hm)]
      simp only [Entry.fill, path_module]
      exact (h.globals path).append (hp.filterMap _)
    · rw [module_of_not_mem hm, module_of_not_mem fun ho => hm (hpaths.mem_iff.2 ho)]
  · by_cases hm : path ∈ (table.extend entries).paths
    · rw [module_extend hm, module_extend (hpaths.mem_iff.1 hm)]
      refine (Entry.members_fill _ _).trans (.trans ?_ (Entry.members_fill _ _).symm)
      simp only [path_module]
      exact (h.members path).append (hp.filterMap _)
    · rw [module_of_not_mem hm, module_of_not_mem fun ho => hm (hpaths.mem_iff.2 ho)]

/-! ## Tables that are not ambiguous -/

theorem unambiguous_empty : Unambiguous .empty := ⟨sound_empty.distinct, sound_empty.regular⟩

theorem Unambiguous.module (h : table.Unambiguous) (path : ModulePath) :
    (table.module path).Regular := by
  unfold SymbolTable.module
  cases hm : table.module? path with
  | none => exact Module.regular_empty path
  | some module => exact h.regular module (List.mem_of_find?_eq_some hm)

/-- An entry is added if its key is new. -/
theorem register_of_lacks (hn : table.paths.Nodup) (h : table.Lacks entry.key) :
    table.register entry = table.extend [entry] := by
  rw [register, (Entry.add_eq_ok hn).2 ⟨h, rfl⟩]

theorem register_of_not_lacks (hn : table.paths.Nodup) (h : ¬table.Lacks entry.key) :
    table.register entry = table := by
  unfold register
  split
  next ha => exact absurd ((Entry.add_eq_ok hn).1 ha).1 h
  next => rfl

theorem Unambiguous.register (h : table.Unambiguous) (entry : Entry) :
    (table.register entry).Unambiguous := by
  unfold SymbolTable.register
  split
  next ha => exact ⟨Entry.nodup_paths_of_add h.distinct ha, regular_add h.distinct h.regular ha⟩
  next => exact h

theorem Unambiguous.registerAll (h : table.Unambiguous) (entries : List Entry) :
    (table.registerAll entries).Unambiguous := by
  induction entries generalizing table with
  | nil => exact h
  | cons entry rest ih => exact ih (h.register entry)

theorem Rearranges.definitions (h : table.Rearranges other) (ht : table.Unambiguous)
    (ho : other.Unambiguous) (path : ModulePath) (name : String) :
    ((table.module path).definitions name).Perm ((other.module path).definitions name) := by
  rw [(ht.module path).definitions_eq, (ho.module path).definitions_eq]
  exact (h.members path).filter _

theorem Rearranges.contains_eq (h : table.Rearranges other) (path : ModulePath) :
    table.contains path = other.contains path := by
  rw [Bool.eq_iff_iff, contains_iff, contains_iff, h.paths.mem_iff]

theorem Rearranges.global?_eq (h : table.Rearranges other) (ht : table.Unambiguous)
    (path : ModulePath) (name : String) :
    (table.module path).global? name = (other.module path).global? name :=
  find?_of_perm Variable.name (h.globals path) (ht.module path).globals name

/-- Where nothing is ambiguous the order does not matter. -/
theorem Rearranges.answers (h : table.Rearranges other) (ht : table.Unambiguous)
    (ho : other.Unambiguous) : table.Answers other where
  contains_eq := h.contains_eq
  global?_eq := h.global?_eq ht
  isEmpty_eq path name := (h.definitions ht ho path name).isEmpty_eq
  find?_eq path name arguments := find?_of_perm FunctionDefinition.parameterTypes
    (h.definitions ht ho path name) ((ht.module path).signatures name) arguments

theorem Rearranges.lacks_iff (h : table.Rearranges other) (ht : table.Unambiguous)
    (ho : other.Unambiguous) : table.Lacks key ↔ other.Lacks key := by
  cases key with
  | module parent name => rw [Lacks, Lacks, h.contains_eq]
  | function path name parameters =>
    simp only [Lacks, (h.definitions ht ho path name).mem_iff]
  | global path name => rw [Lacks, Lacks, HasGlobal, HasGlobal, h.global?_eq ht]

/-- The same is added to both or refused by both. -/
theorem Rearranges.register (h : table.Rearranges other) (ht : table.Unambiguous)
    (ho : other.Unambiguous) (entry : Entry) :
    (table.register entry).Rearranges (other.register entry) := by
  by_cases hl : table.Lacks entry.key
  · rw [register_of_lacks ht.distinct hl,
      register_of_lacks ho.distinct ((h.lacks_iff ht ho).1 hl)]
    exact h.extend .rfl
  · rw [register_of_not_lacks ht.distinct hl,
      register_of_not_lacks ho.distinct fun hc => hl ((h.lacks_iff ht ho).2 hc)]
    exact h

/-! ## Registering one after the other -/

theorem lacks_register (ht : table.Unambiguous) (hr : Entry.Rooted table.paths [entry]) :
    (table.register entry).Lacks key ↔ table.Lacks key ∧ key ≠ entry.key := by
  by_cases hl : table.Lacks entry.key
  · rw [register_of_lacks ht.distinct hl]
    exact Entry.lacks_of_add hr ((Entry.add_eq_ok ht.distinct).2 ⟨hl, rfl⟩)
  · rw [register_of_not_lacks ht.distinct hl]
    exact ⟨fun hk => ⟨hk, fun he => hl (he ▸ hk)⟩, And.left⟩

theorem mem_paths_register :
    path ∈ (table.register entry).paths ↔ path ∈ table.paths ∨ path ∈ entry.module? := by
  simp only [← contains_iff]
  unfold register
  split
  next extended h =>
    cases entry with
    | module parent name =>
      rw [contains_addModule h]
      exact or_congr_right (by simp [Entry.module?, eq_comm])
    | function path definition => simp [contains_addFunction h, Entry.module?]
    | global path v => simp [contains_addVariable h, Entry.module?]
  next conflict h =>
    -- A module that is refused is there already.
    refine ⟨.inl, fun hp => hp.elim id fun hp => ?_⟩
    cases entry with
    | module parent name =>
      obtain rfl : parent ++ [name] = path := by simpa [Entry.module?] using hp
      by_contra hn
      rw [Entry.add, addModule_eq_ok.2 ⟨hn, rfl⟩] at h
      cases h
    | function | global => cases hp

/-- Modules stay where others are added. -/
theorem rooted_register (hr : Entry.Rooted table.paths (entry :: entries)) :
    Entry.Rooted (table.register entry).paths entries := by
  refine ((Entry.rooted_cons _ _ _).1 hr).2.mono fun path hp => mem_paths_register.2 ?_
  simpa using hp

/-- What a table has afterwards are the keys that it had and those of the entries. -/
theorem lacks_registerAll (ht : table.Unambiguous) (hr : Entry.Rooted table.paths entries) :
    (table.registerAll entries).Lacks key ↔ table.Lacks key ∧ key ∉ entries.map Entry.key := by
  induction entries generalizing table with
  | nil => simp [registerAll]
  | cons entry rest ih =>
    rw [registerAll, List.foldl_cons, ← registerAll, ih (ht.register entry)
      (rooted_register hr), lacks_register ht ((Entry.rooted_cons _ _ _).1 hr).1,
      List.map_cons, List.mem_cons, not_or, and_assoc]

theorem registerAll_append (table : SymbolTable) (entries others : List Entry) :
    table.registerAll (entries ++ others) = (table.registerAll entries).registerAll others :=
  List.foldl_append

theorem registerAll_of_addAll {extended : SymbolTable}
    (h : Entry.addAll table entries = .ok extended) : table.registerAll entries = extended := by
  induction entries generalizing table with
  | nil => exact Except.ok.inj h
  | cons entry rest ih =>
    obtain ⟨next, ha, hnext⟩ := Except.bind_eq_ok.1 h
    rw [registerAll, List.foldl_cons, ← registerAll, register, ha]
    exact ih hnext

/-- Entries of different keys are all added to the root alone. -/
theorem registerAll_empty (hr : Entry.Rooted [[]] entries) (hk : (entries.map Entry.key).Nodup) :
    empty.registerAll entries = empty.extend entries :=
  registerAll_of_addAll ((Entry.addAll_empty hr).2 ⟨hk, rfl⟩)

/-- Entries of different keys may be added in any order. -/
theorem rearranges_registerAll (hr : Entry.Rooted [[]] entries) (ho : Entry.Rooted [[]] others)
    (hk : (entries.map Entry.key).Nodup) (hp : entries.Perm others) :
    (empty.registerAll entries).Rearranges (empty.registerAll others) := by
  rw [registerAll_empty hr hk, registerAll_empty ho ((hp.map _).nodup_iff.1 hk)]
  exact (Rearranges.refl _).extend hp

end SymbolTable

end MuLang
