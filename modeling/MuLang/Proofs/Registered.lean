import MuLang.Proofs.Agreement
import MuLang.Proofs.Modified
import MuLang.Proofs.Rearrangement
import MuLang.Proofs.WellDefined

/-!
# What an accepted program registers

The functions and globals in the table of an accepted program are those that its statements stand
for, each of a statement of the module that it is found in. Such a statement may stand there, and
what it declares, uses and does is part of the program.
-/
namespace MuLang

/-! ## Entries of a table -/

/-- The module of a function or a global is there, or is added before. -/
theorem Entry.Rooted.owner_mem {paths : List ModulePath} {entries : List Entry}
    (h : Rooted paths entries) {entry : Entry} (he : entry ∈ entries) (hn : entry.module? = none) :
    entry.owner ∈ paths ++ entries.filterMap Entry.module? := by
  induction entries generalizing paths with
  | nil => cases he
  | cons first rest ih =>
    obtain ⟨hf, hr⟩ := (rooted_cons _ _ _).1 h
    obtain rfl | he := List.mem_cons.1 he
    · cases entry with
      | module => cases hn
      | function | global => exact List.mem_append_left _ hf.1
    · have hlater := ih hr he
      cases hm : first.module? <;> simp [hm] at hlater ⊢ <;> tauto

namespace SymbolTable

variable {entries : List Entry} {path : ModulePath}

/-- A table that has been filled shows of an entry's module what the entries add to it. -/
theorem mem_view_extend {α : Type} {view : Module → List α} {a : α} {entry : Entry}
    (h : Entry.Rooted [[]] entries) (ho : entry.owner = path) (hn : entry.module? = none)
    (hempty : view (.empty path) = [])
    (hfill : a ∈ view (Entry.fill entries (.empty path)) ↔ entry ∈ entries) :
    a ∈ view ((empty.extend entries).module path) ↔ entry ∈ entries := by
  by_cases hp : path ∈ (empty.extend entries).paths
  · rw [module_extend hp, module_empty, hfill]
  · rw [module_of_not_mem hp, hempty]
    refine ⟨fun hm => absurd hm List.not_mem_nil, fun he => absurd ?_ hp⟩
    rw [paths_extend, ← ho]
    exact h.owner_mem he hn

/-- A table that has been filled holds the functions among its entries and no others. -/
theorem mem_members_extend (h : Entry.Rooted [[]] entries) {definition : FunctionDefinition} :
    definition ∈ ((empty.extend entries).module path).members ↔
      Entry.function path definition ∈ entries := by
  refine mem_view_extend h rfl rfl rfl ?_
  rw [(Entry.members_fill entries (.empty path)).mem_iff]
  simp only [Module.members, Module.empty, List.flatMap_nil, List.nil_append, List.mem_filterMap]
  constructor
  · rintro ⟨entry, he, hf⟩
    unfold Entry.functionIn? at hf
    split at hf
    · split at hf
      · cases hf
        simp_all
      · cases hf
    · cases hf
  · intro he
    exact ⟨_, he, by simp [Entry.functionIn?]⟩

/-- A table that has been filled holds the globals among its entries and no others. -/
theorem mem_globals_extend (h : Entry.Rooted [[]] entries) {v : Variable} :
    v ∈ ((empty.extend entries).module path).globals ↔ Entry.global path v ∈ entries := by
  refine mem_view_extend h rfl rfl rfl ?_
  simp only [Entry.fill, Module.empty, List.nil_append, List.mem_filterMap]
  constructor
  · rintro ⟨entry, he, hf⟩
    unfold Entry.globalIn? at hf
    split at hf
    · split at hf
      · cases hf
        simp_all
      · cases hf
    · cases hf
  · intro he
    exact ⟨_, he, by simp [Entry.globalIn?]⟩

end SymbolTable

/-! ## Programs that are accepted -/

section Analysis

variable {settings : Settings} {natives : Native.Bindings} {tokens : List Token}
  {analysis : Analysis}

/-- In an accepted program every statement may stand where it stands, and the table is filled with
the entries of the program. -/
theorem entries_of_analyze (h : analyze settings natives tokens = .ok analysis) :
    Stmt.AllAdmissible natives analysis.program ∧
      Entry.addAll .empty (Stmt.entriesIn natives [] analysis.program) = .ok analysis.symbols := by
  obtain ⟨hparse, hdefine⟩ := analyze_eq_ok.1 h
  by_cases hb : settings.maxErrors = some 0
  · rw [program_of_no_budget hb h] at hdefine ⊢
    have hsymbols : SymbolTable.empty = analysis.symbols := Except.ok.inj hdefine
    exact ⟨⟨nofun, nofun⟩, congrArg Except.ok hsymbols⟩
  · exact (define_eq_ok hb (areModifiers_of_parse hb hparse)).1 hdefine

theorem symbols_of_analyze (h : analyze settings natives tokens = .ok analysis) :
    analysis.symbols = .ofProgram natives analysis.program :=
  ((Entry.addAll_empty (Stmt.rooted_entriesIn (.head _))).1 (entries_of_analyze h).2).2

/-- A module of the table is what the table holds at its path. -/
theorem module_of_analyze (h : analyze settings natives tokens = .ok analysis) {module : Module}
    (hm : module ∈ analysis.symbols.modules) : analysis.symbols.module module.path = module := by
  have hempty : SymbolTable.empty.paths.Nodup := List.nodup_singleton _
  exact SymbolTable.module_eq_of_mem
    (Entry.nodup_paths_of_addAll hempty (entries_of_analyze h).2) hm

/-- The functions in the table of an accepted program are those among its entries. -/
theorem mem_members_of_analyze (h : analyze settings natives tokens = .ok analysis)
    {path : ModulePath} {definition : FunctionDefinition} :
    definition ∈ (analysis.symbols.module path).members ↔
      Entry.function path definition ∈ Stmt.entriesIn natives [] analysis.program := by
  rw [symbols_of_analyze h]
  exact SymbolTable.mem_members_extend (Stmt.rooted_entriesIn (.head _))

/-- The globals in the table of an accepted program are those among its entries. -/
theorem mem_globals_of_analyze (h : analyze settings natives tokens = .ok analysis)
    {path : ModulePath} {v : Variable} : v ∈ (analysis.symbols.module path).globals ↔
      Entry.global path v ∈ Stmt.entriesIn natives [] analysis.program := by
  rw [symbols_of_analyze h]
  exact SymbolTable.mem_globals_extend (Stmt.rooted_entriesIn (.head _))

end Analysis

/-! ## Statements outside functions -/

/-- Outside functions no local is visible, whatever has been declared. -/
theorem Site.after_outside (path : ModulePath) (stmt : Stmt) :
    Site.after ⟨path, none, []⟩ stmt = ⟨path, none, []⟩ := by
  cases stmt <;> rfl

namespace Stmt

variable {stmt : Stmt} {path base : ModulePath} {body inner : List Stmt}
  {natives : Native.Bindings} {entry : Entry}

/-- A statement that declares no module stands in a module: in a body itself, or in that of a module
inside it. -/
inductive Top (stmt : Stmt) (path : ModulePath) : ModulePath → List Stmt → Prop
  | here {body : List Stmt} : stmt ∈ body → stmt.submodule? = none → Top stmt path path body
  | inside {base : ModulePath} {identifier : Token} {inner body : List Stmt} :
      .module identifier inner ∈ body → Top stmt path (base ++ [identifier.text]) inner →
      Top stmt path base body

mutual

theorem exists_top_of_mem_entries : ∀ {stmt : Stmt} {base : ModulePath} {body : List Stmt},
    entry ∈ stmt.entries natives base → entry.module? = none → stmt ∈ body →
    ∃ top path, Top top path base body ∧ entry ∈ top.entries natives path
  | .module identifier inner, base, body, he, hn, hs => by
    obtain rfl | he := List.mem_cons.1 he
    · cases hn
    · obtain ⟨top, path, ht, hm⟩ := exists_top_of_mem_entriesIn he hn (List.Subset.refl inner)
      exact ⟨top, path, .inside hs ht, hm⟩
  | .function .., base, _, he, _, hs => ⟨_, base, .here hs rfl, he⟩
  | .native .., base, _, he, _, hs => ⟨_, base, .here hs rfl, he⟩
  | .declare _, base, _, he, _, hs => ⟨_, base, .here hs rfl, he⟩
  | .define .., base, _, he, _, hs => ⟨_, base, .here hs rfl, he⟩
  | .action _, _, _, he, _, _ => absurd he List.not_mem_nil
  | .ifElse .., _, _, he, _, _ => absurd he List.not_mem_nil
  | .whileLoop .., _, _, he, _, _ => absurd he List.not_mem_nil
  | .forLoop .., _, _, he, _, _ => absurd he List.not_mem_nil
  | .returning .., _, _, he, _, _ => absurd he List.not_mem_nil
  | .stdlibFinish _, _, _, he, _, _ => absurd he List.not_mem_nil

/-- A function or a global among the entries of a body is that of a statement in one of its
modules. -/
theorem exists_top_of_mem_entriesIn : ∀ {stmts : List Stmt} {base : ModulePath} {body : List Stmt},
    entry ∈ entriesIn natives base stmts → entry.module? = none → stmts ⊆ body →
    ∃ top path, Top top path base body ∧ entry ∈ top.entries natives path
  | [], _, _, he, _, _ => absurd he List.not_mem_nil
  | stmt :: rest, base, body, he, hn, hs => by
    obtain ⟨hstmt, hrest⟩ := List.cons_subset.1 hs
    obtain he | he := List.mem_append.1 he
    · exact exists_top_of_mem_entries he hn hstmt
    · exact exists_top_of_mem_entriesIn he hn hrest

end

/-! ## Parts of a body -/

theorem bodies_subset (h : stmt ∈ body) : stmt.bodies ⊆ bodiesIn body := by
  induction body with
  | nil => cases h
  | cons first rest ih =>
    obtain rfl | h := List.mem_cons.1 h
    · exact List.subset_append_left _ _
    · exact List.Subset.trans (ih h) (List.subset_append_right _ _)

theorem declarations_subset (h : stmt ∈ body) :
    stmt.declarations base ⊆ declarationsIn base body := by
  induction body with
  | nil => cases h
  | cons first rest ih =>
    obtain rfl | h := List.mem_cons.1 h
    · exact List.subset_append_left _ _
    · exact List.Subset.trans (ih h) (List.subset_append_right _ _)

theorem uses_subset (h : stmt ∈ body) :
    stmt.uses ⟨base, none, []⟩ ⊆ usesIn ⟨base, none, []⟩ body := by
  induction body with
  | nil => cases h
  | cons first rest ih =>
    rw [usesIn, Site.after_outside]
    obtain rfl | h := List.mem_cons.1 h
    · exact List.subset_append_left _ _
    · exact List.Subset.trans (ih h) (List.subset_append_right _ _)

namespace Top

theorem submodule?_eq (h : Top stmt path base body) : stmt.submodule? = none := by
  induction h with
  | here _ hn => exact hn
  | inside _ _ ih => exact ih

theorem admissible (h : Top stmt path base body) (ha : AllAdmissible natives body) :
    stmt.Admissible natives := by
  induction h with
  | here hs => exact ha.1 _ hs
  | inside hm _ ih =>
    have hbodies := bodies_subset hm
    rw [bodies, List.cons_subset] at hbodies
    exact ih ⟨ha.2 _ hbodies.1, fun inner hi => ha.2 inner (hbodies.2 hi)⟩

theorem declarations_subset (h : Top stmt path base body) :
    stmt.declarations path ⊆ declarationsIn base body := by
  induction h with
  | here hs => exact Stmt.declarations_subset hs
  | inside hm _ ih =>
    refine List.Subset.trans ih (List.Subset.trans ?_ (Stmt.declarations_subset hm))
    exact List.subset_cons_self _ _

theorem uses_subset (h : Top stmt path base body) :
    stmt.uses ⟨path, none, []⟩ ⊆ usesIn ⟨base, none, []⟩ body := by
  induction h with
  | here hs => exact Stmt.uses_subset hs
  | inside hm _ ih => exact List.Subset.trans ih (Stmt.uses_subset hm)

end Top

end Stmt

/-! ## Functions and globals of a program -/

section Analysis

variable {settings : Settings} {natives : Native.Bindings} {tokens : List Token}
  {analysis : Analysis} {path : ModulePath}

/-- What a function is registered as does not depend on what it runs, but for that. -/
theorem FunctionHeader.entry?_of_nativeEntry? {header : FunctionHeader} {binding : Token}
    {definition : FunctionDefinition} (h : header.nativeEntry? natives binding = some definition) :
    header.entry? definition.body = some definition := by
  obtain ⟨declared, hd, he⟩ := Option.bind_eq_some_iff.1 h
  obtain ⟨type, ht, rfl⟩ := Option.map_eq_some_iff.1 hd
  split at he
  · cases he
    rw [FunctionHeader.entry?, ht, Option.map_some]
  · cases he

/-- A function of the table is that of a statement of its module, which is no native declaration if
the function is interpreted. -/
theorem exists_function_of_analyze (h : analyze settings natives tokens = .ok analysis)
    {definition : FunctionDefinition} (hm : definition ∈ (analysis.symbols.module path).members) :
    ∃ header : FunctionHeader, header.Admissible ∧ header.entry? definition.body = some definition ∧
      ((∃ body, definition.body = .interpreted body ∧
          Stmt.Top (.function header body) path [] analysis.program) ∨
        ∃ binding, header.nativeEntry? natives binding = some definition ∧
          Stmt.Top (.native header binding) path [] analysis.program) := by
  rw [mem_members_of_analyze h] at hm
  obtain ⟨stmt, owner, htop, he⟩ :=
    Stmt.exists_top_of_mem_entriesIn hm rfl (List.Subset.refl analysis.program)
  have ha := htop.admissible (entries_of_analyze h).1
  cases stmt with
  | function header body =>
    obtain ⟨found, hf, he⟩ := Option.map_eq_some_iff.1 (Option.mem_toList.1 he)
    obtain ⟨rfl, rfl⟩ := Entry.function.inj he
    have hbody : found.body = .interpreted body := by
      obtain ⟨type, -, rfl⟩ := Option.map_eq_some_iff.1 hf
      rfl
    exact ⟨header, ha.1, by rwa [hbody], .inl ⟨body, hbody, htop⟩⟩
  | native header binding =>
    obtain ⟨found, hf, he⟩ := Option.map_eq_some_iff.1 (Option.mem_toList.1 he)
    obtain ⟨rfl, rfl⟩ := Entry.function.inj he
    exact ⟨header, ha.1, header.entry?_of_nativeEntry? hf, .inr ⟨binding, hf, htop⟩⟩
  | module => cases htop.submodule?_eq
  | _ => simp [Stmt.entries] at he

/-- A global of the table is that of a declaration of its module, with the value that it has
there. -/
theorem exists_global_of_analyze (h : analyze settings natives tokens = .ok analysis)
    {v : Variable} (hm : v ∈ (analysis.symbols.module path).globals) :
    ∃ (header : VariableHeader) (value : Option Expr), header.Admissible (value.map Expr.type) ∧
      header.entry? (value.map Expr.type) = some v ∧
      .global path header (value.map Expr.type) ∈ Stmt.declarationsIn [] analysis.program ∧
      ∀ typed ∈ value,
        (⟨path, none, []⟩, .initializer header typed) ∈ Stmt.usesIn .root analysis.program := by
  rw [mem_globals_of_analyze h] at hm
  obtain ⟨stmt, owner, htop, he⟩ :=
    Stmt.exists_top_of_mem_entriesIn hm rfl (List.Subset.refl analysis.program)
  have ha := htop.admissible (entries_of_analyze h).1
  have hd := htop.declarations_subset
  cases stmt with
  | declare header =>
    obtain ⟨found, hf, he⟩ := Option.map_eq_some_iff.1 (Option.mem_toList.1 he)
    obtain ⟨rfl, rfl⟩ := Entry.global.inj he
    exact ⟨header, none, ha, hf, hd (.head _), nofun⟩
  | define header value =>
    obtain ⟨found, hf, he⟩ := Option.map_eq_some_iff.1 (Option.mem_toList.1 he)
    obtain ⟨rfl, rfl⟩ := Entry.global.inj he
    refine ⟨header, some value, ha, hf, hd (.head _), fun typed ht => ?_⟩
    cases ht
    exact htop.uses_subset (.head _)
  | module => cases htop.submodule?_eq
  | _ => simp [Stmt.entries] at he

end Analysis

end MuLang
