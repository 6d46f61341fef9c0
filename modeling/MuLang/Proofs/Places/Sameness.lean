import MuLang.Analysis
import MuLang.Proofs.Entries
import MuLang.Proofs.Outline
import MuLang.Proofs.Passes
import MuLang.Proofs.Places.Definitions
import MuLang.Proofs.Places.Readings

/-!
# Places never influence the analysis

Two texts of the same words are analyzed alike, wherever the words stand: both are accepted, with
the same statements and the same table, or both are rejected, with the same causes in the same
order.
-/
namespace MuLang

/-! ## Tables of a path each -/

namespace SymbolTable

variable {left right : SymbolTable}

/-- Tables that are the same once they are stripped are the same, if each path has one module. -/
theorem same_of_stripped (hn : left.paths.Nodup) (h : left.stripped = right.stripped) :
    left.same right := by
  have hmodules : left.modules.map (Module.mapParts id FunctionBody.stripped) =
      right.modules.map (Module.mapParts id FunctionBody.stripped) := congrArg modules h
  have hpaths : left.modules.map (·.path) = right.modules.map (·.path) := by
    have hp := congrArg (List.map Module.path) hmodules
    rwa [List.map_map, List.map_map] at hp
  have hlength := congrArg List.length hmodules
  rw [List.length_map, List.length_map] at hlength
  rw [same, Bool.and_eq_true, decide_eq_true_iff, List.all_eq_true]
  refine ⟨hlength, fun module hm => ?_⟩
  have hfind : (right.module? module.path).map (Module.mapParts id FunctionBody.stripped) =
      some (module.mapParts id FunctionBody.stripped) := by
    have hs : (left.module? module.path).isSome := contains_iff.2 (List.mem_map_of_mem hm)
    obtain ⟨found, hf⟩ := Option.isSome_iff_exists.1 hs
    obtain rfl : found = module := by
      rw [← module_eq_of_mem hn hm, SymbolTable.module, hf, Option.getD_some]
    rw [← module?_mapParts, ← stripped, ← h, stripped, module?_mapParts, hf, Option.map_some]
  obtain ⟨other, hother, hsame⟩ := Option.map_eq_some_iff.1 hfind
  have hsub : left.submodules module.path = right.submodules module.path := by
    rw [submodules, hpaths, submodules]
  simp only [Module.mapParts, Module.mk.injEq, id_eq] at hsame
  simp [hother, hsub, Module.sameMembers, Overloads.sameAll_iff, hsame]

end SymbolTable

theorem Declares.nodup_paths {declaration : Declaration} {table extended : SymbolTable}
    (h : Declares declaration table extended) (hn : table.paths.Nodup) : extended.paths.Nodup := by
  cases h with
  | @module parent name _ _ ha =>
    have hadd : (Entry.module parent name).add table = .ok extended := ha
    exact Entry.nodup_paths_of_add hn hadd
  | @function module _ definition _ _ _ _ ha =>
    have hadd : (Entry.function module definition).add table = .ok extended := ha
    exact Entry.nodup_paths_of_add hn hadd
  | @global module _ _ v _ _ _ _ _ ha =>
    have hadd : (Entry.global module v).add table = .ok extended := ha
    exact Entry.nodup_paths_of_add hn hadd

theorem DeclaresAll.nodup_paths {declarations : List Declaration} {table later : SymbolTable}
    (h : DeclaresAll declarations table later) (hn : table.paths.Nodup) : later.paths.Nodup := by
  induction h with
  | nil => exact hn
  | cons h _ ih => exact ih (h.nodup_paths hn)

/-- Each path has one module in the table of a program. -/
theorem nodup_paths_of_define {settings : Settings} {natives : Native.Bindings}
    {program : List Stmt} {symbols : SymbolTable}
    (h : define settings natives program = .ok symbols) : symbols.paths.Nodup := by
  have hempty : SymbolTable.empty.paths.Nodup := List.nodup_singleton _
  by_cases hb : settings.maxErrors = some 0
  · -- Without any room for errors nothing is defined.
    have hclosed : (Definer.initial settings).log.isClosed = true := by
      simp [Definer.initial, Log.isClosed, Log.isExhausted, Log.empty, hb]
    have hblock : Definer.block natives [] (.initial settings) program = .initial settings := by
      cases program with
      | nil => rfl
      | cons stmt rest => rw [Definer.block, if_pos hclosed]
    rw [define, hblock] at h
    cases h
    exact hempty
  · exact (declaresAll_of_define hb h).nodup_paths hempty

/-! ## The analysis -/

/-- The analysis looks at no place. -/
theorem analyze_stripped (settings : Settings) (natives : Native.Bindings) (tokens : List Token) :
    analyze settings natives (tokens.map Token.stripped) =
      match analyze settings natives tokens with
      | .ok analysis => .ok ⟨Stmt.strippedAll analysis.program, analysis.symbols.stripped⟩
      | .error errors => .error (errors.map Error.stripped) := by
  have hinternal (errors : List Error) :
      (errors.map Error.stripped).any (·.isInternal) = errors.any (·.isInternal) := List.any_map
  unfold analyze
  rw [parse_stripped]
  rcases parse settings tokens with ⟨program, errors⟩
  dsimp only
  rw [hinternal]
  split
  · rfl
  · cases program with
    | none => rfl
    | some program =>
      dsimp only [Option.map_some]
      rw [define_stripped]
      cases define settings natives program with
      | ok symbols =>
        dsimp only
        rw [List.isEmpty_map]
        split <;> rfl
      | error more =>
        cases settings.maxErrors <;> simp [List.map_take]

/-- Positions never influence the analysis: two texts whose tokens agree one by one in kind and
text, wherever they stand, are both accepted or both rejected. If they are accepted, the statements
and the tables are the same but for places, and if they are rejected, there are as many errors of
the one as of the other, and their causes agree one by one. -/
theorem analyze_same_lexemes {settings : Settings} {natives : Native.Bindings}
    {tokens others : List Token} (h : tokens.map Token.toLexeme = others.map Token.toLexeme) :
    (∃ analysis other, analyze settings natives tokens = .ok analysis ∧
      analyze settings natives others = .ok other ∧
      Stmt.sameAll analysis.program other.program ∧ analysis.symbols.same other.symbols) ∨
    ∃ errors more, analyze settings natives tokens = .error errors ∧
      analyze settings natives others = .error more ∧
      errors.map (·.cause) = more.map (·.cause) := by
  have hstripped : tokens.map Token.stripped = others.map Token.stripped :=
    Token.sameAll_iff.1 (decide_eq_true h)
  have hanalyze := analyze_stripped settings natives tokens
  rw [hstripped, analyze_stripped] at hanalyze
  rcases hfirst : analyze settings natives tokens with errors | analysis <;>
    rcases hsecond : analyze settings natives others with more | other <;>
    rw [hfirst, hsecond] at hanalyze
  · have hcauses := congrArg (List.map Error.cause) (Except.error.inj hanalyze)
    rw [List.map_map, List.map_map] at hcauses
    exact .inr ⟨errors, more, rfl, rfl, hcauses.symm⟩
  · cases hanalyze
  · cases hanalyze
  · obtain ⟨hprogram, hsymbols⟩ := Analysis.mk.inj (Except.ok.inj hanalyze)
    have hpaths := nodup_paths_of_define (analyze_eq_ok.1 hfirst).2
    exact .inl ⟨analysis, other, rfl, rfl, Stmt.sameAll_iff.2 hprogram.symm,
      SymbolTable.same_of_stripped hpaths hsymbols.symm⟩

/-- The tokens of `module m { int x = 1; }`, from a place on. -/
def placed (offset : Nat) : List Token :=
  [⟨.keyword .moduleWord, "module"⟩, ⟨.identifier, "m"⟩, ⟨.openCurly, "\x7b"⟩,
    ⟨.typeName .int, "int"⟩, ⟨.identifier, "x"⟩, ⟨.assign .plain, "="⟩, ⟨.literal .integer, "1"⟩,
    ⟨.semicolon, ";"⟩, ⟨.closeCurly, "\x7d"⟩].map fun lexeme =>
      ⟨lexeme, ⟨⟨offset, "source"⟩, ⟨offset, "source"⟩⟩⟩

/-- Two copies of one program at different places are both accepted, with the same outcome. -/
theorem analyze_same_lexemes_placed :
    ∃ analysis other, analyze {} (fun _ _ => .notFound) (placed 0) = .ok analysis ∧
      analyze {} (fun _ _ => .notFound) (placed 7) = .ok other ∧
      Stmt.sameAll analysis.program other.program ∧ analysis.symbols.same other.symbols := by
  have hok : (analyze {} (fun _ _ => .notFound) (placed 0)).isOk = true := by
    with_unfolding_all rfl
  obtain h | ⟨errors, more, herror, -⟩ := @analyze_same_lexemes {} (fun _ _ => .notFound)
    (placed 0) (placed 7) rfl
  · exact h
  · rw [herror] at hok
    cases hok

end MuLang
