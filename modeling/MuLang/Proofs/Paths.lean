import Mathlib.Data.List.Induction
import MuLang.Proofs.Policy
import MuLang.Proofs.Reached

/-!
# Paths of modules

Walking up from a module collects its names, walking down along them comes back to the module. Where
no name has a dot, the names can also be told from the text that shows the path: it belongs to one
module alone, and to qualify a name by it is to look in that module.
-/
namespace MuLang

/-! ## Names between dots -/

theorem fields_eq_splitOnP {α : Type} (isSeparator : α → Bool) (list : List α) :
    fields isSeparator list = list.splitOnP isSeparator := by
  induction list with
  | nil => rfl
  | cons a rest ih =>
    rw [fields, List.splitOnP_cons_eq_if_modifyHead, ih]
    split
    · rfl
    · cases h : rest.splitOnP isSeparator with
      | nil => exact absurd h (List.splitOnP_ne_nil _ _)
      | cons first others => rfl

namespace QualifiedName

variable {names : List String}

/-- Names without dots are told apart again where they are joined by dots. -/
theorem parts_joinDots (hn : names ≠ []) (hd : ∀ name ∈ names, isDotted name = false) :
    parts (joinDots names) = names := by
  have hdot : ∀ field ∈ names.map String.toList, '.' ∉ field := by
    refine List.forall_mem_map.2 fun name hm => ?_
    simpa [isDotted] using hd name hm
  have hs : (['.'].intercalate (names.map String.toList)).splitOn '.' = names.map String.toList :=
    List.splitOn_intercalate '.' hdot (by simpa using hn)
  have hj : (joinDots names).toList = ['.'].intercalate (names.map String.toList) :=
    String.toList_intercalate
  rw [parts, fields_eq_splitOnP, hj, show (fun c => c == '.') = (· == '.') from rfl,
    ← List.splitOn, hs, List.map_map]
  simp [Function.comp_def]

theorem joinDots_concat (hn : names ≠ []) (name : String) :
    joinDots (names ++ [name]) = joinDots names ++ "." ++ name := by
  rw [joinDots, String.intercalate_append_of_ne_nil hn (List.cons_ne_nil _ _),
    String.intercalate_singleton, joinDots]

/-- A name behind others is the last part of what they are joined to. -/
theorem split_joinDots (hn : names ≠ []) (hd : ∀ name ∈ names, isDotted name = false)
    {name : String} (h : isDotted name = false) :
    split (joinDots names ++ "." ++ name) = ⟨names, name⟩ := by
  have hp : parts (joinDots names ++ "." ++ name) = names ++ [name] := by
    rw [← joinDots_concat hn]
    refine parts_joinDots (by simp) ?_
    exact List.forall_mem_append.2 ⟨hd, by simpa using h⟩
  rw [split, hp, List.dropLast_concat, List.getLast?_concat, Option.getD_some]

end QualifiedName

/-! ## Ways up and down -/

namespace ModulePath

/-- The names of the modules on the way from a module up to the root, the outermost one first. -/
def names (path : ModulePath) : List String := (path.ancestors.filterMap List.getLast?).reverse

theorem ancestors_concat (path : ModulePath) (name : String) :
    ancestors (path ++ [name]) = (path ++ [name]) :: path.ancestors := by
  have ht : ∀ length ∈ (List.range (path.length + 1)).reverse,
      (path ++ [name]).take length = path.take length := by
    intro length hl
    rw [List.mem_reverse, List.mem_range] at hl
    exact List.take_append_of_le_length (Nat.le_of_lt_succ hl)
  rw [ancestors, List.length_append, List.length_singleton, List.range_succ,
    List.reverse_append, List.reverse_singleton, List.singleton_append, List.map_cons,
    List.map_congr_left ht, ← ancestors, List.take_of_length_le (by simp)]

/-- What a module is called on the way up is what leads to it on the way down. -/
theorem names_eq (path : ModulePath) : path.names = path := by
  induction path using List.reverseRecOn with
  | nil => rfl
  | append_singleton path name ih =>
    rw [names, ancestors_concat, List.filterMap_cons_some List.getLast?_concat, List.reverse_cons,
      ← names, ih]

end ModulePath

namespace SymbolTable

variable {table : SymbolTable} {path outer start : ModulePath}

/-- With a module every module on the way to it is there. -/
theorem Grown.mem_of_prefix (h : table.Grown) (hp : path ∈ table.paths) (ho : outer <+: path) :
    outer ∈ table.paths := by
  induction path using List.reverseRecOn with
  | nil => rwa [List.prefix_nil.1 ho]
  | append_singleton path name ih =>
    obtain rfl | ho := List.prefix_concat_iff.1 ho
    · exact hp
    · refine ih ?_ ho
      have hparent := h.parent _ hp
      rwa [ModulePath.parent, List.dropLast_concat] at hparent

end SymbolTable

end MuLang
