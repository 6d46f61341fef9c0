import MuLang.Proofs.Paths

/-!
# Where a qualified path leads

The path before a name is looked for from the current module outwards. Only the nearest module counts
from which the whole path can be walked: where the nearest submodule of the first name lacks one of
the others, the search goes on further out. It would end there if the first name alone were looked for
outwards and the others were walked down from what it has led to.
-/
namespace MuLang

namespace ModulePath

variable {α : Type} {start : ModulePath} {a : α}

/-- The search outwards from a module finds what is found at the nearest module around it. -/
theorem findSome?_ancestors_eq_some {search : ModulePath → Option α} :
    start.ancestors.findSome? search = some a ↔
      ∃ outer, outer <+: start ∧ search outer = some a ∧
        ∀ nearer, nearer <+: start → outer.length < nearer.length → search nearer = none := by
  induction start using List.reverseRecOn with
  | nil =>
    have hroot : ancestors [] = [[]] := rfl
    rw [hroot, List.findSome?_singleton]
    constructor
    · intro h
      refine ⟨[], List.nil_prefix, h, fun nearer hn hl => ?_⟩
      rw [List.prefix_nil.1 hn] at hl
      exact absurd hl (Nat.lt_irrefl _)
    · rintro ⟨outer, ho, h, -⟩
      rwa [List.prefix_nil.1 ho] at h
  | append_singleton path name ih =>
    rw [ancestors_concat, List.findSome?_cons]
    cases hs : search (path ++ [name]) with
    | some own =>
      constructor
      · intro h
        obtain rfl : own = a := Option.some.inj h
        refine ⟨path ++ [name], List.prefix_rfl, hs, fun nearer hn hl => ?_⟩
        exact absurd hn.length_le (Nat.not_le_of_lt hl)
      · rintro ⟨outer, ho, h, hnone⟩
        obtain rfl | ho := List.prefix_concat_iff.1 ho
        · rw [← hs, h]
        · -- The module itself would be nearer than one around it.
          have hl : outer.length < (path ++ [name]).length := by
            have hle := ho.length_le
            simp
            omega
          rw [hnone _ List.prefix_rfl hl] at hs
          cases hs
    | none =>
      refine ih.trans ⟨?_, ?_⟩
      · rintro ⟨outer, ho, h, hnone⟩
        refine ⟨outer, ho.trans (List.prefix_append _ _), h, fun nearer hn hl => ?_⟩
        obtain rfl | hn := List.prefix_concat_iff.1 hn
        · exact hs
        · exact hnone nearer hn hl
      · rintro ⟨outer, ho, h, hnone⟩
        obtain rfl | ho := List.prefix_concat_iff.1 ho
        · rw [hs] at h
          cases h
        · exact ⟨outer, ho, h, fun nearer hn => hnone nearer (hn.trans (List.prefix_append _ _))⟩

end ModulePath

namespace SymbolTable

variable {table : SymbolTable} {start found : ModulePath} {path : List String}

/-- The module that a path leads to, if its first name alone is looked for outwards: from the nearest
submodule of this name the other names are walked down. -/
def nearest? (table : SymbolTable) (start : ModulePath) : List String → Option ModulePath
  | [] => some start
  | first :: rest =>
    (start.ancestors.findSome? fun scope => table.submodule? scope first).bind fun submodule =>
      table.walk? submodule rest

/-- A walk leads to the module whose path it goes, if that is there. -/
theorem walk?_cons (h : table.Reached) (first : String) (rest : List String) :
    table.walk? start (first :: rest) =
      if table.contains (start ++ first :: rest) then some (start ++ first :: rest) else none := by
  induction rest generalizing start first with
  | nil => rw [walk?, submodule?]; split <;> rfl
  | cons second rest ih =>
    have hsplit : start ++ first :: second :: rest = start ++ [first] ++ second :: rest := by simp
    rw [walk?, submodule?, hsplit]
    split
    next => rw [Option.bind_some, ih]
    next hc =>
      rw [Option.bind_none, if_neg]
      intro hall
      exact hc (contains_iff.2
        (h.sound.mem_of_prefix (contains_iff.1 hall) (List.prefix_append _ _)))

/-- The path of a name leads to a module if the nearest module around that holds the whole path holds
it there. -/
theorem resolveModule?_eq_some_iff (h : table.Reached) {first : String} {rest : List String} :
    table.resolveModule? start (first :: rest) = some found ↔
      ∃ outer, outer <+: start ∧ found = outer ++ first :: rest ∧ table.contains found ∧
        ∀ nearer, nearer <+: start → outer.length < nearer.length →
          ¬table.contains (nearer ++ first :: rest) := by
  have hpath : (first :: rest).isEmpty = false := rfl
  rw [resolveModule?, hpath, if_neg Bool.false_ne_true, ModulePath.findSome?_ancestors_eq_some]
  simp only [walk?_cons h, ite_eq_right_iff, reduceCtorEq, Option.ite_none_right_eq_some,
    Option.some.injEq]
  refine exists_congr fun outer => and_congr_right fun _ => ?_
  constructor
  · rintro ⟨⟨hc, rfl⟩, hn⟩
    exact ⟨rfl, hc, hn⟩
  · rintro ⟨rfl, hc, hn⟩
    exact ⟨⟨hc, rfl⟩, hn⟩

/-- No way leads to a module if no module around holds the whole path. -/
theorem resolveModule?_eq_none_iff (h : table.Reached) {first : String} {rest : List String} :
    table.resolveModule? start (first :: rest) = none ↔
      ∀ outer, outer <+: start → ¬table.contains (outer ++ first :: rest) := by
  have hpath : (first :: rest).isEmpty = false := rfl
  rw [resolveModule?, hpath, if_neg Bool.false_ne_true, List.findSome?_eq_none_iff]
  simp only [walk?_cons h, ModulePath.mem_ancestors, ite_eq_right_iff, reduceCtorEq]

/-- The search for the first name alone goes to the nearest module that has a submodule of this name,
and the whole path is walked from there. -/
theorem nearest?_eq {first : String} {rest : List String} {nearer : ModulePath}
    (hn : nearer <+: start) (hc : table.contains (nearer ++ [first]))
    (hi : ∀ inner, inner <+: start → nearer.length < inner.length →
      ¬table.contains (inner ++ [first])) :
    table.nearest? start (first :: rest) = table.walk? nearer (first :: rest) := by
  have hsearch : start.ancestors.findSome? (fun scope => table.submodule? scope first) =
      some (nearer ++ [first]) := by
    refine ModulePath.findSome?_ancestors_eq_some.2 ⟨nearer, hn, if_pos hc, fun inner hp hl => ?_⟩
    exact if_neg (hi inner hp hl)
  rw [nearest?, hsearch, walk?, submodule?, if_pos hc]

/-- Some module around has a submodule of the first name and no nearer one has, or there is none. -/
theorem exists_nearest_or (table : SymbolTable) (start : ModulePath) (first : String) :
    (∃ nearer, nearer <+: start ∧ table.contains (nearer ++ [first]) ∧
      ∀ inner, inner <+: start → nearer.length < inner.length →
        ¬table.contains (inner ++ [first])) ∨
    ∀ scope, scope <+: start → ¬table.contains (scope ++ [first]) := by
  cases hs : start.ancestors.findSome? fun scope => table.submodule? scope first with
  | some found =>
    obtain ⟨nearer, hn, hf, hi⟩ := ModulePath.findSome?_ancestors_eq_some.1 hs
    simp only [submodule?, Option.ite_none_right_eq_some, ite_eq_right_iff, reduceCtorEq] at hf hi
    exact .inl ⟨nearer, hn, hf.1, hi⟩
  | none =>
    rw [List.findSome?_eq_none_iff] at hs
    simp only [ModulePath.mem_ancestors, submodule?, ite_eq_right_iff, reduceCtorEq] at hs
    exact .inr hs

/-- The path before a name leads to the module that the nearest module around holds at the end of the
whole path, and nowhere if there is none. To look for the first name alone outwards, and to walk down
the other names from what it has led to, comes to the same but where the nearest submodule of the first
name lacks the rest of the path and a module further out holds all of it. -/
theorem resolveModule?_of_reached (h : table.Reached) (start : ModulePath) (first : String)
    (rest : List String) :
    (∀ found, table.resolveModule? start (first :: rest) = some found ↔
      ∃ outer, outer <+: start ∧ found = outer ++ first :: rest ∧ table.contains found ∧
        ∀ nearer, nearer <+: start → outer.length < nearer.length →
          ¬table.contains (nearer ++ first :: rest)) ∧
    (table.resolveModule? start (first :: rest) ≠ table.nearest? start (first :: rest) ↔
      ∃ nearer outer, nearer <+: start ∧ outer <+: nearer ∧ table.contains (nearer ++ [first]) ∧
        (∀ inner, inner <+: start → nearer.length < inner.length →
          ¬table.contains (inner ++ [first])) ∧
        ¬table.contains (nearer ++ first :: rest) ∧ table.contains (outer ++ first :: rest)) := by
  refine ⟨fun found => resolveModule?_eq_some_iff h, ?_, ?_⟩
  · -- A module that holds the whole path has a submodule of the first name.
    have hfirst {scope : ModulePath} (hc : table.contains (scope ++ first :: rest)) :
        table.contains (scope ++ [first]) := by
      refine contains_iff.2 (h.sound.mem_of_prefix (contains_iff.1 hc) ⟨rest, ?_⟩)
      simp
    intro hne
    obtain ⟨nearer, hn, hc, hi⟩ | hnone := exists_nearest_or table start first
    · rw [nearest?_eq hn hc hi, walk?_cons h] at hne
      split at hne
      next hall =>
        refine absurd ((resolveModule?_eq_some_iff h).2 ⟨nearer, hn, rfl, hall, ?_⟩) hne
        intro inner hp hl hheld
        exact hi inner hp hl (hfirst hheld)
      next hlacks =>
        obtain ⟨found, hf⟩ := Option.ne_none_iff_exists'.1 hne
        obtain ⟨outer, ho, rfl, hall, -⟩ := (resolveModule?_eq_some_iff h).1 hf
        have hle : outer.length ≤ nearer.length := by
          by_contra hl
          exact hi outer ho (Nat.lt_of_not_le hl) (hfirst hall)
        exact ⟨nearer, outer, hn, List.prefix_of_prefix_length_le ho hn hle, hc, hi, hlacks, hall⟩
    · have hresolve := (resolveModule?_eq_none_iff h).2 fun outer ho hall =>
        hnone outer ho (hfirst hall)
      have hsearch : start.ancestors.findSome? (fun scope => table.submodule? scope first) = none := by
        rw [List.findSome?_eq_none_iff]
        intro scope hs
        exact if_neg (hnone scope (ModulePath.mem_ancestors.1 hs))
      rw [hresolve, nearest?, hsearch] at hne
      exact absurd rfl hne
  · rintro ⟨nearer, outer, hn, ho, hc, hi, hlacks, hall⟩ heq
    rw [nearest?_eq hn hc hi, walk?_cons h, if_neg hlacks, resolveModule?_eq_none_iff h] at heq
    exact heq outer (ho.trans hn) hall

/-- The calls that make a module `b` inside of `a`, and another `a`, with nothing inside, in `o`. -/
def withShadow : SymbolTable :=
  (((empty.register (.module [] "a")).register (.module ["a"] "b")).register
    (.module [] "o")).register (.module ["o"] "a")

/-- From `o` the path `a.b` leads past the nearer `a` to the outer one, although the nearer `a` is what
the first name leads to. -/
theorem resolveModule?_of_shadow :
    withShadow.Reached ∧ withShadow.resolveModule? ["o"] ["a", "b"] = some ["a", "b"] ∧
      withShadow.resolveModule? ["o"] ["a", "b"] ≠ withShadow.nearest? ["o"] ["a", "b"] := by
  have hreached : withShadow.Reached := .call (.call (.call (.call .start rfl) rfl) rfl) rfl
  obtain ⟨hsome, hdiffers⟩ := resolveModule?_of_reached hreached ["o"] "a" ["b"]
  refine ⟨hreached, (hsome _).2 ⟨[], List.nil_prefix, rfl, by decide, ?_⟩,
    hdiffers.2 ⟨["o"], [], List.prefix_rfl, List.nil_prefix, by decide, ?_, by decide, by decide⟩⟩
  · intro nearer hn hl
    obtain rfl | hn := List.prefix_concat_iff.1 (show nearer <+: [] ++ ["o"] from hn)
    · decide
    · rw [List.prefix_nil.1 hn] at hl
      exact absurd hl (Nat.lt_irrefl _)
  · intro inner hp hl
    exact absurd hp.length_le (Nat.not_le_of_lt hl)

/-- The nearest submodule `a` of `o` and the modules around it holds no `b`, and still the path `a.b`
leads from `o` to a module. -/
theorem shadowed_path_differs :
    withShadow.Reached ∧ withShadow.contains ["o"] ∧
      withShadow.nearest? ["o"] ["a", "b"] = none ∧
      withShadow.resolveModule? ["o"] ["a", "b"] = some ["a", "b"] :=
  ⟨.call (.call (.call (.call .start rfl) rfl) rfl) rfl, by decide, by decide, by decide⟩

end SymbolTable

end MuLang
