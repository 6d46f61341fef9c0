import Mathlib.Data.List.Forall2
import Mathlib.Data.List.Induction
import Mathlib.Data.List.Perm.Subperm
import MuLang.Proofs.Places.Definitions
import MuLang.Proofs.Rearrangement

/-!
# Tables as trees

A table holds its modules in the order in which they were added, and modules of different parents
may have been added in any order. Two tables that calls reach are the same exactly if they are equal
as trees, where of these orders only that of the submodules of each module is left. So successful
calls on different modules may be exchanged.
-/
namespace MuLang

/-- The name of a module inside the one around it. -/
def ModulePath.name (path : ModulePath) : String := path.getLast?.getD rootName

/-- What a module holds, wherever it stands in a table: its name, and its variables, functions and
submodules in the order in which they were added. -/
inductive Contents where
  | node (name : String) (globals : List Variable) (functions : List Overloads)
      (submodules : List Contents)

def Contents.name : Contents → String
  | .node name .. => name

theorem Module.sameMembers_iff {module other : Module} : module.sameMembers other ↔
    module.globals = other.globals ∧ module.functions.map (·.mapBody .stripped) =
      other.functions.map (·.mapBody .stripped) := by
  simp [sameMembers, Overloads.sameAll_iff]

namespace SymbolTable

mutual

/-- The contents of a tree. The bodies of functions are taken without the places of their words,
which no comparison of functions looks at. -/
def Tree.contents : Tree → Contents
  | .node module submodules =>
    .node module.path.name module.globals (module.functions.map (·.mapBody .stripped))
      (contentsAll submodules)

def Tree.contentsAll : List Tree → List Contents
  | [] => []
  | tree :: rest => tree.contents :: contentsAll rest

end

/-- The contents of all modules from the root on. -/
def contents (table : SymbolTable) : Contents := table.tree.contents

/-- Whether two modules hold the same down to a depth: they have one name, the same members and as
many submodules, and these hold the same one by one. -/
def sameAt (left right : SymbolTable) : Nat → ModulePath → ModulePath → Bool
  | 0, path, other => path.name = other.name && (left.module path).sameMembers (right.module other)
  | depth + 1, path, other =>
    path.name = other.name && (left.module path).sameMembers (right.module other) &&
      (left.submodules path).length = (right.submodules other).length &&
      ((left.submodules path).zip (right.submodules other)).all fun pair =>
        left.sameAt right depth pair.1 pair.2

variable {table left right : SymbolTable} {path other : ModulePath} {depth m n : Nat}

/-! ## Contents of modules -/

theorem Tree.contentsAll_eq_map (trees : List Tree) :
    contentsAll trees = trees.map contents := by
  induction trees with
  | nil => rfl
  | cons tree rest ih => rw [contentsAll, ih, List.map_cons]

@[simp] theorem contents_treeAt_zero (table : SymbolTable) (path : ModulePath) :
    (table.treeAt 0 path).contents = .node path.name (table.module path).globals
      ((table.module path).functions.map (·.mapBody .stripped)) [] := by
  rw [treeAt, Tree.contents, path_module, Tree.contentsAll]

@[simp] theorem contents_treeAt_succ (table : SymbolTable) (depth : Nat) (path : ModulePath) :
    (table.treeAt (depth + 1) path).contents = .node path.name (table.module path).globals
      ((table.module path).functions.map (·.mapBody .stripped))
      ((table.submodules path).map fun inner => (table.treeAt depth inner).contents) := by
  rw [treeAt, Tree.contents, path_module, Tree.contentsAll_eq_map, List.map_map]
  rfl

theorem name_contents_treeAt (table : SymbolTable) (depth : Nat) (path : ModulePath) :
    (table.treeAt depth path).contents.name = path.name := by
  cases depth <;> simp [Contents.name]

/-- Walking through two tables at once compares the contents of the modules. -/
theorem sameAt_iff : left.sameAt right depth path other ↔
    (left.treeAt depth path).contents = (right.treeAt depth other).contents := by
  induction depth generalizing path other with
  | zero => simp [sameAt, Module.sameMembers_iff]
  | succ depth ih =>
    have hsubmodules : ((left.submodules path).map fun inner => (left.treeAt depth inner).contents) =
        ((right.submodules other).map fun inner => (right.treeAt depth inner).contents) ↔
        (left.submodules path).length = (right.submodules other).length ∧
          ∀ {first second}, (first, second) ∈
            (left.submodules path).zip (right.submodules other) →
              left.sameAt right depth first second := by
      rw [← List.forall₂_eq_eq_eq, List.forall₂_map_left_iff, List.forall₂_map_right_iff,
        List.forall₂_iff_zip]
      simp only [ih]
    rw [contents_treeAt_succ, contents_treeAt_succ, Contents.node.injEq, hsubmodules]
    simp [sameAt, Module.sameMembers_iff, and_assoc]

/-! ## Paths of grown tables -/

theorem Grown.iterate_parent (h : table.Grown) (hp : path ∈ table.paths) (steps : Nat) :
    ModulePath.parent^[steps] path ∈ table.paths := (h.arboreal.rooted path hp).1 steps

/-- No module lies deeper than there are modules, since those around it are all different. -/
theorem Grown.length_lt (h : table.Grown) (hp : path ∈ table.paths) :
    path.length < table.modules.length := by
  have hn : ((List.range (path.length + 1)).map (ModulePath.parent^[·] path)).Nodup := by
    refine List.nodup_range.map_on fun first hf second hs he => ?_
    have hlength := congrArg List.length he
    rw [length_iterate_parent, length_iterate_parent] at hlength
    rw [List.mem_range] at hf hs
    omega
  have hs : (List.range (path.length + 1)).map (ModulePath.parent^[·] path) ⊆ table.paths := by
    intro outer ho
    obtain ⟨steps, -, rfl⟩ := List.mem_map.1 ho
    exact h.iterate_parent hp steps
  have hlength := (hn.subperm hs).length_le
  rw [List.length_map, List.length_range, paths, List.length_map] at hlength
  omega

theorem Reached.root_mem (h : table.Reached) : [] ∈ table.paths := by
  induction h with
  | start => exact List.mem_singleton_self _
  | call _ _ ih => exact mem_paths_register.2 (.inl ih)

theorem mem_submodules_concat {name : String} :
    path ++ [name] ∈ table.submodules path ↔ path ++ [name] ∈ table.paths := by
  simp [mem_submodules, ModulePath.parent]

/-- What holds of the root and passes from each module to its submodules holds of all modules. -/
theorem Grown.forall_paths (h : table.Grown) {motive : ModulePath → Prop} (root : motive [])
    (inner : ∀ outer name, outer ∈ table.paths → outer ++ [name] ∈ table.submodules outer →
      motive outer → motive (outer ++ [name])) : ∀ path ∈ table.paths, motive path := by
  intro path hp
  induction path using List.reverseRecOn with
  | nil => exact root
  | append_singleton outer name ih =>
    have houter : outer ∈ table.paths := by
      simpa [ModulePath.parent] using h.parent _ hp
    exact inner outer name houter (mem_submodules_concat.2 hp) (ih houter)

/-- Submodules are told by their names. -/
theorem submodules_eq_map (table : SymbolTable) (path : ModulePath) :
    table.submodules path =
      ((table.submodules path).map ModulePath.name).map (path ++ [·]) := by
  rw [List.map_map]
  refine (List.map_id _).symm.trans (List.map_congr_left fun inner hi => ?_)
  obtain ⟨-, hn, rfl⟩ := mem_submodules.1 hi
  simp [ModulePath.name, ModulePath.parent, List.getLast?_eq_getLast_of_ne_nil hn,
    List.dropLast_append_getLast hn]

/-! ## Sameness -/

/-- Tables are the same if they have as many modules and agree on each of the first one. -/
theorem same_iff (hn : left.paths.Nodup) : left.same right ↔
    left.modules.length = right.modules.length ∧ ∀ path ∈ left.paths, path ∈ right.paths ∧
      (left.module path).sameMembers (right.module path) ∧
      left.submodules path = right.submodules path := by
  rw [same, Bool.and_eq_true, decide_eq_true_iff, List.all_eq_true, paths, List.forall_mem_map]
  refine and_congr_right fun _ => forall₂_congr fun module hm => ?_
  rw [module_eq_of_mem hn hm, ← contains_iff, contains, SymbolTable.module]
  cases right.module? module.path <;> simp

/-- Tables that are the same have modules of the same contents. -/
theorem contents_treeAt_of_same (hn : left.paths.Nodup) (h : left.same right)
    (hp : path ∈ left.paths) :
    (left.treeAt depth path).contents = (right.treeAt depth path).contents := by
  induction depth generalizing path with
  | zero =>
    obtain ⟨-, hm, -⟩ := ((same_iff hn).1 h).2 path hp
    rw [contents_treeAt_zero, contents_treeAt_zero, (Module.sameMembers_iff.1 hm).1,
      (Module.sameMembers_iff.1 hm).2]
  | succ depth ih =>
    obtain ⟨-, hm, hs⟩ := ((same_iff hn).1 h).2 path hp
    have hinner : (left.submodules path).map (fun inner => (left.treeAt depth inner).contents) =
        (right.submodules path).map fun inner => (right.treeAt depth inner).contents := by
      rw [← hs]
      exact List.map_congr_left fun inner hi => ih (mem_submodules.1 hi).1
    rw [contents_treeAt_succ, contents_treeAt_succ, (Module.sameMembers_iff.1 hm).1,
      (Module.sameMembers_iff.1 hm).2, hinner]

/-- Modules of the same contents have the same members and the same submodules, which have the same
contents again. -/
theorem of_contents_treeAt
    (h : (left.treeAt (m + 1) path).contents = (right.treeAt (n + 1) path).contents) :
    (left.module path).sameMembers (right.module path) ∧
      left.submodules path = right.submodules path ∧ ∀ inner ∈ left.submodules path,
        (left.treeAt m inner).contents = (right.treeAt n inner).contents := by
  rw [contents_treeAt_succ, contents_treeAt_succ, Contents.node.injEq] at h
  obtain ⟨-, hglobals, hfunctions, hcontents⟩ := h
  have hnames := congrArg (List.map Contents.name) hcontents
  simp only [List.map_map, Function.comp_def, name_contents_treeAt] at hnames
  have hsubmodules : left.submodules path = right.submodules path := by
    rw [submodules_eq_map, submodules_eq_map right]
    exact congrArg (List.map (path ++ [·])) hnames
  rw [← hsubmodules] at hcontents
  exact ⟨Module.sameMembers_iff.2 ⟨hglobals, hfunctions⟩, hsubmodules, List.map_inj_left.1 hcontents⟩

/-- Whoever walks from the roots of two tables of the same contents meets the same modules. The
depths to which the contents are known shrink on the way. -/
theorem mem_paths_of_contents (hl : left.Grown) (hr : [] ∈ right.paths)
    (hm : ∀ path ∈ left.paths, path.length < m)
    (hn : ∀ path ∈ left.paths, path ∈ right.paths → path.length < n)
    (h : (left.treeAt m []).contents = (right.treeAt n []).contents) :
    ∀ path ∈ left.paths, path ∈ right.paths ∧
      (left.treeAt (m - path.length) path).contents =
        (right.treeAt (n - path.length) path).contents := by
  refine hl.forall_paths ⟨hr, h⟩ fun outer name houter hmem ih => ?_
  obtain ⟨hother, hcontents⟩ := ih
  have hdepth : m - outer.length = m - (outer ++ [name]).length + 1 := by
    have := hm outer houter
    grind
  have hdepth' : n - outer.length = n - (outer ++ [name]).length + 1 := by
    have := hn outer houter hother
    grind
  rw [hdepth, hdepth'] at hcontents
  obtain ⟨-, hsubmodules, hinner⟩ := of_contents_treeAt hcontents
  refine ⟨?_, hinner _ hmem⟩
  rw [hsubmodules] at hmem
  exact mem_submodules_concat.1 hmem

/-- Tables of the same contents are the same. -/
theorem same_of_contents (hl : left.Grown) (hr : right.Grown) (hroot : [] ∈ left.paths)
    (hroot' : [] ∈ right.paths)
    (hm : ∀ path ∈ left.paths, path.length < m)
    (hn : ∀ path ∈ left.paths, path ∈ right.paths → path.length < n)
    (h : (left.treeAt m []).contents = (right.treeAt n []).contents) : left.same right := by
  have hagree : ∀ path ∈ left.paths, path ∈ right.paths ∧
      (left.module path).sameMembers (right.module path) ∧
      left.submodules path = right.submodules path := by
    intro path hp
    obtain ⟨hother, hcontents⟩ := mem_paths_of_contents hl hroot' hm hn h path hp
    obtain ⟨i, hi⟩ := Nat.exists_eq_add_one.2 (Nat.sub_pos_of_lt (hm path hp))
    obtain ⟨j, hj⟩ := Nat.exists_eq_add_one.2 (Nat.sub_pos_of_lt (hn path hp hother))
    rw [hi, hj] at hcontents
    obtain ⟨hmembers, hsubmodules, -⟩ := of_contents_treeAt hcontents
    exact ⟨hother, hmembers, hsubmodules⟩
  have hback : ∀ path ∈ right.paths, path ∈ left.paths := by
    refine hr.forall_paths hroot fun outer name _ hmem ih => ?_
    rw [← (hagree outer ih).2.2] at hmem
    exact mem_submodules_concat.1 hmem
  have hperm : left.paths.Perm right.paths := (List.perm_ext_iff_of_nodup hl.distinct
    hr.distinct).2 fun path => ⟨fun hp => (hagree path hp).1, hback path⟩
  exact (same_iff hl.distinct).2 ⟨by simpa [paths] using hperm.length_eq, hagree⟩

end SymbolTable

/-! ## Exchanging calls -/

namespace Entry

variable {entry first second : Entry} {paths : List ModulePath}

theorem rooted_singleton (h : entry.owner ∈ paths) : Rooted paths [entry] := by
  cases entry with
  | module => trivial
  | function | global => exact ⟨h, trivial⟩

/-- Entries of modules that are there can be added in any order. -/
theorem rooted_of_owners {entries : List Entry} (h : ∀ entry ∈ entries, entry.owner ∈ paths) :
    Rooted paths entries := by
  induction entries with
  | nil => trivial
  | cons entry rest ih =>
    obtain ⟨he, hr⟩ := List.forall_mem_cons.1 h
    exact (rooted_cons _ _ _).2
      ⟨rooted_singleton he, (ih hr).mono (List.subset_append_left _ _)⟩

theorem key_ne_of_owner_ne (h : first.owner ≠ second.owner) : first.key ≠ second.key := by
  cases first <;> cases second <;> simp_all [owner, key]

end Entry

namespace SymbolTable

variable {table left right : SymbolTable} {first second : Entry}

/-- Entries of different modules fill and extend the modules alike in either order. -/
theorem same_extend_swap (hn : (table.extend [first, second]).paths.Nodup)
    (ho : first.owner ≠ second.owner) :
    (table.extend [first, second]).same (table.extend [second, first]) := by
  have hperm : (table.extend [first, second]).paths.Perm (table.extend [second, first]).paths := by
    rw [paths_extend, paths_extend]
    exact .append_left _ ((List.Perm.swap second first []).filterMap _)
  refine (same_iff hn).2 ⟨by simpa [paths] using hperm.length_eq, fun path hp => ?_⟩
  have hother := hperm.mem_iff.1 hp
  -- One of the two entries belongs to another module.
  have hfill : Entry.fill [first, second] (table.module path) =
      Entry.fill [second, first] (table.module path) := by
    have hf := Entry.fill_append [first] [second] (table.module path)
    have hs := Entry.fill_append [second] [first] (table.module path)
    rw [List.singleton_append] at hf hs
    rw [hf, hs]
    by_cases hf : path = first.owner
    · have hs : path ≠ second.owner := hf ▸ ho
      rw [fill_of_ne_owner hs (by simp), fill_of_ne_owner hs (by simp)]
    · rw [fill_of_ne_owner hf (by simp), fill_of_ne_owner hf (by simp)]
  have hadded : (if path = first.owner then first.module?.toList else []) ++
        (if path = second.owner then second.module?.toList else []) =
      (if path = second.owner then second.module?.toList else []) ++
        (if path = first.owner then first.module?.toList else []) := by
    by_cases hf : path = first.owner
    · have hs : path ≠ second.owner := hf ▸ ho
      rw [if_neg hs, List.append_nil, List.nil_append]
    · rw [if_neg hf, List.append_nil, List.nil_append]
  refine ⟨hother, ?_, ?_⟩
  · rw [module_extend hp, module_extend hother, hfill]
    exact Module.sameMembers_iff.2 ⟨rfl, rfl⟩
  · simp [submodules_extend, hadded]

/-- Two calls on different modules that are there both succeed if each of them succeeds alone, and
then they can be exchanged. -/
theorem addAll_swap (hn : table.paths.Nodup) (hf : first.owner ∈ table.paths)
    (hs : second.owner ∈ table.paths) (ho : first.owner ≠ second.owner) :
    ((∃ extended, first.add table = .ok extended) ∧ (∃ extended, second.add table = .ok extended) ↔
      ∃ extended, Entry.addAll table [first, second] = .ok extended) ∧
    ∀ extended, Entry.addAll table [first, second] = .ok extended →
      ∃ other, Entry.addAll table [second, first] = .ok other ∧ extended.same other := by
  have hr : Entry.Rooted table.paths [first, second] :=
    Entry.rooted_of_owners (by simpa using ⟨hf, hs⟩)
  have hr' : Entry.Rooted table.paths [second, first] :=
    Entry.rooted_of_owners (by simpa using ⟨hs, hf⟩)
  have hk := Entry.key_ne_of_owner_ne ho
  have hboth (extended : SymbolTable) : Entry.addAll table [first, second] = .ok extended ↔
      (table.Lacks first.key ∧ table.Lacks second.key) ∧
        extended = table.extend [first, second] := by
    rw [Entry.addAll_eq_ok hn hr]
    simp [hk, and_assoc]
  refine ⟨by simp [hboth, Entry.add_eq_ok hn], fun extended ha => ?_⟩
  have hnodup := Entry.nodup_paths_of_addAll hn ha
  obtain ⟨⟨hlf, hls⟩, rfl⟩ := (hboth _).1 ha
  refine ⟨table.extend [second, first], ?_, same_extend_swap hnodup ho⟩
  rw [Entry.addAll_eq_ok hn hr']
  exact ⟨by simpa using ⟨hls, hlf⟩, by simpa using hk.symm, rfl⟩

/-- For all tables that calls reach, the comparison is a walk through both tables at once, and they
are equal exactly if their modules from the root on have the same contents, whatever the order in
which modules of different parents were added. And two calls on different modules that are there
both succeed one after the other if and only if each of them succeeds alone; then they succeed in
the other order too, and the tables that come out are equal. -/
theorem equality_of_reached (hl : left.Reached) (hr : right.Reached) :
    left.same right = left.sameAt right left.modules.length [] [] ∧
      (left.same right ↔ left.contents = right.contents) ∧
      ∀ first second : Entry, left.contains first.owner → left.contains second.owner →
        first.owner ≠ second.owner →
          ((∃ extended, first.add left = .ok extended) ∧
              (∃ extended, second.add left = .ok extended) ↔
            ∃ extended, Entry.addAll left [first, second] = .ok extended) ∧
          ∀ extended, Entry.addAll left [first, second] = .ok extended →
            ∃ other, Entry.addAll left [second, first] = .ok other ∧ extended.same other := by
  have hgl := hl.sound.toGrown
  have hgr := hr.sound.toGrown
  have hdepth : ∀ path ∈ left.paths, path.length < left.modules.length :=
    fun _ => hgl.length_lt
  refine ⟨Bool.eq_iff_iff.2 ?_, ⟨fun h => ?_, fun h => ?_⟩, fun first second hf hs ho => ?_⟩
  · rw [sameAt_iff]
    exact ⟨fun h => contents_treeAt_of_same hgl.distinct h hl.root_mem,
      same_of_contents hgl hgr hl.root_mem hr.root_mem hdepth fun path hp _ => hdepth path hp⟩
  · have hlength := ((same_iff hgl.distinct).1 h).1
    rw [contents, contents, tree, tree, ← hlength]
    exact contents_treeAt_of_same hgl.distinct h hl.root_mem
  · exact same_of_contents hgl hgr hl.root_mem hr.root_mem hdepth
      (fun _ _ hp => hgr.length_lt hp) h
  · exact addAll_swap hgl.distinct (contains_iff.1 hf) (contains_iff.1 hs) ho

/-- The calls that make modules `a`, `a.x` and `b` in this order. -/
def innerFirst : SymbolTable :=
  ((empty.register (.module [] "a")).register (.module ["a"] "x")).register (.module [] "b")

/-- The calls that make modules `a`, `b` and `a.x` in this order. -/
def innerLast : SymbolTable :=
  ((empty.register (.module [] "a")).register (.module [] "b")).register (.module ["a"] "x")

/-- The tables are equal although their modules stand in different places, and one more function
makes a difference. A variable of `b` and a submodule of `a` may be added in either order. -/
theorem equality_of_reached_innerLast :
    let first : Entry := .global ["b"] ⟨"v", .plain .int, [], true⟩
    let second : Entry := .module ["a"] "y"
    let changed := innerLast.register (.function ["a"] ⟨"h", .bool, [], [], .interpreted []⟩)
    innerFirst.paths ≠ innerLast.paths ∧
      innerFirst.contents = innerLast.contents ∧
      innerFirst.contents ≠ changed.contents ∧
      ∃ extended other, Entry.addAll innerFirst [first, second] = .ok extended ∧
        Entry.addAll innerFirst [second, first] = .ok other ∧ extended.same other := by
  intro first second changed
  have hfirst : innerFirst.Reached := .call (.call (.call .start rfl) rfl) rfl
  have hsecond : innerLast.Reached := .call (.call (.call .start rfl) rfl) rfl
  have hchanged : changed.Reached := .call hsecond rfl
  obtain ⟨-, hequal, hcalls⟩ := equality_of_reached hfirst hsecond
  obtain ⟨-, hdifferent, -⟩ := equality_of_reached hfirst hchanged
  obtain ⟨hboth, hswap⟩ := hcalls first second rfl rfl (by decide)
  obtain ⟨extended, ha⟩ := hboth.1 ⟨⟨_, rfl⟩, ⟨_, rfl⟩⟩
  obtain ⟨other, ho, hsame⟩ := hswap extended ha
  refine ⟨by decide, hequal.1 rfl, fun h => ?_, extended, other, ha, ho, hsame⟩
  have hsame : innerFirst.same changed = false := rfl
  rw [hdifferent.2 h] at hsame
  cases hsame

end SymbolTable

end MuLang
