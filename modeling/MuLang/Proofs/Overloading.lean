import MuLang.Proofs.Paths
import MuLang.Proofs.Rearrangement

/-!
# What calls lead to

A call looks for functions in one module, and is a call of the function there whose parameters have
just the types of its arguments. There is at most one such function, whatever it returns, so it does
not matter in which order functions have been added; and where functions of a name have been found,
more of them do not lead a call elsewhere.
-/
namespace MuLang

/-- The first module on the way up that satisfies a condition is the innermost one that does. -/
theorem ModulePath.find?_ancestors_eq_some {holds : ModulePath → Bool} {path owner : ModulePath} :
    path.ancestors.find? holds = some owner ↔ owner <+: path ∧ holds owner ∧
      ∀ inner, inner <+: path → owner.length < inner.length → holds inner = false := by
  induction path using List.reverseRecOn with
  | nil =>
    have hroot : ancestors [] = [[]] := rfl
    rw [hroot, List.find?_singleton, List.prefix_nil]
    constructor
    · intro h
      obtain ⟨hh, rfl⟩ : holds [] = true ∧ [] = owner := by
        split at h
        next hh => exact ⟨hh, Option.some.inj h⟩
        next => cases h
      refine ⟨rfl, hh, fun inner hi hl => ?_⟩
      obtain rfl := List.prefix_nil.1 hi
      exact absurd hl (Nat.lt_irrefl _)
    · rintro ⟨rfl, hh, -⟩
      rw [if_pos hh]
  | append_singleton path name ih =>
    rw [ancestors_concat, List.find?_cons]
    cases hh : holds (path ++ [name]) with
    | true =>
      constructor
      · rintro ⟨⟩
        exact ⟨List.prefix_rfl, hh, fun inner hi hl => absurd hi.length_le (Nat.not_le.2 hl)⟩
      · rintro ⟨ho, -, hinner⟩
        obtain rfl | ho := List.prefix_concat_iff.1 ho
        · rfl
        · have hl := ho.length_le
          have hnot := hinner _ List.prefix_rfl (by simp; omega)
          rw [hh] at hnot
          cases hnot
    | false =>
      refine ih.trans ?_
      constructor
      · rintro ⟨ho, howner, hinner⟩
        refine ⟨ho.trans (List.prefix_append _ _), howner, fun inner hi hl => ?_⟩
        obtain rfl | hi := List.prefix_concat_iff.1 hi
        · exact hh
        · exact hinner inner hi hl
      · rintro ⟨ho, howner, hinner⟩
        obtain rfl | ho := List.prefix_concat_iff.1 ho
        · rw [hh] at howner
          cases howner
        · exact ⟨ho, howner, fun inner hi hl => hinner inner (hi.trans (List.prefix_append _ _)) hl⟩

namespace SymbolTable

variable {table other extended : SymbolTable} {source owner path : ModulePath} {callee : Token}
  {arguments : List Datatype} {type : Datatype} {access : AccessPolicy}
  {definition : FunctionDefinition}

/-- The module in which a call looks for functions: the nearest one around that has functions of an
unqualified name, and for a qualified name the one that its path leads to. -/
inductive Target (table : SymbolTable) (source : ModulePath) (callee : QualifiedName)
    (owner : ModulePath) : Prop
  | nearest : callee.path = [] → owner <+: source →
      (table.module owner).definitions callee.name ≠ [] →
      (∀ inner, inner <+: source → owner.length < inner.length →
        (table.module inner).definitions callee.name = []) → Target table source callee owner
  | qualified : callee.path ≠ [] → table.resolveModule? source callee.path = some owner →
      Target table source callee owner

theorem functionModule_eq_ok :
    Env.functionModule ⟨table, access⟩ source callee = .ok (some owner) ↔
      table.Target source (QualifiedName.split callee.text) owner := by
  unfold Env.functionModule
  generalize QualifiedName.split callee.text = qualified
  obtain ⟨path, name⟩ := qualified
  dsimp only
  cases path with
  | nil =>
    rw [List.isEmpty_nil, if_pos rfl, Except.ok.injEq, ModulePath.find?_ancestors_eq_some]
    simp only [Bool.not_eq_true', Bool.not_eq_false', List.isEmpty_iff, List.isEmpty_eq_false_iff]
    constructor
    · rintro ⟨ho, howner, hinner⟩
      exact .nearest rfl ho howner hinner
    · rintro (⟨-, ho, howner, hinner⟩ | ⟨hn, -⟩)
      · exact ⟨ho, howner, hinner⟩
      · exact absurd rfl hn
  | cons first rest =>
    rw [List.isEmpty_cons, if_neg Bool.false_ne_true]
    constructor
    · intro h
      cases hr : table.resolveModule? source (first :: rest) with
      | none =>
        rw [hr] at h
        cases h
      | some found =>
        rw [hr] at h
        cases h
        exact .qualified (List.cons_ne_nil _ _) hr
    · rintro (⟨hn, -, -, -⟩ | ⟨-, hr⟩)
      · cases hn
      · dsimp only at hr
        rw [hr]

/-! ## At most one function -/

theorem Reached.unambiguous (h : table.Reached) : table.Unambiguous :=
  ⟨h.sound.distinct, h.sound.regular⟩

theorem Reached.distinct_signatures (h : table.Reached) : table.Distinct := fun path name =>
  (h.unambiguous.module path).signatures name

/-- Of the functions of a name at most one has parameters of the given types. -/
theorem Distinct.length_filter_le_one (h : table.Distinct) (path : ModulePath) (name : String)
    (arguments : List Datatype) :
    (((table.module path).definitions name).filter
      (·.parameterTypes = arguments)).length ≤ 1 := by
  rw [← List.countP_eq_length_filter]
  calc ((table.module path).definitions name).countP (·.parameterTypes = arguments)
      = (((table.module path).definitions name).map (·.parameterTypes)).count arguments := by
        rw [List.count, List.countP_map]
        exact List.countP_congr fun definition _ => by simp
    _ ≤ 1 := List.nodup_iff_count_le_one.1 (h path name) arguments

/-- The function that a call finds is the one with parameters of the types of its arguments. -/
theorem Distinct.find?_eq_some (h : table.Distinct) {name : String} :
    ((table.module path).definitions name).find? (·.accepts arguments) = some definition ↔
      definition ∈ (table.module path).definitions name ∧
        definition.parameterTypes = arguments := by
  constructor
  · intro hf
    have ha := List.find?_some hf
    exact ⟨List.mem_of_find?_eq_some hf, of_decide_eq_true ha⟩
  · rintro ⟨hm, ha⟩
    have hsome : (((table.module path).definitions name).find? (·.accepts arguments)).isSome :=
      List.find?_isSome.2 ⟨definition, hm, decide_eq_true ha⟩
    obtain ⟨found, hf⟩ := Option.isSome_iff_exists.1 hsome
    -- It is the only one among those that take the arguments.
    have honly := Env.filter_accepts_of_find? (h path name) hf
    have hmem : definition ∈ ((table.module path).definitions name).filter (·.accepts arguments) :=
      List.mem_filter.2 ⟨hm, decide_eq_true ha⟩
    rw [honly, List.mem_singleton] at hmem
    rw [hf, hmem]

/-- A call finds its function in the module where it looks for it, if it is admitted there. -/
theorem Distinct.call_eq_ok (h : table.Distinct) :
    Env.call ⟨table, access⟩ source callee arguments = .ok type ↔
      ∃ owner, table.Target source (QualifiedName.split callee.text) owner ∧
        ∃ definition ∈ (table.module owner).definitions (QualifiedName.split callee.text).name,
          definition.parameterTypes = arguments ∧
          Env.admits ⟨table, access⟩ source owner definition.modifiers ∧
          type = definition.returnType := by
  constructor
  · intro hcall
    obtain ⟨owner, definition, hf, hd, ha, rfl⟩ := Env.calls_of_call h hcall
    have hm : definition ∈ [definition] := List.mem_singleton_self _
    rw [← hd, List.mem_filter] at hm
    exact ⟨owner, functionModule_eq_ok.1 hf, definition, hm.1, of_decide_eq_true hm.2, ha, rfl⟩
  · rintro ⟨owner, ht, definition, hm, hp, ha, rfl⟩
    have hne : ((table.module owner).definitions (QualifiedName.split callee.text).name).isEmpty =
        false := List.isEmpty_eq_false_iff.2 (List.ne_nil_of_mem hm)
    simp only [Env.call, functionModule_eq_ok.2 ht, bind, Except.bind, hne, Bool.false_eq_true,
      if_false, h.find?_eq_some.2 ⟨hm, hp⟩, Option.getD_some, Env.checkAccess, ha, if_true]
    rfl

/-! ## The order of the functions -/

/-- Two tables with the same modules, in which the functions of each name are the same. -/
structure SameFunctions (table other : SymbolTable) : Prop where
  contains_eq : ∀ path, table.contains path = other.contains path
  mem_iff : ∀ path name definition, definition ∈ (table.module path).definitions name ↔
    definition ∈ (other.module path).definitions name

theorem SameFunctions.callsAlike (h : table.SameFunctions other) (ht : table.Distinct)
    (ho : other.Distinct) : table.CallsAlike other := by
  have hp (path : ModulePath) (name : String) :
      ((table.module path).definitions name).Perm ((other.module path).definitions name) :=
    (List.perm_ext_iff_of_nodup (ht path name).of_map (ho path name).of_map).2
      (h.mem_iff path name)
  exact ⟨h.contains_eq, fun path name => (hp path name).isEmpty_eq, fun path name arguments =>
    find?_of_perm FunctionDefinition.parameterTypes (hp path name) (ht path name) arguments⟩

/-- What can be added in one order can be added in any other one that has each module before what it
holds, and calls find the same. -/
theorem exists_addAll_of_perm {entries others : List Entry} (ht : table.Unambiguous)
    (hp : entries.Perm others) (hr : Entry.Rooted table.paths entries)
    (ho : Entry.Rooted table.paths others) (ha : Entry.addAll table entries = .ok extended) :
    ∃ rearranged, Entry.addAll table others = .ok rearranged ∧ extended.CallsAlike rearranged := by
  obtain ⟨hlacks, hkeys, rfl⟩ := (Entry.addAll_eq_ok ht.distinct hr).1 ha
  have hb : Entry.addAll table others = .ok (table.extend others) :=
    (Entry.addAll_eq_ok ht.distinct ho).2
      ⟨fun entry he => hlacks entry (hp.mem_iff.2 he), (hp.map _).nodup_iff.1 hkeys, rfl⟩
  refine ⟨_, hb, ((Rearranges.refl table).extend hp).answers ?_ ?_ |>.toCallsAlike⟩
  · exact registerAll_of_addAll ha ▸ ht.registerAll entries
  · exact registerAll_of_addAll hb ▸ ht.registerAll others

/-! ## More functions of a name -/

/-- A function is added as long as none of its name has the same parameter types. -/
theorem exists_addFunction
    (hp : ∀ other ∈ (table.module path).definitions definition.name,
      other.parameterTypes ≠ definition.parameterTypes) :
    ∃ extended, table.addFunction path definition = .ok extended := by
  have hany : ¬((table.module path).definitions definition.name).any
      (·.parameterTypes = definition.parameterTypes) := by
    simpa using hp
  rw [addFunction, Module.addFunction, if_neg hany]
  exact ⟨_, rfl⟩

/-- Where there have been functions of a name there still are some, and nowhere else. -/
theorem definitions_addFunction_eq_nil (ha : table.addFunction path definition = .ok extended)
    (hn : (table.module path).definitions definition.name ≠ []) {name : String} :
    (extended.module owner).definitions name = [] ↔ (table.module owner).definitions name = [] := by
  simp only [List.eq_nil_iff_forall_not_mem, mem_definitions_addFunction ha, not_or]
  refine ⟨fun h other => (h other).1, fun h other => ⟨h other, ?_⟩⟩
  rintro ⟨⟨rfl, -⟩, rfl, -⟩
  exact hn (List.eq_nil_iff_forall_not_mem.2 h)

/-- Calls look for functions in the same modules as before. -/
theorem Target.addFunction (ha : table.addFunction path definition = .ok extended)
    (hn : (table.module path).definitions definition.name ≠ []) {callee : QualifiedName}
    (h : table.Target source callee owner) : extended.Target source callee owner := by
  cases h with
  | nearest hu ho howner hinner =>
    refine .nearest hu ho (mt (definitions_addFunction_eq_nil ha hn).1 howner) ?_
    exact fun inner hi hl => (definitions_addFunction_eq_nil ha hn).2 (hinner inner hi hl)
  | qualified hq hr =>
    refine .qualified hq ?_
    rw [← hr]
    exact resolveModule?_congr (fun p => contains_addFunction ha) _ _

/-- A call that has led to a function leads to it still. -/
theorem call_addFunction (ht : table.Distinct)
    (ha : table.addFunction path definition = .ok extended)
    (hn : (table.module path).definitions definition.name ≠ [])
    (h : Env.call ⟨table, access⟩ source callee arguments = .ok type) :
    Env.call ⟨extended, access⟩ source callee arguments = .ok type := by
  obtain ⟨owner, howner, found, hm, hp, hadmits, rfl⟩ := ht.call_eq_ok.1 h
  exact (ht.addFunction ha).call_eq_ok.2 ⟨owner, howner.addFunction ha hn, found,
    (mem_definitions_addFunction ha).2 (.inl hm), hp, hadmits, rfl⟩

/-! ## Calls in the tables of programs -/

/-- A call has a type exactly if the module where it looks for functions has one of the name with
parameters of just the types of the arguments, which may be called from where the call stands; the
type is the one that this function returns, and no other function is like it. The outcome does not
depend on the order in which the functions have been added, and a call that has a type keeps it when
a module that has functions of a name is given one more with other parameters. -/
theorem call_of_reached (h : table.Reached) (access : AccessPolicy) (source : ModulePath)
    (callee : Token) (arguments : List Datatype) :
    (∀ type, Env.call ⟨table, access⟩ source callee arguments = .ok type ↔
      ∃ owner, table.Target source (QualifiedName.split callee.text) owner ∧
        ∃ definition ∈ (table.module owner).definitions (QualifiedName.split callee.text).name,
          definition.parameterTypes = arguments ∧
          Env.admits ⟨table, access⟩ source owner definition.modifiers ∧
          type = definition.returnType) ∧
    (∀ owner, (((table.module owner).definitions (QualifiedName.split callee.text).name).filter
      (·.parameterTypes = arguments)).length ≤ 1) ∧
    (∀ other : SymbolTable, other.Reached → table.SameFunctions other →
      Env.call ⟨other, access⟩ source callee arguments =
        Env.call ⟨table, access⟩ source callee arguments) ∧
    (∀ entries others extended, entries.Perm others → Entry.Rooted table.paths entries →
      Entry.Rooted table.paths others → Entry.addAll table entries = .ok extended →
      ∃ rearranged, Entry.addAll table others = .ok rearranged ∧
        Env.call ⟨rearranged, access⟩ source callee arguments =
          Env.call ⟨extended, access⟩ source callee arguments) ∧
    ∀ path definition, table.contains path →
      (table.module path).definitions definition.name ≠ [] →
      (∀ other ∈ (table.module path).definitions definition.name,
        other.parameterTypes ≠ definition.parameterTypes) →
      ∃ extended, table.addFunction path definition = .ok extended ∧
        ∀ type, Env.call ⟨table, access⟩ source callee arguments = .ok type →
          Env.call ⟨extended, access⟩ source callee arguments = .ok type := by
  have hd := h.distinct_signatures
  refine ⟨fun type => hd.call_eq_ok, fun owner => hd.length_filter_le_one _ _ _,
    fun other ho hs => ?_, fun entries others extended hp hr hro ha => ?_,
    fun path definition _ hn hp => ?_⟩
  · exact (Env.call_eq_of_callsAlike (hs.callsAlike hd ho.distinct_signatures) _ _ _).symm
  · obtain ⟨rearranged, hb, halike⟩ := exists_addAll_of_perm h.unambiguous hp hr hro ha
    exact ⟨rearranged, hb, (Env.call_eq_of_callsAlike halike _ _ _).symm⟩
  · obtain ⟨extended, ha⟩ := exists_addFunction hp
    exact ⟨extended, ha, fun type => call_addFunction hd ha hn⟩

/-- Two functions, from `int` and from `bool` to `bool`, are added to `m` in one order or the other,
and the second is found as before; so is the function from nothing to `int` beside it. -/
theorem call_of_reached_overloads :
    let callee : Token := .synthetic .identifier "m.f"
    let takes (type : Datatype) : FunctionDefinition :=
      ⟨"f", .bool, [⟨"a", type, []⟩], [], .interpreted []⟩
    let entries : List Entry :=
      [.function ["m"] (takes (.plain .int)), .function ["m"] (takes .bool)]
    withFunction.Reached ∧
      Env.call ⟨withFunction, {}⟩ [] callee [] = .ok (.plain .int) ∧
      (∃ extended rearranged, Entry.addAll withFunction entries = .ok extended ∧
        Entry.addAll withFunction entries.reverse = .ok rearranged ∧
        Env.call ⟨rearranged, {}⟩ [] callee [.bool] =
          Env.call ⟨extended, {}⟩ [] callee [.bool]) ∧
      ∃ extended, withFunction.addFunction ["m"] (takes .bool) = .ok extended ∧
        Env.call ⟨extended, {}⟩ [] callee [] = .ok (.plain .int) := by
  intro callee takes entries
  have hreached : withFunction.Reached := .call (.call .start rfl) rfl
  have hm : ["m"] ∈ withFunction.paths := by decide
  have hname : QualifiedName.split callee.text = ⟨["m"], "f"⟩ := by
    have htext : callee.text = joinDots ["m"] ++ "." ++ "f" := by decide
    rw [htext, QualifiedName.split_joinDots (List.cons_ne_nil "m" []) (by decide) (by decide)]
  have hfunctions : (withFunction.module ["m"]).definitions "f" =
      [⟨"f", .plain .int, [], [], .interpreted []⟩] := rfl
  obtain ⟨hiff, -, -, -, hmore⟩ := call_of_reached hreached {} [] callee []
  have hcall : Env.call ⟨withFunction, {}⟩ [] callee [] = .ok (.plain .int) := by
    refine (hiff _).2 ⟨["m"], ?_⟩
    rw [hname, hfunctions]
    exact ⟨.qualified nofun rfl, _, List.mem_singleton_self _, rfl, rfl, rfl⟩
  obtain ⟨-, -, -, horder, -⟩ := call_of_reached hreached {} [] callee [.bool]
  obtain ⟨rearranged, hadded, heq⟩ := horder entries entries.reverse (withFunction.extend entries)
    (List.reverse_perm _).symm ⟨hm, hm, trivial⟩ ⟨hm, hm, trivial⟩ (by with_unfolding_all rfl)
  have hsome : (withFunction.module ["m"]).definitions "f" ≠ [] := by
    rw [hfunctions]
    exact List.cons_ne_nil _ _
  have hother : ∀ other ∈ (withFunction.module ["m"]).definitions "f",
      other.parameterTypes ≠ [.bool] := by
    rw [hfunctions]
    decide
  obtain ⟨extended, hextended, hkept⟩ := hmore ["m"] (takes .bool) rfl hsome hother
  exact ⟨hreached, hcall, ⟨_, rearranged, by with_unfolding_all rfl, hadded, heq⟩, extended,
    hextended, hkept _ hcall⟩

end SymbolTable

end MuLang
