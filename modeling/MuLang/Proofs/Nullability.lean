import MuLang.Proofs.Legality
import MuLang.Proofs.Registered
import MuLang.Proofs.Scoping

/-!
# Declarations that refuse null

A declaration with the modifier `nonnull` has no other modifier of that axis, so a type that it names
does not admit `null`, and its value, if it has one, has to fit. But where the type follows from the
value, nothing compares the value with the modifier: then the variable is nullable just if the value
is.
-/
namespace MuLang

/-! ## Modifiers and types -/

/-- Beside `nonnull` there is no `nullable`. -/
theorem Token.WellModified.areNullable_eq {invalid : Modifier → Bool} {tokens : List Token}
    (h : WellModified invalid tokens) (hn : .nonnull ∈ modifiers tokens) :
    areNullable tokens = false := by
  rw [areNullable, List.contains_eq_mem, decide_eq_false_iff_not]
  intro hm
  cases List.inj_on_of_nodup_map h.onePerAxis hm hn rfl

/-- A type is nullable only where its declaration says so. -/
theorem Token.not_nullable_of_registeredType? {token : Token} {type : Datatype}
    (h : token.registeredType? false = some type) : ¬type.nullable := by
  obtain ⟨found, hf, rfl⟩ := Option.map_eq_some_iff.1 h
  obtain ⟨kind, -, rfl⟩ := Option.map_eq_some_iff.1 hf
  split <;> exact Bool.false_ne_true

theorem Token.nullable_of_datatype? {token : Token} {nullable : Bool} {type : Datatype}
    (h : token.datatype? nullable = some type) : type.nullable = nullable := by
  obtain ⟨kind, -, rfl⟩ := Option.map_eq_some_iff.1 h
  rfl

/-- The type of a declaration is that of its value, which may be `null`. -/
structure VariableHeader.InfersNullable (header : VariableHeader) (value : Datatype) : Prop where
  inferred : Step.typeToken? value = some header.datatype
  nullable : value.nullable

/-- What does not admit `null` but takes a nullable value has its type from the value. -/
theorem VariableHeader.Takes.infersNullable {header : VariableHeader} {value : Datatype}
    (h : header.Takes value) (hm : Token.areNullable header.modifiers = false)
    (hn : value.nullable) : header.InfersNullable value := by
  obtain ⟨declared, hfits, hwritten | ⟨htoken, rfl⟩⟩ := h
  · have hnull := Datatype.nullable_of_fits hfits hn
    rw [Token.nullable_of_datatype? hwritten, hm] at hnull
    cases hnull
  · exact ⟨htoken, hn⟩

/-! ## Declarations of variables -/

/-- A declaration that says `nonnull` is not nullable, unless it has a nullable value among some
uses. -/
def Binding.Honors (uses : List (Site × Use)) (binding : Binding) : Prop :=
  .nonnull ∈ binding.modifiers → ∀ type, binding.datatype = some type → type.nullable →
    ∃ site header value, (site, .initializer header value) ∈ uses ∧
      binding = header.binding (some value.type) ∧
      Token.areNullable header.modifiers = false ∧ value.type.nullable

namespace Binding.Honors

variable {uses more : List (Site × Use)} {binding : Binding} {invalid : Modifier → Bool}

theorem mono (h : binding.Honors uses) (hs : uses ⊆ more) : binding.Honors more := by
  intro hn type ht hnull
  obtain ⟨site, header, value, hm, hrest⟩ := h hn type ht hnull
  exact ⟨site, header, value, hs hm, hrest⟩

theorem parameter {parameter : Parameter} (h : Token.WellModified invalid parameter.modifiers) :
    parameter.binding.Honors uses := by
  intro hn type ht hnull
  rw [Token.nullable_of_datatype? ht, h.areNullable_eq hn] at hnull
  cases hnull

theorem unvalued {header : VariableHeader} (h : Token.WellModified invalid header.modifiers) :
    (header.binding none).Honors uses := by
  intro hn type ht hnull
  rw [Token.nullable_of_datatype? ht, h.areNullable_eq hn] at hnull
  cases hnull

theorem valued {header : VariableHeader} {value : Expr} {site : Site}
    (h : Token.WellModified invalid header.modifiers)
    (hm : (site, .initializer header value) ∈ uses) :
    (header.binding (some value.type)).Honors uses := by
  intro hn type ht hnull
  have hmodifiers := h.areNullable_eq hn
  rw [Token.nullable_of_datatype? ht, hmodifiers] at hnull
  exact ⟨site, header, value, hm, rfl, hmodifiers, hnull⟩

end Binding.Honors

/-! ## Declarations in a function -/

/-- Whether no module and no function stands in a function. -/
def Standing.Secluded (standing : Standing) : Prop :=
  .function ∈ standing.around → standing.rank ≠ .module ∧ standing.rank ≠ .function

variable {binding : Binding}

theorem Event.not_declare_mem {events : List Event} (h : ∀ event ∈ events, event.isUse) :
    .declare binding ∉ events := fun hm => absurd (h _ hm) Bool.false_ne_true

/-- What is declared in a branch is declared in its body. -/
theorem Expr.declare_mem_branchEvents {condition : Expr} {body : List Event} :
    .declare binding ∈ condition.branchEvents body ↔ .declare binding ∈ body := by
  have hcondition := (Event.not_declare_mem condition.isUse_of_events : .declare binding ∉ condition.events)
  simp [branchEvents, hcondition]

theorem VariableHeader.honors_definition {header : VariableHeader} {value : Expr} {site : Site}
    {uses : List (Site × Use)} {invalid : Modifier → Bool}
    (hm : Token.WellModified invalid header.modifiers)
    (hu : (site, .initializer header value) ∈ uses)
    (h : .declare binding ∈ header.definitionEvents value) : binding.Honors uses := by
  obtain h | h := List.mem_append.1 h
  · exact absurd h (Event.not_declare_mem value.isUse_of_events)
  · cases List.mem_singleton.1 h
    exact .valued hm hu

mutual

theorem Stmt.honors : ∀ {stmt : Stmt} {around : List ScopeKind} {site : Site},
    .function ∈ around → (∀ standing ∈ stmt.standings around, standing.Secluded) →
    (∀ header ∈ stmt.locals, Token.WellModified Modifier.restrictsAccess header.modifiers) →
    .declare binding ∈ stmt.events → binding.Honors (stmt.uses site)
  -- Their locals would not be those of the function around them, but they do not stand there.
  | .module _ body, around, site, hf, hs, _, _ => absurd rfl (hs _ (.head _) hf).1
  | .function _ body, around, site, hf, hs, _, _ => absurd rfl (hs _ (.head _) hf).2
  | .native .., _, _, _, _, _, h => absurd h List.not_mem_nil
  | .declare header, around, site, _, _, hm, h => by
    cases List.mem_singleton.1 h
    exact .unvalued (hm header (.head _))
  | .define header value, around, site, _, _, hm, h =>
    header.honors_definition (hm header (.head _)) (.head _) h
  | .action action, _, _, _, _, _, h => absurd h (Event.not_declare_mem action.isUse_of_events)
  | .returning _ value, _, _, _, _, _, h =>
    absurd h (Event.not_declare_mem (Expr.isUse_of_eventsOfAll value.toList))
  | .stdlibFinish _, _, _, _, _, _, h => absurd h List.not_mem_nil
  | .ifElse _ condition body otherwise, around, site, hf, hs, hm, h => by
    simp only [Stmt.standings, List.forall_mem_cons, List.forall_mem_append] at hs
    simp only [Stmt.locals, List.forall_mem_append] at hm
    rw [Stmt.events, List.mem_append, Expr.declare_mem_branchEvents] at h
    obtain h | h := h
    · exact (Stmt.honorsIn (.tail _ hf) hs.2.1 hm.1 h).mono
        fun _ hu => .tail _ (List.mem_append_left _ hu)
    · exact (Else.honors hf hs.2.2 hm.2 h).mono
        fun _ hu => .tail _ (List.mem_append_right _ hu)
  | .whileLoop _ condition body, around, site, hf, hs, hm, h => by
    simp only [Stmt.standings, List.forall_mem_cons] at hs
    rw [Stmt.events, Expr.declare_mem_branchEvents] at h
    exact (Stmt.honorsIn (.tail _ hf) hs.2 hm h).mono (List.subset_cons_self _ _)
  | .forLoop _ header value condition step body, around, site, hf, hs, hm, h => by
    simp only [Stmt.standings, List.forall_mem_cons] at hs
    obtain ⟨hheader, hm⟩ := List.forall_mem_cons.1 hm
    simp only [Stmt.events, VariableHeader.loopEvents, List.mem_append, List.mem_cons,
      List.not_mem_nil, reduceCtorEq, false_or, or_false] at h
    obtain (h | h | h) | h := h
    · exact header.honors_definition hheader (.head _) h
    · exact absurd h (Event.not_declare_mem condition.isUse_of_events)
    · exact absurd h (Event.not_declare_mem step.isUse_of_events)
    · exact (Stmt.honorsIn (.tail _ hf) hs.2 hm h).mono
        fun _ hu => .tail _ (.tail _ (.tail _ hu))

theorem Else.honors : ∀ {otherwise : Else} {around : List ScopeKind} {site : Site},
    .function ∈ around → (∀ standing ∈ otherwise.standings around, standing.Secluded) →
    (∀ header ∈ otherwise.locals, Token.WellModified Modifier.restrictsAccess header.modifiers) →
    .declare binding ∈ otherwise.events → binding.Honors (otherwise.uses site)
  | .absent, _, _, _, _, _, h => absurd h List.not_mem_nil
  | .block body, around, site, hf, hs, hm, h => by
    simp only [Else.events, List.mem_append, List.mem_cons, List.not_mem_nil, reduceCtorEq,
      false_or, or_false] at h
    exact Stmt.honorsIn (.tail _ hf) hs hm h
  | .elseIf _ condition body otherwise, around, site, hf, hs, hm, h => by
    simp only [Else.standings, List.forall_mem_append] at hs
    simp only [Else.locals, List.forall_mem_append] at hm
    rw [Else.events, List.mem_append, Expr.declare_mem_branchEvents] at h
    obtain h | h := h
    · exact (Stmt.honorsIn (.tail _ hf) hs.1 hm.1 h).mono
        fun _ hu => .tail _ (List.mem_append_left _ hu)
    · exact (Else.honors hf hs.2 hm.2 h).mono
        fun _ hu => .tail _ (List.mem_append_right _ hu)

/-- What is declared in a function whose locals have their modifiers in order honors `nonnull`. -/
theorem Stmt.honorsIn : ∀ {body : List Stmt} {around : List ScopeKind} {site : Site},
    .function ∈ around → (∀ standing ∈ Stmt.standingsIn around body, standing.Secluded) →
    (∀ header ∈ Stmt.localsIn body,
      Token.WellModified Modifier.restrictsAccess header.modifiers) →
    .declare binding ∈ Stmt.eventsIn body → binding.Honors (Stmt.usesIn site body)
  | [], _, _, _, _, _, h => absurd h List.not_mem_nil
  | stmt :: rest, around, site, hf, hs, hm, h => by
    obtain ⟨hstmt, hrest⟩ := List.forall_mem_append.1 hs
    obtain ⟨hlocals, hothers⟩ := List.forall_mem_append.1 hm
    obtain h | h := List.mem_append.1 h
    · exact (Stmt.honors hf hstmt hlocals h).mono (List.subset_append_left _ _)
    · exact (Stmt.honorsIn hf hrest hothers h).mono (List.subset_append_right _ _)

end

/-! ## Declarations of a program -/

mutual

theorem Stmt.honors_of_admissible {natives : Native.Bindings} :
    ∀ {stmt : Stmt} {around : List ScopeKind} {path : ModulePath}, stmt.Admissible natives →
    (∀ inner ∈ stmt.bodies, ∀ other ∈ inner, other.Admissible natives) →
    (∀ standing ∈ stmt.standings around, standing.Secluded) →
    .declare binding ∈ stmt.events → binding.Honors (stmt.uses ⟨path, none, []⟩)
  | .module identifier body, around, path, _, hb, hs, h => by
    obtain ⟨hbody, hinner⟩ := List.forall_mem_cons.1 hb
    obtain ⟨-, hs⟩ := List.forall_mem_cons.1 hs
    simp only [Stmt.events, List.mem_append, List.mem_cons, List.not_mem_nil, reduceCtorEq,
      false_or, or_false] at h
    exact Stmt.honorsIn_of_admissible hbody hinner hs h
  | .function header body, around, path, ha, _, hs, h => by
    obtain ⟨-, hs⟩ := List.forall_mem_cons.1 hs
    simp only [Stmt.events, FunctionHeader.bindings, List.map_map, List.mem_append, List.mem_cons,
      List.mem_map, List.not_mem_nil, reduceCtorEq, false_or, or_false] at h
    obtain ⟨parameter, hp, he⟩ | h := h
    · cases he
      exact .parameter (ha.1.parameters parameter hp).modified
    · exact Stmt.honorsIn (.head _) hs ha.2 h
  | .declare header, around, path, ha, _, _, h => by
    cases List.mem_singleton.1 h
    exact .unvalued ha.modified
  | .define header value, around, path, ha, _, _, h =>
    header.honors_definition ha.modified (.head _) h
  | .native .., _, _, _, _, _, h => absurd h List.not_mem_nil
  | .stdlibFinish _, _, _, _, _, _, h => absurd h List.not_mem_nil
  | .action _, _, _, ha, _, _, _ => ha.elim
  | .ifElse .., _, _, ha, _, _, _ => ha.elim
  | .whileLoop .., _, _, ha, _, _, _ => ha.elim
  | .forLoop .., _, _, ha, _, _, _ => ha.elim
  | .returning .., _, _, ha, _, _, _ => ha.elim

/-- Where all statements may stand in their modules and their functions, what they declare honors
`nonnull`. -/
theorem Stmt.honorsIn_of_admissible {natives : Native.Bindings} :
    ∀ {body : List Stmt} {around : List ScopeKind} {path : ModulePath},
    (∀ stmt ∈ body, stmt.Admissible natives) →
    (∀ inner ∈ Stmt.bodiesIn body, ∀ stmt ∈ inner, stmt.Admissible natives) →
    (∀ standing ∈ Stmt.standingsIn around body, standing.Secluded) →
    .declare binding ∈ Stmt.eventsIn body → binding.Honors (Stmt.usesIn ⟨path, none, []⟩ body)
  | [], _, _, _, _, _, h => absurd h List.not_mem_nil
  | stmt :: rest, around, path, ha, hb, hs, h => by
    obtain ⟨hstmt, hrest⟩ := List.forall_mem_cons.1 ha
    obtain ⟨hbodies, hothers⟩ := List.forall_mem_append.1 hb
    obtain ⟨hstands, hstanding⟩ := List.forall_mem_append.1 hs
    rw [Stmt.usesIn, Site.after_outside]
    obtain h | h := List.mem_append.1 h
    · exact (Stmt.honors_of_admissible hstmt hbodies hstands h).mono
        (List.subset_append_left _ _)
    · exact (Stmt.honorsIn_of_admissible hrest hothers hstanding h).mono
        (List.subset_append_right _ _)

end

/-- In a program that is parsed without an error no module and no function stands in a function. -/
theorem secluded_of_parse {settings : Settings} {tokens : List Token} {program : List Stmt}
    (hb : settings.maxErrors ≠ some 0) (h : parse settings tokens = (some program, [])) :
    ∀ standing ∈ Stmt.standingsIn [] program, standing.Secluded := by
  obtain ⟨items, t, -, hwrites⟩ := exists_writes_of_parse hb h
  obtain ⟨hlegal, -⟩ := hwrites.legalIn (.start _ _)
  rw [Stmt.standingsIn_writtenAll] at hlegal
  generalize Stmt.standingsIn [] program = standings at hlegal
  intro standing hs hf
  obtain ⟨before, after, rfl⟩ := List.append_of_mem hs
  obtain ⟨-, hlegal, -⟩ := Standing.legalIn_append.1 hlegal
  exact ⟨(hlegal.secluded hf).1, (hlegal.secluded hf).2.1⟩

section Analysis

variable {settings : Settings} {natives : Native.Bindings} {tokens : List Token}
  {analysis : Analysis}

theorem takes_of_analyze (h : analyze settings natives tokens = .ok analysis) {site : Site}
    {header : VariableHeader} {value : Expr}
    (hu : (site, .initializer header value) ∈ Stmt.usesIn .root analysis.program) :
    header.Takes value.type := by
  by_cases hb : settings.maxErrors = some 0
  · rw [program_of_no_budget hb h] at hu
    cases hu
  · exact ((analyzed_of_analyze hb h).parsed.sound _ hu).obeys

theorem kind_ne_void_of_analyze (h : analyze settings natives tokens = .ok analysis)
    {path : ModulePath} {header : VariableHeader} {value : Option Datatype}
    (hd : .global path header value ∈ Stmt.declarationsIn [] analysis.program) :
    header.datatype.kind ≠ .typeName .void := by
  by_cases hb : settings.maxErrors = some 0
  · rw [program_of_no_budget hb h] at hd
    cases hd
  · exact ((analyzed_of_analyze hb h).parsed.wellTyped _ hd).1

/-- A function that says `nonnull` returns what is not nullable, and so are its parameters that say
it. -/
theorem nonnull_of_function (h : analyze settings natives tokens = .ok analysis)
    {path : ModulePath} {definition : FunctionDefinition}
    (hm : definition ∈ (analysis.symbols.module path).members) :
    (.nonnull ∈ definition.modifiers → ¬definition.returnType.nullable) ∧
      ∀ parameter ∈ definition.parameters, .nonnull ∈ parameter.modifiers →
        ¬parameter.datatype.nullable := by
  obtain ⟨header, ha, he, -⟩ := exists_function_of_analyze h hm
  obtain ⟨type, ht, he⟩ := Option.map_eq_some_iff.1 he
  rw [← he]
  refine ⟨fun hn => ?_, fun parameter hp hn => ?_⟩
  · rw [ha.modified.areNullable_eq hn] at ht
    exact Token.not_nullable_of_registeredType? ht
  · obtain ⟨written, hw, hentry⟩ := List.mem_filterMap.1 hp
    obtain ⟨type, ht, rfl⟩ := Option.map_eq_some_iff.1 hentry
    rw [(ha.parameters written hw).modified.areNullable_eq hn] at ht
    exact Token.not_nullable_of_registeredType? ht

/-- A global that says `nonnull` is nullable just if its type follows from a value that is. -/
theorem nonnull_of_global (h : analyze settings natives tokens = .ok analysis)
    {path : ModulePath} {v : Variable} (hm : v ∈ (analysis.symbols.module path).globals)
    (hn : .nonnull ∈ v.modifiers) : ∃ (header : VariableHeader) (value : Option Datatype),
      .global path header value ∈ Stmt.declarationsIn [] analysis.program ∧
      header.identifier.text = v.name ∧
      (v.datatype.nullable ↔ ∃ type ∈ value, header.InfersNullable type) := by
  obtain ⟨header, value, ha, he, hd, hu⟩ := exists_global_of_analyze h hm
  refine ⟨header, _, hd, ?_⟩
  obtain ⟨type, ht, rfl⟩ := Option.map_eq_some_iff.1 he
  have hmodifiers := ha.modified.areNullable_eq hn
  rw [hmodifiers, Bool.false_or] at ht
  refine ⟨rfl, fun hnull => ?_, ?_⟩
  · cases value with
    | none => exact absurd hnull (Token.not_nullable_of_registeredType? ht)
    | some value =>
      cases hv : value.type.nullable with
      | false =>
        rw [Option.map_some, Option.any_some, hv] at ht
        exact absurd hnull (Token.not_nullable_of_registeredType? ht)
      | true =>
        exact ⟨_, rfl, (takes_of_analyze h (hu value rfl)).infersNullable hmodifiers hv⟩
  · rintro ⟨valued, hv, hinfers⟩
    rw [hv, Option.any_some, hinfers.nullable] at ht
    obtain ⟨found, hf, rfl⟩ := Option.map_eq_some_iff.1 ht
    have hvoid := Token.kind_ne_void_of_datatype? hf (kind_ne_void_of_analyze h hd)
    rw [if_neg hvoid]
    exact Token.nullable_of_datatype? hf

/-- A local that says `nonnull` is read as nullable just if its type follows from a value that
is. -/
theorem nonnull_of_read (h : analyze settings natives tokens = .ok analysis) {p : Point}
    (hp : p ∈ Stmt.pointsIn .root 0 analysis.program) {type : Datatype} {identifier : Token}
    {known : Known} (he : p.event = .read type identifier)
    (hk : p.around.bound? identifier = some known) (hn : .nonnull ∈ known.binding.modifiers) :
    type.nullable ↔ ∃ site header value,
      (site, .initializer header value) ∈ Stmt.usesIn .root analysis.program ∧
      known.binding = header.binding (some value.type) ∧ header.InfersNullable value.type := by
  by_cases hb : settings.maxErrors = some 0
  · rw [program_of_no_budget hb h] at hp
    cases hp
  obtain ⟨final, hr⟩ := runs_of_analyze hb h
  obtain ⟨saved, scopes, after, hevent, hmirrors⟩ := exists_mirrors hr hp
  have htype : known.binding.datatype = some type := by
    rw [he] at hevent
    obtain ⟨place, v, hresolve, ht⟩ := hevent.resolves rfl
    rw [ht type rfl]
    exact (hmirrors.stands_of_resolve hresolve hk).1.datatype_eq
  constructor
  · intro hnull
    rw [Stmt.pointsIn_root] at hp
    have hdeclare : .declare known.binding ∈ Stmt.eventsIn analysis.program :=
      List.mem_of_getElem? (Trail.declare_of_mem_locals hp (Surroundings.mem_of_bound? hk))
    obtain ⟨hadmissible, -⟩ := entries_of_analyze h
    have hhonors : known.binding.Honors (Stmt.usesIn .root analysis.program) :=
      Stmt.honorsIn_of_admissible hadmissible.1 hadmissible.2
        (secluded_of_parse hb (analyze_eq_ok.1 h).1) hdeclare
    obtain ⟨site, header, value, hu, heq, hmodifiers, hv⟩ := hhonors hn type htype hnull
    exact ⟨site, header, value, hu, heq, (takes_of_analyze h hu).infersNullable hmodifiers hv⟩
  · rintro ⟨site, header, value, -, heq, hinfers⟩
    rw [heq] at htype
    have hnull := Token.nullable_of_datatype? htype
    rwa [Option.any_some, hinfers.nullable, Bool.or_true] at hnull

/-- In every program that is accepted, no function with the modifier `nonnull` returns a nullable
type, and no parameter with it has one. A global or a local with it is nullable just if its
declaration leaves the type to the value and the value may be `null`, which nothing compares with
the modifier. -/
theorem analyze_nonnull (h : analyze settings natives tokens = .ok analysis) :
    (∀ module ∈ analysis.symbols.modules,
      (∀ definition ∈ module.members,
        (.nonnull ∈ definition.modifiers → ¬definition.returnType.nullable) ∧
          ∀ parameter ∈ definition.parameters, .nonnull ∈ parameter.modifiers →
            ¬parameter.datatype.nullable) ∧
      ∀ v ∈ module.globals, .nonnull ∈ v.modifiers →
        ∃ (header : VariableHeader) (value : Option Datatype),
          .global module.path header value ∈ Stmt.declarationsIn [] analysis.program ∧
          header.identifier.text = v.name ∧
          (v.datatype.nullable ↔ ∃ type ∈ value, header.InfersNullable type)) ∧
    ∀ p ∈ Stmt.pointsIn .root 0 analysis.program, ∀ type identifier known,
      p.event = .read type identifier → p.around.bound? identifier = some known →
      .nonnull ∈ known.binding.modifiers →
        (type.nullable ↔ ∃ site header value,
          (site, .initializer header value) ∈ Stmt.usesIn .root analysis.program ∧
          known.binding = header.binding (some value.type) ∧
          header.InfersNullable value.type) := by
  refine ⟨fun module hmodule => ⟨fun definition hm => ?_, fun v hm hn => ?_⟩,
    fun p hp type identifier known he hk hn => nonnull_of_read h hp he hk hn⟩
  · rw [← module_of_analyze h hmodule] at hm
    exact nonnull_of_function h hm
  · rw [← module_of_analyze h hmodule] at hm
    exact nonnull_of_global h hm hn

end Analysis

/-- The words of `module m { nullable int a = null; nonnull ? b = a; fn f { nonnull ? y = a;
bool c = y == null; } }`. -/
def admitting : List Token :=
  [.synthetic (.keyword .moduleWord) "module", .synthetic .identifier "m",
    .synthetic .openCurly "\x7b", .synthetic (.modifier .nullable) "nullable",
    .synthetic (.typeName .int) "int", .synthetic .identifier "a",
    .synthetic (.assign .plain) "=", .synthetic (.literal .null) "null", .synthetic .semicolon ";",
    .synthetic (.modifier .nonnull) "nonnull", .synthetic .question "?",
    .synthetic .identifier "b", .synthetic (.assign .plain) "=", .synthetic .identifier "a",
    .synthetic .semicolon ";", .synthetic (.keyword .fnWord) "fn", .synthetic .identifier "f",
    .synthetic .openCurly "\x7b", .synthetic (.modifier .nonnull) "nonnull",
    .synthetic .question "?", .synthetic .identifier "y", .synthetic (.assign .plain) "=",
    .synthetic .identifier "a", .synthetic .semicolon ";", .synthetic (.typeName .bool) "bool",
    .synthetic .identifier "c", .synthetic (.assign .plain) "=", .synthetic .identifier "y",
    .synthetic (.binary .equal) "==", .synthetic (.literal .null) "null", .synthetic .semicolon ";",
    .synthetic .closeCurly "\x7d", .synthetic .closeCurly "\x7d"]

/-- A declaration of that program that leaves its type to the value `a`. -/
def admittingHeader (name : String) : VariableHeader :=
  ⟨[.synthetic (.modifier .nonnull) "nonnull"], .synthetic .identifier name,
    .synthetic (.typeName .int) "int"⟩

/-- The value `a`. -/
def admittedValue : Expr := .read ⟨.int, true⟩ (.synthetic .identifier "a")

/-- The body of the function in that program. -/
def admittedBody : List Stmt :=
  [.define (admittingHeader "y") admittedValue,
    .define ⟨[], .synthetic .identifier "c", .synthetic (.typeName .bool) "bool"⟩
      (.binary .bool (.read ⟨.int, true⟩ (.synthetic .identifier "y"))
        (.synthetic (.binary .equal) "==") (.literal .null (.synthetic (.literal .null) "null")))]

/-- What that program is analyzed as. -/
def admitted : Analysis where
  program :=
    [.module (.synthetic .identifier "m")
      [.define ⟨[.synthetic (.modifier .nullable) "nullable"], .synthetic .identifier "a",
          .synthetic (.typeName .int) "int"⟩ (.literal .null (.synthetic (.literal .null) "null")),
        .define (admittingHeader "b") admittedValue,
        .function ⟨[], .synthetic .identifier "f", voidToken, []⟩ admittedBody]]
  symbols := ⟨[.empty [],
    ⟨["m"], [⟨"a", ⟨.int, true⟩, [.nullable], true⟩, ⟨"b", ⟨.int, true⟩, [.nonnull], true⟩],
      [⟨"f", .plain .void, [⟨"f", .plain .void, [], [], .interpreted admittedBody⟩]⟩]⟩]⟩

theorem analyze_admitting : analyze {} (fun _ _ => .notFound) admitting = .ok admitted := by
  with_unfolding_all rfl

/-- The read of `y`, which is in scope there. -/
def admittedPoint : Point where
  place := 7
  around := ⟨["m"], true, [⟨6, (admittingHeader "y").binding (some ⟨.int, true⟩)⟩]⟩
  event := .read ⟨.int, true⟩ (.synthetic .identifier "y")

theorem admittedPoint_mem : admittedPoint ∈ Stmt.pointsIn .root 0 admitted.program :=
  .tail _ (.tail _ (.tail _ (.tail _ (.tail _ (.head _)))))

/-- The program is accepted, and both its global `b` and its local `y`, which say `nonnull`, are
nullable. -/
theorem admitted_nullable :
    analyze {} (fun _ _ => .notFound) admitting = .ok admitted ∧
    (∃ module ∈ admitted.symbols.modules, ∃ v ∈ module.globals,
      .nonnull ∈ v.modifiers ∧ v.datatype.nullable) ∧
    ∃ p ∈ Stmt.pointsIn .root 0 admitted.program, ∃ type identifier known,
      p.event = .read type identifier ∧ p.around.bound? identifier = some known ∧
      .nonnull ∈ known.binding.modifiers ∧ type.nullable :=
  ⟨analyze_admitting, ⟨_, .tail _ (.head _), _, .tail _ (.head _), .head _, rfl⟩,
    admittedPoint, admittedPoint_mem, _, _, _, rfl, rfl, .head _, rfl⟩

/-- They are so since their types follow from the nullable value. -/
theorem analyze_nonnull_admitting :
    (∃ (header : VariableHeader) (value : Option Datatype),
      .global ["m"] header value ∈ Stmt.declarationsIn [] admitted.program ∧
      header.identifier.text = "b" ∧ ∃ type ∈ value, header.InfersNullable type) ∧
    ∃ site header value,
      (site, .initializer header value) ∈ Stmt.usesIn .root admitted.program ∧
      (admittingHeader "y").binding (some ⟨.int, true⟩) = header.binding (some value.type) ∧
      header.InfersNullable value.type := by
  obtain ⟨hsymbols, hreads⟩ := analyze_nonnull analyze_admitting
  obtain ⟨-, hglobals⟩ := hsymbols _ (.tail _ (.head _))
  obtain ⟨header, value, hd, hname, hiff⟩ := hglobals _ (.tail _ (.head _)) (.head _)
  exact ⟨⟨header, value, hd, hname, hiff.1 rfl⟩,
    (hreads admittedPoint admittedPoint_mem _ _ _ rfl rfl (.head _)).1 rfl⟩

end MuLang
