import MuLang.Proofs.Entries
import MuLang.Proofs.Outline

/-!
# Declarations that can be defined

What a declaration must obey on its own, whatever else the program declares, and the entry of the
symbol table that it stands for then. A program is defined without an error exactly if each of its
declarations is admissible and their entries can be added one after the other.
-/
namespace MuLang

/-! ## Modifiers -/

namespace Token

/-- All words of a list are modifiers. -/
def AreModifiers (tokens : List Token) : Prop := ∀ token ∈ tokens, token.kind.isModifier

/-- Of each axis there is one modifier at most, and none is of a forbidden sort. -/
structure WellModified (invalid : Modifier → Bool) (tokens : List Token) : Prop where
  onePerAxis : ((modifiers tokens).map Modifier.axis).Nodup
  allowed : ∀ modifier ∈ modifiers tokens, ¬invalid modifier

/-- The type that a name stands for in a declaration. `void` never admits `null`. -/
def registeredType? (token : Token) (nullable : Bool) : Option Datatype :=
  (token.datatype? nullable).map fun type => if type.kind = .void then .void else type

variable {invalid : Modifier → Bool} {tokens : List Token} {token : Token}

theorem firstModifier?_eq_none : firstModifier? invalid tokens = none ↔
    ∀ modifier ∈ modifiers tokens, ¬invalid modifier := by
  simp only [firstModifier?, List.find?_eq_none, modifiers, List.mem_filterMap, Option.any_eq_true]
  grind

theorem firstRepeated?_eq_none {earlier : List Token} : firstRepeated? earlier tokens = none ↔
    (∀ before ∈ earlier, ∀ after ∈ tokens, before.kind ≠ after.kind) ∧
      tokens.Pairwise (·.kind ≠ ·.kind) := by
  induction tokens generalizing earlier with
  | nil => simp [firstRepeated?]
  | cons token rest ih =>
    rw [firstRepeated?]
    split
    next h =>
      obtain ⟨before, hb, he⟩ := List.any_eq_true.1 h
      simp only [reduceCtorEq, false_iff, not_and]
      exact fun hd => absurd (of_decide_eq_true he) (hd before hb token List.mem_cons_self)
    next h =>
      simp only [List.any_eq_true, decide_eq_true_eq, not_exists, not_and] at h
      rw [ih, List.pairwise_cons]
      grind

theorem firstClashing?_eq_none {earlier : List Token} : firstClashing? earlier tokens = none ↔
    (∀ before ∈ earlier, ∀ after ∈ tokens, ¬clash before.kind after.kind) ∧
      tokens.Pairwise (¬clash ·.kind ·.kind) := by
  induction tokens generalizing earlier with
  | nil => simp [firstClashing?]
  | cons token rest ih =>
    rw [firstClashing?]
    split
    next h =>
      obtain ⟨before, hb, he⟩ := List.any_eq_true.1 h
      simp only [reduceCtorEq, false_iff, not_and]
      exact fun hd => absurd he (hd before hb token List.mem_cons_self)
    next h =>
      simp only [List.any_eq_true, not_exists, not_and] at h
      rw [ih, List.pairwise_cons]
      grind

/-- Two modifiers stand on different axes exactly if they neither repeat one another nor clash. -/
theorem axis_ne_iff {first second : Kind} {m n : Modifier} (hf : first.modifier? = some m)
    (hs : second.modifier? = some n) :
    m.axis ≠ n.axis ↔ first ≠ second ∧ ¬clash first second := by
  have hk : first = second ↔ m = n := by
    cases first <;> cases second <;> simp_all [Kind.modifier?]
  rw [clash, hf, hs, ne_eq, ne_eq, hk]
  by_cases hm : m = n
  · simp [hm]
  · simp [hm]

/-- Some modifiers stand on different axes exactly if no two of them repeat one another or clash. -/
theorem onePerAxis_iff (h : AreModifiers tokens) : ((modifiers tokens).map Modifier.axis).Nodup ↔
    tokens.Pairwise (·.kind ≠ ·.kind) ∧ tokens.Pairwise (¬clash ·.kind ·.kind) := by
  rw [List.Nodup, List.pairwise_map, modifiers, List.pairwise_filterMap, ← List.pairwise_and_iff]
  refine List.Pairwise.iff_of_mem fun {first second} hf hs => ?_
  obtain ⟨m, hm⟩ := Option.isSome_iff_exists.1 (h first hf)
  obtain ⟨n, hn⟩ := Option.isSome_iff_exists.1 (h second hs)
  rw [← axis_ne_iff hm hn]
  simp [hm, hn]

theorem isSome_registeredType? {nullable : Bool} :
    (token.registeredType? nullable).isSome = token.kind.isTypeName := by
  simp [registeredType?, datatype?, Kind.primitive?, Kind.isTypeName]

end Token

namespace Definition

open Token

variable {invalid : Modifier → Bool} {tokens : List Token} {token : Token}

/-- The modifiers of a declaration are accepted exactly if they are in order. -/
theorem checkModifiers_eq_ok {target : String} {u : Unit} (h : AreModifiers tokens) :
    checkModifiers target tokens invalid = .ok u ↔ WellModified invalid tokens := by
  have hw : WellModified invalid tokens ↔ firstModifier? invalid tokens = none ∧
      firstRepeated? [] tokens = none ∧ firstClashing? [] tokens = none := by
    rw [firstModifier?_eq_none, firstRepeated?_eq_none, firstClashing?_eq_none]
    simp only [List.not_mem_nil, false_implies, implies_true, true_and, ← onePerAxis_iff h]
    exact ⟨fun hw => ⟨hw.allowed, hw.onePerAxis⟩, fun hw => ⟨hw.2, hw.1⟩⟩
  rw [hw, checkModifiers]
  cases firstModifier? invalid tokens <;> cases firstRepeated? [] tokens <;>
    cases firstClashing? [] tokens <;> simp

theorem datatype_eq_ok {nullable : Bool} {type : Datatype} :
    datatype token nullable = .ok type ↔ token.registeredType? nullable = some type := by
  rw [datatype, registeredType?]
  cases token.datatype? nullable <;> simp

end Definition

/-! ## The locals of a function -/

mutual

/-- The locals that a statement of a function declares, with those of all blocks inside it. -/
def Stmt.locals : Stmt → List VariableHeader
  | .declare header => [header]
  | .define header _ => [header]
  | .ifElse _ _ body otherwise => Stmt.localsIn body ++ otherwise.locals
  | .whileLoop _ _ body => Stmt.localsIn body
  | .forLoop _ header _ _ _ body => header :: Stmt.localsIn body
  | _ => []

/-- The locals that are declared after the block of an `if`. -/
def Else.locals : Else → List VariableHeader
  | .absent => []
  | .block body => Stmt.localsIn body
  | .elseIf _ _ body otherwise => Stmt.localsIn body ++ otherwise.locals

/-- The locals that some statements declare. -/
def Stmt.localsIn : List Stmt → List VariableHeader
  | [] => []
  | stmt :: rest => stmt.locals ++ Stmt.localsIn rest

end

namespace Definition

theorem localErrors_eq_nil {header : VariableHeader} (h : Token.AreModifiers header.modifiers) :
    localErrors header = [] ↔ Token.WellModified Modifier.restrictsAccess header.modifiers := by
  rw [← @checkModifiers_eq_ok _ _ "variable" () h, localErrors]
  cases checkModifiers "variable" header.modifiers Modifier.restrictsAccess <;> simp

mutual

theorem errorsOf_eq_nil : ∀ {stmt : Stmt}, (∀ header ∈ stmt.locals, Token.AreModifiers header.modifiers) →
    (errorsOf stmt = [] ↔ ∀ header ∈ stmt.locals,
      Token.WellModified Modifier.restrictsAccess header.modifiers)
  | .declare header, h => by
    simpa [errorsOf, Stmt.locals] using localErrors_eq_nil (h header (.head _))
  | .define header _, h => by
    simpa [errorsOf, Stmt.locals] using localErrors_eq_nil (h header (.head _))
  | .ifElse _ _ body otherwise, h => by
    obtain ⟨hb, ho⟩ := List.forall_mem_append.1 h
    rw [errorsOf, List.append_eq_nil_iff, errorsIn_eq_nil hb, errorsAfter_eq_nil ho, Stmt.locals,
      List.forall_mem_append]
  | .whileLoop _ _ body, h => by
    rw [errorsOf, errorsIn_eq_nil h, Stmt.locals]
  | .forLoop _ header _ _ _ body, h => by
    obtain ⟨hv, hb⟩ := List.forall_mem_cons.1 h
    rw [errorsOf, List.append_eq_nil_iff, localErrors_eq_nil hv, errorsIn_eq_nil hb, Stmt.locals,
      List.forall_mem_cons]
  | .module .., _ => by simp [errorsOf, Stmt.locals]
  | .function .., _ => by simp [errorsOf, Stmt.locals]
  | .native .., _ => by simp [errorsOf, Stmt.locals]
  | .action _, _ => by simp [errorsOf, Stmt.locals]
  | .returning .., _ => by simp [errorsOf, Stmt.locals]
  | .stdlibFinish _, _ => by simp [errorsOf, Stmt.locals]

theorem errorsAfter_eq_nil : ∀ {otherwise : Else},
    (∀ header ∈ otherwise.locals, Token.AreModifiers header.modifiers) →
    (errorsAfter otherwise = [] ↔ ∀ header ∈ otherwise.locals,
      Token.WellModified Modifier.restrictsAccess header.modifiers)
  | .absent, _ => by simp [errorsAfter, Else.locals]
  | .block body, h => by rw [errorsAfter, errorsIn_eq_nil h, Else.locals]
  | .elseIf _ _ body otherwise, h => by
    obtain ⟨hb, ho⟩ := List.forall_mem_append.1 h
    rw [errorsAfter, List.append_eq_nil_iff, errorsIn_eq_nil hb, errorsAfter_eq_nil ho, Else.locals,
      List.forall_mem_append]

/-- The locals of a block cause no error exactly if their modifiers are in order. -/
theorem errorsIn_eq_nil : ∀ {body : List Stmt},
    (∀ header ∈ Stmt.localsIn body, Token.AreModifiers header.modifiers) →
    (errorsIn body = [] ↔ ∀ header ∈ Stmt.localsIn body,
      Token.WellModified Modifier.restrictsAccess header.modifiers)
  | [], _ => by simp [errorsIn, Stmt.localsIn]
  | stmt :: rest, h => by
    obtain ⟨hs, hr⟩ := List.forall_mem_append.1 h
    rw [errorsIn, List.append_eq_nil_iff, errorsOf_eq_nil hs, errorsIn_eq_nil hr, Stmt.localsIn,
      List.forall_mem_append]

end

end Definition

/-! ## Functions and globals -/

/-- A parameter that may stand in any function: nothing restricts who may refer to it, and its type
is one. -/
structure Parameter.Admissible (parameter : Parameter) : Prop where
  modified : Token.WellModified Modifier.restrictsAccess parameter.modifiers
  typed : parameter.datatype.kind.isTypeName

/-- A parameter as the symbol table holds it. -/
def Parameter.entry? (parameter : Parameter) : Option FunctionParameter :=
  (parameter.datatype.registeredType? (Token.areNullable parameter.modifiers)).map fun type =>
    ⟨parameter.identifier.text, type, Token.modifiers parameter.modifiers⟩

namespace FunctionHeader

/-- A function that may stand in any module: no modifier speaks of change, and its parameters and
its return type are in order. -/
structure Admissible (header : FunctionHeader) : Prop where
  modified : Token.WellModified Modifier.isMutability header.modifiers
  parameters : ∀ parameter ∈ header.parameters, parameter.Admissible
  typed : header.returnType.kind.isTypeName

/-- A function as the symbol table holds it. -/
def entry? (header : FunctionHeader) (body : FunctionBody) : Option FunctionDefinition :=
  (header.returnType.registeredType? (Token.areNullable header.modifiers)).map fun type =>
    ⟨header.identifier.text, type, header.parameters.filterMap Parameter.entry?,
      Token.modifiers header.modifiers, body⟩

/-- The words among the modifiers of a header and its parameters are modifiers. -/
def AreModifiers (header : FunctionHeader) : Prop :=
  Token.AreModifiers header.modifiers ∧
    ∀ parameter ∈ header.parameters, Token.AreModifiers parameter.modifiers

/-- The host has one function for a native declaration, of the declared return type. -/
def Bound (natives : Native.Bindings) (header : FunctionHeader) (binding : Token) : Prop :=
  ∃ definition descriptor, header.entry? (.native (nativeName header binding) none) = some definition ∧
    natives (nativeName header binding) definition.parameterTypes = .found descriptor ∧
    descriptor.returnType = definition.returnType

/-- A native function as the symbol table holds it, with the function of the host. -/
def nativeEntry? (natives : Native.Bindings) (header : FunctionHeader) (binding : Token) :
    Option FunctionDefinition :=
  (header.entry? (.native (nativeName header binding) none)).bind fun definition =>
    match natives (nativeName header binding) definition.parameterTypes with
    | .found descriptor =>
      some { definition with body := .native (nativeName header binding) (some descriptor) }
    | _ => none

end FunctionHeader

namespace VariableHeader

/-- A global that may stand in any module: its type is one, and a constant has a value. -/
structure Admissible (header : VariableHeader) (value : Option Datatype) : Prop where
  modified : Token.WellModified (fun _ => false) header.modifiers
  valued : value.isSome ∨ ¬Modifier.isConstant (Token.modifiers header.modifiers)
  typed : header.datatype.kind.isTypeName

/-- A global as the symbol table holds it. It is nullable where a modifier or its value says so. -/
def entry? (header : VariableHeader) (value : Option Datatype) : Option Variable :=
  (header.datatype.registeredType?
      (Token.areNullable header.modifiers || value.any (·.nullable))).map fun type =>
    ⟨header.identifier.text, type, Token.modifiers header.modifiers, true⟩

end VariableHeader

namespace Definition

variable {header : FunctionHeader} {definition : FunctionDefinition}

theorem parameter_eq_ok {parameter : Parameter} {registered : FunctionParameter}
    (h : Token.AreModifiers parameter.modifiers) :
    Definition.parameter parameter = .ok registered ↔
      parameter.Admissible ∧ parameter.entry? = some registered := by
  have ha : parameter.Admissible ↔ Token.WellModified Modifier.restrictsAccess parameter.modifiers ∧
      parameter.datatype.kind.isTypeName := ⟨fun ha => ⟨ha.1, ha.2⟩, fun ha => ⟨ha.1, ha.2⟩⟩
  simp only [Definition.parameter, Except.bind_eq_ok, Except.pure_eq_ok, checkModifiers_eq_ok h,
    datatype_eq_ok, ha, ← @Token.isSome_registeredType? _ (Token.areNullable parameter.modifiers),
    Parameter.entry?, Option.map_eq_some_iff, exists_const, and_assoc, Option.isSome_iff_exists]
  grind

theorem parameters_eq_ok {parameters : List Parameter} {registered : List FunctionParameter}
    (h : ∀ parameter ∈ parameters, Token.AreModifiers parameter.modifiers) :
    parameters.mapM Definition.parameter = .ok registered ↔
      (∀ parameter ∈ parameters, parameter.Admissible) ∧
        parameters.filterMap Parameter.entry? = registered := by
  induction parameters generalizing registered with
  | nil => simp
  | cons parameter rest ih =>
    obtain ⟨hp, hr⟩ := List.forall_mem_cons.1 h
    simp only [List.mapM_cons, Except.bind_eq_ok, Except.pure_eq_ok, parameter_eq_ok hp, ih hr,
      List.forall_mem_cons, List.filterMap_cons]
    constructor
    · rintro ⟨first, ⟨ha, he⟩, _, ⟨hall, rfl⟩, rfl⟩
      exact ⟨⟨ha, hall⟩, by rw [he]⟩
    · rintro ⟨⟨ha, hall⟩, he⟩
      have hs : parameter.entry?.isSome := by
        rw [Parameter.entry?, Option.isSome_map, Token.isSome_registeredType?]
        exact ha.typed
      obtain ⟨first, hf⟩ := Option.isSome_iff_exists.1 hs
      rw [hf] at he
      exact ⟨first, ⟨ha, hf⟩, _, ⟨hall, rfl⟩, he⟩

theorem function_eq_ok {body : FunctionBody} (h : header.AreModifiers) :
    Definition.function header body = .ok definition ↔
      header.Admissible ∧ header.entry? body = some definition := by
  have ha : header.Admissible ↔ Token.WellModified Modifier.isMutability header.modifiers ∧
      (∀ parameter ∈ header.parameters, parameter.Admissible) ∧
      header.returnType.kind.isTypeName := ⟨fun ha => ⟨ha.1, ha.2, ha.3⟩, fun ha => ⟨ha.1, ha.2.1, ha.2.2⟩⟩
  simp only [Definition.function, Except.bind_eq_ok, Except.pure_eq_ok, checkModifiers_eq_ok h.1,
    parameters_eq_ok h.2, datatype_eq_ok, ha,
    ← @Token.isSome_registeredType? _ (Token.areNullable header.modifiers), FunctionHeader.entry?,
    Option.map_eq_some_iff, exists_const, and_assoc, Option.isSome_iff_exists]
  grind

theorem bind_eq_ok {natives : Native.Bindings} {binding : Token} {descriptor : Native.Descriptor} :
    Definition.bind natives header binding definition = .ok descriptor ↔
      natives (nativeName header binding) definition.parameterTypes = .found descriptor ∧
        descriptor.returnType = definition.returnType := by
  rw [Definition.bind]
  cases natives (nativeName header binding) definition.parameterTypes with
  | notFound => simp
  | ambiguous => simp
  | found other =>
    simp only [ne_eq, ite_not, Except.ite_eq_ok, Native.Answer.found.injEq]
    grind

theorem isSome_entry? (h : header.Admissible) (body : FunctionBody) : (header.entry? body).isSome := by
  rw [FunctionHeader.entry?, Option.isSome_map, Token.isSome_registeredType?]
  exact h.typed

variable {table extended : SymbolTable} {path : ModulePath}

theorem addFunction_iff {identifier : Token} :
    Definition.addFunction table path identifier definition = .ok extended ↔
      table.addFunction path definition = .ok extended := by
  rw [Definition.addFunction]
  cases table.addFunction path definition <;> simp

theorem native_eq_ok {natives : Native.Bindings} {binding : Token} (h : header.AreModifiers) :
    Definition.native natives table path header binding = .ok extended ↔
      (header.Admissible ∧ header.Bound natives binding) ∧
        Entry.addAll table ((header.nativeEntry? natives binding).map (.function path)).toList =
          .ok extended := by
  simp only [Definition.native, Except.bind_eq_ok, function_eq_ok h, bind_eq_ok, addFunction_iff]
  constructor
  · rintro ⟨definition, ⟨ha, he⟩, descriptor, ⟨hf, hr⟩, hadd⟩
    refine ⟨⟨ha, definition, descriptor, he, hf, hr⟩, ?_⟩
    simp [FunctionHeader.nativeEntry?, he, hf, Entry.add, hadd]
  · rintro ⟨⟨ha, definition, descriptor, he, hf, hr⟩, hadd⟩
    refine ⟨definition, ⟨ha, he⟩, descriptor, ⟨hf, hr⟩, ?_⟩
    simpa [FunctionHeader.nativeEntry?, he, hf, Entry.add] using hadd

theorem global_eq_ok {header : VariableHeader} {value : Option Datatype}
    (h : Token.AreModifiers header.modifiers) :
    Definition.global table path header value = .ok extended ↔
      header.Admissible value ∧
        Entry.addAll table ((header.entry? value).map (.global path)).toList = .ok extended := by
  have hc : (value.isNone && Modifier.isConstant (Token.modifiers header.modifiers)) = true ↔
      ¬(value.isSome ∨ ¬Modifier.isConstant (Token.modifiers header.modifiers)) := by
    cases value <;> simp
  simp only [Definition.global, Except.bind_eq_ok, Except.ite_eq_ok, Except.throw_ne_ok,
    checkModifiers_eq_ok h, datatype_eq_ok, hc, false_and, and_false, exists_false, false_or,
    exists_const]
  constructor
  · rintro ⟨hm, hv, type, ht, ha⟩
    have htyped : header.datatype.kind.isTypeName := by
      rw [← Token.isSome_registeredType?, ht]
      rfl
    refine ⟨⟨hm, Decidable.not_not.1 hv, htyped⟩, ?_⟩
    split at ha
    next hadd =>
      cases ha
      simpa [VariableHeader.entry?, ht, Entry.add] using hadd
    next => cases ha
  · rintro ⟨⟨hm, hv, htyped⟩, ha⟩
    rw [← Token.isSome_registeredType?, Option.isSome_iff_exists] at htyped
    obtain ⟨type, ht⟩ := htyped
    refine ⟨hm, Decidable.not_not.2 hv, type, ht, ?_⟩
    have hadd : table.addVariable path ⟨header.identifier.text, type,
        Token.modifiers header.modifiers, true⟩ = .ok extended := by
      simpa [VariableHeader.entry?, ht, Entry.add] using ha
    simp [hadd]

end Definition

/-! ## Programs -/

mutual

/-- The entries of the symbol table that a statement of a module stands for, with those of all
modules inside it. -/
def Stmt.entries (natives : Native.Bindings) (path : ModulePath) : Stmt → List Entry
  | .module identifier body =>
    .module path identifier.text :: Stmt.entriesIn natives (path ++ [identifier.text]) body
  | .function header body => ((header.entry? (.interpreted body)).map (.function path)).toList
  | .native header binding => ((header.nativeEntry? natives binding).map (.function path)).toList
  | .declare header => ((header.entry? none).map (.global path)).toList
  | .define header value => ((header.entry? (some value.type)).map (.global path)).toList
  | _ => []

/-- The entries that the statements of a module stand for. -/
def Stmt.entriesIn (natives : Native.Bindings) (path : ModulePath) : List Stmt → List Entry
  | [] => []
  | stmt :: rest => stmt.entries natives path ++ Stmt.entriesIn natives path rest

end

mutual

/-- The bodies of the modules inside a statement. -/
def Stmt.bodies : Stmt → List (List Stmt)
  | .module _ body => body :: Stmt.bodiesIn body
  | _ => []

/-- The bodies of the modules inside some statements. -/
def Stmt.bodiesIn : List Stmt → List (List Stmt)
  | [] => []
  | stmt :: rest => stmt.bodies ++ Stmt.bodiesIn rest

end

mutual

/-- The lists of modifiers in a statement of a module, with those of the modules inside it and of
the locals of its functions. -/
def Stmt.modifierLists : Stmt → List (List Token)
  | .module _ body => Stmt.modifierListsIn body
  | .function header body => header.modifiers :: header.parameters.map (·.modifiers) ++
    (Stmt.localsIn body).map (·.modifiers)
  | .native header _ => header.modifiers :: header.parameters.map (·.modifiers)
  | .declare header => [header.modifiers]
  | .define header _ => [header.modifiers]
  | _ => []

/-- The lists of modifiers in some statements of a module. -/
def Stmt.modifierListsIn : List Stmt → List (List Token)
  | [] => []
  | stmt :: rest => stmt.modifierLists ++ Stmt.modifierListsIn rest

end

/-- A statement that may stand in a module, whatever stands beside it. -/
def Stmt.Admissible (natives : Native.Bindings) : Stmt → Prop
  | .module _ _ => True
  | .function header body => header.Admissible ∧ ∀ v ∈ Stmt.localsIn body,
    Token.WellModified Modifier.restrictsAccess v.modifiers
  | .native header binding => header.Admissible ∧ header.Bound natives binding
  | .declare header => header.Admissible none
  | .define header value => header.Admissible (some value.type)
  | .stdlibFinish _ => True
  | _ => False

namespace Definer

variable {natives : Native.Bindings} {path : ModulePath} {definer : Definer}
  {table : SymbolTable}

theorem clean_accept {result : Except Error SymbolTable} (hc : definer.log.Clean) :
    (definer.accept result).log.Clean ∧ (definer.accept result).table = table ↔
      result = .ok table := by
  cases result with
  | ok other => simp [accept, hc]
  | error error => simp [accept, not_clean_report]

theorem clean_foldl_report {errors : List Error} :
    (errors.foldl report definer).log.Clean ↔ definer.log.Clean ∧ errors = [] := by
  cases errors with
  | nil => simp
  | cons error rest =>
    simp only [List.foldl_cons, reduceCtorEq, and_false, iff_false]
    exact fun h => not_clean_report ((extends_foldl_report _ rest).clean h)

theorem clean_function {header : FunctionHeader} {body : List Stmt} (hc : definer.log.Clean)
    (hh : header.AreModifiers) (hl : ∀ v ∈ Stmt.localsIn body, Token.AreModifiers v.modifiers) :
    (definer.function path header body).log.Clean ∧
        (definer.function path header body).table = table ↔
      (Stmt.function header body).Admissible natives ∧
        Entry.addAll definer.table ((Stmt.function header body).entries natives path) =
          .ok table := by
  rw [function, Stmt.Admissible, Stmt.entries, ← Definition.errorsIn_eq_nil hl]
  cases hd : Definition.function header (.interpreted body) with
  | error error =>
    have hn : ¬header.Admissible := fun ha => by
      obtain ⟨definition, he⟩ := Option.isSome_iff_exists.1
        (Definition.isSome_entry? ha (.interpreted body))
      rw [(Definition.function_eq_ok hh).2 ⟨ha, he⟩] at hd
      cases hd
    simp [not_clean_report, hn]
  | ok definition =>
    obtain ⟨ha, he⟩ := (Definition.function_eq_ok hh).1 hd
    simp only [clean_foldl_report, table_foldl_report, ha, he, true_and, Option.map_some,
      Option.toList_some, Entry.addAll_singleton, Entry.add]
    rw [and_right_comm, clean_accept hc, Definition.addFunction_iff, and_comm]

mutual

/-- A statement of a module is defined without a report exactly if it and all inside it may stand
where they stand and their entries can be added to the table. -/
theorem clean_statement : ∀ {stmt : Stmt} {path : ModulePath} {definer : Definer}
    {table : SymbolTable}, definer.log.Clean →
    (∀ tokens ∈ stmt.modifierLists, Token.AreModifiers tokens) →
    ((statement natives path definer stmt).log.Clean ∧
        (statement natives path definer stmt).table = table ↔
      (stmt.Admissible natives ∧ ∀ body ∈ stmt.bodies, ∀ inner ∈ body, inner.Admissible natives) ∧
        Entry.addAll definer.table (stmt.entries natives path) = .ok table)
  | .module identifier body, path, definer, table, hc, hm => by
    rw [statement, Stmt.Admissible, Stmt.bodies, Stmt.entries, List.forall_mem_cons, Entry.addAll,
      Entry.add]
    cases ha : definer.table.addModule path identifier.text with
    | error conflict => simp [not_clean_report, Except.bind]
    | ok extended =>
      dsimp only
      rw [@clean_block body _ { definer with table := extended } table hc hm]
      simp [Except.bind]
  | .function header body, path, definer, table, hc, hm => by
    simp only [Stmt.modifierLists, List.cons_append, List.forall_mem_cons, List.forall_mem_append,
      List.forall_mem_map] at hm
    rw [statement, @clean_function natives _ _ _ _ _ hc ⟨hm.1, hm.2.1⟩ hm.2.2]
    simp [Stmt.bodies]
  | .native header binding, path, definer, table, hc, hm => by
    simp only [Stmt.modifierLists, List.forall_mem_cons, List.forall_mem_map] at hm
    rw [statement, clean_accept hc, Definition.native_eq_ok hm]
    simp [Stmt.bodies, Stmt.Admissible, Stmt.entries]
  | .declare header, path, definer, table, hc, hm => by
    rw [statement, clean_accept hc, Definition.global_eq_ok (hm _ (.head _))]
    simp [Stmt.bodies, Stmt.Admissible, Stmt.entries]
  | .define header value, path, definer, table, hc, hm => by
    rw [statement, clean_accept hc, Definition.global_eq_ok (hm _ (.head _))]
    simp [Stmt.bodies, Stmt.Admissible, Stmt.entries]
  | .stdlibFinish _, path, definer, table, hc, _ => by
    simp [statement, Stmt.bodies, Stmt.Admissible, Stmt.entries, Entry.addAll, hc]
  | .action _, _, _, _, _, _ => by simp [statement, Stmt.Admissible, not_clean_report]
  | .ifElse .., _, _, _, _, _ => by simp [statement, Stmt.Admissible, not_clean_report]
  | .whileLoop .., _, _, _, _, _ => by simp [statement, Stmt.Admissible, not_clean_report]
  | .forLoop .., _, _, _, _, _ => by simp [statement, Stmt.Admissible, not_clean_report]
  | .returning .., _, _, _, _, _ => by simp [statement, Stmt.Admissible, not_clean_report]

theorem clean_block : ∀ {body : List Stmt} {path : ModulePath} {definer : Definer}
    {table : SymbolTable}, definer.log.Clean →
    (∀ tokens ∈ Stmt.modifierListsIn body, Token.AreModifiers tokens) →
    ((block natives path definer body).log.Clean ∧
        (block natives path definer body).table = table ↔
      ((∀ stmt ∈ body, stmt.Admissible natives) ∧
          ∀ inner ∈ Stmt.bodiesIn body, ∀ stmt ∈ inner, stmt.Admissible natives) ∧
        Entry.addAll definer.table (Stmt.entriesIn natives path body) = .ok table)
  | [], path, definer, table, hc, _ => by
    simp [block, Stmt.bodiesIn, Stmt.entriesIn, Entry.addAll, hc]
  | stmt :: rest, path, definer, table, hc, hm => by
    obtain ⟨hs, hr⟩ := List.forall_mem_append.1 hm
    rw [block, if_neg (by simp [hc.isClosed_eq]), Stmt.entriesIn, Entry.addAll_append,
      Stmt.bodiesIn, List.forall_mem_cons, List.forall_mem_append]
    constructor
    · rintro ⟨hclean, ht⟩
      have hfirst := (extends_block natives rest path _).clean hclean
      obtain ⟨⟨ha, hb⟩, hadd⟩ := (clean_statement hc hs).1 ⟨hfirst, rfl⟩
      obtain ⟨⟨hall, hbodies⟩, hrest⟩ := (clean_block hfirst hr).1 ⟨hclean, ht⟩
      exact ⟨⟨⟨ha, hall⟩, hb, hbodies⟩, Except.bind_eq_ok.2 ⟨_, hadd, hrest⟩⟩
    · rintro ⟨⟨⟨ha, hall⟩, hb, hbodies⟩, hadd⟩
      obtain ⟨next, hnext, hrest⟩ := Except.bind_eq_ok.1 hadd
      obtain ⟨hfirst, rfl⟩ := (clean_statement hc hs).2 ⟨⟨ha, hb⟩, hnext⟩
      exact (clean_block hfirst hr).2 ⟨⟨hall, hbodies⟩, hrest⟩

end

end Definer

/-- The statements of a module and of all modules in it may stand where they do. -/
def Stmt.AllAdmissible (natives : Native.Bindings) (body : List Stmt) : Prop :=
  (∀ stmt ∈ body, stmt.Admissible natives) ∧
    ∀ inner ∈ Stmt.bodiesIn body, ∀ stmt ∈ inner, stmt.Admissible natives

/-- Where the budget is not spent from the beginning, a program whose modifiers are modifiers is
defined without an error exactly if its statements may stand in their modules and all their entries
can be added. -/
theorem define_eq_ok {settings : Settings} {natives : Native.Bindings} {program : List Stmt}
    {symbols : SymbolTable} (hb : settings.maxErrors ≠ some 0)
    (hm : ∀ tokens ∈ Stmt.modifierListsIn program, Token.AreModifiers tokens) :
    define settings natives program = .ok symbols ↔ Stmt.AllAdmissible natives program ∧
      Entry.addAll .empty (Stmt.entriesIn natives [] program) = .ok symbols := by
  have hi : (Definer.initial settings).log.Clean := Log.clean_of_errors rfl hb
  have hlimit := (Definer.extends_block natives program [] (.initial settings)).limit_eq
  refine Iff.trans ?_ (Definer.clean_block hi hm)
  unfold define
  dsimp only
  split
  next he =>
    have hclean : (Definer.block natives [] (.initial settings) program).log.Clean :=
      Log.clean_of_errors (List.isEmpty_iff.1 he) (by rwa [hlimit])
    simp [hclean]
  next he =>
    refine iff_of_false nofun fun h => he ?_
    rw [h.1.errors_eq]
    rfl

end MuLang
