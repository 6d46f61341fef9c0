import MuLang.Proofs.Budget.Definition
import MuLang.Proofs.Resolution
import MuLang.Statement.Signature

/-!
# The outline of a program

The declarations of a program in the order of its text, and what the symbol table of a program holds
once it is defined: the modules and functions that its declarations register one after the other,
and a global variable for each that is declared.
-/
namespace MuLang

/-- A declaration that other parts of a program may refer to. -/
inductive Declaration where
  | module (parent : ModulePath) (name : String)
  | function (module : ModulePath) (header : FunctionHeader)
  /-- A global variable, with the type of its value if it has one. -/
  | global (module : ModulePath) (header : VariableHeader) (value : Option Datatype)

mutual

/-- What a statement of a module declares, with all that is inside it. -/
def Stmt.declarations (path : ModulePath) : Stmt → List Declaration
  | .module identifier body =>
    .module path identifier.text :: declarationsIn (path ++ [identifier.text]) body
  | .function header _ => [.function path header]
  | .native header _ => [.function path header]
  | .declare header => [.global path header none]
  | .define header value => [.global path header (some value.type)]
  | _ => []

/-- What the statements of a module declare. -/
def Stmt.declarationsIn (path : ModulePath) : List Stmt → List Declaration
  | [] => []
  | stmt :: rest => stmt.declarations path ++ declarationsIn path rest

end

theorem Stmt.declarationsIn_append (path : ModulePath) (first second : List Stmt) :
    declarationsIn path (first ++ second) =
      declarationsIn path first ++ declarationsIn path second := by
  induction first with
  | nil => rfl
  | cons stmt rest ih => simp [declarationsIn, ih]

/-- The type of a parameter is written as that of a value. -/
def Parameter.TakesValue (parameter : Parameter) : Prop :=
  parameter.datatype.kind.isTypeName ∧ parameter.datatype.kind ≠ .typeName .void

/-- Every parameter has the type of a value. -/
def FunctionHeader.TakesValues (header : FunctionHeader) : Prop :=
  ∀ parameter ∈ header.parameters, parameter.TakesValue

namespace VariableHeader

/-- The type name of a declaration stands in the text. Where the type follows from the value, the
type name is synthetic. -/
def IsWritten (header : VariableHeader) : Prop := header.datatype.span ≠ .nowhere

/-- The type that a declaration names. -/
def written? (header : VariableHeader) : Option Datatype :=
  header.datatype.datatype? (Token.areNullable header.modifiers)

/-- The type that a variable is defined with, given the type of its value. -/
def defined (header : VariableHeader) (value : Option Datatype) : Except Error Datatype :=
  Definition.datatype header.datatype
    (Token.areNullable header.modifiers || value.any (·.nullable))

/-- A written type does not change with the value. -/
def Decides (header : VariableHeader) (value : Option Datatype) : Prop :=
  header.IsWritten → ∃ type, header.written? = some type ∧ header.defined value = .ok type

end VariableHeader

/-- The types in a declaration are those of values. -/
def Declaration.WellTyped : Declaration → Prop
  | .module .. => True
  | .function _ header => header.TakesValues
  | .global _ header value => header.datatype.kind ≠ .typeName .void ∧ header.Decides value

/-- Some declarations declare a global of a name. -/
def Declaration.HaveGlobal (declarations : List Declaration) (p : ModulePath) (name : String) :
    Prop :=
  ∃ header value, .global p header value ∈ declarations ∧ header.identifier.text = name

theorem Declaration.haveGlobal_append {first second : List Declaration} {p : ModulePath}
    {name : String} : HaveGlobal (first ++ second) p name ↔
      HaveGlobal first p name ∨ HaveGlobal second p name := by
  simp [HaveGlobal, or_and_right, exists_or]

/-- Registers the module or the function that is declared, without a body. What conflicts with an
earlier declaration is left out. -/
def Declaration.register (table : SymbolTable) : Declaration → SymbolTable
  | .module parent name => (table.addModule parent name).toOption.getD table
  | .function path header =>
    match header.definition (.interpreted []) with
    | .ok definition => (table.addFunction path definition).toOption.getD table
    | .error _ => table
  | .global .. => table

/-! ## Functions as they are defined -/

/-- Only what admits `null` takes a value that may be `null`. -/
theorem Datatype.nullable_of_fits {source target : Datatype} (h : source.fits target)
    (hn : source.nullable) : target.nullable := by
  simp only [fits, hn, true_and] at h
  split at h
  · cases h
  · split at h
    · exact h
    · split at h
      · cases h
      next ht => simpa using ht

/-- Nothing of the kind `void` is stored, and nothing is stored in it. -/
theorem Datatype.kinds_of_fits {source target : Datatype} (h : source.fits target) :
    source.kind ≠ .void ∧ target.kind ≠ .void := by
  unfold fits at h
  split at h
  · cases h
  next hv => exact not_or.1 hv

/-- Only the type name `void` stands for the kind `void`. -/
theorem Token.kind_ne_void_of_datatype? {token : Token} {nullable : Bool} {type : Datatype}
    (h : token.datatype? nullable = some type) (ht : token.kind ≠ .typeName .void) :
    type.kind ≠ .void := by
  unfold Token.datatype? Kind.primitive? at h
  obtain ⟨kind, hk, rfl⟩ := Option.map_eq_some_iff.1 h
  obtain ⟨name, hn, rfl⟩ := Option.map_eq_some_iff.1 hk
  intro hv
  obtain rfl : name = .void := by
    cases name <;> first | rfl | cases hv
  refine ht ?_
  cases ht : token.kind <;> rw [ht] at hn <;> cases hn
  rfl

namespace Definition

variable {header : FunctionHeader} {body : FunctionBody} {definition : FunctionDefinition}

theorem function_name (h : function header body = .ok definition) :
    definition.name = header.identifier.text := by
  simp only [function, Except.bind_eq_ok, Except.pure_eq_ok] at h
  obtain ⟨-, -, parameters, -, type, -, rfl⟩ := h
  rfl

theorem function_body (h : function header body = .ok definition) : definition.body = body := by
  simp only [function, Except.bind_eq_ok, Except.pure_eq_ok] at h
  obtain ⟨-, -, parameters, -, type, -, rfl⟩ := h
  rfl

/-- What a function runs does not matter for its definition. -/
theorem function_withBody (h : function header body = .ok definition) (other : FunctionBody) :
    function header other = .ok { definition with body := other } := by
  simp only [function, Except.bind_eq_ok, Except.pure_eq_ok] at h ⊢
  obtain ⟨checked, hm, parameters, hp, type, ht, rfl⟩ := h
  exact ⟨checked, hm, parameters, hp, type, ht, rfl⟩

theorem registered?_of_parameter {parameter : Parameter} {registered : FunctionParameter}
    (hv : parameter.TakesValue) (h : Definition.parameter parameter = .ok registered) :
    parameter.registered? = some registered := by
  simp only [Definition.parameter, Except.bind_eq_ok, Except.pure_eq_ok] at h
  obtain ⟨-, -, type, ht, rfl⟩ := h
  unfold datatype at ht
  split at ht
  next found hf =>
    cases ht
    have hk : found.kind ≠ .void := Token.kind_ne_void_of_datatype? hf hv.2
    rw [Parameter.registered?, hf, if_neg hk, Option.map_some]
  · cases ht

theorem registered_of_parameters {parameters : List Parameter}
    {registered : List FunctionParameter}
    (hv : ∀ parameter ∈ parameters, parameter.TakesValue)
    (h : parameters.mapM Definition.parameter = .ok registered) :
    parameters.filterMap Parameter.registered? = registered := by
  replace h := Except.mapM_eq_ok.1 h
  induction h with
  | nil => rfl
  | cons hf _ ih =>
    obtain ⟨hfirst, hrest⟩ := List.forall_mem_cons.1 hv
    rw [List.filterMap_cons, registered?_of_parameter hfirst hf, ih hrest]

/-- A function is registered by the passes as it is defined in the end. -/
theorem definition_of_function (hv : header.TakesValues)
    (h : function header body = .ok definition) :
    header.definition (.interpreted []) = .ok definition.bodiless := by
  simp only [function, Except.bind_eq_ok, Except.pure_eq_ok] at h
  obtain ⟨-, -, parameters, hp, type, ht, rfl⟩ := h
  unfold datatype at ht
  split at ht
  next found hf =>
    cases ht
    simp only [FunctionHeader.definition, hf, registered_of_parameters hv hp]
    rfl
  · cases ht

end Definition

/-! ## Headers as they are read -/

theorem Parameter.takesValue_of_ofTokens {last : Token} {segment : List Token}
    {parameter : Parameter} (h : Parameter.ofTokens last segment = .ok parameter) :
    parameter.TakesValue := by
  unfold Parameter.ofTokens at h
  dsimp only at h
  split at h
  · cases h
  · split at h
    next datatype identifier _ =>
      split at h
      · cases h
      next hd =>
        split at h
        · cases h
        · cases h
          simpa [TakesValue] using hd
    · cases h

theorem Parameter.takesValue_of_mapM {last : Token} {segments : List (List Token)}
    {parameters : List Parameter} (h : segments.mapM (Parameter.ofTokens last) = .ok parameters) :
    ∀ parameter ∈ parameters, parameter.TakesValue := by
  replace h := Except.mapM_eq_ok.1 h
  induction h with
  | nil => exact fun _ hp => absurd hp List.not_mem_nil
  | cons hf _ ih => exact List.forall_mem_cons.2 ⟨takesValue_of_ofTokens hf, ih⟩

theorem Parameter.takesValue_of_listOfTokens {tokens : List Token} {parameters : List Parameter}
    (h : Parameter.listOfTokens tokens = .ok parameters) :
    ∀ parameter ∈ parameters, parameter.TakesValue := by
  unfold Parameter.listOfTokens at h
  split at h
  · cases h
    exact fun _ hp => absurd hp List.not_mem_nil
  · exact takesValue_of_mapM h

/-- The parameters of a function that is read have the types of values. -/
theorem Signature.takesValues_of_ofTokens {tokens modifiers : List Token} {allowBare : Bool}
    {signature : Signature} (h : Signature.ofTokens tokens allowBare = .ok signature) :
    (signature.header modifiers).TakesValues := by
  simp only [Signature.ofTokens, Except.bind_eq_ok, Except.ite_eq_ok, Except.pure_eq_ok] at h
  obtain ⟨-, -, identifier, -, ⟨-, rfl⟩ | ⟨-, mark, -, ⟨-, inner, -, parameters, hp, rfl⟩ |
    ⟨-, type, -, inner, -, parameters, hp, rfl⟩⟩⟩ := h
  · exact fun _ hp => absurd hp List.not_mem_nil
  · exact Parameter.takesValue_of_listOfTokens hp
  · exact Parameter.takesValue_of_listOfTokens hp

theorem Parameter.TakesValue.exists_datatype? {parameter : Parameter} (h : parameter.TakesValue) :
    ∃ type, parameter.datatype.datatype? (Token.areNullable parameter.modifiers) = some type := by
  obtain ⟨name, hn⟩ := Option.isSome_iff_exists.1 h.1
  exact ⟨_, by rw [Token.datatype?, Kind.primitive?, hn]; rfl⟩

theorem FunctionHeader.parameters_of_definition {header : FunctionHeader} {body : FunctionBody}
    {definition : FunctionDefinition} (h : header.definition body = .ok definition) :
    definition.parameters = header.parameters.filterMap Parameter.registered? := by
  rw [FunctionHeader.definition] at h
  split at h <;> cases h
  rfl

/-- The function that is read from a header declares each of its parameters. -/
theorem FunctionHeader.names_of_definition {header : FunctionHeader} {body : FunctionBody}
    {definition : FunctionDefinition} (hv : header.TakesValues)
    (h : header.definition body = .ok definition) :
    definition.parameters.map (·.name) = header.parameters.map (·.identifier.text) := by
  rw [parameters_of_definition h]
  rw [TakesValues] at hv
  generalize header.parameters = parameters at hv
  induction parameters with
  | nil => rfl
  | cons parameter rest ih =>
    obtain ⟨hp, hrest⟩ := List.forall_mem_cons.1 hv
    obtain ⟨type, ht⟩ := hp.exists_datatype?
    rw [List.filterMap_cons_some (by rw [Parameter.registered?, ht, Option.map_some]),
      List.map_cons, List.map_cons, ih hrest]

/-- A parameter that takes a value is registered with the type of one. -/
theorem Parameter.TakesValue.kind_ne_void {parameter : Parameter} {registered : FunctionParameter}
    (h : parameter.TakesValue) (hr : parameter.registered? = some registered) :
    registered.datatype.kind ≠ .void := by
  obtain ⟨type, ht, rfl⟩ := Option.map_eq_some_iff.1 hr
  exact Token.kind_ne_void_of_datatype? ht h.2

theorem FunctionHeader.TakesValues.kind_ne_void {header : FunctionHeader} {body : FunctionBody}
    {definition : FunctionDefinition} (hv : header.TakesValues)
    (h : header.definition body = .ok definition) :
    ∀ parameter ∈ definition.parameters, parameter.datatype.kind ≠ .void := by
  rw [parameters_of_definition h]
  intro registered hm
  obtain ⟨parameter, hp, hr⟩ := List.mem_filterMap.1 hm
  exact (hv parameter hp).kind_ne_void hr

/-! ## Declaring one after the other -/

/-- A global has the name and the modifiers of its declaration, and always counts as initialized. -/
structure Variable.Registers (v : Variable) (name : String) (modifiers : List Token) : Prop where
  name_eq : v.name = name
  modifiers_eq : v.modifiers = Token.modifiers modifiers
  initialized : v.initialized

/-- A declaration is registered in a table. -/
inductive Declares : Declaration → SymbolTable → SymbolTable → Prop
  | module {parent : ModulePath} {name : String} {table extended : SymbolTable} :
      table.addModule parent name = .ok extended → Declares (.module parent name) table extended
  | function {module : ModulePath} {header : FunctionHeader} {definition : FunctionDefinition}
      {table extended : SymbolTable} : table.contains module →
      Definition.function header definition.body = .ok definition →
      table.addFunction module definition = .ok extended →
      Declares (.function module header) table extended
  | global {module : ModulePath} {header : VariableHeader} {value : Option Datatype} {v : Variable}
      {table extended : SymbolTable} : table.contains module →
      v.Registers header.identifier.text header.modifiers →
      header.defined value = .ok v.datatype → table.addVariable module v = .ok extended →
      Declares (.global module header value) table extended

/-- Declarations are registered one after the other, and none is in conflict with another. -/
inductive DeclaresAll : List Declaration → SymbolTable → SymbolTable → Prop
  | nil {table : SymbolTable} : DeclaresAll [] table table
  | cons {declaration : Declaration} {declarations : List Declaration}
      {table extended later : SymbolTable} : Declares declaration table extended →
      DeclaresAll declarations extended later → DeclaresAll (declaration :: declarations) table later

variable {table extended later : SymbolTable} {declarations : List Declaration}
  {p module : ModulePath} {name : String} {header : FunctionHeader}

theorem DeclaresAll.append {others : List Declaration} (h : DeclaresAll declarations table extended)
    (ho : DeclaresAll others extended later) : DeclaresAll (declarations ++ others) table later := by
  induction h with
  | nil => exact ho
  | cons hd _ ih => exact .cons hd (ih ho)

/-! ## What is registered then -/

theorem Declares.contains {declaration : Declaration} (h : Declares declaration table extended)
    (hp : table.contains p) : extended.contains p := by
  cases h with
  | module h => exact (SymbolTable.contains_addModule h).2 (.inl hp)
  | function hc hd h => rwa [SymbolTable.contains_addFunction h]
  | global hc hr hv h => rwa [SymbolTable.contains_addVariable h]

theorem DeclaresAll.contains (h : DeclaresAll declarations table later) (hp : table.contains p) :
    later.contains p := by
  induction h with
  | nil => exact hp
  | cons hd _ ih => exact ih (hd.contains hp)

theorem Declares.hasGlobal_iff {declaration : Declaration} (h : Declares declaration table extended) :
    extended.HasGlobal p name ↔
      table.HasGlobal p name ∨ Declaration.HaveGlobal [declaration] p name := by
  cases h with
  | module h =>
    rw [SymbolTable.HasGlobal, SymbolTable.module_addModule h]
    exact ⟨.inl, fun ho => ho.resolve_right (by simp [Declaration.HaveGlobal])⟩
  | function hc hd h =>
    rw [SymbolTable.hasGlobal_addFunction h]
    exact ⟨.inl, fun ho => ho.resolve_right (by simp [Declaration.HaveGlobal])⟩
  | global hc hr hv h =>
    rw [SymbolTable.hasGlobal_addVariable h]
    refine or_congr_right ⟨?_, ?_⟩
    · rintro ⟨rfl, rfl, -⟩
      exact ⟨_, _, List.mem_singleton_self _, hr.name_eq.symm⟩
    · rintro ⟨header, value, hm, rfl⟩
      cases List.mem_singleton.1 hm
      exact ⟨rfl, hr.name_eq.symm, hc⟩

/-- The globals of a program are those that it declares. -/
theorem DeclaresAll.hasGlobal_iff (h : DeclaresAll declarations table later) :
    later.HasGlobal p name ↔
      table.HasGlobal p name ∨ Declaration.HaveGlobal declarations p name := by
  induction h with
  | nil => simp [Declaration.HaveGlobal]
  | cons hd _ ih =>
    rw [ih, hd.hasGlobal_iff, or_assoc, ← Declaration.haveGlobal_append]
    rfl

/-- A global stays what it is. -/
theorem Declares.global?_eq {declaration : Declaration} {v : Variable}
    (h : Declares declaration table extended) (hg : (table.module p).global? name = some v) :
    (extended.module p).global? name = some v := by
  cases h with
  | module h => rwa [SymbolTable.module_addModule h]
  | function hc hd h => rwa [SymbolTable.global?_addFunction h]
  | global hc hr hv h =>
    rw [SymbolTable.global?_addVariable h, if_neg]
    · exact hg
    · rintro ⟨rfl, rfl, -⟩
      exact (SymbolTable.of_addVariable h).1 (Option.isSome_of_eq_some hg)

theorem DeclaresAll.global?_eq {v : Variable} (h : DeclaresAll declarations table later)
    (hg : (table.module p).global? name = some v) : (later.module p).global? name = some v := by
  induction h with
  | nil => exact hg
  | cons hd _ ih => exact ih (hd.global?_eq hg)

/-- Every global that a program declares is there, as its declaration registers it, with the type
that the declaration defines. -/
theorem DeclaresAll.exists_global {header : VariableHeader} {value : Option Datatype}
    (h : DeclaresAll declarations table later) (hg : .global p header value ∈ declarations) :
    ∃ v, (later.module p).global? header.identifier.text = some v ∧
      v.Registers header.identifier.text header.modifiers ∧
      header.defined value = .ok v.datatype := by
  induction h with
  | nil => cases hg
  | cons hd hs ih =>
    obtain rfl | hg := List.mem_cons.1 hg
    · cases hd with
      | global hc hr hv h =>
        refine ⟨_, hs.global?_eq ?_, hr, hv⟩
        rw [SymbolTable.global?_addVariable h, if_pos ⟨rfl, hr.name_eq.symm, hc⟩]
    · exact ih hg

theorem Declares.mem_definitions {declaration : Declaration} {definition : FunctionDefinition}
    (h : Declares declaration table extended)
    (hm : definition ∈ (table.module p).definitions name) :
    definition ∈ (extended.module p).definitions name := by
  cases h with
  | module h => rwa [SymbolTable.module_addModule h]
  | function hc hd h => exact (SymbolTable.mem_definitions_addFunction h).2 (.inl hm)
  | global hc hr hv h => rwa [SymbolTable.definitions_addVariable h]

theorem DeclaresAll.mem_definitions {definition : FunctionDefinition}
    (h : DeclaresAll declarations table later)
    (hm : definition ∈ (table.module p).definitions name) :
    definition ∈ (later.module p).definitions name := by
  induction h with
  | nil => exact hm
  | cons hd _ ih => exact ih (hd.mem_definitions hm)

/-- Every function that a program declares is registered under its name as its header says. -/
theorem DeclaresAll.exists_definition (h : DeclaresAll declarations table later)
    (hf : .function p header ∈ declarations) :
    ∃ definition ∈ (later.module p).definitions header.identifier.text,
      Definition.function header definition.body = .ok definition := by
  induction h with
  | nil => cases hf
  | cons hd hs ih =>
    obtain rfl | hf := List.mem_cons.1 hf
    · cases hd with
      | function hc hd h =>
        exact ⟨_, hs.mem_definitions ((SymbolTable.mem_definitions_addFunction h).2
          (.inr ⟨⟨rfl, hc⟩, Definition.function_name hd, rfl⟩)), hd⟩
    · exact ih hf

theorem Declares.distinct {declaration : Declaration} (h : Declares declaration table extended)
    (hd : table.Distinct) : extended.Distinct := by
  cases h with
  | module h => exact hd.addModule h
  | function hc _ h => exact hd.addFunction h
  | global hc hr hv h => exact hd.addVariable h

theorem DeclaresAll.distinct (h : DeclaresAll declarations table later) (hd : table.Distinct) :
    later.Distinct := by
  induction h with
  | nil => exact hd
  | cons h _ ih => exact ih (h.distinct hd)

theorem Declares.skeleton_eq {declaration : Declaration} (h : Declares declaration table extended)
    (ht : declaration.WellTyped) :
    extended.skeleton = declaration.register table.skeleton := by
  cases h with
  | module h => rw [Declaration.register, SymbolTable.addModule_skeleton, h]; rfl
  | function hc hd h =>
    simp only [Declaration.register, Definition.definition_of_function ht hd,
      SymbolTable.addFunction_skeleton, h]
    rfl
  | global hc hr hv h => exact SymbolTable.skeleton_addVariable h

/-- The modules and functions of a program are those that its declarations register. -/
theorem DeclaresAll.skeleton_eq (h : DeclaresAll declarations table later)
    (ht : ∀ declaration ∈ declarations, declaration.WellTyped) :
    later.skeleton = declarations.foldl Declaration.register table.skeleton := by
  induction h with
  | nil => rfl
  | cons hd _ ih =>
    obtain ⟨hfirst, hrest⟩ := List.forall_mem_cons.1 ht
    rw [List.foldl_cons, ← hd.skeleton_eq hfirst, ih hrest]

/-! ## A program without errors is declared -/

namespace Definer

variable {definer : Definer} {error : Error}

theorem not_clean_report : ¬(definer.report error).log.Clean := definer.log.not_clean_report error

theorem accept_clean {result : Except Error SymbolTable}
    (h : (definer.accept result).log.Clean) :
    ∃ table, result = .ok table ∧ definer.accept result = { definer with table } := by
  cases result with
  | ok table => exact ⟨table, rfl, rfl⟩
  | error error => exact absurd h not_clean_report

theorem table_foldl_report (definer : Definer) (errors : List Error) :
    (errors.foldl report definer).table = definer.table := by
  induction errors generalizing definer with
  | nil => rfl
  | cons error rest ih => exact ih (definer.report error)

theorem addFunction_eq_ok {table extended : SymbolTable} {module : ModulePath} {identifier : Token}
    {definition : FunctionDefinition}
    (h : Definition.addFunction table module identifier definition = .ok extended) :
    table.addFunction module definition = .ok extended := by
  unfold Definition.addFunction at h
  split at h
  next ha =>
    cases h
    exact ha
  next => cases h

theorem declares_function {module : ModulePath} {header : FunctionHeader} {body : List Stmt}
    (hc : definer.table.contains module) (h : (definer.function module header body).log.Clean) :
    Declares (.function module header) definer.table
      (definer.function module header body).table := by
  unfold function at h ⊢
  cases hd : Definition.function header (.interpreted body) with
  | error error =>
    rw [hd] at h
    exact absurd h not_clean_report
  | ok definition =>
    simp only [hd] at h ⊢
    obtain ⟨table, ha, hr⟩ := accept_clean ((extends_foldl_report _ _).clean h)
    rw [table_foldl_report, hr]
    refine .function hc ?_ (addFunction_eq_ok ha)
    rw [Definition.function_body hd]
    exact hd

theorem declares_native {natives : Native.Bindings} {table extended : SymbolTable}
    {module : ModulePath} {header : FunctionHeader} {binding : Token} (hc : table.contains module)
    (h : Definition.native natives table module header binding = .ok extended) :
    Declares (.function module header) table extended := by
  simp only [Definition.native, Except.bind_eq_ok] at h
  obtain ⟨definition, hd, descriptor, -, ha⟩ := h
  exact .function hc (Definition.function_withBody hd _) (addFunction_eq_ok ha)

theorem declares_global {table extended : SymbolTable} {module : ModulePath}
    {header : VariableHeader} {value : Option Datatype} (hc : table.contains module)
    (h : Definition.global table module header value = .ok extended) :
    Declares (.global module header value) table extended := by
  simp only [Definition.global, Except.bind_eq_ok, Except.ite_eq_ok, Except.throw_ne_ok,
    false_and, and_false, exists_false, false_or] at h
  obtain ⟨-, -, -, type, ht, ha⟩ := h
  split at ha
  next hv =>
    cases ha
    refine .global hc ⟨rfl, rfl, rfl⟩ ?_ hv
    exact ht
  · cases ha

mutual

/-- A statement that is defined without a report declares what its outline says. -/
theorem declaresAll_statement (natives : Native.Bindings) (module : ModulePath)
    (definer : Definer) : ∀ stmt, definer.table.contains module →
    (statement natives module definer stmt).log.Clean →
    DeclaresAll (stmt.declarations module) definer.table
      (statement natives module definer stmt).table
  | .module identifier body, _, h => by
    unfold statement at h ⊢
    cases ha : definer.table.addModule module identifier.text with
    | error conflict =>
      rw [ha] at h
      exact absurd h not_clean_report
    | ok table =>
      simp only [ha] at h ⊢
      exact .cons (.module ha) (declaresAll_block natives _ _ body
        ((SymbolTable.contains_addModule ha).2 (.inr rfl)) h)
  | .function header body, hc, h => .cons (declares_function hc h) .nil
  | .native header binding, hc, h => by
    unfold statement at h ⊢
    obtain ⟨table, hr, ha⟩ := accept_clean h
    rw [ha]
    exact .cons (declares_native hc hr) .nil
  | .declare header, hc, h => by
    unfold statement at h ⊢
    obtain ⟨table, hr, ha⟩ := accept_clean h
    rw [ha]
    exact .cons (declares_global hc hr) .nil
  | .define header value, hc, h => by
    unfold statement at h ⊢
    obtain ⟨table, hr, ha⟩ := accept_clean h
    rw [ha]
    exact .cons (declares_global hc hr) .nil
  | .stdlibFinish _, _, _ => .nil
  | .action _, _, h => absurd h not_clean_report
  | .ifElse .., _, h => absurd h not_clean_report
  | .whileLoop .., _, h => absurd h not_clean_report
  | .forLoop .., _, h => absurd h not_clean_report
  | .returning .., _, h => absurd h not_clean_report

/-- A block that is defined without a report declares what its outline says. -/
theorem declaresAll_block (natives : Native.Bindings) (module : ModulePath) (definer : Definer) :
    ∀ body, definer.table.contains module → (block natives module definer body).log.Clean →
    DeclaresAll (Stmt.declarationsIn module body) definer.table
      (block natives module definer body).table
  | [], _, _ => .nil
  | stmt :: rest, hc, h => by
    have hs : (statement natives module definer stmt).log.Clean ∧
        block natives module definer (stmt :: rest) =
          block natives module (statement natives module definer stmt) rest := by
      rw [block] at h ⊢
      split at h
      next hl =>
        rw [h.isClosed_eq] at hl
        cases hl
      next hl => exact ⟨(extends_block _ _ _ _).clean h, if_neg hl⟩
    rw [hs.2] at h ⊢
    have hd := declaresAll_statement natives module definer stmt hc hs.1
    exact hd.append (declaresAll_block natives module _ rest (hd.contains hc) h)

end

end Definer

/-- What a program without errors is defined as. -/
theorem declaresAll_of_define {settings : Settings} {natives : Native.Bindings}
    {program : List Stmt} {symbols : SymbolTable} (hb : settings.maxErrors ≠ some 0)
    (h : define settings natives program = .ok symbols) :
    DeclaresAll (Stmt.declarationsIn [] program) .empty symbols := by
  unfold define at h
  simp only at h
  split at h
  next he =>
    cases h
    refine Definer.declaresAll_block natives [] (.initial settings) program rfl ?_
    refine Log.clean_of_errors (by simpa using he) ?_
    rwa [(Definer.extends_block natives program [] (.initial settings)).limit_eq]
  · cases h

end MuLang
