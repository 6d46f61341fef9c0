import MuLang.Definition
import MuLang.Proofs.Places.Shadow

/-!
# Programs defined without places

The table that a stripped program is defined as is the table of the program itself, stripped
afterwards: what a declaration registers, and whether it can be registered, is told by kinds and
texts.
-/
namespace MuLang

/-! ## Tables -/

namespace FunctionBody

def stripped : FunctionBody → FunctionBody
  | .interpreted body => .interpreted (Stmt.strippedAll body)
  | .native name descriptor => .native name descriptor

theorem same_iff {left right : FunctionBody} :
    left.same right ↔ left.stripped = right.stripped := by
  cases left <;> cases right <;> simp [same, stripped, Stmt.sameAll_iff]

end FunctionBody

namespace FunctionDefinition

/-- A function whose body has no places. -/
abbrev stripped (definition : FunctionDefinition) : FunctionDefinition :=
  definition.mapBody FunctionBody.stripped

theorem same_iff {left right : FunctionDefinition} :
    left.same right ↔ left.stripped = right.stripped := by
  simp [same, mapBody, FunctionBody.same_iff, and_assoc]

theorem sameAll_iff {left right : List FunctionDefinition} :
    sameAll left right ↔ left.map stripped = right.map stripped := by
  induction left generalizing right with
  | nil => cases right <;> simp [sameAll]
  | cons definition rest ih => cases right <;> simp [sameAll, same_iff, ih]

end FunctionDefinition

namespace Overloads

theorem same_iff {left right : Overloads} :
    left.same right ↔
      left.mapBody FunctionBody.stripped = right.mapBody FunctionBody.stripped := by
  simp [same, mapBody, FunctionDefinition.sameAll_iff, and_assoc]

theorem sameAll_iff {left right : List Overloads} : sameAll left right ↔
    left.map (·.mapBody FunctionBody.stripped) = right.map (·.mapBody FunctionBody.stripped) := by
  induction left generalizing right with
  | nil => cases right <;> simp [sameAll]
  | cons overloads rest ih => cases right <;> simp [sameAll, same_iff, ih]

end Overloads

namespace SymbolTable

variable {table extended left right : SymbolTable}

/-- A table whose functions have bodies without places. -/
def stripped (table : SymbolTable) : SymbolTable := table.mapParts id FunctionBody.stripped

theorem addModule_stripped (table : SymbolTable) (parent : ModulePath) (name : String) :
    table.stripped.addModule parent name = (table.addModule parent name).map stripped :=
  addModule_mapParts rfl table parent name

theorem addVariable_stripped (table : SymbolTable) (path : ModulePath) (v : Variable) :
    table.stripped.addVariable path v = (table.addVariable path v).map stripped := by
  unfold addVariable
  rw [stripped, module_mapParts rfl]
  change (if ((table.module path).global? v.name).isSome = true then _ else _) = _
  split
  · rfl
  · exact congrArg Except.ok (modify_mapParts fun _ => rfl)

theorem addFunction_stripped (table : SymbolTable) (path : ModulePath)
    (definition : FunctionDefinition) :
    table.stripped.addFunction path definition.stripped =
      (table.addFunction path definition).map stripped :=
  addFunction_mapParts rfl table path definition

end SymbolTable

/-! ## Definitions -/

namespace Token

variable (earlier tokens : List Token)

theorem firstRepeated?_stripped :
    firstRepeated? (earlier.map stripped) (tokens.map stripped) =
      (firstRepeated? earlier tokens).map stripped := by
  induction tokens generalizing earlier with
  | nil => rfl
  | cons token rest ih =>
    have he : earlier.map stripped ++ [token.stripped] = (earlier ++ [token]).map stripped := by
      rw [List.map_append]
      rfl
    have ha : (earlier.map stripped).any (·.kind = token.stripped.kind) =
        earlier.any (·.kind = token.kind) := List.any_map
    rw [List.map_cons, firstRepeated?, ha, he, ih, firstRepeated?]
    split <;> rfl

theorem firstClashing?_stripped :
    firstClashing? (earlier.map stripped) (tokens.map stripped) =
      (firstClashing? earlier tokens).map stripped := by
  induction tokens generalizing earlier with
  | nil => rfl
  | cons token rest ih =>
    have he : earlier.map stripped ++ [token.stripped] = (earlier ++ [token]).map stripped := by
      rw [List.map_append]
      rfl
    have ha : (earlier.map stripped).any (fun before => clash before.kind token.stripped.kind) =
        earlier.any (fun before => clash before.kind token.kind) := List.any_map
    rw [List.map_cons, firstClashing?, ha, he, ih, firstClashing?]
    split <;> rfl

end Token

namespace Definition

theorem checkModifiers_stripped (target : String) (modifiers : List Token)
    (invalid : Modifier → Bool) : checkModifiers target (modifiers.map Token.stripped) invalid =
      Except.stripped id (checkModifiers target modifiers invalid) := by
  have hr := Token.firstRepeated?_stripped [] modifiers
  have hc := Token.firstClashing?_stripped [] modifiers
  rw [List.map_nil] at hr hc
  rw [checkModifiers, Token.firstModifier?_stripped, hr, hc, checkModifiers]
  cases Token.firstModifier? invalid modifiers with
  | some token => rfl
  | none =>
    cases Token.firstRepeated? [] modifiers with
    | some token => rfl
    | none => cases Token.firstClashing? [] modifiers <;> rfl

theorem datatype_stripped (token : Token) (nullable : Bool) :
    datatype token.stripped nullable = Except.stripped id (datatype token nullable) := by
  rw [datatype, Token.datatype?_stripped, datatype]
  cases token.datatype? nullable <;> rfl

theorem parameter_stripped (written : Parameter) :
    parameter written.stripped = Except.stripped id (parameter written) := by
  simp only [parameter, Parameter.stripped, checkModifiers_stripped, datatype_stripped,
    Token.areNullable_stripped, Token.modifiers_stripped]
  exact Except.stripped_bind fun _ => Except.stripped_bind fun _ => rfl

theorem function_stripped (header : FunctionHeader) (body : FunctionBody) :
    function header.stripped body.stripped =
      Except.stripped FunctionDefinition.stripped (function header body) := by
  have hparameters : (header.parameters.map Parameter.stripped).mapM parameter =
      Except.stripped id (header.parameters.mapM parameter) := by
    rw [Except.stripped_mapM parameter_stripped, List.map_id_fun]
  simp only [function, FunctionHeader.stripped, checkModifiers_stripped, datatype_stripped,
    Token.areNullable_stripped, Token.modifiers_stripped, hparameters]
  refine Except.stripped_bind fun _ => Except.stripped_bind fun _ => ?_
  exact Except.stripped_bind fun _ => rfl

theorem bind_stripped (natives : Native.Bindings) (header : FunctionHeader) (binding : Token)
    (definition : FunctionDefinition) :
    bind natives header.stripped binding.stripped definition.stripped =
      Except.stripped id (bind natives header binding definition) := by
  have hfound : natives (nativeName header.stripped binding.stripped)
      definition.stripped.parameterTypes =
        natives (nativeName header binding) definition.parameterTypes := rfl
  unfold bind
  dsimp only
  rw [hfound]
  cases natives (nativeName header binding) definition.parameterTypes with
  | found descriptor => exact Except.stripped_ite rfl rfl
  | _ => rfl

theorem addFunction_stripped (table : SymbolTable) (module : ModulePath) (identifier : Token)
    (definition : FunctionDefinition) :
    addFunction table.stripped module identifier.stripped definition.stripped =
      Except.stripped SymbolTable.stripped (addFunction table module identifier definition) := by
  rw [addFunction, SymbolTable.addFunction_stripped, addFunction]
  cases table.addFunction module definition <;> rfl

theorem native_stripped (natives : Native.Bindings) (table : SymbolTable) (module : ModulePath)
    (header : FunctionHeader) (binding : Token) :
    native natives table.stripped module header.stripped binding.stripped =
      Except.stripped SymbolTable.stripped (native natives table module header binding) := by
  have hd := function_stripped header (.native (nativeName header binding) none)
  rw [FunctionBody.stripped] at hd
  rw [native, show nativeName header.stripped binding.stripped = nativeName header binding from rfl,
    hd, native]
  refine Except.stripped_bind fun definition => ?_
  rw [bind_stripped]
  exact Except.stripped_bind fun descriptor => addFunction_stripped table module header.identifier
    { definition with body := .native (nativeName header binding) (some descriptor) }

theorem global_stripped (table : SymbolTable) (module : ModulePath) (header : VariableHeader)
    (value : Option Datatype) : global table.stripped module header.stripped value =
      Except.stripped SymbolTable.stripped (global table module header value) := by
  simp only [global, VariableHeader.stripped, checkModifiers_stripped, datatype_stripped,
    Token.areNullable_stripped, Token.modifiers_stripped, Token.text_stripped]
  refine Except.stripped_bind fun _ => Except.stripped_ite rfl (Except.stripped_bind fun type => ?_)
  rw [SymbolTable.addVariable_stripped]
  dsimp only [id]
  cases table.addVariable module _ <;> rfl

theorem localErrors_stripped (header : VariableHeader) :
    localErrors header.stripped = (localErrors header).map Error.stripped := by
  rw [localErrors, VariableHeader.stripped, checkModifiers_stripped, localErrors]
  cases checkModifiers "variable" header.modifiers Modifier.restrictsAccess <;> rfl

mutual

theorem errorsOf_stripped : ∀ stmt : Stmt,
    errorsOf stmt.stripped = (errorsOf stmt).map Error.stripped
  | .declare header => localErrors_stripped header
  | .define header _ => localErrors_stripped header
  | .ifElse _ _ body otherwise => by
    rw [Stmt.stripped, errorsOf, errorsIn_stripped body, errorsAfter_stripped otherwise,
      ← List.map_append, errorsOf]
  | .whileLoop _ _ body => errorsIn_stripped body
  | .forLoop _ header _ _ _ body => by
    rw [Stmt.stripped, errorsOf, localErrors_stripped, errorsIn_stripped body, ← List.map_append,
      errorsOf]
  | .module .. | .function .. | .native .. | .action _ | .returning .. | .stdlibFinish _ => rfl

theorem errorsAfter_stripped : ∀ otherwise : Else,
    errorsAfter otherwise.stripped = (errorsAfter otherwise).map Error.stripped
  | .absent => rfl
  | .block body => errorsIn_stripped body
  | .elseIf _ _ body otherwise => by
    rw [Else.stripped, errorsAfter, errorsIn_stripped body, errorsAfter_stripped otherwise,
      ← List.map_append, errorsAfter]

theorem errorsIn_stripped : ∀ body : List Stmt,
    errorsIn (Stmt.strippedAll body) = (errorsIn body).map Error.stripped
  | [] => rfl
  | stmt :: rest => by
    rw [Stmt.strippedAll, errorsIn, errorsOf_stripped stmt, errorsIn_stripped rest,
      ← List.map_append, errorsIn]

end

end Definition

namespace Definer

open Definition

def stripped (definer : Definer) : Definer := ⟨definer.table.stripped, definer.log.stripped⟩

theorem report_stripped (definer : Definer) (error : Error) :
    definer.stripped.report error.stripped = (definer.report error).stripped :=
  congrArg (Definer.mk definer.table.stripped) (Log.report_stripped _ _)

theorem foldl_report_stripped (definer : Definer) (errors : List Error) :
    (errors.map Error.stripped).foldl report definer.stripped =
      (errors.foldl report definer).stripped := by
  induction errors generalizing definer with
  | nil => rfl
  | cons error rest ih => rw [List.map_cons, List.foldl_cons, report_stripped, ih, List.foldl_cons]

theorem accept_stripped (definer : Definer) (result : Except Error SymbolTable) :
    definer.stripped.accept (Except.stripped SymbolTable.stripped result) =
      (definer.accept result).stripped := by
  cases result with
  | error error => exact report_stripped _ _
  | ok table => rfl

theorem function_stripped (definer : Definer) (module : ModulePath) (header : FunctionHeader)
    (body : List Stmt) :
    definer.stripped.function module header.stripped (Stmt.strippedAll body) =
      (definer.function module header body).stripped := by
  have hd := Definition.function_stripped header (.interpreted body)
  rw [FunctionBody.stripped] at hd
  rw [function, hd, function]
  cases Definition.function header (.interpreted body) with
  | error error => exact report_stripped _ _
  | ok definition =>
    dsimp only [Except.stripped]
    rw [errorsIn_stripped, ← foldl_report_stripped, ← accept_stripped, ← addFunction_stripped]
    rfl

theorem reportMisplaced_stripped (definer : Definer) (stmt : Stmt) :
    definer.stripped.report ⟨.internal ("unexpected " ++ stmt.stripped.kindName ++
        " statement outside of a function"), stmt.stripped.span.start, []⟩ =
      (definer.report ⟨.internal ("unexpected " ++ stmt.kindName ++
        " statement outside of a function"), stmt.span.start, []⟩).stripped := by
  rw [Stmt.kindName_stripped, Stmt.span_stripped]
  exact report_stripped definer ⟨_, stmt.span.start, []⟩

mutual

theorem statement_stripped (natives : Native.Bindings) (module : ModulePath) (definer : Definer) :
    ∀ stmt : Stmt, statement natives module definer.stripped stmt.stripped =
      (statement natives module definer stmt).stripped
  | .module identifier body => by
    rw [Stmt.stripped, statement, statement]
    have ha : definer.stripped.table.addModule module identifier.stripped.text =
        (definer.table.addModule module identifier.text).map SymbolTable.stripped :=
      SymbolTable.addModule_stripped _ _ _
    rw [ha]
    cases definer.table.addModule module identifier.text with
    | error conflict => exact report_stripped definer (conflict.toError _)
    | ok table => exact block_stripped natives _ { definer with table } body
  | .function header body => by
    rw [Stmt.stripped, statement, statement]
    exact function_stripped _ _ _ _
  | .native header binding => by
    rw [Stmt.stripped, statement, statement, ← accept_stripped, ← native_stripped]
    rfl
  | .declare header => by
    rw [Stmt.stripped, statement, statement, ← accept_stripped, ← global_stripped]
    rfl
  | .define header value => by
    rw [Stmt.stripped, statement, statement, ← accept_stripped, ← global_stripped,
      Expr.type_stripped]
    rfl
  | .stdlibFinish _ => rfl
  | .action action => reportMisplaced_stripped definer (.action action)
  | .ifElse keyword condition body otherwise =>
    reportMisplaced_stripped definer (.ifElse keyword condition body otherwise)
  | .whileLoop keyword condition body =>
    reportMisplaced_stripped definer (.whileLoop keyword condition body)
  | .forLoop keyword header value condition step body =>
    reportMisplaced_stripped definer (.forLoop keyword header value condition step body)
  | .returning keyword value => reportMisplaced_stripped definer (.returning keyword value)

theorem block_stripped (natives : Native.Bindings) (module : ModulePath) (definer : Definer) :
    ∀ body : List Stmt, block natives module definer.stripped (Stmt.strippedAll body) =
      (block natives module definer body).stripped
  | [] => rfl
  | stmt :: rest => by
    have hclosed : definer.stripped.log.isClosed = definer.log.isClosed :=
      definer.log.isClosed_stripped
    rw [Stmt.strippedAll, block, block, hclosed, statement_stripped natives module definer stmt,
      block_stripped natives module _ rest]
    split <;> rfl

end

end Definer

/-- The definition of a program looks at no place. -/
theorem define_stripped (settings : Settings) (natives : Native.Bindings) (program : List Stmt) :
    define settings natives (Stmt.strippedAll program) =
      match define settings natives program with
      | .ok symbols => .ok symbols.stripped
      | .error errors => .error (errors.map Error.stripped) := by
  have h : Definer.block natives [] (.initial settings) (Stmt.strippedAll program) =
      (Definer.block natives [] (.initial settings) program).stripped :=
    Definer.block_stripped natives [] (.initial settings) program
  have herrors : (Definer.block natives [] (.initial settings) program).stripped.log.errors =
      (Definer.block natives [] (.initial settings) program).log.errors.map Error.stripped := rfl
  unfold define
  dsimp only
  rw [h, herrors, List.isEmpty_map]
  split <;> rfl

end MuLang
