import MuLang.Proofs.Table
import MuLang.Reading

/-!
# Programs without their places

Stripping takes the place away from everything that has one: tokens, what is built of tokens, and
errors. Two of them are the same but for places if nothing is left to tell them apart once they are
stripped.
-/
namespace MuLang

/-! ## Tokens -/

namespace Token

/-- A token as if no file contained it. -/
def stripped (token : Token) : Token := ⟨token.toLexeme, .nowhere⟩

@[simp] theorem kind_stripped (token : Token) : token.stripped.kind = token.kind := rfl

@[simp] theorem text_stripped (token : Token) : token.stripped.text = token.text := rfl

@[simp] theorem span_stripped (token : Token) : token.stripped.span = .nowhere := rfl

@[simp] theorem modifiers_stripped (tokens : List Token) :
    modifiers (tokens.map stripped) = modifiers tokens := by
  rw [modifiers, List.filterMap_map]
  rfl

@[simp] theorem areNullable_stripped (tokens : List Token) :
    areNullable (tokens.map stripped) = areNullable tokens := by
  rw [areNullable, modifiers_stripped, areNullable]

@[simp] theorem datatype?_stripped (token : Token) (nullable : Bool) :
    token.stripped.datatype? nullable = token.datatype? nullable := rfl

theorem firstModifier?_stripped (condition : Modifier → Bool) (tokens : List Token) :
    firstModifier? condition (tokens.map stripped) =
      (firstModifier? condition tokens).map stripped := by
  rw [firstModifier?, List.find?_map]
  rfl

/-- The place is all that is taken away. -/
theorem stripped_eq_iff {left right : Token} :
    left.stripped = right.stripped ↔ left.toLexeme = right.toLexeme := by
  simp [stripped]

theorem same_iff {left right : Token} : left.same right ↔ left.stripped = right.stripped := by
  rw [same, decide_eq_true_iff, stripped_eq_iff]

theorem sameAll_iff {left right : List Token} :
    sameAll left right ↔ left.map stripped = right.map stripped := by
  have h (tokens : List Token) :
      tokens.map stripped = (tokens.map Token.toLexeme).map (⟨·, .nowhere⟩) := by
    rw [List.map_map]
    rfl
  rw [sameAll, decide_eq_true_iff, h, h]
  exact (List.map_inj_right fun _ _ he => congrArg Token.toLexeme he).symm

end Token

/-! ## Expressions -/

namespace Expr

mutual

def stripped : Expr → Expr
  | .literal type value => .literal type value.stripped
  | .read type identifier => .read type identifier.stripped
  | .binary type left operator right =>
    .binary type left.stripped operator.stripped right.stripped
  | .unary type operator right => .unary type operator.stripped right.stripped
  | .cast type target value => .cast type target.stripped value.stripped
  | .assign type assignee operator value =>
    .assign type assignee.stripped operator.stripped value.stripped
  | .call type callee arguments => .call type callee.stripped (strippedAll arguments)

def strippedAll : List Expr → List Expr
  | [] => []
  | value :: rest => value.stripped :: strippedAll rest

end

theorem strippedAll_eq (values : List Expr) : strippedAll values = values.map stripped := by
  induction values with
  | nil => rfl
  | cons value rest ih => rw [strippedAll, ih, List.map_cons]

@[simp] theorem type_stripped (value : Expr) : value.stripped.type = value.type := by
  cases value <;> simp [stripped, type]

@[simp] theorem types_strippedAll (values : List Expr) :
    (strippedAll values).map type = values.map type := by
  rw [strippedAll_eq, List.map_map]
  exact List.map_congr_left fun value _ => value.type_stripped

@[simp] theorem span_stripped (value : Expr) : value.stripped.span = .nowhere := by
  fun_induction span value <;> simp_all [stripped, span]

mutual

theorem same_iff : ∀ {left right : Expr}, left.same right ↔ left.stripped = right.stripped
  | .literal .., other => by cases other <;> simp [same, stripped, Token.same_iff]
  | .read .., other => by cases other <;> simp [same, stripped, Token.same_iff]
  | .binary _ left _ right, other => by
    cases other <;>
      simp [same, stripped, Token.same_iff, @same_iff left, @same_iff right, and_assoc]
  | .unary _ _ right, other => by
    cases other <;> simp [same, stripped, Token.same_iff, @same_iff right, and_assoc]
  | .cast _ _ value, other => by
    cases other <;> simp [same, stripped, Token.same_iff, @same_iff value, and_assoc]
  | .assign _ _ _ value, other => by
    cases other <;> simp [same, stripped, Token.same_iff, @same_iff value, and_assoc]
  | .call _ _ arguments, other => by
    cases other <;> simp [same, stripped, Token.same_iff, @sameAll_iff arguments, and_assoc]

theorem sameAll_iff : ∀ {left right : List Expr},
    sameAll left right ↔ strippedAll left = strippedAll right
  | [], other => by cases other <;> simp [sameAll, strippedAll]
  | value :: rest, other => by
    cases other <;> simp [sameAll, strippedAll, @same_iff value, @sameAll_iff rest]

end

end Expr

/-! ## Statements -/

namespace Parameter

def stripped (parameter : Parameter) : Parameter :=
  ⟨parameter.modifiers.map Token.stripped, parameter.datatype.stripped,
    parameter.identifier.stripped⟩

theorem same_iff {left right : Parameter} :
    left.same right ↔ left.stripped = right.stripped := by
  simp [same, stripped, Token.same_iff, Token.sameAll_iff, and_assoc]

theorem sameAll_iff {left right : List Parameter} :
    sameAll left right ↔ left.map stripped = right.map stripped := by
  induction left generalizing right with
  | nil => cases right <;> simp [sameAll]
  | cons parameter rest ih => cases right <;> simp [sameAll, same_iff, ih]

end Parameter

namespace FunctionHeader

def stripped (header : FunctionHeader) : FunctionHeader :=
  ⟨header.modifiers.map Token.stripped, header.identifier.stripped, header.returnType.stripped,
    header.parameters.map Parameter.stripped⟩

theorem same_iff {left right : FunctionHeader} :
    left.same right ↔ left.stripped = right.stripped := by
  simp [same, stripped, Token.same_iff, Token.sameAll_iff, Parameter.sameAll_iff, and_assoc]

end FunctionHeader

namespace VariableHeader

def stripped (header : VariableHeader) : VariableHeader :=
  ⟨header.modifiers.map Token.stripped, header.identifier.stripped, header.datatype.stripped⟩

theorem same_iff {left right : VariableHeader} :
    left.same right ↔ left.stripped = right.stripped := by
  simp [same, stripped, Token.same_iff, Token.sameAll_iff, and_assoc]

end VariableHeader

namespace Action

def stripped : Action → Action
  | .assign identifier operator value =>
    .assign identifier.stripped operator.stripped value.stripped
  | .call identifier arguments => .call identifier.stripped (Expr.strippedAll arguments)

theorem same_iff {left right : Action} : left.same right ↔ left.stripped = right.stripped := by
  cases left <;> cases right <;>
    simp [same, stripped, Token.same_iff, Expr.same_iff, Expr.sameAll_iff, and_assoc]

end Action

mutual

def Stmt.stripped : Stmt → Stmt
  | .module identifier body => .module identifier.stripped (Stmt.strippedAll body)
  | .function header body => .function header.stripped (Stmt.strippedAll body)
  | .native header binding => .native header.stripped binding.stripped
  | .declare header => .declare header.stripped
  | .define header value => .define header.stripped value.stripped
  | .action action => .action action.stripped
  | .ifElse keyword condition body otherwise =>
    .ifElse keyword.stripped condition.stripped (Stmt.strippedAll body) otherwise.stripped
  | .whileLoop keyword condition body =>
    .whileLoop keyword.stripped condition.stripped (Stmt.strippedAll body)
  | .forLoop keyword header value condition step body =>
    .forLoop keyword.stripped header.stripped value.stripped condition.stripped step.stripped
      (Stmt.strippedAll body)
  | .returning keyword value => .returning keyword.stripped (value.map Expr.stripped)
  | .stdlibFinish keyword => .stdlibFinish keyword.stripped

def Else.stripped : Else → Else
  | .absent => .absent
  | .block body => .block (Stmt.strippedAll body)
  | .elseIf keyword condition body otherwise =>
    .elseIf keyword.stripped condition.stripped (Stmt.strippedAll body) otherwise.stripped

def Stmt.strippedAll : List Stmt → List Stmt
  | [] => []
  | stmt :: rest => stmt.stripped :: Stmt.strippedAll rest

end

namespace Stmt

theorem strippedAll_eq (body : List Stmt) : strippedAll body = body.map stripped := by
  induction body with
  | nil => rfl
  | cons stmt rest ih => rw [strippedAll, ih, List.map_cons]

@[simp] theorem span_stripped (stmt : Stmt) : stmt.stripped.span = .nowhere := by
  cases stmt with
  | action action => cases action <;> rfl
  | _ => rfl

@[simp] theorem kindName_stripped (stmt : Stmt) : stmt.stripped.kindName = stmt.kindName := by
  cases stmt with
  | action action => cases action <;> rfl
  | _ => rfl

@[simp] theorem isIf_stripped (stmt : Stmt) : stmt.stripped.isIf = stmt.isIf := by
  cases stmt <;> rfl

theorem withBody_stripped (stmt : Stmt) (body : List Stmt) :
    stmt.stripped.withBody (strippedAll body) = (stmt.withBody body).stripped := by
  cases stmt <;> rfl

end Stmt

mutual

theorem Stmt.same_iff : ∀ {left right : Stmt}, left.same right ↔ left.stripped = right.stripped
  | .module _ body, other => by
    cases other <;> simp [Stmt.same, Stmt.stripped, Token.same_iff, @Stmt.sameAll_iff body]
  | .function _ body, other => by
    cases other <;> simp [Stmt.same, Stmt.stripped, FunctionHeader.same_iff, @Stmt.sameAll_iff body]
  | .native .., other => by
    cases other <;> simp [Stmt.same, Stmt.stripped, FunctionHeader.same_iff, Token.same_iff]
  | .declare _, other => by cases other <;> simp [Stmt.same, Stmt.stripped, VariableHeader.same_iff]
  | .define .., other => by
    cases other <;> simp [Stmt.same, Stmt.stripped, VariableHeader.same_iff, Expr.same_iff]
  | .action _, other => by cases other <;> simp [Stmt.same, Stmt.stripped, Action.same_iff]
  | .ifElse _ _ body otherwise, other => by
    cases other <;> simp [Stmt.same, Stmt.stripped, Token.same_iff, Expr.same_iff,
      @Stmt.sameAll_iff body, @Else.same_iff otherwise, and_assoc]
  | .whileLoop _ _ body, other => by
    cases other <;> simp [Stmt.same, Stmt.stripped, Token.same_iff, Expr.same_iff,
      @Stmt.sameAll_iff body, and_assoc]
  | .forLoop _ _ _ _ _ body, other => by
    cases other <;> simp [Stmt.same, Stmt.stripped, Token.same_iff, VariableHeader.same_iff,
      Expr.same_iff, Action.same_iff, @Stmt.sameAll_iff body, and_assoc]
  | .returning _ value, other => by
    cases other with
    | returning _ other =>
      cases value <;> cases other <;> simp [Stmt.same, Stmt.stripped, Token.same_iff, Expr.same_iff]
    | _ => cases value <;> simp [Stmt.same, Stmt.stripped]
  | .stdlibFinish _, other => by cases other <;> simp [Stmt.same, Stmt.stripped, Token.same_iff]

theorem Else.same_iff : ∀ {left right : Else}, left.same right ↔ left.stripped = right.stripped
  | .absent, other => by cases other <;> simp [Else.same, Else.stripped]
  | .block body, other => by cases other <;> simp [Else.same, Else.stripped, @Stmt.sameAll_iff body]
  | .elseIf _ _ body otherwise, other => by
    cases other <;> simp [Else.same, Else.stripped, Token.same_iff, Expr.same_iff,
      @Stmt.sameAll_iff body, @Else.same_iff otherwise, and_assoc]

theorem Stmt.sameAll_iff : ∀ {left right : List Stmt},
    Stmt.sameAll left right ↔ Stmt.strippedAll left = Stmt.strippedAll right
  | [], other => by cases other <;> simp [Stmt.sameAll, Stmt.strippedAll]
  | stmt :: rest, other => by
    cases other <;>
      simp [Stmt.sameAll, Stmt.strippedAll, @Stmt.same_iff stmt, @Stmt.sameAll_iff rest]

end

end MuLang
