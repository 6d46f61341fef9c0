import MuLang.Operator

/-!
# Datatypes

The closed type system of the language: nine primitive kinds and a flag that admits `null`. Here
are the rule that says which values a variable may hold, and the result types of operators.
-/
namespace MuLang

/-- The type names that a program can write. -/
inductive TypeName where
  | int | long | double | float | bool | string | char | void
  deriving DecidableEq, Inhabited

/-- The kinds of value. `null` is the kind of the `null` literal and has no name of its own. -/
inductive Primitive where
  | int | long | double | float | bool | string | char | void | null
  deriving DecidableEq, Inhabited

namespace Primitive

/-- The kind that a type name stands for. -/
def ofTypeName : TypeName → Primitive
  | .int => .int
  | .long => .long
  | .double => .double
  | .float => .float
  | .bool => .bool
  | .string => .string
  | .char => .char
  | .void => .void

/-- The type name that spells a kind, if it has one. -/
def typeName? : Primitive → Option TypeName
  | .int => some .int
  | .long => some .long
  | .double => some .double
  | .float => some .float
  | .bool => some .bool
  | .string => some .string
  | .char => some .char
  | .void => some .void
  | .null => none

/-- The spelling of a kind. -/
def name : Primitive → String
  | .int => "int"
  | .long => "long"
  | .double => "double"
  | .float => "float"
  | .bool => "bool"
  | .string => "string"
  | .char => "char"
  | .void => "void"
  | .null => "null"

/-- The place of a numeric kind in the widening order. `char` widens like a small integer. -/
def rank? : Primitive → Option Nat
  | .char => some 0
  | .int => some 1
  | .long => some 2
  | .float => some 3
  | .double => some 4
  | _ => none

def isNumeric (kind : Primitive) : Bool := kind.rank?.isSome

def isIntegral : Primitive → Bool
  | .char | .int | .long => true
  | _ => false

/-- The kind in which arithmetic on a kind is done: `char` counts as `int`. -/
def promoted : Primitive → Primitive
  | .char => .int
  | kind => kind

/-- The wider of two numeric kinds after promotion, the left one where they are equal. -/
def wider (left right : Primitive) : Primitive :=
  if right.promoted.rank?.getD 0 ≤ left.promoted.rank?.getD 0 then left.promoted
  else right.promoted

theorem ofTypeName_typeName? {kind : Primitive} {name : TypeName}
    (h : kind.typeName? = some name) : ofTypeName name = kind := by
  cases kind <;> simp [typeName?] at h <;> subst h <;> rfl

theorem typeName?_ofTypeName (name : TypeName) : (ofTypeName name).typeName? = some name := by
  cases name <;> rfl

end Primitive

/-- A kind of value together with whether `null` is admitted. -/
structure Datatype where
  kind : Primitive
  nullable : Bool
  deriving DecidableEq, Inhabited

namespace Datatype

/-- The type of a kind's own values, without `null`. -/
def plain (kind : Primitive) : Datatype := ⟨kind, false⟩

def bool : Datatype := plain .bool
def void : Datatype := plain .void

/-- The type of the `null` literal. -/
def null : Datatype := ⟨.null, true⟩

def withNullable (type : Datatype) (nullable : Bool) : Datatype := { type with nullable }

/-- How a diagnostic names a type. The `null` type never shows its flag. -/
def describe (type : Datatype) : String :=
  if type.nullable ∧ type.kind ≠ .null then "nullable " ++ type.kind.name else type.kind.name

/-- A comma-separated list of type names. -/
def describeAll (types : List Datatype) : String :=
  ", ".intercalate (types.map describe)

/-- The argument types of a call, as a diagnostic shows them. -/
def describeArguments (types : List Datatype) : String :=
  if types.isEmpty then "no arguments" else "arguments (" ++ describeAll types ++ ")"

/-- Whether a value of type `source` may be stored in a variable of type `target`.

Equal kinds fit, a value without `null` fits a nullable variable, `null` fits any nullable variable,
and numeric kinds widen along `char < int < long < float < double`, except that nothing widens to
`char`. -/
def fits (source target : Datatype) : Bool :=
  if source.kind = .void ∨ target.kind = .void then false
  else if source.kind = .null then target.nullable
  else if source.nullable ∧ ¬target.nullable then false
  else if source.kind = target.kind then true
  else match source.kind.rank?, target.kind.rank? with
    | some narrow, some wide => narrow ≤ wide && target.kind != .char
    | _, _ => false

/-- An explicit cast keeps the kind or converts between numeric kinds. -/
def castsTo (source target : Datatype) : Bool :=
  source.kind == target.kind || (source.kind.isNumeric && target.kind.isNumeric)

/-- Whether two values can be compared for equality: equal kinds other than `void`, two numbers, or
`null` against a type that admits it. -/
def comparable (left right : Datatype) : Bool :=
  (left.kind == right.kind && left.kind != .void) ||
  (left.kind.isNumeric && right.kind.isNumeric) ||
  (left.kind == .null && right.nullable) ||
  (right.kind == .null && left.nullable)

/-- The kind of an arithmetic operation on two numbers. -/
def arithmetic (left right : Primitive) : Option Primitive :=
  if left.isNumeric ∧ right.isNumeric then some (left.wider right) else none

/-- The kind of a sum: a string as soon as one side is a string, otherwise a number. -/
def sum (left right : Primitive) : Option Primitive :=
  if left = .string ∨ right = .string then
    if left = .void ∨ right = .void then none else some .string
  else arithmetic left right

/-- The kind of a bitwise operation: two booleans or two integers. -/
def bitwise (left right : Primitive) : Option Primitive :=
  if left = .bool ∧ right = .bool then some .bool
  else if left.isIntegral ∧ right.isIntegral then some (left.wider right)
  else none

/-- The result kind of a binary operator, or `none` where it does not apply to the operands. -/
def binaryKind (op : BinaryOp) (left right : Datatype) : Option Primitive :=
  match op with
  | .add => sum left.kind right.kind
  | .subtract | .multiply | .divide | .remainder => arithmetic left.kind right.kind
  | .bitAnd | .bitOr | .bitXor => bitwise left.kind right.kind
  | .shiftLeft | .shiftRight =>
    if left.kind.isIntegral ∧ right.kind.isIntegral then some (left.kind.wider .int) else none
  | .less | .lessEqual | .greater | .greaterEqual =>
    if left.kind.isNumeric ∧ right.kind.isNumeric then some .bool else none
  | .equal | .notEqual => if comparable left right then some .bool else none
  | .logicalAnd | .logicalOr =>
    if left.kind = .bool ∧ right.kind = .bool then some .bool else none

/-- The result type of a binary operator, which never admits `null`. -/
def binary (op : BinaryOp) (left right : Datatype) : Option Datatype :=
  (binaryKind op left right).map plain

/-- The result type of a unary operator. -/
def unary (op : UnaryOp) (operand : Datatype) : Option Datatype :=
  match op with
  | .negate => if operand.kind.isNumeric then some (plain (operand.kind.wider .char)) else none
  | .logicalNot => if operand.kind = .bool then some bool else none

end Datatype

end MuLang
