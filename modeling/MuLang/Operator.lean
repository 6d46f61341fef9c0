/-!
# Operators

The operators of expressions and assignments, and how tightly the binary ones bind.
-/
namespace MuLang

/-- Operators written between two operands. -/
inductive BinaryOp where
  | logicalOr | logicalAnd
  | bitOr | bitXor | bitAnd
  | equal | notEqual
  | less | lessEqual | greater | greaterEqual
  | shiftLeft | shiftRight
  | add | subtract
  | multiply | divide | remainder
  deriving DecidableEq, Inhabited

/-- Operators written before their only operand. -/
inductive UnaryOp where
  | negate | logicalNot
  deriving DecidableEq, Inhabited

/-- Operators that store a value: plain assignment and the compound ones. -/
inductive AssignOp where
  | plain
  | add | subtract | multiply | divide | remainder
  | bitAnd | bitOr | bitXor
  | shiftLeft | shiftRight
  deriving DecidableEq, Inhabited

namespace BinaryOp

/-- How tightly an operator binds; of two operators in a row the one with the greater power takes
the operand between them, and of equal powers the left one does. -/
def power : BinaryOp → Nat
  | .logicalOr => 1
  | .logicalAnd => 2
  | .bitOr => 3
  | .bitXor => 4
  | .bitAnd => 5
  | .equal | .notEqual => 6
  | .less | .lessEqual | .greater | .greaterEqual => 7
  | .shiftLeft | .shiftRight => 8
  | .add | .subtract => 9
  | .multiply | .divide | .remainder => 10

end BinaryOp

/-- The binary operator that a compound assignment applies to the old value and the new one. -/
def AssignOp.binary? : AssignOp → Option BinaryOp
  | .plain => none
  | .add => some .add
  | .subtract => some .subtract
  | .multiply => some .multiply
  | .divide => some .divide
  | .remainder => some .remainder
  | .bitAnd => some .bitAnd
  | .bitOr => some .bitOr
  | .bitXor => some .bitXor
  | .shiftLeft => some .shiftLeft
  | .shiftRight => some .shiftRight

end MuLang
