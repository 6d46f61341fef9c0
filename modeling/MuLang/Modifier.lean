/-!
# Modifiers

The words that a declaration may carry, and the axis on which each of them decides something. Of
each axis a declaration may carry one modifier at most.
-/
namespace MuLang

/-- What a modifier decides. -/
inductive Axis where
  | visibility | mutability | nullability
  deriving DecidableEq, Inhabited

/-- The modifiers of a declaration. -/
inductive Modifier where
  | pub | priv | prot
  | own | mutable | constant
  | nullable | nonnull
  deriving DecidableEq, Inhabited

/-- Who may refer to a declaration. -/
inductive Visibility where
  | pub | priv | prot
  deriving DecidableEq, Inhabited

namespace Modifier

def axis : Modifier → Axis
  | .pub | .priv | .prot => .visibility
  | .own | .mutable | .constant => .mutability
  | .nullable | .nonnull => .nullability

/-- The visibility that a modifier asks for, if it is one of that axis. -/
def visibility? : Modifier → Option Visibility
  | .pub => some .pub
  | .priv => some .priv
  | .prot => some .prot
  | _ => none

/-- Modifiers refused where visibility is refused. `own` restricts who may write a variable, so it
counts as one of them. -/
def restrictsAccess (modifier : Modifier) : Bool :=
  modifier.axis = .visibility || modifier = .own

/-- Modifiers that say whether a variable may change. -/
def isMutability (modifier : Modifier) : Bool := modifier.axis = .mutability

/-- The first explicit visibility modifier. -/
def firstVisibility? (modifiers : List Modifier) : Option Modifier :=
  modifiers.find? (·.visibility?.isSome)

/-- A variable is constant unless it is `mut` or `own`, and always when it is `const`. -/
def isConstant (modifiers : List Modifier) : Bool :=
  modifiers.contains .constant || !(modifiers.contains .mutable || modifiers.contains .own)

end Modifier

end MuLang
