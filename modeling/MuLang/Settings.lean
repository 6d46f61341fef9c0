import MuLang.Modifier

/-!
# Settings of an analysis

Whether the standard library is being compiled, how many diagnostics to collect, and who may refer
to a declaration that is not public.
-/
namespace MuLang

/-- Which modules may see a restricted declaration, relative to the module that owns it. -/
inductive Boundary where
  /-- The owning module alone. -/
  | sameModule
  /-- The owning module and everything nested inside it. -/
  | subtree
  /-- The owning module's parent and everything nested inside that. -/
  | siblings
  deriving DecidableEq, Inhabited

/-- Who may refer to a declaration, by its visibility. -/
structure AccessPolicy where
  /-- The visibility of declarations that carry no visibility modifier. -/
  defaultVisibility : Visibility := .pub
  privateScope : Boundary := .sameModule
  protectedScope : Boundary := .subtree
  deriving DecidableEq, Inhabited

/-- The boundary that applies to a declaration with these modifiers, or `none` where it is visible
everywhere. The first visibility modifier counts. -/
def AccessPolicy.boundary? (policy : AccessPolicy) (modifiers : List Modifier) : Option Boundary :=
  match (modifiers.findSome? Modifier.visibility?).getD policy.defaultVisibility with
  | .pub => none
  | .priv => some policy.privateScope
  | .prot => some policy.protectedScope

/-- The settings of an analysis. -/
structure Settings where
  /-- Standard-library mode, in which declarations may stand outside modules. -/
  stdlib : Bool := false
  /-- How many diagnostics are collected at most; `none` for all of them. -/
  maxErrors : Option Nat := none
  access : AccessPolicy := {}
  deriving DecidableEq, Inhabited

end MuLang
