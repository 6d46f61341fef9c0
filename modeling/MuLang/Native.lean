import MuLang.Datatype

/-!
# Native functions

A program may declare functions that the host provides. The analysis never calls them; it only asks
whether the host has one of a given name and parameter list.
-/
namespace MuLang.Native

/-- What the host knows about one native function. -/
structure Descriptor where
  name : String
  parameters : List Datatype
  returnType : Datatype
  deriving DecidableEq, Inhabited

/-- The host's answer to a look-up. -/
inductive Answer where
  | found (descriptor : Descriptor)
  | notFound
  | ambiguous
  deriving DecidableEq, Inhabited

/-- What a host offers: an answer for each name and list of parameter types. -/
abbrev Bindings := String → List Datatype → Answer

/-- The native functions of a host in the order in which they were registered. -/
abbrev Registry := List Descriptor

namespace Registry

def register (registry : Registry) (descriptor : Descriptor) : Registry := registry ++ [descriptor]

/-- The registered functions of a name with exactly the given parameter types. -/
def candidates (registry : Registry) (name : String) (parameters : List Datatype) :
    List Descriptor :=
  registry.filter fun entry => entry.name = name ∧ entry.parameters = parameters

/-- A name and parameter list stand for a function only if it was registered once. -/
def lookup (registry : Registry) : Bindings := fun name parameters =>
  match registry.candidates name parameters with
  | [] => .notFound
  | [descriptor] => .found descriptor
  | _ :: _ :: _ => .ambiguous

end Registry

end MuLang.Native
