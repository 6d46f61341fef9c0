import MuLang.Proofs.Guarded.Computations

/-!
# Guarded resolution of names

Names are looked up in scopes by slot and in modules by path. Where the current module and those
around it are there, every slot and path that comes up in a look-up is in range.
-/
namespace MuLang

namespace Guarded

open Checked (access plain)

/-! ## References -/

/-- Whether code of module `source` may refer to a declaration of module `owner`. -/
def admits (env : Env) (source owner : ModulePath) (modifiers : List Modifier) : Guarded Bool :=
  match env.access.boundary? modifiers with
  | none => return true
  | some .sameModule => return source = owner
  | some .subtree => do
    visit env.table source.ancestors
    return owner.isAncestorOrSelf source
  | some .siblings => do
    let _ ← module env.table owner
    visit env.table source.ancestors
    return owner.parent.isAncestorOrSelf source

/-- Checks a reference to a declaration of `owner`; the error names the current module. -/
def checkAccess (env : Env) (source owner : ModulePath) (kind : String)
    (modifiers : List Modifier) (identifier : Token) : Checked Unit := do
  if ← access (admits env source owner modifiers) then return
  else
    access (visit env.table source.ancestors)
    throw (.atToken (.accessViolation kind identifier.text source.describe) identifier)

/-- The global variable that a name stands for in a module. -/
def global (env : Env) (source : ModulePath) (identifier : Token) : Checked Resolved := do
  let path := (QualifiedName.split identifier.text).path
  let around ← access (resolveModule? env.table source path)
  if !path.isEmpty && around.isNone then
    throw (.atToken (.moduleNotFound (joinDots path)) identifier)
  else
    match ← access (resolveGlobal? env.table source identifier.text) with
    | none => throw (.atToken (.variableNotDeclared identifier.text) identifier)
    | some (owner, v) =>
      checkAccess env source owner "variable" v.modifiers identifier
      return ⟨.globalOf owner, v⟩

/-- The variable that a name stands for, a local by its slot. -/
def resolve (env : Env) (scopes : ScopeStack) (identifier : Token) : Checked Resolved := do
  match ← access (if isDotted identifier.text then return none
    else findLocal? scopes identifier.text) with
  | some slot => return ⟨.localAt slot, ← access (held scopes slot)⟩
  | none => global env (← access (current scopes)).module identifier

/-- Checks `identifier operator value`. The local that is assigned to is accessed once more, to mark
it. -/
def assign (env : Env) (scopes : ScopeStack) (identifier operator : Token) (value : Expr) :
    Checked (Datatype × ScopeStack) := do
  let ⟨place, v⟩ ← resolve env scopes identifier
  let source := (← access (current scopes)).module
  let foreign := match place with
    | .globalOf owner => v.isOwned && owner != source
    | .localAt _ => false
  if foreign then
    access (visit env.table source.ancestors)
    throw (.atToken (.accessViolation "owned variable" identifier.text source.describe) identifier)
  if operator.kind.compound?.isSome && !v.initialized then
    throw (.atToken (.variableNotInitialized identifier.text) identifier)
  if v.isConstant && v.initialized then
    throw (.atToken (.constantReassignment identifier.text) identifier)
  let type ← plain (Env.assigned v operator value)
  if !type.fits v.datatype then
    throw ⟨.typeMismatch v.datatype.describe type.describe, value.span.start, []⟩
  match place with
  | .localAt slot =>
    let _ ← access (held scopes slot)
    return (v.datatype, scopes.initializeLocal slot)
  | .globalOf _ => return (v.datatype, scopes)

/-- The module in which the functions of a name are looked for. -/
def functionModule (env : Env) (source : ModulePath) (callee : Token) :
    Checked (Option ModulePath) :=
  let ⟨path, name⟩ := QualifiedName.split callee.text
  if path.isEmpty then
    access (findSome? (fun path => do
      let outer ← module env.table path
      return if (outer.definitions name).isEmpty then none else some path) source.ancestors)
  else do
    match ← access (resolveModule? env.table source path) with
    | some found => return some found
    | none => throw (.atToken (.moduleNotFound (joinDots path)) callee)

/-- The functions of a name in a module, if there is one. -/
def definitionsIn (env : Env) (name : String) : Option ModulePath → Guarded (List FunctionDefinition)
  | some path => do
    let owner ← module env.table path
    return owner.definitions name
  | none => return []

/-- The type of a call. -/
def call (env : Env) (source : ModulePath) (callee : Token) (arguments : List Datatype) :
    Checked Datatype := do
  let name := (QualifiedName.split callee.text).name
  let found ← functionModule env source callee
  let definitions ← access (definitionsIn env name found)
  if definitions.isEmpty then
    access (visit env.table (found.getD source).ancestors)
    throw (.atToken (.functionNotFound name (found.getD source).describe) callee)
  match definitions.find? (·.accepts arguments) with
  | none => throw (.atToken (.noImplementation name (Datatype.describeArguments arguments)) callee)
  | some definition =>
    checkAccess env source (found.getD source) "function" definition.modifiers callee
    return definition.returnType

/-! ## Every look-up is in range -/

section

open Checked (Agrees)

variable {env : Env} {source owner : ModulePath} (hu : env.table.Upward)
  (hs : env.table.contains source)
include hu hs

theorem admits_eq (ho : env.table.contains owner) (modifiers : List Modifier) :
    admits env source owner modifiers = .ok (env.admits source owner modifiers) := by
  have hvisit := visit_ancestors hu hs
  unfold admits Env.admits
  rcases env.access.boundary? modifiers with _ | _ | _ | _
  · rfl
  · rfl
  · rw [hvisit]
    rfl
  · rw [module_of_contains ho, hvisit]
    rfl

theorem agrees_checkAccess (ho : env.table.contains owner) (kind : String)
    (modifiers : List Modifier) (identifier : Token) :
    Agrees (checkAccess env source owner kind modifiers identifier)
      (env.checkAccess source owner kind modifiers identifier) := by
  refine .access_bind (admits_eq hu hs ho modifiers) (.ite (fun _ => .pure _) fun _ => ?_)
  exact .access_bind (visit_ancestors hu hs) (.throw _)

theorem agrees_global (identifier : Token) :
    Agrees (global env source identifier) (env.global source identifier) := by
  refine .access_bind (resolveModule?_eq hu hs _) (.ite (fun _ => .throw _) fun _ => ?_)
  refine .access_bind (resolveGlobal?_eq hu hs identifier.text) ?_
  cases hr : env.table.resolveGlobal? source identifier.text with
  | none => exact .throw _
  | some found =>
    exact .map (agrees_checkAccess hu hs (contains_of_resolveGlobal? hu hs hr) _ _ _) _

theorem agrees_functionModule (callee : Token) :
    Agrees (functionModule env source callee) (env.functionModule source callee) := by
  unfold functionModule Env.functionModule
  dsimp only
  split
  · refine .access ?_
    rw [List.find?_eq_findSome?_guard]
    refine findSome?_eq fun outer hm => ?_
    rw [module_of_contains (hu source hs outer hm)]
    cases hd : ((env.table.module outer).definitions (QualifiedName.split callee.text).name).isEmpty <;>
      simp [bind, Except.bind, pure, Except.pure, Option.guard, hd]
  · refine .access_bind (resolveModule?_eq hu hs _) ?_
    cases env.table.resolveModule? source (QualifiedName.split callee.text).path with
    | none => exact .throw _
    | some found => exact .pure _

/-- The functions of a call are looked for in a module that is there. -/
theorem contains_of_functionModule {callee : Token} {found : Option ModulePath}
    (h : env.functionModule source callee = .ok found) : ∀ path ∈ found, env.table.contains path := by
  unfold Env.functionModule at h
  dsimp only at h
  rintro path rfl
  split at h
  · exact hu source hs path (List.mem_of_find?_eq_some (Except.ok.inj h))
  · split at h
    next hr =>
      obtain rfl := Option.some.inj (Except.ok.inj h)
      exact contains_of_resolveModule? hu hs hr
    next => cases h

theorem agrees_call (callee : Token) (arguments : List Datatype) :
    Agrees (call env source callee arguments) (env.call source callee arguments) := by
  simp only [call, Env.call, Checked.throw_bind, Except.throw_bind]
  refine .bind (agrees_functionModule hu hs callee) fun found hfound => ?_
  cases found with
  | none => exact .access_bind rfl (.access_bind (visit_ancestors hu hs) (.throw _))
  | some owner =>
    have howner := contains_of_functionModule hu hs hfound owner rfl
    have hdefinitions : definitionsIn env (QualifiedName.split callee.text).name (some owner) =
        .ok ((env.table.module owner).definitions (QualifiedName.split callee.text).name) := by
      rw [definitionsIn, module_of_contains howner]
      rfl
    refine .access_bind hdefinitions (.ite (fun _ => ?_) fun _ => ?_)
    · exact .access_bind (visit_ancestors hu howner) (.throw _)
    · dsimp only [Option.getD_some]
      cases List.find? (·.accepts arguments) ((env.table.module owner).definitions _) with
      | none => exact .throw _
      | some definition => exact .bind (agrees_checkAccess hu hs howner _ _ _) fun _ _ => .pure _

end

section

open Checked (Agrees)

variable {env : Env} {scopes : ScopeStack} (hu : env.table.Upward)
  (hs : env.table.contains scopes.currentModule)
include hu hs

theorem agrees_resolve (identifier : Token) :
    Agrees (resolve env scopes identifier) (env.resolve scopes identifier) := by
  obtain ⟨hslot, hheld⟩ := findLocal?_eq scopes identifier.text
  unfold resolve Env.resolve
  by_cases hd : isDotted identifier.text
  · rw [if_pos hd, if_pos hd]
    exact .access_bind rfl (.access_bind (current_eq scopes) (agrees_global hu hs identifier))
  · rw [if_neg hd, if_neg hd]
    refine .access_bind hslot ?_
    cases hfind : scopes.findLocal? identifier.text with
    | none => exact .access_bind (current_eq scopes) (agrees_global hu hs identifier)
    | some found => exact .access_bind (hheld _ _ hfind) (.pure _)

omit hu hs in
/-- The slot of a local that a name stands for holds it. -/
theorem held_of_resolve {identifier : Token} {slot : LocalSlot} {v : Variable}
    (h : env.resolve scopes identifier = .ok ⟨.localAt slot, v⟩) : held scopes slot = .ok v := by
  unfold Env.resolve at h
  split at h
  next found he =>
    cases h
    split at he
    · cases he
    · exact (findLocal?_eq scopes identifier.text).2 _ _ he
  next =>
    obtain ⟨owner, w, he, -⟩ := Env.resolveGlobal?_of_global h
    cases he

theorem agrees_assign (identifier operator : Token) (value : Expr) :
    Agrees (assign env scopes identifier operator value)
      (env.assign scopes identifier operator value) := by
  simp only [assign, Env.assign, Checked.throw_bind, Except.throw_bind]
  refine .bind (agrees_resolve hu hs identifier) fun resolved hresolved => ?_
  obtain ⟨place, v⟩ := resolved
  refine .access_bind (current_eq scopes) (.ite (fun _ => ?_) fun _ => ?_)
  · exact .access_bind (visit_ancestors hu hs) (.throw _)
  refine .ite (fun _ => .throw _) fun _ => .ite (fun _ => .throw _) fun _ => ?_
  refine .bind (.plain _) fun type _ => .ite (fun _ => .throw _) fun _ => ?_
  cases place with
  | globalOf owner => exact .pure _
  | localAt slot => exact .access_bind (held_of_resolve hresolved) (.pure _)

end

end Guarded

end MuLang
