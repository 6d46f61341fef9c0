import MuLang.Proofs.Fallible
import MuLang.Proofs.Policy
import MuLang.Proofs.Table

/-!
# Guarded accesses

A guarded computation looks things up by their place (tokens by index, parts of a statement by their
two ends, locals by slot, modules by path) and fails where nothing is there. It runs like the
computation without the guards exactly if all of its accesses are in range.
-/
namespace MuLang

/-- A place that was accessed and is not there. -/
inductive OutOfRange where
  | index (index length : Nat)
  /-- A distance from the end. -/
  | back (distance length : Nat)
  | slice (first stop length : Nat)
  | scope (place size : Nat)
  | slot (slot : LocalSlot)
  | module (path : ModulePath)
  deriving DecidableEq

/-- A computation that fails where it accesses what is not there. -/
abbrev Guarded := Except OutOfRange

namespace Guarded

variable {α β : Type}

/-! ## Tokens -/

/-- The token at an index. -/
def token (tokens : List Token) (index : Nat) : Guarded Token :=
  match tokens[index]? with
  | some token => .ok token
  | none => .error (.index index tokens.length)

/-- The index at a distance from the end. -/
def back (tokens : List Token) (distance : Nat) : Guarded Nat :=
  if distance ≤ tokens.length then .ok (tokens.length - distance)
  else .error (.back distance tokens.length)

/-- The tokens from one index up to another one, exclusively. -/
def slice (tokens : List Token) (first stop : Nat) : Guarded (List Token) :=
  if first ≤ stop ∧ stop ≤ tokens.length then .ok ((tokens.take stop).drop first)
  else .error (.slice first stop tokens.length)

/-- The last token. -/
def last (tokens : List Token) : Guarded Token := do
  token tokens (← back tokens 1)

/-- The tokens from an index up to a distance from the end. -/
def between (tokens : List Token) (first distance : Nat) : Guarded (List Token) := do
  slice tokens first (← back tokens distance)

/-- A statement cut where its modifiers end. -/
def splitModifiers (tokens : List Token) : Guarded (List Token × List Token) := do
  let count := (Token.leadingModifiers tokens).length
  let modifiers ← slice tokens 0 count
  let rest ← slice tokens count tokens.length
  return (modifiers, rest)

variable {tokens : List Token} {found : Token} {index distance first stop : Nat}

theorem token_of_getElem? (h : tokens[index]? = some found) : token tokens index = .ok found := by
  rw [token, h]

theorem back_of_le (h : distance ≤ tokens.length) :
    back tokens distance = .ok (tokens.length - distance) := if_pos h

theorem slice_of_le (hf : first ≤ stop) (hs : stop ≤ tokens.length) :
    slice tokens first stop = .ok ((tokens.take stop).drop first) := if_pos ⟨hf, hs⟩

/-- What stands between some tokens is found by how many stand before it and before its end. -/
theorem slice_of_append {before part rest : List Token} (h : tokens = before ++ part ++ rest)
    (hf : first = before.length) (hs : stop = (before ++ part).length) :
    slice tokens first stop = .ok part := by
  rw [h, hf, hs, slice_of_le (by simp) (by simp), List.take_left' rfl, List.drop_left' rfl]

theorem last_of_getLast? (h : tokens.getLast? = some found) : last tokens = .ok found := by
  have hlength : 0 < tokens.length := by
    rw [List.length_pos_iff]
    rintro rfl
    cases h
  rw [last, back_of_le hlength]
  exact token_of_getElem? (by rw [← List.getLast?_eq_getElem?, h])

theorem between_of_le (h : first + distance ≤ tokens.length) :
    between tokens first distance = .ok ((tokens.take (tokens.length - distance)).drop first) := by
  have hback : back tokens distance = .ok (tokens.length - distance) := back_of_le (by omega)
  rw [between, hback]
  exact slice_of_le (by omega) (by omega)

/-- What stands from an index up to the last token. -/
theorem between_one (h : first < tokens.length) :
    between tokens first 1 = .ok (tokens.drop first).dropLast := by
  rw [between_of_le h, List.dropLast_eq_take, List.length_drop, List.drop_take]
  congr 2
  omega

theorem splitModifiers_eq (tokens : List Token) :
    splitModifiers tokens = .ok (Token.leadingModifiers tokens, Token.afterModifiers tokens) := by
  have hsplit : Token.leadingModifiers tokens ++ Token.afterModifiers tokens = tokens :=
    List.takeWhile_append_dropWhile
  have hmodifiers : slice tokens 0 (Token.leadingModifiers tokens).length =
      .ok (Token.leadingModifiers tokens) := @slice_of_append _ _ _ [] _ _ hsplit.symm rfl rfl
  have hrest : slice tokens (Token.leadingModifiers tokens).length tokens.length =
      .ok (Token.afterModifiers tokens) :=
    slice_of_append (hsplit.symm.trans (List.append_nil _).symm) rfl (congrArg _ hsplit.symm)
  rw [splitModifiers, hmodifiers, hrest]
  rfl

/-! ## Scopes -/

/-- The scope at a place counted from the outermost one. -/
def scope (scopes : ScopeStack) (place : Nat) : Guarded Scope :=
  match scopes.scope? place with
  | some scope => .ok scope
  | none => .error (.scope place scopes.size)

/-- The innermost scope. -/
def current (scopes : ScopeStack) : Guarded Scope := scope scopes (scopes.size - 1)

/-- The local in a slot. -/
def held (scopes : ScopeStack) (slot : LocalSlot) : Guarded Variable :=
  match scopes.local? slot with
  | some v => .ok v
  | none => .error (.slot slot)

/-- The slot of the first local of a name, from the scope at a place outwards, up to and including
the first function. -/
def findFrom (scopes : ScopeStack) (name : String) : Nat → Guarded (Option LocalSlot)
  | 0 => return none
  | place + 1 => do
    let inner ← scope scopes (place + 1)
    match inner.locals.findIdx? (·.name = name) with
    | some index => return some ⟨place + 1, index⟩
    | none => if inner.kind = .function then return none else findFrom scopes name place

/-- The slot of the local that a name stands for. Outside functions there is none. -/
def findLocal? (scopes : ScopeStack) (name : String) : Guarded (Option LocalSlot) :=
  if scopes.inFunction then findFrom scopes name (scopes.size - 1) else return none

variable {scopes : ScopeStack} {name : String}

@[simp] theorem current_eq (scopes : ScopeStack) : current scopes = .ok scopes.current := by
  rcases scopes with ⟨_ | ⟨inner, rest⟩, outermost⟩
  · rfl
  · simp [current, scope, ScopeStack.size, ScopeStack.scope?, ScopeStack.current]

theorem scope?_of_suffix {outer inside : List Scope} {inner : Scope}
    (h : scopes.nested = inside ++ inner :: outer) :
    scopes.scope? (outer.length + 1) = some inner := by
  simp [ScopeStack.scope?, h]

/-- Going outwards from some scope finds the slot of the local that is found there, which holds it. -/
theorem findFrom_eq : ∀ {outer inside : List Scope}, scopes.nested = inside ++ outer →
    findFrom scopes name outer.length = .ok ((ScopeStack.findIn name outer).map Prod.fst) ∧
      ∀ slot v, ScopeStack.findIn name outer = some (slot, v) → held scopes slot = .ok v
  | [], _, _ => ⟨rfl, by rintro _ _ ⟨⟩⟩
  | inner :: outer, inside, h => by
    have hplace : scopes.scope? (outer.length + 1) = some inner := scope?_of_suffix h
    have hscope : scope scopes (outer.length + 1) = .ok inner := by rw [scope, hplace]
    obtain ⟨hfind, hheld⟩ := @findFrom_eq outer (inside ++ [inner]) (by simp [h])
    rw [List.length_cons, findFrom, hscope, ScopeStack.findIn,
      List.find?_eq_bind_findIdx?_getElem?]
    cases hindex : inner.locals.findIdx? (·.name = name) with
    | none =>
      by_cases hk : inner.kind = .function
      · simp [bind, Except.bind, pure, Except.pure, hindex, hk]
      · simpa [bind, Except.bind, hindex, hk] using ⟨hfind, hheld⟩
    | some index =>
      obtain ⟨hlt, -⟩ := List.findIdx?_eq_some_iff_getElem.1 hindex
      have hlocal : held scopes ⟨outer.length + 1, index⟩ = .ok inner.locals[index] := by
        rw [held, ScopeStack.local?, hplace, Option.bind_some, List.getElem?_eq_getElem hlt]
      simp [bind, Except.bind, pure, Except.pure, hindex, List.getElem?_eq_getElem hlt, hlocal]

/-- The slot that a name is found in is that of the local that it stands for, and it is there. -/
theorem findLocal?_eq (scopes : ScopeStack) (name : String) :
    findLocal? scopes name = .ok ((scopes.findLocal? name).map Prod.fst) ∧
      ∀ slot v, scopes.findLocal? name = some (slot, v) → held scopes slot = .ok v := by
  unfold findLocal? ScopeStack.findLocal?
  split
  · exact @findFrom_eq scopes name scopes.nested [] rfl
  · exact ⟨rfl, by rintro _ _ ⟨⟩⟩

end Guarded

/-- With a module those around it are there. -/
def SymbolTable.Upward (table : SymbolTable) : Prop :=
  ∀ path, table.contains path → ∀ outer ∈ path.ancestors, table.contains outer

namespace SymbolTable.Upward

variable {table extended : SymbolTable} {path : ModulePath}

theorem congr (h : table.Upward) (hc : ∀ path, extended.contains path = table.contains path) :
    extended.Upward := fun path hp outer ho => by
  rw [hc] at hp ⊢
  exact h path hp outer ho

/-- A module is added inside of one that is there. -/
theorem addModule {name : String} (h : table.Upward) (hp : table.contains path)
    (ha : table.addModule path name = .ok extended) : extended.Upward := by
  intro inner hi outer ho
  rw [contains_addModule ha] at hi ⊢
  obtain hi | rfl := hi
  · exact .inl (h inner hi outer ho)
  · obtain rfl | ho := List.prefix_concat_iff.1 (ModulePath.mem_ancestors.1 ho)
    · exact .inr rfl
    · exact .inl (h path hp outer (ModulePath.mem_ancestors.2 ho))

end SymbolTable.Upward

namespace Guarded

/-! ## Modules -/

/-- The module at a path. -/
def module (table : SymbolTable) (path : ModulePath) : Guarded Module :=
  match table.module? path with
  | some module => .ok module
  | none => .error (.module path)

/-- Visits some modules. -/
def visit (table : SymbolTable) : List ModulePath → Guarded Unit
  | [] => return
  | path :: rest => do
    let _ ← module table path
    visit table rest

/-- The submodule of a name, which is looked for among all submodules. -/
def submodule? (table : SymbolTable) (parent : ModulePath) (name : String) :
    Guarded (Option ModulePath) := do
  let _ ← module table parent
  visit table (table.submodules parent)
  return table.submodule? parent name

/-- Walks down from a module through submodules. -/
def walk? (table : SymbolTable) (start : ModulePath) : List String → Guarded (Option ModulePath)
  | [] => return some start
  | name :: rest => do
    match ← submodule? table start name with
    | some next => walk? table next rest
    | none => return none

/-- The first answer that a list gives. -/
def findSome? (ask : α → Guarded (Option β)) : List α → Guarded (Option β)
  | [] => return none
  | a :: rest => do
    match ← ask a with
    | some b => return some b
    | none => findSome? ask rest

/-- The module that the path of a qualified name stands for. -/
def resolveModule? (table : SymbolTable) (start : ModulePath) (path : List String) :
    Guarded (Option ModulePath) :=
  if path.isEmpty then return some start
  else do
    visit table start.ancestors
    findSome? (fun scope => walk? table scope path) start.ancestors

/-- The variable of a name in a module, with its owner. -/
def globalIn (table : SymbolTable) (path : ModulePath) (name : String) :
    Guarded (Option (ModulePath × Variable)) := do
  let owner ← module table path
  return (owner.global? name).map (path, ·)

/-- The global variable that a name reaches from a module, with its owner. -/
def resolveGlobal? (table : SymbolTable) (start : ModulePath) (identifier : String) :
    Guarded (Option (ModulePath × Variable)) :=
  let qualified := QualifiedName.split identifier
  if qualified.path.isEmpty then
    findSome? (fun path => globalIn table path qualified.name) start.ancestors
  else do
    match ← resolveModule? table start qualified.path with
    | some path => globalIn table path qualified.name
    | none => return none

/-- Adds a module to another one. -/
def addModule (table : SymbolTable) (parent : ModulePath) (name : String) :
    Guarded (Except Conflict SymbolTable) := do
  let _ ← submodule? table parent name
  visit table parent.ancestors
  return table.addModule parent name

/-- Adds a variable to a module. -/
def addVariable (table : SymbolTable) (path : ModulePath) (v : Variable) :
    Guarded (Except Conflict SymbolTable) := do
  visit table path.ancestors
  return table.addVariable path v

/-- Adds a function to the overloads of its name and return type, which are accessed by their place
if they are there. -/
def insertOverload (definition : FunctionDefinition) (functions : List Overloads) :
    Guarded (List Overloads) :=
  match functions.findIdx? fun group =>
      group.name = definition.name ∧ group.returnType = definition.returnType with
  | some index =>
    match functions[index]? with
    | some group =>
      .ok (functions.set index { group with definitions := group.definitions ++ [definition] })
    | none => .error (.index index functions.length)
  | none => .ok (functions ++ [⟨definition.name, definition.returnType, [definition]⟩])

/-- Adds a function to a module. -/
def addFunction (table : SymbolTable) (path : ModulePath) (definition : FunctionDefinition) :
    Guarded (Except Conflict SymbolTable) := do
  visit table path.ancestors
  let owner ← module table path
  if (owner.definitions definition.name).any
      (·.parameterTypes = definition.parameterTypes) then
    return .error (.signatureTaken definition.signature owner.path.describe)
  else
    let functions ← insertOverload definition owner.functions
    return .ok (table.modify path fun _ => { owner with functions })

section

variable {table : SymbolTable} {path start : ModulePath} {name : String}

theorem module_of_contains (h : table.contains path) : module table path = .ok (table.module path) := by
  obtain ⟨found, hfound⟩ := Option.isSome_iff_exists.1 h
  rw [module, SymbolTable.module, hfound]
  rfl

theorem visit_of_contains {paths : List ModulePath} (h : ∀ path ∈ paths, table.contains path) :
    visit table paths = .ok () := by
  induction paths with
  | nil => rfl
  | cons path rest ih =>
    obtain ⟨hpath, hrest⟩ := List.forall_mem_cons.1 h
    rw [visit, module_of_contains hpath]
    exact ih hrest

theorem contains_of_submodule? {next : ModulePath} (h : table.submodule? start name = some next) :
    table.contains next := by
  rw [SymbolTable.submodule?] at h
  split at h
  next hc =>
    obtain rfl := Option.some.inj h
    exact hc
  next => cases h

theorem submodule?_eq (h : table.contains path) (name : String) :
    submodule? table path name = .ok (table.submodule? path name) := by
  have hvisit : visit table (table.submodules path) = .ok () := by
    refine visit_of_contains fun child hchild => ?_
    obtain ⟨found, hfound, hpath⟩ := List.mem_map.1 (List.mem_filter.1 hchild).1
    exact List.find?_isSome.2 ⟨found, hfound, decide_eq_true hpath⟩
  rw [submodule?, module_of_contains h, hvisit]
  rfl

theorem walk?_eq (h : table.contains start) (names : List String) :
    walk? table start names = .ok (table.walk? start names) := by
  induction names generalizing start with
  | nil => rfl
  | cons name rest ih =>
    rw [walk?, submodule?_eq h, SymbolTable.walk?]
    cases hnext : table.submodule? start name with
    | none => rfl
    | some next => exact ih (contains_of_submodule? hnext)

theorem contains_of_walk? {names : List String} {found : ModulePath} (h : table.contains start)
    (hw : table.walk? start names = some found) : table.contains found := by
  induction names generalizing start with
  | nil =>
    obtain rfl := Option.some.inj hw
    exact h
  | cons name rest ih =>
    obtain ⟨next, hnext, hrest⟩ := Option.bind_eq_some_iff.1 hw
    exact ih (contains_of_submodule? hnext) hrest

theorem findSome?_eq {ask : α → Guarded (Option β)} {answer : α → Option β} {list : List α}
    (h : ∀ a ∈ list, ask a = .ok (answer a)) : findSome? ask list = .ok (list.findSome? answer) := by
  induction list with
  | nil => rfl
  | cons a rest ih =>
    obtain ⟨ha, hrest⟩ := List.forall_mem_cons.1 h
    rw [findSome?, ha, List.findSome?_cons]
    cases answer a with
    | none => exact ih hrest
    | some b => rfl

theorem globalIn_eq (h : table.contains path) (name : String) :
    globalIn table path name = .ok (((table.module path).global? name).map (path, ·)) := by
  rw [globalIn, module_of_contains h]
  rfl

theorem insertOverload_eq (definition : FunctionDefinition) (functions : List Overloads) :
    insertOverload definition functions = .ok (Module.insertOverload definition functions) := by
  induction functions with
  | nil => rfl
  | cons group rest ih =>
    unfold insertOverload at ih ⊢
    rw [List.findIdx?_cons, Module.insertOverload]
    by_cases hg : group.name = definition.name ∧ group.returnType = definition.returnType
    · rw [if_pos (decide_eq_true hg), if_pos hg]
      rfl
    · rw [if_neg (by simpa using hg), if_neg hg]
      cases hindex : rest.findIdx? fun group =>
        group.name = definition.name ∧ group.returnType = definition.returnType with
      | none =>
        rw [hindex] at ih
        rw [← Except.ok.inj ih]
        rfl
      | some index =>
        rw [hindex] at ih
        dsimp only [Option.map_some] at ih ⊢
        rw [List.getElem?_cons_succ]
        cases hplace : rest[index]? with
        | none =>
          rw [hplace] at ih
          cases ih
        | some found =>
          rw [hplace] at ih
          rw [← Except.ok.inj ih]
          rfl

/-! Modules that are there with those around them make every look-up from inside of them succeed. -/

variable (hu : table.Upward) (h : table.contains path)
include hu h

theorem visit_ancestors : visit table path.ancestors = .ok () := visit_of_contains (hu path h)

theorem resolveModule?_eq (names : List String) :
    resolveModule? table path names = .ok (table.resolveModule? path names) := by
  unfold resolveModule? SymbolTable.resolveModule?
  split
  · rfl
  · rw [visit_ancestors hu h]
    exact findSome?_eq fun scope hscope => walk?_eq (hu path h scope hscope) names

theorem contains_of_resolveModule? {names : List String} {found : ModulePath}
    (hr : table.resolveModule? path names = some found) : table.contains found := by
  unfold SymbolTable.resolveModule? at hr
  split at hr
  · obtain rfl := Option.some.inj hr
    exact h
  · obtain ⟨scope, hscope, hwalk⟩ := List.exists_of_findSome?_eq_some hr
    exact contains_of_walk? (hu path h scope hscope) hwalk

theorem resolveGlobal?_eq (identifier : String) :
    resolveGlobal? table path identifier = .ok (table.resolveGlobal? path identifier) := by
  unfold resolveGlobal? SymbolTable.resolveGlobal?
  dsimp only
  split
  · exact findSome?_eq fun scope hscope => globalIn_eq (hu path h scope hscope) _
  · rw [resolveModule?_eq hu h]
    cases hr : table.resolveModule? path (QualifiedName.split identifier).path with
    | none => rfl
    | some owner => exact globalIn_eq (contains_of_resolveModule? hu h hr) _

theorem contains_of_resolveGlobal? {identifier : String} {owner : ModulePath} {v : Variable}
    (hr : table.resolveGlobal? path identifier = some (owner, v)) : table.contains owner := by
  unfold SymbolTable.resolveGlobal? at hr
  dsimp only at hr
  split at hr
  · obtain ⟨scope, hscope, hfound⟩ := List.exists_of_findSome?_eq_some hr
    obtain ⟨_, -, he⟩ := Option.map_eq_some_iff.1 hfound
    obtain ⟨rfl, -⟩ := Prod.mk.inj he
    exact hu path h scope hscope
  · obtain ⟨scope, hscope, hfound⟩ := Option.bind_eq_some_iff.1 hr
    obtain ⟨_, -, he⟩ := Option.map_eq_some_iff.1 hfound
    obtain ⟨rfl, -⟩ := Prod.mk.inj he
    exact contains_of_resolveModule? hu h hscope

theorem addModule_eq (name : String) : addModule table path name = .ok (table.addModule path name) := by
  rw [addModule, submodule?_eq h, visit_ancestors hu h]
  rfl

theorem addVariable_eq (v : Variable) : addVariable table path v = .ok (table.addVariable path v) := by
  rw [addVariable, visit_ancestors hu h]
  rfl

theorem addFunction_eq (definition : FunctionDefinition) :
    addFunction table path definition = .ok (table.addFunction path definition) := by
  rw [addFunction, visit_ancestors hu h, module_of_contains h, SymbolTable.addFunction,
    Module.addFunction]
  change (if _ then _ else _) = _
  split
  · rfl
  · rw [insertOverload_eq]
    rfl

end

end Guarded

end MuLang
