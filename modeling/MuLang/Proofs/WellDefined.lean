import MuLang.Proofs.Admissible

/-!
# Programs that can be defined

A program is defined without an error exactly if each of its declarations is admissible and no
module declares anything twice. Its table then holds what the program declares and nothing else.
-/
namespace MuLang

/-- The parameter types of a function. -/
def FunctionHeader.parameterTypes (header : FunctionHeader) : List Datatype :=
  header.parameters.filterMap fun parameter =>
    parameter.datatype.registeredType? (Token.areNullable parameter.modifiers)

namespace Stmt

/-- The name of the submodule that a statement declares. -/
def submodule? : Stmt → Option String
  | .module identifier _ => some identifier.text
  | _ => none

/-- The name of the global that a statement declares. -/
def global? : Stmt → Option String
  | .declare header | .define header _ => some header.identifier.text
  | _ => none

/-- The name and the parameter types of the function that a statement declares. -/
def signature? : Stmt → Option (String × List Datatype)
  | .function header _ | .native header _ => some (header.identifier.text, header.parameterTypes)
  | _ => none

/-- The statements of a module declare nothing twice: no two submodules or globals share a name, and
no two functions share their name and their parameter types. -/
structure DistinctIn (body : List Stmt) : Prop where
  submodules : (body.filterMap submodule?).Nodup
  globals : (body.filterMap global?).Nodup
  functions : (body.filterMap signature?).Nodup

end Stmt

/-- A program that can be defined: in each of its modules and at the top level there are admissible
declarations alone, and nothing is declared twice. -/
structure WellDefined (natives : Native.Bindings) (program : List Stmt) : Prop where
  admissible : ∀ body ∈ program :: Stmt.bodiesIn program, ∀ stmt ∈ body, stmt.Admissible natives
  distinct : ∀ body ∈ program :: Stmt.bodiesIn program, Stmt.DistinctIn body

/-- The table that holds what a program declares: the root and the modules of the program in the
order of its text, each with the globals and the functions that are declared in it. -/
def SymbolTable.ofProgram (natives : Native.Bindings) (program : List Stmt) : SymbolTable :=
  SymbolTable.empty.extend (Stmt.entriesIn natives [] program)

/-! ## Where entries belong -/

/-- The module that an entry of a key is added to. -/
def Entry.Key.owner : Entry.Key → ModulePath
  | .module parent _ => parent
  | .function path _ _ => path
  | .global path _ => path

theorem FunctionHeader.key_of_entry? {header : FunctionHeader} {body : FunctionBody}
    {definition : FunctionDefinition} (h : header.entry? body = some definition) :
    definition.name = header.identifier.text ∧ definition.parameterTypes = header.parameterTypes := by
  obtain ⟨type, -, rfl⟩ := Option.map_eq_some_iff.1 h
  refine ⟨rfl, ?_⟩
  simp only [FunctionDefinition.parameterTypes, List.map_filterMap, parameterTypes]
  congr 1
  funext parameter
  simp [Parameter.entry?, Function.comp_def]

namespace Stmt

variable {natives : Native.Bindings}

mutual

theorem rooted_entries : ∀ {stmt : Stmt} {path : ModulePath} {paths : List ModulePath},
    path ∈ paths → Entry.Rooted paths (stmt.entries natives path)
  | .module identifier body, path, paths, _ =>
    rooted_entriesIn (List.mem_append_right _ (.head _))
  | .function header body, path, paths, h => by
    rw [entries]
    cases header.entry? (.interpreted body) with
    | none => trivial
    | some definition => exact ⟨h, trivial⟩
  | .native header binding, path, paths, h => by
    rw [entries]
    cases header.nativeEntry? natives binding with
    | none => trivial
    | some definition => exact ⟨h, trivial⟩
  | .declare header, path, paths, h => by
    rw [entries]
    cases header.entry? none with
    | none => trivial
    | some v => exact ⟨h, trivial⟩
  | .define header value, path, paths, h => by
    rw [entries]
    cases header.entry? (some value.type) with
    | none => trivial
    | some v => exact ⟨h, trivial⟩
  | .stdlibFinish _, _, _, _ => trivial
  | .action _, _, _, _ => trivial
  | .ifElse .., _, _, _ => trivial
  | .whileLoop .., _, _, _ => trivial
  | .forLoop .., _, _, _ => trivial
  | .returning .., _, _, _ => trivial

/-- The entries of a body belong to its module and to the modules in it. -/
theorem rooted_entriesIn : ∀ {body : List Stmt} {path : ModulePath} {paths : List ModulePath},
    path ∈ paths → Entry.Rooted paths (entriesIn natives path body)
  | [], _, _, _ => trivial
  | _ :: _, _, _, h => (rooted_entries h).append (rooted_entriesIn h)

end

/-! ## The keys of a body -/

/-- The key of what a statement of a module declares. -/
def key? (path : ModulePath) (stmt : Stmt) : Option Entry.Key :=
  (stmt.submodule?.map (.module path)).or
    ((stmt.signature?.map fun signature => .function path signature.1 signature.2).or
      (stmt.global?.map (.global path)))

/-- The keys of what is declared inside the module that a statement is. -/
def innerKeys (natives : Native.Bindings) (path : ModulePath) : Stmt → List Entry.Key
  | .module identifier body =>
    (entriesIn natives (path ++ [identifier.text]) body).map Entry.key
  | _ => []

/-- The keys of a statement are its own and those inside it. -/
theorem map_key_entries {stmt : Stmt} (path : ModulePath) (h : stmt.Admissible natives) :
    (stmt.entries natives path).map Entry.key =
      (stmt.key? path).toList ++ stmt.innerKeys natives path := by
  cases stmt with
  | module => rfl
  | function header body =>
    obtain ⟨definition, he⟩ := Option.isSome_iff_exists.1
      (Definition.isSome_entry? h.1 (.interpreted body))
    obtain ⟨hn, ht⟩ := FunctionHeader.key_of_entry? he
    simp [entries, he, Entry.key, hn, ht, key?, submodule?, signature?, innerKeys]
  | native header binding =>
    obtain ⟨-, definition, descriptor, he, hf, -⟩ := h
    obtain ⟨hn, ht⟩ := FunctionHeader.key_of_entry? he
    simp only [entries, FunctionHeader.nativeEntry?, he, hf, Option.bind_some, Option.map_some,
      Option.toList_some, List.map_cons, List.map_nil, Entry.key, hn]
    exact congrArg (fun types => [Entry.Key.function path header.identifier.text types]) ht
  | declare header =>
    have hs : (header.entry? none).isSome := by
      rw [VariableHeader.entry?, Option.isSome_map, Token.isSome_registeredType?]
      exact h.typed
    obtain ⟨v, hv⟩ := Option.isSome_iff_exists.1 hs
    obtain ⟨type, -, rfl⟩ := Option.map_eq_some_iff.1 hv
    simp [entries, hv, Entry.key, key?, submodule?, signature?, global?, innerKeys]
  | define header value =>
    have hs : (header.entry? (some value.type)).isSome := by
      rw [VariableHeader.entry?, Option.isSome_map, Token.isSome_registeredType?]
      exact h.typed
    obtain ⟨v, hv⟩ := Option.isSome_iff_exists.1 hs
    obtain ⟨type, -, rfl⟩ := Option.map_eq_some_iff.1 hv
    simp [entries, hv, Entry.key, key?, submodule?, signature?, global?, innerKeys]
  | stdlibFinish => rfl
  | action => exact absurd h id
  | ifElse => exact absurd h id
  | whileLoop => exact absurd h id
  | forLoop => exact absurd h id
  | returning => exact absurd h id

/-- The keys of a body are those of its module and those inside it. -/
theorem map_key_entriesIn {body : List Stmt} (path : ModulePath)
    (h : ∀ stmt ∈ body, stmt.Admissible natives) :
    ((entriesIn natives path body).map Entry.key).Perm
      (body.filterMap (key? path) ++ body.flatMap (innerKeys natives path)) := by
  induction body with
  | nil => exact .nil
  | cons stmt rest ih =>
    obtain ⟨hs, hr⟩ := List.forall_mem_cons.1 h
    have hown : (stmt :: rest).filterMap (key? path) =
        (stmt.key? path).toList ++ rest.filterMap (key? path) := by
      cases hk : stmt.key? path <;> simp [hk]
    rw [entriesIn, List.map_append, map_key_entries path hs, hown, List.flatMap_cons,
      List.append_assoc, List.append_assoc]
    refine List.Perm.append_left _ (((ih hr).append_left _).trans ?_)
    rw [← List.append_assoc, ← List.append_assoc]
    exact List.perm_append_comm.append_right _

mutual

theorem prefix_owner : ∀ {stmt : Stmt} {path : ModulePath} {entry : Entry},
    entry ∈ stmt.entries natives path → path <+: entry.key.owner
  | .module identifier body, path, entry, h => by
    obtain rfl | h := List.mem_cons.1 h
    · exact List.prefix_rfl
    · exact (List.prefix_append _ _).trans (prefix_ownerIn h)
  | .function .., _, _, h => by
    obtain ⟨_, -, rfl⟩ := Option.map_eq_some_iff.1 (Option.mem_toList.1 h)
    exact List.prefix_rfl
  | .native .., _, _, h => by
    obtain ⟨_, -, rfl⟩ := Option.map_eq_some_iff.1 (Option.mem_toList.1 h)
    exact List.prefix_rfl
  | .declare _, _, _, h => by
    obtain ⟨_, -, rfl⟩ := Option.map_eq_some_iff.1 (Option.mem_toList.1 h)
    exact List.prefix_rfl
  | .define .., _, _, h => by
    obtain ⟨_, -, rfl⟩ := Option.map_eq_some_iff.1 (Option.mem_toList.1 h)
    exact List.prefix_rfl
  | .stdlibFinish _, _, _, h => absurd h List.not_mem_nil
  | .action _, _, _, h => absurd h List.not_mem_nil
  | .ifElse .., _, _, h => absurd h List.not_mem_nil
  | .whileLoop .., _, _, h => absurd h List.not_mem_nil
  | .forLoop .., _, _, h => absurd h List.not_mem_nil
  | .returning .., _, _, h => absurd h List.not_mem_nil

/-- What is declared in a body belongs to its module or to one inside that. -/
theorem prefix_ownerIn : ∀ {body : List Stmt} {path : ModulePath} {entry : Entry},
    entry ∈ entriesIn natives path body → path <+: entry.key.owner
  | [], _, _, h => absurd h List.not_mem_nil
  | _ :: _, _, _, h => (List.mem_append.1 h).elim prefix_owner prefix_ownerIn

end

theorem owner_of_innerKeys {stmt : Stmt} {path : ModulePath} {k : Entry.Key}
    (h : k ∈ stmt.innerKeys natives path) :
    ∃ name, stmt.submodule? = some name ∧ path ++ [name] <+: k.owner := by
  cases stmt with
  | module identifier body =>
    obtain ⟨entry, he, rfl⟩ := List.mem_map.1 h
    exact ⟨identifier.text, rfl, prefix_ownerIn he⟩
  | _ => cases h

theorem owner_of_key? {stmt : Stmt} {path : ModulePath} {k : Entry.Key}
    (h : stmt.key? path = some k) : k.owner = path := by
  cases stmt <;> simp [key?, submodule?, signature?, global?] at h <;> subst h <;> rfl

/-- Two statements share a key exactly if they declare submodules, functions or globals that are in
conflict. -/
theorem key?_ne_iff (first second : Stmt) (path : ModulePath) :
    (∀ k ∈ first.key? path, ∀ l ∈ second.key? path, k ≠ l) ↔
      (∀ m ∈ first.submodule?, ∀ n ∈ second.submodule?, m ≠ n) ∧
      (∀ m ∈ first.global?, ∀ n ∈ second.global?, m ≠ n) ∧
      ∀ m ∈ first.signature?, ∀ n ∈ second.signature?, m ≠ n := by
  cases first <;> cases second <;> simp [key?, submodule?, signature?, global?]

theorem nodup_key?_iff {body : List Stmt} (path : ModulePath) :
    (body.filterMap (key? path)).Nodup ↔ DistinctIn body := by
  have hd : DistinctIn body ↔ (body.filterMap submodule?).Nodup ∧ (body.filterMap global?).Nodup ∧
      (body.filterMap signature?).Nodup := ⟨fun h => ⟨h.1, h.2, h.3⟩, fun h => ⟨h.1, h.2.1, h.2.2⟩⟩
  simp only [hd, List.Nodup, List.pairwise_filterMap, ← List.pairwise_and_iff]
  exact List.Pairwise.iff fun {first second} => key?_ne_iff first second path

/-- No two keys of a body are equal exactly if its module declares nothing twice, and neither does
any module in it. -/
theorem nodup_map_key_iff {body : List Stmt} (path : ModulePath)
    (h : ∀ stmt ∈ body, stmt.Admissible natives) :
    ((entriesIn natives path body).map Entry.key).Nodup ↔
      DistinctIn body ∧ ∀ stmt ∈ body, (stmt.innerKeys natives path).Nodup := by
  rw [(map_key_entriesIn path h).nodup_iff, List.nodup_append', nodup_key?_iff, List.nodup_flatMap]
  refine and_congr_right fun hd => ?_
  -- Keys inside different submodules differ, and so do those inside a submodule and those beside it.
  have hinner : body.Pairwise (Function.onFun List.Disjoint (innerKeys natives path)) := by
    refine (List.pairwise_filterMap.1 hd.submodules).imp fun {first second} hne k hf hs => ?_
    obtain ⟨m, hm, hmk⟩ := owner_of_innerKeys hf
    obtain ⟨n, hn, hnk⟩ := owner_of_innerKeys hs
    refine hne m hm n hn ?_
    simpa using List.prefix_of_prefix_length_le hmk hnk (by simp)
  have houter : (body.filterMap (key? path)).Disjoint (body.flatMap (innerKeys natives path)) := by
    intro k hk hi
    obtain ⟨stmt, -, hs⟩ := List.mem_filterMap.1 hk
    obtain ⟨other, -, ho⟩ := List.mem_flatMap.1 hi
    obtain ⟨name, -, hp⟩ := owner_of_innerKeys ho
    rw [owner_of_key? hs] at hp
    exact absurd hp.length_le (by simp)
  simp only [hinner, houter, and_true]

mutual

theorem nodup_innerKeys_iff : ∀ {stmt : Stmt} (path : ModulePath),
    (∀ body ∈ stmt.bodies, ∀ inner ∈ body, inner.Admissible natives) →
    ((stmt.innerKeys natives path).Nodup ↔ ∀ body ∈ stmt.bodies, DistinctIn body)
  | .module identifier body, path, h => by
    obtain ⟨hb, hi⟩ := List.forall_mem_cons.1 h
    rw [innerKeys, nodup_map_key_iff _ hb, nodup_innerKeysIn_iff _ hi, bodies, List.forall_mem_cons]
  | .function .., _, _ => by simp [innerKeys, bodies]
  | .native .., _, _ => by simp [innerKeys, bodies]
  | .declare _, _, _ => by simp [innerKeys, bodies]
  | .define .., _, _ => by simp [innerKeys, bodies]
  | .stdlibFinish _, _, _ => by simp [innerKeys, bodies]
  | .action _, _, _ => by simp [innerKeys, bodies]
  | .ifElse .., _, _ => by simp [innerKeys, bodies]
  | .whileLoop .., _, _ => by simp [innerKeys, bodies]
  | .forLoop .., _, _ => by simp [innerKeys, bodies]
  | .returning .., _, _ => by simp [innerKeys, bodies]

theorem nodup_innerKeysIn_iff : ∀ {body : List Stmt} (path : ModulePath),
    (∀ inner ∈ bodiesIn body, ∀ stmt ∈ inner, stmt.Admissible natives) →
    ((∀ stmt ∈ body, (stmt.innerKeys natives path).Nodup) ↔
      ∀ inner ∈ bodiesIn body, DistinctIn inner)
  | [], _, _ => by simp [bodiesIn]
  | stmt :: rest, path, h => by
    obtain ⟨hs, hr⟩ := List.forall_mem_append.1 h
    rw [List.forall_mem_cons, nodup_innerKeys_iff path hs, nodup_innerKeysIn_iff path hr, bodiesIn,
      List.forall_mem_append]

end

end Stmt

/-! ## Defining a program -/

/-- A program whose modifiers are modifiers is defined without an error exactly if its declarations
are admissible and no module declares anything twice, and then its table is the one that holds what
the program declares. -/
theorem define_eq_ok_iff {settings : Settings} {natives : Native.Bindings} {program : List Stmt}
    (hl : settings.maxErrors = none)
    (hm : ∀ tokens ∈ Stmt.modifierListsIn program, Token.AreModifiers tokens)
    (symbols : SymbolTable) :
    define settings natives program = .ok symbols ↔
      WellDefined natives program ∧ symbols = .ofProgram natives program := by
  have hi : (Definer.initial settings).log.Clean := Log.clean_of_errors rfl (by
    rw [Definer.initial, Log.empty, hl]
    exact nofun)
  -- Without a budget nothing is reported exactly if the log holds no error in the end.
  have hclean : define settings natives program = .ok symbols ↔
      (Definer.block natives [] (.initial settings) program).log.Clean ∧
        (Definer.block natives [] (.initial settings) program).table = symbols := by
    have hlimit := (Definer.extends_block natives program [] (.initial settings)).limit_eq
    have herrors : (Definer.block natives [] (.initial settings) program).log.Clean ↔
        (Definer.block natives [] (.initial settings) program).log.errors = [] :=
      ⟨fun h => h.errors_eq, fun h => Log.clean_of_errors h (by
        rw [hlimit, Definer.initial, Log.empty, hl]
        exact nofun)⟩
    rw [herrors, define]
    simp only [List.isEmpty_iff]
    split
    next h => simp [h]
    next h => simp [h]
  have hw : WellDefined natives program ↔
      (∀ body ∈ program :: Stmt.bodiesIn program, ∀ stmt ∈ body, stmt.Admissible natives) ∧
        ∀ body ∈ program :: Stmt.bodiesIn program, Stmt.DistinctIn body :=
    ⟨fun h => ⟨h.1, h.2⟩, fun h => ⟨h.1, h.2⟩⟩
  simp only [hclean, Definer.clean_block hi hm, hw, List.forall_mem_cons, and_assoc]
  refine and_congr_right fun hp => and_congr_right fun hb => ?_
  have hadd := @Entry.addAll_empty (Stmt.entriesIn natives [] program) symbols
    (Stmt.rooted_entriesIn (.head _))
  rw [Stmt.nodup_map_key_iff _ hp, Stmt.nodup_innerKeysIn_iff _ hb, and_assoc] at hadd
  exact hadd

/-- The host's function `h.g`, which takes nothing and returns an `int`. -/
def soleNative : Native.Bindings := fun name types =>
  if name = "h.g" ∧ types = [] then .found ⟨"h.g", [], .plain .int⟩ else .notFound

/-- The program `module m { nat fn g :: int () -> "h"; fn f ~ (int a) { mut int b; } mut int x; }`. -/
def hosted : List Stmt :=
  let word (text : String) : Token := .synthetic .identifier text
  let int : Token := .synthetic (.typeName .int) "int"
  let mutable : Token := .synthetic (.modifier .mutable) "mut"
  [.module (word "m")
    [.native ⟨[], word "g", int, []⟩ (.synthetic (.literal .string) "h"),
    .function ⟨[], word "f", voidToken, [⟨[], int, word "a"⟩]⟩ [.declare ⟨[mutable], word "b", int⟩],
    .declare ⟨[mutable], word "x", int⟩]]

/-- That program can be defined, and its table holds what it declares. -/
theorem define_hosted : ∃ symbols, define {} soleNative hosted = .ok symbols ∧
    WellDefined soleNative hosted ∧ symbols = .ofProgram soleNative hosted := by
  have hm : ∀ tokens ∈ Stmt.modifierListsIn hosted, Token.AreModifiers tokens := by
    simp [hosted, Stmt.modifierListsIn, Stmt.modifierLists, Stmt.localsIn, Stmt.locals,
      Token.AreModifiers, Token.synthetic, Kind.isModifier, Kind.modifier?]
  refine ⟨.ofProgram soleNative hosted, ?_⟩
  refine (and_iff_left_of_imp fun h => (define_eq_ok_iff rfl hm _).1 h).2 ?_
  with_unfolding_all rfl

end MuLang
