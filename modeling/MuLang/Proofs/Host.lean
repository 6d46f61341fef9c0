import MuLang.Proofs.Legality
import MuLang.Proofs.Lines
import MuLang.Proofs.Registered

/-!
# Native functions and the host

A native declaration stands for the one function that the host has registered under its qualified
name and its parameter types, and for one that returns what the declaration says. A program with a
declaration for which the host has registered no such function, or more than one, is not accepted.
-/
namespace MuLang

/-! ## What the host has registered -/

namespace Native.Registry

/-- Functions are registered in the order of the calls. -/
theorem foldl_register (registry : Registry) (calls : List Descriptor) :
    calls.foldl register registry = registry ++ calls := by
  induction calls generalizing registry with
  | nil => exact (List.append_nil _).symm
  | cons call rest ih =>
    rw [List.foldl_cons, ih, register, List.append_assoc, List.singleton_append]

/-- A function is found if it alone has been registered. -/
theorem lookup_eq_found {registry : Registry} {name : String} {parameters : List Datatype}
    {descriptor : Descriptor} : registry.lookup name parameters = .found descriptor ↔
      registry.candidates name parameters = [descriptor] := by
  unfold lookup
  split <;> simp_all

theorem of_mem_candidates {registry : Registry} {name : String} {parameters : List Datatype}
    {descriptor : Descriptor} (h : descriptor ∈ registry.candidates name parameters) :
    descriptor.name = name ∧ descriptor.parameters = parameters := by
  simpa using (List.mem_filter.1 h).2

end Native.Registry

/-! ## Native declarations -/

/-- A native declaration, with the module that it stands in. -/
structure NativeDeclaration where
  path : ModulePath
  header : FunctionHeader
  binding : Token

mutual

/-- The native declarations in a statement of a module and in the modules inside it. -/
def Stmt.natives (path : ModulePath) : Stmt → List NativeDeclaration
  | .module identifier body => Stmt.nativesIn (path ++ [identifier.text]) body
  | .native header binding => [⟨path, header, binding⟩]
  | _ => []

/-- The native declarations in the statements of a module and in the modules inside it. -/
def Stmt.nativesIn (path : ModulePath) : List Stmt → List NativeDeclaration
  | [] => []
  | stmt :: rest => stmt.natives path ++ Stmt.nativesIn path rest

end

/-- Each parameter of an admissible function has a type. -/
theorem FunctionHeader.Admissible.map_parameterTypes {header : FunctionHeader}
    (h : header.Admissible) :
    header.parameterTypes.map some = header.parameters.map fun parameter =>
      parameter.datatype.registeredType? (Token.areNullable parameter.modifiers) := by
  have htyped := h.parameters
  unfold FunctionHeader.parameterTypes
  generalize header.parameters = parameters at htyped
  induction parameters with
  | nil => rfl
  | cons parameter rest ih =>
    obtain ⟨hp, hrest⟩ := List.forall_mem_cons.1 htyped
    have hsome : (parameter.datatype.registeredType?
        (Token.areNullable parameter.modifiers)).isSome := by
      rw [Token.isSome_registeredType?]
      exact hp.typed
    obtain ⟨type, ht⟩ := Option.isSome_iff_exists.1 hsome
    simp [ht, ih hrest]

/-- The functions that a host registers under the name and the parameter types of a declaration. -/
def FunctionHeader.registrations (header : FunctionHeader) (binding : Token)
    (calls : List Native.Descriptor) : List Native.Descriptor :=
  calls.filter fun call =>
    call.name = binding.text ++ "." ++ header.identifier.text ∧
      call.parameters = header.parameterTypes

namespace NativeDeclaration

variable {native : NativeDeclaration} {definition : FunctionDefinition}
  {descriptor : Native.Descriptor}

/-- A definition stands for a native declaration, and a function of the host for the definition. -/
structure BoundTo (declared : NativeDeclaration) (definition : FunctionDefinition)
    (descriptor : Native.Descriptor) : Prop where
  name_eq : definition.name = declared.header.identifier.text
  body_eq : definition.body =
    .native (nativeName declared.header declared.binding) (some descriptor)
  /-- The function of the host is that of the declared name in the declared namespace. -/
  qualified : descriptor.name = declared.binding.text ++ "." ++ declared.header.identifier.text
  /-- It takes values of the declared types, nullable where the declaration says so. -/
  parameters : descriptor.parameters.map some = declared.header.parameters.map fun parameter =>
    parameter.datatype.registeredType? (Token.areNullable parameter.modifiers)
  /-- It returns a value of the declared type. -/
  returns : some descriptor.returnType =
    declared.header.returnType.registeredType? (Token.areNullable declared.header.modifiers)
  parameterTypes_eq : definition.parameterTypes = descriptor.parameters
  returnType_eq : definition.returnType = descriptor.returnType

/-- What is registered for a declaration is bound to a function that has been registered once. -/
theorem boundTo_of_entry {registry : Native.Registry} (ha : native.header.Admissible)
    (hb : native.header.Bound registry.lookup native.binding)
    (he : native.header.nativeEntry? registry.lookup native.binding = some definition) :
    ∃ descriptor, native.BoundTo definition descriptor ∧
      native.header.registrations native.binding registry = [descriptor] := by
  obtain ⟨declared, descriptor, hd, hf, hr⟩ := hb
  simp only [FunctionHeader.nativeEntry?, hd, hf, Option.bind_some, Option.some.injEq] at he
  subst he
  rw [Native.Registry.lookup_eq_found] at hf
  obtain ⟨hname, hparameters⟩ := Native.Registry.of_mem_candidates (hf ▸ List.mem_singleton_self _)
  obtain ⟨hn, htypes⟩ := FunctionHeader.key_of_entry? hd
  refine ⟨descriptor, ⟨hn, rfl, hname, ?_, ?_, hparameters.symm, hr.symm⟩, ?_⟩
  · rw [hparameters, htypes, ha.map_parameterTypes]
  · obtain ⟨type, ht, rfl⟩ := Option.map_eq_some_iff.1 hd
    rw [hr, ht]
  · rw [htypes] at hf
    exact hf

end NativeDeclaration

/-! ## Entries of native declarations -/

/-- Whether a function is one that the host provides. -/
def FunctionBody.isNative : FunctionBody → Bool
  | .native .. => true
  | .interpreted _ => false

namespace Stmt

variable {natives : Native.Bindings} {path : ModulePath} {definition : FunctionDefinition}

mutual

theorem mem_entries_native : ∀ {stmt : Stmt} {base : ModulePath},
    (Entry.function path definition ∈ stmt.entries natives base ∧ definition.body.isNative ↔
      ∃ native ∈ stmt.natives base, native.path = path ∧
        native.header.nativeEntry? natives native.binding = some definition)
  | .module identifier body, base => by
    simpa [entries, Stmt.natives] using @mem_entriesIn_native body (base ++ [identifier.text])
  | .native header binding, base => by
    have hbody (definition : FunctionDefinition)
        (h : header.nativeEntry? natives binding = some definition) : definition.body.isNative := by
      obtain ⟨declared, -, he⟩ := Option.bind_eq_some_iff.1 h
      split at he
      · cases he
        rfl
      · cases he
    simp only [entries, Stmt.natives, Option.mem_toList, Option.map_eq_some_iff,
      Entry.function.injEq, List.mem_singleton, exists_eq_left]
    constructor
    · rintro ⟨⟨_, he, rfl, rfl⟩, -⟩
      exact ⟨rfl, he⟩
    · rintro ⟨rfl, he⟩
      exact ⟨⟨definition, he, rfl, rfl⟩, hbody definition he⟩
  | .function header body, base => by
    simp only [entries, Stmt.natives, Option.mem_toList, Option.map_eq_some_iff,
      Entry.function.injEq, List.not_mem_nil, false_and, exists_false, iff_false, not_and]
    rintro ⟨_, he, rfl, rfl⟩
    obtain ⟨type, -, rfl⟩ := Option.map_eq_some_iff.1 he
    exact Bool.false_ne_true
  | .declare header, base => by simp [entries, Stmt.natives]
  | .define header value, base => by simp [entries, Stmt.natives]
  | .action _, _ => by simp [entries, Stmt.natives]
  | .ifElse .., _ => by simp [entries, Stmt.natives]
  | .whileLoop .., _ => by simp [entries, Stmt.natives]
  | .forLoop .., _ => by simp [entries, Stmt.natives]
  | .returning .., _ => by simp [entries, Stmt.natives]
  | .stdlibFinish _, _ => by simp [entries, Stmt.natives]

/-- The native functions among the entries of a body are those of its native declarations. -/
theorem mem_entriesIn_native : ∀ {body : List Stmt} {base : ModulePath},
    (Entry.function path definition ∈ entriesIn natives base body ∧ definition.body.isNative ↔
      ∃ native ∈ nativesIn base body, native.path = path ∧
        native.header.nativeEntry? natives native.binding = some definition)
  | [], _ => by simp [entriesIn, nativesIn]
  | stmt :: rest, base => by
    simp only [entriesIn, nativesIn, List.mem_append, or_and_right, exists_or,
      ← @mem_entries_native stmt base, ← @mem_entriesIn_native rest base]

end

mutual

theorem bound_natives : ∀ {stmt : Stmt} {base : ModulePath}, stmt.Admissible natives →
    (∀ body ∈ stmt.bodies, ∀ inner ∈ body, inner.Admissible natives) →
    ∀ native ∈ stmt.natives base,
      native.header.Admissible ∧ native.header.Bound natives native.binding
  | .module _ body, _, _, h => by
    obtain ⟨hb, hi⟩ := List.forall_mem_cons.1 h
    exact bound_nativesIn hb hi
  | .native .., _, ha, _ => List.forall_mem_singleton.2 ha
  | .function .., _, _, _ => by simp [Stmt.natives]
  | .declare _, _, _, _ => by simp [Stmt.natives]
  | .define .., _, _, _ => by simp [Stmt.natives]
  | .action _, _, _, _ => by simp [Stmt.natives]
  | .ifElse .., _, _, _ => by simp [Stmt.natives]
  | .whileLoop .., _, _, _ => by simp [Stmt.natives]
  | .forLoop .., _, _, _ => by simp [Stmt.natives]
  | .returning .., _, _, _ => by simp [Stmt.natives]
  | .stdlibFinish _, _, _, _ => by simp [Stmt.natives]

/-- Where all statements may stand in their modules, the host has a function for each native
declaration. -/
theorem bound_nativesIn : ∀ {body : List Stmt} {base : ModulePath},
    (∀ stmt ∈ body, stmt.Admissible natives) →
    (∀ inner ∈ bodiesIn body, ∀ stmt ∈ inner, stmt.Admissible natives) →
    ∀ native ∈ nativesIn base body,
      native.header.Admissible ∧ native.header.Bound natives native.binding
  | [], _, _, _ => by simp [nativesIn]
  | stmt :: rest, base, ha, hb => by
    obtain ⟨hs, hr⟩ := List.forall_mem_cons.1 ha
    obtain ⟨hsb, hrb⟩ := List.forall_mem_append.1 hb
    exact List.forall_mem_append.2 ⟨bound_natives hs hsb, bound_nativesIn hr hrb⟩

end

end Stmt

/-! ## Programs that are accepted -/

namespace Native.Registry

variable {settings : Settings} {tokens : List Token} {analysis : Analysis} {registry : Registry}

/-- The functions of the host in an accepted program are those of its native declarations, each of
which may stand where it stands. -/
theorem natives_of_analyze (h : analyze settings registry.lookup tokens = .ok analysis) :
    (∀ path definition, definition ∈ (analysis.symbols.module path).members ∧
        definition.body.isNative ↔ ∃ native ∈ Stmt.nativesIn [] analysis.program,
          native.path = path ∧
            native.header.nativeEntry? registry.lookup native.binding = some definition) ∧
      ∀ native ∈ Stmt.nativesIn [] analysis.program,
        native.header.Admissible ∧ native.header.Bound registry.lookup native.binding := by
  obtain ⟨hadmissible, -⟩ := entries_of_analyze h
  refine ⟨fun path definition => ?_, Stmt.bound_nativesIn hadmissible.1 hadmissible.2⟩
  rw [mem_members_of_analyze h]
  exact Stmt.mem_entriesIn_native

end Native.Registry

/-! ## Native declarations of a text -/

/-- The header and the namespace that a line declares a native function with, if it is of the form
`nat fn NAME :: TYPE (PARAMS) -> "namespace";` or has no return type. -/
def Token.native? (line : List Token) : Option (FunctionHeader × Token) :=
  let words := afterModifiers line
  if words.head?.any (·.kind = .keyword .natWord) then
    match Signature.ofTokens (words.take (words.length - 3)).tail false,
      expectAt words (words.length - 2) (· = .literal .string) "a binding namespace" with
    | .ok signature, .ok binding => some (signature.header (leadingModifiers line), binding)
    | _, _ => none
  else none

mutual

/-- The native declarations that lines and blocks say. -/
def Written.natives (path : ModulePath) : Written → List NativeDeclaration
  | .line stmt => stmt.natives path
  | .block (.statement (.module identifier _)) body =>
    Written.nativesIn (path ++ [identifier.text]) body
  | .block _ _ => []

def Written.nativesIn (path : ModulePath) : List Written → List NativeDeclaration
  | [] => []
  | written :: rest => written.natives path ++ Written.nativesIn path rest

end

theorem Written.nativesIn_append (path : ModulePath) (written more : List Written) :
    nativesIn path (written ++ more) = nativesIn path written ++ nativesIn path more := by
  induction written with
  | nil => rfl
  | cons first rest ih => rw [List.cons_append, nativesIn, nativesIn, ih, List.append_assoc]

mutual

/-- A statement declares what is written. -/
theorem Stmt.nativesIn_written (path : ModulePath) : ∀ stmt : Stmt,
    Written.nativesIn path stmt.written = stmt.natives path
  | .module identifier body => by
    simp [Stmt.written, Stmt.natives, Written.nativesIn, Written.natives,
      Stmt.nativesIn_writtenAll _ body]
  | .ifElse _ _ _ otherwise => by
    simp [Stmt.written, Stmt.natives, Written.nativesIn, Written.natives,
      Else.nativesIn_written path otherwise]
  | .function .. | .whileLoop .. | .forLoop .. => rfl
  | .native .. | .declare .. | .define .. | .action .. | .returning .. | .stdlibFinish .. => rfl

theorem Else.nativesIn_written (path : ModulePath) : ∀ otherwise : Else,
    Written.nativesIn path otherwise.written = []
  | .absent => rfl
  | .block _ => rfl
  | .elseIf _ _ _ otherwise => by
    simp [Else.written, Written.nativesIn, Written.natives, Else.nativesIn_written path otherwise]

theorem Stmt.nativesIn_writtenAll (path : ModulePath) : ∀ statements : List Stmt,
    Written.nativesIn path (Stmt.writtenAll statements) = Stmt.nativesIn path statements
  | [] => rfl
  | stmt :: rest => by
    rw [Stmt.writtenAll, Written.nativesIn_append, Stmt.nativesIn_written path stmt,
      Stmt.nativesIn_writtenAll path rest, Stmt.nativesIn]

end

/-- In the second pass a line that declares a native function is read as its declaration, where a
function may be declared. -/
theorem Step.evaluate_native {s t : Session} {line : List Token} {result : Option Stmt}
    {header : FunctionHeader} {binding : Token} (hs : s.isSkimming = false)
    (hn : Token.native? line = some (header, binding)) (h : closed line s = (.ok result, t)) :
    result = some (.native header binding) ∧ s.admitsGlobals := by
  unfold Token.native? at hn
  dsimp only at hn
  split at hn
  next hword =>
    unfold closed Token.block? statement at h
    cases hr : Token.afterModifiers line with
    | nil => simp [hr] at hword
    | cons first rest =>
      have hkind : first.kind = .keyword .natWord := by simpa [hr] using hword
      simp only [hr, List.head?_cons, Option.bind_some, hkind, Kind.block?] at h
      obtain ⟨signature, binding', hsignature, ha, rfl, -, hbinding, -⟩ :=
        evaluate_nativeStatement hs h
      rw [hr, hsignature, hbinding] at hn
      obtain ⟨rfl, rfl⟩ := Prod.mk.inj (Option.some.inj hn)
      exact ⟨rfl, ha⟩
  next => cases hn

/-- Each line of an accepted text that declares a native function has written its declaration, and
all blocks around it are modules. -/
theorem Item.Writes.mem_nativesIn {s t : Session} {items : List Item} {written : List Written}
    {around : List ScopeKind} {line : List Token} {header : FunctionHeader} {binding : Token}
    (h : Writes s items t written) (hw : s.Within around) (hl : line ∈ linesIn items)
    (hn : Token.native? line = some (header, binding)) :
    (∀ kind ∈ around, kind = .module) ∧
      ∀ base, ∃ path, ⟨path, header, binding⟩ ∈ Written.nativesIn base written := by
  induction h generalizing around with
  | nil => cases hl
  | @line s t u items words stop _ _ result more hs hr hf _ ih =>
    obtain hl | hl := List.mem_append.1 hl
    · obtain rfl := List.mem_singleton.1 hl
      obtain ⟨rfl, ha⟩ := Step.evaluate_native hs hn hr
      refine ⟨?_, fun base => ⟨base, .head _⟩⟩
      obtain hm | ⟨rfl, -⟩ := hw.global_of_admits ha
      · exact hw.modules hm
      · simp
    · obtain ⟨hmodules, hmem⟩ := ih (hw.of_bare (congrArg Frame.scopes hf)) hl
      refine ⟨hmodules, fun base => ?_⟩
      obtain ⟨path, hpath⟩ := hmem base
      rw [Written.nativesIn_append]
      exact ⟨path, List.mem_append_right _ hpath⟩
  | @block s t u v inner items head opening _ _ _ _ chain owner scopes body more hs hr hspelled _ hf
      _ ihi ih =>
    obtain hl | hl := List.mem_append.1 hl
    · have hfailed : ∀ kind, owner ≠ .failed kind := by
        rintro kind rfl
        cases hspelled
      obtain ⟨hmodules, hmem⟩ := ihi (hw.inside hs hr hfailed) hl
      obtain ⟨hkind, haround⟩ := List.forall_mem_cons.1 hmodules
      have howner : owner.kind = .module := (Step.definable_of_owner hs hr owner rfl).1.trans hkind
      obtain ⟨identifier, inside, rfl⟩ := Owner.eq_module_of_kind howner hfailed
      refine ⟨haround, fun base => ?_⟩
      obtain ⟨path, hpath⟩ := hmem (base ++ [identifier.text])
      exact ⟨path, List.mem_append_left _ hpath⟩
    · obtain ⟨hmodules, hmem⟩ := ih (hw.of_bare (congrArg Frame.scopes hf)) hl
      refine ⟨hmodules, fun base => ?_⟩
      obtain ⟨path, hpath⟩ := hmem base
      exact ⟨path, List.mem_append_right _ hpath⟩

/-- Each line of an accepted text that declares a native function is a declaration of the
program. -/
theorem mem_nativesIn_of_parse {settings : Settings} {tokens line : List Token}
    {program : List Stmt} {header : FunctionHeader} {binding : Token}
    (hb : settings.maxErrors ≠ some 0) (h : parse settings tokens = (some program, []))
    (hl : Token.IsLine (tokens.takeWhile (·.kind ≠ .endOfFile)) line)
    (hn : Token.native? line = some (header, binding)) :
    ∃ path, ⟨path, header, binding⟩ ∈ Stmt.nativesIn [] program := by
  obtain ⟨items, t, hread, hwrites⟩ := exists_writes_of_parse hb h
  rw [hread] at hl
  obtain ⟨-, hmem⟩ := hwrites.mem_nativesIn (.start _ _) (Item.mem_linesIn hl) hn
  rw [← Stmt.nativesIn_writtenAll]
  exact hmem []

/-! ## Programs and their hosts -/

/-- The functions of the host in an accepted program are those of its native declarations, each of
which is bound to a function that the host has registered once. -/
theorem Native.Registry.boundTo_of_analyze {settings : Settings} {tokens : List Token}
    {analysis : Analysis} {registry : Registry}
    (h : analyze settings registry.lookup tokens = .ok analysis) :
    (∀ path definition, definition ∈ (analysis.symbols.module path).members →
      definition.body.isNative → ∃ native ∈ Stmt.nativesIn [] analysis.program,
        native.path = path ∧ ∃ descriptor, native.BoundTo definition descriptor ∧
          native.header.registrations native.binding registry = [descriptor]) ∧
    ∀ native ∈ Stmt.nativesIn [] analysis.program,
      ∃ definition ∈ (analysis.symbols.module native.path).members,
        ∃ descriptor, native.BoundTo definition descriptor ∧
          native.header.registrations native.binding registry = [descriptor] := by
  obtain ⟨hmembers, hbound⟩ := natives_of_analyze h
  refine ⟨fun path definition hm hn => ?_, fun native hm => ?_⟩
  · obtain ⟨native, hnative, hpath, he⟩ := (hmembers path definition).1 ⟨hm, hn⟩
    obtain ⟨ha, hb⟩ := hbound native hnative
    exact ⟨native, hnative, hpath, NativeDeclaration.boundTo_of_entry ha hb he⟩
  · obtain ⟨ha, hb⟩ := hbound native hm
    have he : ∃ definition, native.header.nativeEntry? registry.lookup native.binding =
        some definition := by
      obtain ⟨declared, descriptor, hd, hf, -⟩ := hb
      simp [FunctionHeader.nativeEntry?, hd, hf]
    obtain ⟨definition, he⟩ := he
    obtain ⟨hmem, -⟩ := (hmembers native.path definition).2 ⟨native, hm, rfl, he⟩
    exact ⟨definition, hmem, NativeDeclaration.boundTo_of_entry ha hb he⟩

/-- A program that is accepted with the functions that a host registers has each of its native
declarations bound to a function of the declared namespace, name and types, which is the only one
registered under that name with those parameters. And a program with a line that declares a native
function for which the host registers none, or more than one, is not accepted, in whatever order the
host registers its functions. -/
theorem natives_registered_once (settings : Settings) (tokens : List Token)
    (calls : List Native.Descriptor) :
    (∀ analysis, analyze settings (calls.foldl Native.Registry.register []).lookup tokens =
        .ok analysis →
      (∀ path definition, definition ∈ (analysis.symbols.module path).members →
        definition.body.isNative → ∃ native ∈ Stmt.nativesIn [] analysis.program,
          native.path = path ∧ ∃ descriptor, native.BoundTo definition descriptor ∧
            native.header.registrations native.binding calls = [descriptor]) ∧
      ∀ native ∈ Stmt.nativesIn [] analysis.program,
        ∃ definition ∈ (analysis.symbols.module native.path).members,
          ∃ descriptor, native.BoundTo definition descriptor ∧
            native.header.registrations native.binding calls = [descriptor]) ∧
    (settings.maxErrors ≠ some 0 → ∀ line header binding,
      Token.IsLine (tokens.takeWhile (·.kind ≠ .endOfFile)) line →
      Token.native? line = some (header, binding) →
      (header.registrations binding calls).length ≠ 1 → ∀ order : List Native.Descriptor,
        order.Perm calls → ∀ analysis,
          analyze settings (order.foldl Native.Registry.register []).lookup tokens ≠
            .ok analysis) := by
  simp only [Native.Registry.foldl_register, List.nil_append]
  refine ⟨fun analysis h => Native.Registry.boundTo_of_analyze h, ?_⟩
  intro hb line header binding hl hn hlength order hperm analysis h
  obtain ⟨hparse, -⟩ := analyze_eq_ok.1 h
  obtain ⟨path, hmem⟩ := mem_nativesIn_of_parse hb hparse hl hn
  obtain ⟨-, -, descriptor, -, hone⟩ := (Native.Registry.boundTo_of_analyze h).2 _ hmem
  exact hlength ((hperm.filter _).length_eq.symm.trans (congrArg List.length hone))

/-- The words of `module m { nat fn g :: int (nullable int a) -> "h"; }`. -/
def borrowing : List Token :=
  [.synthetic (.keyword .moduleWord) "module", .synthetic .identifier "m",
    .synthetic .openCurly "\x7b", .synthetic (.keyword .natWord) "nat",
    .synthetic (.keyword .fnWord) "fn", .synthetic .identifier "g",
    .synthetic .doubleColon "::", .synthetic (.typeName .int) "int", .synthetic .openParen "(",
    .synthetic (.modifier .nullable) "nullable", .synthetic (.typeName .int) "int",
    .synthetic .identifier "a", .synthetic .closeParen ")", .synthetic .arrow "->",
    .synthetic (.literal .string) "h", .synthetic .semicolon ";",
    .synthetic .closeCurly "\x7d"]

/-- What that program declares in `m`. -/
def borrowed : NativeDeclaration :=
  ⟨["m"], ⟨[], .synthetic .identifier "g", .synthetic (.typeName .int) "int",
    [⟨[.synthetic (.modifier .nullable) "nullable"], .synthetic (.typeName .int) "int",
      .synthetic .identifier "a"⟩]⟩, .synthetic (.literal .string) "h"⟩

/-- A function of the host that it stands for. -/
def lent : Native.Descriptor := ⟨"h.g", [⟨.int, true⟩], .plain .int⟩

/-- The analysis of that program with a host that registers the function. -/
def borrowingAnalysis : Analysis where
  program := [.module (.synthetic .identifier "m") [.native borrowed.header borrowed.binding]]
  symbols := ⟨[.empty [], ⟨["m"], [], [⟨"g", .plain .int, [⟨"g", .plain .int,
    [⟨"a", ⟨.int, true⟩, [.nullable]⟩], [], .native "h.g" (some lent)⟩]⟩]⟩]⟩

/-- A host that registers the function once has the program accepted, and one that registers it
twice does not. -/
theorem natives_registered_once_borrowing :
    analyze {} ([lent].foldl Native.Registry.register []).lookup borrowing =
        .ok borrowingAnalysis ∧
      (∃ definition ∈ (borrowingAnalysis.symbols.module ["m"]).members,
        ∃ descriptor, borrowed.BoundTo definition descriptor ∧
          borrowed.header.registrations borrowed.binding [lent] = [descriptor]) ∧
      ∀ analysis, analyze {} ([lent, lent].foldl Native.Registry.register []).lookup borrowing ≠
        .ok analysis := by
  have haccepted : analyze {} ([lent].foldl Native.Registry.register []).lookup borrowing =
      .ok borrowingAnalysis := by with_unfolding_all rfl
  have hbound := ((natives_registered_once {} borrowing [lent]).1 _ haccepted).2 borrowed (.head _)
  have hline : Token.IsLine (borrowing.takeWhile (·.kind ≠ .endOfFile))
      ((borrowing.drop 3).take 13) :=
    ⟨borrowing.take 3, (borrowing.drop 3).take 12, .synthetic .semicolon ";",
      [.synthetic .closeCurly "\x7d"], rfl, rfl, by unfold Token.Ended; decide,
      by unfold Token.Unbroken; decide, rfl⟩
  have hnative : Token.native? ((borrowing.drop 3).take 13) =
      some (borrowed.header, borrowed.binding) := by with_unfolding_all rfl
  have hrejected := (natives_registered_once {} borrowing [lent, lent]).2 (by decide) _ _ _ hline
    hnative (by decide) _ (.refl _)
  exact ⟨haccepted, hbound, hrejected⟩

end MuLang
