import MuLang.Proofs.Braces

/-!
# Programs that can be defined

What a pass collects outside of functions are declarations whose types are types, also where heads
are faulty, blocks are dropped or the pass breaks off. Hence the definition of a program never meets
a statement that it cannot place, and no part of an analysis reports a fault of its own.
-/
namespace MuLang

/-! ## Declarations -/

/-- The types in the head of a function are types. -/
structure FunctionHeader.Typed (header : FunctionHeader) : Prop where
  returnType : header.returnType.kind.isTypeName
  takesValues : header.TakesValues

/-- The type that a variable is declared with is a type. -/
def VariableHeader.Typed (header : VariableHeader) : Prop := header.datatype.kind.isTypeName

/-- A statement that may stand outside of functions. -/
inductive Stmt.Definable : Stmt → Prop
  | module (identifier : Token) {body : List Stmt} : (∀ stmt ∈ body, stmt.Definable) →
      Definable (.module identifier body)
  | function {header : FunctionHeader} (body : List Stmt) : header.Typed →
      Definable (.function header body)
  | native {header : FunctionHeader} (binding : Token) : header.Typed →
      Definable (.native header binding)
  | declare {header : VariableHeader} : header.Typed → Definable (.declare header)
  | define {header : VariableHeader} (value : Expr) : header.Typed →
      Definable (.define header value)
  | stdlibFinish (keyword : Token) : Definable (.stdlibFinish keyword)

/-- Statements that may stand outside of functions. -/
abbrev Stmt.AllDefinable (stmts : List Stmt) : Prop := ∀ stmt ∈ stmts, stmt.Definable

theorem Stmt.allDefinable_nil : AllDefinable [] := fun _ h => absurd h List.not_mem_nil

theorem FunctionHeader.typed_of_ofTokens {tokens modifiers : List Token} {allowBare : Bool}
    {signature : Signature} (h : Signature.ofTokens tokens allowBare = .ok signature) :
    (signature.header modifiers).Typed := by
  refine ⟨?_, Signature.takesValues_of_ofTokens h⟩
  simp only [Signature.ofTokens, Except.bind_eq_ok, Except.ite_eq_ok, Except.pure_eq_ok] at h
  obtain ⟨-, -, identifier, -, ⟨-, rfl⟩ | ⟨-, mark, -, ⟨-, inner, -, parameters, -, rfl⟩ |
    ⟨-, type, ht, inner, -, parameters, -, rfl⟩⟩⟩ := h
  · rfl
  · rfl
  · unfold Token.expectAt at ht
    split at ht
    · split at ht
      next hk =>
        cases ht
        exact hk
      next => cases ht
    · cases ht

/-! ## The definition of a program -/

namespace Definition

variable {header : FunctionHeader} {token : Token} {nullable : Bool} {error : Error}

theorem datatype_ne_error (h : token.kind.isTypeName) : datatype token nullable ≠ .error error := by
  obtain ⟨name, hn⟩ := Option.isSome_iff_exists.1 h
  simp [datatype, Token.datatype?, Kind.primitive?, hn]

theorem not_isInternal_of_parameter {p : Parameter} (hp : p.TakesValue)
    (h : parameter p = .error error) : ¬error.isInternal := by
  simp only [parameter, Except.bind_eq_error, Except.pure_ne_error, and_false, exists_false,
    or_false] at h
  obtain h | ⟨-, -, h⟩ := h
  · exact not_isInternal_of_checkModifiers h
  · exact absurd h (datatype_ne_error hp.1)

theorem not_isInternal_of_parameters {parameters : List Parameter}
    (hp : ∀ p ∈ parameters, p.TakesValue) (h : parameters.mapM parameter = .error error) :
    ¬error.isInternal := by
  obtain ⟨p, hm, h⟩ := Except.exists_of_mapM_eq_error h
  exact not_isInternal_of_parameter (hp p hm) h

theorem not_isInternal_of_function (ht : header.Typed) {body : FunctionBody}
    (h : function header body = .error error) : ¬error.isInternal := by
  simp only [function, Except.bind_eq_error, Except.pure_ne_error, and_false, exists_false,
    or_false] at h
  obtain h | ⟨-, -, h | ⟨-, -, h⟩⟩ := h
  · exact not_isInternal_of_checkModifiers h
  · exact not_isInternal_of_parameters ht.takesValues h
  · exact absurd h (datatype_ne_error ht.returnType)

theorem not_isInternal_of_bind {natives : Native.Bindings} {binding : Token}
    {definition : FunctionDefinition} (h : bind natives header binding definition = .error error) :
    ¬error.isInternal := by
  unfold bind at h
  dsimp only at h
  split at h
  · cases h
    exact Bool.false_ne_true
  · cases h
    exact Bool.false_ne_true
  · split at h <;> cases h
    exact Bool.false_ne_true

theorem not_isInternal_of_native {natives : Native.Bindings} {table : SymbolTable}
    {module : ModulePath} {binding : Token} (ht : header.Typed)
    (h : native natives table module header binding = .error error) : ¬error.isInternal := by
  simp only [native, Except.bind_eq_error] at h
  obtain h | ⟨definition, -, h | ⟨descriptor, -, h⟩⟩ := h
  · exact not_isInternal_of_function ht h
  · exact not_isInternal_of_bind h
  · exact not_isInternal_of_addFunction h

theorem not_isInternal_of_conflict (conflict : Conflict) (position : Position) :
    ¬(conflict.toError position).isInternal :=
  (conflict.plain_toError position).external

theorem not_isInternal_of_global {table : SymbolTable} {module : ModulePath}
    {header : VariableHeader} {value : Option Datatype} (ht : header.Typed)
    (h : global table module header value = .error error) : ¬error.isInternal := by
  simp only [global, Except.bind_eq_error] at h
  obtain h | ⟨-, -, h⟩ := h
  · exact not_isInternal_of_checkModifiers h
  · split at h
    · obtain rfl : _ = error := Except.throw_eq_error.1 h
      exact Bool.false_ne_true
    · obtain h | ⟨type, -, h⟩ := Except.bind_eq_error.1 h
      · exact absurd h (datatype_ne_error ht)
      · split at h
        · cases h
        next conflict _ =>
          obtain rfl : _ = error := Except.throw_eq_error.1 h
          exact not_isInternal_of_conflict conflict _

end Definition

namespace Definer

open Definition

variable {definer : Definer} {natives : Native.Bindings} {module : ModulePath}

/-- The errors reported so far are errors of the program. -/
abbrev External (definer : Definer) : Prop := ∀ error ∈ definer.log.errors, ¬error.isInternal

theorem external_accept (h : definer.External) {result : Except Error SymbolTable}
    (hr : ∀ error, result = .error error → ¬error.isInternal) :
    (definer.accept result).External := by
  cases result with
  | ok table => exact h
  | error error => exact Log.forall_mem_report h (hr error rfl)

theorem external_foldl_report (h : definer.External) {errors : List Error}
    (he : ∀ error ∈ errors, ¬error.isInternal) : (errors.foldl report definer).External := by
  induction errors generalizing definer with
  | nil => exact h
  | cons error rest ih =>
    have hr : (definer.report error).External := Log.forall_mem_report h (he error (by simp))
    exact ih hr fun other ho => he other (by simp [ho])

theorem external_function (h : definer.External) {header : FunctionHeader} (ht : header.Typed)
    (body : List Stmt) : (definer.function module header body).External := by
  unfold function
  split
  next error he => exact Log.forall_mem_report h (not_isInternal_of_function ht he)
  next definition _ =>
    have ha : (definer.accept (addFunction definer.table module header.identifier
        definition)).External :=
      external_accept h fun error he => not_isInternal_of_addFunction he
    exact external_foldl_report ha fun error he => not_isInternal_of_errorsIn body he

mutual

/-- Nothing that is definable is out of place. -/
theorem external_statement (natives : Native.Bindings) : ∀ (stmt : Stmt) (module : ModulePath)
    (definer : Definer), stmt.Definable → definer.External →
    (statement natives module definer stmt).External
  | .module identifier body, module, definer, hd, h => by
    obtain ⟨-, hb⟩ := hd
    unfold statement
    split
    next table _ => exact external_block natives body _ { definer with table } hb h
    next conflict _ => exact Log.forall_mem_report h (not_isInternal_of_conflict conflict _)
  | .function header body, _, _, .function _ ht, h => external_function h ht body
  | .native header binding, _, _, .native _ ht, h =>
    external_accept h fun _ he => not_isInternal_of_native ht he
  | .declare header, _, _, .declare ht, h =>
    external_accept h fun _ he => not_isInternal_of_global ht he
  | .define header value, _, _, .define _ ht, h =>
    external_accept h fun _ he => not_isInternal_of_global ht he
  | .stdlibFinish _, _, _, _, h => h
  | .action _, _, _, hd, _ => nomatch hd
  | .ifElse .., _, _, hd, _ => nomatch hd
  | .whileLoop .., _, _, hd, _ => nomatch hd
  | .forLoop .., _, _, hd, _ => nomatch hd
  | .returning .., _, _, hd, _ => nomatch hd

theorem external_block (natives : Native.Bindings) : ∀ (body : List Stmt) (module : ModulePath)
    (definer : Definer), Stmt.AllDefinable body → definer.External →
    (block natives module definer body).External
  | [], _, _, _, h => h
  | stmt :: rest, module, definer, hd, h => by
    unfold block
    split
    · exact h
    · exact external_block natives rest module _ (fun other ho => hd other (by simp [ho]))
        (external_statement natives stmt module definer (hd stmt (by simp)) h)

end

end Definer

/-! ## Blocks and the scopes of their kinds -/

namespace Owner

/-- The kind of scope of the block that belongs to an owner. -/
def kind : Owner → ScopeKind
  | .statement stmt => stmt.blockKind?.getD .ifBlock
  | .elseIf .. => .ifBlock
  | .otherwise => .ifBlock
  | .failed kind => kind

/-- Whether the block is that of a module. -/
def isModule : Owner → Bool
  | .statement (.module ..) => true
  | _ => false

/-- Outside of functions a block belongs to a module or to a function whose types are types; a head
that is neither leaves nothing behind. -/
def Definable : Owner → Prop
  | .statement (.module ..) => True
  | .statement (.function header _) => header.Typed
  | .statement _ => False
  | _ => True

variable {owner : Owner}

theorem kind_of_isModule (h : owner.isModule) : owner.kind = .module := by
  unfold isModule at h
  split at h
  · rfl
  · cases h

end Owner

namespace ScopeStack

variable {scopes rest : ScopeStack}

/-- The kinds of the nested scopes besides the headers of loops, innermost first. -/
def blockKinds (scopes : ScopeStack) : List ScopeKind := scopes.kinds.filter (· ≠ .loopHeader)

theorem inFunction_iff : scopes.inFunction ↔ .function ∈ scopes.blockKinds := by
  simp [inFunction, blockKinds, kinds]

theorem kinds_pop (scopes : ScopeStack) : scopes.pop.kinds = scopes.kinds.tail := List.map_tail

/-- The innermost block is left, with its header if it has one. -/
theorem blockKinds_popBlock? {block : Owner × Body} {blocks : List (Owner × Body)}
    (h : Nested scopes.kinds (block :: blocks)) (hp : scopes.popBlock? = some rest) :
    rest.blockKinds = scopes.blockKinds.tail := by
  have hn : scopes.nested ≠ [] := by
    intro hn
    simp [popBlock?, pop?, hn] at hp
  rw [popBlock?_of_ne_nil hn] at hp
  cases hp
  unfold blockKinds
  generalize hk : scopes.kinds = all at h
  have hpop : scopes.pop.kinds = all.tail := by rw [kinds_pop, hk]
  cases h with
  | @block kind kinds _ _ hne hr =>
    have hf : (kind :: kinds).filter (· ≠ .loopHeader) = kind :: kinds.filter (· ≠ .loopHeader) := by
      simp [hne]
    rw [hf]
    split
    next hc =>
      -- Only at the top level could the current scope be a header here, and there it stays.
      cases kinds with
      | nil => rw [kinds_pop, hpop]; rfl
      | cons next rest =>
        have hh := hr.head?_ne
        obtain rfl : next = .loopHeader := (currentKind_of_kinds _ hpop).symm.trans hc
        exact absurd rfl hh
    next => rw [hpop]; rfl
  | loop hr =>
    rw [if_pos (currentKind_of_kinds _ hpop), kinds_pop, hpop]
    rfl

end ScopeStack

namespace Body

variable {parent : Body} {owner : Owner}

theorem definable_add (h : Stmt.AllDefinable parent.statements) {stmt : Option Stmt}
    (hs : ∀ other ∈ stmt, other.Definable) : Stmt.AllDefinable (parent.add stmt).statements := by
  refine List.forall_mem_append.2 ⟨h, fun other ho => hs other ?_⟩
  simpa using ho

/-- Nothing can be attached where no branch stands. -/
theorem attach?_of_definable (h : Stmt.AllDefinable parent.statements) (branch : Else) :
    parent.attach? branch = none := by
  unfold attach?
  split
  next hl =>
    exact nomatch h _ (List.mem_of_getLast? hl)
  next => rfl

/-- A closed block adds a module or a function, or is dropped. -/
theorem definable_close (h : Stmt.AllDefinable parent.statements) (ho : owner.Definable)
    {body : List Stmt} (hb : owner.isModule → Stmt.AllDefinable body) :
    Stmt.AllDefinable (parent.close owner body).statements := by
  unfold close
  split
  next stmt =>
    refine List.forall_mem_append.2 ⟨h, fun other hm => ?_⟩
    obtain rfl := List.mem_singleton.1 hm
    unfold Owner.Definable at ho
    split at ho
    next identifier _ he =>
      cases he
      exact .module identifier (hb rfl)
    next header _ he =>
      cases he
      exact .function body ho
    next => exact ho.elim
    next hn => exact absurd rfl (hn stmt)
  next keyword condition =>
    rw [attach?_of_definable h]
    exact h
  next =>
    rw [attach?_of_definable h]
    exact h
  next => exact h

end Body

namespace Reading

variable {reading : Reading} {tokens : List Token}

/-! ## Scopes of blocks -/

theorem blockKinds_endStatement (reading : Reading) (tokens : List Token) :
    (reading.endStatement tokens).session.scopes.blockKinds =
      reading.session.scopes.blockKinds :=
  congrArg (List.filter _) (kinds_endStatement reading tokens)

/-- The scope of a block is in place however its head fares. -/
theorem blockKinds_insideBlock {kind? : Option ScopeKind} {before after : Frame}
    (hk : kind? ≠ some .loopHeader) (ho : Step.Opens kind? before after) :
    (after.scopes.insideBlock before.scopes.size (kind?.getD .ifBlock)).blockKinds =
      kind?.getD .ifBlock :: before.scopes.blockKinds := by
  have hd : kind?.getD .ifBlock ≠ .loopHeader := by
    cases kind? with
    | none => decide
    | some kind => simpa using hk
  cases ho with
  | nothing => simp [ScopeStack.insideBlock, ScopeStack.blockKinds, hd]
  | block hf he =>
    rw [Option.getD_some] at hd ⊢
    cases he with
    | nothing => simp [ScopeStack.insideBlock, ScopeStack.blockKinds, hd]
    | scope hs => simp [ScopeStack.insideBlock, ScopeStack.blockKinds, hs, hd]
  | loop hh he =>
    cases he with
    | nothing => simp [ScopeStack.insideBlock, ScopeStack.blockKinds, hh]
    | scope hs => simp [ScopeStack.insideBlock, ScopeStack.blockKinds, hh, hs, Nat.add_assoc]

theorem blockKinds_openBlock (reading : Reading) (tokens : List Token) :
    (reading.openBlock tokens).session.scopes.blockKinds =
      (Token.block? tokens).getD .ifBlock :: reading.session.scopes.blockKinds := by
  have ho := run_frame (Step.commits_owner reading.body.chain tokens) reading
  have hk : Token.block? tokens ≠ some .loopHeader := fun hc => Step.block?_ne_loopHeader hc rfl
  have hi := blockKinds_insideBlock hk ho
  unfold ScopeStack.blockKinds at hi ⊢
  change (ScopeStack.insideBlock _ _ _).kinds.filter _ = _
  rw [← ScopeStack.kinds_insideBlock_bare, ← reading.session.scopes.size_bare]
  rw [kinds_frame] at hi
  exact hi

end Reading

/-! ## Statements outside of functions -/

namespace Step

variable {s t : Session}

/-- The type of a variable that is declared has a name. -/
theorem typed_of_evaluateVariable {first : Token} {rest modifiers : List Token} {isGlobal : Bool}
    {form : VariableForm} {result : Option (VariableHeader × Option Expr)}
    (hk : first.kind = .question ∨ first.kind.isTypeName)
    (hf : VariableForm.ofTokens (first :: rest) = .ok form)
    (h : evaluateVariable form modifiers isGlobal s = (.ok result, t)) :
    ∀ declared ∈ result, declared.1.Typed := by
  obtain ⟨typed, type, datatype, scopes, hd, rfl⟩ := evaluateVariable_ok h
  obtain ⟨hfirst, -, -⟩ := typeKeyword_of_ofTokens hf
  have ht := hd.datatype_eq
  rintro _ ⟨⟩
  rw [hfirst] at ht
  change datatype.kind.isTypeName
  split at ht
  · obtain ⟨name, -, rfl⟩ := Option.map_eq_some_iff.1 ht
    rfl
  next hq =>
    cases ht
    exact hk.resolve_left hq

/-- A statement that the second pass accepts outside of functions is a declaration, or ends
standard-library mode. -/
theorem definable_of_closed {tokens : List Token} {result : Option Stmt}
    (hs : s.isSkimming = false) (hn : s.scopes.inFunction = false)
    (h : closed tokens s = (.ok result, t)) : ∀ stmt ∈ result, stmt.Definable := by
  have outside {p : Prop} (hf : s.scopes.inFunction = true) : p := by
    rw [hn] at hf
    cases hf
  have hr := reader_closed tokens
  generalize closed tokens = step at h hr
  cases hr with
  | nothing =>
    obtain ⟨rfl, rfl⟩ := Fallible.pure_eq_ok.1 h
    simp
  | native =>
    obtain ⟨signature, binding, hh, -, rfl, -⟩ := evaluate_nativeStatement hs h
    rintro _ ⟨⟩
    exact .native binding (FunctionHeader.typed_of_ofTokens hh)
  | returning => exact outside (evaluate_returnStatement hs h).1
  | finish =>
    obtain ⟨-, -, -, hr⟩ := finishStatement_ok h
    intro stmt hm
    obtain ⟨keyword, rfl⟩ := hr stmt hm
    exact .stdlibFinish keyword
  | action =>
    obtain ⟨action, ha, rfl⟩ := Fallible.map_eq_ok.1 h
    exact outside (evaluate_actionStatement hs ha).1
  | declaration first rest modifiers hk =>
    obtain ⟨typed, hv, rfl⟩ := Fallible.map_eq_ok.1 h
    obtain ⟨form, hf, -, he⟩ := evaluate_variableStatement hs hv
    have ht := typed_of_evaluateVariable hk hf he
    intro stmt hm
    obtain ⟨⟨header, value⟩, hh, rfl⟩ := Option.map_eq_some_iff.1 hm
    cases value with
    | none => exact .declare (ht _ hh)
    | some value => exact .define value (ht _ hh)
  | fails hf => exact absurd h (hf _ _ _)

theorem definable_of_head {kind : ScopeKind} {step : Step (Option Stmt)} {result : Option Stmt}
    (hs : s.isSkimming = false) (hr : HeadReader kind step) (h : step s = (.ok result, t)) :
    ∀ stmt ∈ result, s.scopes.inFunction = false → (Owner.statement stmt).Definable := by
  have outside {p : Prop} (hf : s.scopes.inFunction = true) (hn : s.scopes.inFunction = false) :
      p := by
    rw [hn] at hf
    cases hf
  cases hr with
  | module =>
    obtain ⟨identifier, -, -, rfl, -⟩ := moduleStatement_ok h
    rw [hs]
    rintro _ ⟨⟩
    exact fun _ => trivial
  | function =>
    obtain ⟨signature, definition, hh, -, -, rfl, -⟩ := evaluate_functionStatement hs h
    rintro _ ⟨⟩
    exact fun _ => FunctionHeader.typed_of_ofTokens hh
  | ifElse =>
    obtain ⟨head, hi, rfl⟩ := Fallible.map_eq_ok.1 h
    obtain ⟨hf, keyword, value, scopes, rfl, -⟩ := evaluate_ifStatement hs hi
    rintro _ ⟨⟩
    exact outside hf
  | whileLoop =>
    obtain ⟨hf, keyword, value, scopes, rfl, -⟩ := evaluate_whileStatement hs h
    rintro _ ⟨⟩
    exact outside hf
  | forLoop =>
    obtain ⟨hf, keyword, init, test, step, hl⟩ := forStatement_ok h
    obtain ⟨_, _, _, _, _, _, _, -, -, -, -, -, rfl, -⟩ := evaluate_loopStatement (by exact hs) hl
    rintro _ ⟨⟩
    exact outside hf
  | fails hf => exact absurd h (hf _ _ _)

/-- What a block belongs to has the kind of the block, and is a module or a function where it is
more than a branch outside of functions. -/
theorem definable_of_owner {chain : Chain} {tokens : List Token} {result : Option Owner}
    (hs : s.isSkimming = false) (h : owner chain tokens s = (.ok result, t)) :
    ∀ owner ∈ result, owner.kind = (Token.block? tokens).getD .ifBlock ∧
      (s.scopes.inFunction = false → owner.Definable) := by
  obtain ⟨hkind, _, _, hb⟩ | ⟨step, read, hr, hread, rfl⟩ := owner_eq_ok rfl h
  · rw [hkind]
    obtain ⟨-, next, -, ⟨-, -, rfl⟩ | ⟨-, head, -, rfl⟩⟩ := elseOwner_ok hb
    · rintro _ ⟨⟩
      exact ⟨rfl, fun _ => trivial⟩
    · intro owner ho
      obtain ⟨head, -, rfl⟩ := Option.map_eq_some_iff.1 ho
      exact ⟨rfl, fun _ => trivial⟩
  · intro owner ho
    obtain ⟨stmt, hm, rfl⟩ := Option.map_eq_some_iff.1 ho
    have hk := yields_head hr s read t hread stmt hm
    exact ⟨by rw [Owner.kind, hk, Option.getD_some], definable_of_head hs hr hread stmt hm⟩

end Step

/-! ## Passes -/

/-- All blocks around are those of modules. -/
def AllModules (blocks : List (Owner × Body)) : Prop := ∀ block ∈ blocks, block.1.isModule

/-- Outside of functions every open block belongs to a module or a function, or is dropped when it
closes, and what it holds is definable if it belongs to a module. -/
def BlocksDefinable : List (Owner × Body) → Prop
  | [] => True
  | (owner, body) :: outer => BlocksDefinable outer ∧ (AllModules outer → owner.Definable ∧
      (owner.isModule → Stmt.AllDefinable body.statements))

namespace Reading

variable {reading later : Reading} {read tokens : List Token} {token : Token}

/-- What the second pass has collected outside of functions is definable. -/
structure Definable (reading : Reading) : Prop where
  evaluates : reading.session.isSkimming = false
  program : Stmt.AllDefinable reading.program.statements
  blocks : BlocksDefinable reading.blocks
  kinds : reading.session.scopes.blockKinds = reading.blocks.map (·.1.kind)

theorem Definable.outside (h : reading.Definable) (ho : AllModules reading.blocks) :
    reading.session.scopes.inFunction = false := by
  rw [← Bool.not_eq_true, ScopeStack.inFunction_iff, h.kinds, List.mem_map]
  rintro ⟨block, hb, hk⟩
  rw [Owner.kind_of_isModule (ho block hb)] at hk
  cases hk

theorem definable_changeBody (h : reading.Definable) {change : Body → Body}
    (hc : AllModules reading.blocks → ∀ body : Body, Stmt.AllDefinable body.statements →
      Stmt.AllDefinable (change body).statements) : (reading.changeBody change).Definable := by
  obtain ⟨he, hp, hb, hk⟩ := h
  unfold changeBody
  split
  next hn =>
    rw [hn] at hc
    exact ⟨he, hc (by simp [AllModules]) _ hp, hb, hk⟩
  next owner body rest hn =>
    rw [hn] at hb hk hc
    refine ⟨he, hp, ⟨hb.1, fun ho => ⟨(hb.2 ho).1, fun hm => ?_⟩⟩, hk⟩
    exact hc (List.forall_mem_cons.2 ⟨hm, ho⟩) body ((hb.2 ho).2 hm)

theorem exists_of_run {α : Type} {step : Step (Option α)} {result : Option α} {after : Reading}
    (h : reading.run step = (result, after)) :
    result = none ∨ ∃ session, step reading.session = (.ok result, session) := by
  unfold run at h
  split at h
  next answer session hs =>
    cases h
    exact .inr ⟨session, hs⟩
  next =>
    cases h
    exact .inl rfl

theorem definable_endStatement (h : reading.Definable) (tokens : List Token) :
    (reading.endStatement tokens).Definable := by
  have hk := blockKinds_endStatement reading tokens
  have hs := isSkimming_run (Step.commits_closed tokens) (fun _ _ he => by rw [he]) reading
  have hb := blocks_run reading (Step.closed tokens)
  have hp : (reading.run (Step.closed tokens)).2.program = reading.program := by
    unfold run
    split <;> rfl
  unfold endStatement at hk ⊢
  rcases hr : reading.run (Step.closed tokens) with ⟨result, after⟩
  rw [hr] at hk hs hb hp
  dsimp only at hk hs hb hp ⊢
  rw [session_changeBody] at hk
  have ha : Definable (after.changeScopes (·.truncate reading.session.scopes.size)) :=
    ⟨hs.trans h.evaluates, hp ▸ h.program, hb ▸ h.blocks, by
      rw [hk, h.kinds]
      exact congrArg (List.map _) hb.symm⟩
  refine definable_changeBody ha fun hm body hd => Body.definable_add hd ?_
  have hn := h.outside (hb ▸ hm)
  obtain rfl | ⟨session, hc⟩ := exists_of_run hr
  · simp
  · exact Step.definable_of_closed h.evaluates hn hc

theorem definable_openBlock (h : reading.Definable) (tokens : List Token) :
    (reading.openBlock tokens).Definable := by
  have hk := blockKinds_openBlock reading tokens
  have hs := isSkimming_run (Step.commits_owner reading.body.chain tokens)
    (fun _ _ ho => ho.pass_eq) reading
  have hb := blocks_run reading (Step.owner reading.body.chain tokens)
  have hp : (reading.run (Step.owner reading.body.chain tokens)).2.program = reading.program := by
    unfold run
    split <;> rfl
  unfold openBlock at hk ⊢
  rcases hr : reading.run (Step.owner reading.body.chain tokens) with ⟨result, after⟩
  rw [hr] at hk hs hb hp
  dsimp only [changeScopes] at hk hs hb hp ⊢
  have ho : (result.getD (.failed ((Token.block? tokens).getD .ifBlock))).kind =
        (Token.block? tokens).getD .ifBlock ∧ (reading.session.scopes.inFunction = false →
      (result.getD (.failed ((Token.block? tokens).getD .ifBlock))).Definable) := by
    cases result with
    | none => exact ⟨rfl, fun _ => trivial⟩
    | some owner =>
      obtain hn | ⟨session, hc⟩ := exists_of_run hr
      · cases hn
      · exact Step.definable_of_owner h.evaluates hc owner rfl
  refine ⟨hs.trans h.evaluates, hp ▸ h.program, ?_, ?_⟩
  · rw [hb]
    exact ⟨h.blocks, fun hm => ⟨ho.2 (h.outside hm), fun _ => Stmt.allDefinable_nil⟩⟩
  · rw [hk, h.kinds, hb, List.map_cons, ho.1]

theorem definable_report (h : reading.Definable) (error : Error) :
    (reading.report error).Definable :=
  ⟨h.evaluates, h.program, h.blocks, h.kinds⟩

theorem definable_closeBlock (h : reading.Definable) (hb : reading.Balanced) (brace : Token) :
    (reading.closeBlock brace).Definable := by
  unfold closeBlock
  split
  · exact definable_report h _
  next owner body blocks hn =>
    obtain ⟨he, hp, hd, hk⟩ := h
    unfold Balanced at hb
    rw [hn] at hd hk hb
    obtain ⟨rest, hr, -⟩ := hb.popBlock
    dsimp only
    rw [hr]
    have ha : Definable { reading with
        session := { reading.session with scopes := rest }, blocks } := by
      refine ⟨he, hp, hd.1, ?_⟩
      dsimp only
      rw [ScopeStack.blockKinds_popBlock? hb hr, hk]
      rfl
    refine definable_changeBody ha fun hm parent hparent => ?_
    exact Body.definable_close hparent (hd.2 hm).1 (hd.2 hm).2

/-- Every token keeps what is collected outside of functions definable. -/
theorem definable_step (h : reading.Definable) (hb : reading.Balanced) (token : Token) :
    (reading.step token).Definable := by
  have hc : Definable { reading with current := [] } :=
    ⟨h.evaluates, h.program, h.blocks, h.kinds⟩
  unfold Reading.step
  split
  · exact definable_endStatement hc _
  · exact definable_openBlock hc _
  · split
    · exact definable_closeBlock h hb token
    · exact definable_closeBlock (definable_report hc _) hb token
  · exact ⟨h.evaluates, h.program, h.blocks, h.kinds⟩

theorem definable_of_passes {session : Session} (h : (start session .evaluate).Passes read later) :
    later.Definable := by
  induction h with
  | start => exact ⟨rfl, Stmt.allDefinable_nil, trivial, rfl⟩
  | token h _ _ ih => exact definable_step ih (h.balanced (balanced_start _ _)) _

theorem program_finish (reading : Reading) (tokens : List Token) :
    (reading.finish tokens).program = reading.program := by
  unfold finish reportUnclosed reportUnfinished
  split <;> split <;> rfl

end Reading

/-! ## The whole analysis -/

namespace Session

variable {session : Session} {pass : Pass}

/-- A pass that starts without an error reports no fault of its own. -/
theorem external_readPass (h : session.log.errors = []) (pass : Pass) (tokens : List Token) :
    ∀ error ∈ (session.readPass pass tokens).1.log.errors, ¬error.isInternal := by
  obtain ⟨read, rest, -, hp, -⟩ := Reading.exists_passes_steps (.start session pass) tokens
  have hs : (Reading.start session pass).Reports [] :=
    ⟨fun error he => absurd (h ▸ he) List.not_mem_nil, fun _ => by simp [Reading.start, h],
      fun _ => by simp [Reading.start, h]⟩
  have hr := Reading.reports_of_passes hp hs (Reading.balanced_start _ _) rfl
  exact Reading.external_finish hr tokens

theorem definable_readPass (session : Session) (tokens : List Token) :
    Stmt.AllDefinable (session.readPass .evaluate tokens).2 := by
  obtain ⟨read, rest, -, hp, -⟩ := Reading.exists_passes_steps (.start session .evaluate) tokens
  change Stmt.AllDefinable (Reading.finish _ tokens).program.statements
  rw [Reading.program_finish]
  exact (Reading.definable_of_passes hp).program

theorem external_skim (settings : Settings) (tokens : List Token) :
    ∀ error ∈ (skim settings tokens).log.errors, ¬error.isInternal := by
  have hl : (skim settings tokens).log = ((initial settings).readPass .skim tokens).1.log :=
    log_resolveDeferred _ _
  rw [hl]
  exact external_readPass rfl .skim tokens

end Session

variable (settings : Settings) (natives : Native.Bindings) (tokens : List Token)

theorem external_parse : ∀ error ∈ (parse settings tokens).2, ¬error.isInternal := by
  unfold parse
  dsimp only
  split
  next h => exact Session.external_readPass (List.isEmpty_iff.1 h) .evaluate tokens
  next => exact Session.external_skim settings tokens

theorem definable_parse : ∀ program ∈ (parse settings tokens).1, Stmt.AllDefinable program := by
  unfold parse
  dsimp only
  split
  · rintro _ ⟨⟩
    exact Session.definable_readPass _ tokens
  · simp

theorem external_define {program : List Stmt} (h : Stmt.AllDefinable program)
    {errors : List Error} (hd : define settings natives program = .error errors) :
    ∀ error ∈ errors, ¬error.isInternal := by
  have hi : (Definer.initial settings).External := fun _ he => absurd he List.not_mem_nil
  have hb := Definer.external_block natives program [] (.initial settings) h hi
  unfold define at hd
  dsimp only at hd
  split at hd
  · cases hd
  · cases hd
    exact hb

/-- No part of an analysis reports a fault of its own: neither the two passes, nor the definition of
whatever statements the second pass hands over, be they all of the program, what is left of it
beside errors, or what has been read of it when the budget is spent. -/
theorem analyze_reports_external :
    (∀ error ∈ (parse settings tokens).2, ¬error.isInternal) ∧
    (∀ program ∈ (parse settings tokens).1, ∀ errors,
      define settings natives program = .error errors → ∀ error ∈ errors, ¬error.isInternal) ∧
    ∀ errors, analyze settings natives tokens = .error errors →
      ∀ error ∈ errors, ¬error.isInternal := by
  have hp := external_parse settings tokens
  have hd : ∀ program ∈ (parse settings tokens).1, ∀ errors,
      define settings natives program = .error errors → ∀ error ∈ errors, ¬error.isInternal :=
    fun program hm _ => external_define settings natives (definable_parse settings tokens program hm)
  refine ⟨hp, hd, fun errors h => ?_⟩
  unfold analyze at h
  dsimp only at h
  split at h
  · cases h
    exact hp
  · split at h
    · cases h
      exact hp
    next program hm =>
      split at h
      · split at h
        · cases h
        · cases h
          exact hp
      next more he =>
        cases h
        have hall : ∀ error ∈ (parse settings tokens).2 ++ more, ¬error.isInternal :=
          List.forall_mem_append.2 ⟨hp, hd program hm more he⟩
        split
        · exact fun error hm => hall error (List.mem_of_mem_take hm)
        · exact hall

/-- The words of `module m { int a = true; mut mut int b = 1; }`. -/
def misfit : List Token :=
  [.synthetic (.keyword .moduleWord) "module", .synthetic .identifier "m",
    .synthetic .openCurly "\x7b", .synthetic (.typeName .int) "int", .synthetic .identifier "a",
    .synthetic (.assign .plain) "=", .synthetic (.literal .bool) "true",
    .synthetic .semicolon ";", .synthetic (.modifier .mutable) "mut",
    .synthetic (.modifier .mutable) "mut", .synthetic (.typeName .int) "int",
    .synthetic .identifier "b", .synthetic (.assign .plain) "=",
    .synthetic (.literal .integer) "1", .synthetic .semicolon ";",
    .synthetic .closeCurly "\x7d"]

/-- What is left of that program when the value of `a` has been refused. -/
def misfitRest : List Stmt :=
  [.module (.synthetic .identifier "m")
    [.define ⟨[.synthetic (.modifier .mutable) "mut", .synthetic (.modifier .mutable) "mut"],
        .synthetic .identifier "b", .synthetic (.typeName .int) "int"⟩
      (.literal (.plain .int) (.synthetic (.literal .integer) "1"))]]

/-- The second pass refuses the value of `a`, and the definition of what is left the repeated
modifier of `b`. -/
theorem analyze_reports_external_of_misfit :
    let mismatch : Error := ⟨.typeMismatch "int" "bool", .nowhere, []⟩
    let duplicate : Error := ⟨.duplicateModifier "variable" "mut", .nowhere, []⟩
    parse {} misfit = (some misfitRest, [mismatch]) ∧
      define {} (fun _ _ => .notFound) misfitRest = .error [duplicate] ∧
      analyze {} (fun _ _ => .notFound) misfit = .error [mismatch, duplicate] ∧
      (∀ error ∈ [mismatch], ¬error.isInternal) ∧ (∀ error ∈ [duplicate], ¬error.isInternal) ∧
      ∀ error ∈ [mismatch, duplicate], ¬error.isInternal := by
  intro mismatch duplicate
  obtain ⟨hparse, hdefine, hanalyze⟩ :=
    analyze_reports_external {} (fun _ _ => .notFound) misfit
  have hstatements : (parse {} misfit).1 = some misfitRest := by with_unfolding_all rfl
  have herrors : (parse {} misfit).2 = [mismatch] := by with_unfolding_all rfl
  have hp : parse {} misfit = (some misfitRest, [mismatch]) := Prod.ext hstatements herrors
  have hd : define {} (fun _ _ => .notFound) misfitRest = .error [duplicate] := by
    with_unfolding_all rfl
  have ha : analyze {} (fun _ _ => .notFound) misfit = .error [mismatch, duplicate] := by
    unfold analyze
    rw [hp]
    dsimp only
    rw [hd]
    rfl
  rw [hp] at hparse hdefine
  exact ⟨hp, hd, ha, hparse, hdefine misfitRest rfl _ hd, hanalyze _ ha⟩

end MuLang
