import MuLang.Proofs.Agreement
import MuLang.Proofs.Events

/-!
# Events and scopes

The second pass carries out the events of the program that it builds: between the first token and
any later point its scopes have changed by the events of what has been read, one after the other, and
every event was allowed where it happened.
-/
namespace MuLang

/-- A declaration gives a variable its name, its type, its modifiers and its value. -/
structure Binding.Describes (binding : Binding) (v : Variable) : Prop where
  name_eq : v.name = binding.name
  datatype_eq : binding.datatype = some v.datatype
  modifiers_eq : v.modifiers = binding.modifiers
  valued_eq : v.initialized = binding.valued

/-- What an event does to the scopes at its point, where it is allowed there. -/
inductive Event.Happens (env : Env) (scopes : ScopeStack) : Event → ScopeStack → Prop
  | module {name : String} : scopes.inFunction = false →
      Happens env scopes (.enterModule name)
        (scopes.pushIn .module (scopes.currentModule ++ [name]))
  | function {type : Datatype} : scopes.inFunction = false →
      Happens env scopes .enterFunction (scopes.pushFunction type)
  | block {kind : ScopeKind} : kind ≠ .function → Happens env scopes .enterBlock (scopes.push kind)
  | leave : scopes.nested ≠ [] → Happens env scopes .leave scopes.pop
  | global {binding : Binding} : scopes.inFunction = false →
      Happens env scopes (.declare binding) scopes
  | declare {binding : Binding} {v : Variable} {after : ScopeStack} : scopes.inFunction →
      binding.Describes v → scopes.addLocal v = .ok after →
      Happens env scopes (.declare binding) after
  | read {type : Datatype} {identifier : Token} :
      env.read scopes identifier = .ok (.read type identifier) →
      Happens env scopes (.read type identifier) scopes
  | assign {type? : Option Datatype} {type : Datatype} {identifier operator : Token} {value : Expr}
      {after : ScopeStack} : env.assign scopes identifier operator value = .ok (type, after) →
      (∀ stored ∈ type?, stored = type) →
      Happens env scopes (.assign type? identifier operator) after

/-- Events that happen one after the other. -/
inductive Runs (env : Env) : ScopeStack → List Event → ScopeStack → Prop
  | nil {scopes : ScopeStack} : Runs env scopes [] scopes
  | cons {before between after : ScopeStack} {event : Event} {rest : List Event} :
      event.Happens env before between → Runs env between rest after →
      Runs env before (event :: rest) after

namespace Runs

variable {env : Env} {before between after : ScopeStack} {event : Event} {first rest : List Event}

theorem single (h : event.Happens env before after) : Runs env before [event] after := .cons h .nil

theorem append (h : Runs env before first between) (hr : Runs env between rest after) :
    Runs env before (first ++ rest) after := by
  induction h with
  | nil => exact hr
  | cons he _ ih => exact .cons he (ih hr)

theorem snoc (h : Runs env before first between) (he : event.Happens env between after) :
    Runs env before (first ++ [event]) after :=
  h.append (single he)

end Runs

/-! ## Expressions -/

theorem Env.exists_of_read {env : Env} {scopes : ScopeStack} {identifier : Token} {value : Expr}
    (h : env.read scopes identifier = .ok value) : ∃ type, value = .read type identifier := by
  obtain ⟨place, v, -, -, rfl⟩ := read_eq_ok.1 h
  exact ⟨_, rfl⟩

namespace Term

variable {env : Env}

mutual

/-- Typing a term carries out the events of the expression that it stands for. -/
theorem runs_of_check : ∀ (term : Term) {before after : ScopeStack} {value : Expr},
    term.check env before = (.ok value, after) → Runs env before value.events after
  | .literal kind token, before, after, value, h => by
    obtain ⟨⟨-, rfl⟩, rfl⟩ := check_literal_eq_ok.1 h
    exact .nil
  | .read identifier, before, after, value, h => by
    obtain ⟨hr, rfl⟩ := check_read_eq_ok.1 h
    obtain ⟨type, rfl⟩ := Env.exists_of_read hr
    exact .single (.read hr)
  | .binary left op operator right, before, after, value, h => by
    obtain ⟨l, between, r, type, hl, hr, -, rfl⟩ := check_binary_eq_ok.1 h
    exact (runs_of_check left hl).append (runs_of_check right hr)
  | .unary op operator right, before, after, value, h => by
    obtain ⟨r, type, hr, -, rfl⟩ := check_unary_eq_ok.1 h
    rw [Expr.events]
    exact runs_of_check right hr
  | .cast type target inner, before, after, value, h => by
    obtain ⟨v, hv, -, -, rfl⟩ := check_cast_eq_ok.1 h
    rw [Expr.events]
    exact runs_of_check inner hv
  | .assign assignee operator inner, before, after, value, h => by
    obtain ⟨v, between, type, hv, ha, rfl⟩ := check_assign_eq_ok.1 h
    exact (runs_of_check inner hv).snoc (.assign ha (by simp))
  | .call callee arguments, before, after, value, h => by
    obtain ⟨values, type, hv, -, rfl⟩ := check_call_eq_ok.1 h
    exact runs_of_checkAll arguments hv
  | .broken parts error, before, after, value, h => absurd h check_broken_ne_ok

theorem runs_of_checkAll : ∀ (terms : List Term) {before after : ScopeStack} {values : List Expr},
    checkAll env terms before = (.ok values, after) →
    Runs env before (Expr.eventsOfAll values) after
  | [], before, after, values, h => by
    obtain ⟨rfl, rfl⟩ := checkAll_nil_eq_ok.1 h
    exact .nil
  | term :: rest, before, after, values, h => by
    obtain ⟨first, between, others, hf, ho, rfl⟩ := checkAll_cons_eq_ok.1 h
    exact (runs_of_check term hf).append (runs_of_checkAll rest ho)

end

end Term

theorem Env.runs_of_expression {env : Env} {tokens : List Token} {context : Token}
    {before after : ScopeStack} {value : Expr}
    (h : env.expression tokens context before = (.ok value, after)) :
    Runs env before value.events after :=
  Term.runs_of_check _ h

/-! ## Statements without a block -/

namespace Step

variable {env : Env} {site : Site} {before after : ScopeStack} {s t : Session}

theorem runs_of_acts {action : Action} (h : Acts env before action after) :
    Runs env before action.events after := by
  cases h with
  | call hx =>
    have hr := Env.runs_of_expression hx
    rwa [Expr.events] at hr
  | assign hx ha =>
    have hassign := Event.Happens.assign ha fun _ hs => absurd hs (Option.not_mem_none _)
    obtain ⟨rfl, rfl⟩ | ⟨tokens, context, hx⟩ := hx
    · exact .single hassign
    · exact (Env.runs_of_expression hx).snoc hassign

/-- A local that is declared has the type that its declaration names, or that of its value. -/
theorem Declared.describes {form : VariableForm} {modifiers : List Token} {typed : Option Expr}
    {type : Datatype} {datatype : Token} {scopes : ScopeStack}
    (h : Declared form modifiers false s typed type datatype scopes t) :
    ((VariableHeader.mk modifiers form.identifier datatype).binding (typed.map Expr.type)).Describes
      ⟨form.identifier.text, type, Token.modifiers modifiers, false || typed.isSome⟩ := by
  refine ⟨rfl, ?_, rfl, by simp [VariableHeader.binding]⟩
  have ht := h.type_eq
  have hd := h.datatype_eq
  by_cases hq : form.typeKeyword.kind = .question
  · simp only [declaredType, hq, if_true] at ht hd
    cases typed with
    | none => simp [Token.datatype?, Kind.primitive?, Kind.typeName?, hq] at ht
    | some value =>
      simp only [Option.map_some, VariableHeader.binding, Option.any_some] at ht ⊢
      split at ht
      next hi =>
        cases ht
        unfold inferredType? at hi
        split at hi
        · cases hi
        · cases hi
          obtain ⟨name, hn, rfl⟩ := Option.map_eq_some_iff.1 hd
          simp [Token.datatype?, Kind.primitive?, Kind.typeName?, Token.synthetic,
            Primitive.ofTypeName_typeName? hn, Datatype.withNullable]
      next => cases ht
  · simp only [declaredType, hq, if_false] at ht hd
    obtain rfl := Option.some.inj hd
    split at ht
    next hi =>
      cases ht
      rw [VariableHeader.binding, h.areNullable_eq hi]
      exact hi
    next => cases ht

/-- A declaration types its value, if it has one, before its name is declared. -/
theorem runs_variable {tokens modifiers : List Token}
    {result : Option (VariableHeader × Option Expr)} (hs : s.isSkimming = false)
    (hm : site.Matches s.scopes) (h : variableStatement tokens modifiers s = (.ok result, t)) :
    ∃ typed, result = some typed ∧ Runs s.env s.scopes (declared typed).events t.scopes ∧
      (site.function.isSome → t.env = s.env) := by
  obtain ⟨form, -, hf, he⟩ := evaluate_variableStatement hs h
  obtain ⟨typed, type, datatype, scopes, hd, rfl⟩ := evaluateVariable_ok he
  have hvalue : scopes.inFunction = s.scopes.inFunction ∧
      Runs s.env s.scopes (Expr.eventsOfAll typed.toList) scopes := by
    cases typed with
    | none => exact ⟨by rw [hd.untyped rfl], by rw [hd.untyped rfl]; exact .nil⟩
    | some value =>
      cases ht : form.value with
      | none => exact absurd (hd.none_iff.1 ht) (by simp)
      | some tokens =>
        have hx := hd.typed_eq tokens ht value rfl
        have hu := (Env.resolves_of_expression hm hx).2
        refine ⟨(hm.congr hu).inFunction_eq.trans hm.inFunction_eq.symm, ?_⟩
        simpa [Expr.eventsOfAll] using Env.runs_of_expression hx
  have hevents : (declared (⟨modifiers, form.identifier, datatype⟩, typed)).events =
      Expr.eventsOfAll typed.toList ++ [.declare
        ((VariableHeader.mk modifiers form.identifier datatype).binding (typed.map Expr.type))] := by
    cases typed <;>
      simp [declared, Stmt.events, VariableHeader.definitionEvents, Expr.eventsOfAll]
  refine ⟨_, rfl, ?_⟩
  rw [hevents]
  obtain ⟨hg, table, rfl, -⟩ | ⟨hg, extended, ha, rfl⟩ := declareVariable_ok hd.declared
  · have hn := function_of_admitsGlobals hm hg
    refine ⟨hvalue.2.snoc (.global ?_), fun hf => by simp [hn] at hf⟩
    rw [hvalue.1, hm.inFunction_eq, hn]
    rfl
  · rw [hg] at hd ha
    exact ⟨hvalue.2.snoc (.declare (hvalue.1.trans (hf hg)) hd.describes ha), fun _ => rfl⟩

theorem runs_action {tokens modifiers : List Token} {result : Option Action}
    (hs : s.isSkimming = false) (h : actionStatement tokens modifiers s = (.ok result, t)) :
    Runs s.env s.scopes (Stmt.eventsIn (result.map Stmt.action).toList) t.scopes := by
  obtain ⟨-, ⟨action, scopes, rfl, ha, rfl⟩ | ⟨rfl, rfl, -⟩⟩ := evaluate_actionStatement hs h
  · simpa [Stmt.eventsIn, Stmt.events] using runs_of_acts ha
  · exact .nil

theorem runs_return {tokens modifiers : List Token} {result : Option Stmt}
    (hs : s.isSkimming = false) (h : returnStatement tokens modifiers s = (.ok result, t)) :
    Runs s.env s.scopes (Stmt.eventsIn result.toList) t.scopes := by
  obtain ⟨-, keyword, value, scopes, rfl, rfl, hx, hu, -⟩ := evaluate_returnStatement hs h
  cases value with
  | none =>
    rw [(hu rfl).1]
    exact .nil
  | some typed =>
    simpa [Stmt.eventsIn, Stmt.events, Expr.eventsOfAll] using
      Env.runs_of_expression (hx typed rfl)

theorem runs_finish {tokens modifiers : List Token} {result : Option Stmt}
    (h : finishStatement tokens modifiers s = (.ok result, t)) :
    Runs env s.scopes (Stmt.eventsIn result.toList) t.scopes := by
  obtain ⟨whole, -, rfl, hr⟩ := finishStatement_ok h
  have ht : (if whole then { s with stdlib := false } else s).scopes = s.scopes := by
    split <;> rfl
  rw [ht]
  cases result with
  | none => exact .nil
  | some stmt =>
    obtain ⟨keyword, rfl⟩ := hr stmt rfl
    exact .nil

/-- Whatever a `;` ends carries out its events if the second pass accepts it. -/
theorem runs_closed {tokens : List Token} {result : Option Stmt} (hs : s.isSkimming = false)
    (hm : site.Matches s.scopes) (h : closed tokens s = (.ok result, t)) :
    Runs s.env s.scopes (Stmt.eventsIn result.toList) t.scopes := by
  have hr := reader_closed tokens
  generalize closed tokens = step at h hr
  cases hr with
  | nothing =>
    obtain ⟨rfl, rfl⟩ := Fallible.pure_eq_ok.1 h
    exact .nil
  | native =>
    obtain ⟨signature, binding, -, -, rfl, rfl, -⟩ := evaluate_nativeStatement hs h
    exact .nil
  | returning => exact runs_return hs h
  | finish => exact runs_finish h
  | action =>
    obtain ⟨action, ha, rfl⟩ := Fallible.map_eq_ok.1 h
    exact runs_action hs ha
  | declaration =>
    obtain ⟨typed?, hv, rfl⟩ := Fallible.map_eq_ok.1 h
    obtain ⟨typed, rfl, hruns, -⟩ := runs_variable hs hm hv
    rwa [Option.map_some, Option.toList_some, Stmt.eventsIn_singleton]
  | fails hf => exact absurd h (hf _ _ _)

/-! ## Heads of blocks -/

theorem runs_declareParameters {header : FunctionHeader} {parameters : List Parameter} {u : Unit}
    (hv : ∀ parameter ∈ parameters, parameter.TakesValue) (hf : s.scopes.inFunction)
    (h : declareParameters header (parameters.filterMap Parameter.registered?) s = (.ok u, t)) :
    Runs env s.scopes ((parameters.map (·.binding)).map .declare) t.scopes := by
  induction parameters generalizing s with
  | nil =>
    obtain ⟨-, rfl⟩ := Fallible.pure_eq_ok.1 h
    exact .nil
  | cons parameter rest ih =>
    obtain ⟨hp, hrest⟩ := List.forall_mem_cons.1 hv
    obtain ⟨type, hd⟩ := hp.exists_datatype?
    rw [List.filterMap_cons_some (by rw [Parameter.registered?, hd, Option.map_some])] at h
    obtain ⟨extended, ha, h⟩ := declareParameters_cons_ok h
    have he : extended.inFunction := by
      rwa [← ScopeStack.inFunction_bare, ScopeStack.bare_of_addLocal ha, ScopeStack.inFunction_bare]
    have hdescribes : parameter.binding.Describes
        ⟨parameter.identifier.text, type, Token.modifiers parameter.modifiers, true⟩ :=
      ⟨rfl, hd, rfl, rfl⟩
    refine .cons (.declare hf hdescribes ha) ?_
    exact ih (s := { s with scopes := extended }) hrest he h

theorem runs_function {tokens modifiers : List Token} {result : Option Stmt}
    (hs : s.isSkimming = false) (hm : site.Matches s.scopes)
    (h : functionStatement tokens modifiers s = (.ok result, t)) :
    ∀ stmt ∈ result, Runs env s.scopes (Owner.statement stmt).opening t.scopes := by
  obtain ⟨signature, definition, hh, hg, hd, rfl, hp⟩ := evaluate_functionStatement hs h
  rintro stmt ⟨⟩
  have hv : (signature.header modifiers).TakesValues := Signature.takesValues_of_ofTokens hh
  have hout : s.scopes.inFunction = false := by
    rw [hm.inFunction_eq, function_of_admitsGlobals hm hg]
    rfl
  rw [FunctionHeader.parameters_of_definition hd] at hp
  refine .cons (.function hout) (runs_declareParameters hv ?_ hp)
  simp [ScopeStack.pushFunction, ScopeStack.inFunction_enter]

/-- A condition is typed inside the scope of its block. -/
theorem runs_if {tokens modifiers : List Token} {result : Option (Token × Expr)}
    (hs : s.isSkimming = false) (h : ifStatement tokens modifiers s = (.ok result, t)) :
    ∃ keyword condition, result = some (keyword, condition) ∧
      Runs s.env s.scopes (.enterBlock :: condition.events) t.scopes := by
  obtain ⟨-, keyword, value, scopes, rfl, hx, -, rfl⟩ := evaluate_ifStatement hs h
  exact ⟨keyword, value, rfl, .cons (.block (by decide)) (Env.runs_of_expression hx)⟩

theorem runs_while {tokens modifiers : List Token} {result : Option Stmt}
    (hs : s.isSkimming = false) (h : whileStatement tokens modifiers s = (.ok result, t)) :
    ∀ stmt ∈ result, Runs s.env s.scopes (Owner.statement stmt).opening t.scopes := by
  obtain ⟨-, keyword, value, scopes, rfl, hx, -, rfl⟩ := evaluate_whileStatement hs h
  rintro stmt ⟨⟩
  exact .cons (.block (by decide)) (Env.runs_of_expression hx)

/-- The variable of a loop is declared in a block of its own, where the condition and the step are
looked at before the block of the loop is entered. -/
theorem runs_for {tokens modifiers : List Token} {result : Option Stmt}
    (hs : s.isSkimming = false) (hm : site.Matches s.scopes)
    (h : forStatement tokens modifiers s = (.ok result, t)) :
    ∀ stmt ∈ result, Runs s.env s.scopes (Owner.statement stmt).opening t.scopes := by
  obtain ⟨hi, keyword, init, test, step, h⟩ := forStatement_ok h
  have hf := isSome_function hm hi
  have hpush : site.Matches (s.scopes.push .loopHeader) := hm.push (by simp) (by simp) (by simp)
  obtain ⟨header, value, condition, action, declared, tested, acted, hv, hx, -, ha, rfl, rfl, -⟩ :=
    evaluate_loopStatement (by exact hs) h
  obtain ⟨_, hr, hruns, henv⟩ := runs_variable (by exact hs) hpush hv
  cases hr
  have henv : declared.env = s.env := henv hf
  rw [henv] at hx ha
  rintro stmt ⟨⟩
  have hinit : Runs s.env (s.scopes.push .loopHeader) (header.definitionEvents value)
      declared.scopes := by
    rwa [Step.declared, Stmt.events] at hruns
  have hhead := (hinit.append (Env.runs_of_expression hx)).append (runs_of_acts ha)
  have hblock : Event.Happens s.env acted .enterBlock (acted.push .forBlock) := .block (by decide)
  have hheader : Event.Happens s.env s.scopes .enterBlock (s.scopes.push .loopHeader) :=
    .block (by decide)
  rw [Owner.opening, VariableHeader.loopEvents]
  exact .cons hheader (by simpa using hhead.snoc hblock)

theorem runs_statement {kind : ScopeKind} {step : Step (Option Stmt)} {result : Option Stmt}
    (hs : s.isSkimming = false) (hm : site.Matches s.scopes) (hr : HeadReader kind step)
    (h : step s = (.ok result, t)) :
    ∀ stmt ∈ result, Runs s.env s.scopes (Owner.statement stmt).opening t.scopes := by
  cases hr with
  | module =>
    obtain ⟨identifier, -, hp, hr, rfl⟩ := moduleStatement_ok h
    rw [hs] at hr
    subst hr
    rintro stmt ⟨⟩
    refine .single (.module ?_)
    rw [hm.inFunction_eq, hm.outside hp]
    rfl
  | function => exact runs_function hs hm h
  | ifElse =>
    obtain ⟨head, hi, rfl⟩ := Fallible.map_eq_ok.1 h
    obtain ⟨keyword, condition, rfl, hruns⟩ := runs_if hs hi
    rintro stmt ⟨⟩
    exact hruns
  | whileLoop => exact runs_while hs h
  | forLoop => exact runs_for hs hm h
  | fails hf => exact absurd h (hf _ _ _)

theorem runs_else {chain : Chain} {tokens modifiers : List Token} {result : Option Owner}
    (hs : s.isSkimming = false) (hm : site.Matches s.scopes)
    (hk : s.scopes.kinds.head? ≠ some .loopHeader)
    (h : elseOwner chain tokens modifiers s = (.ok result, t)) :
    ∀ owner ∈ result, Runs s.env s.scopes owner.opening
      (t.scopes.insideBlock s.scopes.size .ifBlock) := by
  obtain ⟨-, next, -, ⟨-, rfl, rfl⟩ | ⟨-, head, hi, rfl⟩⟩ := elseOwner_ok h
  · rintro owner ⟨⟩
    rw [ScopeStack.insideBlock, if_pos (.inl rfl)]
    exact .single (.block (by decide))
  · obtain ⟨keyword, condition, rfl, hruns⟩ := runs_if hs hi
    obtain ⟨_, _, -, -, hb, -⟩ := starts_if [] hs hm hk hi
    rintro owner ⟨⟩
    rw [hb]
    exact hruns

/-- Whatever an opening brace ends carries out the events of its head if the second pass accepts
it. -/
theorem runs_owner {chain : Chain} {tokens : List Token} {result : Option Owner}
    (hs : s.isSkimming = false) (hm : site.Matches s.scopes)
    (hk : s.scopes.kinds.head? ≠ some .loopHeader)
    (h : owner chain tokens s = (.ok result, t)) :
    ∀ owner ∈ result, Runs s.env s.scopes owner.opening
      (t.scopes.insideBlock s.scopes.size ((Token.block? tokens).getD .ifBlock)) := by
  obtain ⟨hkind, _, _, he⟩ | ⟨step, read, hr, hread, rfl⟩ := owner_eq_ok rfl h
  · rw [hkind]
    exact runs_else hs hm hk he
  · obtain ⟨stmt, rfl, hb, -⟩ := starts_statement [] hs hm hk hr hread
    rintro owner ⟨⟩
    rw [hb]
    exact runs_statement hs hm hr hread stmt rfl

end Step

/-! ## Blocks under way -/

/-- Every open block has as many scopes as end with it. -/
inductive Housed : List ScopeKind → List (Owner × Body) → Prop
  | outside : Housed [] []
  | block {kind : ScopeKind} {kinds : List ScopeKind} {owner : Owner} {body : Body}
      {blocks : List (Owner × Body)} : kind ≠ .loopHeader → owner.closing = [.leave] →
      Housed kinds blocks → Housed (kind :: kinds) ((owner, body) :: blocks)
  | loop {kinds : List ScopeKind} {owner : Owner} {body : Body} {blocks : List (Owner × Body)} :
      owner.closing = [.leave, .leave] → Housed kinds blocks →
      Housed (.forBlock :: .loopHeader :: kinds) ((owner, body) :: blocks)

namespace Housed

variable {env : Env} {site : Site} {scopes after rest : ScopeStack} {owner : Owner} {body : Body}
  {kinds : List ScopeKind} {blocks : List (Owner × Body)}

theorem nested (h : Housed kinds blocks) : Nested kinds blocks := by
  induction h with
  | outside => exact .outside
  | block hk _ _ ih => exact .block hk ih
  | loop _ _ ih => exact .loop ih

/-- What a block holds does not matter. -/
theorem replace (h : Housed kinds ((owner, body) :: blocks)) (other : Body) :
    Housed kinds ((owner, other) :: blocks) := by
  cases h with
  | block hk hc h => exact .block hk hc h
  | loop hc h => exact .loop hc h

theorem enter (h : Housed scopes.kinds blocks) (ho : owner.Opened site)
    (hb : after.bare = (owner.entered scopes).bare) :
    Housed after.kinds ((owner, body) :: blocks) := by
  rw [← ScopeStack.kinds_bare, hb, ScopeStack.kinds_bare]
  cases ho with
  | forLoop => exact .loop rfl h
  | _ => exact .block (by rintro ⟨⟩) rfl h

variable (env) in
/-- The innermost block is left by the events of its end. -/
theorem leave (h : Housed scopes.kinds ((owner, body) :: blocks)) (hp : scopes.popBlock? = some rest) :
    Runs env scopes owner.closing rest ∧ Housed rest.kinds blocks := by
  rcases scopes with ⟨_ | ⟨scope, nested⟩, outermost⟩
  · cases h
  · let outer : ScopeStack := ⟨nested, outermost⟩
    change (outer.enter scope).popBlock? = some rest at hp
    have hleave : Event.Happens env (outer.enter scope) .leave outer := .leave (List.cons_ne_nil _ _)
    change Housed (scope.kind :: outer.kinds) _ at h
    generalize scope.kind = kind, hk : outer.kinds = kinds at h
    cases h with
    | block _ hc h =>
      rw [outer.popBlock?_enter (hk ▸ h.nested.head?_ne)] at hp
      obtain rfl := Option.some.inj hp
      rw [hc, hk]
      exact ⟨.single hleave, h⟩
    | loop hc h =>
      rw [outer.popBlock?_enter_loop (outer.currentKind_of_kinds hk)] at hp
      obtain rfl := Option.some.inj hp
      have hn : outer.nested ≠ [] := fun hn => by simp [ScopeStack.kinds, hn] at hk
      have hpop : outer.pop.kinds = outer.kinds.tail := List.map_tail
      rw [hc, hpop, hk]
      exact ⟨.cons hleave (.single (.leave hn)), h⟩

end Housed

/-! ## The second pass -/

namespace Reading

variable {env : Env} {reading first second : Reading} {read tokens : List Token} {token : Token}

/-- The scopes are those that the events of what has been read have led to. -/
structure Performed (env : Env) (reading : Reading) : Prop where
  runs : Runs env .initial reading.trace reading.session.scopes
  housed : Housed reading.session.scopes.kinds reading.blocks

theorem housed_changeBody {kinds : List ScopeKind} (h : Housed kinds reading.blocks)
    (change : Body → Body) : Housed kinds (reading.changeBody change).blocks := by
  rcases reading with ⟨session, program, _ | ⟨⟨owner, body⟩, blocks⟩, current⟩
  · exact h
  · exact h.replace _

theorem Performed.changeBody {session : Session} {change : Body → Body} {events : List Event}
    (h : reading.Performed env) (hr : Runs env reading.session.scopes events session.scopes)
    (hk : session.scopes.kinds = reading.session.scopes.kinds)
    (he : Stmt.eventsIn (change reading.body).statements =
      Stmt.eventsIn reading.body.statements ++ events) :
    ({ reading with session }.changeBody change).Performed env := by
  refine ⟨?_, ?_⟩
  · rw [trace_changeBody (by exact he), session_changeBody]
    exact h.runs.append hr
  · rw [session_changeBody]
    exact housed_changeBody (hk ▸ h.housed) change

theorem performed_endStatement (h : second.Performed env) (ht : Together env first second)
    (hc : (second.endStatement tokens).session.log.Clean) :
    (second.endStatement tokens).Performed env := by
  have hk := kinds_endStatement second tokens
  obtain ⟨result, session, hr, he⟩ := endStatement_of_clean hc
  rw [he, session_changeBody] at hk
  have hruns := Step.runs_closed ht.alike.evaluating ht.layers.matched hr
  rw [ht.env_eq] at hruns
  rw [he]
  exact h.changeBody hruns hk (Stmt.eventsIn_append _ _)

theorem performed_openBlock (h : second.Performed env) (ht : Together env first second)
    (hc : (second.openBlock tokens).session.log.Clean) :
    (second.openBlock tokens).Performed env := by
  obtain ⟨result, session, hr, he⟩ := openBlock_of_clean hc
  have hk : second.session.scopes.kinds.head? ≠ some .loopHeader := Nested.head?_ne ht.balanced
  obtain ⟨owner, rfl, hstarts⟩ := Step.starts_owner second.view.outline
    ht.alike.evaluating ht.layers.matched hk ht.chained hr
  have hruns := Step.runs_owner ht.alike.evaluating ht.layers.matched hk hr owner rfl
  rw [ht.env_eq] at hruns
  rw [he]
  refine ⟨?_, h.housed.enter hstarts.opened hstarts.entered⟩
  have hr := h.runs.append hruns
  rwa [← List.append_nil owner.opening] at hr

theorem performed_closeBlock (h : second.Performed env)
    (hf : Covered second.program second.blocks read)
    (hc : (second.closeBlock token).session.log.Clean) :
    (second.closeBlock token).Performed env := by
  obtain ⟨owner, body, blocks, scopes, hblocks, hpop, he⟩ := closeBlock_of_clean hc
  have hhoused := h.housed
  have hruns := h.runs
  rw [hblocks] at hhoused hf
  rw [trace, hblocks, traceOf] at hruns
  obtain ⟨hleave, hrest⟩ := hhoused.leave env hpop
  cases hf with
  | inside houter _ _ ho hb _ =>
    let outer : Reading := { second with session := { second.session with scopes }, blocks }
    have hchained : outer.body.Chained := by
      rw [body_eq]
      exact houter.chained
    rw [he]
    refine ⟨?_, ?_⟩
    · rw [trace_changeBody (hchained.eventsIn_close ho (by rwa [body_eq]) _), session_changeBody]
      have hr := hruns.append hleave
      rw [List.append_assoc, List.append_assoc] at hr
      exact hr
    · rw [session_changeBody]
      exact @housed_changeBody outer _ hrest _

theorem performed_step (h : second.Performed env) (ht : Together env first second)
    (hf : second.Faithful read) (hc : (second.step token).session.log.Clean) :
    (second.step token).Performed env := by
  by_cases hbrace : token.kind = .closeCurly
  · obtain ⟨-, hstep⟩ := step_closeCurly_of_clean hbrace hc
    obtain ⟨before, -, hcovered⟩ := hf
    rw [hstep] at hc ⊢
    exact performed_closeBlock h hcovered hc
  · have hstart : Together env { first with current := [] } { second with current := [] } :=
      { ht with current_eq := rfl }
    have hp : Performed env { second with current := [] } := ⟨h.runs, h.housed⟩
    rw [step] at hc ⊢
    split
    next hk =>
      simp only [hk] at hc
      exact performed_endStatement hp hstart hc
    next hk =>
      simp only [hk] at hc
      exact performed_openBlock hp hstart hc
    next hk => exact absurd hk hbrace
    next => exact ⟨h.runs, h.housed⟩

/-- The second pass, which the first one goes along with, carries out the events of what it reads. -/
theorem performed_steps (tokens : List Token) (h : second.Performed env)
    (ht : Together env first second) (hr : second.Faithful read)
    (hu : Token.Unbroken second.current) (hf : (first.steps tokens).session.log.Clean)
    (hs : (second.steps tokens).session.log.Clean)
    (hsettled : (first.steps tokens).session.Settled env.table) :
    (second.steps tokens).Performed env := by
  induction tokens generalizing first second read with
  | nil => exact h
  | cons token rest ih =>
    have hclosed : first.session.log.isClosed = second.session.log.isClosed := by
      rw [((extends_steps first _).clean hf).isClosed_eq, ((extends_steps second _).clean hs).isClosed_eq]
    rw [steps] at hf hs hsettled ⊢
    rw [hclosed] at hf hsettled
    split
    next hstop => exact h
    next hstop =>
      rw [if_neg hstop] at hf hs hsettled
      have hk : token.kind ≠ .endOfFile := fun hk => hstop (by simp [hk])
      have hfirst := (extends_steps _ rest).clean hf
      have hsecond := (extends_steps _ rest).clean hs
      have hnext := together_step ht hfirst hsecond ((grows_steps _ rest).settled hsettled)
      exact ih (performed_step h ht hr hsecond) hnext
        (faithful_step hr ht.alike.evaluating hu hsecond) (unbroken_step hu hk) hf hs hsettled

end Reading

/-- In a program that is parsed without an error every event was allowed where it happened. The scopes
that it needs are those that the events before it have led to. -/
theorem runs_of_parse {settings : Settings} {tokens : List Token} {program : List Stmt}
    (hb : settings.maxErrors ≠ some 0) (h : parse settings tokens = (some program, [])) :
    ∃ after, Runs ⟨(Session.skim settings tokens).table, settings.access⟩ .initial
      (Stmt.eventsIn program) after := by
  obtain ⟨hskimmed, hsecond, hblocks, -, hstatements⟩ := evaluated_of_parse hb h
  obtain ⟨hfirst, -, hsettled, hsettings⟩ := Session.skimmed_of_clean hskimmed
  have hstart : (Reading.start (Session.skim settings tokens) .evaluate).Performed
      (Session.skim settings tokens).env := ⟨.nil, .outside⟩
  have hfaithful : (Reading.start (Session.skim settings tokens) .evaluate).Faithful [] :=
    ⟨[], rfl, .outside Body.holds_empty⟩
  have hperformed := Reading.performed_steps tokens hstart
    (Reading.together_start settings hsettings) hfaithful Token.unbroken_nil hfirst hsecond hsettled
  have hruns := hperformed.runs
  rw [Reading.trace, hblocks, Reading.traceOf, hstatements, Session.env, hsettings] at hruns
  exact ⟨_, hruns⟩

end MuLang
