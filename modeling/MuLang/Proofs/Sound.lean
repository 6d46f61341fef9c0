import MuLang.Proofs.Dispatch
import MuLang.Proofs.Reference
import MuLang.Proofs.Typed
import MuLang.Proofs.View

/-!
# Statements that are accepted

A statement that the second pass accepts makes sound use of names and values: every name in it is
resolved, every expression is well typed, conditions are truth values, variables take their values,
and functions return what they say.
-/
namespace MuLang

/-- A declaration takes a value of a type: it fits the declared type, which is the written one or
else follows from the value. -/
def VariableHeader.Takes (header : VariableHeader) (value : Datatype) : Prop :=
  ∃ declared, value.fits declared ∧
    (header.datatype.datatype? (Token.areNullable header.modifiers) = some declared ∨
      Step.typeToken? declared = some header.datatype ∧
        declared = value.withNullable (Token.areNullable header.modifiers || value.nullable))

/-- A function with a return type returns no value if that is `void`, and otherwise one that fits. -/
def Datatype.Returns (expected : Datatype) (value : Option Expr) : Prop :=
  if expected.kind = .void then value = none
  else ∃ typed, value = some typed ∧ typed.type.fits expected

namespace Use

variable {env : Env} {outline more : List Declaration} {site : Site} {use : Use}

/-- What a use must obey, apart from the expressions in it. -/
def Obeys (env : Env) (outline : List Declaration) (site : Site) : Use → Prop
  | .condition value => value.type = .bool
  | .initializer header value => header.Takes value.type
  | .result value => ∃ header definition, site.function = some header ∧
      .function site.module header ∈ outline ∧
      header.definition (.interpreted []) = .ok definition ∧ definition.returnType.Returns value
  | .assignment value => ∃ v operator stored, Env.assigned v operator value = .ok stored ∧
      stored.fits v.datatype
  | .call callee arguments =>
    ∃ type, env.call site.module callee (arguments.map Expr.type) = .ok type

/-- A use of names and values that is in order. -/
structure Sound (env : Env) (outline : List Declaration) (site : Site) (use : Use) : Prop where
  resolves : site.ResolvesAll env use.nodes
  obeys : use.Obeys env outline site
  typed : ∃ scopes, site.Matches scopes ∧ env.TypesAll scopes use.nodes

theorem Sound.mono (h : use.Sound env outline site) (hs : outline ⊆ more) :
    use.Sound env more site := by
  refine ⟨h.resolves, ?_, h.typed⟩
  have ho := h.obeys
  cases use with
  | result value =>
    obtain ⟨header, definition, hf, hm, hd⟩ := ho
    exact ⟨header, definition, hf, hs hm, hd⟩
  | _ => exact ho

end Use

/-- Everything in a list of uses is sound at its site. -/
def AllSound (env : Env) (outline : List Declaration) (uses : List (Site × Use)) : Prop :=
  ∀ use ∈ uses, use.2.Sound env outline use.1

theorem AllSound.nil {env : Env} {outline : List Declaration} : AllSound env outline [] :=
  fun _ h => absurd h List.not_mem_nil

theorem AllSound.cons {env : Env} {outline : List Declaration} {site : Site} {use : Use}
    {uses : List (Site × Use)} (hu : use.Sound env outline site) (h : AllSound env outline uses) :
    AllSound env outline ((site, use) :: uses) :=
  List.forall_mem_cons.2 ⟨hu, h⟩

theorem AllSound.mono {env : Env} {outline more : List Declaration} {uses : List (Site × Use)}
    (h : AllSound env outline uses) (hs : outline ⊆ more) : AllSound env more uses :=
  fun use hu => (h use hu).mono hs

theorem AllSound.append {env : Env} {outline : List Declaration} {first second : List (Site × Use)}
    (h : AllSound env outline first) (hs : AllSound env outline second) :
    AllSound env outline (first ++ second) :=
  List.forall_mem_append.2 ⟨h, hs⟩

/-- The function around a site is among the declarations of the program. -/
def Site.Declared (outline : List Declaration) (site : Site) : Prop :=
  ∀ header ∈ site.function, .function site.module header ∈ outline

theorem Site.Declared.of_eq {outline more : List Declaration} {site other : Site}
    (h : site.Declared outline) (hm : other.module = site.module)
    (hf : other.function = site.function) (hs : outline ⊆ more) : other.Declared more := by
  intro header hh
  rw [hm]
  exact hs (h header (hf ▸ hh))

/-- Some statements without blocks have been read between two points of a block. -/
structure Reads (env : Env) (outline : List Declaration) (site : Site) (before : ScopeStack)
    (stmts : List Stmt) (after : ScopeStack) : Prop where
  sound : AllSound env outline (Stmt.usesIn site stmts)
  matched : (site.afterAll stmts).Matches after
  around : after.popBlock?.map ScopeStack.unmarked = before.popBlock?.map ScopeStack.unmarked

theorem ScopeStack.around_congr {before after : ScopeStack} (h : after.unmarked = before.unmarked) :
    after.popBlock?.map unmarked = before.popBlock?.map unmarked := by
  rw [unmarked_popBlock?, h, unmarked_popBlock?]

variable {env : Env} {outline : List Declaration} {site : Site} {before after : ScopeStack}
  {s t : Session}

/-- A statement that declares nothing. -/
theorem Reads.of_unmarked {stmts : List Stmt} (hm : site.Matches before)
    (hu : after.unmarked = before.unmarked) (hsite : site.afterAll stmts = site)
    (hs : AllSound env outline (Stmt.usesIn site stmts)) :
    Reads env outline site before stmts after := by
  refine ⟨hs, ?_, ScopeStack.around_congr hu⟩
  rw [hsite]
  exact hm.congr hu

/-- No statement at all. -/
theorem Reads.none (hm : site.Matches before) : Reads env outline site before [] before :=
  .of_unmarked hm rfl rfl .nil

namespace Step

/-! ## Variables -/

theorem declareVariable_ok {identifier : Token} {v : Variable} {isGlobal : Bool} {u : Unit}
    (h : declareVariable identifier v isGlobal s = (.ok u, t)) :
    (isGlobal = true ∧ ∃ table, t = { s with table } ∧
      (s.table.HasGlobal s.scopes.currentModule identifier.text → table = s.table)) ∨
    (isGlobal = false ∧ ∃ scopes, s.scopes.addLocal v = .ok scopes ∧ t = { s with scopes }) := by
  rw [declareVariable_apply] at h
  cases isGlobal with
  | true =>
    simp only [if_true] at h
    split at h
    next hn =>
      split at h
      next table ha =>
        cases h
        refine .inl ⟨rfl, table, rfl, fun hg => ?_⟩
        rw [SymbolTable.HasGlobal, Option.isSome_iff_ne_none] at hg
        exact absurd (Option.isNone_iff_eq_none.1 hn) hg
      next => cases h
    next =>
      cases h
      exact .inl ⟨rfl, s.table, rfl, fun _ => rfl⟩
  | false =>
    simp only [Bool.false_eq_true, if_false] at h
    split at h
    next scopes ha =>
      cases h
      exact .inr ⟨rfl, scopes, ha, rfl⟩
    next => cases h

/-- The value of a declaration fits the declared type. -/
theorem takes_of_declared {form : VariableForm} {modifiers : List Token} {isGlobal : Bool}
    {value : Expr} {type : Datatype} {datatype : Token} {scopes : ScopeStack}
    (h : Declared form modifiers isGlobal s (some value) type datatype scopes t) :
    (VariableHeader.mk modifiers form.identifier datatype).Takes value.type := by
  have ht := h.type_eq
  have hd := h.datatype_eq
  refine ⟨type, h.fits value rfl, ?_⟩
  by_cases hq : form.typeKeyword.kind = .question
  · simp only [declaredType, hq, if_true] at ht hd
    split at ht
    next hi =>
      cases ht
      refine .inr ⟨hd, ?_⟩
      unfold inferredType? at hi
      split at hi
      · cases hi
      · exact (Option.some.inj hi).symm
    next => cases ht
  · simp only [declaredType, hq, if_false] at ht hd
    obtain rfl := Option.some.inj hd
    split at ht
    next hi =>
      cases ht
      exact .inl hi
    next => cases ht

/-- A point where globals may be declared lies outside functions. -/
theorem function_of_admitsGlobals (hm : site.Matches s.scopes) (hg : s.admitsGlobals = true) :
    site.function = none := by
  refine hm.outside ?_
  unfold Session.admitsGlobals at hg
  split at hg
  · exact .inr ‹_›
  · exact .inl ‹_›
  · cases hg

theorem isSome_function (hm : site.Matches s.scopes) (hf : s.scopes.inFunction) :
    site.function.isSome := by
  rwa [← hm.inFunction_eq]

variable (outline) in
/-- A declaration types its value, if it has one, and declares a global or a local. -/
theorem evaluate_variable {tokens modifiers : List Token}
    {result : Option (VariableHeader × Option Expr)} (hs : s.isSkimming = false)
    (hm : site.Matches s.scopes) (h : variableStatement tokens modifiers s = (.ok result, t)) :
    ∃ header value scopes, result = some (header, value) ∧ scopes.unmarked = s.scopes.unmarked ∧
      (∀ typed ∈ value, (Use.initializer header typed).Sound s.env outline site) ∧
      ((site.function = none ∧ ∃ table, t = { s with table, scopes }) ∨
      (site.function.isSome ∧ ∃ v extended, v.name = header.identifier.text ∧
        v.datatype.kind ≠ .void ∧ scopes.addLocal v = .ok extended ∧
        t = { s with scopes := extended })) := by
  obtain ⟨form, hform, hf, he⟩ := evaluate_variableStatement hs h
  obtain ⟨typed, type, datatype, scopes, hd, rfl⟩ := evaluateVariable_ok he
  -- Typing the value, if there is one, declares nothing.
  have hv : scopes.unmarked = s.scopes.unmarked ∧ ∀ value ∈ typed,
      site.ResolvesAll s.env value.nodes ∧ s.env.TypesAll s.scopes value.nodes := by
    cases typed with
    | none => exact ⟨congrArg _ (hd.untyped rfl), by simp⟩
    | some value =>
      cases ht : form.value with
      | none => exact absurd (hd.none_iff.1 ht) (by simp)
      | some tokens =>
        have hx := hd.typed_eq tokens ht value rfl
        obtain ⟨hr, hu⟩ := Env.resolves_of_expression hm hx
        refine ⟨hu, ?_⟩
        rintro other ⟨⟩
        exact ⟨hr, (Env.typed_of_expression hx).1⟩
  refine ⟨_, typed, scopes, rfl, hv.1, ?_, ?_⟩
  · rintro value rfl
    obtain ⟨hr, ht⟩ := hv.2 value rfl
    exact ⟨hr, takes_of_declared hd, s.scopes, hm, ht⟩
  · obtain ⟨hg, table, rfl, -⟩ | ⟨hg, extended, ha, rfl⟩ := declareVariable_ok hd.declared
    · exact .inl ⟨function_of_admitsGlobals hm hg, table, rfl⟩
    · have hk := hd.kind_ne_void (typeKeyword_ne_void hform)
      exact .inr ⟨isSome_function hm (hf hg), _, extended, rfl, hk, ha, rfl⟩

theorem reads_variable {tokens modifiers : List Token}
    {result : Option (VariableHeader × Option Expr)} (hs : s.isSkimming = false)
    (hm : site.Matches s.scopes) (h : variableStatement tokens modifiers s = (.ok result, t)) :
    Reads s.env outline site s.scopes (result.map declared).toList t.scopes := by
  obtain ⟨header, value, scopes, rfl, hu, hsound, ht⟩ := evaluate_variable outline hs hm h
  have hafter : site.afterAll [declared (header, value)] = site.declare header := by
    cases value <;> rfl
  have huses : AllSound s.env outline (Stmt.usesIn site [declared (header, value)]) := by
    rw [Stmt.usesIn_singleton]
    cases value with
    | none => exact .nil
    | some typed => exact .cons (hsound typed rfl) .nil
  obtain ⟨hf, table, rfl⟩ | ⟨hf, v, extended, hn, hk, ha, rfl⟩ := ht
  · refine .of_unmarked hm hu (hafter.trans ?_) huses
    simp [Site.declare, hf]
  · have hc : scopes.inFunction := ((hm.congr hu).inFunction_eq).trans hf
    refine ⟨huses, hafter ▸ (hm.congr hu).addLocal hf hn hk ha, ?_⟩
    dsimp only
    rw [ScopeStack.popBlock?_of_addLocal hc ha, ScopeStack.around_congr hu]

/-! ## Actions and results -/

theorem typed_one : env.TypesAll before one.nodes :=
  .cons (@Expr.Typed.literal env before .integer _ rfl (by decide +kernel)) .nil

variable (outline) in
theorem sound_of_acts {action : Action} (hm : site.Matches before)
    (h : Acts env before action after) :
    (Use.ofAction action).Sound env outline site ∧ after.unmarked = before.unmarked := by
  cases h with
  | call hx =>
    obtain ⟨hr, hu⟩ := Env.resolves_of_expression hm hx
    obtain ⟨ht, -⟩ := Env.typed_of_expression hx
    rw [Expr.nodes] at hr ht
    obtain ⟨hc, ha⟩ := List.forall_mem_cons.1 hr
    exact ⟨⟨ha, ⟨_, hc⟩, before, hm, (List.forall_mem_cons.1 ht).2⟩, hu⟩
  | assign hx ha =>
    obtain ⟨place, v, stored, haccepts⟩ := Env.accepts_of_assign ha
    have hobeys : (Use.assignment _).Obeys env outline site :=
      ⟨v, _, stored, haccepts.assigned, haccepts.fits⟩
    obtain ⟨rfl, hb⟩ | ⟨tokens, context, hx⟩ := hx
    · exact ⟨⟨.cons trivial .nil, hobeys, before, hm, typed_one⟩, hb ▸ Env.unmarked_of_assign ha⟩
    · obtain ⟨hr, hu⟩ := Env.resolves_of_expression hm hx
      obtain ⟨ht, -⟩ := Env.typed_of_expression hx
      exact ⟨⟨hr, hobeys, before, hm, ht⟩, (Env.unmarked_of_assign ha).trans hu⟩

theorem reads_action {tokens modifiers : List Token} {result : Option Action}
    (hs : s.isSkimming = false) (hm : site.Matches s.scopes)
    (h : actionStatement tokens modifiers s = (.ok result, t)) :
    Reads s.env outline site s.scopes (result.map .action).toList t.scopes := by
  obtain ⟨-, ⟨action, scopes, rfl, ha, rfl⟩ | ⟨rfl, rfl, -⟩⟩ := evaluate_actionStatement hs h
  · obtain ⟨hsound, hu⟩ := sound_of_acts outline hm ha
    refine .of_unmarked hm hu rfl ?_
    exact (Stmt.usesIn_singleton site (.action action)).symm ▸ .cons hsound .nil
  · exact .none hm

theorem reads_return {tokens modifiers : List Token} {result : Option Stmt}
    (hs : s.isSkimming = false) (hm : site.Matches s.scopes) (hd : site.Declared outline)
    (h : returnStatement tokens modifiers s = (.ok result, t)) :
    Reads s.env outline site s.scopes result.toList t.scopes := by
  obtain ⟨hf, keyword, value, scopes, rfl, rfl, hx, hu, hr, -⟩ := evaluate_returnStatement hs h
  obtain ⟨header, hh⟩ := Option.isSome_iff_exists.1 (isSome_function hm hf)
  obtain ⟨definition, hdef, htype⟩ := hm.returnType_eq header hh
  have hv : site.ResolvesAll s.env (Expr.nodesOfAll value.toList) ∧
      s.env.TypesAll s.scopes (Expr.nodesOfAll value.toList) ∧
      scopes.unmarked = s.scopes.unmarked := by
    cases value with
    | none => exact ⟨.nil, .nil, congrArg _ (hu rfl).1⟩
    | some typed =>
      obtain ⟨hr, hu⟩ := Env.resolves_of_expression hm (hx typed rfl)
      obtain ⟨ht, -⟩ := Env.typed_of_expression (hx typed rfl)
      exact ⟨.append hr .nil, .append ht .nil, hu⟩
  obtain ⟨hresolves, htyped, hscopes⟩ := hv
  refine .of_unmarked hm hscopes rfl ?_
  refine (Stmt.usesIn_singleton site (.returning keyword value)).symm ▸
    .cons ⟨hresolves, ?_, s.scopes, hm, htyped⟩ .nil
  exact ⟨header, definition, hh, hd header hh, hdef, hr definition.returnType htype⟩

/-! ## Any statement without a block -/

theorem reads_native {tokens modifiers : List Token} {result : Option Stmt}
    (hs : s.isSkimming = false) (hm : site.Matches s.scopes)
    (h : nativeStatement tokens modifiers s = (.ok result, t)) :
    Reads s.env outline site s.scopes result.toList t.scopes := by
  obtain ⟨signature, binding, -, -, rfl, rfl, -⟩ := evaluate_nativeStatement hs h
  exact .of_unmarked hm rfl rfl .nil

theorem reads_finish {tokens modifiers : List Token} {result : Option Stmt}
    (hm : site.Matches s.scopes) (h : finishStatement tokens modifiers s = (.ok result, t)) :
    Reads s.env outline site s.scopes result.toList t.scopes := by
  obtain ⟨whole, -, rfl, hr⟩ := finishStatement_ok h
  have ht : (if whole then { s with stdlib := false } else s).scopes = s.scopes := by
    split <;> rfl
  rw [ht]
  cases result with
  | none => exact .none hm
  | some stmt =>
    obtain ⟨keyword, rfl⟩ := hr stmt rfl
    exact .of_unmarked hm rfl rfl .nil

/-- Whatever a `;` ends is in order if the second pass accepts it. -/
theorem reads_closed {tokens : List Token} {result : Option Stmt} (hs : s.isSkimming = false)
    (hm : site.Matches s.scopes) (hd : site.Declared outline)
    (h : closed tokens s = (.ok result, t)) :
    Reads s.env outline site s.scopes result.toList t.scopes := by
  have hr := reader_closed tokens
  generalize closed tokens = step at h hr
  cases hr with
  | nothing =>
    obtain ⟨rfl, rfl⟩ := Fallible.pure_eq_ok.1 h
    exact .none hm
  | native => exact reads_native hs hm h
  | returning => exact reads_return hs hm hd h
  | finish => exact reads_finish hm h
  | action =>
    obtain ⟨action, ha, rfl⟩ := Fallible.map_eq_ok.1 h
    exact reads_action hs hm ha
  | declaration =>
    obtain ⟨typed, hv, rfl⟩ := Fallible.map_eq_ok.1 h
    exact reads_variable hs hm hv
  | fails hf => exact absurd h (hf _ _ _)

end Step

end MuLang
