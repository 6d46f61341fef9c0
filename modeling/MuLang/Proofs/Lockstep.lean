import MuLang.Proofs.Deferral
import MuLang.Proofs.Heads

/-!
# Both passes over one statement

Both passes read a statement at corresponding points, the first one to find declarations and the
second one to check it. What the second pass takes for declared is what the first one registers or
defers, so the second pass finds everything declared and leaves the table as it is.
-/
namespace MuLang

namespace ScopeStack

/-- The modules that the scopes belong to. -/
def modules (scopes : ScopeStack) : List ModulePath :=
  (scopes.outermost :: scopes.nested).map (·.module)

variable {scopes : ScopeStack} {p : ModulePath}

@[simp] theorem modules_bare (scopes : ScopeStack) : scopes.bare.modules = scopes.modules := by
  simp [modules, Function.comp_def]

theorem currentModule_mem_modules (scopes : ScopeStack) :
    scopes.currentModule ∈ scopes.modules := by
  rcases scopes with ⟨_ | ⟨scope, rest⟩, outermost⟩ <;>
    simp [modules, currentModule, current]

theorem mem_modules_enter {scope : Scope} :
    p ∈ (scopes.enter scope).modules ↔ p = scope.module ∨ p ∈ scopes.modules := by
  simp [modules, enter, or_left_comm]

/-- Of some scopes those that are left belong to no other modules. -/
theorem mem_modules_of_subset {nested : List Scope} (hs : nested ⊆ scopes.nested)
    (hp : p ∈ modules { scopes with nested }) : p ∈ scopes.modules := by
  simp only [modules, List.map_cons, List.mem_cons] at hp ⊢
  refine hp.imp_right fun hp => ?_
  obtain ⟨scope, hm, rfl⟩ := List.mem_map.1 hp
  exact List.mem_map_of_mem (hs hm)

theorem mem_modules_pop (hp : p ∈ scopes.pop.modules) : p ∈ scopes.modules :=
  mem_modules_of_subset (fun _ hm => List.mem_of_mem_tail hm) hp

theorem mem_modules_truncate {size : Nat} (hp : p ∈ (scopes.truncate size).modules) :
    p ∈ scopes.modules :=
  mem_modules_of_subset (List.drop_subset _ _) hp

theorem mem_modules_of_popBlock? {rest : ScopeStack} (h : scopes.popBlock? = some rest)
    (hp : p ∈ rest.modules) : p ∈ scopes.modules := by
  have hn : scopes.nested ≠ [] := by
    rintro hn
    rw [popBlock?, pop?, hn] at h
    cases h
  rw [popBlock?_of_ne_nil hn] at h
  cases h
  split at hp
  · exact mem_modules_pop (mem_modules_pop hp)
  · exact mem_modules_pop hp

theorem mem_modules_insideBlock {size : Nat} {kind : ScopeKind}
    (hp : p ∈ (scopes.insideBlock size kind).modules) : p ∈ scopes.modules := by
  unfold insideBlock at hp
  split at hp
  · obtain rfl | hp := mem_modules_enter.1 hp
    · exact scopes.currentModule_mem_modules
    · exact hp
  · exact hp

/-- Of the scopes inside a block, only those of a module belong to another module. -/
theorem mem_modules_entered {owner : Owner} (h : p ∈ (owner.entered scopes).modules) :
    p ∈ scopes.modules ∨ ∃ identifier body, owner = .statement (.module identifier body) ∧
      p = scopes.currentModule ++ [identifier.text] := by
  have here {kind : ScopeKind} {p : ModulePath} {scopes : ScopeStack} {type : Option Datatype}
      (h : p ∈ (scopes.enter ⟨kind, scopes.currentModule, [], type⟩).modules) :
      p ∈ scopes.modules := by
    obtain rfl | h := mem_modules_enter.1 h
    · exact scopes.currentModule_mem_modules
    · exact h
  unfold Owner.entered at h
  split at h
  next identifier body =>
    obtain rfl | h := mem_modules_enter.1 h
    · exact .inr ⟨identifier, body, rfl, rfl⟩
    · exact .inl h
  next => exact .inl (here h)
  next => exact .inl (here h)
  next => exact .inl (here (here h))
  next => exact .inl (here h)

theorem bare_entered (owner : Owner) (scopes : ScopeStack) :
    (owner.entered scopes).bare = owner.entered scopes.bare := by
  unfold Owner.entered
  split <;> simp [Scope.bare]

end ScopeStack

namespace Session

/-- The globals that a session has declared or deferred stand in an outline, with their modifiers.
Where the outline has their types written, those are the types that were declared. -/
structure Justified (session : Session) (outline : List Declaration) : Prop where
  declared : ∀ p name v, (session.table.module p).global? name = some v →
    ∃ header value, .global p header value ∈ outline ∧ header.identifier.text = name ∧
      (header.IsWritten → header.written? = some v.datatype) ∧ v.Registers name header.modifiers
  deferred : ∀ global ∈ session.deferred, ∃ header value,
    .global global.module header value ∈ outline ∧
      header.identifier.text = global.identifier.text ∧ ¬header.IsWritten ∧
      header.modifiers = global.modifiers

/-- The modules of all scopes and of all deferred globals are there. -/
structure Rooted (session : Session) : Prop where
  scopes : ∀ p ∈ session.scopes.modules, session.table.contains p
  deferred : ∀ global ∈ session.deferred, session.table.contains global.module

/-- Sessions at corresponding points of the two passes. -/
structure Alike (first second : Session) : Prop where
  skimming : first.isSkimming = true
  evaluating : second.isSkimming = false
  settings_eq : first.settings = second.settings
  bare_eq : first.scopes.bare = second.scopes.bare
  stdlib_eq : first.stdlib = second.stdlib

/-- From corresponding points both passes have gone on to corresponding points, over some
declarations. -/
structure Agrees (declarations : List Declaration) (s e s' e' : Session) : Prop where
  alike : s'.Alike e'
  rooted : s'.Rooted
  skeleton_eq : s'.table.skeleton = declarations.foldl Declaration.register s.table.skeleton
  justified : ∀ outline, s.Justified outline → s'.Justified (outline ++ declarations)
  env_eq : e'.env = e.env
  hasGlobal : ∀ p name, Declaration.HaveGlobal declarations p name → e.table.HasGlobal p name
  wellTyped : ∀ declaration ∈ declarations, declaration.WellTyped

variable {s e s' e' : Session}

theorem Alike.currentModule_eq (h : s.Alike e) :
    s.scopes.currentModule = e.scopes.currentModule := by
  rw [← ScopeStack.currentModule_bare, h.bare_eq, ScopeStack.currentModule_bare]

theorem Alike.currentKind_eq (h : s.Alike e) : s.scopes.currentKind = e.scopes.currentKind := by
  rw [← ScopeStack.currentKind_bare, h.bare_eq, ScopeStack.currentKind_bare]

theorem Alike.admitsGlobals_eq (h : s.Alike e) : s.admitsGlobals = e.admitsGlobals := by
  rw [admitsGlobals, h.currentKind_eq, h.stdlib_eq, admitsGlobals]

/-- Scopes of the same shape do as well. -/
theorem Rooted.of_bare {scopes : ScopeStack} (h : s.Rooted) (hb : scopes.bare = s.scopes.bare) :
    Rooted { s with scopes } := by
  refine ⟨fun p hp => h.scopes p ?_, h.deferred⟩
  rwa [← ScopeStack.modules_bare, ← hb, ScopeStack.modules_bare]

/-- More may be declared. -/
theorem Rooted.of_table {table : SymbolTable} (h : s.Rooted)
    (hc : ∀ p, s.table.contains p → table.contains p) : Rooted { s with table } :=
  ⟨fun p hp => hc p (h.scopes p hp), fun global hg => hc _ (h.deferred global hg)⟩

theorem Rooted.current (h : s.Rooted) : s.table.contains s.scopes.currentModule :=
  h.scopes _ s.scopes.currentModule_mem_modules

/-- What is justified stays so as long as no global is declared or deferred. -/
theorem Justified.congr {outline more : List Declaration} (h : s.Justified outline)
    (ht : ∀ p name, (s'.table.module p).global? name = (s.table.module p).global? name)
    (hd : s'.deferred = s.deferred) (hm : outline ⊆ more) : s'.Justified more := by
  refine ⟨fun p name v hg => ?_, fun global hg => ?_⟩
  · rw [ht] at hg
    obtain ⟨header, value, ho, hp⟩ := h.declared p name v hg
    exact ⟨header, value, hm ho, hp⟩
  · rw [hd] at hg
    obtain ⟨header, value, ho, hp⟩ := h.deferred global hg
    exact ⟨header, value, hm ho, hp⟩

theorem Justified.append {outline : List Declaration} (h : s.Justified outline)
    (declarations : List Declaration) : s.Justified (outline ++ declarations) :=
  h.congr (fun _ _ => rfl) rfl (List.subset_append_left _ _)

/-- Nothing is declared by what only the second pass looks at. -/
theorem Agrees.of_scopes {scopes : ScopeStack} (h : s.Alike e) (hr : s.Rooted)
    (hb : scopes.bare = e.scopes.bare) : Agrees [] s e s { e with scopes } where
  alike := { h with bare_eq := h.bare_eq.trans hb.symm }
  rooted := hr
  skeleton_eq := rfl
  justified _ hj := hj.append _
  env_eq := rfl
  hasGlobal _ _ hg := absurd hg (by simp [Declaration.HaveGlobal])
  wellTyped _ hd := absurd hd List.not_mem_nil

theorem Agrees.refl (h : s.Alike e) (hr : s.Rooted) : Agrees [] s e s e :=
  .of_scopes h hr rfl

end Session

/-- A function is registered whatever it runs. -/
theorem Declaration.skeleton_addFunction {table : SymbolTable} {path : ModulePath}
    {header : FunctionHeader} {body : FunctionBody} {definition : FunctionDefinition}
    (h : header.definition body = .ok definition) :
    ((table.addFunction path definition).toOption.getD table).skeleton =
      (Declaration.function path header).register table.skeleton := by
  have hd : header.definition (.interpreted []) = .ok definition.bodiless := by
    unfold FunctionHeader.definition at h ⊢
    split at h <;> cases h
    rfl
  rw [register, hd]
  simp only [SymbolTable.addFunction_skeleton]
  cases table.addFunction path definition <;> rfl

theorem Declaration.skeleton_module (table : SymbolTable) (parent : ModulePath) (name : String) :
    ((Declaration.module parent name).register table).skeleton =
      (Declaration.module parent name).register table.skeleton := by
  rw [register, register, SymbolTable.addModule_skeleton]
  cases table.addModule parent name <;> rfl

theorem Declaration.contains_module (table : SymbolTable) (parent : ModulePath) (name : String) :
    ((Declaration.module parent name).register table).contains (parent ++ [name]) := by
  rw [Step.register_module]
  split
  next hc => exact hc
  next hc =>
    have ha : table.addModule parent name =
        .ok ⟨table.modules ++ [.empty (parent ++ [name])]⟩ := by
      rw [SymbolTable.addModule, if_neg hc]
    exact (SymbolTable.contains_addModule ha).2 (.inr rfl)

theorem Session.grows_module {session : Session} {parent : ModulePath} {name : String} :
    session.Grows { session with
      table := (Declaration.module parent name).register session.table } := by
  rw [Declaration.register]
  cases ha : session.table.addModule parent name with
  | ok extended => exact .of_addModule ha
  | error conflict => exact .refl session

theorem Declaration.global?_module {table : SymbolTable} {parent p : ModulePath}
    {name other : String} :
    (((Declaration.module parent name).register table).module p).global? other =
      (table.module p).global? other := by
  rw [register]
  cases ha : table.addModule parent name with
  | ok extended => exact congrArg (·.global? other) (SymbolTable.module_addModule ha)
  | error conflict => rfl

theorem Session.grows_addFunction {session : Session} {path : ModulePath}
    {definition : FunctionDefinition} : session.Grows { session with
      table := (session.table.addFunction path definition).toOption.getD session.table } := by
  cases ha : session.table.addFunction path definition with
  | ok extended => exact .of_addFunction ha
  | error conflict => exact .refl session

theorem Declaration.global?_addFunction {table : SymbolTable} {path p : ModulePath}
    {name : String} {definition : FunctionDefinition} :
    (((table.addFunction path definition).toOption.getD table).module p).global? name =
      (table.module p).global? name := by
  cases ha : table.addFunction path definition with
  | ok extended => exact SymbolTable.global?_addFunction ha
  | error conflict => rfl

theorem Declaration.not_haveGlobal_function {module p : ModulePath} {header : FunctionHeader}
    {name : String} : ¬HaveGlobal [.function module header] p name := by
  simp [HaveGlobal]

namespace Step

open Session (Alike Rooted Agrees Settled)

variable {site : Site} {s e s' e' : Session}

/-! ## Statements without a block -/

theorem agrees_native {tokens modifiers : List Token} {skimmed result : Option Stmt}
    (ha : s.Alike e) (hr : s.Rooted) (hm : site.Matches e.scopes)
    (hs : nativeStatement tokens modifiers s = (.ok skimmed, s'))
    (he : nativeStatement tokens modifiers e = (.ok result, e')) :
    Agrees (site.declarationsIn result.toList) s e s' e' := by
  obtain ⟨signature, _, definition, hsig, -, -, hd, rfl⟩ := skim_nativeStatement ha.skimming hs
  obtain ⟨other, binding, hother, hg, rfl, rfl, -⟩ := evaluate_nativeStatement ha.evaluating he
  obtain rfl : signature = other := Except.ok.inj (hsig.symm.trans hother)
  have hf := function_of_admitsGlobals hm hg
  have hds : site.declarationsIn [.native (signature.header modifiers) binding] =
      [.function s.scopes.currentModule (signature.header modifiers)] := by
    rw [ha.currentModule_eq, hm.module_eq]
    simp [Site.declarationsIn, hf, Stmt.declarationsIn, Stmt.declarations]
  rw [Option.toList_some, hds]
  refine ⟨⟨ha.skimming, ha.evaluating, ha.settings_eq, ha.bare_eq, ha.stdlib_eq⟩,
    hr.of_table Session.grows_addFunction.contains, Declaration.skeleton_addFunction hd,
    fun outline hj => ?_, rfl, fun _ _ hg => absurd hg Declaration.not_haveGlobal_function, ?_⟩
  · exact hj.congr (fun _ _ => Declaration.global?_addFunction) rfl (List.subset_append_left _ _)
  · intro declaration hm
    obtain rfl := List.mem_singleton.1 hm
    exact Signature.takesValues_of_ofTokens hsig

theorem agrees_return {tokens modifiers : List Token} {skimmed result : Option Stmt}
    (ha : s.Alike e) (hr : s.Rooted)
    (hs : returnStatement tokens modifiers s = (.ok skimmed, s'))
    (he : returnStatement tokens modifiers e = (.ok result, e')) :
    Agrees (site.declarationsIn result.toList) s e s' e' := by
  obtain rfl := skim_returnStatement ha.skimming hs
  have hb := congrArg Frame.scopes ((steady_returnStatement tokens modifiers).frame_eq he)
  obtain ⟨-, keyword, value, scopes, rfl, rfl, -⟩ := evaluate_returnStatement ha.evaluating he
  have hds : site.declarationsIn [.returning keyword value] = [] := by
    simp [Site.declarationsIn, Stmt.declarationsIn, Stmt.declarations]
  rw [Option.toList_some, hds]
  exact .of_scopes ha hr hb

theorem agrees_finish {tokens modifiers : List Token} {skimmed result : Option Stmt}
    (ha : s.Alike e) (hr : s.Rooted)
    (hs : finishStatement tokens modifiers s = (.ok skimmed, s'))
    (he : finishStatement tokens modifiers e = (.ok result, e')) :
    Agrees (site.declarationsIn result.toList) s e s' e' := by
  obtain ⟨whole, hw, rfl, -⟩ := finishStatement_ok hs
  obtain ⟨other, ho, rfl, hstmt⟩ := finishStatement_ok he
  obtain rfl : whole = other := Except.ok.inj (hw.symm.trans ho)
  have hds : site.declarationsIn result.toList = [] := by
    cases result with
    | none => simp [Site.declarationsIn, Stmt.declarationsIn]
    | some stmt =>
      obtain ⟨keyword, rfl⟩ := hstmt stmt rfl
      simp [Site.declarationsIn, Stmt.declarationsIn, Stmt.declarations]
  rw [hds]
  have hall := Agrees.refl ha hr
  cases whole with
  | false => exact hall
  | true =>
    exact ⟨⟨ha.skimming, ha.evaluating, ha.settings_eq, ha.bare_eq, rfl⟩, ⟨hr.scopes, hr.deferred⟩,
      rfl, fun _ hj => hj.congr (fun _ _ => rfl) rfl (List.subset_append_left _ _), rfl,
      hall.hasGlobal, hall.wellTyped⟩

theorem agrees_action {tokens modifiers : List Token} {skimmed result : Option Action}
    (ha : s.Alike e) (hr : s.Rooted)
    (hs : actionStatement tokens modifiers s = (.ok skimmed, s'))
    (he : actionStatement tokens modifiers e = (.ok result, e')) :
    Agrees (site.declarationsIn (result.map Stmt.action).toList) s e s' e' := by
  obtain rfl := skim_actionStatement ha.skimming hs
  have hb := congrArg Frame.scopes ((steady_actionStatement tokens modifiers).frame_eq he)
  have hds : site.declarationsIn (result.map Stmt.action).toList = [] := by
    cases result <;> simp [Site.declarationsIn, Stmt.declarationsIn, Stmt.declarations]
  rw [hds]
  obtain ⟨-, ⟨action, scopes, rfl, -, rfl⟩ | ⟨rfl, rfl, -⟩⟩ :=
    evaluate_actionStatement ha.evaluating he
  · exact .of_scopes ha hr hb
  · exact .refl ha hr

/-- The second pass types the value of a global, so the first one has registered it, or the rounds
have. -/
theorem hasGlobal_of_declared {form : VariableForm} {modifiers : List Token} {typed : Option Expr}
    {type : Datatype} {datatype : Token} {scopes : ScopeStack} (ha : s.Alike e) (hr : s.Rooted)
    (hf : e.scopes.inFunction = false) (hsettled : s'.Settled e.table)
    (hk : form.typeKeyword.kind = .question ∧ form.value.isSome ∨ form.typeKeyword.kind.isTypeName)
    (hs : skimGlobal form.typeKeyword form.identifier modifiers form.value s = (.ok (), s'))
    (hd : Declared form modifiers true e typed type datatype scopes e') :
    e.table.HasGlobal e.scopes.currentModule form.identifier.text := by
  rw [← ha.currentModule_eq]
  obtain ⟨_, -, ⟨v, hv, -, rfl⟩ | ⟨tokens, hq, hvalue, rfl⟩⟩ := skimGlobal_ok hk hs
  · refine hsettled.hasGlobal _ _ ?_
    rw [← hv.name_eq]
    exact Session.hasGlobal_register hr.current
  · refine (hsettled.deferred _ (List.mem_append_right _ (List.mem_singleton_self _))
      (hsettled.contains _ hr.current)).resolve_right (not_not_intro ?_)
    obtain ⟨value, rfl⟩ : ∃ value, typed = some value := by
      cases typed with
      | none =>
        rw [hd.none_iff.2 rfl] at hvalue
        cases hvalue
      | some value => exact ⟨value, rfl⟩
    have ht := hd.type_eq
    simp only [declaredType, hq, if_true] at ht
    split at ht
    next found hi =>
      refine ⟨form.mark, e.scopes, scopes, value, found, hf, ha.currentModule_eq.symm, ?_, hi⟩
      have hx := hd.typed_eq tokens hvalue value rfl
      rwa [Session.env, ← ha.settings_eq] at hx
    next => cases ht

/-- A global that the first pass has registered or deferred is declared for both. -/
theorem agrees_global {form : VariableForm} {modifiers : List Token} {typed : Option Expr}
    {type : Datatype} {datatype : Token} {between scopes : ScopeStack} (ha : s.Alike e)
    (hr : s.Rooted) (hb : scopes.bare = e.scopes.bare)
    (hk : form.typeKeyword.kind = .question ∧ form.value.isSome ∨ form.typeKeyword.kind.isTypeName)
    (hv : form.typeKeyword.kind ≠ .typeName .void)
    (hs : skimGlobal form.typeKeyword form.identifier modifiers form.value s = (.ok (), s'))
    (hd : Declared form modifiers true e typed type datatype between e')
    (hg : e.table.HasGlobal e.scopes.currentModule form.identifier.text) :
    Agrees [.global e.scopes.currentModule ⟨modifiers, form.identifier, datatype⟩
      (typed.map Expr.type)] s e s' { e with scopes } := by
  have hdeclared : ∀ p name, Declaration.HaveGlobal [.global e.scopes.currentModule
      ⟨modifiers, form.identifier, datatype⟩ (typed.map Expr.type)] p name →
      e.table.HasGlobal p name := by
    rintro p name ⟨header, value, hm, rfl⟩
    cases List.mem_singleton.1 hm
    exact hg
  have htyped : ∀ declaration ∈ [Declaration.global e.scopes.currentModule
      ⟨modifiers, form.identifier, datatype⟩ (typed.map Expr.type)], declaration.WellTyped := by
    intro declaration hm
    obtain rfl := List.mem_singleton.1 hm
    exact ⟨hd.datatype_ne_void hv, hd.decides hv⟩
  rw [← ha.currentModule_eq] at hdeclared htyped ⊢
  obtain ⟨marked, hu, ⟨v, hn, ht, rfl⟩ | ⟨tokens, hq, -, rfl⟩⟩ := skimGlobal_ok hk hs
  · have hshape := ScopeStack.bare_eq_of_unmarked_eq hu
    refine ⟨⟨ha.skimming, ha.evaluating, ha.settings_eq, ?_, ha.stdlib_eq⟩,
      (hr.of_table (Session.grows_register hn.initialized).contains).of_bare hshape, Session.skeleton_register,
      fun outline hj => ?_, rfl, hdeclared, htyped⟩
    · exact hshape.trans (ha.bare_eq.trans hb.symm)
    · refine ⟨fun p name found hg => ?_, (hj.append _).deferred⟩
      obtain hg | ⟨rfl, rfl, rfl⟩ := Session.global?_of_register hg
      · exact (hj.append _).declared p name found hg
      · refine ⟨_, _, List.mem_append_right _ (List.mem_singleton_self _), hn.name_eq.symm,
          fun hw => ?_, hn.name_eq.symm ▸ hn⟩
        obtain ⟨hq, hword, -⟩ := written_of_datatype hd.type_eq hd.datatype_eq hw
        rw [VariableHeader.written?, hword]
        exact ht hq
  · have hshape := ScopeStack.bare_eq_of_unmarked_eq hu
    refine ⟨⟨ha.skimming, ha.evaluating, ha.settings_eq, ?_, ha.stdlib_eq⟩,
      ⟨(hr.of_bare hshape).scopes, ?_⟩, rfl, fun outline hj => ?_, rfl, hdeclared, htyped⟩
    · exact hshape.trans (ha.bare_eq.trans hb.symm)
    · intro global hm
      obtain hm | hm := List.mem_append.1 hm
      · exact hr.deferred global hm
      · rw [List.mem_singleton.1 hm]
        exact hr.current
    · refine ⟨(hj.append _).declared, fun global hm => ?_⟩
      obtain hm | hm := List.mem_append.1 hm
      · exact (hj.append _).deferred global hm
      · rw [List.mem_singleton.1 hm]
        refine ⟨_, _, List.mem_append_right _ (List.mem_singleton_self _), rfl, fun hw => ?_, rfl⟩
        exact (written_of_datatype hd.type_eq hd.datatype_eq hw).1 hq

theorem agrees_variable {first : Token} {rest modifiers : List Token}
    {skimmed result : Option (VariableHeader × Option Expr)} (ha : s.Alike e) (hr : s.Rooted)
    (hm : site.Matches e.scopes) (hsettled : s'.Settled e.table)
    (hk : first.kind = .question ∨ first.kind.isTypeName)
    (hs : variableStatement (first :: rest) modifiers s = (.ok skimmed, s'))
    (he : variableStatement (first :: rest) modifiers e = (.ok result, e')) :
    Agrees (site.declarationsIn (result.map declared).toList) s e s' e' := by
  have hb := congrArg Frame.scopes ((steady_variableStatement _ _).frame_eq he)
  obtain ⟨form, hform, hskim⟩ := skim_variableStatement ha.skimming hs
  obtain ⟨other, hother, hlocal, hevaluate⟩ := evaluate_variableStatement ha.evaluating he
  obtain rfl : form = other := Except.ok.inj (hform.symm.trans hother)
  obtain ⟨typed, type, datatype, scopes, hd, rfl⟩ := evaluateVariable_ok hevaluate
  obtain ⟨rfl, hvoid, hsome⟩ := typeKeyword_of_ofTokens hform
  have hdeclares : site.declarationsIn
      [declared (⟨modifiers, form.identifier, datatype⟩, typed)] =
        if site.function.isSome then [] else [.global site.module
          ⟨modifiers, form.identifier, datatype⟩ (typed.map Expr.type)] := by
    cases typed <;> simp [Site.declarationsIn, Stmt.declarationsIn, Stmt.declarations, declared]
  rw [Option.map_some, Option.toList_some, hdeclares]
  obtain ⟨hg, hskim⟩ | ⟨hg, -, rfl⟩ := hskim
  · rw [ha.admitsGlobals_eq] at hg
    rw [hg] at hd
    have hf := function_of_admitsGlobals hm hg
    have hk := hk.imp_left fun hq => And.intro hq (hsome hq)
    have hout : e.scopes.inFunction = false := hm.inFunction_eq.trans (by rw [hf]; rfl)
    have hhas := hasGlobal_of_declared ha hr hout hsettled hk hskim hd
    rw [hf, ← hm.module_eq]
    obtain ⟨-, table, rfl, htable⟩ | ⟨hg, -⟩ := declareVariable_ok hd.declared
    · have hbare : scopes.bare = e.scopes.bare := hb
      obtain rfl : table = e.table := htable (by
        rwa [← ScopeStack.currentModule_bare, hbare, ScopeStack.currentModule_bare])
      exact agrees_global ha hr hbare hk hvoid hskim hd hhas
    · cases hg
  · rw [ha.admitsGlobals_eq] at hg
    rw [hg] at hd
    rw [isSome_function hm (hlocal hg)]
    obtain ⟨hg, -⟩ | ⟨-, extended, -, rfl⟩ := declareVariable_ok hd.declared
    · cases hg
    · exact .of_scopes ha hr hb

/-- Both passes agree on what a `;` ends. -/
theorem agrees_closed {tokens : List Token} {skimmed result : Option Stmt} (ha : s.Alike e)
    (hr : s.Rooted) (hm : site.Matches e.scopes) (hsettled : s'.Settled e.table)
    (hs : closed tokens s = (.ok skimmed, s')) (he : closed tokens e = (.ok result, e')) :
    Agrees (site.declarationsIn result.toList) s e s' e' := by
  have hc := reader_closed tokens
  generalize closed tokens = step at hs he hc
  cases hc with
  | nothing =>
    obtain ⟨-, rfl⟩ := Fallible.pure_eq_ok.1 hs
    obtain ⟨rfl, rfl⟩ := Fallible.pure_eq_ok.1 he
    have hds : site.declarationsIn [] = [] := by simp [Site.declarationsIn, Stmt.declarationsIn]
    rw [Option.toList_none, hds]
    exact .refl ha hr
  | native => exact agrees_native ha hr hm hs he
  | returning => exact agrees_return ha hr hs he
  | finish => exact agrees_finish ha hr hs he
  | action =>
    obtain ⟨found, hfound, -⟩ := Fallible.map_eq_ok.1 hs
    obtain ⟨action, haction, rfl⟩ := Fallible.map_eq_ok.1 he
    exact agrees_action ha hr hfound haction
  | declaration first rest modifiers hk =>
    obtain ⟨found, hfound, -⟩ := Fallible.map_eq_ok.1 hs
    obtain ⟨typed, htyped, rfl⟩ := Fallible.map_eq_ok.1 he
    exact agrees_variable ha hr hm hsettled hk hfound htyped
  | fails hf => exact absurd hs (hf _ _ _)

/-! ## Heads of blocks -/

/-- Inside a block nothing is declared by control flow. -/
theorem agrees_control {owner : Owner} {scopes : ScopeStack} (ha : s.Alike e) (hr : s.Rooted)
    (hf : site.function.isSome) (hopened : owner.Opened site)
    (hb : scopes.bare = (owner.entered e.scopes).bare) :
    Agrees (owner.declarations site) s e { s with scopes := owner.entered s.scopes }
      { e with scopes } := by
  have hds : owner.declarations site = [] := by
    cases owner <;> simp [Owner.declarations, Site.declarationsIn, hf]
  have hbare : (owner.entered s.scopes).bare = scopes.bare := by
    rw [hb, ScopeStack.bare_entered, ha.bare_eq, ← ScopeStack.bare_entered]
  rw [hds]
  refine ⟨⟨ha.skimming, ha.evaluating, ha.settings_eq, hbare, ha.stdlib_eq⟩,
    ⟨fun p hp => ?_, hr.deferred⟩, rfl,
    fun _ hj => hj.congr (fun _ _ => rfl) rfl (List.subset_append_left _ _), rfl,
    by simp [Declaration.HaveGlobal], by simp⟩
  obtain hp | ⟨identifier, body, rfl, -⟩ := ScopeStack.mem_modules_entered hp
  · exact hr.scopes p hp
  · cases hopened with
    | module hn =>
      rw [hn] at hf
      cases hf

theorem agrees_module {tokens modifiers : List Token} {skimmed result : Option Stmt}
    (ha : s.Alike e) (hr : s.Rooted) (hm : site.Matches e.scopes) (hsettled : s'.Settled e.table)
    (hs : moduleStatement tokens modifiers s = (.ok skimmed, s'))
    (he : moduleStatement tokens modifiers e = (.ok result, e')) :
    ∃ identifier, result = some (.module identifier []) ∧
      Agrees (Owner.declarations site (.statement (.module identifier []))) s e s' e' := by
  obtain ⟨identifier, hi, -, -, rfl⟩ := moduleStatement_ok hs
  obtain ⟨other, ho, hk, hresult, rfl⟩ := moduleStatement_ok he
  obtain rfl : identifier = other := Except.ok.inj (hi.symm.trans ho)
  rw [ha.evaluating] at hresult
  refine ⟨identifier, hresult, ?_⟩
  have hf : site.function = none := hm.outside hk
  have hds : Owner.declarations site (.statement (.module identifier [])) =
      [.module s.scopes.currentModule identifier.text] := by
    simp [Owner.declarations, Site.declarationsIn, hf, Stmt.declarationsIn, Stmt.declarations,
      ha.currentModule_eq, hm.module_eq]
  have hc := Declaration.contains_module s.table s.scopes.currentModule identifier.text
  have ht : (Declaration.module s.scopes.currentModule identifier.text).register e.table =
      e.table := by
    rw [register_module, if_pos (hsettled.contains _ hc)]
  rw [hds, ← ha.currentModule_eq, ht]
  refine ⟨⟨ha.skimming, ha.evaluating, ha.settings_eq, ?_, ha.stdlib_eq⟩, ⟨fun p hp => ?_, ?_⟩,
    Declaration.skeleton_module _ _ _, fun outline hj => ?_, rfl,
    by simp [Declaration.HaveGlobal], by simp [Declaration.WellTyped]⟩
  · dsimp only
    rw [ScopeStack.bare_pushIn, ScopeStack.bare_pushIn, ha.bare_eq]
  · obtain rfl | hp := ScopeStack.mem_modules_enter.1 hp
    · exact hc
    · exact Session.grows_module.contains _ (hr.scopes p hp)
  · exact fun global hg => Session.grows_module.contains _ (hr.deferred global hg)
  · exact hj.congr (fun _ _ => Declaration.global?_module) rfl (List.subset_append_left _ _)

theorem agrees_function {tokens modifiers : List Token} {skimmed result : Option Stmt}
    (ha : s.Alike e) (hr : s.Rooted) (hm : site.Matches e.scopes)
    (hs : functionStatement tokens modifiers s = (.ok skimmed, s'))
    (he : functionStatement tokens modifiers e = (.ok result, e')) :
    ∃ header, result = some (.function header []) ∧
      Agrees (Owner.declarations site (.statement (.function header []))) s e s' e' := by
  obtain ⟨signature, definition, hsig, -, hd, rfl⟩ := skim_functionStatement ha.skimming hs
  obtain ⟨other, found, hother, hg, hfound, rfl, hp⟩ := evaluate_functionStatement ha.evaluating he
  obtain rfl : signature = other := Except.ok.inj (hsig.symm.trans hother)
  obtain rfl : definition = found := Except.ok.inj (hd.symm.trans hfound)
  refine ⟨_, rfl, ?_⟩
  have hf := function_of_admitsGlobals hm hg
  have hds : Owner.declarations site (.statement (.function (signature.header modifiers) [])) =
      [.function s.scopes.currentModule (signature.header modifiers)] := by
    simp [Owner.declarations, Site.declarationsIn, hf, Stmt.declarationsIn, Stmt.declarations,
      ha.currentModule_eq, hm.module_eq]
  obtain ⟨scopes, rfl, hb, -, -⟩ := declareParameters_ok
    (by simp [ScopeStack.pushFunction, ScopeStack.inFunction_enter]) hp
  rw [hds]
  refine ⟨⟨ha.skimming, ha.evaluating, ha.settings_eq, ?_, ha.stdlib_eq⟩, ⟨fun p hp => ?_, ?_⟩,
    Declaration.skeleton_addFunction hd, fun outline hj => ?_, rfl,
    fun _ _ hg => absurd hg Declaration.not_haveGlobal_function, ?_⟩
  · refine Eq.trans ?_ hb.symm
    dsimp only
    rw [ScopeStack.bare_pushFunction, ScopeStack.bare_pushFunction, ha.bare_eq]
  · obtain rfl | hp := ScopeStack.mem_modules_enter.1 hp
    · exact Session.grows_addFunction.contains _ hr.current
    · exact Session.grows_addFunction.contains _ (hr.scopes p hp)
  · exact fun global hg => Session.grows_addFunction.contains _ (hr.deferred global hg)
  · exact hj.congr (fun _ _ => Declaration.global?_addFunction) rfl (List.subset_append_left _ _)
  · intro declaration hm
    obtain rfl := List.mem_singleton.1 hm
    exact Signature.takesValues_of_ofTokens hsig

/-- The heads of control flow are read alike. -/
theorem agrees_loop {tokens modifiers : List Token} {skimmed result : Option Stmt}
    (ha : s.Alike e) (hr : s.Rooted) (hm : site.Matches e.scopes) (hc : s'.log.Clean)
    (hs : forStatement tokens modifiers s = (.ok skimmed, s'))
    (he : forStatement tokens modifiers e = (.ok result, e')) :
    ∃ stmt, result = some stmt ∧ Agrees (Owner.declarations site (.statement stmt)) s e s' e' := by
  obtain ⟨keyword, header, value, condition, action, rfl, ht, -, hstarts⟩ :=
    starts_for [] ha.evaluating hm he
  obtain ⟨hi, word, init, test, step, hs⟩ := forStatement_ok hs
  have hf : site.function.isSome := isSome_function hm (forStatement_ok he).1
  obtain rfl := skim_loopStatement (s := { s with scopes := s.scopes.push .loopHeader })
    ha.skimming rfl hc hs
  rw [ht]
  exact ⟨_, rfl, agrees_control ha hr hf hstarts.opened hstarts.entered⟩

theorem agrees_head {kind : ScopeKind} {step : Step (Option Stmt)} {skimmed result : Option Stmt}
    (ha : s.Alike e) (hr : s.Rooted) (hm : site.Matches e.scopes)
    (hk : e.scopes.kinds.head? ≠ some .loopHeader) (hsettled : s'.Settled e.table)
    (hc : s'.log.Clean) (hread : HeadReader kind step) (hs : step s = (.ok skimmed, s'))
    (he : step e = (.ok result, e')) :
    ∃ stmt, result = some stmt ∧ Agrees (Owner.declarations site (.statement stmt)) s e s' e' := by
  cases hread with
  | module =>
    obtain ⟨identifier, hresult, hagrees⟩ := agrees_module ha hr hm hsettled hs he
    exact ⟨_, hresult, hagrees⟩
  | function =>
    obtain ⟨header, hresult, hagrees⟩ := agrees_function ha hr hm hs he
    exact ⟨_, hresult, hagrees⟩
  | ifElse =>
    obtain ⟨found, hfound, -⟩ := Fallible.map_eq_ok.1 hs
    obtain ⟨head, hhead, rfl⟩ := Fallible.map_eq_ok.1 he
    have hf := isSome_function hm (evaluate_ifStatement ha.evaluating hhead).1
    obtain ⟨keyword, condition, rfl, ht, -, hstarts, -⟩ :=
      starts_if [] ha.evaluating hm hk hhead
    rw [skim_ifStatement ha.skimming hfound, ht]
    exact ⟨_, rfl, agrees_control ha hr hf hstarts.opened hstarts.entered⟩
  | whileLoop =>
    have hf := isSome_function hm (evaluate_whileStatement ha.evaluating he).1
    obtain ⟨keyword, condition, rfl, ht, -, hstarts⟩ :=
      starts_while [] ha.evaluating hm hk he
    rw [skim_whileStatement ha.skimming hs, ht]
    exact ⟨_, rfl, agrees_control ha hr hf hstarts.opened hstarts.entered⟩
  | forLoop => exact agrees_loop ha hr hm hc hs he
  | fails hf => exact absurd hs (hf _ _ _)

end Step

/-- The session inside a block, whose head was read where there were some scopes. -/
def Session.inside (session : Session) (before : ScopeStack) (kind : ScopeKind) : Session :=
  { session with scopes := session.scopes.insideBlock before.size kind }

/-- Where no scope is missing, none is added to scopes of the same shape. -/
theorem ScopeStack.insideBlock_congr {scopes other : ScopeStack} {size : Nat} {kind : ScopeKind}
    (hb : scopes.bare = other.bare) (h : other.insideBlock size kind = other) :
    scopes.insideBlock size kind = scopes := by
  have hc : ¬(other.size = size ∨ other.currentKind ≠ kind) := fun hc => by
    rw [insideBlock, if_pos hc] at h
    have hs := congrArg ScopeStack.size h
    rw [push, size_enter] at hs
    omega
  rw [insideBlock, if_neg]
  rwa [← size_bare, ← currentKind_bare, hb, size_bare, currentKind_bare]

namespace Step

open Session (Alike Rooted Agrees Settled)

variable {site : Site} {s e s' e' : Session}

theorem agrees_else {chain follows : Chain} {tokens modifiers : List Token}
    {skimmed result : Option Owner} (ha : s.Alike e) (hr : s.Rooted) (hm : site.Matches e.scopes)
    (hk : e.scopes.kinds.head? ≠ some .loopHeader) (hf : follows ≠ .closed → site.function.isSome)
    (hs : elseOwner chain tokens modifiers s = (.ok skimmed, s'))
    (he : elseOwner follows tokens modifiers e = (.ok result, e')) :
    ∃ owner, result = some owner ∧ Agrees (owner.declarations site) s e
      (s'.inside s.scopes .ifBlock) (e'.inside e.scopes .ifBlock) := by
  obtain ⟨-, next, hn, hs⟩ := elseOwner_ok hs
  obtain ⟨hc, other, ho, he⟩ := elseOwner_ok he
  obtain rfl : next = other := Except.ok.inj (hn.symm.trans ho)
  obtain ⟨hkind, rfl, -⟩ | ⟨hkind, found, hfound, -⟩ := hs
  · obtain ⟨-, rfl, rfl⟩ | ⟨hother, -⟩ := he
    · refine ⟨_, rfl, ?_⟩
      rw [Session.inside, Session.inside, ScopeStack.insideBlock, ScopeStack.insideBlock,
        if_pos (.inl rfl), if_pos (.inl rfl)]
      exact agrees_control ha hr (hf hc) (.otherwise (hf hc)) rfl
    · rw [hkind] at hother
      cases hother
  · obtain ⟨hother, -⟩ | ⟨-, head, hhead, rfl⟩ := he
    · rw [hkind] at hother
      cases hother
    · obtain ⟨keyword, condition, rfl, ht, hno, -, hstarts⟩ :=
        starts_if [] ha.evaluating hm hk hhead
      refine ⟨_, rfl, ?_⟩
      have hagrees := agrees_control ha hr (hf hc) hstarts.opened hstarts.entered
      rw [skim_ifStatement ha.skimming hfound, Session.inside, Session.inside, hno, ht]
      rw [ScopeStack.insideBlock_of_push rfl]
      exact hagrees

/-- Both passes agree on what an opening brace ends. -/
theorem agrees_owner {chain follows : Chain} {tokens : List Token} {skimmed result : Option Owner}
    (ha : s.Alike e) (hr : s.Rooted) (hm : site.Matches e.scopes)
    (hk : e.scopes.kinds.head? ≠ some .loopHeader) (hf : follows ≠ .closed → site.function.isSome)
    (hsettled : s'.Settled e.table) (hc : s'.log.Clean)
    (hs : owner chain tokens s = (.ok skimmed, s'))
    (he : owner follows tokens e = (.ok result, e')) :
    ∃ owner, result = some owner ∧ Agrees (owner.declarations site) s e
      (s'.inside s.scopes ((Token.block? tokens).getD .ifBlock))
      (e'.inside e.scopes ((Token.block? tokens).getD .ifBlock)) := by
  have hr' := ownerReader_owner tokens
  change (fun chain => owner chain tokens) chain s = _ at hs
  change (fun chain => owner chain tokens) follows e = _ at he
  generalize (fun chain => owner chain tokens) = step, (Token.block? tokens).getD .ifBlock = kind
    at hs he hr'
  cases hr' with
  | branch => exact agrees_else ha hr hm hk hf hs he
  | statement hread =>
    obtain ⟨found, hfound, -⟩ := Fallible.map_eq_ok.1 hs
    obtain ⟨read, hhead, rfl⟩ := Fallible.map_eq_ok.1 he
    obtain ⟨stmt, rfl, hagrees⟩ := agrees_head ha hr hm hk hsettled hc hread hfound hhead
    obtain ⟨_, -, hno, -⟩ := starts_statement [] ha.evaluating hm hk hread hhead
    have hsize : s.scopes.size = e.scopes.size := by
      rw [← ScopeStack.size_bare, ha.bare_eq, ScopeStack.size_bare]
    refine ⟨_, rfl, ?_⟩
    rw [Session.inside, Session.inside, hno,
      ScopeStack.insideBlock_congr hagrees.alike.bare_eq (hsize ▸ hno)]
    exact hagrees
  | fails hfails => exact absurd hs (hfails _ _ _)

end Step

end MuLang
