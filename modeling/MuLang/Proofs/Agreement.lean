import MuLang.Proofs.Passes
import MuLang.Proofs.Together

/-!
# Programs without errors

The statements of a program without errors agree with its symbols. Names and values were checked
against the declarations that the first pass found, and the symbols are defined anew from the
finished statements; both hold the same modules, the same functions and the same globals. The types
of the globals alone may differ, where they follow from values.
-/
namespace MuLang

namespace Reading

variable {settings : Settings} {tokens : List Token}

/-- Before the first token both passes know nothing. -/
theorem together_start (settings : Settings) {skimmed : Session}
    (hs : skimmed.settings = settings) :
    Together skimmed.env (.start (.initial settings) .skim) (.start skimmed .evaluate) := by
  have hview : (Reading.start skimmed .evaluate).view = {} := View.extend_nil _
  refine ⟨rfl, ⟨rfl, rfl, hs.symm, rfl, congrArg Settings.stdlib hs.symm⟩, ⟨?_, ?_⟩, rfl,
    balanced_start _ _, .outside Site.matches_initial, fun hc => absurd rfl hc, ?_, ?_, ?_, ?_, ?_, ?_⟩
  · intro p hp
    obtain rfl : p = [] := by simpa [start, ScopeStack.modules, ScopeStack.initial] using hp
    rfl
  · exact fun _ hg => absurd hg List.not_mem_nil
  · rw [hview]
    simp [Site.Declared, Site.root]
  · rw [hview]
    exact .nil
  · rw [hview]
    rfl
  · refine ⟨fun p name v hg => ?_, fun _ hd => absurd hd List.not_mem_nil⟩
    exact absurd (Option.isSome_of_eq_some hg) SymbolTable.not_hasGlobal_empty
  · rw [hview]
    simp [Declaration.HaveGlobal]
  · rw [hview]
    exact fun _ hd => absurd hd List.not_mem_nil

/-- After a pass without a report no scope is left open. -/
theorem inFunction_of_finished {reading : Reading} (hb : reading.Balanced)
    (hn : reading.blocks = []) : reading.session.scopes.inFunction = false := by
  rw [Balanced, hn] at hb
  have hk : reading.session.scopes.nested = [] := by
    generalize hk : reading.session.scopes.kinds = kinds at hb
    cases hb
    exact List.map_eq_nil_iff.1 hk
  rw [ScopeStack.inFunction, hk]
  rfl

end Reading

/-! ## What a parse has found -/

/-- What the passes have found out about the statements of a program. -/
structure Parsed (settings : Settings) (table : SymbolTable) (program : List Stmt) : Prop where
  sound : AllSound ⟨table, settings.access⟩ (Stmt.declarationsIn [] program)
    (Stmt.usesIn .root program)
  skeleton_eq : table.skeleton =
    (Stmt.declarationsIn [] program).foldl Declaration.register SymbolTable.empty.skeleton
  declared : ∀ p name v, (table.module p).global? name = some v →
    ∃ header value, .global p header value ∈ Stmt.declarationsIn [] program ∧
      header.identifier.text = name ∧ (header.IsWritten → header.written? = some v.datatype) ∧
      v.Registers name header.modifiers
  hasGlobal : ∀ p name, Declaration.HaveGlobal (Stmt.declarationsIn [] program) p name →
    table.HasGlobal p name
  wellTyped : ∀ declaration ∈ Stmt.declarationsIn [] program, declaration.WellTyped

/-- If the first pass and the rounds after it have reported nothing, the pass has ended with nothing
left open, and the rounds go on from there. -/
theorem Session.skim_of_clean {settings : Settings} {tokens : List Token}
    (h : (skim settings tokens).log.Clean) :
    let first := (Reading.start (.initial settings) .skim).steps tokens
    skim settings tokens =
        { first.session with deferred := [] }.resolveDeferred first.session.deferred ∧
      first.blocks = [] ∧ first.current = [] ∧ first.session.log.Clean := by
  let first := (Reading.start (.initial settings) .skim).steps tokens
  have hskim : skim settings tokens =
      { (first.finish tokens).session with deferred := [] }.resolveDeferred
        (first.finish tokens).session.deferred := rfl
  have hfirst : (first.finish tokens).session.log.Clean := by rwa [hskim, log_resolveDeferred] at h
  obtain ⟨hfinish, hblocks, hcurrent⟩ := Reading.finish_of_clean hfirst
  rw [hfinish] at hskim hfirst
  exact ⟨hskim, hblocks, hcurrent, hfirst⟩

/-- If the first pass and the rounds after it have reported nothing, the pass has ended with all
blocks closed, and what it has found is settled. -/
theorem Session.skimmed_of_clean {settings : Settings} {tokens : List Token}
    (h : (skim settings tokens).log.Clean) :
    let first := (Reading.start (.initial settings) .skim).steps tokens
    first.session.log.Clean ∧ Retried first.session.deferred { first.session with deferred := [] }
      (skim settings tokens) ∧ first.session.Settled (skim settings tokens).table ∧
      (skim settings tokens).settings = settings := by
  let first := (Reading.start (.initial settings) .skim).steps tokens
  obtain ⟨hskim, hclosed, -, hfirst⟩ := skim_of_clean h
  have hout := Reading.inFunction_of_finished
    (Reading.balanced_steps _ (Reading.balanced_start _ _) tokens) hclosed
  obtain ⟨hretried, -⟩ := resolveDeferred_spec { first.session with deferred := [] }
    first.session.deferred (ScopeStack.vacant_of_outside hout)
  have hsettled := settled_resolveDeferred first.session (ScopeStack.vacant_of_outside hout)
  rw [← hskim] at hretried hsettled
  exact ⟨hfirst, hretried, hsettled,
    hretried.settings_eq.trans (Reading.grows_steps _ tokens).settings_eq⟩

theorem parsed_of_parse {settings : Settings} {tokens : List Token} {program : List Stmt}
    (hb : settings.maxErrors ≠ some 0) (h : parse settings tokens = (some program, [])) :
    Parsed settings (Session.skim settings tokens).table program := by
  let first := (Reading.start (.initial settings) .skim).steps tokens
  let second := (Reading.start (Session.skim settings tokens) .evaluate).steps tokens
  -- Neither pass has reported anything, so each has ended with all blocks closed.
  obtain ⟨hskimmed, hsecond, hblocks, -, hstatements⟩ := evaluated_of_parse hb h
  obtain ⟨hfirst, hretried, hsettled, hsettings⟩ := Session.skimmed_of_clean hskimmed
  have htogether := Reading.together_steps tokens (Reading.together_start settings hsettings)
    hfirst hsecond hsettled
  have hview : second.view = View.extend {} program := by
    rw [Reading.view, hblocks, hstatements]
    rfl
  have huses : second.view.uses = Stmt.usesIn .root program := congrArg View.uses hview
  have houtline : second.view.outline = Stmt.declarationsIn [] program :=
    congrArg View.outline hview
  refine ⟨?_, ?_, fun p name v hg => ?_, ?_, ?_⟩
  · have hsound := htogether.sound
    rwa [huses, houtline, Session.env, hsettings] at hsound
  · rw [← houtline, ← htogether.skeleton_eq]
    exact hretried.skeleton_eq
  · rw [← houtline]
    obtain hg | ⟨global, hd, rfl, hv, rfl⟩ := hretried.global? p name v hg
    · exact htogether.justified.declared p name v hg
    · obtain ⟨header, value, hm, hn, hw, hmodifiers⟩ := htogether.justified.deferred global hd
      exact ⟨header, value, hm, hn, fun hwritten => absurd hwritten hw, hmodifiers ▸ hv⟩
  · rw [← houtline]
    exact htogether.hasGlobal
  · rw [← houtline]
    exact htogether.wellTyped

/-! ## The symbols -/

theorem SymbolTable.Distinct.congr {table other : SymbolTable} (h : other.Distinct)
    (hs : table.skeleton = other.skeleton) : table.Distinct := by
  intro p name
  have hd := h p name
  have ht (table : SymbolTable) : ((table.module p).definitions name).map (·.parameterTypes) =
      ((table.skeleton.module p).definitions name).map (·.parameterTypes) := by
    rw [SymbolTable.module_skeleton, Module.definitions_skeleton, List.map_map]
    rfl
  rwa [ht table, hs, ← ht other]

/-- A program without errors, whose statements were checked against one table and define another
one. -/
structure Analyzed (settings : Settings) (table : SymbolTable) (analysis : Analysis) : Prop where
  parsed : Parsed settings table analysis.program
  declares : DeclaresAll (Stmt.declarationsIn [] analysis.program) .empty analysis.symbols

namespace Analyzed

variable {settings : Settings} {table : SymbolTable} {analysis : Analysis}

theorem skeleton_eq (h : Analyzed settings table analysis) :
    table.skeleton = analysis.symbols.skeleton :=
  h.parsed.skeleton_eq.trans (h.declares.skeleton_eq h.parsed.wellTyped).symm

theorem distinct (h : Analyzed settings table analysis) : table.Distinct :=
  (h.declares.distinct SymbolTable.distinct_empty).congr h.skeleton_eq

theorem contains_eq (h : Analyzed settings table analysis) (p : ModulePath) :
    table.contains p = analysis.symbols.contains p := by
  rw [← SymbolTable.contains_skeleton, h.skeleton_eq, SymbolTable.contains_skeleton]

theorem hasGlobal_iff (h : Analyzed settings table analysis) (p : ModulePath) (name : String) :
    table.HasGlobal p name ↔ analysis.symbols.HasGlobal p name := by
  rw [h.declares.hasGlobal_iff]
  constructor
  · intro hg
    obtain ⟨v, hv⟩ := Option.isSome_iff_exists.1 hg
    obtain ⟨header, value, hm, hn, -⟩ := h.parsed.declared p name v hv
    exact .inr ⟨header, value, hm, hn⟩
  · rintro (hg | hg)
    · exact absurd hg SymbolTable.not_hasGlobal_empty
    · exact h.parsed.hasGlobal p name hg

/-- A global of the first pass is one of the symbols, of the type that its declaration defines. -/
theorem exists_declaration {p : ModulePath} {name : String} {found : Variable}
    (h : Analyzed settings table analysis) (hf : (table.module p).global? name = some found) :
    ∃ header value v, .global p header value ∈ Stmt.declarationsIn [] analysis.program ∧
      header.identifier.text = name ∧ (analysis.symbols.module p).global? name = some v ∧
      header.defined value = .ok v.datatype ∧ (header.IsWritten → found.datatype = v.datatype) := by
  obtain ⟨header, value, hm, rfl, hw, -⟩ := h.parsed.declared p name found hf
  obtain ⟨v, hv, -, hd⟩ := h.declares.exists_global hm
  refine ⟨header, value, v, hm, rfl, hv, hd, fun hwritten => ?_⟩
  -- Where the type is written, both the first pass and the definition take it from there.
  obtain ⟨type, ht, hdefined⟩ := (h.parsed.wellTyped _ hm).2 hwritten
  obtain rfl : found.datatype = type := Option.some.inj ((hw hwritten).symm.trans ht)
  exact Except.ok.inj (hdefined.symm.trans hd)

/-- A name that leads to a global of the first pass leads to one of the symbols, with the same
modifiers. -/
theorem exists_resolveGlobal? {source owner : ModulePath} {name : String} {found : Variable}
    (h : Analyzed settings table analysis)
    (hf : table.resolveGlobal? source name = some (owner, found)) :
    ∃ v, analysis.symbols.resolveGlobal? source name = some (owner, v) ∧
      v.modifiers = found.modifiers ∧ found.initialized := by
  obtain ⟨v, hv⟩ := SymbolTable.exists_resolveGlobal? h.contains_eq h.hasGlobal_iff hf
  obtain ⟨header, value, hm, hn, -, hfound⟩ :=
    h.parsed.declared _ _ _ (SymbolTable.global?_of_resolveGlobal? hf)
  obtain ⟨w, hw, hregisters, -⟩ := h.declares.exists_global hm
  rw [hn] at hw
  obtain rfl : w = v :=
    Option.some.inj (hw.symm.trans (SymbolTable.global?_of_resolveGlobal? hv))
  exact ⟨w, hv, hregisters.modifiers_eq.trans hfound.modifiers_eq.symm, hfound.initialized⟩

/-- What a call refers to among the declarations of the first pass, it refers to among the symbols. -/
theorem calls {site : Site} {callee : Token} {arguments : List Datatype} {type : Datatype}
    (h : Analyzed settings table analysis)
    (hc : Env.call ⟨table, settings.access⟩ site.module callee arguments = .ok type) :
    Env.Calls ⟨analysis.symbols, settings.access⟩ site.module callee arguments type := by
  have hcalls : Env.Calls ⟨table, settings.access⟩ site.module callee arguments type :=
    Env.calls_of_call h.distinct hc
  refine hcalls.congr ?_ h.skeleton_eq
  rfl

end Analyzed

theorem analyzed_of_analyze {settings : Settings} {natives : Native.Bindings} {tokens : List Token}
    {analysis : Analysis} (hb : settings.maxErrors ≠ some 0)
    (h : analyze settings natives tokens = .ok analysis) :
    Analyzed settings (Session.skim settings tokens).table analysis := by
  obtain ⟨hp, hd⟩ := analyze_eq_ok.1 h
  exact ⟨parsed_of_parse hb hp, declaresAll_of_define hb hd⟩

/-- With a budget of none a program without errors has no statements. -/
theorem program_of_no_budget {settings : Settings} {natives : Native.Bindings}
    {tokens : List Token} {analysis : Analysis} (hb : settings.maxErrors = some 0)
    (h : analyze settings natives tokens = .ok analysis) : analysis.program = [] := by
  have hs : settings = { settings with maxErrors := some 0 } := by rw [← hb]
  rw [hs, analyze_of_no_budget] at h
  cases h
  rfl

/-! ## Statements and symbols -/

/-- A use of names and values agrees with the declarations of its program. -/
structure Use.Agrees (env : Env) (site : Site) (use : Use) : Prop where
  /-- Every call in an expression leads to the only function of its name that takes such arguments,
  and has its return type. -/
  calls : ∀ type callee arguments, .call type callee arguments ∈ use.nodes →
    env.Calls site.module callee (arguments.map Expr.type) type
  /-- So does a call that is a statement of its own. -/
  called : ∀ callee arguments, use = .call callee arguments →
    ∃ type, env.Calls site.module callee (arguments.map Expr.type) type
  /-- A `return` stands in a function, and returns what that is declared to return. -/
  returns : ∀ value, use = .result value → ∃ header definition, site.function = some header ∧
    definition ∈ (env.table.module site.module).definitions header.identifier.text ∧
    Definition.function header definition.body = .ok definition ∧
    definition.returnType.Returns value
  /-- A condition is a truth value. -/
  decides : ∀ value, use = .condition value → value.type = .bool
  /-- A declaration takes its value. -/
  takes : ∀ header value, use = .initializer header value → header.Takes value.type

/-- Every statement of a program without errors agrees with the symbols of the program. -/
theorem analyze_agrees {settings : Settings} {natives : Native.Bindings} {tokens : List Token}
    {analysis : Analysis} (h : analyze settings natives tokens = .ok analysis) {site : Site}
    {use : Use} (hu : (site, use) ∈ Stmt.usesIn .root analysis.program) :
    use.Agrees ⟨analysis.symbols, settings.access⟩ site := by
  by_cases hb : settings.maxErrors = some 0
  · rw [program_of_no_budget hb h] at hu
    cases hu
  · have ha := analyzed_of_analyze hb h
    obtain ⟨hresolves, hobeys⟩ := ha.parsed.sound _ hu
    refine ⟨fun type callee arguments hn => ha.calls (hresolves _ hn), ?_, ?_, ?_, ?_⟩
    · rintro callee arguments rfl
      obtain ⟨type, hc⟩ := hobeys
      exact ⟨type, ha.calls hc⟩
    · rintro value rfl
      obtain ⟨header, definition, hf, hm, hd, hr⟩ := hobeys
      obtain ⟨found, hfound, hdefined⟩ := ha.declares.exists_definition hm
      have hsame := Definition.definition_of_function (ha.parsed.wellTyped _ hm) hdefined
      obtain rfl : definition = found.bodiless := Except.ok.inj (hd.symm.trans hsame)
      exact ⟨header, found, hf, hfound, hdefined, hr⟩
    · rintro value rfl
      exact hobeys
    · rintro header value rfl
      exact hobeys

/-- In `module m { int x = 1; }` the value of `x` fits its type. -/
theorem analyze_agrees_initializer :
    ∃ analysis header value, analyze {} (fun _ _ => .notFound)
        [.synthetic (.keyword .moduleWord) "module", .synthetic .identifier "m",
          .synthetic .openCurly "\x7b", .synthetic (.typeName .int) "int",
          .synthetic .identifier "x", .synthetic (.assign .plain) "=",
          .synthetic (.literal .integer) "1", .synthetic .semicolon ";",
          .synthetic .closeCurly "\x7d"] = .ok analysis ∧
      (⟨["m"], none, []⟩, .initializer header value) ∈ Stmt.usesIn .root analysis.program ∧
      (Use.initializer header value).Agrees ⟨analysis.symbols, Settings.access {}⟩
        ⟨["m"], none, []⟩ := by
  let header : VariableHeader :=
    ⟨[], .synthetic .identifier "x", .synthetic (.typeName .int) "int"⟩
  let value : Expr := .literal (.plain .int) (.synthetic (.literal .integer) "1")
  let analysis : Analysis :=
    ⟨[.module (.synthetic .identifier "m") [.define header value]],
      ⟨[.empty [], ⟨["m"], [⟨"x", .plain .int, [], true⟩], []⟩]⟩⟩
  have hu : (⟨["m"], none, []⟩, .initializer header value) ∈ Stmt.usesIn .root analysis.program :=
    .head _
  refine ⟨analysis, header, value, ?_⟩
  refine (and_iff_left_of_imp fun h => ⟨hu, analyze_agrees h hu⟩).2 ?_
  with_unfolding_all rfl

/-! ## Variables and symbols -/

/-- The type and the name of the variable that an expression reads or assigns. -/
def Expr.variable? : Expr → Option (Datatype × Token)
  | .read type identifier => some (type, identifier)
  | .assign type assignee _ _ => some (type, assignee)
  | _ => none

/-- A name that is no local leads to a global of the program, and the expression has the type that
the first pass has found for this global. That is its type in the symbols just where the first pass
has found the type that the declaration of the global defines, as it does wherever a type is
written. -/
theorem analyze_variable {settings : Settings} {natives : Native.Bindings} {tokens : List Token}
    {analysis : Analysis} (h : analyze settings natives tokens = .ok analysis) {site : Site}
    {use : Use} (hu : (site, use) ∈ Stmt.usesIn .root analysis.program) {node : Expr}
    (hn : node ∈ use.nodes) {type : Datatype} {identifier : Token}
    (hv : node.variable? = some (type, identifier)) (hl : identifier.text ∉ site.locals) :
    ∃ owner v found header value,
      analysis.symbols.resolveGlobal? site.module identifier.text = some (owner, v) ∧
      (Session.skim settings tokens).table.resolveGlobal? site.module identifier.text =
        some (owner, found) ∧
      .global owner header value ∈ Stmt.declarationsIn [] analysis.program ∧
      header.identifier.text = (QualifiedName.split identifier.text).name ∧
      header.defined value = .ok v.datatype ∧ type = found.datatype ∧
      (type = v.datatype ↔ header.defined value = .ok found.datatype) ∧
      (header.IsWritten → type = v.datatype) := by
  by_cases hb : settings.maxErrors = some 0
  · rw [program_of_no_budget hb h] at hu
    cases hu
  · have ha := analyzed_of_analyze hb h
    have hr := (ha.parsed.sound _ hu).resolves node hn
    have hrefers : site.Refers ⟨(Session.skim settings tokens).table, settings.access⟩ identifier
        type := by
      cases node <;> cases hv <;> exact hr
    obtain ⟨owner, found, hfound, rfl⟩ := hrefers hl
    obtain ⟨v, hsymbols⟩ :=
      SymbolTable.exists_resolveGlobal? ha.contains_eq ha.hasGlobal_iff hfound
    obtain ⟨header, value, w, hm, hname, hw, hdefined, hwritten⟩ :=
      ha.exists_declaration (SymbolTable.global?_of_resolveGlobal? hfound)
    obtain rfl : w = v :=
      Option.some.inj (hw.symm.trans (SymbolTable.global?_of_resolveGlobal? hsymbols))
    have hsame : found.datatype = w.datatype ↔ header.defined value = .ok found.datatype := by
      rw [hdefined, Except.ok.injEq, eq_comm]
    exact ⟨owner, w, found, header, value, hsymbols, hfound, hm, hname, hdefined, rfl, hsame,
      hwritten⟩

/-- The words of `module o { int x = 1; module i { ? a = x; long x = 2L; long b = a; } }`. -/
def shadowing : List Token :=
  [.synthetic (.keyword .moduleWord) "module", .synthetic .identifier "o",
    .synthetic .openCurly "\x7b", .synthetic (.typeName .int) "int", .synthetic .identifier "x",
    .synthetic (.assign .plain) "=", .synthetic (.literal .integer) "1", .synthetic .semicolon ";",
    .synthetic (.keyword .moduleWord) "module", .synthetic .identifier "i",
    .synthetic .openCurly "\x7b", .synthetic .question "?", .synthetic .identifier "a",
    .synthetic (.assign .plain) "=", .synthetic .identifier "x", .synthetic .semicolon ";",
    .synthetic (.typeName .long) "long", .synthetic .identifier "x",
    .synthetic (.assign .plain) "=", .synthetic (.literal .long) "2", .synthetic .semicolon ";",
    .synthetic (.typeName .long) "long", .synthetic .identifier "b",
    .synthetic (.assign .plain) "=", .synthetic .identifier "a", .synthetic .semicolon ";",
    .synthetic .closeCurly "\x7d", .synthetic .closeCurly "\x7d"]

/-- What that program is analyzed as. The value of `a` is an `int` before `i.x` is known and a `long`
afterwards, and the value of `b` is still an `int`. -/
def shadowed : Analysis where
  program :=
    [.module (.synthetic .identifier "o")
      [.define ⟨[], .synthetic .identifier "x", .synthetic (.typeName .int) "int"⟩
        (.literal (.plain .int) (.synthetic (.literal .integer) "1")),
      .module (.synthetic .identifier "i")
        [.define ⟨[], .synthetic .identifier "a", .synthetic (.typeName .long) "long"⟩
          (.read (.plain .long) (.synthetic .identifier "x")),
        .define ⟨[], .synthetic .identifier "x", .synthetic (.typeName .long) "long"⟩
          (.literal (.plain .long) (.synthetic (.literal .long) "2")),
        .define ⟨[], .synthetic .identifier "b", .synthetic (.typeName .long) "long"⟩
          (.read (.plain .int) (.synthetic .identifier "a"))]]]
  symbols := ⟨[.empty [], ⟨["o"], [⟨"x", .plain .int, [], true⟩], []⟩,
    ⟨["o", "i"], [⟨"a", .plain .long, [], true⟩, ⟨"x", .plain .long, [], true⟩,
      ⟨"b", .plain .long, [], true⟩], []⟩]⟩

theorem analyze_shadowing : analyze {} (fun _ _ => .notFound) shadowing = .ok shadowed := by
  with_unfolding_all rfl

theorem mem_uses_shadowed : (⟨["o", "i"], none, []⟩, .initializer
    ⟨[], .synthetic .identifier "b", .synthetic (.typeName .long) "long"⟩
    (.read (.plain .int) (.synthetic .identifier "a"))) ∈ Stmt.usesIn .root shadowed.program :=
  .tail _ (.tail _ (.tail _ (.head _)))

/-- The value of `b` reads the global `a`, for which the first pass has found the type `int`. -/
theorem analyze_variable_of_shadowing :
    ∃ owner v found header value,
      shadowed.symbols.resolveGlobal? ["o", "i"] "a" = some (owner, v) ∧
      (Session.skim {} shadowing).table.resolveGlobal? ["o", "i"] "a" = some (owner, found) ∧
      .global owner header value ∈ Stmt.declarationsIn [] shadowed.program ∧
      header.identifier.text = "a" ∧ header.defined value = .ok v.datatype ∧
      .plain .int = found.datatype ∧
      (.plain .int = v.datatype ↔ header.defined value = .ok found.datatype) ∧
      (header.IsWritten → .plain .int = v.datatype) :=
  analyze_variable analyze_shadowing mem_uses_shadowed (.head _) rfl List.not_mem_nil

/-- The global `a` is a `long` in the symbols, and the value of `b` reads it as an `int`. -/
theorem shadowed_variable_differs :
    analyze {} (fun _ _ => .notFound) shadowing = .ok shadowed ∧
    ∃ site use node type identifier owner v, (site, use) ∈ Stmt.usesIn .root shadowed.program ∧
      node ∈ use.nodes ∧ node.variable? = some (type, identifier) ∧
      identifier.text ∉ site.locals ∧
      shadowed.symbols.resolveGlobal? site.module identifier.text = some (owner, v) ∧
      type ≠ v.datatype := by
  refine ⟨analyze_shadowing, _, _, _, .plain .int, .synthetic .identifier "a", ["o", "i"],
    ⟨"a", .plain .long, [], true⟩, mem_uses_shadowed, .head _, rfl, List.not_mem_nil, ?_, ?_⟩
  · decide
  · decide

end MuLang
