import MuLang.Proofs.Host
import MuLang.Proofs.Scoping

/-!
# Names of parameters

The parameters of a function with a body are locals of that body, so in an accepted program their
names are distinct. A native function has no body, and nothing compares the names of its parameters:
in the table they are those of its declaration, repeated or not.
-/
namespace MuLang

/-! ## Parameters as locals -/

/-- What is declared in a function is in scope afterwards, the latest first. -/
theorem Surroundings.names_declareAll {around : Surroundings} (h : around.inFunction) (start : Nat)
    (bindings : List Binding) : (around.declareAll start bindings).locals.map (·.binding.name) =
      (bindings.map (·.name)).reverse ++ around.locals.map (·.binding.name) := by
  induction bindings generalizing around start with
  | nil => rfl
  | cons binding rest ih =>
    have hafter : (around.declare start binding).inFunction := by
      rw [declare_of_inFunction h]
      exact h
    rw [declareAll, ih hafter, declare_of_inFunction h]
    simp

/-- What is declared at the start of a function has distinct names. -/
theorem Runs.nodup_names {env : Env} {before later : List Event} {bindings : List Binding}
    {after : ScopeStack}
    (h : Runs env .initial (before ++ .enterFunction :: bindings.map .declare ++ later) after) :
    (bindings.map (·.name)).Nodup := by
  obtain ⟨between, hfirst, -⟩ := h.of_append
  -- Behind the last of them all are in scope, and what is in scope differs in its names.
  have hmirrors := Mirrors.start.of_runs hfirst
  have hlocals := (Trail.Follows.declarations
    ((Trail.start.after before).next .enterFunction) bindings).after_eq
  have hnames := List.pairwise_map.2 (hmirrors.apart.imp And.left)
  rw [Trail.after_append, Trail.after_cons, hlocals] at hnames
  change (((Trail.start.after before).current.atFunction.declareAll _ bindings).locals.map
    (·.binding.name)).Nodup at hnames
  rw [Surroundings.names_declareAll rfl] at hnames
  exact List.nodup_reverse.1 (List.Nodup.of_append_left hnames)

namespace Stmt

variable {stmt : Stmt} {path base : ModulePath} {body : List Stmt}

/-- What a statement does is done in one piece. -/
theorem events_infix (h : stmt ∈ body) : stmt.events <:+: eventsIn body := by
  induction body with
  | nil => cases h
  | cons first rest ih =>
    obtain rfl | h := List.mem_cons.1 h
    · exact (List.prefix_append _ _).isInfix
    · exact (ih h).trans (List.suffix_append _ _).isInfix

theorem Top.events_infix (h : Top stmt path base body) : stmt.events <:+: eventsIn body := by
  induction h with
  | here hs => exact Stmt.events_infix hs
  | @inside base identifier inner body hm _ ih =>
    refine ih.trans (List.IsInfix.trans ?_ (Stmt.events_infix hm))
    exact ⟨[.enterModule identifier.text], [.leave], rfl⟩

end Stmt

/-! ## Parameters of the table -/

/-- Where the types of all parameters are written as types, the table has all their names. -/
theorem FunctionHeader.Admissible.map_name {header : FunctionHeader} (h : header.Admissible)
    {body : FunctionBody} {definition : FunctionDefinition}
    (he : header.entry? body = some definition) :
    definition.parameters.map (·.name) = header.parameters.map (·.identifier.text) := by
  obtain ⟨type, -, rfl⟩ := Option.map_eq_some_iff.1 he
  have htyped := h.parameters
  dsimp only
  generalize header.parameters = parameters at htyped
  induction parameters with
  | nil => rfl
  | cons parameter rest ih =>
    obtain ⟨hp, hrest⟩ := List.forall_mem_cons.1 htyped
    have hsome : (parameter.datatype.registeredType?
        (Token.areNullable parameter.modifiers)).isSome := by
      rw [Token.isSome_registeredType?]
      exact hp.typed
    obtain ⟨type, ht⟩ := Option.isSome_iff_exists.1 hsome
    simp [Parameter.entry?, ht, ih hrest]

/-- In every program that is accepted, with whatever the host provides, the parameters of each
interpreted function in the table have pairwise distinct names. Those of a native function have the
names that its declaration gives them, so they are distinct exactly if the declaration repeats
none, which nothing asks of it. -/
theorem analyze_parameters {settings : Settings} {natives : Native.Bindings} {tokens : List Token}
    {analysis : Analysis} (h : analyze settings natives tokens = .ok analysis) :
    ∀ module ∈ analysis.symbols.modules, ∀ definition ∈ module.members,
      (definition.body.isNative = false → (definition.parameters.map (·.name)).Nodup) ∧
      (definition.body.isNative → ∃ native ∈ Stmt.nativesIn [] analysis.program,
        native.path = module.path ∧
          native.header.nativeEntry? natives native.binding = some definition ∧
          definition.parameters.map (·.name) =
            native.header.parameters.map (·.identifier.text)) := by
  intro module hmodule definition hm
  rw [← module_of_analyze h hmodule] at hm
  refine ⟨fun hn => ?_, fun hn => ?_⟩
  · obtain ⟨header, ha, he, ⟨body, -, htop⟩ | ⟨binding, hb, -⟩⟩ := exists_function_of_analyze h hm
    · obtain ⟨before, later, hevents⟩ := htop.events_infix
      by_cases hb : settings.maxErrors = some 0
      · rw [program_of_no_budget hb h] at hevents
        simp [Stmt.events, Stmt.eventsIn] at hevents
      · obtain ⟨after, hruns⟩ := runs_of_analyze hb h
        rw [← hevents, Stmt.events, ← List.cons_append, ← List.append_assoc,
          List.append_assoc] at hruns
        have hnames := hruns.nodup_names
        rw [FunctionHeader.bindings, List.map_map] at hnames
        rw [ha.map_name he]
        exact hnames
    · have hnative := ((@Stmt.mem_entries_native _ _ _ (.native header binding) _).2
        ⟨⟨module.path, header, binding⟩, .head _, rfl, hb⟩).2
      rw [hn] at hnative
      cases hnative
  · rw [mem_members_of_analyze h] at hm
    obtain ⟨native, hnative, hpath, he⟩ := Stmt.mem_entriesIn_native.1 ⟨hm, hn⟩
    obtain ⟨hadmissible, -⟩ := entries_of_analyze h
    obtain ⟨ha, -⟩ := Stmt.bound_nativesIn hadmissible.1 hadmissible.2 native hnative
    exact ⟨native, hnative, hpath, he, ha.map_name (FunctionHeader.entry?_of_nativeEntry? he)⟩

/-- The words of `module m { nat fn f :: int (int a, int a) -> "h"; fn g ~ (int a, int b) { } }`. -/
def repeating : List Token :=
  [.synthetic (.keyword .moduleWord) "module", .synthetic .identifier "m",
    .synthetic .openCurly "\x7b", .synthetic (.keyword .natWord) "nat",
    .synthetic (.keyword .fnWord) "fn", .synthetic .identifier "f",
    .synthetic .doubleColon "::", .synthetic (.typeName .int) "int", .synthetic .openParen "(",
    .synthetic (.typeName .int) "int", .synthetic .identifier "a", .synthetic .comma ",",
    .synthetic (.typeName .int) "int", .synthetic .identifier "a", .synthetic .closeParen ")",
    .synthetic .arrow "->", .synthetic (.literal .string) "h", .synthetic .semicolon ";",
    .synthetic (.keyword .fnWord) "fn", .synthetic .identifier "g", .synthetic .tilde "~",
    .synthetic .openParen "(", .synthetic (.typeName .int) "int", .synthetic .identifier "a",
    .synthetic .comma ",", .synthetic (.typeName .int) "int", .synthetic .identifier "b",
    .synthetic .closeParen ")", .synthetic .openCurly "\x7b", .synthetic .closeCurly "\x7d",
    .synthetic .closeCurly "\x7d"]

/-- A host that provides the native function of that program. -/
def repeatingHost : Native.Bindings :=
  Native.Registry.lookup [⟨"h.f", [.plain .int, .plain .int], .plain .int⟩]

/-- The native function of that program as the table holds it. -/
def repeated : FunctionDefinition where
  name := "f"
  returnType := .plain .int
  parameters := [⟨"a", .plain .int, []⟩, ⟨"a", .plain .int, []⟩]
  modifiers := []
  body := .native "h.f" (some ⟨"h.f", [.plain .int, .plain .int], .plain .int⟩)

/-- The other function of that program. -/
def unrepeated : FunctionDefinition where
  name := "g"
  returnType := .plain .void
  parameters := [⟨"a", .plain .int, []⟩, ⟨"b", .plain .int, []⟩]
  modifiers := []
  body := .interpreted []

/-- The module `m` of that program. -/
def repeatingModule : Module :=
  ⟨["m"], [], [⟨"f", .plain .int, [repeated]⟩, ⟨"g", .plain .void, [unrepeated]⟩]⟩

theorem analyze_repeating : ∃ analysis, analyze {} repeatingHost repeating = .ok analysis ∧
    analysis.symbols = ⟨[.empty [], repeatingModule]⟩ :=
  ⟨_, by with_unfolding_all rfl, by with_unfolding_all rfl⟩

/-- The program is accepted, and a native function in its table has two parameters `a`. -/
theorem repeated_parameters : ∃ analysis, analyze {} repeatingHost repeating = .ok analysis ∧
    ∃ module ∈ analysis.symbols.modules, ∃ definition ∈ module.members,
      ¬(definition.parameters.map (·.name)).Nodup := by
  obtain ⟨analysis, h, hsymbols⟩ := analyze_repeating
  refine ⟨analysis, h, repeatingModule, ?_, repeated, .head _, by decide⟩
  rw [hsymbols]
  exact .tail _ (.head _)

/-- The parameters of `g` are distinct, and those of `f` have the names of its declaration. -/
theorem analyze_parameters_repeating : ∃ analysis,
    analyze {} repeatingHost repeating = .ok analysis ∧
    (unrepeated.parameters.map (·.name)).Nodup ∧
    ∃ native ∈ Stmt.nativesIn [] analysis.program, native.path = ["m"] ∧
      native.header.nativeEntry? repeatingHost native.binding = some repeated ∧
      repeated.parameters.map (·.name) = native.header.parameters.map (·.identifier.text) := by
  obtain ⟨analysis, h, hsymbols⟩ := analyze_repeating
  have hmodule : repeatingModule ∈ analysis.symbols.modules := by
    rw [hsymbols]
    exact .tail _ (.head _)
  have hdefinitions := analyze_parameters h repeatingModule hmodule
  exact ⟨analysis, h, (hdefinitions unrepeated (.tail _ (.head _))).1 rfl,
    (hdefinitions repeated (.head _)).2 rfl⟩

end MuLang
