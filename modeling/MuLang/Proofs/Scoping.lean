import MuLang.Proofs.Mirror

/-!
# Lexical scoping of a program

In a program that is analyzed without an error names mean what the blocks around them say. A name that
is lexically bound has the type of its declaration wherever it is read or assigned to, every other name
leads to a global, and no declaration repeats a name that is in scope.
-/
namespace MuLang

/-- The name that an event uses, with the type of the expression that uses it. An assignment that is a
statement is no expression. -/
def Event.mention? : Event → Option (Option Datatype × Token)
  | .read type identifier => some (some type, identifier)
  | .assign type? identifier _ => some (type?, identifier)
  | _ => none

/-- A point declares and uses names as its surroundings allow. -/
structure Point.Scoped (table symbols : SymbolTable) (p : Point) : Prop where
  /-- A name that is bound is used with the declared type. -/
  bound : ∀ type? identifier known, p.event.mention? = some (type?, identifier) →
    p.around.bound? identifier = some known → ∀ type ∈ type?, known.binding.datatype = some type
  /-- Every other name leads to a global, and is used with the type that the global had by then. -/
  free : ∀ type? identifier, p.event.mention? = some (type?, identifier) →
    p.around.bound? identifier = none → ∃ owner v found,
      symbols.resolveGlobal? p.around.module identifier.text = some (owner, v) ∧
      table.resolveGlobal? p.around.module identifier.text = some (owner, found) ∧
      ∀ type ∈ type?, type = found.datatype
  /-- A name that is declared is not in scope yet. -/
  fresh : ∀ binding, p.event = .declare binding →
    ∀ known ∈ p.around.locals, known.binding.name ≠ binding.name

variable {env : Env} {scopes after : ScopeStack} {event : Event} {type? : Option Datatype}
  {identifier : Token}

/-- What is read stands for a variable, which has a value if it is a local. -/
theorem Env.resolve_of_read {type : Datatype}
    (h : env.read scopes identifier = .ok (.read type identifier)) :
    ∃ place v, env.resolve scopes identifier = .ok ⟨place, v⟩ ∧ type = v.datatype ∧
      ∀ slot, place = .localAt slot → v.initialized := by
  obtain ⟨place, v, hr, hi, he⟩ := read_eq_ok.1 h
  cases he
  exact ⟨place, v, hr, rfl, hi⟩

/-- A name that is used stands for a variable, whose type the use has. -/
theorem Event.Happens.resolves (h : event.Happens env scopes after)
    (hm : event.mention? = some (type?, identifier)) :
    ∃ place v, env.resolve scopes identifier = .ok ⟨place, v⟩ ∧ ∀ type ∈ type?, type = v.datatype := by
  cases h with
  | read hr =>
    cases hm
    obtain ⟨place, v, hresolve, rfl, -⟩ := Env.resolve_of_read hr
    exact ⟨place, v, hresolve, by simp⟩
  | assign ha hs =>
    cases hm
    obtain ⟨place, v, stored, ha⟩ := Env.accepts_of_assign ha
    exact ⟨place, v, ha.resolved, fun type ht => (hs type ht).trans ha.type_eq⟩
  | _ => cases hm

/-- A declaration does not repeat what the scopes hold. -/
theorem Mirrors.name_ne_of_declare {assigned : Set Nat} {trail : Trail} {binding : Binding}
    (h : Mirrors assigned trail scopes) (hd : (Event.declare binding).Happens env scopes after) :
    ∀ known ∈ trail.current.locals, known.binding.name ≠ binding.name := by
  cases hd with
  | global hf =>
    rw [h.levels.locals_eq_nil (h.inFunction_eq ▸ hf)]
    exact fun _ hk => absurd hk List.not_mem_nil
  | declare _ hb ha =>
    rw [← hb.name_eq]
    exact h.name_ne_of_addLocal ha

theorem runs_of_analyze {settings : Settings} {natives : Native.Bindings} {tokens : List Token}
    {analysis : Analysis} (hb : settings.maxErrors ≠ some 0)
    (h : analyze settings natives tokens = .ok analysis) :
    ∃ after, Runs ⟨(Session.skim settings tokens).table, settings.access⟩ .initial
      (Stmt.eventsIn analysis.program) after :=
  runs_of_parse hb (analyze_eq_ok.1 h).1

/-- A program without errors uses and declares its names as lexical scoping says. -/
theorem analyze_scoped {settings : Settings} {natives : Native.Bindings} {tokens : List Token}
    {analysis : Analysis} (h : analyze settings natives tokens = .ok analysis) {p : Point}
    (hp : p ∈ Stmt.pointsIn .root 0 analysis.program) :
    p.Scoped (Session.skim settings tokens).table analysis.symbols := by
  by_cases hb : settings.maxErrors = some 0
  · rw [program_of_no_budget hb h] at hp
    cases hp
  obtain ⟨final, hr⟩ := runs_of_analyze hb h
  obtain ⟨saved, scopes, after, hevent, hmirrors⟩ := exists_mirrors hr hp
  refine ⟨fun type? identifier known hm hk type ht => ?_, fun type? identifier hm hn => ?_,
    fun binding he => ?_⟩
  · obtain ⟨place, v, hresolve, htype⟩ := hevent.resolves hm
    rw [htype type ht]
    exact (hmirrors.stands_of_resolve hresolve hk).1.datatype_eq
  · obtain ⟨place, found, hresolve, htype⟩ := hevent.resolves hm
    obtain ⟨owner, -, hfound⟩ := hmirrors.resolveGlobal?_of_resolve hresolve hn
    obtain ⟨v, hv, -⟩ := (analyzed_of_analyze hb h).exists_resolveGlobal? hfound
    exact ⟨owner, v, found, hv, hfound, htype⟩
  · rw [he] at hevent
    exact hmirrors.name_ne_of_declare hevent

/-- The words of
`module m { mut int g = 1; fn f ~ (int a) { int x; x = a; if true { long y = 2L; g = x; } } }`. -/
def nesting : List Token :=
  [.synthetic (.keyword .moduleWord) "module", .synthetic .identifier "m",
    .synthetic .openCurly "\x7b", .synthetic (.modifier .mutable) "mut",
    .synthetic (.typeName .int) "int", .synthetic .identifier "g",
    .synthetic (.assign .plain) "=", .synthetic (.literal .integer) "1", .synthetic .semicolon ";",
    .synthetic (.keyword .fnWord) "fn", .synthetic .identifier "f", .synthetic .tilde "~",
    .synthetic .openParen "(", .synthetic (.typeName .int) "int", .synthetic .identifier "a",
    .synthetic .closeParen ")", .synthetic .openCurly "\x7b",
    .synthetic (.typeName .int) "int", .synthetic .identifier "x", .synthetic .semicolon ";",
    .synthetic .identifier "x", .synthetic (.assign .plain) "=", .synthetic .identifier "a",
    .synthetic .semicolon ";", .synthetic (.keyword .ifWord) "if",
    .synthetic (.literal .bool) "true", .synthetic .openCurly "\x7b",
    .synthetic (.typeName .long) "long", .synthetic .identifier "y",
    .synthetic (.assign .plain) "=", .synthetic (.literal .long) "2", .synthetic .semicolon ";",
    .synthetic .identifier "g", .synthetic (.assign .plain) "=", .synthetic .identifier "x",
    .synthetic .semicolon ";", .synthetic .closeCurly "\x7d", .synthetic .closeCurly "\x7d",
    .synthetic .closeCurly "\x7d"]

/-- The body of the function in that program. -/
def nestedBody : List Stmt :=
  [.declare ⟨[], .synthetic .identifier "x", .synthetic (.typeName .int) "int"⟩,
    .action (.assign (.synthetic .identifier "x") (.synthetic (.assign .plain) "=")
      (.read (.plain .int) (.synthetic .identifier "a"))),
    .ifElse (.synthetic (.keyword .ifWord) "if")
      (.literal (.plain .bool) (.synthetic (.literal .bool) "true"))
      [.define ⟨[], .synthetic .identifier "y", .synthetic (.typeName .long) "long"⟩
        (.literal (.plain .long) (.synthetic (.literal .long) "2")),
      .action (.assign (.synthetic .identifier "g") (.synthetic (.assign .plain) "=")
        (.read (.plain .int) (.synthetic .identifier "x")))] .absent]

/-- What that program is analyzed as. -/
def nested : Analysis where
  program :=
    [.module (.synthetic .identifier "m")
      [.define ⟨[.synthetic (.modifier .mutable) "mut"], .synthetic .identifier "g",
          .synthetic (.typeName .int) "int"⟩
        (.literal (.plain .int) (.synthetic (.literal .integer) "1")),
      .function ⟨[], .synthetic .identifier "f", voidToken,
        [⟨[], .synthetic (.typeName .int) "int", .synthetic .identifier "a"⟩]⟩ nestedBody]]
  symbols := ⟨[.empty [], ⟨["m"], [⟨"g", .plain .int, [.mutable], true⟩],
    [⟨"f", .plain .void,
      [⟨"f", .plain .void, [⟨"a", .plain .int, []⟩], [], .interpreted nestedBody⟩]⟩]⟩]⟩

theorem analyze_nesting : analyze {} (fun _ _ => .notFound) nesting = .ok nested := by
  with_unfolding_all rfl

/-- The assignment `x = a`, after which `x` has a value. -/
def givenPoint : Point where
  place := 6
  around := ⟨["m"], true, [⟨4, ⟨"x", some (.plain .int), [], false⟩⟩,
    ⟨3, ⟨"a", some (.plain .int), [], true⟩⟩]⟩
  event := .assign none (.synthetic .identifier "x") (.synthetic (.assign .plain) "=")

/-- The value `x` in the block under the condition, where `y` is in scope as well. -/
def readPoint : Point where
  place := 9
  around := ⟨["m"], true, [⟨8, ⟨"y", some (.plain .long), [], true⟩⟩,
    ⟨4, ⟨"x", some (.plain .int), [], false⟩⟩, ⟨3, ⟨"a", some (.plain .int), [], true⟩⟩]⟩
  event := .read (.plain .int) (.synthetic .identifier "x")

theorem givenPoint_mem : givenPoint ∈ Stmt.pointsIn .root 0 nested.program :=
  .tail _ (.tail _ (.tail _ (.tail _ (.head _))))

theorem readPoint_mem : readPoint ∈ Stmt.pointsIn .root 0 nested.program :=
  .tail _ (.tail _ (.tail _ (.tail _ (.tail _ (.tail _ (.head _))))))

/-- The value `x` has the type of the declaration that is in scope there. -/
theorem analyze_scoped_of_nesting :
    analyze {} (fun _ _ => .notFound) nesting = .ok nested ∧
    readPoint ∈ Stmt.pointsIn .root 0 nested.program ∧
    readPoint.around.bound? (.synthetic .identifier "x") =
      some ⟨4, ⟨"x", some (.plain .int), [], false⟩⟩ ∧
    readPoint.Scoped (Session.skim {} nesting).table nested.symbols :=
  ⟨analyze_nesting, readPoint_mem, rfl, analyze_scoped analyze_nesting readPoint_mem⟩

end MuLang
