import MuLang.Proofs.Scoping

/-!
# Assignments of a program

In a program that is analyzed without an error every constant is given a value only once: by its
declaration, or else by a single assignment. An `own` global is assigned to in its own module alone.
A local whose declaration gives it no value is assigned to before it is read.
-/
namespace MuLang

/-- The name whose value an event needs: that of a read or of a compound assignment. -/
def Event.needs? : Event → Option Token
  | .read _ identifier => some identifier
  | .assign _ identifier operator => if operator.kind.compound?.isSome then some identifier else none
  | _ => none

/-- What a point assigns to may be assigned to there, and what it needs has a value by then. -/
structure Point.Orderly (symbols : SymbolTable) (points : List Point) (p : Point) : Prop where
  /-- A constant that is assigned to has no other value, be it from its declaration or from another
  assignment. -/
  constant : ∀ known ∈ p.target?, Modifier.isConstant known.binding.modifiers →
    ¬known.binding.valued ∧ ∀ q ∈ points, known ∈ q.target? → q = p
  /-- A global that is assigned to is not constant, and an `own` one belongs to the module around. -/
  global : ∀ type? identifier operator, p.event = .assign type? identifier operator →
    p.around.bound? identifier = none → ∃ owner v,
      symbols.resolveGlobal? p.around.module identifier.text = some (owner, v) ∧
      ¬v.isConstant ∧ (v.isOwned → owner = p.around.module)
  /-- A local that has no value from its declaration is assigned to before its value is needed. -/
  assigned : ∀ identifier known, p.event.needs? = some identifier →
    p.around.bound? identifier = some known → ¬known.binding.valued →
    ∃ q ∈ points, q.place < p.place ∧ known ∈ q.target?

variable {env : Env} {scopes after final : ScopeStack} {event : Event} {identifier : Token}
  {program : List Stmt} {p q : Point} {known : Known}

/-- A value that is needed is there. -/
theorem Event.Happens.initialized (h : event.Happens env scopes after)
    (hn : event.needs? = some identifier) :
    ∃ place v, env.resolve scopes identifier = .ok ⟨place, v⟩ ∧
      ∀ slot, place = .localAt slot → v.initialized := by
  cases h with
  | read hr =>
    cases hn
    obtain ⟨place, v, hresolve, -, hi⟩ := Env.resolve_of_read hr
    exact ⟨place, v, hresolve, hi⟩
  | @assign type? type assignee operator value _ ha hs =>
    obtain ⟨place, v, stored, ha⟩ := Env.accepts_of_assign ha
    rw [needs?] at hn
    split at hn
    next hc =>
      cases hn
      exact ⟨place, v, ha.resolved, fun _ _ => ha.defined hc⟩
    next => cases hn
  | _ => cases hn

theorem Point.exists_of_mem_target? (h : known ∈ p.target?) : ∃ type? identifier operator,
    p.event = .assign type? identifier operator ∧ p.around.bound? identifier = some known := by
  rcases p with ⟨place, around, event⟩
  cases event with
  | assign type? identifier operator => exact ⟨type?, identifier, operator, rfl, h⟩
  | _ => cases h

/-- Declarations in scope at points of one program are the same if they stand at the same place. -/
theorem Known.eq_of_place_eq {other : Known} (hp : p ∈ Stmt.pointsIn .root 0 program)
    (hq : q ∈ Stmt.pointsIn .root 0 program) (hk : known ∈ p.around.locals)
    (ho : other ∈ q.around.locals) (h : known.place = other.place) : known = other := by
  rw [Stmt.pointsIn_root] at hp hq
  have hknown := Trail.declare_of_mem_locals hp hk
  have hother := Trail.declare_of_mem_locals hq ho
  rw [h] at hknown
  have he : Event.declare known.binding = .declare other.binding :=
    Option.some.inj (hknown.symm.trans hother)
  rcases known with ⟨place, binding⟩
  cases h
  cases he
  rfl

/-- A constant that is assigned to has no value from before. -/
theorem not_assigned_before (hr : Runs env .initial (Stmt.eventsIn program) final)
    (hp : p ∈ Stmt.pointsIn .root 0 program) (hk : known ∈ p.target?)
    (hc : Modifier.isConstant known.binding.modifiers) : ¬known.binding.valued ∧
      ∀ q ∈ Stmt.pointsIn .root 0 program, known ∈ q.target? → ¬q.place < p.place := by
  obtain ⟨type?, identifier, operator, he, hb⟩ := Point.exists_of_mem_target? hk
  obtain ⟨saved, scopes, after, hevent, hmirrors⟩ := exists_mirrors hr hp
  rw [he] at hevent
  cases hevent with
  | assign ha _ =>
    obtain ⟨place, v, stored, ha⟩ := Env.accepts_of_assign ha
    obtain ⟨hstands, -⟩ := hmirrors.stands_of_resolve ha.resolved hb
    have hconstant : v.isConstant := by rwa [Variable.isConstant, hstands.modifiers_eq]
    have hfree : ¬v.initialized := fun hi => ha.writable hi hconstant
    rw [hstands.initialized_iff, not_or] at hfree
    exact ⟨hfree.1, fun q hq ht hlt => hfree.2 ⟨q, hq, hlt, known, ht, rfl⟩⟩

/-- A constant is assigned to at one point alone. -/
theorem eq_of_mem_target? (hr : Runs env .initial (Stmt.eventsIn program) final)
    (hp : p ∈ Stmt.pointsIn .root 0 program) (hq : q ∈ Stmt.pointsIn .root 0 program)
    (hk : known ∈ p.target?) (ht : known ∈ q.target?)
    (hc : Modifier.isConstant known.binding.modifiers) : q = p := by
  have hle : p.place ≤ q.place := Nat.not_lt.1 ((not_assigned_before hr hp hk hc).2 q hq ht)
  have hge : q.place ≤ p.place := Nat.not_lt.1 ((not_assigned_before hr hq ht hc).2 p hp hk)
  rw [Stmt.pointsIn_root] at hp hq
  exact Trail.eq_of_mem_points hq hp (Nat.le_antisymm hge hle)

/-- A local without a value from its declaration has one from an earlier assignment wherever its value
is needed. -/
theorem exists_assigned_before (hr : Runs env .initial (Stmt.eventsIn program) final)
    (hp : p ∈ Stmt.pointsIn .root 0 program) (hn : p.event.needs? = some identifier)
    (hk : p.around.bound? identifier = some known) (hv : ¬known.binding.valued) :
    ∃ q ∈ Stmt.pointsIn .root 0 program, q.place < p.place ∧ known ∈ q.target? := by
  obtain ⟨saved, scopes, after, hevent, hmirrors⟩ := exists_mirrors hr hp
  obtain ⟨place, v, hresolve, hi⟩ := hevent.initialized hn
  obtain ⟨hstands, slot, rfl⟩ := hmirrors.stands_of_resolve hresolve hk
  obtain ⟨q, hq, hlt, other, ht, hplace⟩ :=
    (hstands.initialized_iff.1 (hi slot rfl)).resolve_left hv
  obtain ⟨type?, assignee, operator, -, hbound⟩ := Point.exists_of_mem_target? ht
  obtain rfl := Known.eq_of_place_eq hq hp (Surroundings.mem_of_bound? hbound)
    (Surroundings.mem_of_bound? hk) hplace
  exact ⟨q, hq, hlt, ht⟩

/-- A program without errors gives its constants a value once, its `own` globals one in their own
module alone, and its locals one before it is needed. -/
theorem analyze_orderly {settings : Settings} {natives : Native.Bindings} {tokens : List Token}
    {analysis : Analysis} (h : analyze settings natives tokens = .ok analysis) {p : Point}
    (hp : p ∈ Stmt.pointsIn .root 0 analysis.program) :
    p.Orderly analysis.symbols (Stmt.pointsIn .root 0 analysis.program) := by
  by_cases hb : settings.maxErrors = some 0
  · rw [program_of_no_budget hb h] at hp
    cases hp
  obtain ⟨final, hr⟩ := runs_of_analyze hb h
  refine ⟨fun known hk hc => ?_, fun type? identifier operator he hn => ?_,
    fun identifier known hneeds hk hv => exists_assigned_before hr hp hneeds hk hv⟩
  · exact ⟨(not_assigned_before hr hp hk hc).1,
      fun q hq ht => eq_of_mem_target? hr hp hq hk ht hc⟩
  · obtain ⟨saved, scopes, after, hevent, hmirrors⟩ := exists_mirrors hr hp
    rw [he] at hevent
    cases hevent with
    | assign ha _ =>
      obtain ⟨place, found, stored, ha⟩ := Env.accepts_of_assign ha
      obtain ⟨owner, rfl, hfound⟩ := hmirrors.resolveGlobal?_of_resolve ha.resolved hn
      -- The first pass has found the global that the symbols hold, up to its type.
      obtain ⟨v, hv, hm, hi⟩ := (analyzed_of_analyze hb h).exists_resolveGlobal? hfound
      refine ⟨owner, v, hv, ?_, fun hown => ?_⟩
      · rw [Variable.isConstant, hm]
        exact ha.writable hi
      · rw [Variable.isOwned, hm] at hown
        exact (ha.owned owner rfl hown).trans hmirrors.currentModule_eq

/-- In `x = a; if true { long y = 2L; g = x; }` the constant `x` is given its value by the first
assignment alone, which comes before the second reads it. -/
theorem analyze_orderly_of_nesting :
    analyze {} (fun _ _ => .notFound) nesting = .ok nested ∧
    givenPoint ∈ Stmt.pointsIn .root 0 nested.program ∧
    readPoint ∈ Stmt.pointsIn .root 0 nested.program ∧
    givenPoint.Orderly nested.symbols (Stmt.pointsIn .root 0 nested.program) ∧
    readPoint.Orderly nested.symbols (Stmt.pointsIn .root 0 nested.program) :=
  ⟨analyze_nesting, givenPoint_mem, readPoint_mem, analyze_orderly analyze_nesting givenPoint_mem,
    analyze_orderly analyze_nesting readPoint_mem⟩

end MuLang
