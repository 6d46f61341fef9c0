import MuLang.Proofs.Events

/-!
# Lexical scoping

Which declarations are in scope at a point of a program is told by its nested blocks alone: inside a
function, the parameters and all declarations that precede the point in its block or in a block
around it. The variable of a loop is in scope in the condition, the step and the body of that loop,
and no declaration is in scope in its own value.

The same can be told from the events before the point, by keeping what is in scope around the open
blocks. Both agree.
-/
namespace MuLang

/-- A declaration that is in scope: its place among the events of the program, and what it says. -/
structure Known where
  place : Nat
  binding : Binding

/-- What lies around a point of a program: the module, whether there is a function, and the
declarations in scope, the latest first. -/
structure Surroundings where
  module : ModulePath
  inFunction : Bool
  locals : List Known

namespace Surroundings

def root : Surroundings := ⟨[], false, []⟩

def atModule (around : Surroundings) (name : String) : Surroundings :=
  ⟨around.module ++ [name], false, []⟩

def atFunction (around : Surroundings) : Surroundings := ⟨around.module, true, []⟩

/-- After a declaration. Outside functions it is that of a global. -/
def declare (around : Surroundings) (place : Nat) (binding : Binding) : Surroundings :=
  if around.inFunction then { around with locals := ⟨place, binding⟩ :: around.locals } else around

/-- After some declarations that follow each other. -/
def declareAll (around : Surroundings) (start : Nat) : List Binding → Surroundings
  | [] => around
  | binding :: rest => (around.declare start binding).declareAll (start + 1) rest

/-- After a declaration with a value. -/
def define (around : Surroundings) (start : Nat) (header : VariableHeader) (value : Expr) :
    Surroundings :=
  around.declare (start + value.events.length) (header.binding (some value.type))

/-- The declaration that a name stands for: the latest one of this name. A qualified name stands for
none. -/
def bound? (around : Surroundings) (identifier : Token) : Option Known :=
  if isDotted identifier.text then none
  else around.locals.find? (·.binding.name = identifier.text)

end Surroundings

/-- An event of a program, with its place among all of them and what lies around it. -/
structure Point where
  place : Nat
  around : Surroundings
  event : Event

namespace Surroundings

/-- Events at the same point of a program. -/
def points (around : Surroundings) (start : Nat) : List Event → List Point
  | [] => []
  | event :: rest => ⟨start, around, event⟩ :: around.points (start + 1) rest

/-- Declarations that follow each other. -/
def declarations (around : Surroundings) (start : Nat) : List Binding → List Point
  | [] => []
  | binding :: rest =>
    ⟨start, around, .declare binding⟩ ::
      (around.declare start binding).declarations (start + 1) rest

end Surroundings

/-- What lies around the point after a statement, whose first event has a place. -/
def Stmt.after (around : Surroundings) (start : Nat) : Stmt → Surroundings
  | .declare header => around.declare start (header.binding none)
  | .define header value => around.define start header value
  | _ => around

mutual

/-- The declarations, reads and assignments of a statement, whose first event has a place. -/
def Stmt.points (around : Surroundings) (start : Nat) : Stmt → List Point
  | .module identifier body => Stmt.pointsIn (around.atModule identifier.text) (start + 1) body
  | .function header body =>
    around.atFunction.declarations (start + 1) header.bindings ++
      Stmt.pointsIn (around.atFunction.declareAll (start + 1) header.bindings)
        (start + 1 + header.bindings.length) body
  | .ifElse _ condition body otherwise =>
    around.points (start + 1) condition.events ++
      (Stmt.pointsIn around (start + 1 + condition.events.length) body ++
        otherwise.points around (start + (condition.branchEvents (Stmt.eventsIn body)).length))
  | .whileLoop _ condition body =>
    around.points (start + 1) condition.events ++
      Stmt.pointsIn around (start + 1 + condition.events.length) body
  | .forLoop _ header value condition step body =>
    around.points (start + 1) (header.definitionEvents value) ++
      ((around.define (start + 1) header value).points
          (start + 1 + (header.definitionEvents value).length) (condition.events ++ step.events) ++
        Stmt.pointsIn (around.define (start + 1) header value)
          (start + 1 + (header.definitionEvents value).length +
            (condition.events ++ step.events).length + 1) body)
  | stmt => around.points start stmt.events

def Else.points (around : Surroundings) (start : Nat) : Else → List Point
  | .absent => []
  | .block body => Stmt.pointsIn around (start + 1) body
  | .elseIf _ condition body otherwise =>
    around.points (start + 1) condition.events ++
      (Stmt.pointsIn around (start + 1 + condition.events.length) body ++
        otherwise.points around (start + (condition.branchEvents (Stmt.eventsIn body)).length))

def Stmt.pointsIn (around : Surroundings) (start : Nat) : List Stmt → List Point
  | [] => []
  | stmt :: rest =>
    stmt.points around start ++
      Stmt.pointsIn (stmt.after around start) (start + stmt.events.length) rest

end

/-! ## Following the events -/

namespace Event

/-- Whether an event is the start or the end of a block. -/
def isBoundary : Event → Bool
  | .enterModule _ | .enterFunction | .enterBlock | .leave => true
  | _ => false

/-- Whether an event uses a variable that is there. -/
def isUse : Event → Bool
  | .read .. | .assign .. => true
  | _ => false

end Event

/-- A point among the events of a program: how many there have been, and what lies around it and
around each of the open blocks, the innermost first. -/
structure Trail where
  count : Nat
  current : Surroundings
  saved : List Surroundings

namespace Trail

def start : Trail := ⟨0, .root, []⟩

/-- After an event. At the end of a block the surroundings are those before it. -/
def next (trail : Trail) : Event → Trail
  | .enterModule name =>
    ⟨trail.count + 1, trail.current.atModule name, trail.current :: trail.saved⟩
  | .enterFunction => ⟨trail.count + 1, trail.current.atFunction, trail.current :: trail.saved⟩
  | .enterBlock => ⟨trail.count + 1, trail.current, trail.current :: trail.saved⟩
  | .leave => ⟨trail.count + 1, trail.saved.headD trail.current, trail.saved.tail⟩
  | .declare binding => ⟨trail.count + 1, trail.current.declare trail.count binding, trail.saved⟩
  | .read .. | .assign .. => ⟨trail.count + 1, trail.current, trail.saved⟩

/-- Some events later, in other surroundings. -/
def ahead (trail : Trail) (count : Nat) (current : Surroundings) : Trail :=
  ⟨trail.count + count, current, trail.saved⟩

/-- After some events. -/
def after (trail : Trail) (events : List Event) : Trail := events.foldl next trail

/-- The events but those of blocks, each with what lies around it. -/
def points (trail : Trail) : List Event → List Point
  | [] => []
  | event :: rest =>
    if event.isBoundary then (trail.next event).points rest
    else ⟨trail.count, trail.current, event⟩ :: (trail.next event).points rest

end Trail

/-- From a point of a program some events have the points that are told, and lead to the surroundings
that are told. -/
structure Trail.Follows (trail : Trail) (events : List Event) (points : List Point)
    (current : Surroundings) : Prop where
  points_eq : trail.points events = points
  after_eq : trail.after events = trail.ahead events.length current

namespace Trail

variable {trail : Trail} {first second events : List Event} {before after points more : List Point}

@[simp] theorem after_nil (trail : Trail) : trail.after [] = trail := rfl

@[simp] theorem after_cons (trail : Trail) (event : Event) (events : List Event) :
    trail.after (event :: events) = (trail.next event).after events := rfl

theorem after_append (trail : Trail) (first second : List Event) :
    trail.after (first ++ second) = (trail.after first).after second :=
  List.foldl_append

@[simp] theorem count_next (trail : Trail) (event : Event) :
    (trail.next event).count = trail.count + 1 := by
  cases event <;> rfl

@[simp] theorem count_after (trail : Trail) (events : List Event) :
    (trail.after events).count = trail.count + events.length := by
  induction events generalizing trail with
  | nil => rfl
  | cons event rest ih =>
    rw [after_cons, ih, count_next, List.length_cons]
    omega

theorem points_append (trail : Trail) (first second : List Event) :
    trail.points (first ++ second) = trail.points first ++ (trail.after first).points second := by
  induction first generalizing trail with
  | nil => rfl
  | cons event rest ih =>
    rw [List.cons_append, Trail.points, Trail.points, after_cons, ih]
    split <;> rfl

namespace Follows

variable {current last : Surroundings}

theorem nil : trail.Follows [] [] trail.current := ⟨rfl, rfl⟩

theorem append (h : trail.Follows first points current)
    (hs : (trail.ahead first.length current).Follows second more last) :
    trail.Follows (first ++ second) (points ++ more) last := by
  refine ⟨?_, ?_⟩
  · rw [points_append, h.points_eq, h.after_eq, hs.points_eq]
  · rw [after_append, h.after_eq, hs.after_eq, List.length_append, ahead, ahead, ahead, Nat.add_assoc]

/-- A block leaves no trace in what lies around it. -/
theorem block {opening : Event} (hb : opening.isBoundary)
    (hs : (trail.next opening).saved = trail.current :: trail.saved)
    (h : (trail.next opening).Follows events points current) :
    trail.Follows (opening :: (events ++ [.leave])) points trail.current := by
  refine ⟨?_, ?_⟩
  · rw [Trail.points, if_pos hb, points_append, h.points_eq, Trail.points, Trail.points]
    simp [Event.isBoundary]
  · rw [after_cons, after_append, h.after_eq, ahead, hs, count_next]
    simp only [after, next, ahead, List.foldl_cons, List.foldl_nil, List.headD_cons, List.tail_cons,
      List.length_cons, List.length_append, List.length_nil, Trail.mk.injEq, and_true]
    omega

theorem declaration (trail : Trail) (binding : Binding) :
    trail.Follows [.declare binding] [⟨trail.count, trail.current, .declare binding⟩]
      (trail.current.declare trail.count binding) := ⟨rfl, rfl⟩

theorem declarations (trail : Trail) (bindings : List Binding) :
    trail.Follows (bindings.map .declare) (trail.current.declarations trail.count bindings)
      (trail.current.declareAll trail.count bindings) := by
  induction bindings generalizing trail with
  | nil => exact .nil
  | cons binding rest ih => exact (declaration trail binding).append (ih _)

theorem uses (trail : Trail) (h : ∀ event ∈ events, event.isUse) :
    trail.Follows events (trail.current.points trail.count events) trail.current := by
  induction events generalizing trail with
  | nil => exact .nil
  | cons event rest ih =>
    obtain ⟨he, hrest⟩ := List.forall_mem_cons.1 h
    have hfirst : trail.Follows [event] [⟨trail.count, trail.current, event⟩] trail.current := by
      cases event with
      | read => exact ⟨rfl, rfl⟩
      | assign => exact ⟨rfl, rfl⟩
      | _ => cases he
    exact hfirst.append (ih _ hrest)

end Follows

end Trail

theorem Surroundings.points_append (around : Surroundings) (start : Nat) (first second : List Event) :
    around.points start (first ++ second) =
      around.points start first ++ around.points (start + first.length) second := by
  induction first generalizing start with
  | nil => rfl
  | cons event rest ih =>
    rw [List.cons_append, points, points, ih, List.length_cons, List.cons_append, Nat.add_assoc,
      Nat.add_comm 1]

/-! ## What expressions and actions do -/

mutual

/-- Expressions read and assign variables, and declare none. -/
theorem Expr.isUse_of_events : ∀ (value : Expr), ∀ event ∈ value.events, event.isUse
  | .literal _ _ => by simp [events]
  | .read _ _ => by simp [events, Event.isUse]
  | .binary _ left _ right => by
    rw [events]
    exact List.forall_mem_append.2 ⟨isUse_of_events left, isUse_of_events right⟩
  | .unary _ _ right => by
    rw [events]
    exact isUse_of_events right
  | .cast _ _ value => by
    rw [events]
    exact isUse_of_events value
  | .assign _ _ _ value => by
    rw [events]
    exact List.forall_mem_append.2 ⟨isUse_of_events value, by simp [Event.isUse]⟩
  | .call _ _ arguments => by
    rw [events]
    exact isUse_of_eventsOfAll arguments

theorem Expr.isUse_of_eventsOfAll : ∀ (values : List Expr),
    ∀ event ∈ eventsOfAll values, event.isUse
  | [] => by simp [eventsOfAll]
  | value :: rest => by
    rw [eventsOfAll]
    exact List.forall_mem_append.2 ⟨isUse_of_events value, isUse_of_eventsOfAll rest⟩

end

theorem Action.isUse_of_events (action : Action) : ∀ event ∈ action.events, event.isUse := by
  cases action with
  | assign identifier operator value =>
    exact List.forall_mem_append.2 ⟨value.isUse_of_events, by simp [Event.isUse]⟩
  | call identifier arguments => exact Expr.isUse_of_eventsOfAll arguments

/-! ## Blocks and events agree -/

namespace Trail

theorem Follows.branch {trail : Trail} {condition : Expr} {events : List Event}
    {points : List Point} {current : Surroundings}
    (h : ((trail.next .enterBlock).ahead condition.events.length trail.current).Follows events points
      current) :
    trail.Follows (condition.branchEvents events)
      (trail.current.points (trail.count + 1) condition.events ++ points) trail.current :=
  .block rfl rfl ((Follows.uses (trail.next .enterBlock) condition.isUse_of_events).append h)

theorem follows_definition (trail : Trail) (header : VariableHeader) (value : Expr) :
    trail.Follows (header.definitionEvents value)
      (trail.current.points trail.count (header.definitionEvents value))
      (trail.current.define trail.count header value) := by
  rw [VariableHeader.definitionEvents, Surroundings.points_append]
  exact (Follows.uses trail value.isUse_of_events).append (.declaration _ _)

end Trail

mutual

/-- What the blocks of a statement say of its points is what the events before them say. -/
theorem Stmt.follows : ∀ (stmt : Stmt) (trail : Trail),
    trail.Follows stmt.events (stmt.points trail.current trail.count)
      (stmt.after trail.current trail.count)
  | .module identifier body, trail => by
    obtain ⟨current, hbody⟩ := Stmt.followsIn body (trail.next (.enterModule identifier.text))
    exact .block rfl rfl hbody
  | .function header body, trail => by
    have hparameters := Trail.Follows.declarations (trail.next .enterFunction) header.bindings
    obtain ⟨current, hbody⟩ := Stmt.followsIn body ((trail.next .enterFunction).ahead
      header.bindings.length (trail.current.atFunction.declareAll (trail.count + 1) header.bindings))
    have hall := hparameters.append (by rw [List.length_map]; exact hbody)
    rw [Stmt.events, ← List.append_assoc]
    exact .block rfl rfl hall
  | .native _ _, trail => .nil
  | .stdlibFinish _, trail => .nil
  | .declare header, trail => .declaration trail _
  | .define header value, trail => trail.follows_definition header value
  | .action action, trail => .uses trail action.isUse_of_events
  | .returning _ value, trail => .uses trail (Expr.isUse_of_eventsOfAll value.toList)
  | .ifElse _ condition body otherwise, trail => by
    obtain ⟨current, hbody⟩ := Stmt.followsIn body
      ((trail.next .enterBlock).ahead condition.events.length trail.current)
    rw [Stmt.points, ← List.append_assoc]
    exact (Trail.Follows.branch hbody).append (otherwise.follows _)
  | .whileLoop _ condition body, trail => by
    obtain ⟨current, hbody⟩ := Stmt.followsIn body
      ((trail.next .enterBlock).ahead condition.events.length trail.current)
    exact .branch hbody
  | .forLoop keyword header value condition step body, trail => by
    let inner := trail.next .enterBlock
    let declared := inner.ahead (header.definitionEvents value).length
      (trail.current.define (trail.count + 1) header value)
    let ready := declared.ahead (condition.events ++ step.events).length declared.current
    have huses := Trail.Follows.uses declared
      (List.forall_mem_append.2 ⟨condition.isUse_of_events, step.isUse_of_events⟩)
    obtain ⟨current, hbody⟩ := Stmt.followsIn body (ready.next .enterBlock)
    -- The body is a block inside that of the variable.
    have hall := (inner.follows_definition header value).append
      (huses.append (.block rfl rfl hbody))
    have hevents : (Stmt.forLoop keyword header value condition step body).events =
        .enterBlock :: ((header.definitionEvents value ++ (condition.events ++ step.events ++
          .enterBlock :: (Stmt.eventsIn body ++ [.leave]))) ++ [.leave]) := by
      simp [Stmt.events, VariableHeader.loopEvents]
    rw [hevents]
    exact .block rfl rfl hall

theorem Else.follows : ∀ (branch : Else) (trail : Trail),
    trail.Follows branch.events (branch.points trail.current trail.count) trail.current
  | .absent, trail => .nil
  | .block body, trail => by
    obtain ⟨current, hbody⟩ := Stmt.followsIn body (trail.next .enterBlock)
    exact .block rfl rfl hbody
  | .elseIf _ condition body otherwise, trail => by
    obtain ⟨current, hbody⟩ := Stmt.followsIn body
      ((trail.next .enterBlock).ahead condition.events.length trail.current)
    rw [Else.points, ← List.append_assoc]
    exact (Trail.Follows.branch hbody).append (otherwise.follows _)

theorem Stmt.followsIn : ∀ (stmts : List Stmt) (trail : Trail), ∃ current,
    trail.Follows (Stmt.eventsIn stmts) (Stmt.pointsIn trail.current trail.count stmts) current
  | [], trail => ⟨_, .nil⟩
  | stmt :: rest, trail => by
    have hstmt := stmt.follows trail
    obtain ⟨current, hrest⟩ := Stmt.followsIn rest
      (trail.ahead stmt.events.length (stmt.after trail.current trail.count))
    exact ⟨current, hstmt.append hrest⟩

end

/-! ## The points of a program -/

namespace Trail

variable {trail : Trail} {events before : List Event} {p : Point}

/-- A point is known by the events before it. -/
theorem exists_of_mem_points (h : p ∈ trail.points events) : ∃ before later,
    events = before ++ p.event :: later ∧ p.event.isBoundary = false ∧
      p = ⟨trail.count + before.length, (trail.after before).current, p.event⟩ := by
  induction events generalizing trail with
  | nil => cases h
  | cons event rest ih =>
    have tail (h : p ∈ (trail.next event).points rest) : ∃ before later,
        event :: rest = before ++ p.event :: later ∧ p.event.isBoundary = false ∧
          p = ⟨trail.count + before.length, (trail.after before).current, p.event⟩ := by
      obtain ⟨before, later, rfl, hb, hp⟩ := ih h
      refine ⟨event :: before, later, rfl, hb, ?_⟩
      rw [after_cons, List.length_cons, Nat.add_comm before.length, ← Nat.add_assoc,
        ← count_next trail event]
      exact hp
    rw [Trail.points] at h
    split at h
    next => exact tail h
    next hb =>
      obtain rfl | h := List.mem_cons.1 h
      · exact ⟨[], rest, rfl, by simpa using hb, rfl⟩
      · exact tail h

theorem le_place_of_mem_points (h : p ∈ trail.points events) : trail.count ≤ p.place := by
  obtain ⟨before, later, -, -, hp⟩ := exists_of_mem_points h
  rw [hp]
  exact Nat.le_add_right _ _

theorem place_lt_of_mem_points (h : p ∈ trail.points events) :
    p.place < trail.count + events.length := by
  obtain ⟨before, later, he, -, hp⟩ := exists_of_mem_points h
  rw [hp, he, List.length_append, List.length_cons]
  dsimp only
  omega

/-- Points at the same place are the same. -/
theorem eq_of_mem_points {q : Point} (hp : p ∈ trail.points events) (hq : q ∈ trail.points events)
    (h : p.place = q.place) : p = q := by
  obtain ⟨before, later, rfl, -, hp⟩ := exists_of_mem_points hp
  obtain ⟨first, rest, he, -, hq⟩ := exists_of_mem_points hq
  rw [hp, hq] at h
  obtain ⟨rfl, hevent⟩ := List.append_inj he (Nat.add_left_cancel h)
  rw [hp, hq, (List.cons.inj hevent).1]

/-- The events so far have declared what is in scope. -/
def Declared (trail : Trail) (events : List Event) : Prop :=
  ∀ around ∈ trail.current :: trail.saved, ∀ known ∈ around.locals,
    events[known.place]? = some (.declare known.binding)

theorem declared_next (h : trail.Declared events) (hc : trail.count = events.length)
    (event : Event) : (trail.next event).Declared (events ++ [event]) := by
  have hkept : trail.Declared (events ++ [event]) := fun around ha known hk => by
    rw [List.getElem?_append_left (List.getElem?_eq_some_iff.1 (h around ha known hk)).1]
    exact h around ha known hk
  obtain ⟨hcurrent, hsaved⟩ := List.forall_mem_cons.1 hkept
  cases event with
  | enterModule | enterFunction => exact List.forall_mem_cons.2 ⟨nofun, hkept⟩
  | enterBlock => exact List.forall_mem_cons.2 ⟨hcurrent, hkept⟩
  | leave =>
    rcases trail with ⟨count, current, _ | ⟨outer, saved⟩⟩
    · exact hkept
    · exact hsaved
  | declare binding =>
    refine List.forall_mem_cons.2 ⟨?_, hsaved⟩
    rw [next, Surroundings.declare]
    split
    · refine List.forall_mem_cons.2 ⟨?_, hcurrent⟩
      simp [hc]
    · exact hcurrent
  | read | assign => exact hkept

theorem declared_after (h : trail.Declared before) (hc : trail.count = before.length)
    (events : List Event) : (trail.after events).Declared (before ++ events) := by
  induction events generalizing trail before with
  | nil => simpa using h
  | cons event rest ih =>
    have hnext := ih (declared_next h hc event) (by simp [hc])
    rwa [List.append_assoc] at hnext

/-- What is in scope at a point is declared at its place. -/
theorem declare_of_mem_locals (h : p ∈ start.points events) {known : Known}
    (hk : known ∈ p.around.locals) : events[known.place]? = some (.declare known.binding) := by
  obtain ⟨before, later, rfl, -, hp⟩ := exists_of_mem_points h
  have hd : start.Declared [] := by simp [Declared, start, Surroundings.root]
  have hafter := declared_after hd rfl before _ (.head _) known (by rwa [hp] at hk)
  rw [List.nil_append] at hafter
  rw [List.getElem?_append_left (List.getElem?_eq_some_iff.1 hafter).1]
  exact hafter

end Trail

/-- The points of a whole program are those of its events. -/
theorem Stmt.pointsIn_root (program : List Stmt) :
    Stmt.pointsIn .root 0 program = Trail.start.points (Stmt.eventsIn program) := by
  obtain ⟨current, h⟩ := Stmt.followsIn program Trail.start
  exact h.points_eq.symm

end MuLang
