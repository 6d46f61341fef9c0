import MuLang.Proofs.Image

/-!
# Events of a program

What a program does to names, one thing after the other: it enters and leaves blocks, declares
variables, reads and assigns them. The events stand in the order in which the program is evaluated
as it is written: the head of a block before its body, the left operand before the right one, a value
before what it is assigned to, and branches and the bodies of loops as they follow each other.
-/
namespace MuLang

/-- What a declaration says of the variable that it declares. -/
structure Binding where
  name : String
  /-- The declared type, if the declaration names one. -/
  datatype : Option Datatype
  modifiers : List Modifier
  /-- Whether the variable has a value from its declaration on, as parameters have. -/
  valued : Bool

/-- What is done to names. -/
inductive Event where
  | enterModule (name : String)
  | enterFunction
  | enterBlock
  | leave
  | declare (binding : Binding)
  | read (type : Datatype) (identifier : Token)
  /-- An assignment, of a type where it is an expression. -/
  | assign (type : Option Datatype) (identifier operator : Token)

/-- The variable of a declaration, with the type of its value if it has one. As for globals, it is
nullable where a modifier or the value says so. -/
def VariableHeader.binding (header : VariableHeader) (value : Option Datatype) : Binding where
  name := header.identifier.text
  datatype := header.datatype.datatype?
    (Token.areNullable header.modifiers || value.any (·.nullable))
  modifiers := Token.modifiers header.modifiers
  valued := value.isSome

def Parameter.binding (parameter : Parameter) : Binding where
  name := parameter.identifier.text
  datatype := parameter.datatype.datatype? (Token.areNullable parameter.modifiers)
  modifiers := Token.modifiers parameter.modifiers
  valued := true

def FunctionHeader.bindings (header : FunctionHeader) : List Binding :=
  header.parameters.map (·.binding)

mutual

def Expr.events : Expr → List Event
  | .literal _ _ => []
  | .read type identifier => [.read type identifier]
  | .binary _ left _ right => left.events ++ right.events
  | .unary _ _ right => right.events
  | .cast _ _ value => value.events
  | .assign type assignee operator value => value.events ++ [.assign (some type) assignee operator]
  | .call _ _ arguments => Expr.eventsOfAll arguments

def Expr.eventsOfAll : List Expr → List Event
  | [] => []
  | value :: rest => value.events ++ Expr.eventsOfAll rest

end

def Action.events : Action → List Event
  | .assign identifier operator value => value.events ++ [.assign none identifier operator]
  | .call _ arguments => Expr.eventsOfAll arguments

/-- A declaration with a value, which comes first. -/
def VariableHeader.definitionEvents (header : VariableHeader) (value : Expr) : List Event :=
  value.events ++ [.declare (header.binding (some value.type))]

/-- A block under a condition. -/
def Expr.branchEvents (condition : Expr) (body : List Event) : List Event :=
  .enterBlock :: (condition.events ++ body ++ [.leave])

/-- The head of a loop, whose variable lives in a block of its own around the body. -/
def VariableHeader.loopEvents (header : VariableHeader) (value condition : Expr) (step : Action) :
    List Event :=
  .enterBlock :: (header.definitionEvents value ++
    (condition.events ++ step.events ++ [.enterBlock]))

mutual

def Stmt.events : Stmt → List Event
  | .module identifier body =>
    .enterModule identifier.text :: (Stmt.eventsIn body ++ [.leave])
  | .function header body =>
    .enterFunction :: (header.bindings.map .declare ++ (Stmt.eventsIn body ++ [.leave]))
  | .native _ _ => []
  | .declare header => [.declare (header.binding none)]
  | .define header value => header.definitionEvents value
  | .action action => action.events
  | .ifElse _ condition body otherwise =>
    condition.branchEvents (Stmt.eventsIn body) ++ otherwise.events
  | .whileLoop _ condition body => condition.branchEvents (Stmt.eventsIn body)
  | .forLoop _ header value condition step body =>
    header.loopEvents value condition step ++ (Stmt.eventsIn body ++ [.leave, .leave])
  | .returning _ value => Expr.eventsOfAll value.toList
  | .stdlibFinish _ => []

def Else.events : Else → List Event
  | .absent => []
  | .block body => .enterBlock :: (Stmt.eventsIn body ++ [.leave])
  | .elseIf _ condition body otherwise =>
    condition.branchEvents (Stmt.eventsIn body) ++ otherwise.events

def Stmt.eventsIn : List Stmt → List Event
  | [] => []
  | stmt :: rest => stmt.events ++ Stmt.eventsIn rest

end

/-! ## Events of longer blocks -/

theorem Stmt.eventsIn_append (first second : List Stmt) :
    eventsIn (first ++ second) = eventsIn first ++ eventsIn second := by
  induction first with
  | nil => rfl
  | cons stmt rest ih => simp [eventsIn, ih]

theorem Stmt.eventsIn_singleton (stmt : Stmt) : eventsIn [stmt] = stmt.events := by
  simp [eventsIn]

/-- A branch is evaluated after the chain that it is attached to. -/
theorem Else.events_attach : ∀ {chain branch extended : Else},
    chain.attach branch = some extended → extended.events = chain.events ++ branch.events
  | .absent, _, _, h => by
    cases h
    rfl
  | .block _, _, _, h => nomatch h
  | .elseIf keyword condition body rest, branch, extended, h => by
    obtain ⟨longer, hl, rfl⟩ := Option.map_eq_some_iff.1 h
    simp [events, events_attach hl]

theorem Body.events_attach? {parent : Body} {branch : Else} {stmts : List Stmt}
    (h : parent.attach? branch = some stmts) :
    Stmt.eventsIn stmts = Stmt.eventsIn parent.statements ++ branch.events := by
  rw [attach?] at h
  split at h
  next keyword condition block otherwise _ hl =>
    obtain ⟨earlier, he⟩ := List.getLast?_eq_some_iff.1 hl
    obtain ⟨extended, ha, rfl⟩ := Option.map_eq_some_iff.1 h
    rw [he, List.dropLast_concat, Stmt.eventsIn_append, Stmt.eventsIn_append,
      Stmt.eventsIn_singleton, Stmt.eventsIn_singleton]
    simp [Stmt.events, Else.events_attach ha]
  next => cases h

/-! ## Blocks under way -/

namespace Owner

/-- The head of a block, up to its first statement. -/
def opening : Owner → List Event
  | .statement (.module identifier _) => [.enterModule identifier.text]
  | .statement (.function header _) => .enterFunction :: header.bindings.map .declare
  | .statement (.ifElse _ condition _ _) => .enterBlock :: condition.events
  | .statement (.whileLoop _ condition _) => .enterBlock :: condition.events
  | .statement (.forLoop _ header value condition step _) =>
    header.loopEvents value condition step
  | .elseIf _ condition => .enterBlock :: condition.events
  | .otherwise => [.enterBlock]
  | .statement _ | .failed _ => []

/-- The end of a block. With the body of a loop the block of its variable ends. -/
def closing : Owner → List Event
  | .statement (.forLoop ..) => [.leave, .leave]
  | _ => [.leave]

end Owner

/-- A block that is closed adds its head, what lies in it and its end. A branch finds the chain that
it belongs to. -/
theorem Body.Chained.eventsIn_close {parent : Body} {owner : Owner} {head : List Token}
    (h : parent.Chained) (ho : owner.Spelled head) (hb : owner.isBranch → parent.chain ≠ .closed)
    (body : List Stmt) :
    Stmt.eventsIn (parent.close owner body).statements = Stmt.eventsIn parent.statements ++
      (owner.opening ++ (Stmt.eventsIn body ++ owner.closing)) := by
  have branch {branch : Else} (hn : parent.chain ≠ .closed) : ∃ stmts,
      parent.attach? branch = some stmts ∧
        Stmt.eventsIn stmts = Stmt.eventsIn parent.statements ++ branch.events := by
    obtain ⟨before, keyword, condition, block, extended, ha, -⟩ := h.attach hn branch
    exact ⟨_, ha, events_attach? ha⟩
  cases ho with
  | @elseIf _ keyword condition =>
    obtain ⟨stmts, ha, he⟩ := @branch (.elseIf keyword condition body .absent) (hb rfl)
    simp only [Body.close, ha, he]
    simp [Else.events, Expr.branchEvents, Owner.opening, Owner.closing]
  | otherwise =>
    obtain ⟨stmts, ha, he⟩ := @branch (.block body) (hb rfl)
    rw [Body.close, ha, Option.getD_some, he]
    simp [Else.events, Owner.opening, Owner.closing]
  | _ =>
    simp [Body.close, Stmt.eventsIn_append, Stmt.eventsIn_singleton, Stmt.withBody, Stmt.events,
      Else.events, Expr.branchEvents, Owner.opening, Owner.closing]

namespace Reading

/-- The events inside some open blocks. -/
def traceOf (program : List Stmt) : List (Owner × Body) → List Event
  | [] => Stmt.eventsIn program
  | (owner, body) :: blocks =>
    traceOf program blocks ++ (owner.opening ++ Stmt.eventsIn body.statements)

/-- The events of what has been read so far. -/
def trace (reading : Reading) : List Event := traceOf reading.program.statements reading.blocks

theorem trace_changeBody {reading : Reading} {change : Body → Body} {events : List Event}
    (h : Stmt.eventsIn (change reading.body).statements =
      Stmt.eventsIn reading.body.statements ++ events) :
    (reading.changeBody change).trace = reading.trace ++ events := by
  rcases reading with ⟨session, program, _ | ⟨⟨owner, body⟩, blocks⟩, current⟩
  · exact h
  · have h : Stmt.eventsIn (change body).statements = Stmt.eventsIn body.statements ++ events := h
    simp [changeBody, trace, traceOf, h]

end Reading

end MuLang
