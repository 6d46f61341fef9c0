import MuLang.Block
import MuLang.Resolve

/-!
# The sites of a program

Every point of a program has a site: the module and the function that it stands in, and the
parameters and locals that are visible there. What a statement makes of names and values is listed
with its site, through all blocks of a program.
-/
namespace MuLang

/-- A point of a program: the module around it, the function around it and the names of the locals
that are visible. -/
structure Site where
  module : ModulePath
  function : Option FunctionHeader := none
  locals : List String := []

/-- What a statement makes of values and names. -/
inductive Use where
  | condition (value : Expr)
  | initializer (header : VariableHeader) (value : Expr)
  | result (value : Option Expr)
  | assignment (value : Expr)
  | call (callee : Token) (arguments : List Expr)

mutual

/-- An expression and all expressions inside it. -/
def Expr.nodes : Expr → List Expr
  | .literal type value => [.literal type value]
  | .read type identifier => [.read type identifier]
  | .binary type left operator right =>
    .binary type left operator right :: (left.nodes ++ right.nodes)
  | .unary type operator right => .unary type operator right :: right.nodes
  | .cast type target value => .cast type target value :: value.nodes
  | .assign type assignee operator value => .assign type assignee operator value :: value.nodes
  | .call type callee arguments => .call type callee arguments :: nodesOfAll arguments

def Expr.nodesOfAll : List Expr → List Expr
  | [] => []
  | value :: rest => value.nodes ++ nodesOfAll rest

end

namespace Use

/-- The expressions that are used, with all expressions inside them. -/
def nodes : Use → List Expr
  | .condition value => value.nodes
  | .initializer _ value => value.nodes
  | .result value => Expr.nodesOfAll value.toList
  | .assignment value => value.nodes
  | .call _ arguments => Expr.nodesOfAll arguments

def ofAction : Action → Use
  | .assign _ _ value => .assignment value
  | .call callee arguments => .call callee arguments

end Use

namespace Site

/-- The top level of a program. -/
def root : Site := ⟨[], none, []⟩

def inModule (site : Site) (name : String) : Site := ⟨site.module ++ [name], none, []⟩

/-- The start of a function, where its parameters are visible. -/
def inFunction (site : Site) (header : FunctionHeader) : Site :=
  ⟨site.module, some header, header.parameters.map (·.identifier.text)⟩

/-- After a declaration. In a function it declares a local. -/
def declare (site : Site) (header : VariableHeader) : Site :=
  if site.function.isSome then { site with locals := header.identifier.text :: site.locals }
  else site

/-- After a statement. -/
def after (site : Site) : Stmt → Site
  | .declare header => site.declare header
  | .define header _ => site.declare header
  | _ => site

/-- After some statements. -/
def afterAll (site : Site) (stmts : List Stmt) : Site := stmts.foldl after site

/-- The start of the block that belongs to a statement. -/
def inside (site : Site) : Stmt → Site
  | .module identifier _ => site.inModule identifier.text
  | .function header _ => site.inFunction header
  | .forLoop _ header _ _ _ _ => site.declare header
  | _ => site

end Site

mutual

/-- What a statement makes of values and names, with everything inside it. -/
def Stmt.uses (site : Site) : Stmt → List (Site × Use)
  | .module identifier body => Stmt.usesIn (site.inModule identifier.text) body
  | .function header body => Stmt.usesIn (site.inFunction header) body
  | .native _ _ => []
  | .declare _ => []
  | .define header value => [(site, .initializer header value)]
  | .action action => [(site, .ofAction action)]
  | .ifElse _ condition body otherwise =>
    (site, .condition condition) :: (Stmt.usesIn site body ++ otherwise.uses site)
  | .whileLoop _ condition body => (site, .condition condition) :: Stmt.usesIn site body
  | .forLoop _ header value condition step body =>
    (site, .initializer header value) :: (site.declare header, .condition condition) ::
      (site.declare header, .ofAction step) :: Stmt.usesIn (site.declare header) body
  | .returning _ value => [(site, .result value)]
  | .stdlibFinish _ => []

def Else.uses (site : Site) : Else → List (Site × Use)
  | .absent => []
  | .block body => Stmt.usesIn site body
  | .elseIf _ condition body otherwise =>
    (site, .condition condition) :: (Stmt.usesIn site body ++ otherwise.uses site)

def Stmt.usesIn (site : Site) : List Stmt → List (Site × Use)
  | [] => []
  | stmt :: rest => stmt.uses site ++ Stmt.usesIn (site.after stmt) rest

end

/-! ## Sites and uses of longer blocks -/

variable {site : Site} {use : Site × Use} {stmt : Stmt} {body : List Stmt}

namespace Site

@[simp] theorem module_declare (site : Site) (header : VariableHeader) :
    (site.declare header).module = site.module := by
  unfold declare
  split <;> rfl

@[simp] theorem function_declare (site : Site) (header : VariableHeader) :
    (site.declare header).function = site.function := by
  unfold declare
  split <;> rfl

@[simp] theorem module_after (site : Site) (stmt : Stmt) :
    (site.after stmt).module = site.module := by
  cases stmt <;> simp [after]

@[simp] theorem function_after (site : Site) (stmt : Stmt) :
    (site.after stmt).function = site.function := by
  cases stmt <;> simp [after]

theorem afterAll_append (site : Site) (first second : List Stmt) :
    site.afterAll (first ++ second) = (site.afterAll first).afterAll second :=
  List.foldl_append

@[simp] theorem module_afterAll (site : Site) (stmts : List Stmt) :
    (site.afterAll stmts).module = site.module := by
  induction stmts generalizing site with
  | nil => rfl
  | cons stmt rest ih => exact (ih _).trans (site.module_after stmt)

@[simp] theorem function_afterAll (site : Site) (stmts : List Stmt) :
    (site.afterAll stmts).function = site.function := by
  induction stmts generalizing site with
  | nil => rfl
  | cons stmt rest ih => exact (ih _).trans (site.function_after stmt)

end Site

theorem Stmt.usesIn_append (site : Site) (first second : List Stmt) :
    usesIn site (first ++ second) = usesIn site first ++ usesIn (site.afterAll first) second := by
  induction first generalizing site with
  | nil => rfl
  | cons stmt rest ih => simp [usesIn, ih, Site.afterAll]

theorem Stmt.usesIn_singleton (site : Site) (stmt : Stmt) :
    usesIn site [stmt] = stmt.uses site := by
  simp [usesIn]

/-- A block adds to its statement only what is used inside it. -/
theorem Stmt.mem_uses_withBody (h : use ∈ (stmt.withBody body).uses site) :
    use ∈ stmt.uses site ∨ use ∈ usesIn (site.inside stmt) body := by
  cases stmt with
  | module => exact .inr h
  | function => exact .inr h
  | ifElse keyword condition block otherwise =>
    simp only [withBody, uses, List.mem_cons, List.mem_append, Site.inside] at h ⊢
    grind
  | whileLoop =>
    simp only [withBody, uses, List.mem_cons, Site.inside] at h ⊢
    grind
  | forLoop =>
    simp only [withBody, uses, List.mem_cons, Site.inside] at h ⊢
    grind
  | _ => exact .inl h

/-- A branch adds to a chain only what is used inside it. -/
theorem Else.mem_uses_attach : ∀ {chain branch extended : Else},
    chain.attach branch = some extended → use ∈ extended.uses site →
    use ∈ chain.uses site ∨ use ∈ branch.uses site
  | .absent, branch, extended, ha, h => by
    cases ha
    exact .inr h
  | .block _, _, _, ha, _ => nomatch ha
  | .elseIf keyword condition body rest, branch, extended, ha, h => by
    obtain ⟨longer, hl, rfl⟩ := Option.map_eq_some_iff.1 ha
    simp only [uses, List.mem_cons, List.mem_append] at h ⊢
    obtain h | h | h := h
    · exact .inl (.inl h)
    · exact .inl (.inr (.inl h))
    · exact (mem_uses_attach hl h).imp_left fun h => .inr (.inr h)

end MuLang
