import MuLang.Proofs.Outline
import MuLang.Proofs.Site
import MuLang.Reading

/-!
# Programs under way

While a program is read its statements lie in open blocks. The innermost one stands at a site, and
what has been read so far makes uses of names and values and declares something. Closing a block
changes none of this: what lies in it is handed to the block around it.
-/
namespace MuLang

/-- What the statements of a block declare. Inside a function they declare nothing for others. -/
def Site.declarationsIn (site : Site) (stmts : List Stmt) : List Declaration :=
  if site.function.isSome then [] else Stmt.declarationsIn site.module stmts

/-- The start of a block that belongs to an owner. -/
def Site.within (site : Site) : Owner → Site
  | .statement stmt => site.inside stmt
  | _ => site

namespace Owner

/-- What the head of a block makes of values and names. -/
def uses (site : Site) : Owner → List (Site × Use)
  | .statement stmt => stmt.uses site
  | .elseIf _ condition => [(site, .condition condition)]
  | .otherwise | .failed _ => []

/-- What the head of a block declares. -/
def declarations (site : Site) : Owner → List Declaration
  | .statement stmt => site.declarationsIn [stmt]
  | _ => []

/-- A block that has just been opened at a site: modules and functions lie outside functions, and
control flow lies inside. -/
inductive Opened (site : Site) : Owner → Prop
  | module {identifier : Token} : site.function = none →
      Opened site (.statement (.module identifier []))
  | function {header : FunctionHeader} : site.function = none →
      Opened site (.statement (.function header []))
  | ifElse {keyword : Token} {condition : Expr} : site.function.isSome →
      Opened site (.statement (.ifElse keyword condition [] .absent))
  | whileLoop {keyword : Token} {condition : Expr} : site.function.isSome →
      Opened site (.statement (.whileLoop keyword condition []))
  | forLoop {keyword : Token} {header : VariableHeader} {value condition : Expr} {step : Action} :
      site.function.isSome → Opened site (.statement (.forLoop keyword header value condition step []))
  | elseIf {keyword : Token} {condition : Expr} : site.function.isSome →
      Opened site (.elseIf keyword condition)
  | otherwise : site.function.isSome → Opened site .otherwise

/-- The scopes at the start of a block, before anything is declared there. -/
def entered (scopes : ScopeStack) : Owner → ScopeStack
  | .statement (.module identifier _) =>
    scopes.pushIn .module (scopes.currentModule ++ [identifier.text])
  | .statement (.function header _) =>
    scopes.enter ⟨.function, scopes.currentModule, [],
      (header.definition (.interpreted [])).toOption.map (·.returnType)⟩
  | .statement (.whileLoop ..) => scopes.push .whileBlock
  | .statement (.forLoop ..) => (scopes.push .loopHeader).push .forBlock
  | _ => scopes.push .ifBlock

end Owner

/-- What has been read of a program up to a point: the site of the point, and the uses and
declarations before it. -/
structure View where
  site : Site := .root
  uses : List (Site × Use) := []
  outline : List Declaration := []

namespace View

/-- After some more statements. -/
def extend (view : View) (stmts : List Stmt) : View :=
  ⟨view.site.afterAll stmts, view.uses ++ Stmt.usesIn view.site stmts,
    view.outline ++ view.site.declarationsIn stmts⟩

/-- After the head of a block. -/
def enter (view : View) (owner : Owner) : View :=
  ⟨view.site.within owner, view.uses ++ owner.uses view.site,
    view.outline ++ owner.declarations view.site⟩

/-- The view from inside some open blocks. -/
def ofBlocks (program : List Stmt) : List (Owner × Body) → View
  | [] => extend {} program
  | (owner, body) :: blocks => ((ofBlocks program blocks).enter owner).extend body.statements

/-! ## Adding statements -/

variable {view : View} {stmts : List Stmt}

theorem declarationsIn_append (site : Site) (first second : List Stmt) :
    site.declarationsIn (first ++ second) =
      site.declarationsIn first ++ site.declarationsIn second := by
  unfold Site.declarationsIn
  split
  · rfl
  · exact Stmt.declarationsIn_append _ _ _

theorem declarationsIn_congr {site other : Site} (hm : site.module = other.module)
    (hf : site.function = other.function) : site.declarationsIn = other.declarationsIn := by
  funext stmts
  rw [Site.declarationsIn, hm, hf, Site.declarationsIn]

@[simp] theorem declarationsIn_afterAll (site : Site) (stmts : List Stmt) :
    (site.afterAll stmts).declarationsIn = site.declarationsIn :=
  declarationsIn_congr (by simp) (by simp)

theorem extend_append (view : View) (first second : List Stmt) :
    view.extend (first ++ second) = (view.extend first).extend second := by
  simp only [extend, Site.afterAll_append, Stmt.usesIn_append, declarationsIn_append,
    declarationsIn_afterAll, List.append_assoc]

theorem extend_nil (view : View) : view.extend [] = view := by
  have hd : view.site.declarationsIn [] = [] := by
    unfold Site.declarationsIn
    split <;> rfl
  simp [extend, hd, Site.afterAll, Stmt.usesIn]

theorem declarationsIn_of_function {site : Site} (h : site.function.isSome) (stmts : List Stmt) :
    site.declarationsIn stmts = [] :=
  if_pos h

/-! ## Closing a block -/

/-- Another view from the same site, with the same declarations and no other uses. -/
structure Closes (closed opened : View) (site : Site) : Prop where
  site_eq : closed.site = site
  uses_subset : closed.uses ⊆ opened.uses
  outline_eq : closed.outline = opened.outline

/-- A statement takes its block over. -/
theorem closes_statement (view : View) {stmt : Stmt} (body : List Stmt)
    (h : Owner.Opened view.site (.statement stmt)) :
    Closes (view.extend [stmt.withBody body]) ((view.enter (.statement stmt)).extend body)
      view.site := by
  refine ⟨?_, fun use hu => ?_, ?_⟩
  · cases h <;> rfl
  · simp only [extend, enter, Owner.uses, Site.within, Stmt.usesIn_singleton, List.mem_append,
      or_assoc] at hu ⊢
    exact hu.imp_right Stmt.mem_uses_withBody
  · simp only [extend, enter, Owner.declarations, Site.within, List.append_assoc]
    congr 1
    cases h with
    | module hf => simp [Site.declarationsIn, Site.inside, Site.inModule, hf, Stmt.withBody,
        Stmt.declarationsIn, Stmt.declarations]
    | function hf => simp [Site.declarationsIn, Site.inside, Site.inFunction, hf, Stmt.withBody,
        Stmt.declarationsIn, Stmt.declarations]
    | ifElse hf => simp [declarationsIn_of_function, Site.inside, hf]
    | whileLoop hf => simp [declarationsIn_of_function, Site.inside, hf]
    | forLoop hf => simp [declarationsIn_of_function, Site.inside, hf]

/-- A chain of branches takes a further one over. -/
theorem closes_attach (view : View) {parent : Body} {branch : Else}
    (hf : view.site.function.isSome) (h : parent.attach? branch = some stmts) :
    (view.extend stmts).site = (view.extend parent.statements).site ∧
      (view.extend stmts).uses ⊆ (view.extend parent.statements).uses ++
        branch.uses (view.extend parent.statements).site ∧
      (view.extend stmts).outline = (view.extend parent.statements).outline := by
  unfold Body.attach? at h
  split at h
  next keyword condition block otherwise _ hl =>
    obtain ⟨earlier, he⟩ := List.getLast?_eq_some_iff.1 hl
    obtain ⟨extended, ha, rfl⟩ := Option.map_eq_some_iff.1 h
    rw [he, List.dropLast_concat, extend_append, extend_append]
    refine ⟨rfl, fun use hu => ?_, ?_⟩
    · simp only [extend, Stmt.usesIn_singleton, Stmt.uses, List.mem_append, List.mem_cons] at hu ⊢
      obtain hu | rfl | hu | hu := hu
      · exact .inl (.inl hu)
      · exact .inl (.inr (.inl rfl))
      · exact .inl (.inr (.inr (.inl hu)))
      · obtain hu | hu := Else.mem_uses_attach ha hu
        · exact .inl (.inr (.inr (.inr hu)))
        · exact .inr hu
    · simp [extend, declarationsIn_of_function, hf]
  · cases h

theorem enter_uses_subset (view : View) (owner : Owner) (body : List Stmt) :
    view.uses ⊆ ((view.enter owner).extend body).uses := fun _ hu => by
  simp only [extend, enter, List.mem_append]
  exact .inl (.inl hu)

/-- A closed block is handed to the block around it. -/
theorem closes_close (view : View) {parent : Body} {owner : Owner} (body : List Stmt)
    (h : owner.Opened (view.extend parent.statements).site) :
    Closes (view.extend (parent.close owner body).statements)
      (((view.extend parent.statements).enter owner).extend body)
      (view.extend parent.statements).site := by
  -- A branch that finds its chain is attached, and one that does not is lost.
  have branch {owner : Owner} {branch : Else} (hf : (view.extend parent.statements).site.function.isSome)
      (hs : ∀ site, site.function.isSome → owner.declarations site = [])
      (hw : ∀ site : Site, site.within owner = site)
      (hb : ∀ site : Site, branch.uses site = owner.uses site ++ Stmt.usesIn site body) :
      Closes (view.extend ((parent.attach? branch).getD parent.statements))
        (((view.extend parent.statements).enter owner).extend body)
        (view.extend parent.statements).site := by
    have ho : (((view.extend parent.statements).enter owner).extend body).outline =
        (view.extend parent.statements).outline := by
      have hd := hs _ hf
      simp only [enter, hw, extend] at hd hf ⊢
      simp [hd, declarationsIn_of_function hf]
    cases ha : parent.attach? branch with
    | none => exact ⟨rfl, enter_uses_subset _ _ _, ho.symm⟩
    | some stmts =>
      obtain ⟨hsite, huses, houtline⟩ := closes_attach view (by simpa [extend] using hf) ha
      refine ⟨hsite, fun use hu => ?_, houtline.trans ho.symm⟩
      have hm := huses hu
      rw [hb] at hm
      simpa [extend, enter, hw] using hm
  cases owner with
  | statement stmt =>
    have hc := closes_statement (view.extend parent.statements) body h
    rwa [← extend_append] at hc
  | elseIf keyword condition =>
    cases h with
    | elseIf hf =>
      have hc := @branch (.elseIf keyword condition) (.elseIf keyword condition body .absent) hf
        (fun _ _ => rfl) (fun _ => rfl)
        fun site => by simp [Else.uses, Owner.uses]
      rw [Body.close]
      split
      next ha => rwa [ha] at hc
      next ha => rwa [ha] at hc
  | otherwise =>
    cases h with
    | otherwise hf =>
      exact branch hf (fun _ _ => rfl) (fun _ => rfl) fun site => by simp [Else.uses, Owner.uses]
  | failed kind => cases h

/-- Only inside functions may an `else` follow a block. -/
theorem function_of_close {site : Site} {parent : Body} {owner : Owner} {body : List Stmt}
    (h : owner.Opened site) (hc : (parent.close owner body).chain ≠ .closed) :
    site.function.isSome := by
  cases h with
  | module => exact absurd rfl hc
  | function => exact absurd rfl hc
  | ifElse hf => exact hf
  | whileLoop hf => exact hf
  | forLoop hf => exact hf
  | elseIf hf => exact hf
  | otherwise hf => exact hf

end View

namespace Reading

/-- What has been read before the innermost block. -/
def base (reading : Reading) : View :=
  match reading.blocks with
  | [] => {}
  | (owner, _) :: blocks => (View.ofBlocks reading.program.statements blocks).enter owner

/-- What has been read so far. -/
def view (reading : Reading) : View := .ofBlocks reading.program.statements reading.blocks

variable (reading : Reading)

theorem view_eq : reading.view = reading.base.extend reading.body.statements := by
  unfold view base body
  cases reading.blocks <;> rfl

@[simp] theorem base_changeBody (change : Body → Body) :
    (reading.changeBody change).base = reading.base := by
  rcases reading with ⟨session, program, _ | ⟨block, blocks⟩, current⟩ <;> rfl

@[simp] theorem body_changeBody (change : Body → Body) :
    (reading.changeBody change).body = change reading.body := by
  rcases reading with ⟨session, program, _ | ⟨block, blocks⟩, current⟩ <;> rfl

end Reading

end MuLang
