import MuLang.Proofs.Enclosure
import MuLang.Proofs.Twin

/-!
# Programs that vary in one place

Two readings of the same tokens, from points that look alike, stay alike, also past their errors.
The statements built so far may differ in one place: what is read afterwards is added behind it, and
when the modules around it are closed it is taken over into them.
-/
namespace MuLang

/-- A relation of statements that is kept when the same statements follow, and inside of the same
module behind the same statements. -/
structure Stmt.Contextual (R : List Stmt → List Stmt → Prop) : Prop where
  append : ∀ {xs ys : List Stmt} (more : List Stmt), R xs ys → R (xs ++ more) (ys ++ more)
  module : ∀ {xs ys : List Stmt} (before : List Stmt) (identifier : Token), R xs ys →
    R (before ++ [.module identifier xs]) (before ++ [.module identifier ys])

/-- A block of a module, or one that is lost with its faulty head. -/
def Owner.Encloses : Owner → Prop
  | .statement (.module _ _) => True
  | .failed _ => True
  | _ => False

namespace Body

variable {R : List Stmt → List Stmt → Prop} {body other : Body}

/-- Bodies that differ at their beginnings. -/
def Varies (R : List Stmt → List Stmt → Prop) (body other : Body) : Prop :=
  ∃ (xs ys : List Stmt) (tail : Body), R xs ys ∧ tail.Grounded ∧ body = tail.after xs ∧
    other = tail.after ys

theorem Varies.chain_eq (h : body.Varies R other) : body.chain = other.chain := by
  obtain ⟨xs, ys, tail, -, -, rfl, rfl⟩ := h
  rfl

theorem Varies.add (h : body.Varies R other) (stmt : Option Stmt) :
    (body.add stmt).Varies R (other.add stmt) := by
  obtain ⟨xs, ys, tail, hr, -, rfl, rfl⟩ := h
  exact ⟨xs, ys, tail.add stmt, hr, grounded_add _ _, add_after _ _ _, add_after _ _ _⟩

theorem Varies.close (h : body.Varies R other) (owner : Owner) (inner : List Stmt) :
    (body.close owner inner).Varies R (other.close owner inner) := by
  obtain ⟨xs, ys, tail, hr, hg, rfl, rfl⟩ := h
  exact ⟨xs, ys, tail.close owner inner, hr, grounded_close _ _ _, close_after hg _ _,
    close_after hg _ _⟩

theorem Varies.related (h : body.Varies R other) (hR : Stmt.Contextual R) :
    R body.statements other.statements := by
  obtain ⟨xs, ys, tail, hr, -, rfl, rfl⟩ := h
  exact hR.append _ hr

end Body

/-- A program under way and another one: they are the same, or differ in one of their bodies, around
which there are modules alone. -/
inductive Varied (R : List Stmt → List Stmt → Prop) :
    Body → List (Owner × Body) → Body → List (Owner × Body) → Prop
  | same (program : Body) (blocks : List (Owner × Body)) : Varied R program blocks program blocks
  | program {program other : Body} (blocks : List (Owner × Body)) : program.Varies R other →
      Varied R program blocks other blocks
  | block (program : Body) (inner : List (Owner × Body)) {owner : Owner} {body other : Body}
      {outer : List (Owner × Body)} : body.Varies R other → owner.Encloses →
      (∀ block ∈ outer, block.1.Encloses) →
      Varied R program (inner ++ (owner, body) :: outer) program (inner ++ (owner, other) :: outer)

namespace Varied

variable {R : List Stmt → List Stmt → Prop} {program other : Body}
  {blocks others : List (Owner × Body)}

theorem push (h : Varied R program blocks other others) (block : Owner × Body) :
    Varied R program (block :: blocks) other (block :: others) := by
  cases h with
  | same => exact .same _ _
  | program blocks hb => exact .program _ hb
  | block inner hb ho hm => exact .block _ (block :: inner) hb ho hm

theorem nil_iff (h : Varied R program blocks other others) : blocks = [] ↔ others = [] := by
  cases h with
  | same => rfl
  | program => rfl
  | block inner => cases inner <;> simp

/-- The innermost blocks are the same, or they are where the programs vary. -/
theorem top {owner owner' : Owner} {body body' : Body} {rest rest' : List (Owner × Body)}
    (h : Varied R program ((owner, body) :: rest) other ((owner', body') :: rest')) :
    owner = owner' ∧ (body = body' ∧ Varied R program rest other rest' ∨
      program = other ∧ rest = rest' ∧ body.Varies R body' ∧ owner.Encloses ∧
        ∀ block ∈ rest, block.1.Encloses) := by
  generalize hb : (owner, body) :: rest = blocks, ho : (owner', body') :: rest' = others at h
  cases h with
  | same =>
    cases hb
    cases ho
    exact ⟨rfl, .inl ⟨rfl, .same _ _⟩⟩
  | program _ hv =>
    cases hb
    cases ho
    exact ⟨rfl, .inl ⟨rfl, .program _ hv⟩⟩
  | block inner hv he hm =>
    cases inner with
    | nil =>
      cases hb
      cases ho
      exact ⟨rfl, .inr ⟨rfl, rfl, hv, he, hm⟩⟩
    | cons block inner =>
      cases hb
      cases ho
      exact ⟨rfl, .inl ⟨rfl, .block _ inner hv he hm⟩⟩

end Varied

namespace Reading

variable {like : Likeness} {R : List Stmt → List Stmt → Prop} {first second : Reading}
  {tokens : List Token} {token : Token}

/-- Readings that look alike, of programs that vary in one place. -/
structure Twin (like : Likeness) (R : List Stmt → List Stmt → Prop) (first second : Reading) :
    Prop where
  session : Session.Twin like first.session second.session
  current_eq : first.current = second.current
  varied : Varied R first.program first.blocks second.program second.blocks

namespace Twin

theorem chain_eq (h : Twin like R first second) : first.body.chain = second.body.chain := by
  have hv := h.varied
  rw [body_eq, body_eq]
  generalize first.program = program, first.blocks = blocks, second.program = other,
    second.blocks = others at hv
  cases hv with
  | same => rfl
  | program blocks hb =>
    cases blocks with
    | nil => exact hb.chain_eq
    | cons => rfl
  | block inner hb =>
    cases inner with
    | nil => exact hb.chain_eq
    | cons => rfl

theorem withSession (h : Twin like R first second) {s e : Session} (hs : Session.Twin like s e) :
    Twin like R { first with session := s } { second with session := e } :=
  ⟨hs, h.current_eq, h.varied⟩

theorem report (h : Twin like R first second) (error : Error) :
    Twin like R (first.report error) (second.report error) :=
  h.withSession (h.session.report error)

/-- The same may be done to the innermost bodies. -/
theorem changeBody (h : Twin like R first second) {change : Body → Body}
    (hc : ∀ body other : Body, body.Varies R other → (change body).Varies R (change other)) :
    Twin like R (first.changeBody change) (second.changeBody change) := by
  obtain ⟨hs, hcurrent, hv⟩ := h
  refine ⟨by simpa using hs, by simpa using hcurrent, ?_⟩
  rcases first with ⟨session, program, blocks, current⟩
  rcases second with ⟨session', program', blocks', current'⟩
  dsimp only at hv
  cases hv with
  | same => cases blocks <;> exact .same _ _
  | program blocks hb =>
    cases blocks with
    | nil => exact .program [] (hc _ _ hb)
    | cons block blocks => exact .program _ hb
  | block inner hb ho hm =>
    cases inner with
    | nil => exact .block _ [] (hc _ _ hb) ho hm
    | cons block inner => exact .block _ ((block.1, change block.2) :: inner) hb ho hm

/-- A step that does the same in sessions that look alike is run alike. -/
theorem run {α : Type} (h : Twin like R first second) {step : Step (Option α)}
    (hs : (step first.session).1 = (step second.session).1 ∧
      Session.Twin like (step first.session).2 (step second.session).2) :
    (first.run step).1 = (second.run step).1 ∧
      Twin like R (first.run step).2 (second.run step).2 := by
  obtain ⟨hr, hl⟩ := hs
  unfold Reading.run
  rcases he : step first.session with ⟨result, s⟩
  rcases ho : step second.session with ⟨other, e⟩
  rw [he, ho] at hr hl
  obtain rfl : result = other := hr
  cases result with
  | error error => exact ⟨rfl, h.withSession (hl.report error)⟩
  | ok result => exact ⟨rfl, h.withSession hl⟩

theorem endStatement (hl : like.Lawful) (h : Twin like R first second)
    (hw : Step.Written (Token.afterModifiers tokens).head? first.session) :
    Twin like R (first.endStatement tokens) (second.endStatement tokens) := by
  obtain ⟨hr, hafter⟩ := h.run (Step.twins_closed hl tokens _ _ h.session hw)
  rw [endStatement_eq, endStatement_eq, hr]
  exact hafter.changeBody fun _ _ hb => hb.add _

theorem openBlock (hl : like.Lawful) (h : Twin like R first second)
    (hx : like.lax → (first.openBlock tokens).session.scopes.currentKind ≠ .program) :
    Twin like R (first.openBlock tokens) (second.openBlock tokens) := by
  obtain ⟨hr, hafter⟩ := h.run (Step.twins_owner hl second.body.chain tokens _ _ h.session trivial)
  have hsize := congrArg ScopeStack.size h.session.scopes_eq
  unfold Reading.openBlock at hx ⊢
  rw [h.chain_eq] at hx ⊢
  simp only [hr, ← hsize]
  refine ⟨hafter.session.withScopes ?_ hx, hafter.current_eq, ?_⟩
  · rw [hafter.session.scopes_eq]
  · exact hafter.varied.push _

/-- The same program may be continued in two ways inside of modules. -/
theorem of_parts {reading : Reading} {s e : Session} (hs : Session.Twin like s e)
    (hm : ∀ block ∈ reading.blocks, block.1.Encloses) {change other : Body → Body}
    (hc : ∀ body : Body, change body = other body ∨ (change body).Varies R (other body)) :
    Twin like R ({ reading with session := s }.changeBody change)
      ({ reading with session := e }.changeBody other) := by
  refine ⟨by simpa using hs, by simp, ?_⟩
  rcases reading with ⟨session, program, _ | ⟨⟨owner, body⟩, blocks⟩, current⟩
  · obtain heq | hv := hc program
    · simp only [Reading.changeBody, heq]
      exact .same _ _
    · exact .program [] hv
  · obtain heq | hv := hc body
    · simp only [Reading.changeBody, heq]
      exact .same _ _
    · obtain ⟨ho, hm⟩ := List.forall_mem_cons.1 hm
      exact .block _ [] hv ho hm

/-- Around the place where programs vary that is taken over, or it is lost. -/
theorem close_encloses (hR : Stmt.Contextual R) {owner : Owner} {body other : Body}
    (h : body.Varies R other) (ho : owner.Encloses) (parent : Body) :
    parent.close owner body.statements = parent.close owner other.statements ∨
      (parent.close owner body.statements).Varies R (parent.close owner other.statements) := by
  cases owner with
  | statement stmt =>
    cases stmt with
    | module identifier inner =>
      refine .inr ⟨_, _, {}, hR.module parent.statements identifier (h.related hR), nofun, ?_,
        ?_⟩ <;>
        simp [Body.close, Body.after, Stmt.withBody, Stmt.isIf]
    | _ => cases ho
  | failed kind => exact .inl rfl
  | _ => cases ho

theorem closeBlock (hR : Stmt.Contextual R) (h : Twin like R first second)
    (hx : like.lax → (first.closeBlock token).session.scopes.currentKind ≠ .program) :
    Twin like R (first.closeBlock token) (second.closeBlock token) := by
  obtain ⟨hs, hcurrent, hv⟩ := h
  have hpop := congrArg ScopeStack.popBlock? hs.scopes_eq
  rcases first with ⟨session, program, _ | ⟨⟨owner, body⟩, rest⟩, current⟩
  · rcases second with ⟨session', program', _ | ⟨block', rest'⟩, current'⟩
    · exact report ⟨hs, hcurrent, hv⟩ _
    · cases hv.nil_iff.1 rfl
  rcases second with ⟨session', program', _ | ⟨⟨owner', body'⟩, rest'⟩, current'⟩
  · cases hv.nil_iff.2 rfl
  dsimp only at hs hcurrent hv hpop
  obtain ⟨rfl, hcases⟩ := hv.top
  unfold Reading.closeBlock at hx ⊢
  dsimp only at hx ⊢
  rw [← hpop]
  cases hp : session.scopes.popBlock? with
  | none =>
    refine report ⟨hs, hcurrent, ?_⟩ _
    obtain ⟨-, hrest⟩ | ⟨rfl, rfl, -⟩ := hcases
    · exact hrest
    · exact .same _ _
  | some scopes =>
    have hleft : Session.Twin like { session with scopes } { session' with scopes } :=
      hs.withScopes rfl fun hl => by simpa [hp, Reading.changeScopes] using hx hl
    obtain ⟨rfl, hrest⟩ | ⟨rfl, rfl, hb, he, hm⟩ := hcases
    · exact @changeBody like R ⟨{ session with scopes }, program, rest, current⟩
        ⟨{ session' with scopes }, program', rest', current'⟩ ⟨hleft, hcurrent, hrest⟩ _
        fun _ _ hb => hb.close _ _
    · obtain rfl : current = current' := hcurrent
      exact @of_parts like R ⟨session, program, rest, current⟩ _ _ hleft hm _ _
        (close_encloses hR hb he)

/-- What is asked of a token to be read: in a first pass it does not end a global whose type has to
be inferred, and where the modes may differ it does not lead to the top level. -/
structure Permits (like : Likeness) (reading : Reading) (token : Token) : Prop where
  written : token.kind = .semicolon →
    Step.Written (Token.afterModifiers (reading.current ++ [token])).head? reading.session
  inside : like.lax → (reading.step token).session.scopes.currentKind ≠ .program

theorem step (hl : like.Lawful) (hR : Stmt.Contextual R) (h : Twin like R first second)
    (hp : Permits like first token) : Twin like R (first.step token) (second.step token) := by
  have hstart : Twin like R { first with current := [] } { second with current := [] } :=
    ⟨h.session, rfl, h.varied⟩
  obtain ⟨hw, hx⟩ := hp
  unfold Reading.step at hx ⊢
  rw [← h.current_eq]
  split
  next hk => exact hstart.endStatement hl (hw hk)
  next hk =>
    simp only [hk] at hx
    exact hstart.openBlock hl hx
  next hk =>
    simp only [hk] at hx
    split
    next hc =>
      rw [if_pos hc] at hx
      exact h.closeBlock hR hx
    next hc =>
      rw [if_neg hc] at hx
      exact (hstart.report _).closeBlock hR hx
  next => exact ⟨h.session, by rw [h.current_eq], h.varied⟩

/-- Over the same tokens both readings go on together. -/
theorem of_passes {read : List Token} {later : Reading} (hl : like.Lawful) (hR : Stmt.Contextual R)
    (h : Twin like R first second) (he : ∀ error ∈ like.early, ¬error.isInternal)
    (ho : ∀ error ∈ like.others, ¬error.isInternal) (hp : first.Passes read later)
    (hpermits : ∀ {before rest : List Token} {token : Token} {point : Reading},
      read = before ++ token :: rest → first.Passes before point → Permits like point token) :
    ∃ last, second.Passes read last ∧ Twin like R later last := by
  induction hp with
  | start => exact ⟨second, .start, h⟩
  | @token read later token hp hc hk ih =>
    obtain ⟨last, hlast, hlater⟩ := ih fun hr => hpermits (by rw [hr, List.append_assoc]; rfl)
    have hclosed : last.session.log.isClosed = false :=
      (hlater.session.isClosed_eq he ho).symm.trans hc
    exact ⟨_, .token hlast hclosed hk, hlater.step hl hR (hpermits rfl hp)⟩

end Twin

end Reading

end MuLang
