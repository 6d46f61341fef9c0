import MuLang.Proofs.Definable
import MuLang.Proofs.Image
import MuLang.Proofs.Locates

/-!
# The declarations of a program are drawn from its tokens

The names and modifiers of the declarations that the second pass collects are tokens of the program,
also where other statements are faulty. Hence what is wrong with a declaration stands at one of them
when the program is defined. A type that a declaration leaves out is no token of the program; the
only such type that is blamed for anything is the `void` of a native function.
-/
namespace MuLang

open Token (Has)

/-! ## Drawn statements -/

/-- The modifiers and the name of a variable are tokens of the program. -/
structure VariableHeader.Drawn (source : List Token) (header : VariableHeader) : Prop where
  modifiers : header.modifiers ⊆ source
  identifier : header.identifier ∈ source

/-- The return type of a native function is a token of the program, or is not written. -/
def FunctionHeader.Returns (source : List Token) (header : FunctionHeader) : Prop :=
  header.returnType ∈ source ∨
    header.returnType = voidToken ∧ Has source (.keyword .natWord)

mutual

/-- The declarations in a statement are drawn from the tokens of the program. -/
def Stmt.Drawn (source : List Token) : Stmt → Prop
  | .module identifier body => identifier ∈ source ∧ Stmt.AllDrawn source body
  | .function header body => header.Drawn source ∧ Stmt.AllDrawn source body
  | .native header binding => header.Drawn source ∧ header.Returns source ∧ binding ∈ source
  | .declare header => header.Drawn source
  | .define header _ => header.Drawn source
  | .ifElse _ _ body otherwise => Stmt.AllDrawn source body ∧ Else.Drawn source otherwise
  | .whileLoop _ _ body => Stmt.AllDrawn source body
  | .forLoop _ header _ _ _ body => header.Drawn source ∧ Stmt.AllDrawn source body
  | .action _ | .returning _ _ | .stdlibFinish _ => True

/-- The declarations in a branch are drawn from the tokens of the program. -/
def Else.Drawn (source : List Token) : Else → Prop
  | .absent => True
  | .block body => Stmt.AllDrawn source body
  | .elseIf _ _ body otherwise => Stmt.AllDrawn source body ∧ Else.Drawn source otherwise

/-- The declarations in a block are drawn from the tokens of the program. -/
def Stmt.AllDrawn (source : List Token) : List Stmt → Prop
  | [] => True
  | stmt :: rest => stmt.Drawn source ∧ Stmt.AllDrawn source rest

end

variable {source : List Token}

theorem Stmt.allDrawn_append {first second : List Stmt} :
    AllDrawn source (first ++ second) ↔ AllDrawn source first ∧ AllDrawn source second := by
  induction first with
  | nil => simp [AllDrawn]
  | cons stmt rest ih => simp [AllDrawn, ih, and_assoc]

theorem Stmt.Drawn.withBody {stmt : Stmt} (h : stmt.Drawn source) {body : List Stmt}
    (hb : AllDrawn source body) : (stmt.withBody body).Drawn source := by
  cases stmt with
  | module => exact ⟨h.1, hb⟩
  | function => exact ⟨h.1, hb⟩
  | ifElse => exact ⟨hb, h.2⟩
  | whileLoop => exact hb
  | forLoop => exact ⟨h.1, hb⟩
  | _ => exact h

theorem Else.Drawn.attach : ∀ {chain branch extended : Else}, chain.Drawn source →
    branch.Drawn source → chain.attach branch = some extended → extended.Drawn source
  | .absent, _, _, _, hb, h => by
    cases h
    exact hb
  | .block _, _, _, _, _, h => by cases h
  | .elseIf .., _, _, hc, hb, h => by
    rw [Else.attach, Option.map_eq_some_iff] at h
    obtain ⟨rest, hr, rfl⟩ := h
    exact ⟨hc.1, hc.2.attach hb hr⟩

/-- What a block belongs to is drawn from the tokens of the program. -/
def Owner.Drawn (source : List Token) : Owner → Prop
  | .statement stmt => stmt.Drawn source
  | _ => True

namespace Body

variable {parent : Body} {owner : Owner}

theorem drawn_attach (h : Stmt.AllDrawn source parent.statements) {branch : Else}
    (hb : branch.Drawn source) {statements : List Stmt}
    (ha : parent.attach? branch = some statements) : Stmt.AllDrawn source statements := by
  unfold attach? at ha
  split at ha
  next keyword condition block otherwise _ hl =>
    obtain ⟨extended, he, rfl⟩ := Option.map_eq_some_iff.1 ha
    rw [← List.dropLast_append_getLast? _ hl, Stmt.allDrawn_append] at h
    obtain ⟨hbefore, ⟨hblock, hotherwise⟩, -⟩ := h
    exact Stmt.allDrawn_append.2 ⟨hbefore, ⟨hblock, hotherwise.attach hb he⟩, trivial⟩
  next => cases ha

theorem drawn_close (h : Stmt.AllDrawn source parent.statements) (ho : owner.Drawn source)
    {body : List Stmt} (hb : Stmt.AllDrawn source body) :
    Stmt.AllDrawn source (parent.close owner body).statements := by
  unfold close
  split
  next stmt => exact Stmt.allDrawn_append.2 ⟨h, ho.withBody hb, trivial⟩
  next keyword condition =>
    split
    next statements ha =>
      have hbranch : (Else.elseIf keyword condition body .absent).Drawn source := ⟨hb, trivial⟩
      exact drawn_attach h hbranch ha
    · exact h
  next =>
    cases ha : parent.attach? (.block body) with
    | none => exact h
    | some statements =>
      have hbranch : (Else.block body).Drawn source := hb
      exact drawn_attach h hbranch ha
  next => exact h

theorem drawn_add (h : Stmt.AllDrawn source parent.statements) {stmt : Option Stmt}
    (hs : ∀ other ∈ stmt, other.Drawn source) :
    Stmt.AllDrawn source (parent.add stmt).statements := by
  refine Stmt.allDrawn_append.2 ⟨h, ?_⟩
  cases stmt with
  | none => trivial
  | some stmt => exact ⟨hs stmt rfl, trivial⟩

end Body

/-! ## What is spelled is drawn -/

variable {tokens : List Token}

theorem VariableHeader.Spelled.drawn {header : VariableHeader} {value : Option Expr}
    (h : header.Spelled value tokens) (hs : tokens ⊆ source) : header.Drawn source := by
  cases h with
  | declared => exact ⟨fun token ht => hs (by simp [ht]), hs (by simp)⟩
  | defined => exact ⟨fun token ht => hs (by simp [ht]), hs (by simp)⟩

theorem Stmt.Spelled.drawn {stmt : Stmt} (h : stmt.Spelled tokens) (hs : tokens ⊆ source) :
    stmt.Drawn source := by
  cases h with
  | @native signature modifiers words keyword arrow binding hk _ hg =>
    have hwords : words ⊆ source := fun token ht => hs (by simp [ht])
    have hreturns : (signature.header modifiers).Returns source :=
      (hg.returnType hwords).imp_right fun hv => ⟨hv, keyword, hs (by simp), hk⟩
    exact ⟨hg.drawn hwords fun token ht => hs (by simp [ht]), hreturns, hs (by simp)⟩
  | declare h => exact h.drawn hs
  | define h => exact h.drawn hs
  | _ => trivial

theorem Owner.Spelled.drawn {owner : Owner} (h : owner.Spelled tokens) (hs : tokens ⊆ source) :
    owner.Drawn source := by
  cases h with
  | module => exact ⟨hs (by simp), trivial⟩
  | function hg =>
    exact ⟨hg.drawn (fun token ht => hs (by simp [ht])) fun token ht => hs (by simp [ht]), trivial⟩
  | ifElse => exact ⟨trivial, trivial⟩
  | forLoop _ _ _ hi => exact ⟨hi.drawn fun token ht => hs (by simp [ht]), trivial⟩
  | countingLoop _ _ _ hi => exact ⟨hi.drawn fun token ht => hs (by simp [ht]), trivial⟩
  | _ => trivial

/-! ## Passes -/

namespace Reading

variable {reading later : Reading} {read : List Token} {token : Token}

/-- The declarations that the second pass has collected are drawn from the tokens of the program. -/
structure Drawn (source : List Token) (reading : Reading) : Prop where
  program : Stmt.AllDrawn source reading.program.statements
  blocks : ∀ block ∈ reading.blocks,
    block.1.Drawn source ∧ Stmt.AllDrawn source block.2.statements

theorem drawn_changeBody (h : reading.Drawn source) {change : Body → Body}
    (hc : ∀ body : Body, Stmt.AllDrawn source body.statements →
      Stmt.AllDrawn source (change body).statements) :
    (reading.changeBody change).Drawn source := by
  obtain ⟨hp, hb⟩ := h
  unfold changeBody
  split
  next hn => exact ⟨hc _ hp, hb⟩
  next owner body rest hn =>
    rw [hn, List.forall_mem_cons] at hb
    exact ⟨hp, List.forall_mem_cons.2 ⟨⟨hb.1.1, hc _ hb.1.2⟩, hb.2⟩⟩

theorem program_run {α : Type} (reading : Reading) (step : Step (Option α)) :
    (reading.run step).2.program = reading.program := by
  unfold run
  split <;> rfl

theorem drawn_run {α : Type} (h : reading.Drawn source) (step : Step (Option α)) :
    (reading.run step).2.Drawn source :=
  ⟨program_run reading step ▸ h.program, blocks_run reading step ▸ h.blocks⟩

theorem drawn_endStatement (h : reading.Drawn source) (hs : reading.session.isSkimming = false)
    {words : List Token} (hw : Token.Unbroken words) (hsource : words ⊆ source)
    (hk : token.kind = .semicolon) : (reading.endStatement (words ++ [token])).Drawn source := by
  have ha := drawn_run h (Step.closed (words ++ [token]))
  unfold endStatement
  rcases hr : reading.run (Step.closed (words ++ [token])) with ⟨result, after⟩
  rw [hr] at ha
  have hscopes : (after.changeScopes (·.truncate reading.session.scopes.size)).Drawn source :=
    ⟨ha.program, ha.blocks⟩
  refine drawn_changeBody hscopes fun body hb => Body.drawn_add hb ?_
  obtain rfl | ⟨session, hc⟩ := exists_of_run hr
  · simp
  · obtain ⟨-, rfl⟩ | ⟨stmt, rfl, hspelled⟩ := Step.spelled_closed hs hw hk hc
    · simp
    · rintro _ ⟨⟩
      exact hspelled.drawn hsource

theorem drawn_openBlock (h : reading.Drawn source) (hs : reading.session.isSkimming = false)
    {words : List Token} (hw : Token.Unbroken words) (hsource : words ⊆ source)
    (hk : token.kind = .openCurly) : (reading.openBlock (words ++ [token])).Drawn source := by
  have ha := drawn_run h (Step.owner reading.body.chain (words ++ [token]))
  unfold openBlock
  rcases hr : reading.run (Step.owner reading.body.chain (words ++ [token])) with ⟨result, after⟩
  rw [hr] at ha
  refine ⟨ha.program, List.forall_mem_cons.2 ⟨⟨?_, trivial⟩, ha.blocks⟩⟩
  cases result with
  | none => trivial
  | some owner =>
    obtain hn | ⟨session, hc⟩ := exists_of_run hr
    · cases hn
    · obtain ⟨_, he, hspelled, -⟩ := Step.spelled_owner hs hw hk hc
      cases he
      exact hspelled.drawn hsource

theorem drawn_closeBlock (h : reading.Drawn source) (brace : Token) :
    (reading.closeBlock brace).Drawn source := by
  unfold closeBlock
  split
  · exact ⟨h.program, h.blocks⟩
  next owner body blocks hn =>
    have hb := h.blocks
    rw [hn, List.forall_mem_cons] at hb
    have hrest : Drawn source { reading with blocks } := ⟨h.program, hb.2⟩
    dsimp only
    split
    · exact ⟨hrest.program, hrest.blocks⟩
    next scopes _ =>
      have hscopes : (changeScopes { reading with blocks } fun _ => scopes).Drawn source :=
        ⟨hrest.program, hrest.blocks⟩
      exact drawn_changeBody hscopes fun parent hp => Body.drawn_close hp hb.1.1 hb.1.2

/-- Every token keeps what is collected drawn from the tokens of the program. -/
theorem drawn_step (h : reading.Drawn source) (hs : reading.session.isSkimming = false)
    (hw : Token.Unbroken reading.current) (hsource : reading.current ⊆ source) (token : Token) :
    (reading.step token).Drawn source := by
  have hc : Drawn source { reading with current := [] } := ⟨h.program, h.blocks⟩
  unfold Reading.step
  split
  next hk => exact drawn_endStatement hc hs hw hsource hk
  next hk => exact drawn_openBlock hc hs hw hsource hk
  · split
    · exact drawn_closeBlock h token
    next =>
      have hreport : (report { reading with current := [] }
          (.atToken (.expectedToken "`;`" token.text) token)).Drawn source := ⟨h.program, h.blocks⟩
      exact drawn_closeBlock hreport token
  · exact ⟨h.program, h.blocks⟩

/-- The statement under way is made of tokens that have been read. -/
theorem current_subset_of_passes {session : Session} {pass : Pass}
    (h : (start session pass).Passes read later) : later.current ⊆ read := by
  induction h with
  | start => exact List.Subset.refl _
  | @token read later token _ _ _ ih =>
    have hmore : later.current ⊆ read ++ [token] :=
      List.Subset.trans ih (List.subset_append_left _ _)
    unfold Reading.step
    split
    · rw [endStatement_eq, current_changeBody, current_run]
      exact List.nil_subset _
    · change (Reading.run _ _).2.current ⊆ _
      rw [current_run]
      exact List.nil_subset _
    · split
      · rwa [current_closeBlock]
      · rw [current_closeBlock]
        exact List.nil_subset _
    · exact List.append_subset.2 ⟨hmore, List.subset_append_right _ _⟩

theorem drawn_of_passes {session : Session} (h : (start session .evaluate).Passes read later)
    (hs : read ⊆ source) : later.Drawn source := by
  induction h with
  | start => exact ⟨trivial, by simp [start]⟩
  | token h _ _ ih =>
    have hread := (List.append_subset.1 hs).1
    exact drawn_step (ih hread) h.isSkimming_eq (unbroken_of_passes h)
      (List.Subset.trans (current_subset_of_passes h) hread) _

end Reading

end MuLang
