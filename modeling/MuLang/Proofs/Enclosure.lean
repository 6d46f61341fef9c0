import MuLang.Proofs.Image
import MuLang.Proofs.Placement

/-!
# Blocks from inside

What is read inside of a block does not depend on what lies around the block, or before it: from
inside, an open block is a program of its own. It is put into its surroundings when it is closed,
and until then the scopes around it stay as they are.
-/
namespace MuLang

namespace Body

/-- A body that follows some statements. -/
def after (earlier : List Stmt) (body : Body) : Body :=
  { body with statements := earlier ++ body.statements }

/-- Where a branch may be attached there is a statement to attach it to. -/
def Grounded (body : Body) : Prop := body.chain = .unfinished → body.statements ≠ []

variable {body : Body} {earlier : List Stmt}

theorem grounded_empty : Grounded {} := nofun

@[simp] theorem add_after (earlier : List Stmt) (body : Body) (stmt : Option Stmt) :
    (body.after earlier).add stmt = (body.add stmt).after earlier := by
  simp [after, add]

theorem grounded_add (body : Body) (stmt : Option Stmt) : (body.add stmt).Grounded := nofun

theorem attach?_after (h : body.Grounded) (branch : Else) :
    (body.after earlier).attach? branch = (body.attach? branch).map (earlier ++ ·) := by
  rcases body with ⟨statements, chain⟩
  cases chain with
  | closed => rfl
  | detached => rfl
  | unfinished =>
    obtain ⟨before, last, rfl⟩ := (List.eq_nil_or_concat' statements).resolve_left (h rfl)
    simp only [attach?, after, ← List.append_assoc, List.getLast?_concat, List.dropLast_concat]
    cases last with
    | ifElse keyword condition block otherwise => simp [Function.comp_def]
    | _ => rfl

/-- A branch is attached to the last statement. -/
theorem ne_nil_of_attach? {branch : Else} {statements : List Stmt}
    (h : body.attach? branch = some statements) : statements ≠ [] := by
  unfold attach? at h
  split at h
  · obtain ⟨_, -, rfl⟩ := Option.map_eq_some_iff.1 h
    simp
  · cases h

/-- What closes changes the end of the body around it alone. -/
theorem close_after (h : body.Grounded) (owner : Owner) (inner : List Stmt) :
    (body.after earlier).close owner inner = (body.close owner inner).after earlier := by
  cases owner with
  | statement stmt => simp [close, after]
  | elseIf keyword condition =>
    simp only [close, attach?_after h]
    cases body.attach? (.elseIf keyword condition inner .absent) <;> rfl
  | otherwise =>
    simp only [close, attach?_after h]
    cases body.attach? (.block inner) <;> rfl
  | failed kind => rfl

theorem grounded_close (parent : Body) (owner : Owner) (inner : List Stmt) :
    (parent.close owner inner).Grounded := by
  intro hc
  cases owner with
  | statement stmt => simp [close]
  | elseIf keyword condition =>
    unfold close at hc ⊢
    dsimp only at hc ⊢
    split at hc
    next ha => exact ne_nil_of_attach? ha
    next => cases hc
  | otherwise => cases hc
  | failed kind =>
    simp only [close] at hc
    split at hc <;> cases hc

end Body

/-- A closing brace that closes something finds an open block. -/
theorem Reading.blocks_ne_nil {reading : Reading} {token : Token}
    (h : Token.strays reading.blocks.length [token] = []) :
    token.kind = .closeCurly → reading.blocks ≠ [] := by
  rintro hk hb
  simp [Token.strays, Token.isStray, hk, hb] at h

/-- The surroundings of an open block: the program and the blocks around it, the statement that it
belongs to, and what has been read of it so far. -/
structure Enclosure where
  program : Body
  owner : Owner
  earlier : List Stmt
  outer : List (Owner × Body)

namespace Enclosure

/-- A reading of what is inside a block, put into the surroundings of the block. -/
def enclose (enclosure : Enclosure) (reading : Reading) : Reading :=
  { reading with
    program := enclosure.program
    blocks := reading.blocks ++
      (enclosure.owner, reading.program.after enclosure.earlier) :: enclosure.outer }

variable (enclosure : Enclosure) {reading : Reading} {tokens : List Token} {token : Token}

theorem chain_body (reading : Reading) :
    (enclosure.enclose reading).body.chain = reading.body.chain := by
  rcases reading with ⟨session, program, _ | ⟨block, blocks⟩, current⟩ <;> rfl

theorem run_enclose {α : Type} (reading : Reading) (step : Step (Option α)) :
    (enclosure.enclose reading).run step =
      ((reading.run step).1, enclosure.enclose (reading.run step).2) := by
  rw [Reading.run_eq, Reading.run_eq]
  rfl

/-- What changes the end of the innermost body changes it in its surroundings. -/
theorem changeBody_enclose (reading : Reading) {change : Body → Body}
    (hc : change (reading.program.after enclosure.earlier) =
      (change reading.program).after enclosure.earlier) :
    (enclosure.enclose reading).changeBody change =
      enclosure.enclose (reading.changeBody change) := by
  rcases reading with ⟨session, program, _ | ⟨block, blocks⟩, current⟩
  · simp only [enclose, Reading.changeBody, List.nil_append]
    rw [hc]
  · rfl

theorem grounded_changeBody (hg : reading.program.Grounded) {change : Body → Body}
    (hc : (change reading.program).Grounded) : (reading.changeBody change).program.Grounded := by
  rcases reading with ⟨session, program, _ | ⟨block, blocks⟩, current⟩
  · exact hc
  · exact hg

theorem closeBlock_enclose (hg : reading.program.Grounded) (hb : reading.blocks ≠ [])
    (brace : Token) : (enclosure.enclose reading).closeBlock brace =
      enclosure.enclose (reading.closeBlock brace) ∧
      (reading.closeBlock brace).program.Grounded := by
  rcases reading with ⟨session, program, _ | ⟨⟨owner, body⟩, blocks⟩, current⟩
  · exact absurd rfl hb
  · simp only [Reading.closeBlock, enclose, List.cons_append]
    cases session.scopes.popBlock? with
    | none => exact ⟨rfl, hg⟩
    | some scopes =>
      refine ⟨changeBody_enclose enclosure ⟨{ session with scopes }, program, blocks, current⟩
        (Body.close_after hg owner body.statements), ?_⟩
      exact @grounded_changeBody ⟨{ session with scopes }, program, blocks, current⟩ hg _
        (Body.grounded_close _ _ _)

/-- A token inside of a block is read as it is without the surroundings of the block. -/
theorem step_enclose (hg : reading.program.Grounded)
    (hb : token.kind = .closeCurly → reading.blocks ≠ []) :
    (enclosure.enclose reading).step token = enclosure.enclose (reading.step token) ∧
      (reading.step token).program.Grounded := by
  unfold Reading.step
  split
  next =>
    rw [Reading.endStatement_eq, Reading.endStatement_eq]
    have hr := run_enclose enclosure { reading with current := [] }
      (Step.closed (reading.current ++ [token]))
    have hp : ({ reading with current := [] }.run
        (Step.closed (reading.current ++ [token]))).2.program = reading.program := by
      rw [Reading.run_eq]
    have he : { enclosure.enclose reading with current := [] } =
        enclosure.enclose { reading with current := [] } := rfl
    have hcurrent : (enclosure.enclose reading).current = reading.current := rfl
    rw [hcurrent, he, hr]
    refine ⟨changeBody_enclose _ _ (Body.add_after _ _ _), grounded_changeBody (hp.symm ▸ hg) ?_⟩
    exact Body.grounded_add _ _
  next =>
    rw [Reading.openBlock_eq, Reading.openBlock_eq]
    have hchain := chain_body enclosure { reading with current := [] }
    have he : { enclosure.enclose reading with current := [] } =
        enclosure.enclose { reading with current := [] } := rfl
    have hcurrent : (enclosure.enclose reading).current = reading.current := rfl
    rw [hcurrent, he, hchain]
    exact ⟨rfl, hg⟩
  next hk =>
    have hcurrent : (enclosure.enclose reading).current = reading.current := rfl
    rw [hcurrent]
    split
    · exact closeBlock_enclose enclosure hg (hb hk) token
    · exact @closeBlock_enclose enclosure (Reading.report { reading with current := [] } _) hg
        (hb hk) token
  next => exact ⟨rfl, hg⟩

/-- Tokens that leave a block open lead inside of it from one point to another. -/
theorem passes_enclose {later : Reading} (h : reading.Passes tokens later)
    (hg : reading.program.Grounded) (hs : Token.strays reading.blocks.length tokens = []) :
    (enclosure.enclose reading).Passes tokens (enclosure.enclose later) ∧
      later.program.Grounded := by
  induction h with
  | start => exact ⟨.start, hg⟩
  | @token read later token h hc hk ih =>
    rw [Token.strays_append, ← h.length_foldl, List.append_eq_nil_iff] at hs
    obtain ⟨hp, hlater⟩ := ih hs.1
    obtain ⟨hstep, hground⟩ := step_enclose enclosure hlater (Reading.blocks_ne_nil hs.2)
    exact ⟨hstep ▸ .token hp hc hk, hground⟩

/-- What is read inside of an open block is read from inside. -/
theorem exists_passes {last : Reading} (h : (enclosure.enclose reading).Passes tokens last)
    (hg : reading.program.Grounded) (hs : Token.strays reading.blocks.length tokens = []) :
    ∃ later, reading.Passes tokens later ∧ last = enclosure.enclose later := by
  induction h with
  | start => exact ⟨reading, .start, rfl⟩
  | @token read last token _ hc hk ih =>
    rw [Token.strays_append, List.append_eq_nil_iff] at hs
    obtain ⟨later, hp, rfl⟩ := ih hs.1
    rw [← hp.length_foldl] at hs
    obtain ⟨-, hlater⟩ := passes_enclose enclosure hp hg hs.1
    exact ⟨_, .token hp hc hk, (step_enclose enclosure hlater (Reading.blocks_ne_nil hs.2)).1⟩

end Enclosure

/-! ## Scopes around a block -/

namespace Step

/-- Inside of a block that has been opened there are fresh scopes of its own, and then those around
it. -/
theorem Opens.insideBlock {kind? : Option ScopeKind} {before after : Frame}
    (h : Opens kind? before after) (hk : kind? ≠ some .loopHeader) :
    ∃ fresh : List Scope, (after.scopes.insideBlock before.scopes.size (kind?.getD .ifBlock)) =
        ⟨fresh ++ before.scopes.nested, before.scopes.outermost⟩ ∧
      ∀ {kinds blocks} (block : Owner × Body), Nested kinds blocks →
        Nested (fresh.map (·.kind) ++ kinds) (block :: blocks) := by
  have hd : kind?.getD .ifBlock ≠ .loopHeader := by
    cases kind? with
    | none => decide
    | some kind => simpa using hk
  -- The scope of the block has been entered by its head, or is entered now.
  have own (scope : Scope) (hs : scope.kind = kind?.getD .ifBlock) {kinds : List ScopeKind}
      {blocks : List (Owner × Body)} (block : Owner × Body) (hn : Nested kinds blocks) :
      Nested ([scope].map (·.kind) ++ kinds) (block :: blocks) := by
    rw [List.map_singleton, hs]
    exact .block hd hn
  cases h with
  | nothing =>
    refine ⟨[⟨kind?.getD .ifBlock, before.scopes.currentModule, [], none⟩], ?_, own _ rfl⟩
    simp [ScopeStack.insideBlock, ScopeStack.push, ScopeStack.enter]
  | @block kind _ _ hf he =>
    cases he with
    | nothing =>
      refine ⟨[⟨kind, before.scopes.currentModule, [], none⟩], ?_, own _ rfl⟩
      simp [ScopeStack.insideBlock, ScopeStack.push, ScopeStack.enter]
    | @scope scope hs =>
      refine ⟨[scope], ?_, own _ hs⟩
      simp [ScopeStack.insideBlock, ScopeStack.enter, ScopeStack.size, ScopeStack.currentKind,
        ScopeStack.current, hs]
  | @loop _ _ header hh he =>
    have loop (scope : Scope) (hs : scope.kind = .forBlock) {kinds : List ScopeKind}
        {blocks : List (Owner × Body)} (block : Owner × Body) (hn : Nested kinds blocks) :
        Nested ([scope, header].map (·.kind) ++ kinds) (block :: blocks) := by
      simp only [List.map_cons, List.map_nil, hs, hh]
      exact .loop hn
    cases he with
    | nothing =>
      refine ⟨[⟨.forBlock, header.module, [], none⟩, header], ?_, loop _ rfl⟩
      simp [ScopeStack.insideBlock, ScopeStack.push, ScopeStack.enter, ScopeStack.size,
        ScopeStack.currentKind, ScopeStack.current, ScopeStack.currentModule, hh]
    | @scope scope hs =>
      refine ⟨[scope, header], ?_, loop _ hs⟩
      simp [ScopeStack.insideBlock, ScopeStack.enter, ScopeStack.size, ScopeStack.currentKind,
        ScopeStack.current, hs, Nat.add_assoc]

end Step

namespace Reading

variable {base : ScopeStack} {reading later : Reading} {tokens : List Token} {token : Token}

/-- Besides some scopes at the base of a reading there are those of its blocks. -/
def Above (base : ScopeStack) (reading : Reading) : Prop :=
  ∃ inner, reading.session.scopes.bare = ⟨inner ++ base.nested, base.outermost⟩ ∧
    Nested (inner.map (·.kind)) reading.blocks

theorem above_changeBody (h : reading.Above base) (change : Body → Body) :
    (reading.changeBody change).Above base := by
  obtain ⟨inner, hb, hn⟩ := h
  refine ⟨inner, by rw [session_changeBody, hb], ?_⟩
  rcases reading with ⟨session, program, _ | ⟨block, blocks⟩, current⟩
  · exact hn
  · exact hn.replace _

theorem above_endStatement (h : reading.Above base) (tokens : List Token) :
    (reading.endStatement tokens).Above base := by
  rw [endStatement_eq]
  refine above_changeBody ?_ _
  obtain ⟨inner, hb, hn⟩ := h
  have hf := run_frame (Step.commits_closed tokens) reading
  have hs : (reading.run (Step.closed tokens)).2.session.scopes.bare =
      reading.session.scopes.bare :=
    (congrArg Frame.scopes hf).symm
  exact ⟨inner, hs.trans hb, by rwa [blocks_run]⟩

theorem above_openBlock (h : reading.Above base) (tokens : List Token) :
    (reading.openBlock tokens).Above base := by
  obtain ⟨inner, hb, hn⟩ := h
  have ho := run_frame (Step.commits_owner reading.body.chain tokens) reading
  have hk : Token.block? tokens ≠ some .loopHeader := fun hc => Step.block?_ne_loopHeader hc rfl
  obtain ⟨fresh, hscopes, hnested⟩ := ho.insideBlock hk
  have hbefore : reading.session.frame.scopes = ⟨inner ++ base.nested, base.outermost⟩ := hb
  refine ⟨fresh ++ inner, ?_, ?_⟩
  · change (ScopeStack.insideBlock _ _ _).bare = _
    rw [ScopeStack.bare_insideBlock, ← reading.session.scopes.size_bare]
    refine hscopes.trans ?_
    rw [hbefore, List.append_assoc]
  · rw [List.map_append]
    change Nested _ (_ :: (reading.run (Step.owner reading.body.chain tokens)).2.blocks)
    rw [blocks_run]
    exact hnested _ hn

/-- The innermost block can be left, and the base stays. -/
theorem popBlock?_append (hk : base.kinds.head? ≠ some .loopHeader) {inner : List Scope}
    {block : Owner × Body} {blocks : List (Owner × Body)}
    (h : Nested (inner.map (·.kind)) (block :: blocks)) :
    ∃ rest, (ScopeStack.mk (inner ++ base.nested) base.outermost).popBlock? =
        some ⟨rest ++ base.nested, base.outermost⟩ ∧ Nested (rest.map (·.kind)) blocks := by
  generalize hkinds : inner.map (·.kind) = kinds at h
  cases h with
  | block _ h =>
    obtain ⟨scope, rest, rfl, rfl, rfl⟩ := List.map_eq_cons_iff.1 hkinds
    refine ⟨rest, ScopeStack.popBlock?_enter ⟨rest ++ base.nested, base.outermost⟩ ?_ scope, h⟩
    have hrest := h.head?_ne
    cases rest with
    | nil => exact hk
    | cons next rest => exact hrest
  | loop h =>
    obtain ⟨scope, rest, rfl, hs, hrest⟩ := List.map_eq_cons_iff.1 hkinds
    obtain ⟨header, rest, rfl, hh, rfl⟩ := List.map_eq_cons_iff.1 hrest
    exact ⟨rest, ScopeStack.popBlock?_enter_loop ⟨header :: rest ++ base.nested, base.outermost⟩ hh
      scope, h⟩

theorem above_closeBlock (h : reading.Above base) (hk : base.kinds.head? ≠ some .loopHeader)
    (hb : reading.blocks ≠ []) (brace : Token) : (reading.closeBlock brace).Above base := by
  obtain ⟨inner, hscopes, hn⟩ := h
  rcases reading with ⟨session, program, _ | ⟨⟨owner, body⟩, blocks⟩, current⟩
  · exact absurd rfl hb
  -- The scopes that are left are those of the other blocks, and the base.
  obtain ⟨scopes, hpop, rest, hrest, hnested⟩ : ∃ scopes, session.scopes.popBlock? = some scopes ∧
      ∃ rest, scopes.bare = ⟨rest ++ base.nested, base.outermost⟩ ∧
        Nested (rest.map (·.kind)) blocks := by
    have hpop := ScopeStack.bare_popBlock? session.scopes
    obtain ⟨rest, hp, hr⟩ := popBlock?_append hk hn
    have hbare : session.scopes.bare = ⟨inner ++ base.nested, base.outermost⟩ := hscopes
    rw [hbare, hp] at hpop
    obtain ⟨scopes, hs, hb⟩ := Option.map_eq_some_iff.1 hpop
    exact ⟨scopes, hs, rest, hb, hr⟩
  simp only [closeBlock, hpop]
  exact @above_changeBody base { session := { session with scopes }, program, blocks, current }
    ⟨rest, hrest, hnested⟩ _

/-- A token that does not close the block at the base leaves what is there. -/
theorem above_step (h : reading.Above base) (hk : base.kinds.head? ≠ some .loopHeader)
    (hb : token.kind = .closeCurly → reading.blocks ≠ []) : (reading.step token).Above base := by
  unfold step
  split
  · exact @above_endStatement base { reading with current := [] } h _
  · exact @above_openBlock base { reading with current := [] } h _
  next hc =>
    split
    · exact above_closeBlock h hk (hb hc) token
    · exact @above_closeBlock base (report { reading with current := [] } _) h hk (hb hc) token
  · exact h

/-- After tokens whose braces match, read from inside a block, the scopes are those from before. -/
theorem bare_of_matched (hp : reading.Passes tokens later) (hm : Token.Matched tokens)
    (hb : reading.blocks = []) (hk : reading.session.scopes.kinds.head? ≠ some .loopHeader) :
    later.blocks = [] ∧ later.session.scopes.bare = reading.session.scopes.bare := by
  obtain ⟨hd, hs⟩ := hm reading.blocks.length
  have hblocks : later.blocks = [] := by
    rw [← List.length_eq_zero_iff, hp.length_foldl, hd, hb]
    rfl
  have habove : later.Above reading.session.scopes.bare := by
    clear hd hblocks hm
    induction hp with
    | start =>
      refine ⟨[], rfl, ?_⟩
      rw [hb]
      exact .outside
    | @token read later token h _ _ ih =>
      rw [Token.strays_append, ← h.length_foldl, List.append_eq_nil_iff] at hs
      exact above_step (ih hs.1) (by rwa [ScopeStack.kinds_bare]) (blocks_ne_nil hs.2)
  obtain ⟨inner, hscopes, hn⟩ := habove
  rw [hblocks] at hn
  generalize hinner : inner.map (·.kind) = kinds at hn
  cases hn
  obtain rfl := List.map_eq_nil_iff.1 hinner
  exact ⟨hblocks, hscopes⟩

end Reading

end MuLang
