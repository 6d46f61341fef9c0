import MuLang.Proofs.Steady

/-!
# Blocks and their scopes

Between two tokens every open block has its scope, and the block of a `for` loop also that of its
header, in the same order; there are no other scopes but the outermost one. Hence a closing brace
always finds the scope of the block that it closes.
-/
namespace MuLang

namespace ScopeStack

/-- The kinds of the nested scopes, innermost first. -/
def kinds (scopes : ScopeStack) : List ScopeKind := scopes.nested.map (·.kind)

variable (scopes : ScopeStack)

@[simp] theorem kinds_bare : scopes.bare.kinds = scopes.kinds := by
  simp [kinds, Function.comp_def]

@[simp] theorem kinds_enter (scope : Scope) :
    (scopes.enter scope).kinds = scope.kind :: scopes.kinds := rfl

@[simp] theorem kinds_push (kind : ScopeKind) : (scopes.push kind).kinds = kind :: scopes.kinds := rfl

@[simp] theorem size_enter (scope : Scope) : (scopes.enter scope).size = scopes.size + 1 := rfl

@[simp] theorem currentKind_enter (scope : Scope) :
    (scopes.enter scope).currentKind = scope.kind := rfl

theorem size_eq_kinds : scopes.size = scopes.kinds.length + 1 := by
  simp [size, kinds]

theorem kinds_insideBlock_bare (size : Nat) (kind : ScopeKind) :
    (scopes.bare.insideBlock size kind).kinds = (scopes.insideBlock size kind).kinds := by
  unfold insideBlock
  rw [size_bare, currentKind_bare]
  split <;> simp

theorem currentKind_of_kinds {kind : ScopeKind} {kinds : List ScopeKind}
    (h : scopes.kinds = kind :: kinds) : scopes.currentKind = kind := by
  rcases scopes with ⟨_ | ⟨scope, rest⟩, outermost⟩
  · cases h
  · exact (List.cons.inj h).1

/-- A block without a header is left alone. -/
theorem popBlock?_enter (h : scopes.kinds.head? ≠ some .loopHeader) (scope : Scope) :
    (scopes.enter scope).popBlock? = some scopes := by
  have hn : (scopes.enter scope).nested ≠ [] := List.cons_ne_nil _ _
  rw [popBlock?_of_ne_nil hn]
  rcases scopes with ⟨_ | ⟨next, rest⟩, outermost⟩
  · exact congrArg some (ite_self _)
  · exact congrArg some (if_neg fun hk => h (congrArg some hk))

/-- A block with a header is left together with it. -/
theorem popBlock?_enter_loop (h : scopes.currentKind = .loopHeader) (scope : Scope) :
    (scopes.enter scope).popBlock? = some scopes.pop := by
  have hn : (scopes.enter scope).nested ≠ [] := List.cons_ne_nil _ _
  rw [popBlock?_of_ne_nil hn]
  exact congrArg some (if_pos h)

theorem kinds_truncate (size : Nat) :
    (scopes.truncate size).kinds = scopes.kinds.drop (scopes.kinds.length - (size - 1)) := by
  simp [truncate, kinds]

end ScopeStack

/-- Every block has its scope, and that of a `for` loop also the scope of its header. -/
inductive Nested : List ScopeKind → List (Owner × Body) → Prop
  | outside : Nested [] []
  | block {kind kinds block blocks} : kind ≠ .loopHeader → Nested kinds blocks →
      Nested (kind :: kinds) (block :: blocks)
  | loop {kinds block blocks} : Nested kinds blocks →
      Nested (.forBlock :: .loopHeader :: kinds) (block :: blocks)

namespace Nested

variable {scopes : ScopeStack} {kinds : List ScopeKind} {block : Owner × Body}
  {blocks : List (Owner × Body)}

/-- What a block holds does not matter. -/
theorem replace (h : Nested kinds (block :: blocks)) (other : Owner × Body) :
    Nested kinds (other :: blocks) := by
  cases h with
  | block hk h => exact .block hk h
  | loop h => exact .loop h

/-- No header is left without its block. -/
theorem head?_ne (h : Nested kinds blocks) : kinds.head? ≠ some .loopHeader := by
  cases h with
  | outside => simp
  | block hk h => simpa using hk
  | loop h => simp

/-- The innermost block can be left, and the rest stays nested. -/
theorem popBlock (h : Nested scopes.kinds (block :: blocks)) :
    ∃ rest, scopes.popBlock? = some rest ∧ Nested rest.kinds blocks := by
  rcases scopes with ⟨_ | ⟨scope, nested⟩, outermost⟩
  · cases h
  · have hp : (ScopeStack.mk (scope :: nested) outermost).popBlock? =
        some (if (ScopeStack.mk nested outermost).currentKind = .loopHeader
          then ⟨nested.tail, outermost⟩ else ⟨nested, outermost⟩) := rfl
    refine ⟨_, hp, ?_⟩
    change Nested (scope.kind :: (ScopeStack.mk nested outermost).kinds) (block :: blocks) at h
    generalize scope.kind = kind, hk : (ScopeStack.mk nested outermost).kinds = kinds at h
    cases h with
    | block _ h =>
      cases nested with
      | nil => split <;> exact hk ▸ h
      | cons next nested =>
        have hn := h.head?_ne
        rw [← hk] at hn h
        have hc : (ScopeStack.mk (next :: nested) outermost).currentKind ≠ .loopHeader :=
          fun hc => hn (congrArg some hc)
        rw [if_neg hc]
        exact h
    | loop h =>
      rw [if_pos (ScopeStack.currentKind_of_kinds _ hk)]
      change Nested (nested.tail.map (·.kind)) blocks
      rw [List.map_tail]
      exact (congrArg List.tail hk) ▸ h

end Nested

namespace Step

theorem block?_ne_loopHeader {tokens : List Token} {kind : ScopeKind}
    (h : Token.block? tokens = some kind) : kind ≠ .loopHeader := by
  unfold Token.block? at h
  obtain ⟨token, -, hk⟩ := Option.bind_eq_some_iff.1 h
  rintro rfl
  unfold Kind.block? at hk
  split at hk <;> cases hk

theorem enters_elseOwner (chain : Chain) (tokens modifiers : List Token) :
    Moves (Enters .ifBlock) (elseOwner chain tokens modifiers) := by
  simp only [elseOwner, fail_bind]
  refine .bind (steady_rejectModifiers _) fun _ => .bind (steady_ofExcept _) fun keyword => ?_
  refine .ite (.ofSteady <| steady_fail _ _) (.bind (steady_ofExcept _) fun next => ?_)
  refine .ite (.ofSteady <| steady_pure _) (.ite ?_ (.ofSteady <| steady_fail _ _))
  exact .map _ (enters_ifStatement _ _)

/-- An `else` announces the block of an `if`. -/
theorem block?_of_else {tokens : List Token}
    (h : (Token.afterModifiers tokens).head?.any (·.kind = .keyword .elseWord)) :
    Token.block? tokens = some .ifBlock := by
  cases hr : Token.afterModifiers tokens with
  | nil => simp [hr] at h
  | cons first rest =>
    have hf : first.kind = .keyword .elseWord := by simpa [hr] using h
    simp [Token.block?, hr, hf, Kind.block?]

theorem commits_owner (chain : Chain) (tokens : List Token) :
    Commits (Opens (Token.block? tokens)) (owner chain tokens) := by
  unfold owner
  dsimp only
  split
  · exact .bind (steady_ofExcept _) fun _ => (steady_fail _ _).commits
  next kind hk =>
    split
    next he =>
      rw [block?_of_else he]
      exact (enters_elseOwner _ _ _).commits_block (by decide)
    next => exact .map _ (commits_statement tokens)

theorem commits_closed (tokens : List Token) : Commits Eq (closed tokens) := by
  unfold closed
  split
  · exact .bind (steady_ofExcept _) fun _ => (steady_fail _ _).commits
  next hk =>
    have hs := commits_statement tokens
    rw [hk] at hs
    exact hs.mono fun before after h => by
      cases h
      rfl

end Step

namespace Reading

variable {reading : Reading} {α : Type} {R : Frame → Frame → Prop} {step : Step (Option α)}

/-- Between two tokens the scopes are those of the open blocks. -/
def Balanced (reading : Reading) : Prop := Nested reading.session.scopes.kinds reading.blocks

theorem run_frame (h : step.Commits R) (reading : Reading) :
    R reading.session.frame (reading.run step).2.session.frame := by
  have hm := h.moved reading.session
  unfold run
  rcases hs : step reading.session with ⟨error | result, session⟩ <;> rwa [hs] at hm

@[simp] theorem blocks_run (reading : Reading) (step : Step (Option α)) :
    (reading.run step).2.blocks = reading.blocks := by
  unfold run
  split <;> rfl

@[simp] theorem current_run (reading : Reading) (step : Step (Option α)) :
    (reading.run step).2.current = reading.current := by
  unfold run
  split <;> rfl

theorem kinds_frame (session : Session) : session.frame.scopes.kinds = session.scopes.kinds :=
  session.scopes.kinds_bare

@[simp] theorem session_changeBody (reading : Reading) (change : Body → Body) :
    (reading.changeBody change).session = reading.session := by
  unfold changeBody
  split <;> rfl

@[simp] theorem current_changeBody (reading : Reading) (change : Body → Body) :
    (reading.changeBody change).current = reading.current := by
  unfold changeBody
  split <;> rfl

theorem Balanced.changeBody (h : reading.Balanced) (change : Body → Body) :
    (reading.changeBody change).Balanced := by
  unfold Balanced Reading.changeBody at *
  cases hb : reading.blocks with
  | nil => rwa [hb] at h
  | cons block blocks =>
    rw [hb] at h
    exact h.replace _

/-- A statement without a block leaves the scopes that it has found. -/
theorem kinds_endStatement (reading : Reading) (tokens : List Token) :
    (reading.endStatement tokens).session.scopes.kinds = reading.session.scopes.kinds := by
  have hf := run_frame (Step.commits_closed tokens) reading
  have hk : (reading.run (Step.closed tokens)).2.session.scopes.kinds =
      reading.session.scopes.kinds := by
    rw [← kinds_frame, ← hf, kinds_frame]
  unfold endStatement
  rw [session_changeBody]
  change (ScopeStack.truncate _ _).kinds = _
  rw [ScopeStack.kinds_truncate, hk, ScopeStack.size_eq_kinds, Nat.add_sub_cancel, Nat.sub_self,
    List.drop_zero]

theorem balanced_endStatement (reading : Reading) (h : reading.Balanced) (tokens : List Token) :
    (reading.endStatement tokens).Balanced := by
  have hk := kinds_endStatement reading tokens
  unfold endStatement at hk ⊢
  rw [session_changeBody] at hk
  have hb := blocks_run reading (Step.closed tokens)
  generalize reading.run (Step.closed tokens) = ran at hk hb ⊢
  refine Balanced.changeBody ?_ _
  unfold Balanced
  rw [hk]
  change Nested _ ran.2.blocks
  rw [hb]
  exact h

/-- The scope of a block is in place, and that of its header, however the head fares. -/
theorem nested_insideBlock {kind? : Option ScopeKind} {before after : Frame}
    {blocks : List (Owner × Body)} (hk : kind? ≠ some .loopHeader)
    (ho : Step.Opens kind? before after) (h : Nested before.scopes.kinds blocks)
    (block : Owner × Body) :
    Nested (after.scopes.insideBlock before.scopes.size (kind?.getD .ifBlock)).kinds
      (block :: blocks) := by
  have hd : kind?.getD .ifBlock ≠ .loopHeader := by
    cases kind? with
    | none => decide
    | some kind => simpa using hk
  cases ho with
  | nothing => simpa [ScopeStack.insideBlock] using Nested.block hd h
  | block hf he =>
    cases he with
    | nothing => simpa [ScopeStack.insideBlock] using Nested.block hd h
    | scope hs => simpa [ScopeStack.insideBlock, hs] using Nested.block hd h
  | loop hh he =>
    cases he with
    | nothing => simpa [ScopeStack.insideBlock, hh] using Nested.loop h
    | scope hs => simpa [ScopeStack.insideBlock, hh, hs, Nat.add_assoc] using Nested.loop h

theorem balanced_openBlock (reading : Reading) (h : reading.Balanced) (tokens : List Token) :
    (reading.openBlock tokens).Balanced := by
  have ho := run_frame (Step.commits_owner reading.body.chain tokens) reading
  have hk : Token.block? tokens ≠ some .loopHeader := fun hc => Step.block?_ne_loopHeader hc rfl
  have hn := nested_insideBlock hk ho (by rwa [kinds_frame])
  change Nested (ScopeStack.insideBlock _ _ _).kinds (_ :: Reading.blocks _)
  rw [← ScopeStack.kinds_insideBlock_bare, ← reading.session.scopes.size_bare]
  change Nested _ (_ :: (reading.run (Step.owner reading.body.chain tokens)).2.blocks)
  rw [blocks_run]
  exact hn _

theorem balanced_closeBlock (reading : Reading) (h : reading.Balanced) (brace : Token) :
    (reading.closeBlock brace).Balanced := by
  unfold closeBlock
  cases hb : reading.blocks with
  | nil => exact h
  | cons block blocks =>
    unfold Balanced at h
    rw [hb] at h
    obtain ⟨rest, hp, hr⟩ := h.popBlock
    dsimp only
    rw [hp]
    have hb : Balanced { reading with
        session := { reading.session with scopes := rest }, blocks } := hr
    exact hb.changeBody _

theorem balanced_step (reading : Reading) (h : reading.Balanced) (token : Token) :
    (reading.step token).Balanced := by
  unfold Reading.step
  split
  · exact balanced_endStatement { reading with current := [] } h _
  · exact balanced_openBlock { reading with current := [] } h _
  · split
    · exact balanced_closeBlock reading h _
    · exact balanced_closeBlock (Reading.report { reading with current := [] } _) h _
  · exact h

theorem balanced_steps (reading : Reading) (h : reading.Balanced) (tokens : List Token) :
    (reading.steps tokens).Balanced := by
  induction tokens generalizing reading with
  | nil => exact h
  | cons token rest ih =>
    unfold steps
    split
    · exact h
    · exact ih _ (balanced_step reading h token)

theorem balanced_start (session : Session) (pass : Pass) : (Reading.start session pass).Balanced :=
  .outside

end Reading

end MuLang
