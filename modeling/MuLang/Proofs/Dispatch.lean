import MuLang.Proofs.Nesting
import MuLang.Proofs.Success

/-!
# Sorts of statements

The tokens of a statement alone decide how it is read: whatever the session, a statement without a
block, or the head of a block, is read by the step of its sort, or it never succeeds.
-/
namespace MuLang

/-- The kind of scope that the block of a statement has, if it has a block. -/
def Stmt.blockKind? : Stmt → Option ScopeKind
  | .module .. => some .module
  | .function .. => some .function
  | .ifElse .. => some .ifBlock
  | .whileLoop .. => some .whileBlock
  | .forLoop .. => some .forBlock
  | _ => none

theorem Stmt.isIf_iff (stmt : Stmt) : stmt.isIf ↔ stmt.blockKind? = some .ifBlock := by
  cases stmt <;> simp [isIf, blockKind?]

namespace Step

variable {α : Type}

/-- A step that succeeds in no session. -/
def Fails (step : Step α) : Prop := ∀ s a t, step s ≠ (.ok a, t)

theorem fails_fail (cause : Cause) (token : Token) : Fails (fail cause token : Step α) :=
  fun _ _ _ h => fail_eq_ok.1 h

theorem fails_ofExcept_bind_fail {β : Type} (x : Except Error β) (cause : β → Cause)
    (token : β → Token) : Fails (ofExcept x >>= fun b => fail (cause b) (token b) : Step α) := by
  intro s a t h
  obtain ⟨b, -, h⟩ := Fallible.ofExcept_bind_eq_ok.1 h
  exact fail_eq_ok.1 h

/-- How a statement without a block is read. -/
inductive Reader : Step (Option Stmt) → Prop
  | nothing : Reader (pure none)
  | native (tokens modifiers : List Token) : Reader (nativeStatement tokens modifiers)
  | returning (tokens modifiers : List Token) : Reader (returnStatement tokens modifiers)
  | finish (tokens modifiers : List Token) : Reader (finishStatement tokens modifiers)
  | action (tokens modifiers : List Token) :
      Reader (Option.map Stmt.action <$> actionStatement tokens modifiers)
  | declaration (first : Token) (rest modifiers : List Token) :
      (first.kind = .question ∨ first.kind.isTypeName) →
      Reader (Option.map declared <$> variableStatement (first :: rest) modifiers)
  | fails {step : Step (Option Stmt)} : Fails step → Reader step

theorem reader_closed (tokens : List Token) : Reader (closed tokens) := by
  unfold closed
  cases hb : Token.block? tokens with
  | some kind => exact .fails (fails_ofExcept_bind_fail _ _ _)
  | none =>
    unfold statement
    unfold Token.block? at hb
    cases hr : Token.afterModifiers tokens with
    | nil => exact .nothing
    | cons first rest =>
      simp only [hr, List.head?_cons, Option.bind_some] at hb ⊢
      split
      next h => simp [h, Kind.block?] at hb
      next h => simp [h, Kind.block?] at hb
      next => exact .native _ _
      next h => simp [h, Kind.block?] at hb
      next h => simp [h, Kind.block?] at hb
      next h => simp [h, Kind.block?] at hb
      next => exact .returning _ _
      next => exact .finish _ _
      next => exact .action _ _
      next h => exact .declaration _ _ _ (.inl h)
      next name h => exact .declaration _ _ _ (.inr (by rw [h]; rfl))
      next =>
        split
        · exact .fails (fails_fail _ _)
        · split
          · exact .fails (fails_fail _ _)
          · exact .nothing
      next => exact .fails (fails_fail _ _)

/-- How the head of a block of some kind is read. -/
inductive HeadReader : ScopeKind → Step (Option Stmt) → Prop
  | module (tokens modifiers : List Token) : HeadReader .module (moduleStatement tokens modifiers)
  | function (tokens modifiers : List Token) :
      HeadReader .function (functionStatement tokens modifiers)
  | ifElse (tokens modifiers : List Token) : HeadReader .ifBlock
      (Option.map (fun head => Stmt.ifElse head.1 head.2 [] .absent) <$>
        ifStatement tokens modifiers)
  | whileLoop (tokens modifiers : List Token) :
      HeadReader .whileBlock (whileStatement tokens modifiers)
  | forLoop (tokens modifiers : List Token) : HeadReader .forBlock (forStatement tokens modifiers)
  | fails {kind : ScopeKind} {step : Step (Option Stmt)} : Fails step → HeadReader kind step

theorem headReader_statement {tokens : List Token} {kind : ScopeKind}
    (hb : Token.block? tokens = some kind) : HeadReader kind (statement tokens) := by
  unfold statement
  unfold Token.block? at hb
  cases hr : Token.afterModifiers tokens with
  | nil => simp [hr] at hb
  | cons first rest =>
    simp only [hr, List.head?_cons, Option.bind_some] at hb ⊢
    split <;> simp only [Kind.block?, *] at hb <;> try cases hb
    · exact .module _ _
    · exact .function _ _
    · exact .ifElse _ _
    · exact .whileLoop _ _
    · exact .forLoop _ _
    · exact .fails (fails_fail _ _)

/-- How it is found out what a block of some kind belongs to, given the chain that it follows. -/
inductive OwnerReader : ScopeKind → (Chain → Step (Option Owner)) → Prop
  | branch (tokens modifiers : List Token) :
      OwnerReader .ifBlock fun chain => elseOwner chain tokens modifiers
  | statement {kind : ScopeKind} {step : Step (Option Stmt)} : HeadReader kind step →
      OwnerReader kind fun _ => Option.map Owner.statement <$> step
  | fails {kind : ScopeKind} {step : Step (Option Owner)} : Fails step →
      OwnerReader kind fun _ => step

theorem ownerReader_owner (tokens : List Token) :
    OwnerReader ((Token.block? tokens).getD .ifBlock) fun chain => owner chain tokens := by
  unfold owner
  cases hb : Token.block? tokens with
  | none => exact .fails (fails_ofExcept_bind_fail _ _ _)
  | some kind =>
    by_cases he : (Token.afterModifiers tokens).head?.any (·.kind = .keyword .elseWord)
    · obtain rfl : kind = .ifBlock := by
        rw [block?_of_else he] at hb
        exact (Option.some.inj hb).symm
      simp only [he, if_true]
      exact .branch _ _
    · simp only [he]
      exact .statement (headReader_statement hb)

/-- What an opening brace ends is read as a branch, or as the head of a block of its kind. -/
theorem owner_eq_ok {chain : Chain} {tokens : List Token} {result : Option Owner} {s t : Session}
    {kind : ScopeKind} (hk : (Token.block? tokens).getD .ifBlock = kind)
    (h : owner chain tokens s = (.ok result, t)) :
    (kind = .ifBlock ∧ ∃ rest modifiers, elseOwner chain rest modifiers s = (.ok result, t)) ∨
      ∃ step read, HeadReader kind step ∧ step s = (.ok read, t) ∧
        result = read.map .statement := by
  have hr := ownerReader_owner tokens
  change (fun chain => owner chain tokens) chain s = _ at h
  rw [hk] at hr
  generalize (fun chain => owner chain tokens) = step at h hr
  cases hr with
  | branch => exact .inl ⟨rfl, _, _, h⟩
  | statement hr =>
    obtain ⟨read, hread, rfl⟩ := Fallible.map_eq_ok.1 h
    exact .inr ⟨_, read, hr, hread, rfl⟩
  | fails hf => exact absurd h (hf _ _ _)

/-! ## Statements with a block -/

/-- Statements, if there is one, have a block of some kind. -/
abbrev Blocks (kind : ScopeKind) (result : Option Stmt) : Prop :=
  ∀ stmt ∈ result, stmt.blockKind? = some kind

theorem blocks_none (kind : ScopeKind) : Blocks kind none :=
  fun _ h => absurd h (Option.not_mem_none _)

theorem yields_loopStatement (keyword : Token) (init test step : List Token) :
    Fallible.Yields (Blocks .forBlock) (loopStatement keyword init test step) := by
  have none : Fallible.Yields (Blocks .forBlock) (pure none : Step (Option Stmt)) :=
    .pure (blocks_none _)
  unfold loopStatement
  refine .after fun _ => .after fun _ => .after fun _ => .ite (fun _ => ?_) fun _ => .after fun _ => ?_
  · exact .after fun _ => .ite (fun _ => .after fun _ => .after fun _ => none)
      fun _ => .after fun _ => none
  · split
    · exact none
    · exact .throw
    · refine .after fun _ => .after fun _ => ?_
      split
      · exact none
      · exact .after fun _ => .pure (by rintro _ ⟨⟩; rfl)

/-- In both passes the head of a block of some kind yields a statement with such a block, or none. -/
theorem yields_head {kind : ScopeKind} {step : Step (Option Stmt)} (h : HeadReader kind step) :
    Fallible.Yields (Blocks kind) step := by
  have none {kind : ScopeKind} : Fallible.Yields (Blocks kind) (pure none : Step (Option Stmt)) :=
    .pure (blocks_none _)
  cases h with
  | module =>
    intro s result t h
    obtain ⟨identifier, -, -, rfl, -⟩ := moduleStatement_ok h
    split
    · exact blocks_none _
    · rintro _ ⟨⟩
      rfl
  | function =>
    unfold functionStatement
    refine .after fun _ => .after fun _ => .after fun _ => .after fun _ => .after fun _ => ?_
    refine .ite (fun _ => .after fun _ => .after fun _ => none) fun _ => ?_
    refine .after fun _ => .after fun _ => .pure ?_
    rintro _ ⟨⟩
    rfl
  | ifElse =>
    refine .map fun _ head _ _ stmt hm => ?_
    obtain ⟨_, -, rfl⟩ := Option.map_eq_some_iff.1 hm
    rfl
  | whileLoop =>
    unfold whileStatement
    refine .after fun _ => .after fun _ => .after fun _ => .after fun _ => .after fun _ => ?_
    refine .ite (fun _ => none) fun _ => .after fun _ => .pure ?_
    rintro _ ⟨⟩
    rfl
  | forLoop =>
    intro s result t h
    obtain ⟨-, keyword, init, test, step, h⟩ := forStatement_ok h
    exact yields_loopStatement keyword init test step _ _ _ h
  | fails hf => exact fun s a t h => absurd h (hf s a t)

end Step

end MuLang
