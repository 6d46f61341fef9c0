import Mathlib.Data.List.Chain
import MuLang.Proofs.Chains

/-!
# Branches at their place

In a program without an error every branch directly follows the block of an `if` or of an `else if`, and
a chain of any length is one statement: its conditions and blocks are those of the text, each branch
inside of the one before it. In both passes an `else` is attached just where the last statement is an
`if` that still takes one.
-/
namespace MuLang

namespace Item

/-! ## Blocks of a text -/

/-- Whether an item is a block that starts with `else`. -/
def isBranch : Item → Bool
  | .line .. => false
  | .block head .. => Token.startsWith (.keyword .elseWord) head

/-- Whether an item is a block that starts with `if` or with `else if`. -/
def isConditional : Item → Bool
  | .block (first :: more) .. =>
    first.kind = .keyword .ifWord ||
      first.kind = .keyword .elseWord && more.head?.any (·.kind = .keyword .ifWord)
  | _ => false

/-- The blocks of a text, the text itself among them. -/
inductive Within (items : List Item) : List Item → Prop
  | whole : Within items items
  | inside {block inner : List Item} {head : List Token} {opening closing : Token}
      {whole : Token.Unbroken head} {opens : opening.kind = .openCurly}
      {closes : closing.kind = .closeCurly} : Within items block →
      .block head opening inner closing whole opens closes ∈ block → Within items inner

/-- A condition is read from all that stands between the `if` of a block and its brace. -/
inductive Tests : Item → Token → Expr → Prop
  | block {lead words : List Token} {keyword opening closing : Token} {inner : List Item}
      {whole : Token.Unbroken (lead ++ keyword :: words)} {opens : opening.kind = .openCurly}
      {closes : closing.kind = .closeCurly} {condition : Expr} {s t : Session} :
      (∀ token ∈ lead, token.kind = .keyword .elseWord) → keyword.kind = .keyword .ifWord →
      Step.ifStatement (keyword :: (words ++ [opening])) [] s =
        (.ok (some (keyword, condition)), t) →
      Tests (.block (lead ++ keyword :: words) opening inner closing whole opens closes) keyword
        condition

/-- What stands in a block becomes some statements. -/
inductive Fills : Item → List Stmt → Prop
  | block {head : List Token} {opening closing : Token} {inner : List Item}
      {whole : Token.Unbroken head} {opens : opening.kind = .openCurly}
      {closes : closing.kind = .closeCurly} {body : List Stmt} {s t : Session} :
      Builds s inner t .absent body →
      Fills (.block head opening inner closing whole opens closes) body

/-- A block with a condition becomes a part of a chain. -/
structure Yields (item : Item) (part : Token × Expr × List Stmt) : Prop where
  tests : item.Tests part.1 part.2.1
  fills : item.Fills part.2.2

namespace Builds

variable {s t : Session} {items before after : List Item} {branches : Else} {stmts : List Stmt}

/-! ## Where branches stand -/

/-- A branch comes first only after an `if`, and any other one follows a condition. -/
theorem isChain (h : Builds s items t branches stmts) :
    (branches = .absent → ∀ first ∈ items.head?, first.isBranch = false) ∧
      items.IsChain fun item next => next.isBranch → item.isConditional := by
  -- Before items that start without a branch anything may stand.
  have free {item : Item} {items : List Item} (h : ∀ first ∈ items.head?, first.isBranch = false) :
      ∀ next ∈ items.head?, next.isBranch → item.isConditional := fun next hn hb =>
    absurd ((h next hn).symm.trans hb) Bool.false_ne_true
  induction h with
  | nil => exact ⟨fun _ _ h => absurd h (Option.not_mem_none _), .nil⟩
  | line _ _ ih =>
    refine ⟨fun _ _ hm => ?_, List.isChain_cons.2 ⟨free (ih.1 rfl), ih.2⟩⟩
    cases hm
    rfl
  | block _ he _ _ _ _ _ _ ih =>
    refine ⟨fun _ _ hm => ?_, List.isChain_cons.2 ⟨free (ih.1 rfl), ih.2⟩⟩
    cases hm
    exact he
  | ifElse hk _ _ _ _ _ ih =>
    refine ⟨fun _ _ hm => ?_, List.isChain_cons.2 ⟨fun _ _ _ => ?_, ih.2⟩⟩
    · cases hm
      exact Token.startsWith_cons hk .elseWord _
    · simp [isConditional, hk]
  | elseIf hk hn _ _ _ _ _ ih =>
    refine ⟨by simp, List.isChain_cons.2 ⟨fun _ _ _ => ?_, ih.2⟩⟩
    simp [isConditional, hk, hn]
  | otherwise _ _ _ _ _ ih => exact ⟨by simp, List.isChain_cons.2 ⟨free (ih.1 rfl), ih.2⟩⟩

/-! ## Chains of any length -/

/-- A chain of branches up to an `else` is nested to the right, and what follows is no part of it. -/
theorem branches_eq {links : List Item} {last : Item}
    (h : Builds s (links ++ last :: after) t branches stmts)
    (hb : ∀ item ∈ links, item.isBranch ∧ item.isConditional) (hl : last.isBranch)
    (hn : last.isConditional = false) :
    ∃ parts final, branches = .nest parts (.block final) ∧ List.Forall₂ Yields links parts ∧
      last.Fills final ∧ ∃ u, Builds u after t .absent stmts := by
  induction links generalizing s branches with
  | nil =>
    cases h with
    | line => cases hl
    | block _ he => cases he.symm.trans hl
    | ifElse hk => cases (Token.startsWith_cons hk .elseWord _).symm.trans hl
    | elseIf hk hnext => simp [isConditional, hk, hnext] at hn
    | otherwise _ hbody _ hrest => exact ⟨[], _, rfl, .nil, .block hbody, _, hrest⟩
  | cons item links ih =>
    obtain ⟨⟨hbranch, hcondition⟩, hlinks⟩ := List.forall_mem_cons.1 hb
    cases h with
    | line => cases hbranch
    | block _ he => cases he.symm.trans hbranch
    | ifElse hk => cases (Token.startsWith_cons hk .elseWord _).symm.trans hbranch
    | elseIf hk hnext htest hbody _ hrest =>
      obtain ⟨parts, final, rfl, hparts, hfinal⟩ := ih hrest hlinks
      refine ⟨(_, _, _) :: parts, final, rfl, .cons ⟨?_, .block hbody⟩ hparts, hfinal⟩
      exact @Tests.block [_] _ _ _ _ _ _ _ _ _ _ _ (by simpa using hk) hnext htest
    | otherwise hk => simp [isConditional, hk] at hcondition

theorem absent_of_head {first : Item} {more : List Item}
    (h : Builds s (first :: more) t branches stmts) (hf : first.isBranch = false) :
    branches = .absent := by
  cases h with
  | line | block | ifElse => rfl
  | elseIf hk => cases (Token.startsWith_cons hk .elseWord _).symm.trans hf
  | otherwise hk => cases (Token.startsWith_cons hk .elseWord _).symm.trans hf

/-- What starts with no branch becomes statements of its own. -/
theorem split {first : Item} {more : List Item}
    (h : Builds s (before ++ first :: more) t branches stmts) (hf : first.isBranch = false) :
    ∃ u earlier later, Builds s before u branches earlier ∧ Builds u (first :: more) t .absent later ∧
      stmts = earlier ++ later := by
  induction before generalizing s branches stmts with
  | nil =>
    obtain rfl := h.absent_of_head hf
    exact ⟨s, [], stmts, .nil, h, rfl⟩
  | cons item before ih =>
    cases h with
    | line hr hrest =>
      obtain ⟨u, earlier, later, hbefore, hmore, rfl⟩ := ih hrest
      exact ⟨u, _, later, .line hr hbefore, hmore, (List.append_assoc _ _ _).symm⟩
    | block hi he hk hr hbody hpop hrest =>
      obtain ⟨u, earlier, later, hbefore, hmore, rfl⟩ := ih hrest
      exact ⟨u, _, later, .block hi he hk hr hbody hpop hbefore, hmore, rfl⟩
    | ifElse hk hr hbody hpop hrest =>
      obtain ⟨u, earlier, later, hbefore, hmore, rfl⟩ := ih hrest
      exact ⟨u, _, later, .ifElse hk hr hbody hpop hbefore, hmore, rfl⟩
    | elseIf hk hn hr hbody hpop hrest =>
      obtain ⟨u, earlier, later, hbefore, hmore, rfl⟩ := ih hrest
      exact ⟨u, _, later, .elseIf hk hn hr hbody hpop hbefore, hmore, rfl⟩
    | otherwise hk hbody hpop hrest =>
      obtain ⟨u, earlier, later, hbefore, hmore, rfl⟩ := ih hrest
      exact ⟨u, _, later, .otherwise hk hbody hpop hbefore, hmore, rfl⟩

/-- An `if`, any number of `else if`s and an `else` are one statement. -/
theorem chain_eq {first last : Item} {links : List Item}
    (h : Builds s (before ++ first :: (links ++ last :: after)) t branches stmts)
    (hi : first.isConditional) (hf : first.isBranch = false)
    (hb : ∀ item ∈ links, item.isBranch ∧ item.isConditional) (hl : last.isBranch)
    (hn : last.isConditional = false) :
    ∃ earlier keyword condition body parts final later,
      stmts = earlier ++ .ifElse keyword condition body (.nest parts (.block final)) :: later ∧
      first.Yields (keyword, condition, body) ∧ List.Forall₂ Yields links parts ∧
      last.Fills final ∧ (∃ u, Builds s before u branches earlier) ∧
      ∃ u, Builds u after t .absent later := by
  obtain ⟨u, earlier, later, hbefore, hchain, rfl⟩ := h.split hf
  cases hchain with
  | line => cases hi
  | @block _ _ _ _ _ _ head _ _ _ _ _ _ _ _ _ hplain he =>
    -- A block of another kind starts with neither of the keywords.
    rcases head with _ | ⟨word, words⟩
    · cases hi
    · obtain hk | ⟨hk, -⟩ : word.kind = .keyword .ifWord ∨ word.kind = .keyword .elseWord ∧
          words.head?.any (·.kind = .keyword .ifWord) := by simpa [isConditional] using hi
      · cases (Token.startsWith_cons hk .ifWord _).symm.trans hplain
      · cases (Token.startsWith_cons hk .elseWord _).symm.trans he
  | ifElse hk htest hbody _ hrest =>
    obtain ⟨parts, final, rfl, hparts, hfinal, hafter⟩ := hrest.branches_eq hb hl hn
    refine ⟨earlier, _, _, _, parts, final, _, rfl, ⟨?_, .block hbody⟩, hparts, hfinal, ⟨u, hbefore⟩,
      hafter⟩
    exact @Tests.block [] _ _ _ _ _ _ _ _ _ _ _ (List.forall_mem_nil _) hk htest

/-! ## Blocks inside -/

/-- What stands in a block of some items becomes a block of a branch or of a statement. -/
theorem of_mem {head : List Token} {opening closing : Token} {inner : List Item}
    {whole : Token.Unbroken head} {opens : opening.kind = .openCurly}
    {closes : closing.kind = .closeCurly} (h : Builds s items t branches stmts)
    (hm : .block head opening inner closing whole opens closes ∈ items) :
    ∃ u v body, Builds u inner v .absent body ∧
      (body ∈ branches.blocks ∨ ∃ stmt ∈ stmts, body ∈ stmt.blocks) := by
  induction h with
  | nil => cases hm
  | line _ _ ih =>
    obtain hm | hm := List.mem_cons.1 hm
    · cases hm
    · obtain ⟨u, v, body, hbody, hn | ⟨stmt, hs, hb⟩⟩ := ih hm
      · cases hn
      · exact ⟨u, v, body, hbody, .inr ⟨stmt, List.mem_append_right _ hs, hb⟩⟩
  | block _ _ hk _ hinner _ _ _ ih =>
    obtain hm | hm := List.mem_cons.1 hm
    · cases hm
      exact ⟨_, _, _, hinner, .inr ⟨_, List.mem_cons_self, Stmt.mem_blocks_withBody hk⟩⟩
    · obtain ⟨u, v, body, hbody, hn | ⟨stmt, hs, hb⟩⟩ := ih hm
      · cases hn
      · exact ⟨u, v, body, hbody, .inr ⟨stmt, List.mem_cons_of_mem _ hs, hb⟩⟩
  | ifElse _ _ hinner _ _ _ ih =>
    obtain hm | hm := List.mem_cons.1 hm
    · cases hm
      exact ⟨_, _, _, hinner, .inr ⟨_, List.mem_cons_self, List.mem_cons_self⟩⟩
    · obtain ⟨u, v, body, hbody, hb | ⟨stmt, hs, hb⟩⟩ := ih hm
      · exact ⟨u, v, body, hbody, .inr ⟨_, List.mem_cons_self, List.mem_cons_of_mem _ hb⟩⟩
      · exact ⟨u, v, body, hbody, .inr ⟨stmt, List.mem_cons_of_mem _ hs, hb⟩⟩
  | elseIf _ _ _ hinner _ _ _ ih =>
    obtain hm | hm := List.mem_cons.1 hm
    · cases hm
      exact ⟨_, _, _, hinner, .inl List.mem_cons_self⟩
    · obtain ⟨u, v, body, hbody, hb | hb⟩ := ih hm
      · exact ⟨u, v, body, hbody, .inl (List.mem_cons_of_mem _ hb)⟩
      · exact ⟨u, v, body, hbody, .inr hb⟩
  | otherwise _ hinner _ _ _ ih =>
    obtain hm | hm := List.mem_cons.1 hm
    · cases hm
      exact ⟨_, _, _, hinner, .inl List.mem_cons_self⟩
    · obtain ⟨u, v, body, hbody, hn | hb⟩ := ih hm
      · cases hn
      · exact ⟨u, v, body, hbody, .inr hb⟩

/-- Every block of a text becomes a block of the program. -/
theorem of_within {block : List Item} {program : List Stmt} (h : Builds s items t .absent program)
    (hw : Within items block) :
    ∃ u v stmts, Stmt.Within program stmts ∧ Builds u block v .absent stmts := by
  induction hw with
  | whole => exact ⟨_, _, _, .whole, h⟩
  | inside _ hm ih =>
    obtain ⟨u, v, stmts, hstmts, hblock⟩ := ih
    obtain ⟨u, v, body, hbody, hn | ⟨stmt, hs, hb⟩⟩ := hblock.of_mem hm
    · cases hn
    · exact ⟨u, v, body, .inside hstmts hs hb, hbody⟩

end Builds

end Item

/-! ## What the flag tells -/

namespace Body

/-- Where the flag says that an `else` may be attached, the last statement is an `if` whose innermost
branch has no branch of its own. -/
def Extendable (body : Body) : Prop :=
  body.chain = .unfinished → ∃ before keyword condition block otherwise,
    body.statements = before ++ [.ifElse keyword condition block otherwise] ∧ otherwise.isOpen

end Body

/-- An `if` has no branches while its own block is open. -/
def Owner.Fresh : Owner → Prop
  | .statement stmt => stmt.isIf →
    ∃ keyword condition, stmt = .ifElse keyword condition [] .absent
  | _ => True

namespace Body

variable {body : Body} {owner : Owner}

theorem extendable_of_ne (h : body.chain ≠ .unfinished) : body.Extendable := fun hc => absurd hc h

theorem exists_of_attach? {branch : Else} {statements : List Stmt}
    (h : body.attach? branch = some statements) : ∃ before keyword condition block otherwise,
      statements = before ++ [.ifElse keyword condition block otherwise] ∧
        otherwise.isOpen = branch.isOpen := by
  unfold attach? at h
  split at h
  next =>
    obtain ⟨extended, he, rfl⟩ := Option.map_eq_some_iff.1 h
    exact ⟨_, _, _, _, _, rfl, (Else.isOpen_of_attach he).2⟩
  next => cases h

theorem extendable_close (parent : Body) (ho : owner.Fresh) (inside : List Stmt) :
    (parent.close owner inside).Extendable := by
  unfold Body.close
  cases owner with
  | statement stmt =>
    cases hi : stmt.isIf with
    | false => exact extendable_of_ne (by simp [hi])
    | true =>
      obtain ⟨keyword, condition, rfl⟩ := ho hi
      exact fun _ => ⟨_, _, _, _, _, rfl, rfl⟩
  | elseIf keyword condition =>
    dsimp only
    split
    next ha =>
      obtain ⟨before, _, _, _, otherwise, rfl, ho⟩ := exists_of_attach? ha
      exact fun _ => ⟨before, _, _, _, otherwise, rfl, ho⟩
    next => exact extendable_of_ne (by simp)
  | otherwise => exact extendable_of_ne (by simp)
  | failed kind =>
    dsimp only
    split <;> exact extendable_of_ne (by simp)

end Body

/-- In both passes an `if` is made without branches. -/
theorem Step.fresh_of_owner {chain : Chain} {tokens : List Token} {s t : Session} {owner : Owner}
    (h : Step.owner chain tokens s = (.ok (some owner), t)) : owner.Fresh := by
  generalize hk : (Token.block? tokens).getD .ifBlock = kind
  obtain ⟨-, _, _, hb⟩ | ⟨step, read, hr, hread, ho⟩ := owner_eq_ok hk h
  · obtain ⟨-, next, -, ⟨-, -, ho⟩ | ⟨-, head, -, ho⟩⟩ := elseOwner_ok hb
    · cases ho
      trivial
    · obtain ⟨head, -, rfl⟩ := Option.map_eq_some_iff.1 ho.symm
      trivial
  · obtain ⟨stmt, rfl, rfl⟩ := Option.map_eq_some_iff.1 ho.symm
    have hkind := yields_head hr s _ t hread stmt rfl
    intro hi
    rw [stmt.isIf_iff, hkind, Option.some.injEq] at hi
    subst hi
    cases hr with
    | ifElse =>
      obtain ⟨found, -, hfound⟩ := Fallible.map_eq_ok.1 hread
      obtain ⟨⟨keyword, condition⟩, -, rfl⟩ := Option.map_eq_some_iff.1 hfound
      exact ⟨keyword, condition, rfl⟩
    | fails hf => exact absurd hread (hf _ _ _)

namespace Reading

/-- What the flag says of every block under way. -/
structure Extendable (reading : Reading) : Prop where
  program : reading.program.Extendable
  fresh : ∀ block ∈ reading.blocks, block.1.Fresh
  bodies : ∀ block ∈ reading.blocks, block.2.Extendable

variable {reading later : Reading} {read : List Token}

theorem Extendable.run {α : Type} {step : Step (Option α)} (h : reading.Extendable) :
    (reading.run step).2.Extendable := by
  unfold Reading.run
  split <;> exact ⟨h.program, h.fresh, h.bodies⟩

theorem Extendable.changeBody (h : reading.Extendable) {change : Body → Body}
    (hc : ∀ body, (change body).Extendable) : (reading.changeBody change).Extendable := by
  rcases reading with ⟨session, program, _ | ⟨⟨owner, body⟩, blocks⟩, current⟩
  · exact ⟨hc _, h.fresh, h.bodies⟩
  · obtain ⟨hfresh, hblocks⟩ := List.forall_mem_cons.1 h.fresh
    exact ⟨h.program, List.forall_mem_cons.2 ⟨hfresh, hblocks⟩,
      List.forall_mem_cons.2 ⟨hc _, (List.forall_mem_cons.1 h.bodies).2⟩⟩

theorem Extendable.endStatement (h : reading.Extendable) (tokens : List Token) :
    (reading.endStatement tokens).Extendable := by
  rw [endStatement_eq]
  exact h.run.changeBody fun body => Body.extendable_of_ne (by simp [Body.add])

theorem Extendable.openBlock (h : reading.Extendable) (tokens : List Token) :
    (reading.openBlock tokens).Extendable := by
  have hrun := @Extendable.run _ _ (Step.owner reading.body.chain tokens) h
  refine ⟨hrun.program, List.forall_mem_cons.2 ⟨?_, hrun.fresh⟩,
    List.forall_mem_cons.2 ⟨Body.extendable_of_ne (by simp), hrun.bodies⟩⟩
  dsimp only [Reading.run]
  split
  next owner t hr =>
    cases owner with
    | none => trivial
    | some owner => exact Step.fresh_of_owner hr
  next => trivial

theorem Extendable.closeBlock (h : reading.Extendable) (brace : Token) :
    (reading.closeBlock brace).Extendable := by
  rcases reading with ⟨session, program, _ | ⟨⟨owner, body⟩, blocks⟩, current⟩
  · exact ⟨h.program, h.fresh, h.bodies⟩
  · obtain ⟨hfresh, hblocks⟩ := List.forall_mem_cons.1 h.fresh
    have hrest : Extendable ⟨session, program, blocks, current⟩ :=
      ⟨h.program, hblocks, (List.forall_mem_cons.1 h.bodies).2⟩
    unfold Reading.closeBlock
    dsimp only
    split
    · exact ⟨hrest.program, hrest.fresh, hrest.bodies⟩
    next scopes _ =>
      have hleft : Extendable ⟨{ session with scopes }, program, blocks, current⟩ :=
        ⟨hrest.program, hrest.fresh, hrest.bodies⟩
      exact hleft.changeBody fun parent => Body.extendable_close parent hfresh _

theorem Extendable.step (h : reading.Extendable) (token : Token) :
    (reading.step token).Extendable := by
  have hnext : Extendable { reading with current := [] } := ⟨h.program, h.fresh, h.bodies⟩
  unfold Reading.step
  split
  · exact hnext.endStatement _
  · exact hnext.openBlock _
  · split
    · exact h.closeBlock token
    · exact @Extendable.closeBlock (report { reading with current := [] } _)
        ⟨h.program, h.fresh, h.bodies⟩ token
  · exact ⟨h.program, h.fresh, h.bodies⟩

/-- The innermost body is that of the program or of a block under way. -/
theorem body_eq_or_mem (reading : Reading) :
    reading.body = reading.program ∨ ∃ owner, (owner, reading.body) ∈ reading.blocks := by
  rcases reading with ⟨session, program, _ | ⟨⟨owner, body⟩, blocks⟩, current⟩
  · exact .inl rfl
  · exact .inr ⟨owner, List.mem_cons_self⟩

theorem extendable_start (session : Session) (pass : Pass) : (start session pass).Extendable where
  program := Body.extendable_of_ne (by simp [start])
  fresh := fun _ hm => absurd hm List.not_mem_nil
  bodies := fun _ hm => absurd hm List.not_mem_nil

theorem extendable_of_passes {session : Session} {pass : Pass}
    (h : (start session pass).Passes read later) : later.Extendable :=
  @Passes.preserves _ _ _ Extendable h (fun _ token he _ => he.step token) (extendable_start _ _)

end Reading

/-! ## Programs -/

/-- Where parsing reports no error there is a program. -/
theorem exists_program_of_parse {settings : Settings} {tokens : List Token}
    (h : (parse settings tokens).2 = []) : ∃ program, (parse settings tokens).1 = some program := by
  unfold parse at h ⊢
  dsimp only at h ⊢
  split at h
  next he => exact ⟨_, by rw [if_pos he]⟩
  next he => exact absurd (List.isEmpty_iff.2 h) he

/-- A program that is parsed without an error is built from its text block by block. In every block of
the text a branch directly follows an `if` or an `else if`, and an `if`, any number of `else if`s and an
`else` are one statement in the block of the program. Whatever a pass has read, where the flag of a
block under way tells that a branch may be attached, the last statement is an `if` that still takes
one. -/
theorem chains_of_parse (settings : Settings) (tokens : List Token) :
    (settings.maxErrors ≠ some 0 → (parse settings tokens).2 = [] →
      let read := tokens.takeWhile (·.kind ≠ .endOfFile)
      let start := (Reading.start (Session.skim settings tokens) .evaluate).session
      ∃ program, (parse settings tokens).1 = some program ∧ (∃ items, read = Item.tokensOf items) ∧
        ∀ items, read = Item.tokensOf items → (∃ t, Item.Builds start items t .absent program) ∧
          ∀ block, Item.Within items block →
            (∀ first ∈ block.head?, first.isBranch = false) ∧
            (block.IsChain fun item next => next.isBranch → item.isConditional) ∧
            ∃ s t stmts, Stmt.Within program stmts ∧ Item.Builds s block t .absent stmts ∧
              ∀ before first links last after, block = before ++ first :: (links ++ last :: after) →
                first.isConditional → first.isBranch = false →
                (∀ item ∈ links, item.isBranch ∧ item.isConditional) →
                last.isBranch → last.isConditional = false →
                ∃ earlier keyword condition body parts final later,
                  stmts =
                    earlier ++ .ifElse keyword condition body (.nest parts (.block final)) :: later ∧
                  first.Yields (keyword, condition, body) ∧ List.Forall₂ Item.Yields links parts ∧
                  last.Fills final ∧ (∃ u, Item.Builds s before u .absent earlier) ∧
                  ∃ u, Item.Builds u after t .absent later) ∧
    ∀ session pass read reading, (Reading.start session pass).Passes read reading →
      ∀ body, (body = reading.program ∨ ∃ owner, (owner, body) ∈ reading.blocks) →
        body.chain = .unfinished → ∃ before keyword condition block otherwise,
          body.statements = before ++ [.ifElse keyword condition block otherwise] ∧
            otherwise.isOpen := by
  refine ⟨fun hb hnone => ?_, fun session pass read reading hp body hbody => ?_⟩
  · obtain ⟨program, hprogram⟩ := exists_program_of_parse hnone
    have hparse : parse settings tokens = (some program, []) := Prod.ext hprogram hnone
    obtain ⟨items, -, -, hitems, -⟩ := exists_leads_of_parse hb hparse
    obtain ⟨-, hclean, hstatements⟩ := (parse_eq_ok hb).1 hparse
    refine ⟨program, hprogram, ⟨items, hitems⟩, fun items hread => ?_⟩
    obtain ⟨after, hleads, hafter⟩ := Session.leads_of_readPass hread hclean
    obtain ⟨branches, stmts, grown, hbuilds, hgrows, he⟩ := hleads.builds rfl .closed
    obtain ⟨rfl, rfl⟩ := hgrows.of_closed rfl
    obtain rfl : stmts = program := (he.symm.trans hafter.symm).trans hstatements
    refine ⟨⟨_, hbuilds⟩, fun block hw => ?_⟩
    obtain ⟨u, v, stmts, hstmts, hblock⟩ := hbuilds.of_within hw
    obtain ⟨hfirst, hchain⟩ := hblock.isChain
    exact ⟨hfirst rfl, hchain, u, v, stmts, hstmts, hblock,
      fun before first links last after he hi hf hlinks hl hn =>
        (he ▸ hblock).chain_eq hi hf hlinks hl hn⟩
  · have hreading := Reading.extendable_of_passes hp
    obtain rfl | ⟨owner, hm⟩ := hbody
    · exact hreading.program
    · exact hreading.bodies _ hm

theorem Token.kind_synthetic (kind : Kind) (text : String) : (synthetic kind text).kind = kind := rfl

/-- An opening brace, the items of a block, and a closing brace. -/
def Item.braced (head : List Token) (whole : Token.Unbroken head) (inner : List Item) : Item :=
  .block head (.synthetic .openCurly "\x7b") inner (.synthetic .closeCurly "\x7d") whole
    (Token.kind_synthetic .openCurly "\x7b") (Token.kind_synthetic .closeCurly "\x7d")

/-- The `if` of a chain. -/
def choiceStart : Item :=
  .braced [.synthetic (.keyword .ifWord) "if", .synthetic (.literal .bool) "true"]
    (by unfold Token.Unbroken; decide) [.line [] (.synthetic .semicolon ";") Token.unbroken_nil
      (Token.kind_synthetic .semicolon ";")]

/-- The `else if` of the chain. -/
def choiceLink : Item :=
  .braced [.synthetic (.keyword .elseWord) "else", .synthetic (.keyword .ifWord) "if",
      .synthetic (.literal .bool) "false"] (by unfold Token.Unbroken; decide)
    [.line [.synthetic (.keyword .returnWord) "return"] (.synthetic .semicolon ";")
      (by unfold Token.Unbroken; decide) (Token.kind_synthetic .semicolon ";")]

/-- The `else` of the chain. -/
def choiceEnd : Item :=
  .braced [.synthetic (.keyword .elseWord) "else"] (by unfold Token.Unbroken; decide) []

/-- The words of `module m { fn f { if true { ; } else if false { return; } else { } } }`. -/
def choosing : List Token :=
  let opening : Token := .synthetic .openCurly "\x7b"
  let closing : Token := .synthetic .closeCurly "\x7d"
  let stop : Token := .synthetic .semicolon ";"
  let ifWord : Token := .synthetic (.keyword .ifWord) "if"
  let elseWord : Token := .synthetic (.keyword .elseWord) "else"
  [.synthetic (.keyword .moduleWord) "module", .synthetic .identifier "m", opening,
    .synthetic (.keyword .fnWord) "fn", .synthetic .identifier "f", opening,
    ifWord, .synthetic (.literal .bool) "true", opening, stop, closing,
    elseWord, ifWord, .synthetic (.literal .bool) "false", opening,
    .synthetic (.keyword .returnWord) "return", stop, closing,
    elseWord, opening, closing, closing, closing]

/-- The items of that program. -/
def choosingItems : List Item :=
  [.braced [.synthetic (.keyword .moduleWord) "module", .synthetic .identifier "m"]
    (by unfold Token.Unbroken; decide)
    [.braced [.synthetic (.keyword .fnWord) "fn", .synthetic .identifier "f"]
      (by unfold Token.Unbroken; decide) [choiceStart, choiceLink, choiceEnd]]]

/-- The chain of the program is one statement. When the block of its `if` has been read, a branch may be
attached to the statement. -/
theorem chains_of_parse_choosing :
    let reading := (Reading.start (Session.skim {} choosing) .evaluate).steps (choosing.take 11)
    (∃ program stmts earlier keyword condition body part final later,
      parse {} choosing = (some program, []) ∧ Stmt.Within program stmts ∧
      stmts = earlier ++ .ifElse keyword condition body (.nest [part] (.block final)) :: later ∧
      choiceStart.Yields (keyword, condition, body) ∧ choiceLink.Yields part ∧
      choiceEnd.Fills final) ∧
    reading.body.chain = .unfinished ∧ ∃ before keyword condition block otherwise,
      reading.body.statements = before ++ [.ifElse keyword condition block otherwise] ∧
        otherwise.isOpen := by
  intro reading
  obtain ⟨hprogram, hflag⟩ := chains_of_parse {} choosing
  have hnone : (parse {} choosing).2 = [] := by with_unfolding_all rfl
  have hread : choosing.takeWhile (·.kind ≠ .endOfFile) = Item.tokensOf choosingItems := by
    with_unfolding_all rfl
  obtain ⟨program, hparse, -, hblocks⟩ := hprogram (by decide) hnone
  have hwithin : Item.Within choosingItems [choiceStart, choiceLink, choiceEnd] :=
    .inside (.inside .whole (.head _)) (.head _)
  obtain ⟨-, -, s, t, stmts, hstmts, -, hchains⟩ := (hblocks choosingItems hread).2 _ hwithin
  obtain ⟨earlier, keyword, condition, body, parts, final, later, he, hstart, hparts, hfinal, -, -⟩ :=
    hchains [] choiceStart [choiceLink] choiceEnd [] rfl rfl rfl (by decide) rfl rfl
  obtain ⟨part, rfl⟩ : ∃ part, parts = [part] := List.length_eq_one_iff.1 hparts.length_eq.symm
  have hchain : reading.body.chain = .unfinished := by with_unfolding_all rfl
  have hopen : reading.session.log.isClosed = false := by with_unfolding_all rfl
  refine ⟨⟨program, stmts, earlier, keyword, condition, body, part, final, later,
    Prod.ext hparse hnone, hstmts, he, hstart, ?_, hfinal⟩, hchain,
    hflag _ _ _ _ (Reading.passes_steps_of_open hopen) _ reading.body_eq_or_mem hchain⟩
  cases hparts with
  | cons hpart => exact hpart

end MuLang
