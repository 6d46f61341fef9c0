import MuLang.Proofs.Course

/-!
# Chains of branches

A block tells what may follow it by a flag, and a branch that closes is put at the end of the chain of
the last statement. Without the flag and without the search for the end this is said by a grammar: an
`if` and the branches that directly follow it are one statement, whose branches are nested to the right
in the order of the text. The second pass makes of a text what the grammar says, and in both passes the
flag tells what stands last in a block.
-/
namespace MuLang

/-! ## Chains -/

namespace Else

/-- The branches with conditions, one in the other, and what ends the chain. -/
def nest (parts : List (Token × Expr × List Stmt)) (last : Else) : Else :=
  parts.foldr (fun part rest => .elseIf part.1 part.2.1 part.2.2 rest) last

/-- The blocks of the branches. -/
def blocks : Else → List (List Stmt)
  | .absent => []
  | .block body => [body]
  | .elseIf _ _ body otherwise => body :: otherwise.blocks

/-- Nothing is attached to a chain that still takes a branch. -/
theorem attach_absent : ∀ {chain : Else}, chain.isOpen → chain.attach .absent = some chain
  | .absent, _ => rfl
  | .block _, h => absurd h Bool.false_ne_true
  | .elseIf _ _ _ otherwise, h => by
    rw [isOpen] at h
    rw [attach, attach_absent h, Option.map_some]

/-- Branches are attached one after the other as they are all at once. -/
theorem attach_attach : ∀ {chain extended first second last : Else},
    chain.attach first = some extended → extended.attach second = some last →
    ∃ both, first.attach second = some both ∧ chain.attach both = some last
  | .absent, _, _, _, last, hf, hs => by
    cases hf
    exact ⟨last, hs, rfl⟩
  | .block _, _, _, _, _, hf, _ => by cases hf
  | .elseIf _ _ _ rest, _, _, _, _, hf, hs => by
    rw [attach] at hf
    obtain ⟨inner, hi, rfl⟩ := Option.map_eq_some_iff.1 hf
    rw [attach] at hs
    obtain ⟨last, hl, rfl⟩ := Option.map_eq_some_iff.1 hs
    obtain ⟨both, hb, ha⟩ := attach_attach hi hl
    exact ⟨both, hb, by rw [attach, ha, Option.map_some]⟩

/-- A branch is attached to chains that still take one, and decides whether another one may follow. -/
theorem isOpen_of_attach : ∀ {chain branch extended : Else}, chain.attach branch = some extended →
    chain.isOpen ∧ extended.isOpen = branch.isOpen
  | .absent, _, _, h => by
    cases h
    exact ⟨rfl, rfl⟩
  | .block _, _, _, h => by cases h
  | .elseIf _ _ _ _, _, _, h => by
    rw [attach] at h
    obtain ⟨inner, hi, rfl⟩ := Option.map_eq_some_iff.1 h
    rw [isOpen, isOpen]
    exact isOpen_of_attach hi

end Else

namespace Stmt

/-- The blocks that belong to a statement. -/
def blocks : Stmt → List (List Stmt)
  | .module _ body | .function _ body | .whileLoop _ _ body | .forLoop _ _ _ _ _ body => [body]
  | .ifElse _ _ body otherwise => body :: otherwise.blocks
  | _ => []

theorem mem_blocks_withBody {stmt : Stmt} {body : List Stmt} (h : stmt.blockKind?.isSome) :
    body ∈ (stmt.withBody body).blocks := by
  cases stmt <;> first | exact List.mem_cons_self | cases h

/-- The blocks of a program, the program itself among them. -/
inductive Within (program : List Stmt) : List Stmt → Prop
  | whole : Within program program
  | inside {block body : List Stmt} {stmt : Stmt} : Within program block → stmt ∈ block →
      body ∈ stmt.blocks → Within program body

end Stmt

/-! ## Heads -/

theorem Token.startsWith_concat {head : List Token} {opening : Token} (word : Keyword)
    (hk : opening.kind = .openCurly) :
    startsWith (.keyword word) (head ++ [opening]) = startsWith (.keyword word) head := by
  unfold startsWith afterModifiers
  induction head with
  | nil => simp [hk, Kind.isModifier, Kind.modifier?]
  | cons token rest ih =>
    cases hm : token.kind.isModifier with
    | true => simpa [hm] using ih
    | false => simp [hm]

/-- What starts with a keyword has it after its modifiers, also before a brace. -/
theorem Token.of_startsWith {word : Keyword} {head : List Token} {opening : Token}
    (h : startsWith (.keyword word) head) (hk : opening.kind = .openCurly) :
    ∃ modifiers first more, head = modifiers ++ first :: more ∧ first.kind = .keyword word ∧
      leadingModifiers (head ++ [opening]) = modifiers ∧
      afterModifiers (head ++ [opening]) = first :: (more ++ [opening]) := by
  rw [← startsWith_concat word hk, startsWith] at h
  obtain ⟨-, ha⟩ | ⟨modifiers, first, more, rfl, hl, ha⟩ :=
    modifiers_cases (by rw [hk]; rfl) head
  · simp [ha, hk] at h
  · rw [ha] at h
    exact ⟨modifiers, first, more, rfl, of_decide_eq_true h, hl, ha⟩

theorem Token.startsWith_cons {word : Keyword} {first : Token} (hk : first.kind = .keyword word)
    (other : Keyword) (more : List Token) :
    startsWith (.keyword other) (first :: more) = decide (word = other) := by
  simp [startsWith, afterModifiers, hk, Kind.isModifier, Kind.modifier?]

/-- What is read of the head of a block in the second pass. -/
inductive Step.Heads (chain : Chain) (opening : Token) (s : Session) :
    List Token → Owner → Session → Prop
  | plain {head : List Token} {stmt : Stmt} {t : Session} :
      Token.startsWith (.keyword .ifWord) head = false →
      Token.startsWith (.keyword .elseWord) head = false → stmt.isIf = false →
      stmt.blockKind?.isSome →
      statement (head ++ [opening]) s = (.ok (some stmt), t) →
      Heads chain opening s head (.statement stmt) t
  | ifElse {keyword : Token} {words : List Token} {condition : Expr} {t : Session} :
      keyword.kind = .keyword .ifWord →
      ifStatement (keyword :: (words ++ [opening])) [] s = (.ok (some (keyword, condition)), t) →
      Heads chain opening s (keyword :: words) (.statement (.ifElse keyword condition [] .absent)) t
  | elseIf {keyword next : Token} {words : List Token} {condition : Expr} {t : Session} :
      chain ≠ .closed → keyword.kind = .keyword .elseWord → next.kind = .keyword .ifWord →
      ifStatement (next :: (words ++ [opening])) [] s = (.ok (some (next, condition)), t) →
      Heads chain opening s (keyword :: next :: words) (.elseIf next condition) t
  | otherwise {keyword : Token} : chain ≠ .closed → keyword.kind = .keyword .elseWord →
      Heads chain opening s [keyword] .otherwise s

/-- A branch is an `else` with a condition or without one. -/
theorem Step.heads_of_elseOwner {chain : Chain} {opening : Token} {head : List Token} {s t : Session}
    {result : Option Owner} (hs : s.isSkimming = false) (opens : opening.kind = .openCurly)
    (he : Token.startsWith (.keyword .elseWord) head)
    (h : elseOwner chain (Token.afterModifiers (head ++ [opening]))
      (Token.leadingModifiers (head ++ [opening])) s = (.ok result, t)) :
    ∃ owner, result = some owner ∧ Heads chain opening s head owner t := by
  obtain ⟨modifiers, first, more, rfl, hf, hl, ha⟩ := Token.of_startsWith he opens
  rw [hl, ha] at h
  have hc := (elseOwner_ok h).1
  cases more with
  | nil =>
    simp [elseOwner, Token.tokenAt, opens, and_assoc] at h
    obtain ⟨rfl, -, rfl, rfl⟩ := h
    exact ⟨_, rfl, .otherwise hc hf⟩
  | cons next rest =>
    simp [elseOwner, Token.tokenAt, and_assoc] at h
    obtain ⟨rfl, -, hn, head, hi, rfl⟩ := h
    obtain ⟨-, condition, rfl, -⟩ := spelled_if hs hi
    exact ⟨_, rfl, .elseIf hc hf hn hi⟩

/-- Whatever is no branch has the head of a statement. -/
theorem Step.heads_of_statement {chain : Chain} {opening : Token} {head : List Token} {s t : Session}
    {result : Option Stmt} {kind : ScopeKind} (hs : s.isSkimming = false)
    (whole : Token.Unbroken head) (opens : opening.kind = .openCurly)
    (hb : Token.block? (head ++ [opening]) = some kind)
    (he : Token.startsWith (.keyword .elseWord) head = false)
    (h : statement (head ++ [opening]) s = (.ok result, t)) :
    ∃ owner, result.map .statement = some owner ∧ Heads chain opening s head owner t := by
  cases hi : Token.startsWith (.keyword .ifWord) head with
  | false =>
    obtain ⟨stmt, rfl, hspelled⟩ := spelled_head hs whole opens hb h
    cases hspelled with
    | ifElse hk => cases (Token.startsWith_cons hk .ifWord _).symm.trans hi
    | module | function | whileLoop | forLoop | countingLoop =>
      exact ⟨_, rfl, .plain hi he rfl rfl h⟩
  | true =>
    obtain ⟨modifiers, first, more, rfl, hf, hl, ha⟩ := Token.of_startsWith hi opens
    unfold statement at h
    rw [hl, ha] at h
    simp only [hf] at h
    obtain ⟨head, hi, rfl⟩ := Fallible.map_eq_ok.1 h
    obtain ⟨rfl, condition, rfl, -⟩ := spelled_if hs hi
    exact ⟨_, rfl, .ifElse hf hi⟩

/-- In the second pass the words before a brace alone decide what the block is. -/
theorem Step.heads_of_owner {chain : Chain} {opening : Token} {head : List Token} {s t : Session}
    {result : Option Owner} (hs : s.isSkimming = false) (whole : Token.Unbroken head)
    (opens : opening.kind = .openCurly) (h : owner chain (head ++ [opening]) s = (.ok result, t)) :
    ∃ owner, result = some owner ∧ Heads chain opening s head owner t := by
  unfold owner at h
  cases hb : Token.block? (head ++ [opening]) with
  | none =>
    simp only [hb] at h
    exact absurd h (fails_ofExcept_bind_fail _ _ _ _ _ _)
  | some kind =>
    simp only [hb] at h
    obtain ⟨he, h⟩ | ⟨he, h⟩ := Fallible.ite_eq_ok.1 h
    · exact heads_of_elseOwner hs opens ((Token.startsWith_concat _ opens).symm.trans he) h
    · have hplain : Token.startsWith (.keyword .elseWord) head = false :=
        (Token.startsWith_concat _ opens).symm.trans (Bool.eq_false_iff.2 he)
      obtain ⟨read, hread, rfl⟩ := Fallible.map_eq_ok.1 h
      exact heads_of_statement hs whole opens hb hplain hread

theorem Token.openedKind_of_branch {first opening : Token} (more : List Token)
    (hk : first.kind = .keyword .ifWord ∨ first.kind = .keyword .elseWord) :
    openedKind (first :: more) opening = .ifBlock := by
  obtain hk | hk := hk <;>
    simp [openedKind, blockKind, block?, afterModifiers, hk, Kind.isModifier, Kind.modifier?,
      Kind.block?]

/-! ## Blocks without flags -/

namespace Item

/-- From a session of the second pass items lead to a later one. First come the branches of an `if` that
stands right before the items, and then what becomes statements of its own: an `if` takes the branches
after it along, and after anything else there are none. -/
inductive Builds : Session → List Item → Session → Else → List Stmt → Prop
  | nil {s : Session} : Builds s [] s .absent []
  | line {s t u : Session} {items : List Item} {words : List Token} {stop : Token}
      {whole : Token.Unbroken words} {stops : stop.kind = .semicolon} {result : Option Stmt}
      {stmts : List Stmt} : Step.closed (words ++ [stop]) s = (.ok result, t) →
      Builds t items u .absent stmts →
      Builds s (.line words stop whole stops :: items) u .absent (result.toList ++ stmts)
  | block {s t u v : Session} {inner items : List Item} {head : List Token} {opening closing : Token}
      {whole : Token.Unbroken head} {opens : opening.kind = .openCurly}
      {closes : closing.kind = .closeCurly} {scopes : ScopeStack} {stmt : Stmt}
      {body stmts : List Stmt} : Token.startsWith (.keyword .ifWord) head = false →
      Token.startsWith (.keyword .elseWord) head = false → stmt.blockKind?.isSome →
      Step.statement (head ++ [opening]) s = (.ok (some stmt), t) →
      Builds (t.inside s.scopes (Token.openedKind head opening)) inner u .absent body →
      u.scopes.popBlock? = some scopes → Builds { u with scopes } items v .absent stmts →
      Builds s (.block head opening inner closing whole opens closes :: items) v .absent
        (stmt.withBody body :: stmts)
  | ifElse {s t u v : Session} {inner items : List Item} {words : List Token}
      {keyword opening closing : Token} {whole : Token.Unbroken (keyword :: words)}
      {opens : opening.kind = .openCurly} {closes : closing.kind = .closeCurly}
      {scopes : ScopeStack} {condition : Expr} {body stmts : List Stmt} {branches : Else} :
      keyword.kind = .keyword .ifWord →
      Step.ifStatement (keyword :: (words ++ [opening])) [] s =
        (.ok (some (keyword, condition)), t) →
      Builds (t.inside s.scopes .ifBlock) inner u .absent body →
      u.scopes.popBlock? = some scopes → Builds { u with scopes } items v branches stmts →
      Builds s (.block (keyword :: words) opening inner closing whole opens closes :: items) v .absent
        (.ifElse keyword condition body branches :: stmts)
  | elseIf {s t u v : Session} {inner items : List Item} {words : List Token}
      {keyword next opening closing : Token} {whole : Token.Unbroken (keyword :: next :: words)}
      {opens : opening.kind = .openCurly} {closes : closing.kind = .closeCurly}
      {scopes : ScopeStack} {condition : Expr} {body stmts : List Stmt} {branches : Else} :
      keyword.kind = .keyword .elseWord → next.kind = .keyword .ifWord →
      Step.ifStatement (next :: (words ++ [opening])) [] s = (.ok (some (next, condition)), t) →
      Builds (t.inside s.scopes .ifBlock) inner u .absent body →
      u.scopes.popBlock? = some scopes → Builds { u with scopes } items v branches stmts →
      Builds s (.block (keyword :: next :: words) opening inner closing whole opens closes :: items) v
        (.elseIf next condition body branches) stmts
  | otherwise {s u v : Session} {inner items : List Item} {keyword opening closing : Token}
      {whole : Token.Unbroken [keyword]} {opens : opening.kind = .openCurly}
      {closes : closing.kind = .closeCurly} {scopes : ScopeStack} {body stmts : List Stmt} :
      keyword.kind = .keyword .elseWord → Builds (s.inside s.scopes .ifBlock) inner u .absent body →
      u.scopes.popBlock? = some scopes → Builds { u with scopes } items v .absent stmts →
      Builds s (.block [keyword] opening inner closing whole opens closes :: items) v (.block body)
        stmts

end Item

namespace Body

variable {body : Body} {branches : Else} {grown : List Stmt}

/-- The statements of a body once branches have been attached to the last one. Where none may follow
there are none. -/
inductive Grows (body : Body) : Else → List Stmt → Prop
  | closed : body.chain = .closed → Grows body .absent body.statements
  | attached {branches : Else} {grown : List Stmt} : body.attach? branches = some grown →
      Grows body branches grown

theorem Grows.of_closed (h : body.Grows branches grown) (hc : body.chain = .closed) :
    branches = .absent ∧ grown = body.statements := by
  cases h with
  | closed => exact ⟨rfl, rfl⟩
  | attached ha => simp [attach?, hc] at ha

theorem attach?_unfinished {before block : List Stmt} {keyword : Token} {condition : Expr}
    {otherwise : Else} (branch : Else) :
    attach? ⟨before ++ [.ifElse keyword condition block otherwise], .unfinished⟩ branch =
      (otherwise.attach branch).map fun extended =>
        before ++ [.ifElse keyword condition block extended] := by
  simp [attach?]

theorem Grows.of_unfinished {before block : List Stmt} {keyword : Token} {condition : Expr}
    {otherwise : Else}
    (h : Grows ⟨before ++ [.ifElse keyword condition block otherwise], .unfinished⟩ branches grown) :
    ∃ extended, otherwise.attach branches = some extended ∧
      grown = before ++ [.ifElse keyword condition block extended] := by
  cases h with
  | closed hc => cases hc
  | attached ha =>
    rw [attach?_unfinished] at ha
    obtain ⟨extended, he, rfl⟩ := Option.map_eq_some_iff.1 ha
    exact ⟨extended, he, rfl⟩

theorem Chained.grows (h : body.Chained) : body.Grows .absent body.statements := by
  cases h with
  | closed => exact .closed rfl
  | unfinished ho =>
    refine .attached ?_
    rw [attach?_unfinished, Else.attach_absent ho, Option.map_some]

variable {keyword : Token} {condition : Expr} {inside : List Stmt}

/-- After an `if` the branches are attached to it. -/
theorem Grows.of_close_ifElse
    (h : (body.close (.statement (.ifElse keyword condition [] .absent)) inside).Grows branches grown) :
    grown = body.statements ++ [.ifElse keyword condition inside branches] := by
  obtain ⟨extended, ha, rfl⟩ := h.of_unfinished
  cases ha
  rfl

/-- After an `else if` the branches are attached to it, and so they are attached with it. -/
theorem Chained.close_elseIf (h : body.Chained) (hc : body.chain ≠ .closed) :
    (body.close (.elseIf keyword condition) inside).Chained ∧
      ∀ {branches : Else} {grown : List Stmt},
        (body.close (.elseIf keyword condition) inside).Grows branches grown →
        body.Grows (.elseIf keyword condition inside branches) grown := by
  cases h with
  | closed => exact absurd rfl hc
  | @unfinished before block other test otherwise hopen =>
    obtain ⟨extended, ha, ho, -⟩ :=
      Else.attach_of_isOpen hopen (.elseIf keyword condition inside .absent)
    have hclose : Body.close ⟨before ++ [.ifElse other test block otherwise], .unfinished⟩
        (.elseIf keyword condition) inside =
        ⟨before ++ [.ifElse other test block extended], .unfinished⟩ := by
      simp [Body.close, attach?_unfinished, ha]
    rw [hclose]
    refine ⟨.unfinished ho, fun {branches grown} hg => .attached ?_⟩
    obtain ⟨last, hl, rfl⟩ := hg.of_unfinished
    obtain ⟨both, hboth, hlast⟩ := Else.attach_attach ha hl
    cases hboth
    rw [attach?_unfinished, hlast, Option.map_some]

/-- After an `else` no branch follows. -/
theorem Chained.close_otherwise (h : body.Chained) (hc : body.chain ≠ .closed) :
    body.Grows (.block inside) (body.close .otherwise inside).statements := by
  cases h with
  | closed => exact absurd rfl hc
  | @unfinished before block other test otherwise hopen =>
    obtain ⟨extended, ha, -⟩ := Else.attach_of_isOpen hopen (.block inside)
    have hattach : attach? ⟨before ++ [.ifElse other test block otherwise], .unfinished⟩
        (.block inside) = some (before ++ [.ifElse other test block extended]) := by
      rw [attach?_unfinished, ha, Option.map_some]
    refine .attached ?_
    rw [Body.close, hattach]
    rfl

end Body

namespace Item.Leads

variable {s t : Session} {body after : Body} {items : List Item}

theorem pass_eq (h : Leads s body items t after) : t.pass = s.pass := by
  induction h with
  | nil => rfl
  | @line s _ _ _ _ _ words stop _ _ _ hr _ ih =>
    have hf := (Step.commits_closed (words ++ [stop])).moved s
    rw [hr] at hf
    exact ih.trans (congrArg Frame.pass hf.symm)
  | @block s _ _ _ body _ _ _ _ head opening _ _ _ _ _ _ hr _ _ _ ihi ih =>
    have ho := (Step.commits_owner body.chain (head ++ [opening])).moved s
    rw [hr] at ho
    exact ih.trans (ihi.trans ho.pass_eq)

/-- Where the second pass goes through some items, the flag and the search for the end of a chain come
to what the grammar says. -/
theorem builds (h : Leads s body items t after) (hs : s.isSkimming = false) (hb : body.Chained) :
    ∃ branches stmts grown, Builds s items t branches stmts ∧ body.Grows branches grown ∧
      after.statements = grown ++ stmts := by
  induction h with
  | nil => exact ⟨_, _, _, .nil, hb.grows, (List.append_nil _).symm⟩
  | @line s t u body after items words stop whole stops result hr hrest ih =>
    have ht : t.isSkimming = false := by
      have hf := (Step.commits_closed (words ++ [stop])).moved s
      rw [hr] at hf
      exact (Session.isSkimming_of_frame hf.symm).trans hs
    obtain ⟨branches, stmts, grown, hbuilds, hgrows, he⟩ := ih ht .closed
    obtain ⟨rfl, rfl⟩ := hgrows.of_closed rfl
    refine ⟨_, _, _, .line hr hbuilds, hb.grows, ?_⟩
    rw [he, Body.add, List.append_assoc]
  | @block s t u v body inside after inner items head opening closing whole opens closes owner
      scopes hr hinner hpop hrest ihi ih =>
    have ht : (t.inside s.scopes (Token.openedKind head opening)).isSkimming = false := by
      have ho := (Step.commits_owner body.chain (head ++ [opening])).moved s
      rw [hr] at ho
      exact (congrArg (decide <| · = Pass.skim) ho.pass_eq).trans hs
    have hu : Session.isSkimming { u with scopes } = false :=
      (congrArg (decide <| · = Pass.skim) hinner.pass_eq).trans ht
    obtain ⟨_, stmts, _, hbody, hgrows, he⟩ := ihi ht .closed
    obtain ⟨rfl, rfl⟩ := hgrows.of_closed rfl
    obtain rfl : inside.statements = stmts := he
    obtain ⟨owner, rfl, hheads⟩ := Step.heads_of_owner hs whole opens hr
    cases hheads with
    | @plain _ stmt _ hi he hn hk hstatement =>
      have hclose : body.close (.statement stmt) inside.statements =
          ⟨body.statements ++ [stmt.withBody inside.statements], .closed⟩ := by
        simp [Body.close, hn]
      rw [Option.getD_some, hclose] at ih
      obtain ⟨_, stmts, _, hbuilds, hgrows, he'⟩ := ih hu .closed
      obtain ⟨rfl, rfl⟩ := hgrows.of_closed rfl
      exact ⟨_, _, _, .block hi he hk hstatement hbody hpop hbuilds, hb.grows, by simp [he']⟩
    | ifElse hk hcondition =>
      rw [Token.openedKind_of_branch _ (.inl hk)] at hbody
      obtain ⟨branches, stmts, _, hbuilds, hgrows, he'⟩ := ih hu (.unfinished rfl)
      obtain rfl := hgrows.of_close_ifElse
      exact ⟨_, _, _, .ifElse hk hcondition hbody hpop hbuilds, hb.grows, by simp [he']⟩
    | elseIf hc hk hn hcondition =>
      rw [Token.openedKind_of_branch _ (.inr hk)] at hbody
      obtain ⟨hchained, hattached⟩ := hb.close_elseIf hc
      obtain ⟨branches, stmts, _, hbuilds, hgrows, he'⟩ := ih hu hchained
      exact ⟨_, _, _, .elseIf hk hn hcondition hbody hpop hbuilds, hattached hgrows, he'⟩
    | otherwise hc hk =>
      rw [Token.openedKind_of_branch _ (.inr hk)] at hbody
      obtain ⟨_, stmts, _, hbuilds, hgrows, he'⟩ := ih hu .closed
      obtain ⟨rfl, rfl⟩ := hgrows.of_closed rfl
      exact ⟨_, _, _, .otherwise hk hbody hpop hbuilds, hb.close_otherwise hc, he'⟩

end Item.Leads

end MuLang
