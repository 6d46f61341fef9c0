import MuLang.Proofs.Braces
import MuLang.Proofs.Spelling

/-!
# The image of a program

The tokens of a program are lines, each up to its `;`, and blocks between braces. Where the second
pass reports nothing, it makes of them one statement for each line that says anything, and one
statement or branch for each block, in the order of the text and with the same nesting. Whatever it
makes nothing of has been reported.
-/
namespace MuLang

/-! ## Matched braces -/

namespace Token

variable {tokens more : List Token}

/-- Tokens after which as many braces are open as before, none of which closes nothing. -/
def Matched (tokens : List Token) : Prop :=
  ∀ depth, tokens.foldl depthAfter depth = depth ∧ strays depth tokens = []

theorem matched_nil : Matched [] := fun _ => ⟨rfl, rfl⟩

theorem Matched.append (h : Matched tokens) (hm : Matched more) : Matched (tokens ++ more) := by
  intro depth
  obtain ⟨hd, hs⟩ := h depth
  rw [List.foldl_append, strays_append, hd, hs]
  exact hm depth

theorem Unbroken.matched (h : Unbroken tokens) : Matched tokens := by
  induction tokens with
  | nil => exact matched_nil
  | cons token rest ih =>
    intro depth
    obtain ⟨ht, hr⟩ := List.forall_mem_cons.1 h
    obtain ⟨hd, hs⟩ := ih hr depth
    have hopen : token.kind ≠ .openCurly := fun hk => by simp [hk, Kind.isBreak] at ht
    have hclose : token.kind ≠ .closeCurly := fun hk => by simp [hk, Kind.isBreak] at ht
    have hafter : depthAfter depth token = depth := by
      unfold depthAfter
      split <;> first | contradiction | rfl
    simp [strays, isStray, hafter, hclose, hd, hs]

theorem matched_semicolon {stop : Token} (h : stop.kind = .semicolon) : Matched [stop] := by
  intro depth
  simp [depthAfter, strays, isStray, h]

theorem Matched.block {opening closing : Token} (h : Matched tokens)
    (ho : opening.kind = .openCurly) (hc : closing.kind = .closeCurly) :
    Matched (opening :: tokens ++ [closing]) := by
  intro depth
  obtain ⟨hd, hs⟩ := h (depth + 1)
  have hopen : depthAfter depth opening = depth + 1 := by simp [depthAfter, ho]
  have hclose : depthAfter (depth + 1) closing = depth := by simp [depthAfter, hc]
  simp [strays, isStray, strays_append, hopen, hclose, ho, hd, hs]

end Token

/-! ## Lines and blocks -/

/-- A line up to its `;`, or a block with its head and its braces. -/
inductive Item where
  | line (words : List Token) (stop : Token) (whole : Token.Unbroken words)
      (stops : stop.kind = .semicolon)
  | block (head : List Token) (opening : Token) (body : List Item) (closing : Token)
      (whole : Token.Unbroken head) (opens : opening.kind = .openCurly)
      (closes : closing.kind = .closeCurly)

namespace Item

mutual

/-- What is written. -/
def tokens : Item → List Token
  | .line words stop _ _ => words ++ [stop]
  | .block head opening body closing _ _ _ => head ++ (opening :: tokensOf body ++ [closing])

def tokensOf : List Item → List Token
  | [] => []
  | item :: rest => item.tokens ++ tokensOf rest

end

theorem tokensOf_append (items more : List Item) :
    tokensOf (items ++ more) = tokensOf items ++ tokensOf more := by
  induction items with
  | nil => rfl
  | cons item rest ih => rw [List.cons_append, tokensOf, tokensOf, ih, List.append_assoc]

mutual

theorem matched_tokens : ∀ item : Item, Token.Matched item.tokens
  | .line _ _ whole stops => by
    rw [tokens]
    exact whole.matched.append (Token.matched_semicolon stops)
  | .block _ _ body _ whole opens closes => by
    rw [tokens]
    exact whole.matched.append ((matched_tokensOf body).block opens closes)

theorem matched_tokensOf : ∀ items : List Item, Token.Matched (tokensOf items)
  | [] => Token.matched_nil
  | item :: rest => by
    rw [tokensOf]
    exact (matched_tokens item).append (matched_tokensOf rest)

end

end Item

/-! ## Statements and branches -/

/-- A statement without a block, or a block with what it belongs to. -/
inductive Written where
  | line (stmt : Stmt)
  | block (owner : Owner) (body : List Written)

mutual

/-- A statement as it is written. The branches of an `if` are blocks that follow its own. -/
def Stmt.written : Stmt → List Written
  | .module identifier body =>
    [.block (.statement (.module identifier [])) (Stmt.writtenAll body)]
  | .function header body => [.block (.statement (.function header [])) (Stmt.writtenAll body)]
  | .ifElse keyword condition body otherwise =>
    .block (.statement (.ifElse keyword condition [] .absent)) (Stmt.writtenAll body) ::
      otherwise.written
  | .whileLoop keyword condition body =>
    [.block (.statement (.whileLoop keyword condition [])) (Stmt.writtenAll body)]
  | .forLoop keyword header value condition step body =>
    [.block (.statement (.forLoop keyword header value condition step [])) (Stmt.writtenAll body)]
  | .native header binding => [.line (.native header binding)]
  | .declare header => [.line (.declare header)]
  | .define header value => [.line (.define header value)]
  | .action action => [.line (.action action)]
  | .returning keyword value => [.line (.returning keyword value)]
  | .stdlibFinish keyword => [.line (.stdlibFinish keyword)]

def Else.written : Else → List Written
  | .absent => []
  | .block body => [.block .otherwise (Stmt.writtenAll body)]
  | .elseIf keyword condition body otherwise =>
    .block (.elseIf keyword condition) (Stmt.writtenAll body) :: otherwise.written

/-- The statements of a block as they are written. -/
def Stmt.writtenAll : List Stmt → List Written
  | [] => []
  | stmt :: rest => stmt.written ++ Stmt.writtenAll rest

end

theorem Stmt.writtenAll_append (first second : List Stmt) :
    writtenAll (first ++ second) = writtenAll first ++ writtenAll second := by
  induction first with
  | nil => rfl
  | cons stmt rest ih => simp [writtenAll, ih]

theorem Stmt.Spelled.written_eq {stmt : Stmt} {tokens : List Token} (h : stmt.Spelled tokens) :
    stmt.written = [.line stmt] := by
  cases h <;> rfl

/-- Lines and blocks say statements and branches, each of them one. A lone `;` says nothing. -/
inductive Item.SpellAll : List Item → List Written → Prop
  | nil : SpellAll [] []
  | blank {stop : Token} {stops : stop.kind = .semicolon} {whole : Token.Unbroken []}
      {items : List Item} {written : List Written} : SpellAll items written →
      SpellAll (.line [] stop whole stops :: items) written
  | line {words : List Token} {stop : Token} {whole : Token.Unbroken words}
      {stops : stop.kind = .semicolon} {items : List Item} {written : List Written} {stmt : Stmt} :
      stmt.Spelled words → SpellAll items written →
      SpellAll (.line words stop whole stops :: items) (.line stmt :: written)
  | block {head : List Token} {opening closing : Token} {inner items : List Item}
      {whole : Token.Unbroken head} {opens : opening.kind = .openCurly}
      {closes : closing.kind = .closeCurly} {owner : Owner} {body written : List Written} :
      owner.Spelled head → SpellAll inner body → SpellAll items written →
      SpellAll (.block head opening inner closing whole opens closes :: items)
        (.block owner body :: written)

theorem Item.SpellAll.append {items more : List Item} {written others : List Written}
    (h : SpellAll items written) (hm : SpellAll more others) :
    SpellAll (items ++ more) (written ++ others) := by
  induction h with
  | nil => exact hm
  | blank _ ih => exact .blank ih
  | line hs _ ih => exact .line hs ih
  | block hs hb _ _ ih => exact .block hs hb ih

/-! ## Chains of branches -/

/-- Whether a chain of branches still takes one. -/
def Else.isOpen : Else → Bool
  | .absent => true
  | .block _ => false
  | .elseIf _ _ _ otherwise => otherwise.isOpen

/-- A chain that still takes a branch gets it at its end. -/
theorem Else.attach_of_isOpen : ∀ {chain : Else}, chain.isOpen → ∀ branch : Else,
    ∃ extended, chain.attach branch = some extended ∧ extended.isOpen = branch.isOpen ∧
      extended.written = chain.written ++ branch.written
  | .absent, _, branch => ⟨branch, rfl, rfl, rfl⟩
  | .block _, h, _ => absurd h Bool.false_ne_true
  | .elseIf keyword condition body otherwise, h, branch => by
    rw [isOpen] at h
    obtain ⟨extended, ha, ho, hw⟩ := attach_of_isOpen h branch
    refine ⟨.elseIf keyword condition body extended, ?_, ho, ?_⟩
    · rw [attach, ha, Option.map_some]
    · rw [written, written, hw, List.cons_append]

namespace Body

/-- An `else` may follow just where the last statement is an `if` that still takes one. -/
inductive Chained : Body → Prop
  | closed {statements : List Stmt} : Chained ⟨statements, .closed⟩
  | unfinished {before block : List Stmt} {keyword : Token} {condition : Expr}
      {otherwise : Else} : otherwise.isOpen →
      Chained ⟨before ++ [.ifElse keyword condition block otherwise], .unfinished⟩

variable {parent : Body} {owner : Owner} {head : List Token}

/-- Where an `else` may follow, a branch is attached. -/
theorem Chained.attach (h : parent.Chained) (hc : parent.chain ≠ .closed) (branch : Else) :
    ∃ before keyword condition block extended,
      parent.attach? branch = some (before ++ [.ifElse keyword condition block extended]) ∧
      extended.isOpen = branch.isOpen ∧
      Stmt.writtenAll (before ++ [.ifElse keyword condition block extended]) =
        Stmt.writtenAll parent.statements ++ branch.written := by
  cases h with
  | closed => exact absurd rfl hc
  | @unfinished before block keyword condition otherwise ho =>
    obtain ⟨extended, ha, hb, hw⟩ := Else.attach_of_isOpen ho branch
    refine ⟨before, keyword, condition, block, extended, ?_, hb, ?_⟩
    · simp [attach?, ha]
    · simp [Stmt.writtenAll_append, Stmt.writtenAll, Stmt.written, hw]

/-- A block that closes becomes one more statement, or one more branch of the last one. -/
theorem Chained.close (h : parent.Chained) (ho : owner.Spelled head)
    (hb : owner.isBranch → parent.chain ≠ .closed) (body : List Stmt) :
    (parent.close owner body).Chained ∧
      Stmt.writtenAll (parent.close owner body).statements =
        Stmt.writtenAll parent.statements ++ [.block owner (Stmt.writtenAll body)] := by
  cases ho with
  | module | function | whileLoop | forLoop | countingLoop =>
    exact ⟨.closed, by rw [Body.close, Stmt.writtenAll_append]; rfl⟩
  | ifElse => exact ⟨.unfinished rfl, by rw [Body.close, Stmt.writtenAll_append]; rfl⟩
  | @elseIf _ keyword condition =>
    obtain ⟨before, _, _, _, extended, ha, he, hw⟩ :=
      h.attach (hb rfl) (.elseIf keyword condition body .absent)
    rw [Body.close]
    simp only [ha]
    exact ⟨.unfinished he, hw⟩
  | otherwise =>
    obtain ⟨before, _, _, _, extended, ha, -, hw⟩ := h.attach (hb rfl) (.block body)
    rw [Body.close, ha]
    exact ⟨.closed, hw⟩

/-- What a body holds is said by some lines and blocks. -/
structure Holds (items : List Item) (body : Body) : Prop where
  spelled : Item.SpellAll items (Stmt.writtenAll body.statements)
  chained : body.Chained

theorem holds_empty : Holds [] {} := ⟨.nil, .closed⟩

variable {items inner : List Item}

/-- A line adds the statement that it says. -/
theorem Holds.add (h : parent.Holds items) {words : List Token} {stop : Token}
    {result : Option Stmt} (hr : words = [] ∧ result = none ∨
      ∃ stmt, result = some stmt ∧ stmt.Spelled words)
    (whole : Token.Unbroken words) (stops : stop.kind = .semicolon) :
    (parent.add result).Holds (items ++ [.line words stop whole stops]) := by
  refine ⟨?_, .closed⟩
  rw [Body.add, Stmt.writtenAll_append]
  refine h.spelled.append ?_
  obtain ⟨rfl, rfl⟩ | ⟨stmt, rfl, hs⟩ := hr
  · exact .blank .nil
  · have hw : Stmt.writtenAll (some stmt).toList = [.line stmt] := by
      rw [Option.toList_some, Stmt.writtenAll, hs.written_eq]
      rfl
    rw [hw]
    exact .line hs .nil

/-- A block that closes adds the statement or the branch that it says. -/
theorem Holds.close (h : parent.Holds items) {body : Body} (hi : body.Holds inner)
    (ho : owner.Spelled head) (hb : owner.isBranch → parent.chain ≠ .closed)
    {opening closing : Token} (whole : Token.Unbroken head) (opens : opening.kind = .openCurly)
    (closes : closing.kind = .closeCurly) :
    (parent.close owner body.statements).Holds
      (items ++ [.block head opening inner closing whole opens closes]) := by
  obtain ⟨hc, hw⟩ := h.chained.close ho hb body.statements
  exact ⟨hw ▸ h.spelled.append (.block ho hi.spelled .nil), hc⟩

end Body

/-! ## Open blocks -/

namespace Reading

variable {reading later : Reading} {read tokens : List Token} {token : Token}

/-- The body of the innermost of some blocks in a program. -/
def innermost (program : Body) : List (Owner × Body) → Body
  | [] => program
  | (_, body) :: _ => body

theorem body_eq (reading : Reading) : reading.body = innermost reading.program reading.blocks := by
  rcases reading with ⟨session, program, _ | ⟨⟨owner, body⟩, blocks⟩, current⟩ <;> rfl

/-- The program and its open blocks hold what the tokens say that they have been read from. -/
inductive Covered : Body → List (Owner × Body) → List Token → Prop
  | outside {program : Body} {items : List Item} : program.Holds items →
      Covered program [] (Item.tokensOf items)
  | inside {program body : Body} {blocks : List (Owner × Body)} {owner : Owner} {opening : Token}
      {before head : List Token} {items : List Item} : Covered program blocks before →
      Token.Unbroken head → opening.kind = .openCurly → owner.Spelled head →
      (owner.isBranch → (innermost program blocks).chain ≠ .closed) → body.Holds items →
      Covered program ((owner, body) :: blocks) (before ++ (head ++ opening :: Item.tokensOf items))

/-- In the innermost body an `else` may follow just where an `if` still takes one. -/
theorem Covered.chained {program : Body} {blocks : List (Owner × Body)}
    (h : Covered program blocks tokens) : (innermost program blocks).Chained := by
  cases h with
  | outside hp => exact hp.chained
  | inside _ _ _ _ _ hbody => exact hbody.chained

/-- The innermost block changes with what has been read of it. -/
theorem covered_changeBody (h : Covered reading.program reading.blocks tokens) {change : Body → Body}
    {item : Item} (hc : ∀ items, reading.body.Holds items →
      (change reading.body).Holds (items ++ [item])) :
    Covered (reading.changeBody change).program (reading.changeBody change).blocks
      (tokens ++ item.tokens) := by
  have hitem : item.tokens = Item.tokensOf [item] := by simp [Item.tokensOf]
  rw [body_eq] at hc
  unfold changeBody
  rw [hitem]
  generalize reading.program = program, reading.blocks = blocks at h hc ⊢
  cases h with
  | outside hp =>
    rw [← Item.tokensOf_append]
    exact .outside (hc _ hp)
  | inside hs whole opens ho hb hbody =>
    rw [List.append_assoc, List.append_assoc, List.cons_append, ← Item.tokensOf_append]
    exact .inside hs whole opens ho hb (hc _ hbody)

/-! ## The statement under way -/

theorem current_closeBlock (reading : Reading) (brace : Token) :
    (reading.closeBlock brace).current = reading.current := by
  unfold closeBlock
  split
  · rfl
  · dsimp only
    split
    · rfl
    · rw [current_changeBody]
      rfl

/-- The statement under way goes on up to the next token that ends one. -/
theorem unbroken_step (h : Token.Unbroken reading.current) (hk : token.kind ≠ .endOfFile) :
    Token.Unbroken (reading.step token).current := by
  have ended {reading : Reading} (hn : reading.current = []) : Token.Unbroken reading.current :=
    hn ▸ Token.unbroken_nil
  unfold Reading.step
  split
  next => exact ended (by rw [endStatement_eq, current_changeBody, current_run])
  next => exact ended (current_run { reading with current := [] } _)
  next =>
    split
    next hn => exact ended ((current_closeBlock reading token).trans (List.isEmpty_iff.1 hn))
    next => exact ended (current_closeBlock (report { reading with current := [] } _) token)
  next hs ho hc =>
    have hb : token.kind.isBreak = false := by
      unfold Kind.isBreak
      split <;> first | contradiction | rfl
    exact List.forall_mem_append.2 ⟨h, by simpa using hb⟩

theorem unbroken_of_passes {session : Session} {pass : Pass}
    (h : (start session pass).Passes read later) : Token.Unbroken later.current :=
  @Passes.preserves _ _ _ (fun reading => Token.Unbroken reading.current) h
    (fun _ _ hu hk => unbroken_step hu hk) Token.unbroken_nil

/-! ## What each token does -/

/-- The blocks hold all that has been read but the statement under way. -/
def Faithful (read : List Token) (reading : Reading) : Prop :=
  ∃ before, read = before ++ reading.current ∧ Covered reading.program reading.blocks before

theorem faithful_endStatement (h : reading.Faithful read) (hs : reading.session.isSkimming = false)
    (hu : Token.Unbroken reading.current) (hk : token.kind = .semicolon)
    (hc : (reading.step token).session.log.Clean) :
    (reading.step token).Faithful (read ++ [token]) := by
  obtain ⟨before, rfl, hcovered⟩ := h
  unfold Reading.step at hc ⊢
  simp only [hk] at hc ⊢
  obtain ⟨result, session, hr, he⟩ := endStatement_of_clean hc
  rw [he]
  have hresult := Step.spelled_closed (by exact hs) hu hk hr
  have hadded := @covered_changeBody { reading with current := [], session } _ hcovered
    (·.add result) (.line reading.current token hu hk) fun items hi => hi.add hresult hu hk
  refine ⟨_, ?_, hadded⟩
  simp [Item.tokens]

theorem faithful_openBlock (h : reading.Faithful read) (hs : reading.session.isSkimming = false)
    (hu : Token.Unbroken reading.current) (hk : token.kind = .openCurly)
    (hc : (reading.step token).session.log.Clean) :
    (reading.step token).Faithful (read ++ [token]) := by
  obtain ⟨before, rfl, hcovered⟩ := h
  unfold Reading.step at hc ⊢
  simp only [hk] at hc ⊢
  obtain ⟨result, session, hr, he⟩ := openBlock_of_clean hc
  obtain ⟨owner, rfl, hspelled, hbranch⟩ := Step.spelled_owner (by exact hs) hu hk hr
  rw [he]
  change owner.isBranch → (body reading).chain ≠ .closed at hbranch
  rw [body_eq] at hbranch
  refine ⟨_, ?_, .inside hcovered hu hk hspelled hbranch Body.holds_empty⟩
  simp [Item.tokensOf]

theorem faithful_closeBlock (h : reading.Faithful read) (hk : token.kind = .closeCurly)
    (hc : (reading.step token).session.log.Clean) :
    (reading.step token).Faithful (read ++ [token]) := by
  obtain ⟨before, rfl, hcovered⟩ := h
  obtain ⟨hcurrent, hstep⟩ := step_closeCurly_of_clean hk hc
  rw [hstep] at hc ⊢
  obtain ⟨owner, body, blocks, scopes, hblocks, -, he⟩ := closeBlock_of_clean hc
  rw [hblocks] at hcovered
  cases hcovered with
  | inside houter whole opens ho hb hbody =>
    -- The block around has not changed since this one was opened, so a branch still finds its `if`.
    have hclosed := @covered_changeBody
      { reading with session := { reading.session with scopes := scopes }, blocks } _ houter
      (·.close owner body.statements) (.block _ _ _ token whole opens hk) fun items hi =>
        hi.close hbody ho (by rwa [body_eq]) whole opens hk
    rw [he]
    refine ⟨_, ?_, hclosed⟩
    simp [hcurrent, Item.tokens]

/-- While nothing is reported the second pass loses, repeats and moves nothing. -/
theorem faithful_step (h : reading.Faithful read) (hs : reading.session.isSkimming = false)
    (hu : Token.Unbroken reading.current) (hc : (reading.step token).session.log.Clean) :
    (reading.step token).Faithful (read ++ [token]) := by
  by_cases hsemicolon : token.kind = .semicolon
  · exact faithful_endStatement h hs hu hsemicolon hc
  by_cases hopen : token.kind = .openCurly
  · exact faithful_openBlock h hs hu hopen hc
  by_cases hclose : token.kind = .closeCurly
  · exact faithful_closeBlock h hclose hc
  have hstep : reading.step token = { reading with current := reading.current ++ [token] } := by
    unfold Reading.step
    split <;> first | contradiction | rfl
  obtain ⟨before, rfl, hcovered⟩ := h
  rw [hstep]
  exact ⟨before, List.append_assoc _ _ _, hcovered⟩

theorem faithful_of_passes {session : Session} (h : (start session .evaluate).Passes read later)
    (hc : later.session.log.Clean) : later.Faithful read := by
  induction h with
  | start => exact ⟨[], rfl, .outside Body.holds_empty⟩
  | @token read later token h _ _ ih =>
    exact faithful_step (ih ((extends_step later token).clean hc)) h.isSkimming_eq
      (unbroken_of_passes h) hc

/-! ## What is not made a statement -/

/-- A log that is open before a step holds the error of the step after it, if there is one. -/
theorem run_or_reports {α : Type} {R : Frame → Frame → Prop} {step : Step (Option α)}
    (hc : step.Commits R) (ho : reading.session.log.isClosed = false) :
    (∃ result session, step reading.session = (.ok result, session) ∧
      reading.run step = (result, { reading with session })) ∨
    reading.session.log.errors.length < (reading.run step).2.session.log.errors.length := by
  have he := hc.extends_log reading.session
  unfold run
  rcases hs : step reading.session with ⟨error | result, session⟩
  · rw [hs] at he
    exact .inr (he.lt_report ho error)
  · exact .inl ⟨result, session, rfl, rfl⟩

/-- A line that says anything becomes a statement, or an error is reported. -/
theorem statement_or_reports (hs : reading.session.isSkimming = false)
    (hu : Token.Unbroken reading.current) (ho : reading.session.log.isClosed = false)
    (hk : token.kind = .semicolon) (hn : reading.current ≠ []) :
    (∃ stmt, stmt.Spelled reading.current ∧
      (reading.step token).body.statements = reading.body.statements ++ [stmt]) ∨
    reading.session.log.errors.length < (reading.step token).session.log.errors.length := by
  unfold Reading.step
  simp only [hk]
  rw [endStatement_eq, session_changeBody]
  obtain ⟨result, session, hr, he⟩ | hl := @run_or_reports { reading with current := [] } _ _ _
    (Step.commits_closed (reading.current ++ [token])) ho
  · obtain ⟨hempty, -⟩ | ⟨stmt, rfl, hspelled⟩ := Step.spelled_closed (by exact hs) hu hk hr
    · exact absurd hempty hn
    · refine .inl ⟨stmt, hspelled, ?_⟩
      rw [he]
      unfold changeBody body
      cases reading.blocks <;> rfl
  · exact .inr hl

/-- What stands before an opening brace becomes the head of a block, or an error is reported. -/
theorem block_or_reports (hs : reading.session.isSkimming = false)
    (hu : Token.Unbroken reading.current) (ho : reading.session.log.isClosed = false)
    (hk : token.kind = .openCurly) :
    (∃ owner, owner.Spelled reading.current ∧
      (reading.step token).blocks = (owner, {}) :: reading.blocks) ∨
    reading.session.log.errors.length < (reading.step token).session.log.errors.length := by
  unfold Reading.step
  simp only [hk]
  unfold openBlock
  obtain ⟨result, session, hr, he⟩ | hl := @run_or_reports { reading with current := [] } _ _ _
    (Step.commits_owner (body { reading with current := [] }).chain (reading.current ++ [token])) ho
  · obtain ⟨owner, rfl, hspelled, -⟩ := Step.spelled_owner (by exact hs) hu hk hr
    exact .inl ⟨owner, hspelled, by rw [he]; rfl⟩
  · exact .inr hl

end Reading

/-- A program that is parsed without an error is the image of its tokens up to the end of the file:
its braces match, and its lines and blocks say its statements and branches one by one, in their order
and with their nesting. In the second pass, as long as its log is open, a line that says anything
becomes a statement and the words before an opening brace become the head of a block, or an error is
reported. -/
theorem image_of_parse (settings : Settings) (tokens : List Token) :
    (∀ program, settings.maxErrors ≠ some 0 → parse settings tokens = (some program, []) →
      let read := tokens.takeWhile (·.kind ≠ .endOfFile)
      Token.strays 0 read = [] ∧ Token.depth read = 0 ∧
        ∃ items, read = Item.tokensOf items ∧ Item.SpellAll items (Stmt.writtenAll program)) ∧
    ∀ session read later token, (Reading.start session .evaluate).Passes read later →
      later.session.log.isClosed = false →
      let reported := later.session.log.errors.length < (later.step token).session.log.errors.length
      (token.kind = .semicolon → later.current ≠ [] →
        (∃ stmt, stmt.Spelled later.current ∧
          (later.step token).body.statements = later.body.statements ++ [stmt]) ∨ reported) ∧
      (token.kind = .openCurly →
        (∃ owner, owner.Spelled later.current ∧
          (later.step token).blocks = (owner, {}) :: later.blocks) ∨ reported) := by
  refine ⟨fun program hb h => ?_,
    fun session read later token hp ho => ⟨fun hk hn => ?_, fun hk => ?_⟩⟩
  · obtain ⟨-, hclean, hblocks, hcurrent, rfl⟩ := evaluated_of_parse hb h
    -- No block and no statement is left open, so the program holds all that has been read.
    have hpasses := Reading.passes_steps_of_open hclean.isClosed_eq
    obtain ⟨before, hread, hcovered⟩ := Reading.faithful_of_passes hpasses hclean
    rw [hcurrent, List.append_nil] at hread
    rw [hblocks] at hcovered
    dsimp only
    rw [hread]
    cases hcovered with
    | @outside items hholds =>
      obtain ⟨hdepth, hstrays⟩ := Item.matched_tokensOf items 0
      exact ⟨hstrays, hdepth, items, rfl, hholds.spelled⟩
  · exact Reading.statement_or_reports hp.isSkimming_eq (Reading.unbroken_of_passes hp) ho hk hn
  · exact Reading.block_or_reports hp.isSkimming_eq (Reading.unbroken_of_passes hp) ho hk

/-- The words of `module m { fn f { if true { ; } else { return; } } }`, and a brace after the end. -/
def branching : List Token :=
  [.synthetic (.keyword .moduleWord) "module", .synthetic .identifier "m",
    .synthetic .openCurly "\x7b", .synthetic (.keyword .fnWord) "fn", .synthetic .identifier "f",
    .synthetic .openCurly "\x7b", .synthetic (.keyword .ifWord) "if",
    .synthetic (.literal .bool) "true", .synthetic .openCurly "\x7b",
    .synthetic .semicolon ";", .synthetic .closeCurly "\x7d",
    .synthetic (.keyword .elseWord) "else", .synthetic .openCurly "\x7b",
    .synthetic (.keyword .returnWord) "return", .synthetic .semicolon ";",
    .synthetic .closeCurly "\x7d", .synthetic .closeCurly "\x7d", .synthetic .closeCurly "\x7d",
    .synthetic .endOfFile "", .synthetic .closeCurly "\x7d"]

/-- The statements of that program. -/
def branched : List Stmt :=
  [.module (.synthetic .identifier "m")
    [.function ⟨[], .synthetic .identifier "f", voidToken, []⟩
      [.ifElse (.synthetic (.keyword .ifWord) "if")
        (.literal (.plain .bool) (.synthetic (.literal .bool) "true")) []
        (.block [.returning (.synthetic (.keyword .returnWord) "return") none])]]]

/-- The program is the image of its words. A `return` that is all there is becomes a statement or an
error. -/
theorem image_of_parse_branching :
    let read := branching.takeWhile (·.kind ≠ .endOfFile)
    let leave : Token := .synthetic (.keyword .returnWord) "return"
    let reading := (Reading.start (.initial {}) .evaluate).step leave
    let after := reading.step (.synthetic .semicolon ";")
    parse {} branching = (some branched, []) ∧ Token.strays 0 read = [] ∧ Token.depth read = 0 ∧
      (∃ items, read = Item.tokensOf items ∧ Item.SpellAll items (Stmt.writtenAll branched)) ∧
      ((∃ stmt, stmt.Spelled [leave] ∧
        after.body.statements = reading.body.statements ++ [stmt]) ∨
        reading.session.log.errors.length < after.session.log.errors.length) := by
  intro read leave reading after
  obtain ⟨himage, hreport⟩ := image_of_parse {} branching
  have hstatements : (parse {} branching).1 = some branched := by with_unfolding_all rfl
  have herrors : (parse {} branching).2 = [] := by with_unfolding_all rfl
  have hparse : parse {} branching = (some branched, []) := Prod.ext hstatements herrors
  obtain ⟨hstrays, hdepth, hitems⟩ := himage branched (by decide) hparse
  have hpasses : (Reading.start (.initial {}) .evaluate).Passes [leave] reading :=
    .single rfl (by decide)
  exact ⟨hparse, hstrays, hdepth, hitems, (hreport _ _ _ _ hpasses rfl).1 rfl (List.cons_ne_nil _ _)⟩

end MuLang
