import MuLang.Proofs.Arrow
import MuLang.Proofs.Compound

/-!
# The limit of a loop

In `for INIT, NAME -> LIMIT` the limit is put between parentheses before it is read. The condition of
the loop compares the variable with the limit just where the limit closes no parenthesis that it has
not opened.
-/
namespace MuLang

mutual

/-- The loops in a statement, from outside to inside. -/
def Stmt.loops : Stmt → List Stmt
  | .forLoop keyword header value condition step body =>
    .forLoop keyword header value condition step body :: Stmt.loopsIn body
  | .module _ body => Stmt.loopsIn body
  | .function _ body => Stmt.loopsIn body
  | .whileLoop _ _ body => Stmt.loopsIn body
  | .ifElse _ _ body otherwise => Stmt.loopsIn body ++ otherwise.loops
  | _ => []

def Else.loops : Else → List Stmt
  | .absent => []
  | .block body => Stmt.loopsIn body
  | .elseIf _ _ body otherwise => Stmt.loopsIn body ++ otherwise.loops

/-- The loops in the statements of a block. -/
def Stmt.loopsIn : List Stmt → List Stmt
  | [] => []
  | stmt :: rest => stmt.loops ++ Stmt.loopsIn rest

end

/-! ## Loops of a program -/

namespace Stmt

variable {keyword : Token} {header : VariableHeader} {value condition : Expr} {action : Action}

mutual

/-- The block of a loop is that of a loop in the statement. -/
theorem exists_loop : ∀ stmt : Stmt,
    .statement (.forLoop keyword header value condition action []) ∈ Written.ownersIn stmt.written →
      ∃ body, .forLoop keyword header value condition action body ∈ stmt.loops
  | .module _ body, h => by
    simp [written, Written.ownersIn, Written.owners] at h
    exact exists_loopIn body h
  | .function _ body, h => by
    simp [written, Written.ownersIn, Written.owners] at h
    exact exists_loopIn body h
  | .whileLoop _ _ body, h => by
    simp [written, Written.ownersIn, Written.owners] at h
    exact exists_loopIn body h
  | .forLoop _ _ _ _ _ body, h => by
    simp [written, Written.ownersIn, Written.owners] at h
    obtain ⟨rfl, rfl, rfl, rfl, rfl⟩ | h := h
    · exact ⟨body, .head _⟩
    · exact (exists_loopIn body h).imp fun _ hm => .tail _ hm
  | .ifElse _ _ body otherwise, h => by
    simp [written, Written.ownersIn, Written.owners] at h
    obtain h | h := h
    · exact (exists_loopIn body h).imp fun _ hm => List.mem_append_left _ hm
    · exact (exists_loopElse otherwise h).imp fun _ hm => List.mem_append_right _ hm
  | .native .., h | .declare _, h | .define .., h | .action _, h | .returning .., h
  | .stdlibFinish _, h => by
    simp [written, Written.ownersIn, Written.owners] at h

theorem exists_loopElse : ∀ otherwise : Else,
    .statement (.forLoop keyword header value condition action []) ∈
        Written.ownersIn otherwise.written →
      ∃ body, .forLoop keyword header value condition action body ∈ otherwise.loops
  | .absent, h => by
    simp [Else.written, Written.ownersIn] at h
  | .block body, h => by
    simp [Else.written, Written.ownersIn, Written.owners] at h
    exact exists_loopIn body h
  | .elseIf _ _ body otherwise, h => by
    simp [Else.written, Written.ownersIn, Written.owners] at h
    obtain h | h := h
    · exact (exists_loopIn body h).imp fun _ hm => List.mem_append_left _ hm
    · exact (exists_loopElse otherwise h).imp fun _ hm => List.mem_append_right _ hm

theorem exists_loopIn : ∀ body : List Stmt,
    .statement (.forLoop keyword header value condition action []) ∈
        Written.ownersIn (writtenAll body) →
      ∃ inside, .forLoop keyword header value condition action inside ∈ loopsIn body
  | [], h => by
    simp [writtenAll, Written.ownersIn] at h
  | stmt :: rest, h => by
    rw [writtenAll, Written.ownersIn_append] at h
    obtain h | h := List.mem_append.1 h
    · exact (exists_loop stmt h).imp fun _ hm => List.mem_append_left _ hm
    · exact (exists_loopIn rest h).imp fun _ hm => List.mem_append_right _ hm

end

end Stmt

/-! ## Conditions -/

/-- The condition of a loop in its arrow form is the comparison with its limit, if the limit is an
expression, which it is just where it closes no parenthesis that it has not opened. -/
theorem Env.comparison_eq_ok {env : Env} {scopes after : ScopeStack} {counter : Token}
    {limit : List Token} {condition : Expr} (hk : counter.kind = .identifier) (first second : Token)
    (h : env.expression (Step.comparison counter limit) second scopes = (.ok condition, after))
    (hb : condition.type = .bool) :
    ((∃ l last, env.expression limit first scopes = (.ok l, last)) ↔
        (Token.openParens 0 limit).isSome) ∧
      ∀ l last, env.expression limit first scopes = (.ok l, last) →
        ∃ type, condition = .binary .bool (.read type counter) (.synthetic (.binary .less) "<") l := by
  have hone := Step.openParens_of_comparison hk (Term.faultless_of_check h)
  have hsome {depth : Nat} (ho : Token.openParens 0 limit = some depth) : Token.Balanced limit := by
    have hadd := Token.openParens_add ho 1
    rw [Nat.zero_add, hone] at hadd
    obtain rfl : depth = 0 := by simpa using Option.some.inj hadd
    exact ho
  have hread (hl : Token.Balanced limit) := (@Env.expression_binary_eq_ok env scopes after limit
    counter (.synthetic (.binary .less) "<") (.synthetic .openParen "(") (.synthetic .closeParen ")")
    .less condition hk rfl rfl rfl hl first second).1 h
  refine ⟨⟨?_, ?_⟩, ?_⟩
  · rintro ⟨l, last, hl⟩
    rw [(Env.closing_of_expression hl).parens]
    rfl
  · intro ho
    obtain ⟨depth, ho⟩ := Option.isSome_iff_exists.1 ho
    obtain ⟨left, right, -, hright, -⟩ := hread (hsome ho)
    exact ⟨right, after, hright⟩
  · intro l last hl
    obtain ⟨left, right, hleft, hright, hbinary⟩ := hread (Env.closing_of_expression hl).parens
    rw [hl] at hright
    cases hright
    obtain ⟨place, v, -, -, rfl⟩ := Env.read_eq_ok.1 hleft
    obtain ⟨type, -, rfl⟩ := Env.binary_eq_ok.1 hbinary
    obtain rfl : type = .bool := hb
    exact ⟨v.datatype, rfl⟩

/-- In a program that is parsed without an error, a loop in its arrow form is a loop of the program that
has the variable from its head. From the scopes that the declaration of the variable leaves, the limit
is accepted on its own just where it closes no parenthesis that it has not opened. Then the condition
compares the variable with the expression that the limit is. -/
theorem exists_loop_of_parse {settings : Settings} {before modifiers head init limit after : List Token}
    {keyword counter arrow opening : Token} {program : List Stmt} (hb : settings.maxErrors ≠ some 0)
    (h : parse settings (before ++ (modifiers ++ keyword :: (head ++ opening :: after))) =
      (some program, []))
    (hend : ∀ token ∈ before, token.kind ≠ .endOfFile) (he : Token.Ended before)
    (hm : Token.AreModifiers modifiers) (hk : keyword.kind = .keyword .forWord)
    (hw : Token.Unbroken head) (ho : opening.kind = .openCurly)
    (hd : Step.headParts 0 head = [init, counter :: arrow :: limit]) :
    ∃ (reading : Reading) (declared : Session) (header : VariableHeader) (value condition : Expr)
        (action : Action) (body : List Stmt),
      (Reading.start (.skim settings (before ++ (modifiers ++ keyword :: (head ++ opening :: after))))
        .evaluate).Passes before reading ∧
      Step.variableStatement (Step.terminated (Token.afterModifiers init))
          (Token.leadingModifiers init)
          { reading.session with scopes := reading.session.scopes.push .loopHeader } =
        (.ok (some (header, some value)), declared) ∧
      .forLoop keyword header value condition action body ∈ Stmt.loopsIn program ∧
      ((∃ l last, declared.env.expression limit arrow declared.scopes = (.ok l, last)) ↔
        (Token.openParens 0 limit).isSome) ∧
      ∀ l last, declared.env.expression limit arrow declared.scopes = (.ok l, last) →
        ∃ type, condition = .binary .bool (.read type counter) (.synthetic (.binary .less) "<") l := by
  have hsplit : before ++ (modifiers ++ keyword :: (head ++ opening :: after)) =
      before ++ ((modifiers ++ keyword :: head) ++ opening :: after) := by simp
  have hunbroken : Token.Unbroken (modifiers ++ keyword :: head) :=
    List.forall_mem_append.2 ⟨hm.unbroken, List.forall_mem_cons.2 ⟨by rw [hk]; rfl, hw⟩⟩
  rw [hsplit] at h ⊢
  obtain ⟨reading, owner, t, hp, hr, hhas⟩ := exists_owner_of_parse hb h hend he hunbroken ho
  rw [List.append_assoc, List.cons_append, Step.owner_for hm hk] at hr
  obtain ⟨result, hresult, howner⟩ := Fallible.map_eq_ok.1 hr
  obtain ⟨-, -, _, test, step, hdivides, hloop⟩ := Step.exists_divides hresult
  rw [hd] at hdivides
  cases hdivides with
  | arrow hc ha hn =>
    obtain ⟨header, value, condition, action, declared, tested, acted, hv, hx, hbool, -, -, rfl, -⟩ :=
      Step.evaluate_loopStatement (by exact hp.isSkimming_eq) hloop
    obtain rfl := Option.some.inj howner
    obtain ⟨body, hbody⟩ := Stmt.exists_loopIn program hhas
    obtain ⟨hiff, hcondition⟩ := Env.comparison_eq_ok hc arrow keyword hx hbool
    exact ⟨reading, declared, header, value, condition, action, body, hp, hv, hbody, hiff, hcondition⟩

open Counting in
/-- The loop that counts up to 3 is a loop of its program, and its limit is accepted on its own. -/
theorem exists_loop_of_parse_counting : ∃ (declared : Session) (keyword : Token)
    (header : VariableHeader) (value condition l : Expr) (action : Action) (body program : List Stmt)
    (last : ScopeStack) (type : Datatype),
    parse {} (loop (counter :: arrow :: limit)) = (some program, []) ∧
      .forLoop keyword header value condition action body ∈ Stmt.loopsIn program ∧
      declared.env.expression limit arrow declared.scopes = (.ok l, last) ∧
      condition = .binary .bool (.read type counter) (.synthetic (.binary .less) "<") l := by
  have hparsed : ∃ program, parse {} (loop (counter :: arrow :: limit)) = (some program, []) :=
    ⟨_, by with_unfolding_all rfl⟩
  obtain ⟨program, hparsed⟩ := hparsed
  obtain ⟨reading, declared, header, value, condition, action, body, -, -, hmem, hiff, hcondition⟩ :=
    @exists_loop_of_parse {} before [] (init ++ .synthetic .comma "," :: counter :: arrow :: limit)
      init limit _ _ counter arrow _ program (by decide) hparsed (by decide) (by decide) nofun rfl
      (by decide) rfl rfl
  obtain ⟨l, last, hl⟩ := hiff.2 rfl
  obtain ⟨type, htype⟩ := hcondition l last hl
  exact ⟨declared, _, header, value, condition, l, action, body, program, last, type, hparsed, hmem,
    hl, htype⟩

namespace Straying

/-- The tokens of `b`, `==` and `3`. -/
def flag : Token := .synthetic .identifier "b"

def equals : Token := .synthetic (.binary .equal) "=="

def three : Token := .synthetic (.literal .integer) "3"

/-- The tokens of `3) == (b`. -/
def limit : List Token :=
  [three, .synthetic .closeParen ")", equals, .synthetic .openParen "(", flag]

/-- The tokens of `mut int i = 0, i -> 3) == (b`. -/
def head : List Token :=
  Counting.init ++ .synthetic .comma "," :: Counting.counter :: Counting.arrow :: limit

/-- The tokens of `module m { fn f { bool b = true; for mut int i = 0, i -> 3) == (b { } } }`. -/
def program : List Token :=
  Counting.before ++ .synthetic (.typeName .bool) "bool" :: flag :: .synthetic (.assign .plain) "=" ::
    .synthetic (.literal .bool) "true" :: .synthetic .semicolon ";" ::
    .synthetic (.keyword .forWord) "for" :: (head ++ .synthetic .openCurly "\x7b" ::
      [.synthetic .closeCurly "\x7d", .synthetic .closeCurly "\x7d", .synthetic .closeCurly "\x7d"])

end Straying

open Straying in
/-- The loop `for mut int i = 0, i -> 3) == (b` is accepted with the condition `(i < 3) == (b)`, while
its limit is no expression. -/
theorem straying_limit_accepted : ∃ statements keyword header value action,
    parse {} program = (some statements, []) ∧
      Step.headParts 0 head = [Counting.init, Counting.counter :: Counting.arrow :: limit] ∧
      .forLoop keyword header value (.binary (.plain .bool)
        (.binary (.plain .bool) (.read (.plain .int) Counting.counter)
          (.synthetic (.binary .less) "<") (.literal (.plain .int) three))
        equals (.read (.plain .bool) flag)) action [] ∈ Stmt.loopsIn statements ∧
      ∀ (env : Env) scopes l after, env.expression limit Counting.arrow scopes ≠ (.ok l, after) := by
  refine ⟨_, _, _, _, _, by with_unfolding_all rfl, rfl,
    by with_unfolding_all exact List.Mem.head _, ?_⟩
  intro env scopes l after h
  have hclosed : Token.openParens 0 limit = some 0 := (Env.closing_of_expression h).parens
  cases hclosed

end MuLang
