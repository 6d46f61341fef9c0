import MuLang.Proofs.Parentheses
import MuLang.Proofs.Success

/-!
# How an expression is grouped

Parentheses around a whole expression change nothing of it. Where an expression has no parentheses,
its operators group the operands by how tightly they bind, and operators that bind alike group them
from the left. Operands and operators in a row have just one such grouping.
-/
namespace MuLang

/-! ## Parentheses around an expression -/

/-- A term without a fault is read between two parentheses as it is read alone. -/
theorem Term.ofTokens_parenthesized {tokens : List Token} {context opening closing : Token}
    (ho : opening.kind = .openParen) (hc : closing.kind = .closeParen)
    (hf : (ofTokens tokens context).Faultless) (other : Token) :
    ofTokens (opening :: (tokens ++ [closing])) other = ofTokens tokens context := by
  have hbalanced : Token.Balanced tokens := (closing_of_faultless hf).parens
  rw [← List.cons_append, ofTokens_append, List.cons_append]
  unfold ofTokens at hf ⊢
  split at hf
  next => exact absurd (List.mem_singleton_self _) (hf _)
  next last hl =>
    cases @goesOn_parenthesized (endOfExpression last) tokens (endOfExpression closing) opening
      closing [] ho hc hbalanced with
    | on _ hw => exact hw.trans (afterOperand_ends rfl)
    | fails hn _ => exact absurd hf hn

/-- An accepted expression holds the words of its tokens, each of them once and in their order, and
between two parentheses it is accepted from the same session as the same expression. -/
theorem Step.words_and_parentheses {tokens : List Token} {context : Token} {value : Expr}
    {session later : Session} (h : expression tokens context session = (.ok value, later)) :
    value.words = tokens.filter Token.isWord ∧
      ∀ opening closing other : Token, opening.kind = .openParen → closing.kind = .closeParen →
        expression (opening :: (tokens ++ [closing])) other session = (.ok value, later) := by
  obtain ⟨scopes, hx, rfl⟩ := expression_eq_ok.1 h
  refine ⟨Env.words_of_expression hx, fun opening closing other ho hc => ?_⟩
  have hterm := Term.ofTokens_parenthesized ho hc (Term.faultless_of_check hx) other
  have hsame : session.env.expression (opening :: (tokens ++ [closing])) other session.scopes =
      (.ok value, scopes) := by
    rw [Env.expression, hterm]
    exact hx
  exact expression_eq_ok.2 ⟨scopes, hsame, rfl⟩

/-- The expression `2 * (1 + 3)` has five words, and it is the same between two parentheses. -/
theorem Step.words_and_parentheses_product :
    ∃ value, expression [.synthetic (.literal .integer) "2", .synthetic (.binary .multiply) "*",
        .synthetic .openParen "(", .synthetic (.literal .integer) "1",
        .synthetic (.binary .add) "+", .synthetic (.literal .integer) "3",
        .synthetic .closeParen ")"] (.synthetic .semicolon ";") (.initial {}) =
          (.ok value, .initial {}) ∧
      value.words = [.synthetic (.literal .integer) "2", .synthetic (.binary .multiply) "*",
        .synthetic (.literal .integer) "1", .synthetic (.binary .add) "+",
        .synthetic (.literal .integer) "3"] ∧
      ∀ opening closing other : Token, opening.kind = .openParen → closing.kind = .closeParen →
        expression (opening :: ([.synthetic (.literal .integer) "2",
          .synthetic (.binary .multiply) "*", .synthetic .openParen "(",
          .synthetic (.literal .integer) "1", .synthetic (.binary .add) "+",
          .synthetic (.literal .integer) "3", .synthetic .closeParen ")"] ++ [closing])) other
            (.initial {}) = (.ok value, .initial {}) := by
  refine ⟨.binary (.plain .int) (.literal (.plain .int) (.synthetic (.literal .integer) "2"))
    (.synthetic (.binary .multiply) "*")
    (.binary (.plain .int) (.literal (.plain .int) (.synthetic (.literal .integer) "1"))
      (.synthetic (.binary .add) "+")
      (.literal (.plain .int) (.synthetic (.literal .integer) "3"))), ?_⟩
  refine (and_iff_left_of_imp fun h => words_and_parentheses h).2 ?_
  with_unfolding_all rfl

/-! ## Groupings -/

/-- How tightly the operator of a token binds. -/
def Token.power (token : Token) : Nat := (token.kind.binary?.map BinaryOp.power).getD 0

/-- Operands and the operators between them: an operand, and after it operators with the operands on
their right. -/
def Token.chain (first : Token) (rest : List (Token × Token)) : List Token :=
  first :: rest.flatMap fun pair => [pair.1, pair.2]

/-- How operators group operands. -/
inductive Grouping where
  | operand (token : Token)
  | operation (left : Grouping) (operator : Token) (right : Grouping)
  deriving DecidableEq

namespace Grouping

/-- The tokens of a grouping in the order of the text. -/
def tokens : Grouping → List Token
  | operand token => [token]
  | operation left operator right => left.tokens ++ operator :: right.tokens

def operators : Grouping → List Token
  | operand _ => []
  | operation left operator right => left.operators ++ operator :: right.operators

/-- The operators on the left of each operator bind at least as tightly as it does, and those on its
right bind more tightly. -/
def Ranked : Grouping → Prop
  | operand _ => True
  | operation left operator right =>
    (∀ inner ∈ left.operators, operator.power ≤ inner.power) ∧
      (∀ inner ∈ right.operators, operator.power < inner.power) ∧ left.Ranked ∧ right.Ranked

/-- The first operand. -/
def first : Grouping → Token
  | operand token => token
  | operation left _ _ => left.first

/-- The operators with the operands on their right. -/
def rest : Grouping → List (Token × Token)
  | operand _ => []
  | operation left operator right => left.rest ++ (operator, right.first) :: right.rest

theorem tokens_eq_chain (grouping : Grouping) :
    grouping.tokens = Token.chain grouping.first grouping.rest := by
  induction grouping with
  | operand token => rfl
  | operation left operator right hl hr =>
    rw [tokens, hl, hr]
    simp [Token.chain, first, rest]

theorem operators_eq_map (grouping : Grouping) :
    grouping.operators = grouping.rest.map Prod.fst := by
  induction grouping with
  | operand token => rfl
  | operation left operator right hl hr =>
    rw [operators, hl, hr]
    simp [rest]

end Grouping

theorem Token.chain_inj {first other : Token} {rest others : List (Token × Token)}
    (h : chain first rest = chain other others) : first = other ∧ rest = others := by
  induction rest generalizing first other others with
  | nil => cases others with
    | nil => exact ⟨(List.cons.inj h).1, rfl⟩
    | cons next others => cases h
  | cons pair rest ih => cases others with
    | nil => cases h
    | cons next others =>
      obtain ⟨rfl, htail⟩ := List.cons.inj h
      obtain ⟨hsign, hrest⟩ := List.cons.inj htail
      obtain ⟨hoperand, rfl⟩ := ih hrest
      exact ⟨rfl, congrArg (· :: rest) (Prod.ext hsign hoperand)⟩

namespace Grouping

/-- Of two ranked groupings, the operator at the root of one is not further right in the other. -/
theorem not_ranked_of_before {left right left' right' : Grouping} {operator operator' : Token}
    {between : List (Token × Token)}
    (h : (operation left operator right).Ranked) (h' : (operation left' operator' right').Ranked)
    (hl : left'.rest = left.rest ++ (operator, right.first) :: between)
    (hr : right.rest = between ++ (operator', right'.first) :: right'.rest) : False := by
  have hleft : operator ∈ left'.operators := by
    rw [operators_eq_map, hl]
    simp
  have hright : operator' ∈ right.operators := by
    rw [operators_eq_map, hr]
    simp
  exact absurd (h.2.1 operator' hright) (Nat.not_lt.2 (h'.1 operator hleft))

/-- The roots of two ranked groupings of the same tokens are at the same place. -/
theorem Ranked.rest_eq {left right left' right' : Grouping} {operator operator' : Token}
    (h : (operation left operator right).Ranked) (h' : (operation left' operator' right').Ranked)
    (hrest : (operation left operator right).rest = (operation left' operator' right').rest) :
    left.rest = left'.rest ∧
      (operator, right.first) :: right.rest = (operator', right'.first) :: right'.rest := by
  obtain ⟨between, hl, hr⟩ | ⟨between, hl, hr⟩ := List.append_eq_append_iff.1 hrest
  · cases between with
    | nil => exact ⟨by simpa using hl.symm, hr⟩
    | cons pair between =>
      obtain ⟨rfl, htail⟩ := List.cons.inj hr
      exact (not_ranked_of_before h h' hl htail).elim
  · cases between with
    | nil => exact ⟨by simpa using hl, hr.symm⟩
    | cons pair between =>
      obtain ⟨rfl, htail⟩ := List.cons.inj hr
      exact (not_ranked_of_before h' h hl htail).elim

/-- Tokens have at most one ranked grouping. -/
theorem Ranked.unique {grouping other : Grouping} (h : grouping.Ranked) (ho : other.Ranked)
    (ht : grouping.tokens = other.tokens) : grouping = other := by
  rw [tokens_eq_chain, tokens_eq_chain] at ht
  obtain ⟨hfirst, hrest⟩ := Token.chain_inj ht
  clear ht
  induction grouping generalizing other with
  | operand token => cases other with
    | operand token' => exact congrArg operand hfirst
    | operation left' operator' right' => simp [rest] at hrest
  | operation left operator right hl hr => cases other with
    | operand token' => simp [rest] at hrest
    | operation left' operator' right' =>
      obtain ⟨hleft, htail⟩ := h.rest_eq ho hrest
      obtain ⟨hroot, hright⟩ := List.cons.inj htail
      obtain ⟨rfl, hsecond⟩ := Prod.mk.inj hroot
      obtain ⟨-, -, hrl, hrr⟩ := h
      obtain ⟨-, -, hol, hor⟩ := ho
      rw [hl hrl hol hfirst hleft, hr hrr hor hsecond hright]

end Grouping

/-! ## Reading operands and operators -/

/-- Whether a kind of token is an operand by itself. -/
def Kind.isOperand (kind : Kind) : Bool := kind.isLiteral || kind = .identifier

/-- A term without anything but operands and binary operators, and how it groups them. -/
inductive Term.Groups : Term → Grouping → Prop
  | literal (kind : Literal) (value : Token) : Groups (.literal kind value) (.operand value)
  | read (identifier : Token) : Groups (.read identifier) (.operand identifier)
  | binary {left right : Term} {op : BinaryOp} {operator : Token} {l r : Grouping} :
    operator.kind = .binary op → Groups left l → Groups right r →
      Groups (.binary left op operator right) (.operation l operator r)

theorem Token.power_of_kind {token : Token} {op : BinaryOp} (h : token.kind = .binary op) :
    token.power = op.power := by
  rw [power, h]
  rfl

/-- A term that may be completed on its right by operators of less than a power: its own operators
have that power at least. -/
structure Term.Closed (power : Nat) (term : Term) (grouping : Grouping) : Prop where
  groups : term.Groups grouping
  ranked : grouping.Ranked
  least : ∀ operator ∈ grouping.operators, power ≤ operator.power

namespace Term

variable {left right term : Term} {op : BinaryOp} {operator token : Token} {l r : Grouping}
  {power : Nat}

theorem Closed.operand (h : term.Groups (.operand token)) (power : Nat) :
    term.Closed power (.operand token) :=
  ⟨h, trivial, nofun⟩

theorem Closed.binary (hk : operator.kind = .binary op) (hl : left.Closed op.power l)
    (hr : right.Closed power r) (hp : op.power < power) :
    (Term.binary left op operator right).Closed op.power (.operation l operator r) := by
  have hpower := Token.power_of_kind hk
  refine ⟨.binary hk hl.groups hr.groups, ⟨?_, ?_, hl.ranked, hr.ranked⟩, ?_⟩
  · rw [hpower]
    exact hl.least
  · intro inner hm
    rw [hpower]
    exact Nat.lt_of_lt_of_le hp (hr.least inner hm)
  · intro inner hm
    obtain hm | hm := List.mem_append.1 hm
    · exact hl.least inner hm
    · obtain rfl | hm := List.mem_cons.1 hm
      · exact Nat.le_of_eq hpower.symm
      · exact Nat.le_of_lt (Nat.lt_of_lt_of_le hp (hr.least inner hm))

end Term

namespace Pending

/-- Operators that wait for their right operand, each of them less tight than `power` and tighter
than what waits below it. -/
inductive Rising : Nat → List Pending → Prop
  | nil (power : Nat) : Rising power []
  | binary {power : Nat} {left : Term} {grouping : Grouping} {op : BinaryOp} {operator : Token}
    {rest : List Pending} : operator.kind = .binary op → op.power < power →
      left.Closed op.power grouping → Rising op.power rest →
      Rising power (.binary left op operator :: rest)

variable {power low : Nat} {stack : List Pending}

theorem Rising.mono (h : Rising low stack) (hp : low ≤ power) : Rising power stack := by
  cases h with
  | nil => exact .nil power
  | binary hk ho hl hr => exact .binary hk (Nat.lt_of_lt_of_le ho hp) hl hr

/-- Nothing is less tight than the end of an expression. -/
theorem Rising.eq_nil (h : Rising 0 stack) : stack = [] := by
  cases h with
  | nil => rfl
  | binary hk ho hl hr => exact absurd ho (Nat.not_lt_zero _)

/-- Completing what is at least as tight as `power` leaves what is less tight, and a term whose
operators are all as tight as that. -/
theorem Rising.settle {term : Term} {grouping : Grouping} (h : Rising low stack)
    (ht : term.Closed low grouping) (hp : power ≤ low) :
    ∃ waiting inner result, Pending.settle power stack term = (waiting, inner) ∧
      Rising power waiting ∧ inner.Closed power result := by
  induction h generalizing term grouping with
  | nil low =>
    refine ⟨[], term, grouping, rfl, .nil power, ht.groups, ht.ranked, ?_⟩
    exact fun operator hm => Nat.le_trans hp (ht.least operator hm)
  | @binary low left before op operator rest hk ho hl hr ih =>
    by_cases hy : power ≤ op.power
    · obtain ⟨waiting, inner, result, hs, hw, hi⟩ := ih (hl.binary hk ht ho) hy
      refine ⟨waiting, inner, result, ?_, hw, hi⟩
      rw [Pending.settle, if_pos (by simpa [yieldsTo] using hy)]
      exact hs
    · refine ⟨.binary left op operator :: rest, term, grouping, ?_,
        .binary hk (Nat.lt_of_not_le hy) hl hr, ht.groups, ht.ranked, ?_⟩
      · rw [Pending.settle, if_neg (by simpa [yieldsTo] using hy)]
      · exact fun operator hm => Nat.le_trans hp (ht.least operator hm)

end Pending

/-- Operators, and on the right of each a literal or a name. -/
def Token.Operations (rest : List (Token × Token)) : Prop :=
  ∀ pair ∈ rest, pair.1.kind.binary?.isSome ∧ pair.2.kind.isOperand

instance (rest : List (Token × Token)) : Decidable (Token.Operations rest) :=
  inferInstanceAs (Decidable (∀ pair ∈ rest, _))

theorem Kind.exists_binary {kind : Kind} (h : kind.binary?.isSome) : ∃ op, kind = .binary op := by
  cases kind with
  | binary op => exact ⟨op, rfl⟩
  | _ => cases h

theorem Token.filter_chain {first : Token} {rest : List (Token × Token)}
    (hf : first.kind.isOperand) (hr : Operations rest) :
    (chain first rest).filter isWord = chain first rest := by
  have hword {token : Token} (h : token.kind.isOperand) : token.isWord := by
    unfold isWord
    cases hk : token.kind <;> simp_all [Kind.isOperand, Kind.isWord, Kind.isLiteral, Kind.literal?]
  refine List.filter_eq_self.2 fun token hm => ?_
  obtain rfl | hm := List.mem_cons.1 hm
  · exact hword hf
  · obtain ⟨pair, hp, hm⟩ := List.mem_flatMap.1 hm
    obtain ⟨hsign, hoperand⟩ := hr pair hp
    obtain rfl | hm := List.mem_cons.1 hm
    · obtain ⟨op, hop⟩ := Kind.exists_binary hsign
      exact isWord_of_kind hop rfl
    · obtain rfl := List.mem_singleton.1 hm
      exact hword hoperand

namespace Term

variable {first : Token} {rest : List (Token × Token)}

/-- A literal or a name that an operator or the end follows is an operand by itself. -/
theorem operand_chain (hf : first.kind.isOperand) (hr : Token.Operations rest) (stop : Token)
    (stack : List Pending) : ∃ term : Term, term.Groups (.operand first) ∧
      operand stop stack (Token.chain first rest) =
        afterOperand stop stack term (rest.flatMap fun pair => [pair.1, pair.2]) := by
  unfold Kind.isOperand at hf
  cases hk : first.kind with
  | literal kind => exact ⟨_, .literal kind first, operand_complete (.literal hk)⟩
  | identifier =>
    refine ⟨_, .read first, operand_complete (.read hk ?_)⟩
    cases rest with
    | nil => nofun
    | cons pair rest =>
      obtain ⟨op, hop⟩ := Kind.exists_binary (hr pair List.mem_cons_self).1
      rintro _ ⟨⟩
      simp [hop, Kind.isAssignment, Kind.assign?]
  | _ => simp [hk, Kind.isLiteral, Kind.literal?] at hf

/-- What is read after an operand, on a stack of operators, is grouped by how tightly they bind. -/
theorem exists_groups_afterOperand (hr : Token.Operations rest) (stop : Token) {low : Nat}
    {stack : List Pending} {term : Term} {token : Token} (hs : Pending.Rising low stack)
    (ht : term.Groups (.operand token)) :
    ∃ grouping : Grouping, grouping.Ranked ∧
      (afterOperand stop stack term (rest.flatMap fun pair => [pair.1, pair.2])).Groups grouping := by
  induction rest generalizing low stack term token with
  | nil =>
    obtain ⟨waiting, inner, result, hw, hn, hi⟩ := hs.settle (.operand ht low) (Nat.zero_le low)
    obtain rfl := hn.eq_nil
    refine ⟨result, hi.ranked, ?_⟩
    rw [List.flatMap_nil, afterOperand_ends hw]
    exact hi.groups
  | cons pair rest ih =>
    obtain ⟨hpair, hrest⟩ := List.forall_mem_cons.1 hr
    obtain ⟨op, hop⟩ := Kind.exists_binary hpair.1
    -- An operand has no operators, so it may be completed by one of any power.
    obtain ⟨waiting, inner, result, hw, hn, hi⟩ := (hs.mono (Nat.le_max_left low op.power)).settle
      (.operand ht _) (Nat.le_max_right low op.power)
    have hstack : Pending.Rising (op.power + 1) (.binary inner op pair.1 :: waiting) :=
      .binary hop (Nat.lt_succ_self _) hi hn
    obtain ⟨next, hnext, heq⟩ :=
      operand_chain hpair.2 hrest stop (.binary inner op pair.1 :: waiting)
    have hread : afterOperand stop stack term
        ((pair :: rest).flatMap fun pair => [pair.1, pair.2]) =
          operand stop (.binary inner op pair.1 :: waiting) (Token.chain pair.2 rest) :=
      afterOperand_binary hop hw
    rw [hread, heq]
    exact ih hrest hstack hnext

/-- Operands and operators in a row are read as a ranked grouping of them. -/
theorem exists_groups (hf : first.kind.isOperand) (hr : Token.Operations rest) (context : Token) :
    ∃ grouping : Grouping, grouping.Ranked ∧
      (ofTokens (Token.chain first rest) context).Groups grouping := by
  unfold ofTokens
  split
  next hl => simp [Token.chain] at hl
  next last hl =>
    obtain ⟨term, hterm, heq⟩ := operand_chain hf hr (endOfExpression last) []
    rw [heq]
    exact exists_groups_afterOperand hr _ (.nil 0) hterm

end Term

/-! ## Accepted expressions -/

/-- How an expression groups its operands, if they are literals and names. -/
def Expr.grouping? : Expr → Option Grouping
  | .literal _ value => some (.operand value)
  | .read _ identifier => some (.operand identifier)
  | .binary _ left operator right => do
    return .operation (← left.grouping?) operator (← right.grouping?)
  | _ => none

namespace Expr

variable {type : Datatype} {left right value : Expr} {operator : Token} {grouping : Grouping}

theorem grouping_binary_eq_some : (binary type left operator right).grouping? = some grouping ↔
    ∃ l r, left.grouping? = some l ∧ right.grouping? = some r ∧
      .operation l operator r = grouping := by
  simp [grouping?, Option.bind_eq_some_iff]

/-- The tokens of a grouping are the words of the expression. -/
theorem words_of_grouping (h : value.grouping? = some grouping) : value.words = grouping.tokens := by
  induction grouping generalizing value with
  | operand token => cases value with
    | literal type value =>
      cases h
      rfl
    | read type identifier =>
      cases h
      rfl
    | binary type left operator right =>
      obtain ⟨l, r, -, -, ⟨⟩⟩ := grouping_binary_eq_some.1 h
    | _ => cases h
  | operation l operator r hl hr => cases value with
    | binary type left operator right =>
      obtain ⟨l, r, hleft, hright, ⟨⟩⟩ := grouping_binary_eq_some.1 h
      rw [words, hl hleft, hr hright, Grouping.tokens]
    | _ => cases h

end Expr

/-- A check leaves the grouping of a term as it is. -/
theorem Term.Groups.grouping_of_check {env : Env} {term : Term} {grouping : Grouping}
    (hg : term.Groups grouping) {scopes after : ScopeStack} {value : Expr}
    (h : term.check env scopes = (.ok value, after)) : value.grouping? = some grouping := by
  induction hg generalizing scopes after value with
  | literal kind token =>
    obtain ⟨⟨-, rfl⟩, -⟩ := check_literal_eq_ok.1 h
    rfl
  | read identifier =>
    obtain ⟨hr, -⟩ := check_read_eq_ok.1 h
    obtain ⟨place, v, -, -, rfl⟩ := Env.read_eq_ok.1 hr
    rfl
  | binary hk hl hr ihl ihr =>
    obtain ⟨left, between, right, type, hleft, hright, -, rfl⟩ := check_binary_eq_ok.1 h
    exact Expr.grouping_binary_eq_some.2 ⟨_, _, ihl hleft, ihr hright, rfl⟩

/-- Operands and binary operators in a row that are accepted are grouped by how tightly the operators
bind, and from the left where they bind alike, and there is no other such grouping of them. -/
theorem Step.grouped_by_power {first context : Token} {rest : List (Token × Token)} {value : Expr}
    {session later : Session} (hf : first.kind.isOperand) (hr : Token.Operations rest)
    (h : expression (Token.chain first rest) context session = (.ok value, later)) :
    ∃ grouping : Grouping, value.grouping? = some grouping ∧
      grouping.tokens = Token.chain first rest ∧ grouping.Ranked ∧
      ∀ other : Grouping, other.tokens = Token.chain first rest → other.Ranked →
        other = grouping := by
  obtain ⟨scopes, hx, rfl⟩ := expression_eq_ok.1 h
  obtain ⟨grouping, hranked, hterm⟩ := Term.exists_groups hf hr context
  have hgroups : value.grouping? = some grouping := hterm.grouping_of_check hx
  have htokens : grouping.tokens = Token.chain first rest := by
    rw [← Expr.words_of_grouping hgroups, Env.words_of_expression hx, Token.filter_chain hf hr]
  exact ⟨grouping, hgroups, htokens, hranked,
    fun other ht ho => ho.unique hranked (ht.trans htokens.symm)⟩

/-- The operands and operators of `1 - 2 * 3 - 4` after the first operand. -/
def Step.differences : List (Token × Token) :=
  [(.synthetic (.binary .subtract) "-", .synthetic (.literal .integer) "2"),
    (.synthetic (.binary .multiply) "*", .synthetic (.literal .integer) "3"),
    (.synthetic (.binary .subtract) "-", .synthetic (.literal .integer) "4")]

/-- The expression `1 - 2 * 3 - 4` is `(1 - (2 * 3)) - 4`. -/
theorem Step.grouped_by_power_differences :
    ∃ value, expression (Token.chain (.synthetic (.literal .integer) "1") differences)
        (.synthetic .semicolon ";") (.initial {}) = (.ok value, .initial {}) ∧
      ∃ grouping : Grouping, value.grouping? = some grouping ∧
        grouping.tokens = Token.chain (.synthetic (.literal .integer) "1") differences ∧
        grouping.Ranked ∧ ∀ other : Grouping,
          other.tokens = Token.chain (.synthetic (.literal .integer) "1") differences →
            other.Ranked → other = grouping := by
  refine ⟨.binary (.plain .int)
    (.binary (.plain .int) (.literal (.plain .int) (.synthetic (.literal .integer) "1"))
      (.synthetic (.binary .subtract) "-")
      (.binary (.plain .int) (.literal (.plain .int) (.synthetic (.literal .integer) "2"))
        (.synthetic (.binary .multiply) "*")
        (.literal (.plain .int) (.synthetic (.literal .integer) "3"))))
    (.synthetic (.binary .subtract) "-")
    (.literal (.plain .int) (.synthetic (.literal .integer) "4")), ?_⟩
  refine (and_iff_left_of_imp fun h => grouped_by_power (by decide) (by decide) h).2 ?_
  with_unfolding_all rfl

end MuLang
