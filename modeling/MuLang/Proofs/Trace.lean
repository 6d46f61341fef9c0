import MuLang.Proofs.Check
import MuLang.Proofs.Fallible
import MuLang.Proofs.Turns

/-!
# The words of an expression

A term holds the words that it was read from, in the order of the text and without the parentheses
and commas, and where its reading has failed the fault after the words before it. An expression holds
the words of the term that it was typed from.
-/
namespace MuLang

/-- Whether a kind of token is more than a sign that groups or separates. -/
def Kind.isWord : Kind → Bool
  | .openParen | .closeParen | .comma => false
  | _ => true

namespace Token

def isWord (token : Token) : Bool := token.kind.isWord

variable {token : Token}

theorem isWord_of_kind {kind : Kind} {word : Bool} (h : token.kind = kind)
    (hw : kind.isWord = word) : token.isWord = word := by
  rw [isWord, h, hw]

theorem isWord_of_isAssignment (h : token.kind.isAssignment) : token.isWord := by
  unfold isWord Kind.isWord
  split <;> simp_all [Kind.isAssignment, Kind.assign?]

theorem isWord_of_typeName {name : TypeName} (h : token.kind.typeName? = some name) :
    token.isWord := by
  unfold isWord Kind.isWord
  split <;> simp_all [Kind.typeName?]

theorem isWord_of_unary {op : UnaryOp} (h : token.kind.unary? = some op) : token.isWord := by
  unfold isWord Kind.isWord
  split <;> simp_all [Kind.unary?]

end Token

mutual

/-- The words of an expression in the order of the text. The type of a cast comes before its value. -/
def Expr.words : Expr → List Token
  | .literal _ value => [value]
  | .read _ identifier => [identifier]
  | .binary _ left operator right => left.words ++ operator :: right.words
  | .unary _ operator right => operator :: right.words
  | .cast _ target value => target :: value.words
  | .assign _ assignee operator value => assignee :: operator :: value.words
  | .call _ callee arguments => callee :: Expr.wordsOf arguments

/-- The words of some expressions, one after the other. -/
def Expr.wordsOf : List Expr → List Token
  | [] => []
  | value :: rest => value.words ++ Expr.wordsOf rest

end

namespace Term

mutual

/-- What a term says from left to right: its words, and its faults in their places. -/
def trace : Term → List (Except Error Token)
  | .literal _ value => [.ok value]
  | .read identifier => [.ok identifier]
  | .binary left _ operator right => trace left ++ .ok operator :: trace right
  | .unary _ operator right => .ok operator :: trace right
  | .cast _ target value => .ok target :: trace value
  | .assign assignee operator value => .ok assignee :: .ok operator :: trace value
  | .call callee arguments => .ok callee :: traceOf arguments
  | .broken parts error => traceOf parts ++ [.error error]

/-- What some terms say, one after the other. -/
def traceOf : List Term → List (Except Error Token)
  | [] => []
  | term :: rest => trace term ++ traceOf rest

end

theorem traceOf_append (terms more : List Term) :
    traceOf (terms ++ more) = traceOf terms ++ traceOf more := by
  induction terms with
  | nil => rfl
  | cons term rest ih => simp [traceOf, ih]

end Term

namespace Pending

/-- What something begun says before the term that it waits for. -/
def trace : Pending → List (Except Error Token)
  | .group => []
  | .call callee arguments => .ok callee :: Term.traceOf arguments
  | .assign assignee operator => [.ok assignee, .ok operator]
  | .unary _ operator => [.ok operator]
  | .cast _ target => [.ok target]
  | .binary left _ operator => left.trace ++ [.ok operator]

/-- What waits on a stack says, from the outermost inwards. -/
def traceOf : List Pending → List (Except Error Token)
  | [] => []
  | waiting :: rest => traceOf rest ++ waiting.trace

theorem trace_fill (waiting : Pending) (term : Term) :
    (waiting.fill term).trace = waiting.trace ++ term.trace := by
  cases waiting <;> simp [fill, trace, Term.trace, Term.traceOf_append, Term.traceOf]

theorem trace_fillAll (stack : List Pending) (term : Term) :
    (fillAll stack term).trace = traceOf stack ++ term.trace := by
  induction stack generalizing term with
  | nil => rfl
  | cons waiting rest ih =>
    have hf : fillAll (waiting :: rest) term = fillAll rest (waiting.fill term) := rfl
    rw [hf, ih, trace_fill, traceOf, List.append_assoc]

theorem traceOf_append (inner outer : List Pending) :
    traceOf (inner ++ outer) = traceOf outer ++ traceOf inner := by
  induction inner with
  | nil => simp [traceOf]
  | cons waiting rest ih => rw [List.cons_append, traceOf, ih, traceOf, List.append_assoc]

/-- Completing what waits changes nothing of what is said. -/
theorem trace_of_settle {power : Nat} {stack waiting : List Pending} {term inner : Term}
    (h : settle power stack term = (waiting, inner)) :
    traceOf waiting ++ inner.trace = traceOf stack ++ term.trace := by
  obtain ⟨done, rfl, -, -, rfl⟩ := settle_eq_iff.1 h
  rw [trace_fillAll, traceOf_append, List.append_assoc]

end Pending

namespace Term

/-- The words among some tokens, as a term says them. -/
def said (tokens : List Token) : List (Except Error Token) :=
  (tokens.filter Token.isWord).map .ok

theorem said_cons_word {token : Token} (h : token.isWord) (rest : List Token) :
    said (token :: rest) = .ok token :: said rest := by
  simp [said, h]

theorem said_cons_sign {token : Token} (h : token.isWord = false) (rest : List Token) :
    said (token :: rest) = said rest := by
  simp [said, h]

theorem said_append (tokens more : List Token) : said (tokens ++ more) = said tokens ++ said more := by
  simp [said]

/-- Where the tokens of an expression stop making sense: a token that is not expected, or at which
something else is. -/
inductive Misplaced (token : Token) : Error → Prop
  | unexpected : Misplaced token (.atToken (.unexpectedToken token.text) token)
  | operand : Misplaced token (.atToken (.expectedToken "an expression" token.text) token)
  | parenthesis : Misplaced token (.atToken (.expectedToken "`)`" token.text) token)

/-- What is said by a term that was read from some tokens: all their words, or those up to a token
at which its reading has failed. The end of the expression counts as a token. -/
inductive Says (stop : Token) (tokens : List Token) : List (Except Error Token) → Prop
  | whole : Says stop tokens (said tokens)
  | broken {before rest : List Token} {token : Token} {error : Error} :
      tokens = before ++ rest → token ∈ rest ++ [stop] → Misplaced token error →
      Says stop tokens (said before ++ [.error error])

namespace Says

variable {stop token : Token} {rest : List Token} {trace : List (Except Error Token)}

theorem word (h : token.isWord) (hs : Says stop rest trace) :
    Says stop (token :: rest) (.ok token :: trace) := by
  cases hs with
  | whole =>
    rw [← said_cons_word h]
    exact .whole
  | @broken before rest other error hr ht he =>
    rw [← List.cons_append, ← said_cons_word h]
    exact .broken (by rw [hr, List.cons_append]) ht he

theorem sign (h : token.isWord = false) (hs : Says stop rest trace) :
    Says stop (token :: rest) trace := by
  cases hs with
  | whole =>
    rw [← said_cons_sign h]
    exact .whole
  | @broken before rest other error hr ht he =>
    rw [← said_cons_sign h before]
    exact .broken (by rw [hr, List.cons_append]) ht he

theorem append (hs : Says stop rest trace) (spelled : List Token) :
    Says stop (spelled ++ rest) (said spelled ++ trace) := by
  cases hs with
  | whole =>
    rw [← said_append]
    exact .whole
  | @broken before rest other error hr ht he =>
    rw [← List.append_assoc, ← said_append]
    exact .broken (by rw [hr, List.append_assoc]) ht he

theorem fault {error : Error} (ht : token ∈ rest ++ [stop]) (he : Misplaced token error) :
    Says stop rest [.error error] :=
  .broken (List.nil_append _).symm ht he

end Says

theorem trace_abandon (stack : List Pending) (parts : List Term) (cause : Cause) (token : Token) :
    (abandon stack parts cause token).trace =
      Pending.traceOf stack ++ traceOf parts ++ [.error (.atToken cause token)] := by
  rw [abandon, Pending.trace_fillAll, trace, List.append_assoc]

/-! ### What a turn says -/

theorem Complete.trace_eq {spelled rest : List Token} {term : Term}
    (h : Complete spelled term rest) : term.trace = said spelled := by
  cases h with
  | literal hk => exact (said_cons_word (Token.isWord_of_kind hk rfl) []).symm
  | read hk => exact (said_cons_word (Token.isWord_of_kind hk rfl) []).symm
  | call hk ho hc =>
    rw [said_cons_word (Token.isWord_of_kind hk rfl), said_cons_sign (Token.isWord_of_kind ho rfl),
      said_cons_sign (Token.isWord_of_kind hc rfl)]
    rfl

theorem Begins.trace_eq {spelled rest : List Token} {opened : Pending}
    (h : Begins spelled opened rest) : opened.trace = said spelled := by
  cases h with
  | call hk ho =>
    rw [said_cons_word (Token.isWord_of_kind hk rfl), said_cons_sign (Token.isWord_of_kind ho rfl)]
    rfl
  | assign hk ha =>
    rw [said_cons_word (Token.isWord_of_kind hk rfl),
      said_cons_word (Token.isWord_of_isAssignment ha)]
    rfl
  | cast ho ht hc =>
    rw [said_cons_sign (Token.isWord_of_kind ho rfl), said_cons_word (Token.isWord_of_typeName ht),
      said_cons_sign (Token.isWord_of_kind hc rfl)]
    rfl
  | group ho => exact (said_cons_sign (Token.isWord_of_kind ho rfl) []).symm
  | unary hu => exact (said_cons_word (Token.isWord_of_unary hu) []).symm

theorem Missing.says {stop token : Token} {tokens : List Token} {cause : Cause}
    (h : Missing stop tokens cause token) :
    Says stop tokens [.error (.atToken cause token)] := by
  cases h with
  | ended => exact .fault (List.mem_singleton_self stop) .operand
  | unexpected => exact .fault List.mem_cons_self .unexpected

theorem Stuck.says {stop token : Token} {waiting : List Pending} {tokens : List Token}
    {cause : Cause} (h : Stuck stop waiting tokens cause token) :
    Says stop tokens [.error (.atToken cause token)] := by
  cases h with
  | unclosed => exact .fault (List.mem_singleton_self stop) .parenthesis
  | extra => exact .fault List.mem_cons_self .unexpected
  | misplaced => exact .fault List.mem_cons_self .parenthesis

/-- The reader says what has been said before it, and then the words of the tokens. -/
theorem says_operand (stop : Token) :
    (∀ (stack : List Pending) (tokens : List Token), ∃ trace, Says stop tokens trace ∧
      (operand stop stack tokens).trace = Pending.traceOf stack ++ trace) ∧
    ∀ (stack : List Pending) (term : Term) (tokens : List Token), ∃ trace, Says stop tokens trace ∧
      (afterOperand stop stack term tokens).trace =
        Pending.traceOf stack ++ term.trace ++ trace := by
  apply reading_induct stop
  case complete =>
    rintro stack spelled term rest hc ⟨trace, hs, ht⟩
    refine ⟨said spelled ++ trace, hs.append spelled, ?_⟩
    rw [operand_complete hc, ht, hc.trace_eq, List.append_assoc]
  case begins =>
    rintro stack spelled opened rest hb ⟨trace, hs, ht⟩
    refine ⟨said spelled ++ trace, hs.append spelled, ?_⟩
    rw [operand_begins hb, ht, Pending.traceOf, hb.trace_eq, List.append_assoc]
  case missing =>
    intro stack tokens cause token hm
    refine ⟨_, hm.says, ?_⟩
    rw [operand_missing hm, trace_abandon, traceOf, List.append_nil]
  case ends =>
    intro stack term whole hw
    refine ⟨_, .whole, ?_⟩
    rw [afterOperand_ends hw, ← Pending.trace_of_settle hw]
    exact (List.append_nil _).symm
  case binary =>
    rintro stack term token rest op waiting left hk hw ⟨trace, hs, ht⟩
    refine ⟨_, hs.word (Token.isWord_of_kind hk rfl), ?_⟩
    rw [afterOperand_binary hk hw, ht, ← Pending.trace_of_settle hw, Pending.traceOf, Pending.trace]
    simp only [List.append_assoc, List.singleton_append]
  case closes =>
    rintro stack term token rest opened waiting inner hk hw ⟨trace, hs, ht⟩
    refine ⟨_, hs.sign (Token.isWord_of_kind hk rfl), ?_⟩
    rw [afterOperand_closes hk hw, ht, ← Pending.trace_of_settle hw, Pending.traceOf,
      Pending.trace_fill]
    simp only [List.append_assoc]
  case comma =>
    rintro stack term token rest callee arguments waiting last hk hw ⟨trace, hs, ht⟩
    refine ⟨_, hs.sign (Token.isWord_of_kind hk rfl), ?_⟩
    rw [afterOperand_comma hk hw, ht, ← Pending.trace_of_settle hw]
    simp [Pending.traceOf, Pending.trace, traceOf_append, traceOf]
  case stuck =>
    intro stack term tokens waiting part cause token hw hf
    refine ⟨_, hf.says, ?_⟩
    rw [afterOperand_stuck hw hf, trace_abandon, ← Pending.trace_of_settle hw, traceOf, traceOf,
      List.append_nil]

/-- The term of some tokens says their words, up to a fault where there is one. Without tokens an
expression is missing after the context. -/
theorem trace_ofTokens (tokens : List Token) (context : Token) :
    (tokens = [] ∧ (ofTokens tokens context).trace =
      [.error ⟨.expectedToken "an expression" context.text, context.span.stop, []⟩]) ∨
    ∃ last ∈ tokens.getLast?, Says (endOfExpression last) tokens (ofTokens tokens context).trace := by
  unfold ofTokens
  cases hl : tokens.getLast? with
  | none => exact .inl ⟨List.getLast?_eq_none_iff.1 hl, rfl⟩
  | some last =>
    obtain ⟨trace, hs, ht⟩ := (says_operand (endOfExpression last)).1 [] tokens
    refine .inr ⟨last, rfl, ?_⟩
    dsimp only
    rw [ht]
    exact hs

end Term

/-! ## Checked terms -/

namespace Term

variable {env : Env}

mutual

/-- A term that is accepted has no fault, and its expression has the same words. -/
theorem trace_of_check : ∀ (term : Term) {scopes after : ScopeStack} {value : Expr},
    term.check env scopes = (.ok value, after) → term.trace = value.words.map .ok
  | .literal kind token, _, _, _, h => by
    obtain ⟨⟨-, rfl⟩, -⟩ := check_literal_eq_ok.1 h
    rfl
  | .read identifier, _, _, _, h => by
    obtain ⟨hr, -⟩ := check_read_eq_ok.1 h
    obtain ⟨place, v, -, -, rfl⟩ := Env.read_eq_ok.1 hr
    rfl
  | .binary left op operator right, _, _, _, h => by
    obtain ⟨l, between, r, type, hl, hr, -, rfl⟩ := check_binary_eq_ok.1 h
    rw [trace, trace_of_check left hl, trace_of_check right hr, Expr.words, List.map_append]
    rfl
  | .unary op operator right, _, _, _, h => by
    obtain ⟨r, type, hr, -, rfl⟩ := check_unary_eq_ok.1 h
    rw [trace, trace_of_check right hr]
    rfl
  | .cast type target inner, _, _, _, h => by
    obtain ⟨v, hi, -, -, rfl⟩ := check_cast_eq_ok.1 h
    rw [trace, trace_of_check inner hi]
    rfl
  | .assign assignee operator inner, _, _, _, h => by
    obtain ⟨v, between, type, hi, -, rfl⟩ := check_assign_eq_ok.1 h
    rw [trace, trace_of_check inner hi]
    rfl
  | .call callee arguments, _, _, _, h => by
    obtain ⟨values, type, hv, -, rfl⟩ := check_call_eq_ok.1 h
    rw [trace, traceOf_of_checkAll arguments hv]
    rfl
  | .broken parts error, _, _, _, h => absurd h check_broken_ne_ok

theorem traceOf_of_checkAll : ∀ (terms : List Term) {scopes after : ScopeStack}
    {values : List Expr}, checkAll env terms scopes = (.ok values, after) →
    traceOf terms = (Expr.wordsOf values).map .ok
  | [], _, _, _, h => by
    obtain ⟨rfl, -⟩ := checkAll_nil_eq_ok.1 h
    rfl
  | term :: rest, _, _, _, h => by
    obtain ⟨first, between, others, hf, ho, rfl⟩ := checkAll_cons_eq_ok.1 h
    rw [traceOf, trace_of_check term hf, traceOf_of_checkAll rest ho, Expr.wordsOf,
      List.map_append]

end

end Term

/-- An expression that has been typed holds the words of its tokens. -/
theorem Env.words_of_expression {env : Env} {tokens : List Token} {context : Token}
    {scopes after : ScopeStack} {value : Expr}
    (h : env.expression tokens context scopes = (.ok value, after)) :
    value.words = tokens.filter Token.isWord := by
  have ht : (Term.ofTokens tokens context).trace = value.words.map .ok := Term.trace_of_check _ h
  -- A fault would show among the words.
  have faultless (before : List (Except Error Token)) (error : Error) :
      before ++ [.error error] ≠ value.words.map .ok := by
    intro hb
    have hm : (.error error : Except Error Token) ∈ value.words.map .ok :=
      hb ▸ List.mem_append_right _ (List.mem_singleton_self _)
    obtain ⟨word, -, hw⟩ := List.mem_map.1 hm
    cases hw
  obtain ⟨-, hs⟩ | ⟨last, -, hs⟩ := Term.trace_ofTokens tokens context
  · exact absurd (hs.symm.trans ht) (faultless [] _)
  · rw [ht] at hs
    generalize hw : value.words.map Except.ok = said at hs
    cases hs with
    | whole => exact (List.map_inj_right fun _ _ h => Except.ok.inj h).1 hw
    | broken _ _ _ => exact absurd hw.symm (faultless _ _)

end MuLang
