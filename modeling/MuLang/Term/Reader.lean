import MuLang.Term

/-!
# Reading terms

The tokens of an expression are read once, from left to right. What is begun and not yet complete
waits on a stack, innermost first: open parentheses and calls, and operators that miss their right
operand. An operator completes what binds at least as tightly as itself and takes the result as its
left operand; a closing parenthesis, a comma or the end completes everything down to the innermost
open parenthesis.
-/
namespace MuLang

/-- Something begun that waits for a term on its right. -/
inductive Pending where
  | group
  | call (callee : Token) (arguments : List Term)
  | assign (assignee operator : Token)
  | unary (op : UnaryOp) (operator : Token)
  | cast (type : TypeName) (target : Token)
  | binary (left : Term) (op : BinaryOp) (operator : Token)
  deriving Inhabited

namespace Pending

/-- Puts a term in the place that was waited for. -/
def fill : Pending → Term → Term
  | .group, term => term
  | .call callee arguments, term => .call callee (arguments ++ [term])
  | .assign assignee operator, term => .assign assignee operator term
  | .unary op operator, term => .unary op operator term
  | .cast type target, term => .cast type target term
  | .binary left op operator, term => .binary left op operator term

/-- Whether a term is complete for what waits on it when something of a power follows. The power 0
stands for everything that is no operator. An assignment takes all that follows, and open
parentheses wait for their own end. -/
def yieldsTo (power : Nat) : Pending → Bool
  | .group | .call .. => false
  | .assign .. => power = 0
  | .unary .. | .cast .. => true
  | .binary _ op _ => power ≤ op.power

/-- Fills in what waits on the stack, from the innermost outwards. -/
def fillAll (stack : List Pending) (term : Term) : Term := stack.foldl (fun t p => p.fill t) term

/-- Completes what waits on the stack before something of a power is read. -/
def settle (power : Nat) : List Pending → Term → List Pending × Term
  | [], term => ([], term)
  | waiting :: rest, term =>
    if waiting.yieldsTo power then settle power rest (waiting.fill term)
    else (waiting :: rest, term)

end Pending

/-- The token that stands for the end of an expression, at the last of its tokens. -/
def endOfExpression (last : Token) : Token := ⟨⟨.endOfFile, "end of expression"⟩, last.span⟩

namespace Term

/-- The term of a stack whose reading fails at a token. -/
def abandon (stack : List Pending) (parts : List Term) (cause : Cause) (token : Token) : Term :=
  Pending.fillAll stack (.broken parts (.atToken cause token))

mutual

/-- Reads on where an operand is due. -/
def operand (stop : Token) (stack : List Pending) : List Token → Term
  | [] => abandon stack [] (.expectedToken "an expression" stop.text) stop
  | token :: rest =>
    match token.kind with
    | .literal kind => afterOperand stop stack (.literal kind token) rest
    | .identifier =>
      match rest with
      | [] => afterOperand stop stack (.read token) []
      | next :: rest =>
        if next.kind = .openParen then
          match rest with
          | [] => operand stop (.call token [] :: stack) []
          | close :: rest =>
            if close.kind = .closeParen then afterOperand stop stack (.call token []) rest
            else operand stop (.call token [] :: stack) (close :: rest)
        else if next.kind.isAssignment then operand stop (.assign token next :: stack) rest
        else afterOperand stop stack (.read token) (next :: rest)
    | .openParen =>
      match rest with
      | target :: close :: rest =>
        match target.kind.typeName? with
        | some type =>
          if close.kind = .closeParen then operand stop (.cast type target :: stack) rest
          else operand stop (.group :: stack) (target :: close :: rest)
        | none => operand stop (.group :: stack) (target :: close :: rest)
      | rest => operand stop (.group :: stack) rest
    | kind =>
      match kind.unary? with
      | some op => operand stop (.unary op token :: stack) rest
      | none => abandon stack [] (.unexpectedToken token.text) token

/-- Reads on after a complete operand. -/
def afterOperand (stop : Token) (stack : List Pending) (term : Term) : List Token → Term
  | [] =>
    match Pending.settle 0 stack term with
    | ([], whole) => whole
    | (waiting, part) => abandon waiting [part] (.expectedToken "`)`" stop.text) stop
  | token :: rest =>
    match token.kind with
    | .binary op =>
      let (waiting, left) := Pending.settle op.power stack term
      operand stop (.binary left op token :: waiting) rest
    | kind =>
      match Pending.settle 0 stack term with
      | ([], whole) => abandon [] [whole] (.unexpectedToken token.text) token
      | (.call callee arguments :: waiting, last) =>
        if kind = .closeParen then
          afterOperand stop waiting (.call callee (arguments ++ [last])) rest
        else if kind = .comma then
          operand stop (.call callee (arguments ++ [last]) :: waiting) rest
        else
          abandon (.call callee arguments :: waiting) [last] (.expectedToken "`)`" token.text) token
      | (opened :: waiting, inner) =>
        if kind = .closeParen then afterOperand stop waiting inner rest
        else abandon (opened :: waiting) [inner] (.expectedToken "`)`" token.text) token

end

/-- The term that a list of tokens spells. Without tokens an expression is missing after the
`context`. None of the tokens ends the file, since a pass stops where the file ends. -/
def ofTokens (tokens : List Token) (context : Token) : Term :=
  match tokens.getLast? with
  | none => .broken [] ⟨.expectedToken "an expression" context.text, context.span.stop, []⟩
  | some last => operand (endOfExpression last) [] tokens

end Term

end MuLang
