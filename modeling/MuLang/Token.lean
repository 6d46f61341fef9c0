import MuLang.Datatype
import MuLang.Modifier

/-!
# Tokens

The words of a program. A token is a lexeme, which is its kind and its text, together with the place
where it stands. The place serves diagnostics alone: two tokens with one lexeme are the same word.
-/
namespace MuLang

/-- A byte offset into a named source file. -/
structure Position where
  offset : Nat
  file : String
  deriving DecidableEq, Inhabited

/-- The place of everything that was never written in a file. -/
def Position.nowhere : Position := ⟨0, "<null>"⟩

/-- A stretch of a source file, from its first byte to the byte after its last. -/
structure Span where
  start : Position
  stop : Position
  deriving DecidableEq, Inhabited

/-- The span of tokens that no file contains. -/
def Span.nowhere : Span := ⟨.nowhere, .nowhere⟩

/-- The kinds of literal. -/
inductive Literal where
  | integer | long | double | float | bool | string | char | null
  deriving DecidableEq, Inhabited

/-- The type that a literal denotes. -/
def Literal.datatype : Literal → Datatype
  | .integer => .plain .int
  | .long => .plain .long
  | .double => .plain .double
  | .float => .plain .float
  | .bool => .bool
  | .string => .plain .string
  | .char => .plain .char
  | .null => .null

/-- The words that introduce a statement. -/
inductive Keyword where
  | moduleWord | fnWord | natWord
  | ifWord | elseWord | whileWord | forWord | returnWord
  | finishWord
  deriving DecidableEq, Inhabited

/-- The kinds of token. -/
inductive Kind where
  | endOfFile
  | identifier
  | literal (l : Literal)
  | keyword (word : Keyword)
  | modifier (m : Modifier)
  | typeName (name : TypeName)
  | binary (op : BinaryOp)
  | assign (op : AssignOp)
  | bang
  | openCurly | closeCurly | openParen | closeParen
  | semicolon | comma | tilde | doubleColon | question | arrow
  | plusPlus | minusMinus
  deriving DecidableEq, Inhabited

namespace Kind

def modifier? : Kind → Option Modifier
  | .modifier m => some m
  | _ => none

def typeName? : Kind → Option TypeName
  | .typeName name => some name
  | _ => none

def literal? : Kind → Option Literal
  | .literal l => some l
  | _ => none

def binary? : Kind → Option BinaryOp
  | .binary op => some op
  | _ => none

def assign? : Kind → Option AssignOp
  | .assign op => some op
  | _ => none

/-- The unary operator that a kind of token stands for where an operand is due. -/
def unary? : Kind → Option UnaryOp
  | .binary .subtract => some .negate
  | .bang => some .logicalNot
  | _ => none

/-- The binary operator that a compound assignment applies. -/
def compound? (kind : Kind) : Option BinaryOp := kind.assign?.bind AssignOp.binary?

def isModifier (kind : Kind) : Bool := kind.modifier?.isSome

def isTypeName (kind : Kind) : Bool := kind.typeName?.isSome

def isLiteral (kind : Kind) : Bool := kind.literal?.isSome

/-- Plain assignment and every compound one. -/
def isAssignment (kind : Kind) : Bool := kind.assign?.isSome

/-- The kind of value that a type name stands for. -/
def primitive? (kind : Kind) : Option Primitive := kind.typeName?.map Primitive.ofTypeName

end Kind

/-- What a token says: its kind and its text. The text of a literal is its value, without a suffix
and with its escapes resolved. -/
structure Lexeme where
  kind : Kind
  text : String
  deriving DecidableEq, Inhabited

/-- A lexeme and the place where it stands. -/
structure Token extends Lexeme where
  span : Span
  deriving DecidableEq, Inhabited

namespace Token

/-- A token that no file contains. -/
def synthetic (kind : Kind) (text : String) : Token := ⟨⟨kind, text⟩, .nowhere⟩

/-- The same word, wherever it stands. -/
def same (left right : Token) : Bool := left.toLexeme = right.toLexeme

/-- The type that a type name stands for, with the given nullability. -/
def datatype? (token : Token) (nullable : Bool) : Option Datatype :=
  token.kind.primitive?.map (⟨·, nullable⟩)

/-- The modifiers among some tokens, in order. -/
def modifiers (tokens : List Token) : List Modifier := tokens.filterMap (·.kind.modifier?)

/-- Whether the modifiers among some tokens make a type nullable. -/
def areNullable (tokens : List Token) : Bool := (modifiers tokens).contains .nullable

/-- The first token whose modifier satisfies a condition. -/
def firstModifier? (condition : Modifier → Bool) (tokens : List Token) : Option Token :=
  tokens.find? (·.kind.modifier?.any condition)

/-- The first token after `earlier` that repeats the kind of one before it. -/
def firstRepeated? (earlier : List Token) : List Token → Option Token
  | [] => none
  | token :: rest =>
    if earlier.any (·.kind = token.kind) then some token
    else firstRepeated? (earlier ++ [token]) rest

/-- Whether two kinds are different modifiers of one axis. -/
def clash (left right : Kind) : Bool :=
  match left.modifier?, right.modifier? with
  | some first, some second => first != second && first.axis == second.axis
  | _, _ => false

/-- The first token after `earlier` whose modifier differs from one before it on the same axis. -/
def firstClashing? (earlier : List Token) : List Token → Option Token
  | [] => none
  | token :: rest =>
    if earlier.any (fun before => clash before.kind token.kind) then some token
    else firstClashing? (earlier ++ [token]) rest

/-- The leading modifiers of a list of tokens. -/
def leadingModifiers (tokens : List Token) : List Token := tokens.takeWhile (·.kind.isModifier)

/-- A list of tokens without its leading modifiers. -/
def afterModifiers (tokens : List Token) : List Token := tokens.dropWhile (·.kind.isModifier)

end Token

end MuLang
