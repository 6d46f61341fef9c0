import MuLang.Diagnostic.Error
import MuLang.Text.Blank

/-!
# Reading source text as tokens

At each place of the text the first rule that matches decides what stands there: blanks and comments
are skipped, names, numbers, texts and characters are read by their shape, and symbols by their
spelling. The rules are ordered so that a longer symbol comes before those it starts with.
-/
namespace MuLang

/-- What can stand at a place of the source text. -/
inductive Rule where
  | blank
  | comment
  | word
  | number
  | text
  | character
  | symbol (spelling : List Char) (kind : Kind)
  deriving DecidableEq, Inhabited

namespace Lexer

def isLetter (c : Char) : Bool := c.isAlpha
def isNameStart (c : Char) : Bool := c.isAlpha || c == '_'
def isNamePart (c : Char) : Bool := c.isAlphanum || c == '_'

/-- The length of what continues a word: more of the name, or a point and another name. -/
def wordTail : List Char → Nat
  | [] => 0
  | '.' :: c :: rest => if isNameStart c then 2 + wordTail rest else 0
  | c :: rest => if isNamePart c then 1 + wordTail rest else 0

/-- The length of a name with its qualifying modules, 0 where there is none. -/
def wordLength : List Char → Nat
  | [] => 0
  | c :: rest => if isNameStart c then 1 + wordTail rest else 0

def digitsLength (cs : List Char) : Nat := (cs.takeWhile Char.isDigit).length

/-- The length of a fraction, its point included, 0 where no digit follows the point. -/
def fractionLength : List Char → Nat
  | '.' :: rest => if digitsLength rest = 0 then 0 else 1 + digitsLength rest
  | _ => 0

/-- A number may end in one letter. -/
def suffixLength : List Char → Nat
  | c :: _ => if isLetter c then 1 else 0
  | [] => 0

def numberLength (cs : List Char) : Nat :=
  let whole := digitsLength cs
  if whole = 0 then 0
  else
    let unsuffixed := whole + fractionLength (cs.drop whole)
    unsuffixed + suffixLength (cs.drop unsuffixed)

/-- The length of what is left of a text literal, its closing quote included, or `none` where it
does not end. A backslash takes any character but a line feed with it. -/
def textTail : List Char → Option Nat
  | [] => none
  | '"' :: _ => some 1
  | '\\' :: '\n' :: _ => none
  | '\\' :: _ :: rest => (textTail rest).map (· + 2)
  | '\\' :: [] => none
  | _ :: rest => (textTail rest).map (· + 1)

def textLength : List Char → Option Nat
  | '"' :: rest => (textTail rest).map (· + 1)
  | _ => none

def characterLength : List Char → Option Nat
  | '\'' :: '\\' :: c :: '\'' :: _ => if c = '\n' then none else some 4
  | '\'' :: c :: '\'' :: _ => if c = '\'' ∨ c = '\\' then none else some 3
  | _ => none

/-- A length, unless it is 0. -/
def positive (length : Nat) : Option Nat := if length = 0 then none else some length

end Lexer

open Lexer in
/-- How many characters a rule matches at the start of a text, at least one if any. -/
def Rule.length? (rule : Rule) (cs : List Char) : Option Nat :=
  match rule with
  | .blank => positive (cs.takeWhile Text.isBlank).length
  | .comment =>
    match cs with
    | '/' :: '/' :: rest => some (2 + (rest.takeWhile (· != '\n')).length)
    | _ => none
  | .word => positive (wordLength cs)
  | .number => positive (numberLength cs)
  | .text => textLength cs
  | .character => characterLength cs
  | .symbol spelling _ => if spelling.isPrefixOf cs then positive spelling.length else none

/-- The symbols of the language, a longer one before those it starts with. -/
def symbols : List (List Char × Kind) :=
  [(['\x7b'], .openCurly), (['\x7d'], .closeCurly), (['('], .openParen), ([')'], .closeParen),
   ([';'], .semicolon), ([','], .comma), (['~'], .tilde), ([':', ':'], .doubleColon),
   (['?'], .question), (['-', '>'], .arrow), (['<', '<', '='], .assign .shiftLeft),
   (['>', '>', '='], .assign .shiftRight), (['<', '<'], .binary .shiftLeft),
   (['>', '>'], .binary .shiftRight), (['=', '='], .binary .equal),
   (['!', '='], .binary .notEqual), (['<', '='], .binary .lessEqual),
   (['>', '='], .binary .greaterEqual), (['&', '&'], .binary .logicalAnd),
   (['|', '|'], .binary .logicalOr), (['+', '+'], .plusPlus), (['-', '-'], .minusMinus),
   (['+', '='], .assign .add), (['-', '='], .assign .subtract), (['*', '='], .assign .multiply),
   (['/', '='], .assign .divide), (['%', '='], .assign .remainder), (['&', '='], .assign .bitAnd),
   (['|', '='], .assign .bitOr), (['^', '='], .assign .bitXor), (['='], .assign .plain),
   (['!'], .bang), (['<'], .binary .less), (['>'], .binary .greater), (['&'], .binary .bitAnd),
   (['|'], .binary .bitOr), (['^'], .binary .bitXor), (['+'], .binary .add),
   (['-'], .binary .subtract), (['*'], .binary .multiply), (['/'], .binary .divide),
   (['%'], .binary .remainder)]

/-- All rules in the order in which they are tried. -/
def Rule.all : List Rule :=
  [.blank, .comment, .word, .number, .text, .character] ++
    symbols.map fun entry => .symbol entry.1 entry.2

/-- The words with a meaning of their own; any other word is an identifier. -/
def reserved : List (String × Kind) :=
  [("module", .keyword .moduleWord), ("fn", .keyword .fnWord), ("nat", .keyword .natWord),
   ("if", .keyword .ifWord), ("else", .keyword .elseWord), ("while", .keyword .whileWord),
   ("for", .keyword .forWord), ("return", .keyword .returnWord),
   ("STANDARDLIB_FINISH_CODE", .keyword .finishWord),
   ("pub", .modifier .pub), ("priv", .modifier .priv), ("prot", .modifier .prot),
   ("own", .modifier .own), ("mut", .modifier .mutable), ("const", .modifier .constant),
   ("nullable", .modifier .nullable), ("nonnull", .modifier .nonnull),
   ("int", .typeName .int), ("long", .typeName .long), ("double", .typeName .double),
   ("float", .typeName .float), ("bool", .typeName .bool), ("string", .typeName .string),
   ("char", .typeName .char), ("void", .typeName .void),
   ("true", .literal .bool), ("false", .literal .bool), ("null", .literal .null)]

/-- The kind of a word. -/
def wordKind (word : String) : Kind := (reserved.lookup word).getD .identifier

namespace Lexer

/-- The value of a literal's body. A backslash makes `n`, `t`, `r` and `0` the line feed, the tab,
the carriage return and the null character, and a backslash or a quote itself; before any other
character it stays. -/
def unescape : List Char → List Char
  | [] => []
  | '\\' :: c :: rest =>
    match c with
    | 'n' => '\n' :: unescape rest
    | 't' => '\t' :: unescape rest
    | 'r' => '\r' :: unescape rest
    | '0' => '\x00' :: unescape rest
    | '\\' => '\\' :: unescape rest
    | '"' => '"' :: unescape rest
    | '\'' => '\'' :: unescape rest
    | other => '\\' :: other :: unescape rest
  | c :: rest => c :: unescape rest

/-- A number without its suffix. A fraction may end in `f` and a whole number in `l`. -/
def numberLexeme (slice : List Char) : Except Cause Lexeme :=
  let fractional := slice.contains '.'
  match slice.getLast? with
  | some c =>
    if (c = 'f' ∨ c = 'F') ∧ fractional then
      .ok ⟨.literal .float, String.ofList slice.dropLast⟩
    else if (c = 'l' ∨ c = 'L') ∧ ¬fractional then
      .ok ⟨.literal .long, String.ofList slice.dropLast⟩
    else if c.isDigit then
      .ok ⟨.literal (if fractional then .double else .integer), String.ofList slice⟩
    else .error (.malformedNumber (String.ofList slice))
  | none => .error (.malformedNumber "")

/-- The value of a literal between two quotes. -/
def unquoted (slice : List Char) : String := String.ofList (unescape (slice.drop 1).dropLast)

end Lexer

open Lexer in
/-- What a slice of the source text that a rule has matched says, if it says anything. -/
def Rule.lexeme? (rule : Rule) (slice : List Char) : Except Cause (Option Lexeme) :=
  match rule with
  | .blank | .comment => .ok none
  | .word => .ok (some ⟨wordKind (String.ofList slice), String.ofList slice⟩)
  | .number => (numberLexeme slice).map some
  | .text => .ok (some ⟨.literal .string, unquoted slice⟩)
  | .character => .ok (some ⟨.literal .char, unquoted slice⟩)
  | .symbol spelling kind => .ok (some ⟨kind, String.ofList spelling⟩)

/-- The first of some rules that matches, with the length of its match. -/
def Rule.first? (cs : List Char) : List Rule → Option (Rule × Nat)
  | [] => none
  | rule :: rest =>
    match rule.length? cs with
    | some length => some (rule, length)
    | none => first? cs rest

theorem Lexer.positive_eq_some {length n : Nat} (h : Lexer.positive length = some n) : 0 < n := by
  unfold Lexer.positive at h
  split at h
  · cases h
  · cases h; omega

theorem Rule.length?_pos {rule : Rule} {cs : List Char} {n : Nat}
    (h : rule.length? cs = some n) : 0 < n := by
  cases rule with
  | blank => exact Lexer.positive_eq_some h
  | comment =>
    simp only [Rule.length?] at h
    split at h
    · cases h; omega
    · cases h
  | word => exact Lexer.positive_eq_some h
  | number => exact Lexer.positive_eq_some h
  | text =>
    simp only [Rule.length?, Lexer.textLength] at h
    split at h
    · obtain ⟨k, _, rfl⟩ := Option.map_eq_some_iff.1 h; omega
    · cases h
  | character =>
    simp only [Rule.length?] at h
    unfold Lexer.characterLength at h
    split at h
    · split at h <;> cases h; omega
    · split at h <;> cases h; omega
    · cases h
  | symbol spelling kind =>
    simp only [Rule.length?] at h
    split at h
    · exact Lexer.positive_eq_some h
    · cases h

theorem Rule.first?_pos {cs : List Char} {rules : List Rule} {rule : Rule} {n : Nat}
    (h : Rule.first? cs rules = some (rule, n)) : 0 < n := by
  induction rules with
  | nil => cases h
  | cons head rest ih =>
    simp only [Rule.first?] at h
    split at h
    · next hl => cases h; exact length?_pos hl
    · exact ih h

namespace Lexer

/-- The number of bytes of a text. -/
def byteCount : List Char → Nat
  | [] => 0
  | c :: cs => c.utf8Size + byteCount cs

/-- The tokens of a text that starts at a byte offset of a file, up to and including the end of the
file. Every match is at least one character long, so each step leaves less to read. -/
def scan (file : String) (offset : Nat) (cs : List Char) : Except Error (List Token) :=
  match cs with
  | [] => .ok [⟨⟨.endOfFile, "EOF"⟩, ⟨⟨offset, file⟩, ⟨offset, file⟩⟩⟩]
  | c :: rest =>
    match h : Rule.first? (c :: rest) Rule.all with
    | none => .error ⟨.unrecognisedToken (String.ofList [c]), ⟨offset, file⟩, []⟩
    | some (rule, length) =>
      have _positive : 0 < length := Rule.first?_pos h
      let slice := (c :: rest).take length
      let next := offset + byteCount slice
      match rule.lexeme? slice with
      | .error cause => .error ⟨cause, ⟨offset, file⟩, []⟩
      | .ok none => scan file next ((c :: rest).drop length)
      | .ok (some lexeme) =>
        (scan file next ((c :: rest).drop length)).map
          (⟨lexeme, ⟨⟨offset, file⟩, ⟨next, file⟩⟩⟩ :: ·)
termination_by cs.length
decreasing_by
  all_goals
    simp only [List.length_drop, List.length_cons]
    omega

end Lexer

/-- The tokens of a source text, or the first thing in it that is no token. The list always ends
with the token for the end of the file. -/
def tokenize (source : String) (file : String) : Except Error (List Token) :=
  Lexer.scan file 0 source.toList

end MuLang
