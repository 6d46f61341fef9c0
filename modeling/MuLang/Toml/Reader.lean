import MuLang.Text.Numeral
import MuLang.Toml.Value

/-!
# Reading a TOML document

A reader takes what it understands from the front of a text. Where a text may be read in several
ways, the first reader that understands it decides. A document is read line by line; arrays and
inline tables nest up to a limit.
-/
namespace MuLang.Toml

/-- Takes something from the front of a text, or refuses the text. -/
abbrev Reader := StateT (List Char) Option

namespace Reader

/-! ## Pieces of a line -/

/-- The next character, which stays where it is. -/
def peek : Reader (Option Char) := return (← get).head?

def next : Reader Char := fun
  | [] => none
  | c :: rest => some (c, rest)

def nextWhere (p : Char → Bool) : Reader Char := do
  let c ← next
  if p c then return c else failure

def literal (spelling : String) : Reader Unit := fun cs =>
  if spelling.toList.isPrefixOf cs then some ((), cs.drop spelling.length) else none

/-- The characters up to the first that fails a test. -/
def takeWhile (p : Char → Bool) : Reader (List Char) := fun cs =>
  some (cs.takeWhile p, cs.dropWhile p)

def takeSome (p : Char → Bool) : Reader (List Char) := do
  let cs ← takeWhile p
  if cs.isEmpty then failure else return cs

/-- As many digits as asked for. -/
def takeDigits (count : Nat) : Reader (List Char) := fun cs =>
  let digits := cs.take count
  if digits.length = count && digits.all Char.isDigit then some (digits, cs.drop count) else none

def isSpace (c : Char) : Bool := c == ' ' || c == '\t'

def spaces : Reader Unit := discard (takeWhile isSpace)

def newline : Reader Unit := literal "\n" <|> literal "\r\n"

/-- Characters that may stand in a comment, and in a text where they have no other meaning. -/
def isPlain (c : Char) : Bool := c == '\t' || (0x20 ≤ c.toNat && c.toNat != 0x7F)

def comment : Reader Unit := do
  literal "#"
  discard (takeWhile isPlain)

/-- A comment, if there is one, and the end of the line. -/
def endOfLine : Reader Unit := do
  spaces
  if (← peek) = some '#' then comment
  if (← peek).isSome then newline

/-- Space, comments and line ends, so many lines of them at most. -/
def gaps : Nat → Reader Unit
  | 0 => spaces
  | fuel + 1 => do
    spaces
    match ← peek with
    | some '#' => do
      comment
      if (← peek).isSome then newline
      gaps fuel
    | some '\n' | some '\r' => do
      newline
      gaps fuel
    | _ => return

/-- Space, comments and line ends, which may stand between lines and between the elements of an
array. -/
def skipGaps : Reader Unit := do gaps (← get).length

/-! ## Texts -/

/-- The character with a code in hexadecimal digits. -/
def scalar (digits : Nat) : Reader Char := fun cs =>
  let code := cs.take digits
  let value := Text.digitsValue 16 code
  if code.length = digits && code.all Char.isHexDigit && decide value.isValidChar then
    some (Char.ofNat value, cs.drop digits)
  else none

def escape : Reader Char := do
  literal "\\"
  match ← next with
  | 'b' => return '\x08'
  | 't' => return '\t'
  | 'n' => return '\n'
  | 'f' => return '\x0c'
  | 'r' => return '\r'
  | '"' => return '"'
  | '\\' => return '\\'
  | 'u' => scalar 4
  | 'U' => scalar 8
  | _ => failure

/-- A text without the space and the line ends at its front. -/
def trimLines : List Char → List Char
  | ' ' :: rest => trimLines rest
  | '\t' :: rest => trimLines rest
  | '\n' :: rest => trimLines rest
  | '\r' :: '\n' :: rest => trimLines rest
  | cs => cs

/-- A backslash at the end of a line joins it with the next line that is not blank. -/
def joinLines : Reader Unit := do
  literal "\\"
  spaces
  newline
  modify trimLines

/-- Pieces up to a closing delimiter, which can stand for some more text. -/
def upTo (close piece : Reader (List Char)) : Nat → Reader (List Char)
  | 0 => failure
  | fuel + 1 => close <|> do
    let head ← piece
    return head ++ (← upTo close piece fuel)

def one (reader : Reader Char) : Reader (List Char) := return [← reader]

def empty (reader : Reader Unit) : Reader (List Char) := do
  reader
  return []

/-- Three quotes, before which there may be up to two that belong to the text. -/
def closeLong (mark : Char) : Reader (List Char) := fun cs =>
  let marks := min 5 (cs.takeWhile (· == mark)).length
  if marks < 3 then none else some (List.replicate (marks - 3) mark, cs.drop marks)

def longText (mark : Char) (piece : Reader (List Char)) : Reader (List Char) := do
  literal (String.ofList [mark, mark, mark])
  newline <|> pure ()
  upTo (closeLong mark) (piece <|> (do newline; return ['\n'])) (← get).length

def shortText (mark : Char) (piece : Reader (List Char)) : Reader (List Char) := do
  literal (String.ofList [mark])
  upTo (empty (literal (String.ofList [mark]))) piece (← get).length

/-- A text on one line: with escapes between double quotes, as it stands between single ones. -/
def quoted : Reader String :=
  String.ofList <$>
    (shortText '"' (one (nextWhere fun c => isPlain c && c != '"' && c != '\\') <|> one escape) <|>
     shortText '\'' (one (nextWhere fun c => isPlain c && c != '\'')))

/-- A text that may go over several lines. -/
def multiline : Reader String :=
  String.ofList <$>
    (longText '"'
      (one (nextWhere fun c => isPlain c && c != '\\') <|> empty joinLines <|> one escape) <|>
     longText '\'' (one (nextWhere isPlain)))

/-! ## Keys -/

def isBare (c : Char) : Bool := c.isAlphanum || c == '_' || c == '-'

def simpleKey : Reader String := do
  match ← peek with
  | some '"' | some '\'' => quoted
  | _ => String.ofList <$> takeSome isBare

/-- The parts of a dotted key, with the space around them. -/
def keyParts : Nat → Reader (List String)
  | 0 => failure
  | fuel + 1 => do
    spaces
    let part ← simpleKey
    spaces
    if (← peek) = some '.' then do
      literal "."
      return part :: (← keyParts fuel)
    else return [part]

/-- How deep keys, arrays and inline tables nest at most. -/
def depthLimit : Nat := 79

def key : Reader Key := do
  let parts ← keyParts depthLimit
  return ⟨parts.dropLast, parts.getLast?.getD ""⟩

/-! ## Numbers -/

/-- Digits after the first one. Between two digits there may be an underscore. -/
def moreDigits (isDigit : Char → Bool) : List Char → List Char × List Char
  | [] => ([], [])
  | '_' :: c :: rest =>
    if isDigit c then
      let (digits, rest) := moreDigits isDigit rest
      (c :: digits, rest)
    else ([], '_' :: c :: rest)
  | c :: rest =>
    if isDigit c then
      let (digits, rest) := moreDigits isDigit rest
      (c :: digits, rest)
    else ([], c :: rest)

def digits (isDigit : Char → Bool) : Reader (List Char) := do
  let first ← nextWhere isDigit
  return first :: (← fun cs => some (moreDigits isDigit cs))

/-- A sign, if there is one: whether it is a minus. -/
def sign : Reader Bool := do
  match ← peek with
  | some '-' => literal "-"; return true
  | some '+' => literal "+"; return false
  | _ => return false

/-- A whole number: a sign, and digits that do not begin with a needless zero. -/
def whole : Reader (Bool × List Char) := do
  let negative ← sign
  if (← peek) = some '0' then do
    literal "0"
    return (negative, ['0'])
  else return (negative, ← digits Char.isDigit)

def exponent : Reader Int := do
  discard (nextWhere fun c => c == 'e' || c == 'E')
  let negative ← sign
  let magnitude : Int := Text.digitsValue 10 (← digits Char.isDigit)
  return if negative then -magnitude else magnitude

def fraction : Reader (List Char) := do
  literal "."
  digits Char.isDigit

/-- A number with a fraction, an exponent, or both. One that is too large to represent is
refused, unless it is negative. -/
def decimal : Reader Double := do
  let (negative, before) ← whole
  let (after, power) ← (do return ([], ← exponent)) <|>
    (do return (← fraction, ← exponent <|> pure 0))
  let mantissa := Text.digitsValue 10 (before ++ after)
  let number := Double.ofDecimal negative mantissa (power - after.length)
  if number = .infinite false then failure else return number

def special : Reader Double := do
  let negative ← sign
  (do literal "inf"; return .infinite negative) <|> (do literal "nan"; return .nan)

/-- The digits of a number in another base, after its mark. -/
def based (mark : String) (base : Nat) (isDigit : Char → Bool) : Reader Int := do
  literal mark
  return (Text.digitsValue base (← digits isDigit) : Nat)

def integer : Reader Int := do
  let n ←
    based "0x" 16 Char.isHexDigit <|> based "0o" 8 (fun c => '0' ≤ c && c ≤ '7') <|>
    based "0b" 2 (fun c => c == '0' || c == '1') <|>
    (do
      let (negative, digits) ← whole
      let magnitude : Int := Text.digitsValue 10 digits
      return if negative then -magnitude else magnitude)
  if Text.fitsSigned 64 n then return n else failure

/-! ## Dates and times -/

/-- A number of as many digits as asked for, between two bounds. -/
def bounded (count low high : Nat) : Reader Nat := do
  let n := Text.digitsValue 10 (← takeDigits count)
  if low ≤ n && n ≤ high then return n else failure

def daysInMonth (year month : Nat) : Nat :=
  if month = 2 then
    if year % 4 = 0 ∧ (year % 100 ≠ 0 ∨ year % 400 = 0) then 29 else 28
  else if month = 4 ∨ month = 6 ∨ month = 9 ∨ month = 11 then 30
  else 31

def date : Reader Unit := do
  let year ← bounded 4 0 9999
  literal "-"
  let month ← bounded 2 1 12
  literal "-"
  discard (bounded 2 1 (daysInMonth year month))

def hourAndMinute : Reader Unit := do
  discard (bounded 2 0 23)
  literal ":"
  discard (bounded 2 0 59)

def time : Reader Unit := do
  hourAndMinute
  literal ":"
  discard (bounded 2 0 60)
  (do literal "."; discard (takeSome Char.isDigit)) <|> pure ()

def offset : Reader Unit :=
  discard (nextWhere fun c => c == 'Z' || c == 'z') <|> do
    discard (nextWhere fun c => c == '+' || c == '-')
    hourAndMinute

def moment : Reader Unit :=
  (do
    date
    (do
      discard (nextWhere fun c => c == 'T' || c == 't' || c == ' ')
      time
      offset <|> pure ()) <|> pure ()) <|>
  time

/-! ## Values -/

/-- The elements of an array up to its closing bracket. A comma may follow the last one. -/
def elements (value : Reader Value) : Nat → Reader (List Value)
  | 0 => failure
  | fuel + 1 => do
    skipGaps
    if (← peek) = some ']' then do
      literal "]"
      return []
    else do
      let item ← value
      skipGaps
      if (← peek) = some ',' then do
        literal ","
        return item :: (← elements value fuel)
      else do
        literal "]"
        return [item]

def pair (value : Reader Value) : Reader (Key × Value) := do
  let key ← key
  literal "="
  spaces
  return (key, ← value)

/-- The pairs of an inline table up to its closing brace, at least one. -/
def pairs (value : Reader Value) : Nat → Reader (List (Key × Value))
  | 0 => failure
  | fuel + 1 => do
    let pair ← pair value
    spaces
    if (← peek) = some ',' then do
      literal ","
      return pair :: (← pairs value fuel)
    else do
      literal "\x7d"
      return [pair]

/-- An inline table, on one line but for what its values take. -/
def inlineTable (value : Reader Value) : Reader Value := do
  literal "\x7b"
  spaces
  if (← peek) = some '\x7d' then do
    literal "\x7d"
    return .table .braces []
  else do
    match Entries.ofPairs? (← pairs value (← get).length) with
    | some entries => return .table .braces entries
    | none => failure

def array (value : Reader Value) : Reader Value := do
  literal "["
  return .array (← elements value (← get).length)

/-- A value that holds no others. -/
def simpleValue : Reader Value :=
  Value.text <$> multiline <|> Value.text <$> quoted <|>
  (do literal "true"; return .bool true) <|> (do literal "false"; return .bool false) <|>
  (do moment; return .moment) <|> Value.decimal <$> decimal <|> Value.decimal <$> special <|>
  Value.integer <$> integer

/-- A value in which others nest at most as deep as given. -/
def value : Nat → Reader Value
  | 0 => simpleValue
  | depth + 1 => array (value depth) <|> inlineTable (value depth) <|> simpleValue

/-! ## Documents -/

def header : Reader Header :=
  (do
    literal "[["
    let key ← key
    literal "]]"
    return .repeated key) <|>
  (do
    literal "["
    let key ← key
    literal "]"
    return .once key)

/-- A header or an entry. -/
def content : Reader Line := do
  if (← peek) = some '[' then return .header (← header)
  else
    let (key, value) ← pair (value depthLimit)
    return .entry key value

def line : Reader Line := do
  let line ← content
  endOfLine
  return line

/-- All lines of a document. -/
def lines : Nat → Reader (List Line)
  | 0 => failure
  | fuel + 1 => do
    skipGaps
    if (← peek).isNone then return []
    else return (← line) :: (← lines fuel)

/-- The lines of a document. It may begin with a byte order mark. -/
def document : Reader (List Line) := do
  literal "\ufeff" <|> pure ()
  lines ((← get).length + 1)

end Reader

/-- The entries of a document, or `none` where it is malformed. -/
def Entries.parse? (text : String) : Option Entries := do
  let (lines, _) ← Reader.document.run text.toList
  Entries.ofLines? lines

end MuLang.Toml
