import MuLang.Text.Printable

/-!
# Quoted text

How a diagnostic quotes a piece of program text: between double quotes, with the characters that
would be misread written as escapes.
-/
namespace MuLang.Text

/-- The code of a character in lower-case hexadecimal, as in `\u{301}`. -/
def codeEscape (c : Char) : List Char :=
  ['\\', 'u', '\x7b'] ++ Nat.toDigits 16 c.toNat ++ ['\x7d']

/-- The written form of one character between double quotes. A single quote stands for itself. -/
def escapeChar (c : Char) : List Char :=
  if c = '\x00' then ['\\', '0']
  else if c = '\t' then ['\\', 't']
  else if c = '\r' then ['\\', 'r']
  else if c = '\n' then ['\\', 'n']
  else if c = '"' then ['\\', '"']
  else if c = '\\' then ['\\', '\\']
  else if isExtending c then codeEscape c
  else if isPrintable c then [c]
  else codeEscape c

/-- A text between double quotes, escaped where needed. -/
def quote (text : String) : String :=
  String.ofList ('"' :: text.toList.flatMap escapeChar ++ ['"'])

end MuLang.Text
