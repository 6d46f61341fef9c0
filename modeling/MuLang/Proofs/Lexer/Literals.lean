import MuLang.Proofs.Lexer.Scan

/-!
# Literals of any content

Every text and every character has a literal. A backslash is put before what would end the literal
and before each backslash, which would be taken together with what follows it.
-/
namespace MuLang

open Lexer

/-- A source text that is one lexeme has just that and its end for tokens. -/
theorem tokenize_of_writtenAs {lexeme : Lexeme} {cs : List Char} (h : lexeme.WrittenAs cs)
    (file : String) : tokenize (String.ofList cs) file =
      .ok [⟨lexeme, ⟨⟨0, file⟩, ⟨(String.ofList cs).utf8ByteSize, file⟩⟩⟩,
        endOfFile file (String.ofList cs).utf8ByteSize] := by
  have hreads : Reads file 0 cs _ := reads_of_writtenAs h
  rw [tokenize, String.toList_ofList, hreads.scan_eq, tokenAt, Nat.zero_add,
    byteCount_eq_utf8ByteSize]

namespace Lexer

/-- A character as it stands between quotes. -/
def escaped (quote c : Char) : List Char := if c = '\\' ∨ c = quote then ['\\', c] else [c]

/-- A literal for a text, between quotes of one kind. -/
def quoted (quote : Char) (text : String) : String :=
  String.ofList (quote :: text.toList.flatMap (escaped quote) ++ [quote])

variable (quote : Char)

theorem isUnit_escaped (hq : quote ≠ '\n') (c : Char) : IsUnit quote (escaped quote c) := by
  rw [escaped]
  split
  next h =>
    refine .escape ?_
    rintro rfl
    obtain h | h := h
    · cases h
    · exact hq h.symm
  next h =>
    rw [not_or] at h
    exact .plain h.2 h.1

theorem isBody_escaped (hq : quote ≠ '\n') (cs : List Char) :
    IsBody quote (cs.flatMap (escaped quote)) := by
  induction cs with
  | nil => exact .nil
  | cons c cs ih => exact .cons (isUnit_escaped quote hq c) ih

theorem unescape_plain {c : Char} (hc : c ≠ '\\') (rest : List Char) :
    unescape (c :: rest) = c :: unescape rest := by
  rw [unescape]
  intro _ _ h
  exact absurd h hc

/-- Reading a character takes away the backslash that was put before it. -/
theorem unescape_escaped_append (hq : quote ∈ ['"', '\'']) (c : Char) (rest : List Char) :
    unescape (escaped quote c ++ rest) = c :: unescape rest := by
  rw [escaped]
  split
  next h =>
    obtain rfl | rfl := h
    · rfl
    · obtain rfl | rfl : c = '"' ∨ c = '\'' := by simpa using hq
      · rfl
      · rfl
  next h =>
    rw [not_or] at h
    exact unescape_plain h.1 rest

theorem unescape_flatMap_escaped (hq : quote ∈ ['"', '\'']) (cs : List Char) :
    unescape (cs.flatMap (escaped quote)) = cs := by
  induction cs with
  | nil => rfl
  | cons c cs ih => rw [List.flatMap_cons, unescape_escaped_append quote hq, ih]

theorem writtenAs_quoted_text (text : String) : Lexeme.WrittenAs ⟨.literal .string, text⟩
    ('"' :: text.toList.flatMap (escaped '"') ++ ['"']) := by
  have hwritten := Lexeme.WrittenAs.text (isBody_escaped '"' (by decide) text.toList)
  rwa [unescape_flatMap_escaped _ (by decide), String.ofList_toList] at hwritten

theorem writtenAs_quoted_char (c : Char) : Lexeme.WrittenAs ⟨.literal .char, String.singleton c⟩
    ('\'' :: (String.singleton c).toList.flatMap (escaped '\'') ++ ['\'']) := by
  have hbody : (String.singleton c).toList.flatMap (escaped '\'') = escaped '\'' c := by
    rw [String.toList_singleton, List.flatMap_singleton]
  have hvalue := unescape_flatMap_escaped '\'' (by decide) (String.singleton c).toList
  have hunit := isUnit_escaped '\'' (by decide) c
  rw [← hbody] at hunit
  have hwritten := Lexeme.WrittenAs.character hunit
  rwa [hvalue, String.ofList_toList] at hwritten

end Lexer

/-- Every text and every character is the value of the literal that quotes it. -/
theorem tokenize_quoted (file : String) :
    (∀ text, tokenize (quoted '"' text) file =
      .ok [⟨⟨.literal .string, text⟩, ⟨⟨0, file⟩, ⟨(quoted '"' text).utf8ByteSize, file⟩⟩⟩,
        endOfFile file (quoted '"' text).utf8ByteSize]) ∧
    ∀ c, tokenize (quoted '\'' (String.singleton c)) file =
      .ok [⟨⟨.literal .char, String.singleton c⟩,
          ⟨⟨0, file⟩, ⟨(quoted '\'' (String.singleton c)).utf8ByteSize, file⟩⟩⟩,
        endOfFile file (quoted '\'' (String.singleton c)).utf8ByteSize] := by
  constructor
  · intro text
    exact tokenize_of_writtenAs (writtenAs_quoted_text text) file
  · intro c
    exact tokenize_of_writtenAs (writtenAs_quoted_char c) file

end MuLang
